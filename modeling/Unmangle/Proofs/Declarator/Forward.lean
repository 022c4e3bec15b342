import Unmangle.Proofs.Declarator.Expansion
import Unmangle.Proofs.Declarator.Template
import Unmangle.Proofs.Store.Lookup

/-!
# Parameters ahead of their arguments

In the type of a conversion a parameter is stored before there is an argument for it. It waits on a
list until the name has been read, and then it gets the argument in the place where it is.
-/
namespace Unmangle

def ParseState.awaiting (s : ParseState) (param : NodeId) : ParseState :=
  { s with work := { s.work with forward := s.work.forward.push param } }

/-- A parameter may come ahead of its argument, and arguments behind it are not its own. -/
structure ParseState.Defers (s : ParseState) : Prop where
  ahead : s.forwardAllowed = true
  apart : s.templateArgsAllowed = false

theorem ParseState.Defers.deeper {s : ParseState} (h : s.Defers) :
    ParseState.Defers { s with level := s.level + 1 } :=
  ⟨h.ahead, h.apart⟩

namespace Poised

variable {symbol : ByteArray} {base s : ParseState} {rest : List UInt8}

theorem awaiting (h : Poised symbol base rest s) (param : NodeId) :
    Poised symbol (base.awaiting param) rest (s.awaiting param) :=
  ⟨h.ahead, h.behind, h.intact, h.grows, h.places,
    congrArg (fun setting => { setting with forward := setting.forward.push param }) h.setting⟩

theorem defers (h : Poised symbol base rest s) (defers : base.Defers) : s.Defers :=
  ⟨(congrArg Setting.forwardAllowed h.setting).trans defers.ahead,
    (congrArg Setting.templateArgsAllowed h.setting).trans defers.apart⟩

end Poised

namespace Pattern

variable {tree tree' : Tree} {pattern : Pattern} {param id : NodeId} {index : Nat}

def code (pattern : Pattern) (index : Nat) : String :=
  pattern.form.codeWith fun _ => TypeForm.paramCode index

theorem Leads.stays (h : pattern.Leads tree param id) (later : tree.Keeps tree') :
    pattern.Leads tree' param id := by
  induction h with
  | param => exact .param
  | pointer held _ ih => exact .pointer (later.node _ _ held rfl) ih
  | reference held _ ih => exact .reference (later.node _ _ held rfl) ih

/-- The name stands for a pattern, and the parameter waits for its argument. -/
structure Waits (tree : Tree) (index : Nat) (pattern : Pattern) (param id : NodeId) : Prop where
  leads : pattern.Leads tree param id
  waits : tree.get? param = some (.forwardParam index none)

theorem Waits.grows (h : pattern.Waits tree index param id) (later : tree.Grows tree') :
    pattern.Waits tree' index param id :=
  ⟨h.leads.stays later.keeps, later.extend _ _ h.waits⟩

end Pattern

/-- Where a parameter that waits gets its argument, all that does not wait stays. -/
theorem Store.Intact.keeps_set {tree : Tree} {param : NodeId} {index : Nat} (h : tree.Intact)
    (waits : tree.get? param = some (.forwardParam index none)) (node : Node) :
    tree.Keeps (tree.set param node) := by
  refine ⟨fun id node' held other => ?_, #[], ?_⟩
  · have ne : id ≠ param := by
      rintro rfl
      cases held.symm.trans waits
      cases other
    rw [h.get?_set_of_ne ne, held]
  · rw [Store.lists_set, Array.append_empty]

namespace Parse.Meets

variable {α : Type} {symbol : ByteArray} {due : Option Fault} {limit levels index : Nat}
  {base s : ParseState} {rest : List UInt8} {pattern target : Pattern}

/-- A pattern is read over a parameter that waits from then on. -/
def ReadsAhead (symbol : ByteArray) (index : Nat) (pattern : Pattern) : Prop :=
  ∀ ⦃limit levels : Nat⦄ ⦃base s : ParseState⦄ ⦃rest : List UInt8⦄, base.level + levels = limit →
    base.Defers → Poised symbol base (octets (pattern.code index) ++ rest) s →
    Meets False none (Rule.parse limit levels .type) s fun id t =>
      ∃ param, Poised symbol (base.awaiting param) rest t ∧
        pattern.Waits t.work.tree index param id

/-- A parameter ahead of its argument goes on the list of those that wait. -/
theorem deferredParam (defers : base.Defers) (small : index < Number.bound)
    (h : Poised symbol base (octets (TypeForm.paramCode index) ++ rest) s) :
    Meets False none Parse.templateParam s fun param t =>
      Poised symbol (base.awaiting param) rest t ∧
        t.work.tree.get? param = some (.forwardParam index none) ∧
        t.work.substitutions.contains param = false := by
  have due : (if index < Number.bound then none else some .overflow).or none = (none : Option Fault) := by
    rw [if_pos small]
    rfl
  rw [← due]
  refine paramPlace h ?_
  intro t ht
  refine after run_get ?_
  rw [(ht.defers defers).ahead, Bool.true_and, if_pos (beq_self_eq_true 0)]
  refine andThen (made _ ht fun param u hu _ held unlisted => ?_)
  exact after (run_modify _) (pure ⟨hu.awaiting param, held, unlisted⟩)

/-- A parameter is read before its argument is. -/
theorem param_ahead (small : index < Number.bound) : ReadsAhead symbol index .param := by
  intro limit levels base s rest spent defers h
  have code : Pattern.code .param index = TypeForm.paramCode index := by
    rw [Pattern.code, Pattern.form, TypeForm.codeWith]
  rw [code] at h
  refine ruleAt spent False.elim h ?_
  intro levels spent below h
  show Outcome _ _ _ ((Parse.type (Rule.parse limit levels)).run _)
  rw [run_type_param _ h]
  refine before (before ((deferredParam defers.deeper small h).weaken
    fun param t found => ?_))
  obtain ⟨ht, held, unlisted⟩ := found
  refine after run_get (after (t := t) rfl ?_)
  have apart : t.templateArgsAllowed = false :=
    (congrArg Setting.templateArgsAllowed ht.setting).trans defers.apart
  rw [apart, Bool.false_and, if_neg Bool.false_ne_true]
  refine pure ?_
  refine enlisted ht (isSome_of_held held) unlisted ?_
  intro u hu same
  refine pure ⟨param, hu.up, .param, ?_⟩
  exact (congrArg (fun tree => tree.get? param) same).trans held

/-- A letter in front of a pattern makes it one of another kind. -/
theorem wrapped_ahead (byte : UInt8) (wrap : NodeId → Node)
    (typed : ∀ (call : Calls) (s : ParseState), s.cursor.peekAt 0 = Char.ofNat byte.toNat →
      (Parse.type call).run s = (Parse.listing (Parse.wrappedType call wrap)).run s)
    (code : octets (pattern.code index) = byte :: octets (target.code index))
    (wrapped : ∀ tree param id inner, tree.get? id = some (wrap inner) →
      target.Leads tree param inner → pattern.Leads tree param id)
    (inner : ReadsAhead symbol index target) : ReadsAhead symbol index pattern := by
  intro limit levels base s rest spent defers h
  rw [code] at h
  refine ruleAt spent False.elim h ?_
  intro levels spent below h
  show Outcome _ _ _ ((Parse.type (Rule.parse limit levels)).run _)
  rw [typed _ _ (peekAt_cons h)]
  refine before (advanced [byte] h fun t ht => before ?_)
  refine (inner spent defers.deeper ht).weaken ?_
  intro target u found
  obtain ⟨param, hu, waits⟩ := found
  refine made _ hu ?_
  intro id v hv later held unlisted
  refine enlisted hv (isSome_of_held held) unlisted ?_
  intro w hw same
  refine pure ⟨param, hw.up, ?_⟩
  have waits := waits.grows later
  refine ⟨?_, (congrArg (fun tree => tree.get? param) same).trans waits.waits⟩
  show pattern.Leads w.work.tree param id
  rw [same]
  exact wrapped _ _ _ _ held waits.leads

/-- Every pattern is read ahead of the argument of its parameter. -/
theorem reads_ahead (small : index < Number.bound) (pattern : Pattern) :
    ReadsAhead symbol index pattern := by
  induction pattern with
  | param => exact param_ahead small
  | pointer target ih =>
    refine wrapped_ahead 80 .pointer run_type_pointer ?_ (fun _ _ _ _ => .pointer) ih
    rw [Pattern.code, Pattern.form, TypeForm.codeWith, octets_append]
    rfl
  | reference kind target ih =>
    refine wrapped_ahead (referenceByte kind) (.reference kind) (run_type_reference kind) ?_
      (fun _ _ _ _ => .reference) ih
    rw [Pattern.code, Pattern.form, TypeForm.codeWith, octets_reference]
    rfl

section Answers

variable {param target : NodeId} {outer : Array NodeId}

/-- A waiting parameter is given the argument at its place. -/
theorem run_resolve (held : s.work.tree.get? param = some (.forwardParam index none)) :
    (resolve param).run s = (do
      patch param (.forwardParam index
        (some (← orFault (s.work.scopes.argument? 0 index) .unresolvedForwardReference)))).run s := by
  refine (run_bind_ok (a := .forwardParam index none) (t := s) _ ?_).trans (run_bind_ok _ run_get)
  rw [← Tree.node_of_get? held]
  rfl

/-- The parameter that waits gets the argument in its place, and without one there is a fault. -/
theorem answered {f : Unit → Parse α} {Q : α → ParseState → Prop}
    (waiting : base.work.forward = #[]) (first : ∀ tree, base.work.tree.Grows tree)
    (scopes : base.work.scopes = .of outer) (h : Poised symbol (base.awaiting param) rest s)
    (held : s.work.tree.get? param = some (.forwardParam index none))
    (next : ∀ target t, outer[index]? = some target → Poised symbol base rest t →
      s.work.tree.Keeps t.work.tree →
      t.work.tree.get? param = some (.forwardParam index (some target)) →
      Meets False due (f ()) t Q) :
    Meets False ((if index < outer.size then none else some .unresolvedForwardReference).or due)
      (resolveSince 0 >>= f) s Q := by
  have forward : s.work.forward = #[param] := by
    rw [show s.work.forward = base.work.forward.push param from
      congrArg Setting.forward h.setting, waiting]
    rfl
  have argument : s.work.scopes.argument? 0 index = outer[index]? := by
    rw [show s.work.scopes = .of outer from (congrArg Setting.scopes h.setting).trans scopes]
    rfl
  refine bind (after run_get ?_)
  rw [forward]
  by_cases inside : index < outer.size
  · rw [if_pos inside]
    have found : s.work.scopes.argument? 0 index = some outer[index] := by
      rw [argument, Array.getElem?_eq_getElem inside]
    have resolved : (resolve param).run s = .ok () { s with work := { s.work with
        tree := s.work.tree.set param (.forwardParam index (some outer[index])) } } := by
      rw [run_resolve held, found]
      rfl
    refine andThen (after resolved (pure (known (run_modify _) ?_)))
    refine next outer[index] _ (Array.getElem?_eq_getElem inside)
      ⟨h.ahead, h.behind, h.intact.set _ _, first _, ?_, ?_⟩ (h.intact.keeps_set held _)
      (h.intact.get?_set_self (isSome_of_held held) _)
    · intro place contained
      rw [Store.size_set]
      exact h.places place contained
    · have settled := congrArg (fun setting : Setting => { setting with forward := #[] }) h.setting
      rw [ParseState.setting, ParseState.setting, waiting, forward]
      exact settled
  · rw [if_neg inside]
    have missing : s.work.scopes.argument? 0 index = none := by
      rw [argument, Array.getElem?_eq_none (Nat.le_of_not_lt inside)]
    have fault : (resolve param).run s = .error .unresolvedForwardReference s := by
      rw [run_resolve held, missing]
      rfl
    refine fails (run_bind_error _ (run_bind_error _ fault))

end Answers

end Parse.Meets
end Unmangle
