import Unmangle.Grammar.Parse
import Unmangle.Proofs.Declarator.Opening
import Unmangle.Proofs.Declarator.Poised

/-!
# Reading forms

A form is read from what it is written as, one kind at a time. A parameter without an argument
in scope is a fault, and the first of them that is written comes up.
-/
namespace Unmangle

/-- No parameter may come ahead of its argument, or without one. -/
structure ParseState.Bound (s : ParseState) : Prop where
  ahead : s.forwardAllowed = false
  lambda : s.lambdaLevel = none

theorem Poised.bound {symbol : ByteArray} {base s : ParseState} {rest : List UInt8}
    (h : Poised symbol base rest s) (bound : base.Bound) : s.Bound :=
  ⟨(congrArg Setting.forwardAllowed h.setting).trans bound.ahead,
    (congrArg Setting.lambdaLevel h.setting).trans bound.lambda⟩

/-- The parameters that may be read, and the arguments that they lead to. -/
structure InScope (base : ParseState) (scope : Nat → Option NodeId) : Prop where
  argument : ∀ index, base.work.scopes.argument? 0 index = scope index
  small : ∀ index target, scope index = some target → index < Number.bound
  bound : base.Bound

namespace InScope

variable {symbol : ByteArray} {base s : ParseState} {scope : Nat → Option NodeId} {rest : List UInt8}

theorem deeper (h : InScope base scope) : InScope { base with level := base.level + 1 } scope :=
  ⟨h.argument, h.small, h.bound.1, h.bound.2⟩

/-- The scope is that of the beginning all the way. -/
theorem later (inScope : InScope base scope) (h : Poised symbol base rest s) : InScope s scope where
  argument index := by
    have same : s.work.scopes = base.work.scopes := congrArg Setting.scopes h.setting
    rw [same]
    exact inScope.argument index
  small := inScope.small
  bound := h.bound inScope.bound

end InScope

theorem Tree.Words.isSome {symbol : ByteArray} {tree : Tree} {words : String} {id : NodeId}
    (h : tree.Words symbol words id) : (tree.get? id).isSome := by
  obtain ⟨text, held, -⟩ := h
  rw [held]
  rfl

/-- What is wrong with a parameter that has no argument. -/
def strayFault (index : Nat) : Fault :=
  if index < Number.bound then .badTemplateArgReference else .overflow

/-- The fault of the first parameter without an argument. -/
def strayAmong (scope : Nat → Option NodeId) (indices : List Nat) : Option Fault :=
  (indices.find? fun index => (scope index).isNone).map strayFault

theorem strayAmong_append (scope : Nat → Option NodeId) (indices indices' : List Nat) :
    strayAmong scope (indices ++ indices') =
      (strayAmong scope indices).or (strayAmong scope indices') := by
  unfold strayAmong
  rw [List.find?_append]
  cases indices.find? _ <;> rfl

namespace TypeForm

/-- Levels that reading a form takes. -/
def nest : TypeForm → Nat
  | builtin _ | rare _ | param _ => 1
  | named _ => 4
  | pointer target | reference _ target => target.nest + 1
  | array _ target | qualified _ target => target.nest + 2
  | memberPointer scope member => max scope.nest member.nest + 2
  | function _ result params => (params.map nest).foldr max result.nest + 2

end TypeForm

namespace Parse.Meets

variable {α : Type} {symbol : ByteArray} {room : Prop} {due : Option Fault} {limit levels : Nat}
  {base s : ParseState} {rest bytes allowed : List UInt8}

/-- A rule is read where its body is, one level deeper. -/
theorem ruleAt {rule : Rule} {Q : NodeId → ParseState → Prop} (spent : base.level + levels = limit)
    (fits : room → base.level + 1 < limit) (h : Poised symbol base rest s)
    (body : ∀ levels, base.level + 1 + levels = limit → base.level + 1 < limit →
      Poised symbol { base with level := base.level + 1 } rest { s with level := s.level + 1 } →
      Meets room due (rule.body (Rule.parse limit levels)) { s with level := s.level + 1 }
        fun id t => Q id (Parse.up t)) :
    Meets room due (Rule.parse limit levels rule) s Q := by
  have level := h.level
  refine Meets.rule (level ▸ spent) (fun enough => level ▸ fits enough) ?_
  intro levels spent below
  exact body levels (level ▸ spent) (level ▸ below) h.deeper

/-- Something was read, and a name stands for it. -/
def Found (symbol : ByteArray) (base : ParseState) (rest : List UInt8) (held : Tree → NodeId → Prop)
    (id : NodeId) (t : ParseState) : Prop :=
  Poised symbol base rest t ∧ held t.work.tree id

/-- The name holds a node, and is not on the list yet. -/
def Fresh (symbol : ByteArray) (base : ParseState) (rest : List UInt8) (held : Tree → NodeId → Prop)
    (id : NodeId) (t : ParseState) : Prop :=
  Found symbol base rest held id t ∧ (t.work.tree.get? id).isSome ∧
    t.work.substitutions.contains id = false

variable {held : Tree → NodeId → Prop}

theorem Found.up {id : NodeId} {t : ParseState}
    (h : Found symbol { base with level := base.level + 1 } rest held id t) :
    Found symbol base rest held id (Parse.up t) :=
  ⟨h.1.up, h.2⟩

theorem Fresh.up {id : NodeId} {t : ParseState}
    (h : Fresh symbol { base with level := base.level + 1 } rest held id t) :
    Fresh symbol base rest held id (Parse.up t) :=
  ⟨h.1.up, h.2⟩

theorem Fresh.imp {held' : Tree → NodeId → Prop} {id : NodeId} {t : ParseState}
    (h : Fresh symbol base rest held id t) (stronger : held t.work.tree id → held' t.work.tree id) :
    Fresh symbol base rest held' id t :=
  ⟨⟨h.1.1, stronger h.1.2⟩, h.2⟩

/-- The next byte is known. -/
theorem peeked {byte : UInt8} {f : Char → Parse α} {Q : α → ParseState → Prop}
    (h : Poised symbol base (byte :: bytes) s) (next : Meets room due (f (Char.ofNat byte.toNat)) s Q) :
    Meets room due (Parse.peek >>= f) s Q := by
  rw [← peekAt_cons h] at next
  exact after (t := s) rfl next

theorem peekedPair {byte : UInt8} {f : Char × Char → Parse α} {Q : α → ParseState → Prop}
    (h : Poised symbol base (byte :: bytes) s)
    (next : Meets room due (f (Char.ofNat byte.toNat, s.cursor.peekAt 1)) s Q) :
    Meets room due (peekPair >>= f) s Q := by
  rw [← peekAt_cons h] at next
  exact after (t := s) rfl next

/-- A type that is listed when it ends. -/
theorem listing {type : Parse NodeId} (held : Tree → NodeId → Prop)
    (h : Meets room due type s (Fresh symbol base rest held)) :
    Meets room due (Parse.listing type) s (Found symbol base rest held) := by
  refine before (h.weaken fun id t fresh => ?_)
  obtain ⟨⟨ht, stands⟩, isSome, unlisted⟩ := fresh
  refine enlisted ht isSome unlisted ?_
  intro u hu same
  refine pure ⟨hu, ?_⟩
  rw [same]
  exact stands

section Names

variable {ident : Identifier}

/-- No tag comes next. -/
theorem untagged {id : NodeId} {Q : NodeId → ParseState → Prop} (h : Poised symbol base rest s)
    (ahead : Ahead allowed rest) (other : ∀ byte ∈ allowed, byte.toNat ≠ 'B'.toNat)
    (next : Q id s) : Meets room none (abiTags id) s Q := by
  have none := strip?_other "B" rfl h ahead other
  have done : (do return !(← lookingAt "B") : Parse Bool).run s = .ok true s := by
    show EStateM.Result.ok (!(s.cursor.strip? "B".toList).isSome) s = _
    rw [none]
    rfl
  exact after run_get (after done (pure next))

/-- An identifier with no tag behind it. -/
theorem unqualifiedName (tracked : Bool) (small : symbol.size < Number.bound)
    (spent : base.level + levels = limit) (fits : room → base.level + 1 < limit)
    (ahead : Ahead allowed rest) (other : ∀ byte ∈ allowed, byte.toNat ≠ 'B'.toNat)
    (h : Poised symbol base (octets ident.code ++ rest) s) :
    Meets room none (Rule.parse limit levels (.unqualifiedName tracked)) s
      (Fresh symbol base rest fun tree id =>
        tree.Words symbol ident.text id ∧ base.level + 1 < limit) := by
  refine ruleAt spent fits h ?_
  intro levels spent below h
  show Meets room none (Parse.unqualifiedName _ tracked) _ _
  obtain ⟨byte, more, begins, opens⟩ := ident.code_opens
  have first : ∀ byte ∈ Identifier.openers, (Char.ofNat byte.toNat == 'U') = false ∧
      '1' ≤ Char.ofNat byte.toNat ∧ Char.ofNat byte.toNat ≤ '9' := by decide
  obtain ⟨notUnnamed, digit⟩ := first byte opens
  have ahead' := h
  rw [begins] at ahead'
  refine peekedPair ahead' ?_
  dsimp only
  rw [notUnnamed, if_neg Bool.false_ne_true, if_pos digit]
  refine andThen (sourceName small h fun id t ht _ words unlisted => ?_)
  exact untagged ht ahead other (Fresh.up ⟨⟨ht, words, below⟩, words.isSome, unlisted⟩)

/-- An identifier as a name, which arguments may follow. -/
theorem nameWith (tracked : Bool) {Q : NodeId → ParseState → Prop} (small : symbol.size < Number.bound)
    (spent : base.level + levels = limit) (fits : room → base.level + 2 < limit)
    (ahead : Ahead allowed rest) (other : ∀ byte ∈ allowed, byte.toNat ≠ 'B'.toNat)
    (h : Poised symbol base (octets ident.code ++ rest) s)
    (behind : ∀ levels id t, base.level + 1 + levels = limit →
      Fresh symbol { base with level := base.level + 1 } rest
        (fun tree id => tree.Words symbol ident.text id ∧ base.level + 2 < limit) id t →
      Meets room due (do
        if (← peek) == 'I' then
          enlist id
          instantiate (Rule.parse limit levels) tracked id
        else return id) t fun id t => Q id (Parse.up t)) :
    Meets room due (Rule.parse limit levels (.name tracked)) s Q := by
  refine ruleAt spent (fun enough => Nat.lt_of_succ_lt (fits enough)) h ?_
  intro levels spent below h
  show Meets room due (Parse.name _ tracked) _ _
  obtain ⟨byte, more, begins, opens⟩ := ident.code_opens
  have first : ∀ byte ∈ Identifier.openers, (Char.ofNat byte.toNat == 'N') = false ∧
      (Char.ofNat byte.toNat == 'Z') = false ∧ (Char.ofNat byte.toNat == 'S') = false := by
    decide
  obtain ⟨notNested, notLocal, notListed⟩ := first byte opens
  have ahead' := h
  rw [begins] at ahead'
  refine peekedPair ahead' ?_
  dsimp only
  rw [notNested, notLocal, notListed, if_neg Bool.false_ne_true, if_neg Bool.false_ne_true,
    Bool.false_and, if_neg Bool.false_ne_true]
  have opening := ident.ahead_code rest
  refine andThen (rejected "St" rfl h opening (by decide) ?_)
  refine andThen (rejected "L" rfl h opening (by decide) (pure ?_))
  exact (unqualifiedName tracked small spent fits ahead other h).weaken fun id t fresh =>
    behind levels id t spent fresh

/-- No template arguments come next. -/
theorem noArgs (ahead : Ahead TypeForm.followers rest) (h : Poised symbol base rest s) :
    (s.cursor.peekAt 0 == 'I') = false := by
  have other : ∀ byte ∈ TypeForm.followers, (Char.ofNat byte.toNat == 'I') = false := by
    decide
  rw [Cursor.peekAt, h.ahead]
  cases rest with
  | nil => rfl
  | cons byte rest => exact other byte (ahead byte rfl)

/-- An identifier as the name of a type. -/
theorem namedType (small : symbol.size < Number.bound) (spent : base.level + levels = limit)
    (fits : room → base.level + 3 < limit) (ahead : Ahead TypeForm.followers rest)
    (h : Poised symbol base (octets ident.code ++ rest) s) :
    Meets room none (Rule.parse limit levels .namedType) s
      (Fresh symbol base rest fun tree id =>
        tree.Words symbol ident.text id ∧ base.level + 3 < limit) := by
  have opening := ident.ahead_code rest
  refine ruleAt spent (fun enough => by have := fits enough; omega) h fun levels spent below h => ?_
  refine andThen (rejected "Ts" rfl h opening (by decide) ?_)
  refine rejected "Tu" rfl h opening (by decide) ?_
  refine rejected "Te" rfl h opening (by decide) (pure ?_)
  refine andThen (nameWith false small spent fits ahead (by decide) h
    fun levels id t spent fresh => ?_)
  refine after (t := t) rfl ?_
  rw [noArgs ahead fresh.1.1, if_neg Bool.false_ne_true]
  exact pure (pure fresh.up.up)

end Names

end Parse.Meets
end Unmangle
