import Unmangle.Proofs.Formation.Node
import Unmangle.Proofs.Grammar.Yields

/-!
# Steps that store well-formed nodes

A step forms what it stores if every node is well-formed behind it and those before it stay. What
is read need not be regular: then less is asked of the nodes.
-/
namespace Unmangle

/-- The code of a builtin type comes next. -/
def Cursor.atBuiltin (cursor : Cursor) : Bool :=
  (Builtin.spelling? (cursor.peekAt 0)).isSome || cursor.peekAt 0 == 'u' ||
    cursor.peekAt 0 == 'D' &&
      (cursor.peekAt 1 == 'F' || (Builtin.extendedSpelling? (cursor.peekAt 1)).isSome)

/-- `C` or `G` in front of a type that is not builtin, or `dn` in front of a destructor that is
not named by an identifier. -/
def Rule.Irregular : Rule → Cursor → Prop
  | .type, cursor => (cursor.peekAt 0 = 'C' ∨ cursor.peekAt 0 = 'G') ∧
      (cursor.advance 1).atBuiltin = false
  | .baseUnresolvedName, cursor => cursor.peekAt 0 = 'd' ∧ cursor.peekAt 1 = 'n' ∧
      (cursor.peekAt 2).isDigit = false
  | _, _ => False

/-- An irregular rule was read. -/
def Event.Irregular : Event → Prop
  | .reads rule before _ _ => rule.Irregular before.cursor
  | _ => False

variable {symbol : ByteArray} {regular : Prop} {s t : ParseState} {α β : Type}

/-- The step stores well-formed nodes, and its result is as told. -/
def Forms (symbol : ByteArray) (regular : Prop) (p : Parse α) (s : ParseState)
    (Q : α → ParseState → Prop) : Prop :=
  s.Formed symbol regular → Parse.Yields (fun e => regular ∧ e.Irregular) p s fun a t =>
    t.Formed symbol regular ∧ s.work.tree.Stays t.work.tree ∧ Q a t

/-- The step stores well-formed nodes from wherever it starts. -/
def KeepsForm (symbol : ByteArray) (regular : Prop) (p : Parse α) : Prop :=
  ∀ s, Forms symbol regular p s fun _ _ => True

/-- Nothing was read yet that could be referred back to, and nothing is allowed to come ahead. -/
structure ParseState.Fresh (s : ParseState) : Prop where
  entries : s.work.substitutions.entries = #[]
  scopes : s.work.scopes = {}
  forwardAllowed : s.forwardAllowed = false
  lambdaLevel : s.lambdaLevel = none

def Cursor.atMarker (cursor : Cursor) : Bool :=
  ["_Z", "__Z", "___Z", "____Z"].any fun marker => (cursor.strip? marker.toList).isSome

/-- What is known of the node that a rule returns, read from a state into a tree. -/
def Rule.Gives (s : ParseState) (tree : Tree) (id : NodeId) : Rule → Prop
  | .unqualifiedName _ | .operatorName _ | .decltype => tree.Holds .part id
  | .templateArgs _ => tree.Holds .args id
  | .specialName | .localName _ => tree.Holds .printed id
  | .name _ | .nestedName _ | .encoding => s.Fresh → tree.Holds .printed id
  | .substitution => s.Fresh → tree.Holds .part id
  | .type => s.cursor.atBuiltin = true → tree.Holds .single id
  | .symbol => s.Fresh → s.cursor.atMarker = true → tree.Holds .printed id
  | _ => True

/-- Every rule stores well-formed nodes and returns what is known of it. -/
def FormsAll (symbol : ByteArray) (regular : Prop) (call : Calls) : Prop :=
  ∀ rule s, Forms symbol regular (call rule) s fun id t => rule.Gives s t.work.tree id

/-- The change is one of neither the cursor nor the tree. -/
structure Apart (f : ParseState → ParseState) : Prop where
  cursor : ∀ s, (f s).cursor = s.cursor
  tree : ∀ s, (f s).work.tree = s.work.tree

theorem Apart.formed {f : ParseState → ParseState} (apart : Apart f)
    (h : s.Formed symbol regular) : (f s).Formed symbol regular := by
  refine h.of_tree_eq ⟨?_, ?_, ?_⟩ (apart.tree s)
  · rw [apart.cursor]
    exact h.ground.rest
  · rw [apart.cursor]
    exact h.ground.stop
  · rw [apart.tree]
    exact h.ground.intact

namespace Forms

variable {p : Parse α} {Q Q' : α → ParseState → Prop}

theorem weaken (h : Forms symbol regular p s Q)
    (weaker : ∀ a t, s.work.tree.Stays t.work.tree → Q a t → Q' a t) :
    Forms symbol regular p s Q' :=
  fun formed => (h formed).weaken fun a t told => ⟨told.1, told.2.1, weaker a t told.2.1 told.2.2⟩

theorem pure {a : α} (h : Q a s) : Forms symbol regular (Pure.pure a) s Q :=
  fun formed => .pure ⟨formed, .refl _, h⟩

theorem throw (fault : Fault) : Forms symbol regular (Parse.throw fault) s Q :=
  fun _ => .throw fault

/-- What a step formed stays formed behind it. -/
theorem bind {f : α → Parse β} {R : β → ParseState → Prop} (h : Forms symbol regular p s Q)
    (hf : ∀ a t, s.work.tree.Stays t.work.tree → Q a t → Forms symbol regular (f a) t R) :
    Forms symbol regular (p >>= f) s R := by
  intro formed
  refine .bind ((h formed).weaken fun a t told => ?_)
  obtain ⟨formed', stays, told⟩ := told
  exact (hf a t stays told formed').weaken fun b u told =>
    ⟨told.1, stays.trans told.2.1, told.2.2⟩

/-- What the first step tells is not needed behind it. -/
theorem next {f : α → Parse β} (h : Forms symbol regular p s Q)
    (hf : ∀ a, KeepsForm symbol regular (f a)) :
    Forms symbol regular (p >>= f) s fun _ _ => True := by
  apply h.bind
  intro a t _ _
  exact hf a t

theorem get_bind {f : ParseState → Parse β} {R : β → ParseState → Prop}
    (h : Forms symbol regular (f s) s R) : Forms symbol regular (MonadState.get >>= f) s R :=
  fun formed => .bind (.get (h formed))

theorem ite {c : Prop} [Decidable c] {q : Parse α} (yes : c → Forms symbol regular p s Q)
    (no : ¬c → Forms symbol regular q s Q) : Forms symbol regular (if c then p else q) s Q :=
  fun formed => .ite (fun h => yes h formed) fun h => no h formed

theorem step {run : ParseState → EStateM.Result Fault ParseState α}
    (h : s.Formed symbol regular → ∀ a t, run s = .ok a t →
      t.Formed symbol regular ∧ s.work.tree.Stays t.work.tree ∧ Q a t) :
    Forms symbol regular (Parse.step run) s Q :=
  fun formed => .step (h formed)

/-- A step that only moves the cursor. -/
theorem moving {run : ParseState → EStateM.Result Fault ParseState α}
    (h : s.Grounded symbol → ∀ a t, run s = .ok a t →
      t.Grounded symbol ∧ t.work.tree = s.work.tree ∧ Q a t) :
    Forms symbol regular (Parse.step run) s Q := by
  refine step ?_
  intro formed a t hr
  obtain ⟨ground, same, told⟩ := h formed.ground a t hr
  exact ⟨formed.of_tree_eq ground same, same ▸ .refl _, told⟩

theorem modified {f : ParseState → ParseState} {Q : Unit → ParseState → Prop} (apart : Apart f)
    (h : Q () (f s)) : Forms symbol regular (modify f) s Q :=
  fun formed => .modified ⟨apart.formed formed, apart.tree s ▸ .refl _, h⟩

theorem thenAlways {f : ParseState → ParseState} (apart : Apart f)
    (h : Forms symbol regular p s fun a t => Q a (f t)) :
    Forms symbol regular (p.thenAlways f) s Q := by
  intro formed kept a u hu
  cases hr : p.run s with
  | error fault t =>
    simp only [Parse.thenAlways, hr] at hu
    cases hu
  | ok b t =>
    simp only [Parse.thenAlways, hr] at hu
    cases hu
    obtain ⟨formed', stays, told⟩ := h formed (fun e he => kept e (.inl he)) a t hr
    exact ⟨apart.formed formed', (apart.tree t).symm ▸ stays, told⟩

/-- Behind a test that fails otherwise the test held. -/
theorem ensure_bind {held : Bool} {otherwise : Parse Unit} {f : Unit → Parse β}
    {R : β → ParseState → Prop} (fails : Forms symbol regular otherwise s fun _ _ => False)
    (h : held = true → Forms symbol regular (f ()) s R) :
    Forms symbol regular (Parse.ensure held otherwise >>= f) s R := by
  cases held with
  | true => exact fun formed => .bind (.pure (h rfl formed))
  | false =>
    apply fails.bind
    intro _ _ _ never
    exact never.elim

theorem orFault {value : Option α} {fault : Fault} (h : ∀ a, value = some a → Q a s) :
    Forms symbol regular (Parse.orFault value fault) s Q :=
  fun formed => .orFault fun a same => ⟨formed, .refl _, h a same⟩

theorem orFault_bind {value : Option α} {fault : Fault} {f : α → Parse β}
    {R : β → ParseState → Prop} (h : ∀ a, value = some a → Forms symbol regular (f a) s R) :
    Forms symbol regular (Parse.orFault value fault >>= f) s R := by
  intro formed
  exact .bind (.orFault fun a same => h a same formed)

/-- A node that is stored is found under its name. -/
theorem make {node : Node} (formed : node.Formed symbol regular s.work.tree) :
    Forms symbol regular (Parse.make node) s fun id t => t.work.tree.get? id = some node := by
  refine step ?_
  intro before id t hr
  cases hr
  refine ⟨⟨⟨before.ground.rest, before.ground.stop, before.ground.intact.alloc node⟩,
    before.alloc formed⟩, .of_extends (before.ground.intact.extends_alloc node), ?_⟩
  exact before.ground.intact.get?_alloc node

/-- A node of a known shape is stored. -/
theorem make_shape {node : Node} (shape : Shape) (admitted : shape.admits node = true)
    (formed : node.Formed symbol regular s.work.tree) :
    Forms symbol regular (Parse.make node) s fun id t => t.work.tree.Holds shape id :=
  (make formed).weaken fun _ _ _ held => ⟨node, held, admitted⟩

theorem reading {rule : Rule} {p : Parse NodeId} {Q : NodeId → ParseState → Prop}
    (h : (regular → ¬rule.Irregular s.cursor) → Forms symbol regular p s Q) :
    Forms symbol regular (p.reading rule) s Q := by
  intro formed kept id t hr
  have odd : ¬(regular ∧ rule.Irregular s.cursor) := kept _ (.inr ⟨id, t, hr, rfl⟩)
  exact h (fun known irregular => odd ⟨known, irregular⟩) formed (fun e he => kept e (.inl he)) id t hr

end Forms

namespace KeepsForm

variable {p : Parse α}

theorem of_all {call : Calls} (calls : FormsAll symbol regular call) (rule : Rule) :
    KeepsForm symbol regular (call rule) :=
  fun s => (calls rule s).weaken fun _ _ _ _ => trivial

theorem bind {f : α → Parse β} (h : KeepsForm symbol regular p)
    (hf : ∀ a, KeepsForm symbol regular (f a)) : KeepsForm symbol regular (p >>= f) :=
  fun s => (h s).next hf

/-- What the first step comes to is not needed behind it. -/
theorem seq {q : Parse β} (h : KeepsForm symbol regular p) (next : KeepsForm symbol regular q) :
    KeepsForm symbol regular (do let _ ← p; q) :=
  h.bind fun _ => next

theorem pure (a : α) : KeepsForm symbol regular (Pure.pure a : Parse α) :=
  fun _ => .pure trivial

theorem throw (fault : Fault) : KeepsForm symbol regular (Parse.throw fault : Parse α) :=
  fun _ => .throw fault

theorem ite {c : Prop} [Decidable c] {q : Parse α} (yes : KeepsForm symbol regular p)
    (no : KeepsForm symbol regular q) : KeepsForm symbol regular (if c then p else q) :=
  fun s => .ite (fun _ => yes s) fun _ => no s

theorem get_bind {f : ParseState → Parse β} (h : ∀ s, KeepsForm symbol regular (f s)) :
    KeepsForm symbol regular (MonadState.get >>= f) :=
  fun s => .get_bind (h s s)

theorem modified {f : ParseState → ParseState} (apart : Apart f) :
    KeepsForm symbol regular (modify f : Parse Unit) :=
  fun _ => .modified apart trivial

theorem thenAlways {f : ParseState → ParseState} (apart : Apart f)
    (h : KeepsForm symbol regular p) : KeepsForm symbol regular (p.thenAlways f) :=
  fun s => .thenAlways apart (h s)

theorem ensure {held : Bool} {otherwise : Parse Unit} (h : KeepsForm symbol regular otherwise) :
    KeepsForm symbol regular (Parse.ensure held otherwise) :=
  ite (pure ()) h

theorem orFault (value : Option α) (fault : Fault) :
    KeepsForm symbol regular (Parse.orFault value fault) :=
  fun _ => .orFault fun _ _ => trivial

theorem map {f : α → β} (h : KeepsForm symbol regular p) : KeepsForm symbol regular (f <$> p) := by
  apply h.bind
  intro a
  exact pure (f a)

theorem discard (h : KeepsForm symbol regular p) : KeepsForm symbol regular (Functor.discard p) :=
  h.map

/-- A repetition keeps the form if each round does. -/
theorem repeatUntil {close : Parse Bool} {item : α → Parse α} (hclose : KeepsForm symbol regular close)
    (hitem : ∀ a, KeepsForm symbol regular (item a)) (rounds : List UInt8) (a : α) :
    KeepsForm symbol regular (Parse.repeatUntil close item rounds a) := by
  induction rounds generalizing a with
  | nil => exact throw _
  | cons _ rounds ih =>
    apply hclose.bind
    intro closed
    exact ite (pure a) ((hitem a).bind ih)

theorem untilHolds {close : Parse Bool} {item : α → Parse α} (hclose : KeepsForm symbol regular close)
    (hitem : ∀ a, KeepsForm symbol regular (item a)) (a : α) :
    KeepsForm symbol regular (Parse.untilHolds close a item) := by
  apply get_bind
  intro _
  exact repeatUntil hclose hitem _ a

theorem moreNodes {close : Parse Bool} {item : Parse NodeId} (hclose : KeepsForm symbol regular close)
    (hitem : KeepsForm symbol regular item) (nodes : Array NodeId) :
    KeepsForm symbol regular (Parse.moreNodes close item nodes) := by
  refine untilHolds hclose (fun nodes => ?_) nodes
  apply hitem.bind
  intro id
  exact pure (nodes.push id)

theorem someNodes {close : Parse Bool} {item : Parse NodeId} (hclose : KeepsForm symbol regular close)
    (hitem : KeepsForm symbol regular item) : KeepsForm symbol regular (Parse.someNodes close item) := by
  apply hitem.bind
  intro id
  exact moreNodes hclose hitem #[id]

end KeepsForm

/-- What a round keeps up holds where the loop ends. -/
theorem Forms.untilHolds {close : Parse Bool} {item : α → Parse α} {Inv : α → ParseState → Prop}
    (hclose : ∀ a s, Inv a s → Forms symbol regular close s fun _ t => Inv a t)
    (hitem : ∀ a s, Inv a s → Forms symbol regular (item a) s Inv) {a : α} (start : Inv a s) :
    Forms symbol regular (Parse.untilHolds close a item) s Inv := by
  -- the rounds that are left bound the loop, and every round starts from the invariant
  have rounds (left : List UInt8) :
      ∀ a s, Inv a s → Forms symbol regular (Parse.repeatUntil close item left a) s Inv := by
    induction left with
    | nil => exact fun _ _ _ => .throw _
    | cons _ left ih =>
      intro a s inv
      apply (hclose a s inv).bind
      intro closed t _ inv
      refine .ite (fun _ => .pure inv) fun _ => ?_
      apply (hitem a t inv).bind
      intro b u _ inv
      exact ih b u inv
  exact .get_bind (rounds _ a s start)

end Unmangle
