import Unmangle.Proofs.Spelling.Run

/-!
# What spelling looks up

Half of what spelling decides it decides by looking at the tree: which element stands for a pack,
whether a type leads to an array, what a chain of references comes to. All of that depends on
the place in the pack that is being expanded and on nothing else of the canvas, and changes
nothing of it. So both halves of a node decide alike.
-/
namespace Unmangle

namespace Canvas

/-- The place of the element that stands for a pack. It is the first one where none was chosen. -/
def index (canvas : Canvas) : Nat :=
  match canvas.pack with
  | some pack => pack.index
  | none => 0

/-- Nothing was written, and the place in the pack is the same. -/
structure Beside (canvas after : Canvas) : Prop where
  out : after.out = canvas.out
  depth : after.depth = canvas.depth
  index : after.index = canvas.index

namespace Beside

variable {canvas between after : Canvas}

theorem refl (canvas : Canvas) : canvas.Beside canvas :=
  ⟨rfl, rfl, rfl⟩

theorem trans (first : canvas.Beside between) (next : between.Beside after) :
    canvas.Beside after :=
  ⟨next.out.trans first.out, next.depth.trans first.depth, next.index.trans first.index⟩

end Beside
end Canvas

namespace Print

variable {α β : Type} {index : Nat}

/-- At some place in a pack the step gives a value and leaves the canvas as it is. -/
def Finds (index : Nat) (p : Print α) (value : α) : Prop :=
  ∀ canvas : Canvas, canvas.index = index →
    ∃ after, p.run canvas = .ok value after ∧ canvas.Beside after

namespace Finds

theorem pure (value : α) : Finds index (Pure.pure value) value :=
  fun canvas _ => ⟨canvas, rfl, .refl canvas⟩

/-- A search goes on from what was found. -/
theorem bind {p : Print α} {f : α → Print β} {value : α} {value' : β}
    (first : Finds index p value) (next : Finds index (f value) value') :
    Finds index (p >>= f) value' := by
  intro canvas here
  obtain ⟨between, run, beside⟩ := first canvas here
  obtain ⟨after, run', beside'⟩ := next between (beside.index.trans here)
  refine ⟨after, ?_, beside.trans beside'⟩
  simp only [Bind.bind, run, run']

theorem node (tree : Tree) (id : NodeId) : Finds index (Print.node tree id) (tree.node id) :=
  fun canvas _ => ⟨canvas, rfl, .refl canvas⟩

theorem elements (tree : Tree) (run : NodeList) :
    Finds index (Print.elements tree run) (tree.list run).toList :=
  fun canvas _ => ⟨canvas, rfl, .refl canvas⟩

theorem bytes (symbol : ByteArray) (text : Text) :
    Finds index (Print.bytes symbol text) (text.resolve symbol) :=
  fun canvas _ => ⟨canvas, rfl, .refl canvas⟩

theorem currentElement (tree : Tree) (run : NodeList) :
    Finds index (Print.currentElement tree run) (tree.element? run index) := by
  rintro ⟨out, pack, depth⟩ rfl
  cases pack with
  | some pack => exact ⟨_, rfl, rfl, rfl, rfl⟩
  | none => exact ⟨_, rfl, rfl, rfl, rfl⟩

/-- What is found is found once. -/
theorem unique {p : Print α} {value : α} (finds : Finds index p value) {canvas after : Canvas}
    {found : α} (here : canvas.index = index) (run : p.run canvas = .ok found after) :
    found = value ∧ canvas.Beside after := by
  obtain ⟨after', run', beside⟩ := finds canvas here
  cases run'.symm.trans run
  exact ⟨rfl, beside⟩

end Finds

/-- At some place in a pack the step gives one value of the kind, and leaves the canvas as it
is. -/
def Looks (index : Nat) (p : Print α) (kind : α → Prop) : Prop :=
  ∃ value, Finds index p value ∧ kind value

namespace Looks

variable {p : Print α} {f : α → Print β} {kind : α → Prop} {kind' : β → Prop}

theorem pure {value : α} (holds : kind value) : Looks index (Pure.pure value) kind :=
  ⟨value, .pure value, holds⟩

theorem bind (first : Looks index p kind)
    (next : ∀ value, kind value → Looks index (f value) kind') : Looks index (p >>= f) kind' := by
  obtain ⟨value, finds, holds⟩ := first
  obtain ⟨value', finds', holds'⟩ := next value holds
  exact ⟨value', finds.bind finds', holds'⟩

theorem node_bind {tree : Tree} {id : NodeId} {f : Node → Print β}
    (next : Looks index (f (tree.node id)) kind') : Looks index (Print.node tree id >>= f) kind' := by
  obtain ⟨value, finds, holds⟩ := next
  exact ⟨value, (Finds.node tree id).bind finds, holds⟩

theorem element_bind {tree : Tree} {run : NodeList} {f : Option NodeId → Print β}
    (next : Looks index (f (tree.element? run index)) kind') :
    Looks index (Print.currentElement tree run >>= f) kind' := by
  obtain ⟨value, finds, holds⟩ := next
  exact ⟨value, (Finds.currentElement tree run).bind finds, holds⟩

theorem weaken {kind'' : α → Prop} (looks : Looks index p kind)
    (weaker : ∀ value, kind value → kind'' value) : Looks index p kind'' := by
  obtain ⟨value, finds, holds⟩ := looks
  exact ⟨value, finds, weaker value holds⟩

end Looks
end Print

/-- The right half of a node is that of another, but for a parenthesis that a declarator closes. -/
inductive Tree.Passes (tree : Tree) (index : Nat) (id target : NodeId) : Prop
  | qualified {quals} (held : tree.node id = .qualified target quals)
  | templateParam (held : tree.node id = .templateParam target)
  | forwardParam {place} (held : tree.node id = .forwardParam place (some target))
  | pointer (held : tree.node id = .pointer target)
  | memberPointer {scope} (held : tree.node id = .memberPointer scope target)
  | reference {kind pointee kind'} (held : tree.node id = .reference kind pointee)
      (found : Print.Finds index (Print.collapse tree kind pointee) (some (kind', target)))
  | parameterPack {run} (held : tree.node id = .parameterPack run)
      (found : tree.element? run index = some target)

/-- An array or a function, which has text of its own behind the name that it declares. -/
def Node.IsTail : Node → Prop
  | .array .. | .functionType .. | .function .. => True
  | _ => False

/-- The node is an array or a function, or its right half is that of one. -/
inductive Tree.Trails (tree : Tree) (index : Nat) : NodeId → Prop
  | here {id} (tail : (tree.node id).IsTail) : Trails tree index id
  | there {id target} (passes : tree.Passes index id target) (behind : Trails tree index target) :
      Trails tree index id

namespace Print

variable {α β : Type}

variable (index : Nat) (tree : Tree)

/-- A tail is found only where there is one. -/
theorem looks_hasTailWithin (tail : Tail) (steps : Nat) (id : NodeId) :
    Looks index (hasTailWithin tree tail steps id) fun has =>
      has = true → tail ≠ .any → tree.Trails index id := by
  induction steps generalizing id with
  | zero => exact .pure nofun
  | succ steps ih =>
    have onwards {target : NodeId} (passes : tree.Passes index id target) :
        Looks index (hasTailWithin tree tail steps target) fun has =>
          has = true → tail ≠ .any → tree.Trails index id :=
      (ih target).weaken fun has trails holds narrow => .there passes (trails holds narrow)
    have through {target : NodeId} : Looks index
        (if tail = .any then hasTailWithin tree tail steps target else Pure.pure false) fun has =>
          has = true → tail ≠ .any → tree.Trails index id := by
      split
      · exact (ih target).weaken fun _ _ _ narrow => absurd ‹tail = .any› narrow
      · exact .pure nofun
    refine .node_bind ?_
    cases held : tree.node id with
    | qualified target quals => exact onwards (.qualified held)
    | templateParam target => exact onwards (.templateParam held)
    | forwardParam place target =>
      cases target with
      | none => exact .pure nofun
      | some target => exact onwards (.forwardParam held)
    | parameterPack elements =>
      refine .element_bind ?_
      cases found : tree.element? elements index with
      | none => exact .pure nofun
      | some element => exact onwards (.parameterPack held found)
    | pointer target => exact through
    | reference kind target => exact through
    | memberPointer scope target => exact through
    | array element length => exact .pure fun _ _ => .here (held ▸ trivial)
    | functionType result params quals ref exception =>
      exact .pure fun _ _ => .here (held ▸ trivial)
    | function result name params quals ref => exact .pure fun _ _ => .here (held ▸ trivial)
    | _ => exact .pure nofun

theorem looks_hasTail (tail : Tail) (id : NodeId) :
    Looks index (hasTail tree tail id) fun has => has = true → tail ≠ .any → tree.Trails index id :=
  looks_hasTailWithin index tree tail chainLimit id

/-- A node that is found to be an array or a function has a right half. -/
theorem looks_hasArrayOrFunction (id : NodeId) :
    Looks index (hasArrayOrFunction tree id) fun has => has = true → tree.Trails index id := by
  refine (looks_hasTail index tree .array id).bind ?_
  intro isArray trails
  split
  · exact .pure fun _ => trails ‹_› nofun
  · exact (looks_hasTail index tree .function id).weaken fun _ trails holds => trails holds nofun

/-- The search for the node behind others only looks. -/
theorem looks_behindWithin (steps : Nat) (id : NodeId) :
    Looks index (behindWithin tree steps id) fun _ => True := by
  induction steps generalizing id with
  | zero => exact .pure trivial
  | succ steps ih =>
    refine .node_bind ?_
    cases tree.node id with
    | templateParam target => exact ih target
    | forwardParam place target =>
      cases target with
      | none => exact .pure trivial
      | some target => exact ih target
    | parameterPack elements =>
      refine .element_bind ?_
      cases tree.element? elements index with
      | none => exact .pure trivial
      | some element => exact ih element
    | _ => exact .pure trivial

/-- Collapsing references only looks. -/
theorem looks_collapseWithin (steps : Nat) (kind : Reference) (pointee : NodeId) :
    Looks index (collapseWithin tree steps kind pointee) fun _ => True := by
  induction steps generalizing kind pointee with
  | zero => exact .pure trivial
  | succ steps ih =>
    refine (looks_behindWithin index tree chainLimit pointee).bind ?_
    intro last _
    refine .node_bind ?_
    split
    · exact ih _ _
    · exact .pure trivial

theorem looks_collapse (kind : Reference) (pointee : NodeId) :
    Looks index (collapse tree kind pointee) fun _ => True :=
  looks_collapseWithin index tree chainLimit kind pointee

/-- What a constructor is called is a name of the tree, or an abbreviation, or nothing. -/
theorem looks_baseNameWithin (steps : Nat) (id : NodeId) :
    Looks index (baseNameWithin tree steps id) fun text =>
      (∃ id, tree.node id = .name text) ∨ (∃ short : Abbreviation, text = .literal short.baseName) ∨
        text = .empty := by
  induction steps generalizing id with
  | zero => exact .pure (.inr (.inr rfl))
  | succ steps ih =>
    refine .node_bind ?_
    cases held : tree.node id with
    | name text => exact .pure (.inl ⟨id, held⟩)
    | abbreviation short => exact .pure (.inr (.inl ⟨short, rfl⟩))
    | expandedAbbreviation short => exact .pure (.inr (.inl ⟨short, rfl⟩))
    | nestedName scope name => exact ih name
    | qualifiedName scope name => exact ih name
    | instantiation name args => exact ih name
    | stdName name => exact ih name
    | abiTagged name tag => exact ih name
    | templateParam name => exact ih name
    | forwardParam place name =>
      cases name with
      | none => exact .pure (.inr (.inr rfl))
      | some name => exact ih name
    | _ => exact .pure (.inr (.inr rfl))

end Print
end Unmangle
