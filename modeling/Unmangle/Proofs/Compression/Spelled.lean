import Unmangle.Proofs.Compression.Function

/-!
# Spelling stored components

A component is spelled by its left half alone, and its text is put behind what was written.
No parentheses come around its declarator, since it leads to no array and no function.
-/
namespace Unmangle
namespace Canvas

def add (canvas : Canvas) (words : String) : Canvas :=
  { canvas with out := canvas.out ++ words.toUTF8 }

theorem add_empty (canvas : Canvas) : canvas.add "" = canvas := by
  unfold add
  rw [String.toUTF8_eq_toByteArray, String.toByteArray_empty, ByteArray.append_empty]

theorem add_append (canvas : Canvas) (words words' : String) :
    canvas.add (words ++ words') = (canvas.add words).add words' := by
  unfold add
  rw [String.toUTF8_eq_toByteArray, String.toByteArray_append, ← ByteArray.append_assoc]
  rfl

theorem size_add (canvas : Canvas) (words : String) :
    (canvas.add words).out.size = canvas.out.size + words.utf8ByteSize := by
  unfold add
  rw [ByteArray.size_append]
  rfl

/-- Within the limits there is room for some more levels and for some words. -/
structure Fits (limits : SpellingLimits) (canvas : Canvas) (levels : Nat) (words : String) :
    Prop where
  depth : canvas.depth + levels ≤ limits.maxDepth
  length : canvas.out.size + words.utf8ByteSize ≤ limits.maxLength

namespace Fits

variable {limits : SpellingLimits} {canvas : Canvas} {levels levels' : Nat} {words words' : String}

theorem fewer (h : canvas.Fits limits levels words) (le : levels' ≤ levels) :
    canvas.Fits limits levels' words :=
  ⟨Nat.le_trans (Nat.add_le_add_left le _) h.depth, h.length⟩

theorem deeper (h : canvas.Fits limits (levels + 1) words) :
    Canvas.Fits limits { canvas with depth := canvas.depth + 1 } levels words := by
  refine ⟨?_, h.length⟩
  have depth := h.depth
  show canvas.depth + 1 + levels ≤ limits.maxDepth
  omega

theorem first (h : canvas.Fits limits levels (words ++ words')) :
    canvas.Fits limits levels words := by
  have length := h.length
  rw [String.utf8ByteSize_append] at length
  exact ⟨h.depth, by omega⟩

theorem second (h : canvas.Fits limits levels (words ++ words')) :
    (canvas.add words).Fits limits levels words' := by
  have length := h.length
  rw [String.utf8ByteSize_append] at length
  refine ⟨h.depth, ?_⟩
  rw [size_add]
  omega

/-- Behind the words there is room for nothing more. -/
theorem behind (h : canvas.Fits limits levels words) : (canvas.add words).Fits limits levels "" := by
  have full : canvas.Fits limits levels (words ++ "") := by rwa [String.append_empty]
  exact full.second

end Fits
end Canvas

namespace Print

variable {room : Prop} {canvas : Canvas} {words words' : String} {p q : Print Unit}

/-- A step puts words behind what was written, and changes nothing else. -/
def Writes (room : Prop) (words : String) (p : Print Unit) (canvas : Canvas) : Prop :=
  Grants room p canvas fun _ after => after = canvas.add words

namespace Writes

theorem nothing : Writes room "" (pure ()) canvas :=
  Grants.pure canvas.add_empty.symm

theorem wording (words : String) : Writes room words (write words) canvas :=
  Grants.known rfl rfl

/-- Texts are written one behind the other. -/
theorem andThen (first : Writes room words p canvas)
    (second : Writes room words' q (canvas.add words)) :
    Writes room (words ++ words') (do p; q) canvas := by
  refine Grants.bind (Grants.weaken first fun _ after same => ?_)
  rw [same]
  refine Grants.weaken second ?_
  intro _ after same
  rw [same, canvas.add_append]

/-- Nothing is written in front. -/
theorem behind (first : Writes room "" p canvas) (second : Writes room words q canvas) :
    Writes room words (do p; q) canvas := by
  have both := first.andThen (canvas.add_empty.symm ▸ second)
  rwa [String.empty_append] at both

/-- Nothing is written behind. -/
theorem before (first : Writes room words p canvas) (second : Writes room "" q (canvas.add words)) :
    Writes room words (do p; q) canvas := by
  have both := first.andThen second
  rwa [String.append_empty] at both

/-- What follows a step that only looks. -/
theorem after {α : Type} {look : Print α} {f : α → Print Unit} {a : α}
    (run : look.run canvas = .ok a canvas) (next : Writes room words (f a) canvas) :
    Writes room words (look >>= f) canvas :=
  Grants.bind (Grants.known run next)

theorem whenever (holds : Bool) (words : String) :
    Writes room (if holds then words else "") (whenever holds (write words)) canvas := by
  cases holds with
  | false => exact nothing
  | true => exact wording words

theorem quals (quals : Qualifiers) : Writes room quals.text (Print.quals quals) canvas := by
  rw [Qualifiers.text, String.append_assoc]
  exact (whenever _ _).andThen ((whenever _ _).andThen (whenever _ _))

end Writes
end Print

section Halves

open Print

variable {room : Prop} {limits : SpellingLimits} {symbol : ByteArray} {tree : Tree}
  {levels need : Nat} {canvas : Canvas} {words words' : String} {id : NodeId} {node : Node}

abbrev Speller.within (limits : SpellingLimits) (symbol : ByteArray) (tree : Tree) (levels : Nat) :
    Speller :=
  ⟨symbol, tree, renderHalf limits symbol tree levels⟩

namespace Print.Writes

theorem text {speller : Speller} {t : Text} (resolved : t.resolve speller.symbol = words.toUTF8) :
    Writes room words (speller.text t) canvas := by
  refine after (a := words.toUTF8) ?_ (wording words)
  rw [← resolved]
  rfl

theorem spell {speller : Speller} (left : Writes room words (speller.half .left id) canvas)
    (right : Writes room "" (speller.half .right id) (canvas.add words)) :
    Writes room words (speller.spell id) canvas :=
  left.before right

/-- A half is written one level deeper. -/
theorem half {half : Half} (spent : canvas.depth + levels = limits.maxDepth) (deep : 1 ≤ need)
    (fits : room → canvas.Fits limits (need + 1) words)
    (h : ∀ levels, canvas.depth + 1 + levels = limits.maxDepth →
      Writes room words (Speller.side (.within limits symbol tree levels) half id)
        { canvas with depth := canvas.depth + 1 }) :
    Writes room words (renderHalf limits symbol tree levels half id) canvas := by
  have enough : room → canvas.out.size ≤ limits.maxLength ∧ canvas.depth + 1 < limits.maxDepth := by
    intro hroom
    obtain ⟨depth, length⟩ := fits hroom
    constructor <;> omega
  cases levels with
  | zero =>
    refine Grants.deeper enough (Granted.withheld (fun hroom => ?_) (.inl rfl))
    have := (enough hroom).2
    omega
  | succ levels =>
    refine Grants.deeper enough (Grants.weaken (h levels (by omega)) fun _ after same => ?_)
    rw [same]
    rfl

/-- The left half of a stored node is written one level deeper. -/
theorem left (held : tree.get? id = some node) (spent : canvas.depth + levels = limits.maxDepth)
    (deep : 1 ≤ need) (fits : room → canvas.Fits limits (need + 1) words)
    (h : ∀ levels, canvas.depth + 1 + levels = limits.maxDepth →
      Writes room words ((Speller.within limits symbol tree levels).left node)
        { canvas with depth := canvas.depth + 1 }) :
    Writes room words (renderHalf limits symbol tree levels .left id) canvas := by
  refine half spent deep fits ?_
  intro levels spent
  refine after (a := node) ?_ (h levels spent)
  rw [← Tree.node_of_get? held]
  rfl

/-- The right half of a stored node is written one level deeper. -/
theorem right (held : tree.get? id = some node) (spent : canvas.depth + levels = limits.maxDepth)
    (deep : 1 ≤ need) (fits : room → canvas.Fits limits (need + 1) words)
    (h : ∀ levels, canvas.depth + 1 + levels = limits.maxDepth →
      Writes room words ((Speller.within limits symbol tree levels).right node)
        { canvas with depth := canvas.depth + 1 }) :
    Writes room words (renderHalf limits symbol tree levels .right id) canvas := by
  refine half spent deep fits ?_
  intro levels spent
  refine after (a := node) ?_ (h levels spent)
  rw [← Tree.node_of_get? held]
  rfl

/-- A node that has nothing behind a declared name is all left half. -/
theorem spellLeft (held : tree.get? id = some node) (none : ∀ speller : Speller, speller.right node = pure ())
    (spent : canvas.depth + levels = limits.maxDepth) (deep : 1 ≤ need)
    (fits : room → canvas.Fits limits (need + 1) words)
    (h : ∀ levels, canvas.depth + 1 + levels = limits.maxDepth →
      Writes room words ((Speller.within limits symbol tree levels).left node)
        { canvas with depth := canvas.depth + 1 }) :
    Writes room words ((Speller.within limits symbol tree levels).spell id) canvas := by
  refine spell (left held spent deep fits h)
    (right held spent deep (fun enough => (fits enough).behind) fun _ _ => ?_)
  rw [none]
  exact nothing

end Print.Writes

theorem Identifier.text_ne_empty (ident : Identifier) : ident.text ≠ "" := by
  unfold Identifier.text
  split
  · decide
  · intro nothing
    have opens := ident.opens
    rw [nothing] at opens
    cases opens

namespace Identifier.Stored

variable {ident : Identifier}

theorem left (stored : ident.Stored symbol tree id)
    (spent : canvas.depth + levels = limits.maxDepth) (fits : room → canvas.Fits limits 2 ident.text) :
    Writes room ident.text (renderHalf limits symbol tree levels .left id) canvas := by
  obtain ⟨t, held, resolved⟩ := stored
  exact Writes.left held spent (Nat.le_refl 1) fits fun _ _ => Writes.text resolved

theorem right (stored : ident.Stored symbol tree id)
    (spent : canvas.depth + levels = limits.maxDepth) (fits : room → canvas.Fits limits 2 "") :
    Writes room "" (renderHalf limits symbol tree levels .right id) canvas := by
  obtain ⟨t, held, -⟩ := stored
  exact Writes.right held spent (Nat.le_refl 1) fits fun _ _ => Writes.nothing

end Identifier.Stored

namespace ClassPath

variable {path : ClassPath}

theorem length_pos (path : ClassPath) : 1 ≤ path.length := by
  cases path with
  | top id => exact Nat.le_refl 1
  | inside scope id => exact Nat.le_add_left 1 scope.length

/-- A class has no right half. -/
theorem Stored.right (stored : path.Stored symbol tree id)
    (spent : canvas.depth + levels = limits.maxDepth) (fits : room → canvas.Fits limits 2 "") :
    Writes room "" (renderHalf limits symbol tree levels .right id) canvas := by
  cases path with
  | top ident => exact Identifier.Stored.right stored spent fits
  | inside scope ident =>
    obtain ⟨outer, last, held, -⟩ := stored
    exact Writes.right held spent (Nat.le_refl 1) fits fun _ _ => Writes.nothing

/-- The scopes are spelled from the outermost one inwards. -/
theorem Stored.left (stored : path.Stored symbol tree id)
    (spent : canvas.depth + levels = limits.maxDepth)
    (fits : room → canvas.Fits limits (path.length + 1) path.text) :
    Writes room path.text (renderHalf limits symbol tree levels .left id) canvas := by
  induction path generalizing id canvas levels with
  | top ident => exact Identifier.Stored.left stored spent fits
  | inside scope ident ih =>
    obtain ⟨outer, last, held, hscope, hlast⟩ := stored
    have deep := scope.length_pos
    have parts : (inside scope ident).text = scope.text ++ ("::" ++ ident.text) :=
      String.append_assoc ..
    rw [parts] at fits ⊢
    refine Writes.left held spent (Nat.le_add_left _ _) fits ?_
    intro levels spent
    have within (enough : room) := (fits enough).deeper
    have two := Nat.succ_le_succ deep
    have last (enough : room) := (within enough).second.second.fewer two
    refine Writes.andThen (Writes.spell ?_ ?_) (Writes.andThen (Writes.wording "::")
      (Writes.spell ?_ ?_))
    · exact ih hscope spent fun enough => (within enough).first
    · exact hscope.right spent fun enough => (within enough).first.behind.fewer two
    · exact hlast.left spent last
    · exact hlast.right spent fun enough => (last enough).behind

end ClassPath

namespace Component

variable {component : Component}

/-- No component is an array or a function. -/
theorem Stored.hasTail (stored : component.Stored symbol tree id) (tail : Tail)
    (other : tail ≠ .any) (canvas : Canvas) :
    (Print.hasTail tree tail id).run canvas = .ok false canvas := by
  have within : ∀ steps, (hasTailWithin tree tail steps id).run canvas = .ok false canvas := by
    intro steps
    induction steps generalizing component id with
    | zero => rfl
    | succ steps ih =>
      cases component with
      | builtin letter =>
        obtain ⟨words, -, held⟩ := stored
        simp only [hasTailWithin, Bind.bind, Print.node, Tree.node_of_get? held]
        rfl
      | named path =>
        cases path with
        | top ident =>
          obtain ⟨t, held, -⟩ := stored
          simp only [hasTailWithin, Bind.bind, Print.node, Tree.node_of_get? held]
          rfl
        | inside scope ident =>
          obtain ⟨outer, last, held, -⟩ := stored
          simp only [hasTailWithin, Bind.bind, Print.node, Tree.node_of_get? held]
          rfl
      | pointer target | reference kind target =>
        obtain ⟨pointee, held, -⟩ := stored
        simp only [hasTailWithin, Bind.bind, Print.node, Tree.node_of_get? held, if_neg other]
        rfl
      | qualified quals target =>
        obtain ⟨type, held, inner⟩ := stored
        simp only [hasTailWithin, Bind.bind, Print.node, Tree.node_of_get? held]
        exact ih inner
  exact within chainLimit

theorem Stored.hasArrayOrFunction (stored : component.Stored symbol tree id) (canvas : Canvas) :
    (Print.hasArrayOrFunction tree id).run canvas = .ok false canvas := by
  have array := stored.hasTail .array (by decide) canvas
  have function := stored.hasTail .function (by decide) canvas
  simp only [Print.hasArrayOrFunction, Bind.bind, array]
  exact function

/-- The nodes of all components but references. -/
theorem Stored.shape (stored : component.Stored symbol tree id)
    (other : component.isReference = false) :
    (∃ t, tree.node id = .name t) ∨ (∃ outer last, tree.node id = .nestedName outer last) ∨
      (∃ pointee, tree.node id = .pointer pointee) ∨
      ∃ type quals, tree.node id = .qualified type quals := by
  cases component with
  | builtin letter =>
    obtain ⟨words, -, held⟩ := stored
    exact .inl ⟨_, Tree.node_of_get? held⟩
  | named path =>
    cases path with
    | top ident =>
      obtain ⟨t, held, -⟩ := stored
      exact .inl ⟨_, Tree.node_of_get? held⟩
    | inside scope ident =>
      obtain ⟨outer, last, held, -⟩ := stored
      exact .inr (.inl ⟨_, _, Tree.node_of_get? held⟩)
  | pointer target =>
    obtain ⟨pointee, held, -⟩ := stored
    exact .inr (.inr (.inl ⟨_, Tree.node_of_get? held⟩))
  | reference kind target => cases other
  | qualified quals target =>
    obtain ⟨type, held, -⟩ := stored
    exact .inr (.inr (.inr ⟨_, _, Tree.node_of_get? held⟩))

/-- A reference to anything but a reference is what it is. -/
theorem Stored.collapse (stored : component.Stored symbol tree id)
    (other : component.isReference = false) (kind : Reference) (canvas : Canvas) :
    (Print.collapse tree kind id).run canvas = .ok (some (kind, id)) canvas := by
  have itself : ∀ steps, (behindWithin tree (steps + 1) id).run canvas = .ok id canvas := by
    intro steps
    obtain ⟨t, node⟩ | ⟨outer, last, node⟩ | ⟨pointee, node⟩ | ⟨type, quals, node⟩ :=
      stored.shape other <;>
    · simp only [behindWithin, Bind.bind, Print.node, node]
      rfl
  have within : ∀ steps, (collapseWithin tree (steps + 1) kind id).run canvas =
      .ok (some (kind, id)) canvas := by
    intro steps
    obtain ⟨t, node⟩ | ⟨outer, last, node⟩ | ⟨pointee, node⟩ | ⟨type, quals, node⟩ :=
      stored.shape other <;>
    · simp only [collapseWithin, Bind.bind, Print.behind, chainLimit, itself 127, Print.node, node]
      rfl
  exact within 127

theorem Stored.openDeclarator (stored : component.Stored symbol tree id) :
    Writes room "" ((Speller.within limits symbol tree levels).openDeclarator id) canvas := by
  refine Writes.after (stored.hasTail .array (by decide) canvas) ?_
  refine Writes.behind Writes.nothing ?_
  exact Writes.after (stored.hasArrayOrFunction canvas) Writes.nothing

/-- Behind the declarator of a pointer there is what its target has. -/
theorem Stored.closeDeclarator (stored : component.Stored symbol tree id)
    (right : Writes room "" (renderHalf limits symbol tree levels .right id) canvas) :
    Writes room "" ((Speller.within limits symbol tree levels).closeDeclarator id) canvas :=
  Writes.after (stored.hasArrayOrFunction canvas) (Writes.behind Writes.nothing right)

theorem Stored.right (stored : component.Stored symbol tree id) (formed : component.WellFormed)
    (spent : canvas.depth + levels = limits.maxDepth)
    (fits : room → canvas.Fits limits component.height "") :
    Writes room "" (renderHalf limits symbol tree levels .right id) canvas := by
  induction component generalizing id canvas levels with
  | builtin letter =>
    obtain ⟨words, -, held⟩ := stored
    exact Writes.right held spent (Nat.le_refl 1) fits fun _ _ => Writes.nothing
  | named path =>
    refine ClassPath.Stored.right stored spent ?_
    intro enough
    refine (fits enough).fewer ?_
    exact Nat.le_add_left_of_le (by omega)
  | pointer target ih =>
    obtain ⟨pointee, held, inner⟩ := stored
    have deep := target.two_le_height
    refine Writes.right held spent (Nat.le_of_succ_le deep) fits ?_
    intro levels spent
    exact inner.closeDeclarator (ih inner formed spent fun enough => (fits enough).deeper)
  | reference kind target ih =>
    obtain ⟨pointee, held, inner⟩ := stored
    obtain ⟨other, formed⟩ := formed
    have deep := target.two_le_height
    refine Writes.right held spent (Nat.le_of_succ_le deep) fits ?_
    intro levels spent
    refine Writes.after (inner.collapse other kind _) ?_
    exact inner.closeDeclarator (ih inner formed spent fun enough => (fits enough).deeper)
  | qualified quals target ih =>
    obtain ⟨type, held, inner⟩ := stored
    obtain ⟨-, -, formed⟩ := formed
    refine Writes.right held spent (Nat.le_add_left _ _) fits ?_
    intro levels spent
    exact ih inner formed spent fun enough => (fits enough).deeper.fewer (Nat.le_succ _)

/-- A component is spelled as its text. -/
theorem Stored.left (stored : component.Stored symbol tree id) (formed : component.WellFormed)
    (spent : canvas.depth + levels = limits.maxDepth)
    (fits : room → canvas.Fits limits component.height component.text) :
    Writes room component.text (renderHalf limits symbol tree levels .left id) canvas := by
  induction component generalizing id canvas levels with
  | builtin letter =>
    obtain ⟨words, spelled, held⟩ := stored
    refine Writes.left held spent (Nat.le_refl 1) fits ?_
    intro _ _
    refine Writes.text ?_
    rw [Component.text, spelled]
    rfl
  | named path =>
    refine ClassPath.Stored.left stored spent ?_
    intro enough
    refine (fits enough).fewer ?_
    exact Nat.add_le_add_left (by omega) _
  | pointer target ih =>
    obtain ⟨pointee, held, inner⟩ := stored
    have deep := target.two_le_height
    refine Writes.left held spent (Nat.le_of_succ_le deep) fits ?_
    intro levels spent
    refine Writes.andThen (ih inner formed spent fun enough => (fits enough).deeper.first) ?_
    exact Writes.behind inner.openDeclarator (Writes.wording "*")
  | reference kind target ih =>
    obtain ⟨pointee, held, inner⟩ := stored
    obtain ⟨other, formed⟩ := formed
    have deep := target.two_le_height
    refine Writes.left held spent (Nat.le_of_succ_le deep) fits ?_
    intro levels spent
    refine Writes.after (inner.collapse other kind _) ?_
    refine Writes.andThen (ih inner formed spent fun enough => (fits enough).deeper.first) ?_
    refine Writes.behind inner.openDeclarator ?_
    cases kind with
    | lvalue => exact Writes.wording "&"
    | rvalue => exact Writes.wording "&&"
  | qualified quals target ih =>
    obtain ⟨type, held, inner⟩ := stored
    obtain ⟨-, -, formed⟩ := formed
    refine Writes.left held spent (Nat.le_add_left _ _) fits ?_
    intro levels spent
    refine Writes.andThen (ih inner formed spent fun enough => ?_) (Writes.quals quals)
    exact (fits enough).deeper.first.fewer (Nat.le_succ _)

theorem Stored.spell (stored : component.Stored symbol tree id) (formed : component.WellFormed)
    (spent : canvas.depth + levels = limits.maxDepth)
    (fits : room → canvas.Fits limits component.height component.text) :
    Writes room component.text ((Speller.within limits symbol tree levels).spell id) canvas :=
  Writes.spell (stored.left formed spent fits)
    (stored.right formed spent fun enough => (fits enough).behind)

/-- Every component shows, so none loses its comma. -/
theorem text_ne_empty (formed : component.WellFormed) : component.text ≠ "" := by
  have more : ∀ words words' : String, words ≠ "" → words ++ words' ≠ "" := by
    intro words words' some nothing
    exact some (String.append_eq_empty_iff.mp nothing).1
  induction component with
  | builtin letter =>
    obtain ⟨words, spelled⟩ := Option.isSome_iff_exists.mp formed
    rw [text, spelled, Option.getD_some]
    unfold Builtin.spelling? at spelled
    split at spelled <;> cases spelled <;> decide
  | named path =>
    show path.text ≠ ""
    induction path with
    | top ident => exact ident.text_ne_empty
    | inside scope ident ih => exact more _ _ (more _ _ (ih trivial))
  | pointer target ih => exact more _ _ (ih formed)
  | reference kind target ih => exact more _ _ (ih formed.2)
  | qualified quals target ih => exact more _ _ (ih formed.2.2)

def laterText : List Component → String
  | [] => ""
  | component :: rest => ", " ++ (component.text ++ laterText rest)

/-- Components are written with commas between them. -/
theorem intercalate_text (component : Component) (rest : List Component) :
    ", ".intercalate ((component :: rest).map text) = component.text ++ laterText rest := by
  induction rest generalizing component with
  | nil => simp [laterText]
  | cons next rest ih =>
    rw [List.map_cons, List.map_cons, String.intercalate_cons_cons, ← List.map_cons, ih, laterText,
      String.append_assoc]

/-- A comma in front of a node unless it is the first one, and others behind it. -/
theorem separated {speller : Speller} {rest : List NodeId} {isFirst : Bool} {comma tail : String}
    (apart : comma = if !isFirst then ", " else "") (shows : words ≠ "")
    (spelled : Writes room words (speller.spell id) (canvas.add comma))
    (next : Writes room tail (speller.separated false rest) ((canvas.add comma).add words)) :
    Writes room (comma ++ (words ++ tail)) (speller.separated isFirst (id :: rest)) canvas := by
  rw [apart] at spelled next ⊢
  refine Writes.after (a := canvas.out.size) rfl (Writes.andThen (Writes.whenever _ ", ") ?_)
  refine Writes.after rfl (Writes.andThen spelled (Writes.after rfl ?_))
  rw [if_neg]
  · exact next
  · rw [Canvas.size_add]
    intro same
    exact shows (String.utf8ByteSize_eq_zero_iff.mp (by omega))

/-- The components behind the first. -/
theorem Stored.later {components : List Component} {ids : List NodeId}
    (stored : List.Forall₂ (fun component id => component.Stored symbol tree id) components ids)
    (formed : ∀ component ∈ components, component.WellFormed)
    (low : ∀ component ∈ components, component.height ≤ need)
    (spent : canvas.depth + levels = limits.maxDepth)
    (fits : room → canvas.Fits limits need (laterText components)) :
    Writes room (laterText components)
      ((Speller.within limits symbol tree levels).separated false ids) canvas := by
  induction stored generalizing canvas with
  | nil => exact Writes.nothing
  | @cons component id components ids first others ih =>
    have begun := formed component (List.mem_cons_self ..)
    have room := low component (List.mem_cons_self ..)
    refine separated rfl (text_ne_empty begun) ?_ ?_
    · exact first.spell begun spent fun enough => (fits enough).second.first.fewer room
    · exact ih (fun component hmem => formed component (List.mem_cons_of_mem _ hmem))
        (fun component hmem => low component (List.mem_cons_of_mem _ hmem)) spent
        fun enough => (fits enough).second.second

/-- A list of components, with commas between them. -/
theorem Stored.list {components : List Component} {ids : List NodeId}
    (stored : List.Forall₂ (fun component id => component.Stored symbol tree id) components ids)
    (formed : ∀ component ∈ components, component.WellFormed)
    (low : ∀ component ∈ components, component.height ≤ need)
    (spent : canvas.depth + levels = limits.maxDepth)
    (fits : room → canvas.Fits limits need (", ".intercalate (components.map text))) :
    Writes room (", ".intercalate (components.map text))
      ((Speller.within limits symbol tree levels).separated true ids) canvas := by
  cases stored with
  | nil => exact Writes.nothing
  | @cons component id components ids first others =>
    have begun := formed component (List.mem_cons_self ..)
    have room := low component (List.mem_cons_self ..)
    rw [intercalate_text] at fits ⊢
    rw [← String.empty_append (s := component.text ++ laterText components)] at fits ⊢
    refine separated rfl (text_ne_empty begun) ?_ ?_
    · exact first.spell begun spent fun enough => (fits enough).second.first.fewer room
    · exact later others (fun component hmem => formed component (List.mem_cons_of_mem _ hmem))
        (fun component hmem => low component (List.mem_cons_of_mem _ hmem)) spent
        fun enough => (fits enough).second.second

end Component

/-- A function is spelled as its name and, in parentheses, its parameters. -/
theorem Signature.Stored.spell {signature : Signature} {root : NodeId}
    (stored : signature.Stored symbol tree root)
    (fits : room → Canvas.Fits limits {} signature.height signature.text) :
    Writes room signature.text (rendering limits symbol tree root) {} := by
  obtain ⟨name, run, held, hname, hparams⟩ := stored
  have tall := signature.four_le_height
  have parts : signature.text = signature.name.text ++
      ("(" ++ (", ".intercalate (signature.params.map Component.text) ++ ")")) := by
    rw [Signature.text, String.append_assoc, String.append_assoc]
  rw [parts] at fits ⊢
  have low : ∀ param ∈ signature.params, param.height ≤ signature.height - 2 := by
    intro param hparam
    have := Signature.height_le hparam
    omega
  have deep : 1 ≤ 2 := Nat.le_succ 1
  refine Writes.andThen (Writes.left held (Nat.zero_add _) deep ?_ ?_)
    (Writes.right held (Nat.zero_add _) deep ?_ ?_)
  · exact fun enough => (fits enough).first.fewer (by omega)
  · intro levels spent
    have within (enough : _) := ((fits enough).fewer (by omega : 3 ≤ signature.height)).deeper.first
    refine Writes.behind Writes.nothing (Writes.spell (hname.left spent within) ?_)
    exact hname.right spent fun enough => (within enough).behind
  · exact fun enough => (fits enough).second.fewer (by omega)
  · intro levels spent
    refine Writes.before ?_ (Writes.behind Writes.nothing (Writes.before (Writes.quals {}) Writes.nothing))
    refine Writes.andThen (Writes.wording "(") (Writes.andThen ?_ (Writes.wording ")"))
    refine Writes.after rfl ?_
    refine Component.Stored.list hparams signature.wellFormed low spent ?_
    intro enough
    refine ((fits enough).fewer ?_).deeper.second.second.first
    omega

end Halves
end Unmangle
