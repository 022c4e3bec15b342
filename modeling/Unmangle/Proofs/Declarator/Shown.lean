import Unmangle.Proofs.Declarator.Halves
import Unmangle.Proofs.Spelling.Run

/-!
# Names that show halves

What spelling a name writes, and what is found when its chain is followed, as far as it is
followed at all. Each kind of node has one lemma, from the names that it leads to.
-/
namespace Unmangle

namespace Canvas

def bracketed (canvas : Canvas) : Bool :=
  canvas.out[canvas.out.size - 1]? == some 93

theorem lastByte_add (canvas : Canvas) {words : String} (some : words ≠ "") :
    (canvas.add words).out[(canvas.add words).out.size - 1]? = (octets words).getLast? := by
  have long : 0 < (octets words).length := List.length_pos_iff.mpr (octets_ne_nil some)
  have size : words.toUTF8.size = (octets words).length := rfl
  show (canvas.out ++ words.toUTF8)[(canvas.out ++ words.toUTF8).size - 1]? = _
  rw [ByteArray.size_append, List.getLast?_eq_getElem?, getElem?_pos _ _ (by
    rw [ByteArray.size_append]
    omega), ByteArray.getElem_append_right (by omega), List.getElem?_eq_getElem (by omega)]
  simp only [octets, size, Array.getElem_toList, ByteArray.getElem_eq_getElem_data,
    Option.some.injEq]
  congr 1
  have octets : (octets words).length = words.toUTF8.data.toList.length := rfl
  omega

theorem bracketed_add (canvas : Canvas) {words : String} (some : words ≠ "") :
    (canvas.add words).bracketed = endsInBracket words := by
  unfold bracketed endsInBracket endsIn
  rw [canvas.lastByte_add some]

end Canvas

namespace Print

def commas : List String → String
  | [] => ""
  | words :: rest => ", " ++ (words ++ commas rest)

theorem intercalate_commas (words : String) (rest : List String) :
    ", ".intercalate (words :: rest) = words ++ commas rest := by
  induction rest generalizing words with
  | nil => simp [commas]
  | cons next rest ih => rw [String.intercalate_cons_cons, ih, commas, String.append_assoc]

end Print

open Print

/-- What a name shows. Its tail is looked for under a number of names at most, and all that it
leads to is within a number of levels. -/
structure Shows (symbol : ByteArray) (tree : Tree) (pack : Option Pack) (tails need : Nat)
    (halves : Halves) (id : NodeId) : Prop where
  left : ∀ {room : Prop} {limits : SpellingLimits} {levels : Nat} {canvas : Canvas},
    canvas.pack = pack → canvas.depth + levels = limits.maxDepth →
    (room → canvas.Fits limits need halves.left) →
    Writes room halves.left (renderHalf limits symbol tree levels .left id) canvas
  right : ∀ {room : Prop} {limits : SpellingLimits} {levels : Nat} {canvas : Canvas},
    canvas.pack = pack → canvas.depth + levels = limits.maxDepth →
    (room → canvas.Fits limits need (halves.right canvas.bracketed)) →
    Writes room (halves.right canvas.bracketed) (renderHalf limits symbol tree levels .right id)
      canvas
  tail : ∀ {tail : Tail} {steps : Nat} {canvas : Canvas}, canvas.pack = pack →
    tail ≠ .any → tails ≤ steps →
    (hasTailWithin tree tail steps id).run canvas = .ok (halves.tail tail) canvas
  any : ∀ {steps : Nat} {canvas : Canvas}, canvas.pack = pack → need ≤ steps + 1 →
    (hasTailWithin tree .any steps id).run canvas = .ok (halves.tail .any) canvas

section

variable {symbol : ByteArray} {tree : Tree} {pack : Option Pack} {tails tails' need need' : Nat}
  {halves : Halves} {id target : NodeId} {node : Node} {room : Prop} {limits : SpellingLimits}
  {levels : Nat} {canvas : Canvas}

namespace Shows

theorem weaken (h : Shows symbol tree pack tails need halves id) (le : tails ≤ tails')
    (le' : need ≤ need') : Shows symbol tree pack tails' need' halves id where
  left := fun packed spent fits => h.left packed spent fun enough => (fits enough).fewer le'
  right := fun packed spent fits => h.right packed spent fun enough => (fits enough).fewer le'
  tail := fun packed other near => h.tail packed other (Nat.le_trans le near)
  any := fun packed near => h.any packed (Nat.le_trans le' near)

/-- The right half behind what is known to end in a bracket or not to. -/
theorem rightBehind (h : Shows symbol tree pack tails need halves id) {bracket : Bool}
    (same : canvas.bracketed = bracket) (packed : canvas.pack = pack)
    (spent : canvas.depth + levels = limits.maxDepth)
    (fits : room → canvas.Fits limits need (halves.right bracket)) :
    Writes room (halves.right bracket) (renderHalf limits symbol tree levels .right id) canvas := by
  subst same
  exact h.right packed spent fits

theorem hasTail (h : Shows symbol tree pack tails need halves id) (near : tails ≤ chainLimit)
    (tail : Tail) (other : tail ≠ .any) (packed : canvas.pack = pack) :
    (Print.hasTail tree tail id).run canvas = .ok (halves.tail tail) canvas :=
  h.tail packed other near

/-- The renderer finds out whether a declarator needs parentheses. -/
theorem hasArrayOrFunction (h : Shows symbol tree pack tails need halves id)
    (near : tails ≤ chainLimit) (packed : canvas.pack = pack) :
    (Print.hasArrayOrFunction tree id).run canvas = .ok halves.isTailed canvas := by
  have array := h.hasTail near .array (by decide) packed
  have function := h.hasTail near .function (by decide) packed
  simp only [Print.hasArrayOrFunction, Bind.bind, array, Halves.isTailed]
  cases halves.tail .array with
  | true => rfl
  | false => exact function

/-- The parentheses of a declarator, and the space before them. -/
theorem openDeclarator (h : Shows symbol tree pack tails need halves id)
    (near : tails ≤ chainLimit) (packed : canvas.pack = pack) :
    Writes room halves.opening ((Speller.within limits symbol tree levels).openDeclarator id)
      canvas := by
  refine Writes.after (h.hasTail near _ (by decide) packed) (Writes.andThen (Writes.whenever _ _) ?_)
  exact Writes.after (h.hasArrayOrFunction near packed) (Writes.whenever _ _)

/-- Behind a star comes the parenthesis that was opened before it. -/
theorem closeDeclarator (h : Shows symbol tree pack tails need halves id)
    (near : tails ≤ chainLimit) (packed : canvas.pack = pack)
    (spent : canvas.depth + levels = limits.maxDepth)
    (fits : room → canvas.Fits limits need (halves.closed canvas.bracketed)) :
    Writes room (halves.closed canvas.bracketed)
      ((Speller.within limits symbol tree levels).closeDeclarator id) canvas := by
  unfold Halves.closed at fits ⊢
  refine Writes.after (h.hasArrayOrFunction near packed) ?_
  cases tailed : halves.isTailed with
  | false =>
    rw [tailed] at fits
    exact Writes.behind Writes.nothing (h.right packed spent fits)
  | true =>
    rw [tailed] at fits
    have closed : (canvas.add ")").bracketed = false := by
      rw [Canvas.bracketed_add _ (by decide)]
      decide
    refine Writes.andThen (Writes.wording ")") ?_
    exact h.rightBehind closed packed spent fun enough => (fits enough).second

/-- Both halves, with nothing between them. -/
theorem spell (h : Shows symbol tree pack tails need halves id) (solid : halves.Solid)
    (packed : canvas.pack = pack) (spent : canvas.depth + levels = limits.maxDepth)
    (fits : room → canvas.Fits limits need halves.text) :
    Writes room halves.text ((Speller.within limits symbol tree levels).spell id) canvas := by
  refine Writes.andThen (h.left packed spent fun enough => (fits enough).first) ?_
  refine h.rightBehind ?_ packed spent fun enough => (fits enough).second
  rw [canvas.bracketed_add solid.1, solid.2]

/-- A name that stands before a declared name. -/
theorem leaf {text : Text} {words : String} (held : tree.get? id = some (.name text))
    (resolved : text.resolve symbol = words.toUTF8) :
    Shows symbol tree pack 1 2 (.leaf words) id where
  left _ spent fits := Writes.left held spent (Nat.le_refl 1) fits fun _ _ => Writes.text resolved
  right _ spent fits := Writes.right held spent (Nat.le_refl 1) fits fun _ _ => Writes.nothing
  tail := by
    intro tail steps canvas packed other near
    obtain ⟨steps, rfl⟩ := Nat.exists_eq_add_of_le' near
    simp only [hasTailWithin, Bind.bind, Print.node, Tree.node_of_get? held]
    rfl
  any := by
    intro steps canvas packed near
    obtain ⟨steps, rfl⟩ := Nat.exists_eq_add_of_le' (Nat.le_of_succ_le_succ near)
    simp only [hasTailWithin, Bind.bind, Print.node, Tree.node_of_get? held]
    rfl

/-- A pointer leads to what it points to, with a sign and maybe parentheses around the name. -/
theorem pointer (held : tree.get? id = some (.pointer target))
    (h : Shows symbol tree pack tails need halves target) (near : tails ≤ chainLimit)
    (deep : 1 ≤ need) : Shows symbol tree pack 1 (need + 1) (halves.wrap "*") id where
  left packed spent fits := by
    refine Writes.left held spent deep fits ?_
    intro levels spent
    have within (enough : _) := (fits enough).deeper
    refine Writes.andThen (h.left packed spent fun enough => (within enough).first) ?_
    exact Writes.andThen (h.openDeclarator near packed) (Writes.wording "*")
  right packed spent fits := by
    refine Writes.right held spent deep fits ?_
    intro levels spent
    exact h.closeDeclarator near packed spent fun enough => (fits enough).deeper
  tail := by
    intro tail steps canvas packed other near
    obtain ⟨steps, rfl⟩ := Nat.exists_eq_add_of_le' near
    simp only [hasTailWithin, Bind.bind, Print.node, Tree.node_of_get? held, if_neg other]
    cases tail with
    | any => exact absurd rfl other
    | array | function => rfl
  any := by
    intro steps canvas packed near
    obtain ⟨steps, rfl⟩ := Nat.exists_eq_add_of_le' (Nat.le_trans deep (Nat.le_of_succ_le_succ near))
    simp only [hasTailWithin, Bind.bind, Print.node, Tree.node_of_get? held, if_true]
    exact h.any packed (Nat.le_of_succ_le_succ near)

/-- A pointer to a member names the class too. -/
theorem memberPointer {scope : NodeId} {halves' : Halves}
    (held : tree.get? id = some (.memberPointer scope target))
    (h : Shows symbol tree pack tails need halves target) (near : tails ≤ chainLimit)
    (h' : Shows symbol tree pack tails' need halves' scope) (solid : halves'.Solid)
    (deep : 1 ≤ need) :
    Shows symbol tree pack 1 (need + 1) (halves.member halves'.text) id where
  left packed spent fits := by
    refine Writes.left held spent deep fits ?_
    intro levels spent
    have within (enough : _) := (fits enough).deeper
    refine Writes.andThen (h.left packed spent fun enough => (within enough).first) ?_
    refine Writes.after (h.hasArrayOrFunction near packed) (Writes.andThen (Writes.wording _) ?_)
    refine Writes.andThen ?_ (Writes.wording "::*")
    exact h'.spell solid packed spent fun enough => (within enough).second.second.first
  right packed spent fits := by
    refine Writes.right held spent deep fits ?_
    intro levels spent
    exact h.closeDeclarator near packed spent fun enough => (fits enough).deeper
  tail := by
    intro tail steps canvas packed other near
    obtain ⟨steps, rfl⟩ := Nat.exists_eq_add_of_le' near
    simp only [hasTailWithin, Bind.bind, Print.node, Tree.node_of_get? held, if_neg other]
    cases tail with
    | any => exact absurd rfl other
    | array | function => rfl
  any := by
    intro steps canvas packed near
    obtain ⟨steps, rfl⟩ := Nat.exists_eq_add_of_le' (Nat.le_trans deep (Nat.le_of_succ_le_succ near))
    simp only [hasTailWithin, Bind.bind, Print.node, Tree.node_of_get? held, if_true]
    exact h.any packed (Nat.le_of_succ_le_succ near)

/-- An array is shown as its element with the length behind it. -/
theorem array {dimension : NodeId} {text : Text} {words : String}
    (held : tree.get? id = some (.array target (some dimension)))
    (sized : tree.get? dimension = some (.name text))
    (resolved : text.resolve symbol = words.toUTF8)
    (h : Shows symbol tree pack tails need halves target) (deep : 2 ≤ need) :
    Shows symbol tree pack 1 (need + 1) (halves.array words) id where
  left packed spent fits := by
    refine Writes.left held spent (Nat.le_of_succ_le deep) fits ?_
    intro levels spent
    exact h.left packed spent fun enough => (fits enough).deeper
  right := by
    intro room limits levels canvas packed spent fits
    refine Writes.right held spent (Nat.le_of_succ_le deep) fits ?_
    intro levels spent
    have within (enough : _) := (fits enough).deeper.second
    have size : Shows symbol tree pack 1 2 (.leaf words) dimension := leaf sized resolved
    refine Writes.after (a := canvas.out[canvas.out.size - 1]?) rfl ?_
    refine Writes.andThen (Writes.whenever _ " ") (Writes.andThen ?_ ?_)
    · refine Writes.andThen (Writes.wording "[") (Writes.andThen ?_ (Writes.wording "]"))
      have space (enough : _) := ((within enough).first.second.first).fewer deep
      exact Writes.spell (size.left packed spent space)
        (size.right packed spent fun enough => (space enough).behind)
    · refine h.rightBehind ?_ packed spent fun enough => (within enough).second
      rw [← String.append_assoc, Canvas.bracketed_add, endsInBracket_append (by decide)]
      · decide
      · exact append_ne_empty _ (by decide)
  tail := by
    intro tail steps canvas packed other near
    obtain ⟨steps, rfl⟩ := Nat.exists_eq_add_of_le' near
    simp only [hasTailWithin, Bind.bind, Print.node, Tree.node_of_get? held]
    rfl
  any := by
    intro steps canvas packed near
    obtain ⟨steps, rfl⟩ := Nat.exists_eq_add_of_le' (Nat.le_trans deep (Nat.le_of_succ_le_succ near))
    simp only [hasTailWithin, Bind.bind, Print.node, Tree.node_of_get? held]
    rfl

/-- A qualified type is shown as its target with the qualifiers behind its left half. -/
theorem qualified {quals : Qualifiers} (held : tree.get? id = some (.qualified target quals))
    (h : Shows symbol tree pack tails need halves target) (deep : 1 ≤ need) :
    Shows symbol tree pack (tails + 1) (need + 1) (halves.qualified quals) id where
  left packed spent fits := by
    refine Writes.left held spent deep fits ?_
    intro levels spent
    refine Writes.andThen (h.left packed spent fun enough => ?_) (Writes.quals quals)
    exact (fits enough).deeper.first
  right packed spent fits := by
    refine Writes.right held spent deep fits ?_
    intro levels spent
    exact h.right packed spent fun enough => (fits enough).deeper
  tail := by
    intro tail steps canvas packed other near
    obtain ⟨steps, rfl⟩ := Nat.exists_eq_add_of_le' (Nat.le_trans (Nat.le_add_left 1 _) near)
    simp only [hasTailWithin, Bind.bind, Print.node, Tree.node_of_get? held]
    exact h.tail packed other (Nat.le_of_succ_le_succ near)
  any := by
    intro steps canvas packed near
    obtain ⟨steps, rfl⟩ := Nat.exists_eq_add_of_le' (Nat.le_trans deep (Nat.le_of_succ_le_succ near))
    simp only [hasTailWithin, Bind.bind, Print.node, Tree.node_of_get? held]
    exact h.any packed (Nat.le_of_succ_le_succ near)

/-- A parameter shows what its argument shows. -/
theorem aliased (first : tree.Alias id target) (h : Shows symbol tree pack tails need halves target)
    (deep : 1 ≤ need) : Shows symbol tree pack (tails + 1) (need + 1) halves id where
  left packed spent fits := by
    refine Writes.half spent deep fits ?_
    intro levels spent
    unfold Writes Grants
    rw [run_side_alias .left first]
    exact h.left packed spent fun enough => (fits enough).deeper
  right packed spent fits := by
    refine Writes.half spent deep fits ?_
    intro levels spent
    unfold Writes Grants
    rw [run_side_alias .right first]
    exact h.right packed spent fun enough => (fits enough).deeper
  tail := by
    intro tail steps canvas packed other near
    obtain ⟨steps, rfl⟩ := Nat.exists_eq_add_of_le' (Nat.le_trans (Nat.le_add_left 1 _) near)
    rw [run_hasTail_alias tail first]
    exact h.tail packed other (Nat.le_of_succ_le_succ near)
  any := by
    intro steps canvas packed near
    obtain ⟨steps, rfl⟩ := Nat.exists_eq_add_of_le' (Nat.le_trans deep (Nat.le_of_succ_le_succ near))
    rw [run_hasTail_alias .any first]
    exact h.any packed (Nat.le_of_succ_le_succ near)

end Shows

/-- Names that show something each, in the order of a list. -/
def AllShow (symbol : ByteArray) (tree : Tree) (pack : Option Pack) (need : Nat)
    (items : List Halves) (ids : List NodeId) : Prop :=
  List.Forall₂ (fun halves id => halves.Solid ∧ Shows symbol tree pack chainLimit need halves id)
    items ids

namespace AllShow

variable {items : List Halves} {ids others : List NodeId} {more : String}

/-- The names of a list behind others, and what comes behind them. -/
theorem later (h : AllShow symbol tree pack need items ids) (packed : canvas.pack = pack)
    (spent : canvas.depth + levels = limits.maxDepth)
    (fits : room → canvas.Fits limits need (commas (items.map Halves.text) ++ more))
    (next : Writes room more ((Speller.within limits symbol tree levels).separated false others)
      (canvas.add (commas (items.map Halves.text)))) :
    Writes room (commas (items.map Halves.text) ++ more)
      ((Speller.within limits symbol tree levels).separated false (ids ++ others)) canvas := by
  induction h generalizing canvas with
  | nil =>
    rw [List.map_nil, commas, Canvas.add_empty] at next
    rwa [List.map_nil, commas, String.empty_append]
  | @cons halves id items ids first rest ih =>
    rw [List.map_cons, commas, String.append_assoc, String.append_assoc] at fits ⊢
    rw [List.map_cons, commas, Canvas.add_append, Canvas.add_append] at next
    refine Component.separated rfl first.1.text_ne_empty ?_ ?_
    · exact first.2.spell first.1 packed spent fun enough => (fits enough).second.first
    · exact ih packed spent (fun enough => (fits enough).second.second) next

/-- The names of a list, with commas between them and in front of what comes behind. -/
theorem from_first {halves : Halves} (first : halves.Solid)
    (h' : Shows symbol tree pack chainLimit need halves id)
    (h : AllShow symbol tree pack need items ids) (packed : canvas.pack = pack)
    (spent : canvas.depth + levels = limits.maxDepth)
    (fits : room → canvas.Fits limits need
      (", ".intercalate ((halves :: items).map Halves.text) ++ more))
    (next : Writes room more ((Speller.within limits symbol tree levels).separated false others)
      (canvas.add (", ".intercalate ((halves :: items).map Halves.text)))) :
    Writes room (", ".intercalate ((halves :: items).map Halves.text) ++ more)
      ((Speller.within limits symbol tree levels).separated true (id :: ids ++ others)) canvas := by
  rw [List.map_cons, intercalate_commas, Canvas.add_append] at next
  rw [List.map_cons, intercalate_commas, String.append_assoc,
    ← String.empty_append (s := halves.text ++ _)] at fits ⊢
  refine Component.separated rfl first.text_ne_empty ?_ ?_
  · exact h'.spell first packed spent fun enough => (fits enough).second.first
  · rw [Canvas.add_empty]
    refine h.later packed spent (fun enough => ?_) next
    have behind := (fits enough).second.second
    rwa [Canvas.add_empty] at behind

/-- The names of a list, with commas between them. -/
theorem whole (h : AllShow symbol tree pack need items ids) (packed : canvas.pack = pack)
    (spent : canvas.depth + levels = limits.maxDepth)
    (fits : room → canvas.Fits limits need (", ".intercalate (items.map Halves.text))) :
    Writes room (", ".intercalate (items.map Halves.text))
      ((Speller.within limits symbol tree levels).separated true ids) canvas := by
  cases h with
  | nil => exact Writes.nothing
  | @cons halves id items ids first rest =>
    rw [← String.append_empty (s := ", ".intercalate _)] at fits ⊢
    rw [← List.append_nil (id :: ids)]
    exact from_first first.1 first.2 rest packed spent fits Writes.nothing

end AllShow

/-- A function shows its parameters in parentheses, and the rest of its result behind them. -/
theorem Shows.function {run : NodeList} {quals : Qualifiers} {items : List Halves}
    (held : tree.get? id = some (.functionType target run quals none none))
    (h : Shows symbol tree pack tails need halves target)
    (params : AllShow symbol tree pack need items (tree.list run).toList) (deep : 1 ≤ need) :
    Shows symbol tree pack 1 (need + 1)
      (halves.function (", ".intercalate (items.map Halves.text)) quals) id where
  left packed spent fits := by
    refine Writes.left held spent deep fits ?_
    intro levels spent
    exact Writes.andThen (h.left packed spent fun enough => (fits enough).deeper.first)
      (Writes.wording " ")
  right := by
    intro room limits levels canvas packed spent fits
    refine Writes.right held spent deep fits ?_
    intro levels spent
    have within (enough : _) := (fits enough).deeper
    refine Writes.before ?_ Writes.nothing
    refine Writes.andThen ?_ (Writes.andThen ?_ (Writes.before (Writes.quals quals) Writes.nothing))
    · refine Writes.andThen (Writes.wording "(") (Writes.andThen ?_ (Writes.wording ")"))
      exact Writes.after rfl
        (params.whole packed spent fun enough => (within enough).first.second.first)
    · refine h.rightBehind ?_ packed spent fun enough => (within enough).second.first
      rw [← String.append_assoc, Canvas.bracketed_add, endsInBracket_closing]
      exact append_ne_empty _ (by decide)
  tail := by
    intro tail steps canvas packed other near
    obtain ⟨steps, rfl⟩ := Nat.exists_eq_add_of_le' near
    simp only [hasTailWithin, Bind.bind, Print.node, Tree.node_of_get? held]
    rfl
  any := by
    intro steps canvas packed near
    obtain ⟨steps, rfl⟩ := Nat.exists_eq_add_of_le' (Nat.le_trans deep (Nat.le_of_succ_le_succ near))
    simp only [hasTailWithin, Bind.bind, Print.node, Tree.node_of_get? held]
    rfl

def Node.IsItself : Node → Prop
  | .templateParam _ | .forwardParam .. | .parameterPack _ => False
  | _ => True

def Node.isReference : Node → Bool
  | .reference .. => true
  | _ => false

/-- What a name shows, and what a reference to it comes to. References and parameters are
followed to the end of their chain. -/
structure Shown (symbol : ByteArray) (tree : Tree) (pack : Option Pack) (tails links need : Nat)
    (spelling : Spelling) (id : NodeId) : Prop where
  shows : Shows symbol tree pack tails need spelling.halves id
  near : tails ≤ chainLimit
  behind : ∃ last, (tree.node last).isReference = spelling.ref.isSome ∧
    ∀ {steps : Nat} {canvas : Canvas}, canvas.pack = pack → links ≤ steps →
      (behindWithin tree steps id).run canvas = .ok last canvas
  collapse : ∀ (kind : Reference) {steps : Nat} {canvas : Canvas}, canvas.pack = pack →
    links ≤ steps → ∃ target,
      (collapseWithin tree steps kind id).run canvas =
        .ok (some (spelling.under kind, target)) canvas ∧
      Shows symbol tree pack chainLimit need spelling.base target

/-- A node that stands for no other decides for itself. -/
theorem behind_itself (held : tree.get? id = some node) (itself : node.IsItself) (steps : Nat) :
    (behindWithin tree steps id).run canvas = .ok id canvas := by
  cases steps with
  | zero => rfl
  | succ steps =>
    simp only [behindWithin, Bind.bind, Print.node, Tree.node_of_get? held]
    cases node with
    | templateParam _ | forwardParam _ _ | parameterPack _ => cases itself
    | _ => rfl

/-- A reference to what turns out to be no reference is what it is. -/
theorem collapse_other {last : NodeId} {steps : Nat} (kind : Reference)
    (toLast : (Print.behind tree id).run canvas = .ok last canvas)
    (other : (tree.node last).isReference = false) :
    (collapseWithin tree (steps + 1) kind id).run canvas = .ok (some (kind, id)) canvas := by
  simp only [collapseWithin, Bind.bind, toLast, Print.node]
  cases last : tree.node last with
  | reference _ _ =>
    rw [last] at other
    cases other
  | _ => rfl

/-- A reference to what turns out to be a reference goes by that. -/
theorem collapse_reference {last : NodeId} {steps : Nat} (kind : Reference)
    (toLast : (Print.behind tree id).run canvas = .ok last canvas)
    (toLast' : (Print.behind tree target).run canvas = .ok last canvas)
    (reference : (tree.node last).isReference = true) :
    (collapseWithin tree steps kind id).run canvas =
      (collapseWithin tree steps kind target).run canvas := by
  cases steps with
  | zero => rfl
  | succ steps =>
    simp only [collapseWithin, Bind.bind, toLast, toLast', Print.node]
    cases last : tree.node last with
    | reference _ _ => rfl
    | _ =>
      rw [last] at reference
      cases reference

/-- Putting a reference on a reference and another on both is the same in either order. -/
theorem Reference.collapse_assoc (kind kind' kind'' : Reference) :
    (kind.collapse kind').collapse kind'' = kind.collapse (kind'.collapse kind'') := by
  cases kind <;> cases kind' <;> cases kind'' <;> rfl

namespace Spelling

variable {spelling : Spelling}

theorem under_refer (kind outer : Reference) :
    (spelling.refer kind).under outer = spelling.under (outer.collapse kind) := by
  unfold refer under
  cases spelling.ref with
  | none => rfl
  | some inner => exact (Reference.collapse_assoc outer kind inner).symm

theorem any_refer (kind : Reference) :
    (spelling.refer kind).halves.tail .any = spelling.halves.tail .any := by
  unfold refer halves
  cases spelling.ref <;> rfl

end Spelling

namespace Shown

variable {links links' : Nat} {spelling : Spelling}

theorem weaken (h : Shown symbol tree pack tails links need spelling id) (le : tails ≤ tails')
    (near : tails' ≤ chainLimit) (le' : links ≤ links') (le'' : need ≤ need') :
    Shown symbol tree pack tails' links' need' spelling id where
  shows := h.shows.weaken le le''
  near := near
  behind := by
    obtain ⟨last, same, run⟩ := h.behind
    exact ⟨last, same, fun packed near => run packed (Nat.le_trans le' near)⟩
  collapse kind {steps canvas} packed near := by
    obtain ⟨target, run, shows⟩ := h.collapse kind packed (Nat.le_trans le' near)
    exact ⟨target, run, shows.weaken (Nat.le_refl _) le''⟩

/-- A node that stands for itself and is no reference is shown plainly. -/
theorem plain (held : tree.get? id = some node) (itself : node.IsItself)
    (other : node.isReference = false) (h : Shows symbol tree pack tails need halves id)
    (near : tails ≤ chainLimit) : Shown symbol tree pack tails 1 need (.plain halves) id where
  shows := h
  near := near
  behind := by
    refine ⟨id, ?_, fun _ _ => behind_itself held itself _⟩
    rw [Tree.node_of_get? held]
    exact other
  collapse := by
    intro kind steps canvas packed one
    obtain ⟨steps, rfl⟩ := Nat.exists_eq_add_of_le' one
    refine ⟨id, collapse_other kind (behind_itself held itself _) ?_, h.weaken near (Nat.le_refl _)⟩
    rw [Tree.node_of_get? held]
    exact other

/-- A reference is spelled as the one reference that its chain comes to. -/
theorem reference {kind : Reference} (held : tree.get? id = some (.reference kind target))
    (h : Shown symbol tree pack tails links need spelling target) (near : links ≤ chainLimit)
    (deep : 1 ≤ need) :
    Shown symbol tree pack 1 (links + 1) (need + 1) (spelling.refer kind) id where
  shows := {
    left := by
      intro room limits levels canvas packed spent fits
      refine Writes.left held spent deep fits ?_
      intro levels spent
      have within (enough : _) := (fits enough).deeper
      have packed' : Canvas.pack { canvas with depth := canvas.depth + 1 } = pack := packed
      obtain ⟨last, run, shows⟩ := h.collapse kind packed' near
      refine Writes.after run ?_
      refine Writes.andThen (shows.left packed spent fun enough => (within enough).first) ?_
      refine Writes.andThen (shows.openDeclarator (Nat.le_refl _) packed) ?_
      cases spelling.under kind <;> exact Writes.wording _
    right := by
      intro room limits levels canvas packed spent fits
      refine Writes.right held spent deep fits ?_
      intro levels spent
      have packed' : Canvas.pack { canvas with depth := canvas.depth + 1 } = pack := packed
      obtain ⟨last, run, shows⟩ := h.collapse kind packed' near
      refine Writes.after run ?_
      exact shows.closeDeclarator (Nat.le_refl _) packed spent fun enough => (fits enough).deeper
    tail := by
      intro tail steps canvas packed other near
      obtain ⟨steps, rfl⟩ := Nat.exists_eq_add_of_le' near
      simp only [hasTailWithin, Bind.bind, Print.node, Tree.node_of_get? held, if_neg other]
      cases tail with
      | any => exact absurd rfl other
      | array | function => rfl
    any := by
      intro steps canvas packed near
      obtain ⟨steps, rfl⟩ :=
        Nat.exists_eq_add_of_le' (Nat.le_trans deep (Nat.le_of_succ_le_succ near))
      simp only [hasTailWithin, Bind.bind, Print.node, Tree.node_of_get? held, if_true]
      rw [Spelling.any_refer]
      exact h.shows.any packed (Nat.le_of_succ_le_succ near) }
  near := by decide
  behind := by
    refine ⟨id, ?_, fun _ _ => behind_itself held trivial _⟩
    rw [Tree.node_of_get? held]
    rfl
  collapse := by
    intro outer steps canvas packed some
    obtain ⟨steps, rfl⟩ := Nat.exists_eq_add_of_le' (Nat.le_trans (Nat.le_add_left 1 _) some)
    obtain ⟨last, run, shows⟩ := h.collapse (outer.collapse kind) packed (Nat.le_of_succ_le_succ some)
    refine ⟨last, ?_, shows.weaken (Nat.le_refl _) (Nat.le_succ _)⟩
    have itself : (Print.behind tree id).run canvas = .ok id canvas :=
      behind_itself held trivial _
    simp only [collapseWithin, Bind.bind, itself, Print.node, Tree.node_of_get? held]
    rw [Spelling.under_refer]
    exact run

/-- A name behind which another one stands comes to what that comes to. -/
theorem led (h : Shown symbol tree pack tails links need spelling target)
    (shows : Shows symbol tree pack (tails + 1) (need + 1) spelling.halves id)
    (near : tails + 1 ≤ chainLimit) (near' : links + 1 ≤ chainLimit)
    (next : ∀ {steps : Nat} {canvas : Canvas}, canvas.pack = pack →
      (behindWithin tree (steps + 1) id).run canvas = (behindWithin tree steps target).run canvas) :
    Shown symbol tree pack (tails + 1) (links + 1) (need + 1) spelling id where
  shows := shows
  near := near
  behind := by
    obtain ⟨last, same, run⟩ := h.behind
    refine ⟨last, same, fun {steps canvas} packed some => ?_⟩
    obtain ⟨steps, rfl⟩ := Nat.exists_eq_add_of_le' (Nat.le_trans (Nat.le_add_left 1 _) some)
    rw [next packed]
    exact run packed (Nat.le_of_succ_le_succ some)
  collapse := by
    intro kind steps canvas packed some
    obtain ⟨last, same, run⟩ := h.behind
    have toLast : (Print.behind tree id).run canvas = .ok last canvas :=
      (next packed).trans (run packed (Nat.le_of_succ_le_succ near'))
    have toLast' : (Print.behind tree target).run canvas = .ok last canvas :=
      run packed (Nat.le_of_succ_le near')
    cases ref : spelling.ref with
    | none =>
      rw [ref] at same
      obtain ⟨steps, rfl⟩ := Nat.exists_eq_add_of_le' (Nat.le_trans (Nat.le_add_left 1 _) some)
      have base : spelling.halves = spelling.base := by rw [Spelling.halves, ref]
      refine ⟨id, ?_, base ▸ shows.weaken near (Nat.le_refl _)⟩
      rw [Spelling.under, ref]
      exact collapse_other kind toLast same
    | some inner =>
      rw [ref] at same
      obtain ⟨last', collapsed, shows'⟩ := h.collapse kind packed (Nat.le_of_succ_le some)
      refine ⟨last', ?_, shows'.weaken (Nat.le_refl _) (Nat.le_succ _)⟩
      rw [collapse_reference kind toLast toLast' same]
      exact collapsed

theorem aliased (first : tree.Alias id target)
    (h : Shown symbol tree pack tails links need spelling target) (near : tails + 1 ≤ chainLimit)
    (near' : links + 1 ≤ chainLimit) (deep : 1 ≤ need) :
    Shown symbol tree pack (tails + 1) (links + 1) (need + 1) spelling id :=
  h.led (.aliased first h.shows deep) near near' fun _ => run_behind_alias first

end Shown

end

end Unmangle
