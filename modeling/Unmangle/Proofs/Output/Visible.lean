import Unmangle.Proofs.Formation.Node
import Unmangle.Proofs.Output.Qualified

/-!
# Nodes that show

Some nodes may be spelled as nothing: a pack without elements, an array of such a pack. A name
of the symbol, a title, or a mark such as `::` always shows, and so does a node that has one of
them in it.
-/
namespace Unmangle

/-- A text that opens or closes a bracket is not empty. Nothing is said of any other. -/
def Trace.visible : Trace where
  leads opened bytes opened' := opened ≠ opened' → bytes ≠ .empty
  nil _ := absurd rfl
  append {opened between opened'} _ _ first next differs none := by
    obtain ⟨none, none'⟩ := ByteArray.append_eq_empty_iff.mp none
    by_cases same : opened = between
    · exact next (same ▸ differs) none'
    · exact first same none

/-- The step writes something, if it succeeds. -/
def Print.Shows (index : Nat) (p : Print Unit) : Prop :=
  Trace.visible.Adds index [] [.round] p

namespace Print.Shows

open Print

variable {index : Nat} {opened : List Bracket} {p : Print Unit} {f : Unit → Print Unit}

/-- A step that only adds to what is written may stand before and behind one that shows. -/
theorem of_adds (adds : ∀ index, Script.lenient.Adds index [] [] p) :
    Trace.visible.Adds index opened opened p := by
  intro canvas after here run
  obtain ⟨here', added, inside⟩ := adds index here run
  exact ⟨here', added, inside.out, absurd rfl, inside.depth⟩

theorem before (shows : Shows index p) (adds : ∀ index, Script.lenient.Adds index [] [] (f ())) :
    Shows index (p >>= f) :=
  Trace.Adds.andThen shows (of_adds adds)

theorem behind (adds : ∀ index, Script.lenient.Adds index [] [] p) (shows : Shows index (f ())) :
    Shows index (p >>= f) :=
  Trace.Adds.andThen (of_adds adds) shows

theorem writeBytes {bytes : ByteArray} (some : bytes ≠ .empty) :
    Shows index (Print.writeBytes bytes) :=
  Trace.Adds.writeBytes fun _ => some

theorem write {words : String} (some : words ≠ "") : Shows index (Print.write words) :=
  writeBytes fun none => some (String.toByteArray_inj.mp none)

theorem text {speller : Speller} {text : Text} (called : text.Called speller.symbol) :
    Shows index (speller.text text) := by
  refine Trace.Adds.look (.bytes _ _) (writeBytes ?_)
  cases text with
  | literal words => exact fun none => called.2 (String.toByteArray_inj.mp none)
  | span start stop => exact called

/-- What shows is not spelled as nothing. -/
theorem ne_empty {after : Canvas} (shows : Shows 0 p) (run : p.run {} = .ok () after) :
    after.out ≠ .empty := by
  obtain ⟨-, added, inside⟩ := shows rfl run
  rw [inside.out, ByteArray.empty_append]
  exact inside.leads (by decide)

end Print.Shows

namespace Print

variable {index : Nat} {symbol : ByteArray} {regular : Prop} {tree : Tree} {limits : SpellingLimits}
  {levels : Nat}

section Halves

variable {speller : Speller} (pairs : Script.lenient.Pairs speller.tree speller.half)
include pairs

/-- A name of the symbol, a title or a mark is in the left half of each node that shows, but for a
function and the instance of a template. -/
theorem shows_left {node : Node} (formed : node.Formed speller.symbol regular speller.tree)
    (prints : node.Prints = true) (single : node.Declares = false)
    (args : ∀ name args, node = .instantiation name args → Shows index (speller.spell args)) :
    Shows index (speller.left node) := by
  have spell (id : NodeId) (index : Nat) : Script.lenient.Adds index [] [] (speller.spell id) :=
    Script.adds_spell pairs [] id
  have word (words : String) (index : Nat) : Script.lenient.Adds index [] [] (write words) :=
    Script.adds_word trivial
  have text (text : Text) (index : Nat) : Script.lenient.Adds index [] [] (speller.text text) :=
    Script.adds_text trivial
  cases node with
  | name text => exact .text formed
  | nestedName scope name | localName scope name =>
    exact .behind (spell scope) (.before (.write (by decide)) (spell name))
  | stdName name | conversionName name | literalOperator name =>
    exact .before (.write (by decide)) (spell name)
  | instantiation name arguments => exact .behind (spell name) (args name arguments rfl)
  | abiTagged base tag =>
    refine .behind (fun index => Script.adds_alone pairs (.inl fun _ _ _ => trivial)) ?_
    exact .before (.write (by decide)) fun index => .andThen (text tag index) (word "]" index)
  | unnamedType count =>
    exact .before (.write (by decide)) fun index => .andThen (text count index) (word "'" index)
  | closureType params count =>
    refine .before (.write (by decide)) ?_
    intro index
    refine .andThen (text count index) ?_
    exact .andThen (word "'" index) (Script.adds_parenthesizedList pairs params)
  | structuredBinding names =>
    refine .before (.write (by decide)) ?_
    intro index
    exact .andThen (Script.adds_list pairs names) (word "]" index)
  | abbreviation short => exact .before (.write (by decide)) (word short.shortName)
  | special title child => exact .before (.write formed.2) (spell child)
  | constructionVtable base derived =>
    refine .before (.write (by decide)) ?_
    intro index
    refine .andThen (spell base index) ?_
    exact .andThen (word "-in-" index) (spell derived index)
  | clone encoding suffix =>
    refine .behind (spell encoding) (.before (.write (by decide)) fun index => ?_)
    exact .andThen (text suffix index) (word ")" index)
  | enclosing words inner =>
    refine .behind (word words) (.before (.write (by decide)) fun index => ?_)
    exact .andThen (spell inner index) (word ")" index)
  | function => cases single
  | _ => cases prints

end Halves

/-- Arguments of a template have their angle brackets. -/
theorem shows_templateArgs {id : NodeId} {nodes : NodeList}
    (held : tree.node id = .templateArgs nodes) :
    Shows index (renderHalf limits symbol tree levels .left id) := by
  cases levels with
  | zero => exact Trace.Adds.nested (.throw _)
  | succ levels =>
    refine Trace.Adds.nested (.look (.node _ _) ?_)
    rw [held]
    refine Shows.before (.write (by decide)) ?_
    intro index
    refine .andThen (Script.adds_list (lenient_pairs limits symbol tree levels) nodes) ?_
    refine .peek (fun canvas => ⟨_, rfl⟩) ?_
    intro last
    exact .andThen (.whenever (Script.adds_word trivial)) (Script.adds_word trivial)

/-- The parameters of a function have their parentheses. -/
theorem shows_function {id : NodeId} {result : Option NodeId} {name : NodeId} {params : NodeList}
    {quals : Qualifiers} {ref : Option Reference}
    (held : tree.node id = .function result name params quals ref) :
    Shows index (renderHalf limits symbol tree levels .right id) := by
  cases levels with
  | zero => exact Trace.Adds.nested (.throw _)
  | succ levels =>
    refine Trace.Adds.nested (.look (.node _ _) ?_)
    rw [held]
    refine Shows.before (Shows.before (.write (by decide)) fun index => ?_) fun index => ?_
    · exact .andThen (Script.adds_list (lenient_pairs limits symbol tree levels) params)
        (Script.adds_word trivial)
    · exact .andThen (ifAny_adds index) <|
        .andThen (Script.adds_quals quals) (Script.adds_refQualifier ref)

/-- A well-formed node that is never spelled as nothing shows in one of its halves. -/
theorem shows_half (limits : SpellingLimits) (levels : Nat) {id : NodeId}
    (formed : (tree.node id).Formed symbol regular tree)
    (prints : (tree.node id).Prints = true) :
    ∃ half, ∀ index, Shows index (renderHalf limits symbol tree levels half id) := by
  cases single : (tree.node id).Declares with
  | true =>
    -- of the nodes with two halves only a function is never spelled as nothing
    cases held : tree.node id with
    | function => exact ⟨.right, fun _ => shows_function held⟩
    | _ =>
      rw [held] at single prints
      first | (cases prints; done) | cases single
  | false =>
    refine ⟨.left, fun index => ?_⟩
    cases levels with
    | zero => exact Trace.Adds.nested (.throw _)
    | succ levels =>
      refine Trace.Adds.nested (.look (.node _ _) ?_)
      refine shows_left (lenient_pairs limits symbol tree levels) formed prints single ?_
      intro name args held
      rw [held] at formed
      obtain ⟨node, stored, admitted⟩ := formed
      cases node with
      | templateArgs nodes =>
        have here : tree.node args = .templateArgs nodes := by
          rw [Tree.node, stored, Option.getD_some]
        exact Shows.before (shows_templateArgs here) fun index => lenient_adds .right index args
      | _ => cases admitted

/-- A well-formed tree is not spelled as nothing if its root never is. -/
theorem render_ne_empty {root : NodeId} {out : ByteArray}
    (formed : (tree.node root).Formed symbol regular tree)
    (prints : (tree.node root).Prints = true)
    (rendered : render limits symbol tree root = .ok out) : out ≠ .empty := by
  obtain ⟨half, shows⟩ := shows_half limits limits.maxDepth formed prints
  have spelled : Shows 0 (rendering limits symbol tree root) := by
    cases half with
    | left => exact Shows.before (shows 0) fun index => lenient_adds .right index root
    | right => exact Shows.behind (fun index => lenient_adds .left index root) (shows 0)
  unfold render at rendered
  split at rendered
  · rename_i after run
    cases rendered
    exact spelled.ne_empty run
  · cases rendered

end Print
end Unmangle
