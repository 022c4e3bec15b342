import Unmangle.Proofs.Output.Constant
import Unmangle.Spelling.Render

/-!
# Both halves of a node

The left half of a node may open parentheses, and the right half then closes as many. Both
halves look at the same nodes to decide it, so they agree, whatever is spelled between them. The
half of a node that has nothing behind a declared name is whole on its own.
-/
namespace Unmangle

/-- The node may have text behind the name that it declares. -/
def Node.Declares : Node → Bool
  | .qualified .. | .templateParam _ | .forwardParam .. | .function .. | .pointer _
  | .memberPointer .. | .reference .. | .array .. | .functionType .. | .parameterPack _ => true
  | _ => false

def Bracket.deeper (count : Nat) (opened : List Bracket) : List Bracket :=
  List.replicate count .round ++ opened

theorem Bracket.deeper_deeper (count more : Nat) (opened : List Bracket) :
    Bracket.deeper more (Bracket.deeper count opened) = Bracket.deeper (count + more) opened := by
  rw [deeper, deeper, deeper, ← List.append_assoc, List.replicate_append_replicate, Nat.add_comm]

namespace Script

open Print

/-- The left half of the node is all that is spelled of it. -/
def Alone (script : Script) (tree : Tree) (id : NodeId) : Prop :=
  script.Blind ∨ (tree.node id).Declares = false

/-- The texts of a node are such as the script allows. -/
def Fits (script : Script) (symbol : ByteArray) (tree : Tree) : Node → Prop
  | .name text => script.name (text.resolve symbol)
  | .abiTagged base tag => script.Alone tree base ∧ script.inert (tag.resolve symbol)
  | .destroyed type => script.Alone tree type
  | .trailingQualified type words => script.Alone tree type ∧ script.word words
  | .unnamedType text | .closureType _ text | .functionParam text | .binaryFloat text
  | .clone _ text | .vendorQualified _ text => script.inert (text.resolve symbol)
  | .special words _ | .elaborated words _ | .binary _ words _ | .leading words _
  | .trailing _ words | .member _ words _ | .fold _ words _ _ | .enclosing words _
  | .namedCast words _ _ => script.word words
  | .integer (.cast words) value | .integer (.suffix words) value =>
    script.word words ∧ script.number (value.resolve symbol)
  | .enumerator _ value => script.number (value.resolve symbol)
  | _ => True

/-- Every half adds text that leads from the open brackets to those behind it, and the right half
of a node goes back to where its left half began. -/
def Pairs (script : Script) (tree : Tree) (half : Half → NodeId → Print Unit) : Prop :=
  ∀ index id, ∃ count, ((tree.node id).Declares = false → count = 0) ∧ ∀ opened,
    script.Adds index opened (Bracket.deeper count opened) (half .left id) ∧
    script.Adds index (Bracket.deeper count opened) opened (half .right id)

variable {script : Script} {index : Nat} {opened opened' : List Bracket} {speller : Speller}

theorem Blind.adds (blind : script.Blind) {p : Print Unit}
    (adds : script.Adds index opened opened' p) (under under' : List Bracket) :
    script.Adds index under under' p := by
  intro canvas after here run
  obtain ⟨here', added, inside⟩ := adds here run
  exact ⟨here', added, inside.out, blind inside.leads under under', inside.depth⟩

/-- What a list with commas comes to: the comma, the first node, and the rest behind it, or in
its place if it spelled nothing. -/
theorem of_run_separated {isFirst : Bool} {id : NodeId} {rest : List NodeId}
    {canvas after : Canvas} (run : (speller.separated isFirst (id :: rest)).run canvas = .ok () after) :
    ∃ between behind, (whenever (!isFirst) (write ", ")).run canvas = .ok () between ∧
      (speller.spell id).run between = .ok () behind ∧
      (if behind.out.size = between.out.size then
        (speller.separated isFirst rest).run
          { behind with out := behind.out.extract 0 canvas.out.size } = .ok () after
      else (speller.separated false rest).run behind = .ok () after) := by
  obtain ⟨_, _, ⟨⟩, run⟩ := of_run_bind run
  obtain ⟨⟨⟩, between, first, run⟩ := of_run_bind run
  obtain ⟨_, _, ⟨⟩, run⟩ := of_run_bind run
  obtain ⟨⟨⟩, behind, second, run⟩ := of_run_bind run
  obtain ⟨_, _, ⟨⟩, run⟩ := of_run_bind run
  refine ⟨between, behind, first, second, ?_⟩
  split
  · rw [if_pos ‹_›] at run
    exact run
  · rw [if_neg ‹_›] at run
    exact run

section Steps

variable (pairs : script.Pairs speller.tree speller.half)
include pairs

theorem adds_spell (opened : List Bracket) (id : NodeId) :
    script.Adds index opened opened (speller.spell id) := by
  obtain ⟨count, -, both⟩ := pairs index id
  exact .andThen (both opened).1 (both opened).2

/-- The left half of a node that stands alone closes what it opens. -/
theorem adds_alone {id : NodeId} (alone : script.Alone speller.tree id) :
    script.Adds index opened opened (speller.half .left id) := by
  obtain ⟨count, none, both⟩ := pairs index id
  obtain blind | single := alone
  · exact blind.adds (both opened).1 opened opened
  · obtain rfl := none single
    exact (both opened).1

theorem adds_parenthesized (id : NodeId) :
    script.Adds index opened opened (speller.parenthesized id) :=
  .andThen (adds_bracket rfl (by decide)) <| .andThen (adds_spell pairs _ id) <|
    adds_bracket rfl (by decide)

/-- Only the comma before a node that spells nothing is taken back. -/
theorem adds_separated (isFirst : Bool) (ids : List NodeId) :
    script.Adds index opened opened (speller.separated isFirst ids) := by
  induction ids generalizing isFirst with
  | nil => exact .pure
  | cons id rest ih =>
    intro canvas after here run
    obtain ⟨between, behind, first, second, run⟩ := of_run_separated run
    have comma : script.Adds index opened opened (whenever (!isFirst) (write ", ")) :=
      .whenever (adds_write (by decide))
    obtain ⟨here', added, first⟩ := comma here first
    obtain ⟨here', added', second⟩ := adds_spell pairs opened id here' second
    have out : behind.out = canvas.out ++ (added ++ added') := by
      rw [second.out, first.out, ByteArray.append_assoc]
    have depth : behind.depth = canvas.depth := second.depth.trans first.depth
    -- where the node spelled nothing, what is cut off again is exactly what was added since
    split at run
    · obtain ⟨here', more, last⟩ := @ih isFirst
        { behind with out := behind.out.extract 0 canvas.out.size } _ here' run
      refine ⟨here', more, ?_, last.leads, last.depth.trans depth⟩
      rw [last.out, out, ByteArray.extract_append_eq_left rfl]
    · obtain ⟨here', more, last⟩ := ih false here' run
      refine ⟨here', added ++ added' ++ more, ?_, ?_, last.depth.trans depth⟩
      · rw [last.out, out, ByteArray.append_assoc]
      · exact script.append (script.append first.leads second.leads) last.leads

theorem adds_list (nodes : NodeList) : script.Adds index opened opened (speller.list nodes) :=
  .look (.elements _ _) (adds_separated pairs true _)

theorem adds_parenthesizedList (nodes : NodeList) :
    script.Adds index opened opened (speller.parenthesizedList nodes) :=
  .andThen (adds_bracket rfl (by decide)) <| .andThen (adds_list pairs nodes) <|
    adds_bracket rfl (by decide)

theorem adds_inBrackets (id : Option NodeId) :
    script.Adds index opened opened (speller.inBrackets id) :=
  .andThen (adds_bracket rfl (by decide)) <| .andThen (.ifAny (adds_spell pairs _)) <|
    adds_bracket rfl (by decide)

theorem adds_closureParams (id : NodeId) :
    script.Adds index opened opened (speller.closureParams id) := by
  refine .look (.node _ _) ?_
  split
  · exact adds_parenthesizedList pairs _
  · exact .pure

theorem adds_initializer (id : NodeId) :
    script.Adds index opened opened (speller.initializer id) := by
  refine .look (.node _ _) (.andThen ?_ (adds_spell pairs _ id))
  split
  · exact .pure
  · exact .pure
  · exact .pure
  · exact adds_write (by decide)

/-- Each element of an expansion is spelled at its own place in the pack. -/
theorem laterElements_added (opened : List Bracket) (pattern : NodeId) (size : Nat) (places : List Nat)
    {canvas after : Canvas}
    (run : (speller.laterElements pattern size places).run canvas = .ok () after) :
    ∃ added, script.Added opened opened canvas after added := by
  induction places generalizing canvas with
  | nil =>
    cases run
    exact ⟨.empty, ByteArray.append_empty.symm, script.nil opened, rfl⟩
  | cons place rest ih =>
    obtain ⟨⟨⟩, between, first, run⟩ := of_run_bind run
    obtain ⟨⟨⟩, _, ⟨⟩, run⟩ := of_run_bind run
    obtain ⟨⟨⟩, behind, second, run⟩ := of_run_bind run
    have comma : script.Adds canvas.index opened opened (write ", ") := adds_write (by decide)
    obtain ⟨-, added, first⟩ := comma rfl first
    obtain ⟨-, added', second⟩ := adds_spell pairs opened pattern rfl second
    obtain ⟨more, last⟩ := ih run
    have leads := script.append first.leads (script.append second.leads last.leads)
    refine ⟨added ++ (added' ++ more), ?_, leads, ?_⟩
    · rw [last.out, second.out]
      show between.out ++ added' ++ more = _
      rw [first.out, ByteArray.append_assoc, ByteArray.append_assoc]
    · exact last.depth.trans (second.depth.trans first.depth)

/-- An expansion takes back at most what it spelled itself, for an empty pack. -/
theorem expandOnce_added (opened : List Bracket) (pattern : NodeId) {canvas after : Canvas}
    (run : (speller.expandOnce pattern).run canvas = .ok () after) :
    ∃ added, script.Added opened opened canvas after added := by
  obtain ⟨_, _, ⟨⟩, run⟩ := of_run_bind run
  obtain ⟨⟨⟩, behind, first, run⟩ := of_run_bind run
  obtain ⟨_, _, ⟨⟩, run⟩ := of_run_bind run
  obtain ⟨here, added, first⟩ := adds_spell pairs opened pattern rfl first
  split at run
  · have dots : script.Adds canvas.index opened opened (write "...") := adds_write (by decide)
    obtain ⟨-, added', last⟩ := dots here run
    refine ⟨added ++ added', ?_, script.append first.leads last.leads,
      last.depth.trans first.depth⟩
    rw [last.out, first.out, ByteArray.append_assoc]
  · split at run
    · cases run
      refine ⟨.empty, ?_, script.nil opened, first.depth⟩
      show behind.out.extract 0 canvas.out.size = canvas.out ++ .empty
      rw [first.out, ByteArray.extract_append_eq_left rfl, ByteArray.append_empty]
    · obtain ⟨added', last⟩ := laterElements_added pairs opened pattern _ _ run
      refine ⟨added ++ added', ?_, script.append first.leads last.leads,
        last.depth.trans first.depth⟩
      rw [last.out, first.out, ByteArray.append_assoc]

/-- An expansion closes what it opens. -/
theorem adds_expand (pattern : NodeId) :
    script.Adds index opened opened (speller.expand pattern) := by
  intro canvas after here run
  simp only [Speller.expand] at run
  split at run
  · rename_i behind inside
    cases run
    obtain ⟨added, inside⟩ := expandOnce_added pairs opened pattern inside
    exact ⟨here, added, inside.out, inside.leads, inside.depth⟩
  · cases run

end Steps
end Script
end Unmangle
