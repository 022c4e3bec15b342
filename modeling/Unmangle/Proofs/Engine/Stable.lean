import Unmangle.Proofs.Engine.Text
import Unmangle.Proofs.Formation.Symbol
import Unmangle.Proofs.Output.Visible

/-!
# Demangled forms are no symbols

What a symbol is demangled to is not empty, and it begins with a word of the language or with a
name of the symbol. So it has no marker at its beginning, unless one of the names has, and it is
left alone when it is taken for a symbol again.
-/
namespace Unmangle

/-- What is spelled is clear of markers, whatever brackets are open. -/
def Script.clear : Script where
  leads _ bytes _ := Clear (letters bytes)
  nil _ := .nil
  append first next := by
    rw [letters_append]
    exact first.append next
  word words := Clear words.toList
  name bytes := Clear (letters bytes)
  inert _ := True
  number bytes := bytes[0]? = some 110 ∨ Clear (letters bytes)
  words _ clear := clear.of_chars
  worded _ clear := clear.of_chars
  named _ clear := clear
  behind clear some _ := by
    rw [letters_append]
    exact clear.append_right (fun none => some (letters_eq_nil_iff.mp none)) _
  unsigned _ number positive := number.resolve_left positive
  signed _ := trivial

theorem letters_of_first {bytes : ByteArray} {byte : UInt8} (first : bytes[0]? = some byte) :
    ∃ rest, letters bytes = Char.ofNat byte.toNat :: rest := by
  obtain ⟨below, rfl⟩ := getElem?_eq_some_iff.mp first
  have head : bytes.data.toList[0]? = some bytes[0] :=
    List.getElem?_eq_some_iff.mpr ⟨below, rfl⟩
  obtain ⟨rest, begins⟩ := List.head?_eq_some_iff.mp (List.head?_eq_getElem?.trans head)
  exact ⟨_, congrArg _ begins⟩

/-- A number begins with its sign or with a digit. -/
theorem Text.Numeral.clear {symbol : ByteArray} {text : Text} (numeral : text.Numeral symbol) :
    (text.resolve symbol)[0]? = some 110 ∨ Clear (letters (text.resolve symbol)) := by
  cases text with
  | literal words => exact numeral.elim
  | span start stop =>
    obtain ⟨byte, first, rfl | digit⟩ := numeral
    · exact .inl first
    · obtain ⟨rest, begins⟩ := letters_of_first first
      refine .inr ?_
      change Clear (letters (symbol.extract start stop))
      rw [begins]
      refine .of_head (fun bar => ?_) rest
      have code := congrArg Char.toNat bar
      rw [toNat_ofNat_byte] at code
      obtain rfl : byte = 95 := UInt8.toNat_inj.mp code
      exact absurd digit (by decide)

theorem Script.clear_allows (symbol : ByteArray) : Script.clear.Allows symbol False where
  word := Plain.clear
  literal plain := plain.clear.of_chars
  aside _ := trivial
  number numeral := numeral.clear
  alone := .inl fun clear _ _ => clear

/-- The names of a tree that are parts of a symbol. -/
def Tree.names (tree : Tree) (symbol : ByteArray) : List ByteArray :=
  tree.contents.filterMap fun
    | .name (.span start stop) => some (symbol.extract start stop)
    | _ => none

theorem Tree.mem_names {tree : Tree} {symbol : ByteArray} (intact : tree.Intact) {id : NodeId}
    {start stop : Nat} (held : tree.get? id = some (.name (.span start stop))) :
    symbol.extract start stop ∈ tree.names symbol := by
  obtain ⟨-, listed⟩ := (Store.get?_eq_some_iff intact).mp held
  exact List.mem_filterMap.mpr ⟨_, List.mem_of_getElem? listed, rfl⟩

namespace Engine

/-- The identifiers that were read in a name, if it was read to its end. The numbers of array
dimensions are kept like them, but digits are always clear. -/
def identifiers (options : Options) (generation : UInt32) (name : String) : List ByteArray :=
  match (Rule.parse options.maxRecursion options.maxRecursion .symbol).run
    (.start generation name.toUTF8) with
  | .ok _ state => state.work.tree.names name.toUTF8
  | .error _ _ => []

/-- What the name of an encoding is demangled to is not empty and is no name of an encoding, unless
an identifier in it consists of underscores or begins with a marker. So it is left alone. -/
theorem demangle_stable (options : Options) (generation : UInt32) {name demangled : String}
    (marked : Symbol.isEncoding name = true)
    (clear : ∀ bytes ∈ identifiers options generation name, Clear (letters bytes))
    (given : ((resting options generation).demangle name).1 = .ok demangled) :
    demangled ≠ "" ∧ Symbol.isEncoding demangled = false ∧ ∀ engine : Engine,
      engine.attempt demangled = (⟨.error .notMangledEncoding, []⟩, engine) ∧
        (engine.attempt demangled).1.display demangled = demangled := by
  rw [demangle_eq_answer] at given
  obtain ⟨⟨root, state, parsed, rendered⟩, -⟩ := renders_of_answer given
  obtain ⟨formed, printed⟩ := formed_of_parse False parsed False.elim
  have leads : Clear (letters demangled.toUTF8) := by
    refine Script.leads_of_render ((Script.clear_allows _).fits formed fun id start stop held => ?_)
      rendered
    refine clear _ ?_
    rw [identifiers, parsed]
    exact Tree.mem_names formed.ground.intact held
  -- the marker makes the root an encoding, and no encoding is spelled as nothing
  have some : demangled ≠ "" := by
    obtain ⟨node, held, prints⟩ := printed (Symbol.atMarker_start marked)
    have here : state.work.tree.node root = node := by
      rw [Tree.node, held, Option.getD_some]
    have whole := formed.nodes root node held
    rw [← here] at whole prints
    rintro rfl
    exact Print.render_ne_empty whole prints rendered rfl
  have unmarked := leads.isEncoding_eq_false some
  refine ⟨some, unmarked, fun engine => ?_⟩
  have alone : engine.attempt demangled = (⟨.error .notMangledEncoding, []⟩, engine) := by
    rw [attempt, if_neg (by rw [unmarked]; exact Bool.false_ne_true)]
  exact ⟨alone, by rw [alone]; rfl⟩

/-- A result that is spelled as nothing comes first. -/
theorem demangle_stable_of_empty_pack :
    ((resting {} 0).demangle "_Z2_fIJEEDpT_v").1.toOption = some " _f<>()" ∧
      (" _f<>()" ≠ "" ∧ Symbol.isEncoding " _f<>()" = false ∧ ∀ engine : Engine,
        engine.attempt " _f<>()" = (⟨.error .notMangledEncoding, []⟩, engine) ∧
          (engine.attempt " _f<>()").1.display " _f<>()" = " _f<>()") := by
  have given : ((resting {} 0).demangle "_Z2_fIJEEDpT_v").1 = .ok " _f<>()" := by decide +kernel
  have clear : ∀ bytes ∈ identifiers {} 0 "_Z2_fIJEEDpT_v", Clear (letters bytes) := by
    decide +kernel
  exact ⟨congrArg Except.toOption given, demangle_stable {} 0 (by decide) clear given⟩

/-- An identifier that begins with a marker may be demangled to a symbol. -/
example : (Engine.demangle {} "_Z2_Zv").1.toOption = some "_Z()" ∧
    Symbol.isEncoding "_Z()" = true := by decide +kernel

end Engine
end Unmangle
