import Unmangle.Proofs.Engine.Text
import Unmangle.Proofs.Formation.Symbol

/-!
# Brackets of demangled forms nest

Parentheses are opened by one half of a node and closed by the other, and what is left open in
between nests. A symbol without brackets of its own is demangled to a text whose brackets are
balanced, as long as no half is spelled alone of a node that has two.
-/
namespace Unmangle

theorem letters_extract_subset (bytes : ByteArray) (start stop : Nat) :
    letters (bytes.extract start stop) ⊆ letters bytes := by
  unfold letters
  rw [ByteArray.data_extract, Array.toList_extract]
  exact List.map_subset _ fun byte mem => List.mem_of_mem_drop (List.mem_of_mem_take mem)

/-- The brackets among the bytes of a text are those among its characters. -/
theorem Bracket.not_mem_marks_letters {words : String}
    (unbracketed : ∀ char ∈ words.toList, char ∉ marks) :
    ∀ char ∈ letters words.toUTF8, char ∉ marks := by
  intro char mem mark
  obtain ⟨byte, inside, rfl⟩ := List.mem_map.mp mem
  have ascii : byte.toNat < 128 := by
    by_contra large
    refine not_mem_marks_of_le ?_ mark
    rw [toNat_ofNat_byte]
    exact Nat.le_of_not_lt large
  have same : UInt8.ofNat (Char.ofNat byte.toNat).toNat = byte := by
    rw [toNat_ofNat_byte, UInt8.ofNat_toNat]
  refine unbracketed _ (mem_octets ?_ (same.symm ▸ inside)) mark
  rwa [toNat_ofNat_byte]

/-- A text leads from the brackets that are open before it to those that are open behind it. -/
def Script.nesting : Script where
  leads opened bytes opened' := Bracket.scan opened (letters bytes) = some opened'
  nil _ := rfl
  append first next := by
    rw [letters_append, Bracket.scan_append, first]
    exact next
  word words := Bracket.Balanced words.toList
  name bytes := Bracket.Balanced (letters bytes)
  inert bytes := Bracket.Balanced (letters bytes)
  number bytes := ∀ char ∈ letters bytes, char ∉ Bracket.marks
  words scan _ := (Bracket.scan_letters_toUTF8 _ _).trans scan
  worded opened balanced := (Bracket.scan_letters_toUTF8 _ _).trans (balanced.scan opened)
  named opened balanced := balanced.scan opened
  behind leads _ balanced := by
    rw [letters_append, Bracket.scan_append, leads]
    exact balanced.scan _
  unsigned _ none _ := Bracket.scan_of_forall none
  signed none := Bracket.scan_of_forall fun char mem =>
    none char (letters_extract_subset _ _ _ mem)

/-- A symbol without brackets has none in any of its parts. -/
theorem Script.nesting_allows {symbol : ByteArray}
    (unbracketed : ∀ char ∈ letters symbol, char ∉ Bracket.marks) :
    Script.nesting.Allows symbol True := by
  have part (start stop : Nat) : ∀ char ∈ letters (symbol.extract start stop), char ∉ Bracket.marks :=
    fun char mem => unbracketed char (letters_extract_subset symbol start stop mem)
  refine ⟨Plain.balanced, fun plain => ?_, fun {text} aside => ?_, fun {text} numeral => ?_,
    .inr trivial⟩
  · exact (Bracket.scan_letters_toUTF8 _ _).trans plain.balanced
  · cases text with
    | literal words =>
      obtain rfl : words = "" := aside
      exact Bracket.scan_nil []
    | span start stop => exact Bracket.scan_of_forall (part start stop)
  · cases text with
    | literal words => exact numeral.elim
    | span start stop => exact part start stop

/-- What is irregular is so by the letters of the symbol from some place on. -/
theorem Event.Irregular.begins {symbol : ByteArray} {e : Event} (irregular : e.Irregular)
    (sound : e.Sound symbol) :
    ∃ offset, offset ≤ symbol.size ∧
      (Rule.type.Irregular ⟨0, symbol.data.toList.drop offset⟩ ∨
        Rule.baseUnresolvedName.Irregular ⟨0, symbol.data.toList.drop offset⟩) := by
  cases e with
  | reads rule before id after =>
    refine ⟨before.cursor.offset, sound.1.stop ▸ Nat.le_add_right _ _, ?_⟩
    rw [← sound.1.rest]
    cases rule with
    | type =>
      refine .inl ⟨irregular.1, ?_⟩
      rw [← irregular.2]
      rcases before.cursor with ⟨offset, _ | ⟨byte, rest⟩⟩ <;> rfl
    | baseUnresolvedName => exact .inr irregular
    | _ => exact irregular.elim
  | visits | opens => exact irregular.elim

namespace Engine

/-- The brackets of what a name is demangled to are balanced, if the name has none itself,
`C` and `G` qualify builtin types only, and each destructor behind `dn` is named by an identifier. -/
theorem demangle_balanced (options : Options) (generation : UInt32) {name demangled : String}
    (unbracketed : ∀ char ∈ name.toList, char ∉ Bracket.marks)
    (regular : ∀ e, (Rule.parse options.maxRecursion options.maxRecursion .symbol).happens
      (.start generation name.toUTF8) e → ¬e.Irregular)
    (given : ((resting options generation).demangle name).1 = .ok demangled) :
    Bracket.Balanced demangled.toList := by
  rw [demangle_eq_answer] at given
  obtain ⟨⟨root, state, parsed, rendered⟩, -⟩ := renders_of_answer given
  have none : ∀ char ∈ letters name.toUTF8, char ∉ Bracket.marks :=
    Bracket.not_mem_marks_letters unbracketed
  obtain ⟨formed, -⟩ := formed_of_parse True parsed fun _ => regular
  have fits := (Script.nesting_allows none).fits formed fun id start stop _ =>
    Bracket.scan_of_forall fun char mem => none char (letters_extract_subset _ _ _ mem)
  have nests : Bracket.scan [] (letters demangled.toUTF8) = some [] :=
    Script.leads_of_render fits rendered
  rwa [Bracket.scan_letters_toUTF8] at nests

/-- A declarator in a declarator, behind a builtin type that is qualified. -/
theorem demangle_balanced_of_declarator :
    ((resting {} 0).demangle "_Z1fCfPFPA2_ivE").1.toOption =
        some "f(float complex, int (* (*)()) [2])" ∧
      Bracket.Balanced "f(float complex, int (* (*)()) [2])".toList := by
  have given : ((resting {} 0).demangle "_Z1fCfPFPA2_ivE").1 =
      .ok "f(float complex, int (* (*)()) [2])" := by
    decide +kernel
  have regular : ∀ offset ≤ "_Z1fCfPFPA2_ivE".toUTF8.size,
      ¬(Rule.type.Irregular ⟨0, "_Z1fCfPFPA2_ivE".toUTF8.data.toList.drop offset⟩ ∨
        Rule.baseUnresolvedName.Irregular ⟨0, "_Z1fCfPFPA2_ivE".toUTF8.data.toList.drop offset⟩) := by
    unfold Rule.Irregular
    decide +kernel
  refine ⟨congrArg Except.toOption given, demangle_balanced {} 0 (by decide) ?_ given⟩
  intro e happens irregular
  obtain ⟨offset, inside, begins⟩ := irregular.begins (Sides.event_sound happens)
  exact regular offset inside begins

/-- What is behind the name of a declarator is lost where it is qualified as if it were builtin. -/
example : (Engine.demangle {} "_Z1fCPFivE").1.toOption = some "f(int (* complex)" := by
  decide +kernel

end Engine
end Unmangle
