import Unmangle.Grammar.Type
import Unmangle.Proofs.Compression.Opening
import Unmangle.Proofs.Declarator.Form

/-!
# How written forms begin

The first byte tells a form of one kind from one of another, and from what ends a list of
forms.
-/
namespace Unmangle

namespace Qualifiers

def takes (quals : Qualifiers) (byte : UInt8) : Bool :=
  (byte == 75 && !quals.isConst) ||
    ((byte == 86 && !quals.isConst && !quals.isVolatile) || (byte == 114 && quals.isEmpty))

theorem opens {quals : Qualifiers} (some : quals.isEmpty = false) :
    ∃ byte rest, octets quals.letters = byte :: rest ∧ byte ∈ octets "rVK" :=
  Component.qualifiers_open some

/-- Letters that do not run into others do not take the first of them. -/
theorem takes_of_runsInto {quals quals' : Qualifiers} (some : quals.isEmpty = false)
    (some' : quals'.isEmpty = false) (apart : quals.runsInto quals' = false) :
    ∀ byte ∈ (octets quals'.letters).head?, quals.takes byte = false := by
  have every : ∀ c v r c' v' r' : Bool, Qualifiers.isEmpty ⟨c, v, r⟩ = false →
      Qualifiers.isEmpty ⟨c', v', r'⟩ = false → Qualifiers.runsInto ⟨c, v, r⟩ ⟨c', v', r'⟩ = false →
      ∀ byte ∈ (octets (Qualifiers.letters ⟨c', v', r'⟩)).head?.toList,
        Qualifiers.takes ⟨c, v, r⟩ byte = false := by decide
  obtain ⟨c, v, r⟩ := quals
  obtain ⟨c', v', r'⟩ := quals'
  exact fun byte first => every c v r c' v' r' some some' apart byte (Option.mem_toList.mpr first)

theorem takes_of_other (quals : Qualifiers) {byte : UInt8} (other : Parse.isQualifier byte = false) :
    quals.takes byte = false := by
  simp only [Parse.isQualifier, Bool.or_eq_false_iff] at other
  simp only [takes, other, Bool.false_and, Bool.or_self]

end Qualifiers

namespace TypeForm

/-- What a form of each kind begins with. -/
def openers : TypeForm → List UInt8
  | builtin letter => octets (String.singleton letter)
  | rare _ => [68]
  | named _ => Identifier.openers
  | pointer _ => [80]
  | reference .. => [82, 79]
  | memberPointer .. => [77]
  | array .. => [65]
  | function .. => octets "rVKF"
  | qualified .. => octets "rVK"
  | param _ => [84]

def starters : List UInt8 :=
  octets "vwbcahstijlmxynofdegzD123456789PROMAFrVKT"

/-- What may come behind a form: another one, or the end of what it is in. -/
def followers : List UInt8 :=
  octets "vwbcahstijlmxynofdegzD123456789PROMAFrVKTE"

theorem builtin_octets {letter : Char} (proper : (builtin letter).Proper) :
    ∃ byte, octets (String.singleton letter) = [byte] ∧ Char.ofNat byte.toNat = letter :=
  Component.builtin_octets proper

theorem rare_octets {letter : Char} (proper : (rare letter).Proper) :
    ∃ byte, octets (String.singleton letter) = [byte] ∧ Char.ofNat byte.toNat = letter ∧
      byte ∈ octets "defhisuacn" := by
  simp only [Proper, Builtin.extendedSpelling?] at proper
  split at proper
  all_goals first
    | exact ⟨_, rfl, rfl, by decide⟩
    | cases proper

theorem paramCode_opens (index : Nat) :
    ∃ byte rest, octets (paramCode index) = 84 :: byte :: rest ∧ byte ∈ octets "_0123456789" := by
  cases index with
  | zero => exact ⟨95, [], rfl, by decide⟩
  | succ number =>
    obtain ⟨value, rest, numeral, below, -⟩ :=
      Number.head_numeral (by decide : 2 ≤ 10) (by decide) number
    have every : ∀ value : Fin 10, Number.digitByte value ∈ octets "_0123456789" := by
      decide
    refine ⟨Number.digitByte value, rest ++ octets "_", ?_, every ⟨value, below⟩⟩
    rw [paramCode, octets_append, octets_append, numeral]
    rfl

/-- The code of a form begins with one of its openers. -/
theorem code_opens {form : TypeForm} (proper : form.Every Proper) :
    ∃ byte rest, octets form.code = byte :: rest ∧ byte ∈ form.openers := by
  unfold code
  cases form with
  | builtin letter =>
    obtain ⟨byte, same, -⟩ := builtin_octets (every_builtin.mp proper)
    rw [codeWith, same, openers, same]
    exact ⟨byte, [], rfl, List.mem_singleton_self _⟩
  | rare letter =>
    rw [codeWith, octets_append]
    exact ⟨68, _, rfl, List.mem_singleton_self _⟩
  | named ident =>
    rw [codeWith]
    exact ident.code_opens
  | pointer target =>
    rw [codeWith, octets_append]
    exact ⟨80, _, rfl, List.mem_singleton_self _⟩
  | reference kind target =>
    rw [codeWith, octets_append]
    cases kind
    · exact ⟨82, _, rfl, by rw [openers]; decide⟩
    · exact ⟨79, _, rfl, by rw [openers]; decide⟩
  | memberPointer scope member =>
    rw [codeWith, octets_append]
    exact ⟨77, _, rfl, List.mem_singleton_self _⟩
  | array length element =>
    rw [codeWith, octets_append]
    exact ⟨65, _, rfl, List.mem_singleton_self _⟩
  | function quals result params =>
    rw [codeWith, octets_append, octets_append]
    cases none : quals.isEmpty with
    | false =>
      obtain ⟨byte, rest, begins, member⟩ := Qualifiers.opens none
      have every : ∀ byte ∈ octets "rVK", byte ∈ octets "rVKF" := by decide
      rw [begins]
      exact ⟨byte, _, rfl, every byte member⟩
    | true =>
      have nothing : octets quals.letters = [] := by
        revert none
        rcases quals with ⟨_ | _, _ | _, _ | _⟩ <;> decide
      rw [nothing]
      exact ⟨70, _, rfl, by rw [openers]; decide⟩
  | qualified quals target =>
    obtain ⟨byte, rest, begins, member⟩ := Qualifiers.opens (every_qualified.mp proper).1.1
    rw [codeWith, octets_append, begins]
    exact ⟨byte, _, rfl, member⟩
  | param index =>
    obtain ⟨byte, rest, begins, -⟩ := paramCode_opens index
    rw [codeWith, begins]
    exact ⟨84, _, rfl, List.mem_singleton_self _⟩

/-- A form begins with one of a few bytes, whatever it is. -/
theorem openers_subset {form : TypeForm} (proper : form.Every Proper) :
    ∀ byte ∈ form.openers, byte ∈ starters := by
  cases form with
  | builtin letter =>
    have proper := every_builtin.mp proper
    simp only [Proper, Builtin.spelling?] at proper
    split at proper
    all_goals first
      | (simp only [openers]; decide)
      | cases proper
  | _ =>
    simp only [openers]
    decide

/-- A form begins with one of the starters, so it may follow another. -/
theorem ahead_code {form : TypeForm} (proper : form.Every Proper) (rest : List UInt8) :
    Ahead starters (octets form.code ++ rest) := by
  obtain ⟨byte, more, begins, opens⟩ := code_opens proper
  rw [begins]
  exact Ahead.cons (openers_subset proper byte opens) _

/-- No form begins as the end of a list of parameters does. -/
theorem code_goes_on {form : TypeForm} (proper : form.Every Proper) (rest : List UInt8) :
    ∃ byte more, octets form.code ++ rest = byte :: more ∧ byte ≠ 69 ∧
      (byte = 82 ∨ byte = 79 → ∃ byte' more', more = byte' :: more' ∧ byte' ≠ 69) := by
  have notEnd : ∀ byte ∈ starters, byte ≠ 69 := by decide
  have plain (every : ∀ byte ∈ form.openers, byte ≠ 82 ∧ byte ≠ 79) :
      ∃ byte more, octets form.code ++ rest = byte :: more ∧ byte ≠ 69 ∧
        (byte = 82 ∨ byte = 79 → ∃ byte' more', more = byte' :: more' ∧ byte' ≠ 69) := by
    obtain ⟨byte, more, begins, opens⟩ := code_opens proper
    obtain ⟨notR, notO⟩ := every byte opens
    refine ⟨byte, more ++ rest, by rw [begins]; rfl, notEnd byte (openers_subset proper byte opens), ?_⟩
    rintro (isR | isO)
    · exact absurd isR notR
    · exact absurd isO notO
  cases form with
  | reference kind target =>
    obtain ⟨byte, more, begins, opens⟩ := code_opens (every_reference.mp proper).2
    have inner : byte ≠ 69 :=
      notEnd byte (openers_subset (every_reference.mp proper).2 byte opens)
    have whole : octets (reference kind target).code ++ rest =
        octets kind.letter ++ byte :: (more ++ rest) := by
      rw [code, codeWith, octets_append, List.append_assoc, ← code, begins]
      rfl
    rw [whole]
    cases kind
    · exact ⟨82, _, rfl, by decide, fun _ => ⟨byte, _, rfl, inner⟩⟩
    · exact ⟨79, _, rfl, by decide, fun _ => ⟨byte, _, rfl, inner⟩⟩
  | builtin letter =>
    refine plain ?_
    have proper := every_builtin.mp proper
    simp only [Proper, Builtin.spelling?] at proper
    split at proper
    all_goals first
      | (simp only [openers]; decide)
      | cases proper
  | _ =>
    refine plain ?_
    simp only [openers]
    decide

/-- Every form is written with some byte. -/
theorem length_le_join {forms : List TypeForm} (proper : ∀ form ∈ forms, form.Every Proper) :
    forms.length ≤ (octets (String.join (forms.map code))).length := by
  induction forms with
  | nil => exact Nat.zero_le _
  | cons form forms ih =>
    obtain ⟨byte, more, begins, -⟩ := code_opens (proper form List.mem_cons_self)
    have later := ih fun form member => proper form (List.mem_cons_of_mem _ member)
    rw [List.map_cons, String.join_cons, octets_append, begins]
    simp only [List.length_cons, List.length_append]
    omega

/-- Only `void` begins with its letter. -/
theorem openers_ne_void {form : TypeForm} (proper : form.Every Proper)
    (other : form.isVoid = false) : ∀ byte ∈ form.openers, byte.toNat ≠ 'v'.toNat := by
  cases form with
  | builtin letter =>
    have proper := every_builtin.mp proper
    simp only [Proper, Builtin.spelling?] at proper
    split at proper
    all_goals first
      | (exact absurd other (by decide))
      | (simp only [openers]; decide)
      | cases proper
  | _ =>
    simp only [openers]
    decide

/-- Only qualifiers and functions begin with the letter of a qualifier. -/
theorem openers_unqualified {form : TypeForm} (proper : form.Every Proper)
    (other : form.isQualified = false) (other' : form.isFunction = false) :
    ∀ byte ∈ form.openers, Parse.isQualifier byte = false := by
  cases form with
  | builtin letter =>
    have proper := every_builtin.mp proper
    simp only [Proper, Builtin.spelling?] at proper
    split at proper
    all_goals first
      | (simp only [openers]; decide)
      | cases proper
  | qualified quals target => cases other
  | function quals result params => cases other'
  | _ =>
    simp only [openers]
    decide

/-- Qualifiers are passed over by their letters. -/
theorem dropWhile_letters (quals : Qualifiers) (rest : List UInt8) :
    (octets quals.letters ++ rest).dropWhile Parse.isQualifier = rest.dropWhile Parse.isQualifier := by
  have letters : ∀ byte ∈ octets quals.letters, Parse.isQualifier byte = true := by
    rcases quals with ⟨_ | _, _ | _, _ | _⟩ <;> decide
  rw [List.dropWhile_append_of_pos letters]

/-- Behind its qualifiers no form that is not a function begins as a function does. -/
theorem behind_qualifiers {form : TypeForm} (proper : form.Every Proper)
    (other : form.isFunction = false) (rest : List UInt8) :
    ∃ byte more, (octets form.code ++ rest).dropWhile Parse.isQualifier = byte :: more ∧
      byte ≠ 70 ∧ (byte = 68 → ∃ next rest, more = next :: rest ∧ next ∈ octets "defhisuacn") := by
  have plain {form : TypeForm} (proper : form.Every Proper) (every : ∀ byte ∈ form.openers,
      Parse.isQualifier byte = false ∧ byte ≠ 70 ∧ byte ≠ 68) :
      ∃ byte more, (octets form.code ++ rest).dropWhile Parse.isQualifier = byte :: more ∧
        byte ≠ 70 ∧ (byte = 68 → ∃ next rest, more = next :: rest ∧ next ∈ octets "defhisuacn") := by
    obtain ⟨byte, more, begins, opens⟩ := code_opens proper
    obtain ⟨stays, notF, notD⟩ := every byte opens
    refine ⟨byte, more ++ rest, ?_, notF, fun isD => absurd isD notD⟩
    rw [begins, List.cons_append, List.dropWhile_cons, stays, if_neg Bool.false_ne_true]
  induction form with
  | builtin letter =>
    refine plain proper ?_
    have proper := every_builtin.mp proper
    simp only [Proper, Builtin.spelling?] at proper
    split at proper
    all_goals first
      | (simp only [openers]; decide)
      | cases proper
  | rare letter =>
    obtain ⟨byte, same, -, member⟩ := rare_octets (every_rare.mp proper)
    refine ⟨68, byte :: rest, ?_, by decide, fun _ => ⟨byte, rest, rfl, member⟩⟩
    rw [code, codeWith, octets_append, same]
    rfl
  | qualified quals target ih =>
    rw [every_qualified] at proper
    rw [code, codeWith, octets_append, List.append_assoc, dropWhile_letters]
    exact ih proper.2 other
  | function quals result params _ _ => cases other
  | named _ | pointer _ _ | reference _ _ _ | memberPointer _ _ _ _ | array _ _ _ | param _ =>
    refine plain proper ?_
    simp only [openers]
    decide

end TypeForm
end Unmangle
