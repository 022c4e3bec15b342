import Mathlib.Data.List.Basic
import Unmangle.Proofs.Compression.Written

/-!
# How written components begin

The grammar goes by the first byte. What a component begins with tells its kind, unless it
is a substitution, and tells it from whatever else could come in its place.
-/
namespace Unmangle

def Ahead (allowed : List UInt8) (rest : List UInt8) : Prop :=
  ∀ byte ∈ rest.head?, byte ∈ allowed

theorem Ahead.nil (allowed : List UInt8) : Ahead allowed [] :=
  fun _ h => nomatch h

theorem Ahead.cons {allowed : List UInt8} {byte : UInt8} (h : byte ∈ allowed)
    (rest : List UInt8) : Ahead allowed (byte :: rest) := by
  rintro _ ⟨⟩
  exact h

theorem Ahead.weaken {allowed allowed' rest : List UInt8} (h : Ahead allowed rest)
    (weaker : ∀ byte ∈ allowed, byte ∈ allowed') : Ahead allowed' rest :=
  fun byte hbyte => weaker byte (h byte hbyte)

def Identifier.openers : List UInt8 :=
  octets "123456789"

namespace Component

/-- What a component of each kind may begin with. -/
def openers : Component → List UInt8
  | builtin letter => octets (String.singleton letter) ++ octets "S"
  | named _ => octets "123456789NS"
  | pointer _ => octets "PS"
  | reference .. => octets "ROS"
  | qualified .. => octets "rVKS"

def unqualifiedOpeners : List UInt8 :=
  octets "vwbcahstijlmxynofdegz123456789NSPRO"

def starters : List UInt8 :=
  octets "vwbcahstijlmxynofdegz123456789NSPROrVK"

/-- What may come behind a component: another one, or the end of a nested name. -/
def followers : List UInt8 :=
  octets "vwbcahstijlmxynofdegz123456789NSPROrVKE"

end Component

theorem Ahead.append {allowed allowed' bytes rest : List UInt8} (h : Ahead allowed bytes)
    (h' : Ahead allowed' rest) : Ahead (allowed ++ allowed') (bytes ++ rest) := by
  cases bytes with
  | nil => exact h'.weaken fun byte hbyte => List.mem_append_right _ hbyte
  | cons byte bytes => exact Ahead.cons (List.mem_append_left _ (h byte rfl)) _

namespace Identifier

/-- An identifier begins with the first digit of its length. -/
theorem code_opens (id : Identifier) :
    ∃ byte rest, octets id.code = byte :: rest ∧ byte ∈ openers := by
  have positive : 0 < id.words.utf8ByteSize := by
    rw [← length_octets, List.length_pos_iff]
    intro nothing
    have opens := id.opens
    rw [nothing] at opens
    simp at opens
  obtain ⟨value, rest, numeral, below, nonzero⟩ :=
    Number.head_numeral (by decide : 2 ≤ 10) (by decide) id.words.utf8ByteSize
  refine ⟨Number.digitByte value, rest ++ octets id.words, ?_, ?_⟩
  · rw [code, octets_append, numeral]
    rfl
  · have every : ∀ value : Fin 10, 0 < value.val → Number.digitByte value ∈ openers := by
      decide
    exact every ⟨value, below⟩ (nonzero positive)

theorem cases_openers {byte : UInt8} (opens : byte ∈ openers) :
    byte = 49 ∨ byte = 50 ∨ byte = 51 ∨ byte = 52 ∨ byte = 53 ∨ byte = 54 ∨ byte = 55 ∨
      byte = 56 ∨ byte = 57 := by
  simpa [show openers = [49, 50, 51, 52, 53, 54, 55, 56, 57] from rfl] using opens

theorem ahead_code (id : Identifier) (rest : List UInt8) : Ahead openers (octets id.code ++ rest) := by
  obtain ⟨byte, more, begins, opens⟩ := id.code_opens
  rw [begins]
  exact Ahead.cons opens _

theorem code_pos (id : Identifier) : 0 < (octets id.code).length := by
  obtain ⟨byte, rest, begins, -⟩ := id.code_opens
  rw [begins]
  exact Nat.succ_pos _

theorem size_le_code (id : Identifier) : id.words.utf8ByteSize ≤ (octets id.code).length := by
  rw [code, octets_append, List.length_append, length_octets id.words]
  exact Nat.le_add_left _ _

end Identifier

/-- A substitution does not begin as an abbreviation or `St` does. -/
theorem substitutionCode_opens (place : Nat) :
    ∃ byte rest, octets (substitutionCode place) = 83 :: byte :: rest ∧
      (Char.ofNat byte.toNat).isLower = false ∧ (Char.ofNat byte.toNat != 't') = true := by
  cases place with
  | zero => exact ⟨95, [], rfl, rfl, rfl⟩
  | succ number =>
    obtain ⟨value, rest, numeral, below, -⟩ :=
      Number.head_numeral (by decide : 2 ≤ 36) (by decide) number
    refine ⟨Number.digitByte value, rest ++ octets "_", ?_, ?_⟩
    · rw [substitutionCode, octets_append, octets_append, numeral]
      rfl
    · have every : ∀ value : Fin 36,
          (Char.ofNat (Number.digitByte value).toNat).isLower = false ∧
            (Char.ofNat (Number.digitByte value).toNat != 't') = true := by decide
      exact every ⟨value, below⟩

namespace ClassPath

variable {listed listed' : List Component} {path : ClassPath} {code : String}

/-- A path in front of more identifiers begins with an identifier or a substitution. -/
theorem Written.opens (h : Written listed path code listed') :
    (∃ byte rest, octets code = byte :: rest ∧ byte ∈ Identifier.openers) ∨
      ∃ byte rest, octets code = 83 :: byte :: rest ∧ (Char.ofNat byte.toNat != 't') = true := by
  induction h with
  | listed found =>
    obtain ⟨byte, rest, begins, -, notStd⟩ := substitutionCode_opens ‹Nat›
    exact .inr ⟨byte, rest, begins, notStd⟩
  | top id => exact .inl id.code_opens
  | inside id _ ih =>
    rw [octets_append]
    obtain ⟨byte, rest, begins, opens⟩ | ⟨byte, rest, begins, notStd⟩ := ih
    · exact .inl ⟨byte, rest ++ octets id.code, by rw [begins]; rfl, opens⟩
    · exact .inr ⟨byte, rest ++ octets id.code, by rw [begins]; rfl, notStd⟩

/-- Fewer components are listed than bytes are written. -/
theorem Written.length_le (h : Written listed path code listed') :
    listed'.length ≤ listed.length + (octets code).length := by
  induction h with
  | listed found => exact Nat.le_add_right _ _
  | top id =>
    have identified := id.code_pos
    simp only [List.length_append, List.length_singleton]
    omega
  | inside id _ ih =>
    have identified := id.code_pos
    simp only [List.length_append, List.length_singleton, octets_append]
    omega

end ClassPath

namespace Component

variable {listed listed' : List Component} {component : Component} {code : String}

theorem qualifiers_open {quals : Qualifiers} (some : quals.isEmpty = false) :
    ∃ byte rest, octets quals.letters = byte :: rest ∧ byte ∈ octets "rVK" := by
  rcases quals with ⟨_ | _, _ | _, _ | _⟩
  · cases some
  all_goals exact ⟨_, _, rfl, by decide⟩

theorem builtin_octets {letter : Char} (formed : (builtin letter).WellFormed) :
    ∃ byte, octets (String.singleton letter) = [byte] ∧ Char.ofNat byte.toNat = letter := by
  simp only [WellFormed, Builtin.spelling?] at formed
  split at formed
  all_goals first
    | exact ⟨_, rfl, rfl⟩
    | cases formed

/-- A written component begins with one of its openers. -/
theorem Written.opens (h : Written listed component code listed') (formed : component.WellFormed) :
    ∃ byte rest, octets code = byte :: rest ∧ byte ∈ component.openers := by
  cases h with
  | listed found =>
    obtain ⟨byte, rest, begins, -⟩ := substitutionCode_opens ‹Nat›
    refine ⟨83, byte :: rest, begins, ?_⟩
    cases component with
    | builtin letter => exact List.mem_append_right _ (by decide)
    | named _ | pointer _ | reference _ _ | qualified _ _ =>
      simp only [openers]
      decide
  | builtin letter =>
    obtain ⟨byte, same, -⟩ := builtin_octets formed
    refine ⟨byte, [], same, List.mem_append_left _ ?_⟩
    rw [same]
    exact List.mem_singleton.mpr rfl
  | top id =>
    obtain ⟨byte, rest, begins, opens⟩ := id.code_opens
    have every : ∀ byte ∈ Identifier.openers, byte ∈ octets "123456789NS" := by decide
    exact ⟨byte, rest, begins, every byte opens⟩
  | inside id h => exact ⟨78, _, rfl, by simp only [openers]; decide⟩
  | pointer h => exact ⟨80, _, rfl, by simp only [openers]; decide⟩
  | reference kind h =>
    cases kind with
    | lvalue => exact ⟨82, _, rfl, by simp only [openers]; decide⟩
    | rvalue => exact ⟨79, _, rfl, by simp only [openers]; decide⟩
  | qualified quals h =>
    obtain ⟨byte, rest, begins, opens⟩ := qualifiers_open formed.1
    have every : ∀ byte ∈ octets "rVK", byte ∈ octets "rVKS" := by decide
    exact ⟨byte, _, by rw [octets_append, begins, List.cons_append], every byte opens⟩

theorem openers_unqualified (formed : component.WellFormed)
    (unqualified : component.isQualified = false) :
    ∀ byte ∈ component.openers, byte ∈ unqualifiedOpeners := by
  cases component with
  | builtin letter =>
    simp only [WellFormed, Builtin.spelling?] at formed
    split at formed
    all_goals first
      | (simp only [openers]; decide)
      | cases formed
  | named _ | pointer _ | reference _ _ =>
    simp only [openers]
    decide
  | qualified _ _ => cases unqualified

theorem openers_subset (formed : component.WellFormed) :
    ∀ byte ∈ component.openers, byte ∈ starters := by
  have every : ∀ byte ∈ unqualifiedOpeners, byte ∈ starters := by decide
  cases component with
  | builtin _ | named _ | pointer _ | reference _ _ =>
    exact fun byte hbyte => every byte (openers_unqualified formed rfl byte hbyte)
  | qualified _ _ =>
    simp only [openers]
    decide

/-- Only `void` begins with its letter. -/
theorem openers_ne_void (formed : component.WellFormed) (other : component ≠ .builtin 'v') :
    ∀ byte ∈ component.openers, byte.toNat ≠ 'v'.toNat := by
  cases component with
  | builtin letter =>
    simp only [WellFormed, Builtin.spelling?] at formed
    split at formed
    all_goals first
      | exact absurd rfl other
      | (simp only [openers]; decide)
      | cases formed
  | named _ | pointer _ | reference _ _ | qualified _ _ =>
    simp only [openers]
    decide

/-- A component lists no more than it has bytes. -/
theorem Written.length_le (h : Written listed component code listed')
    (formed : component.WellFormed) :
    listed'.length ≤ listed.length + (octets code).length := by
  induction h with
  | listed found => exact Nat.le_add_right _ _
  | builtin letter => exact Nat.le_add_right _ _
  | top id =>
    have identified := id.code_pos
    simp only [List.length_append, List.length_singleton]
    omega
  | inside id h =>
    have shorter := h.length_le
    have marked : 0 < (octets "N").length := by decide
    simp only [List.length_append, List.length_singleton, octets_append]
    omega
  | pointer h ih =>
    have shorter := ih formed
    have marked : 0 < (octets "P").length := by decide
    simp only [List.length_append, List.length_singleton, octets_append]
    omega
  | reference kind h ih =>
    have shorter := ih formed.2
    have marked : 0 < (octets kind.letter).length := by cases kind <;> decide
    simp only [List.length_append, List.length_singleton, octets_append]
    omega
  | qualified quals h ih =>
    have shorter := ih formed.2.2
    obtain ⟨byte, rest, begins, -⟩ := qualifiers_open formed.1
    have marked : 0 < (octets quals.letters).length := by
      rw [begins]
      exact Nat.succ_pos _
    simp only [List.length_append, List.length_singleton, octets_append]
    omega

end Component
end Unmangle
