import Unmangle.Proofs.Course.Symbol
import Unmangle.Proofs.Limits
import Unmangle.Proofs.Spelling.Alone

/-!
# Spelling what was read to its end

A tree whose texts are cut between characters is spelled as text, if the symbol is text. With
every argument in its place and every literal as long as its format, spelling fails at a limit
or not at all.
-/
namespace Unmangle

/-- Only text is put behind what was written, provided the condition. -/
def Growth.text (condition : Prop) : Growth where
  rel out next := condition → ∃ added : ByteArray, added.IsValidUTF8 ∧ next = out ++ added
  refl out _ := ⟨.empty, ByteArray.isValidUTF8_empty, (ByteArray.append_empty).symm⟩
  trans := by
    intro out next last first second holds
    obtain ⟨added, valid, rfl⟩ := first holds
    obtain ⟨added', valid', rfl⟩ := second holds
    exact ⟨added ++ added', valid.append valid', ByteArray.append_assoc⟩
  words out words _ := ⟨words.toUTF8, words.isValidUTF8, rfl⟩
  shortened := by
    intro out next grown holds
    obtain ⟨added, -, rfl⟩ := grown holds
    refine ⟨.empty, ByteArray.isValidUTF8_empty, ?_⟩
    rw [ByteArray.extract_append_eq_left rfl, ByteArray.append_empty]

/-- Text is text without the ASCII letter that it begins with. -/
theorem isValidUTF8_extract_one {bytes : ByteArray} {byte : UInt8} (valid : bytes.IsValidUTF8)
    (first : bytes[0]? = some byte) (ascii : Ascii byte) :
    (bytes.extract 1 bytes.size).IsValidUTF8 := by
  obtain ⟨some, hbyte⟩ := getElem?_eq_some_iff.mp first
  have here : bytes.data.toList[0]? = Option.some byte := by
    rw [Array.getElem?_toList, Array.getElem?_eq_getElem some]
    exact congrArg Option.some hbyte
  exact Boundary.isValidUTF8_extract valid some (.succ_of_ascii here ascii) (.size bytes)

/-- A whole text of a valid symbol is valid. -/
theorem Text.Whole.isValidUTF8 {symbol : ByteArray} {t : Text}
    (whole : t.Whole symbol symbol.size) (valid : symbol.IsValidUTF8) :
    (t.resolve symbol).IsValidUTF8 := by
  cases t with
  | literal words => exact words.isValidUTF8
  | span start stop =>
    obtain ⟨le, first, last⟩ := whole
    exact Boundary.isValidUTF8_extract valid le first (last (.size symbol))

/-- What is known of a tree that was read to the end of its symbol. -/
def Terms.settled (symbol : ByteArray) : Terms symbol where
  text t := symbol.IsValidUTF8 → (t.resolve symbol).IsValidUTF8
  bits format t := t.Spelled symbol format ∧ (symbol.IsValidUTF8 → (t.resolve symbol).IsValidUTF8)
  target o := o.isSome
  fault := Fault.IsLimit
  withheld _ := False
  growth := .text symbol.IsValidUTF8
  words words _ := words.isValidUTF8
  text_of_bits h := h.2
  written out h valid := ⟨_, h valid, rfl⟩
  digits out h first valid := ⟨_, isValidUTF8_extract_one (h valid) first (show 110 < 128 by decide), rfl⟩
  waits h := by cases h
  float h failed := by
    have spelled := h.1
    rw [Text.Spelled, failed] at spelled
    cases spelled
  tooLong := .inr rfl
  tooMuchRecursion := .inl rfl

/-- The nodes of a settled tree fit the terms of valid text. -/
theorem Tree.Settled.fit {symbol : ByteArray} {tree : Tree} (settled : tree.Settled symbol)
    (id : NodeId) : (Terms.settled symbol).Fit (tree.node id) := by
  unfold Tree.node
  cases hid : tree.get? id with
  | none =>
    refine ⟨?_, nofun, nofun⟩
    intro t ht
    obtain rfl := List.mem_singleton.mp ht
    exact (Terms.settled symbol).words _
  | some node =>
    have whole := settled.whole id node hid
    refine ⟨fun t ht => (whole.texts t ht).isValidUTF8, ?_, ?_⟩
    · rintro format t rfl
      exact ⟨whole.bits format t rfl, (whole.texts t (.head _)).isValidUTF8⟩
    · rintro index target rfl
      exact settled.answered id index target hid

/-- Spelling fails at a limit or comes out as text. -/
theorem Tree.Settled.render {symbol : ByteArray} {tree : Tree} (settled : tree.Settled symbol)
    (limits : SpellingLimits) (root : NodeId) :
    (∃ out, Unmangle.render limits symbol tree root = .ok out ∧
      (symbol.IsValidUTF8 → out.IsValidUTF8)) ∨
    ∃ fault, Unmangle.render limits symbol tree root = .error fault ∧ fault.IsLimit := by
  have law := Terms.lawful settled.fit
  obtain ⟨out, hr, grown⟩ | failed := law.outcome_of_render rfl limits (rfl : root = root)
  · refine .inl ⟨out, hr, fun valid => ?_⟩
    obtain ⟨added, hadded, rfl⟩ := grown valid
    exact ByteArray.isValidUTF8_empty.append hadded
  · exact .inr failed

end Unmangle
