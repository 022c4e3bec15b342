import Unmangle.Proofs.Engine.Withheld
import Unmangle.Proofs.Spelling.Settled

/-!
# Demangled forms are text

A name is text, and a parse of it that succeeds cuts it between characters only. What is
rendered is text then, and is handed out byte by byte within the limit for its length.
-/
namespace Unmangle

theorem Utf8.text_toUTF8 (words : String) : Utf8.text words.toUTF8 = words := by
  unfold Utf8.text String.fromUTF8?
  rw [String.toUTF8_eq_toByteArray, dif_pos words.isValidUTF8]
  rfl

/-- Bytes that are text are read as they are. -/
theorem Utf8.toUTF8_text {bytes : ByteArray} (valid : bytes.IsValidUTF8) :
    (Utf8.text bytes).toUTF8 = bytes := by
  unfold Utf8.text String.fromUTF8?
  rw [dif_pos valid]
  rfl

namespace Engine

variable {options : Options} {generation : UInt32} {name : String} {out : ByteArray}

/-- The name is read, in an engine at rest, and rendered as these bytes. -/
def Renders (options : Options) (generation : UInt32) (name : String) (out : ByteArray) : Prop :=
  ∃ root state,
    (Rule.parse options.maxRecursion options.maxRecursion .symbol).run
      (.start generation name.toUTF8) = .ok root state ∧
    render ⟨options.maxRecursion, options.maxOutputLen⟩ name.toUTF8 state.work.tree root = .ok out

instance : Decidable (Renders options generation name out) :=
  match parsed : (Rule.parse options.maxRecursion options.maxRecursion .symbol).run
      (.start generation name.toUTF8) with
  | .ok root state =>
    match rendered : render ⟨options.maxRecursion, options.maxOutputLen⟩ name.toUTF8
        state.work.tree root with
    | .ok out' =>
      match ByteArray.instDecidableEq out' out with
      | isTrue same => isTrue ⟨root, state, parsed, same ▸ rendered⟩
      | isFalse other =>
        isFalse fun ⟨_, _, parsed', rendered'⟩ => by
          cases parsed.symm.trans parsed'
          cases rendered.symm.trans rendered'
          exact other rfl
    | .error _ =>
      isFalse fun ⟨_, _, parsed', rendered'⟩ => by
        cases parsed.symm.trans parsed'
        cases rendered.symm.trans rendered'
  | .error _ _ => isFalse fun ⟨_, _, parsed', _⟩ => nomatch parsed.symm.trans parsed'

/-- A name renders as one text only. -/
theorem Renders.unique {out' : ByteArray} (h : Renders options generation name out)
    (h' : Renders options generation name out') : out = out' := by
  obtain ⟨root, state, parsed, rendered⟩ := h
  obtain ⟨root', state', parsed', rendered'⟩ := h'
  rw [parsed] at parsed'
  cases parsed'
  rw [rendered] at rendered'
  cases rendered'
  rfl

/-- Every rendering is UTF-8. -/
theorem Renders.isValidUTF8 (h : Renders options generation name out) : out.IsValidUTF8 := by
  obtain ⟨root, state, parsed, rendered⟩ := h
  obtain ⟨settled, -⟩ := settled_of_parse parsed
  obtain ⟨out', hr, text⟩ | ⟨fault, hr, -⟩ :=
    settled.render ⟨options.maxRecursion, options.maxOutputLen⟩ root
  · rw [hr] at rendered
    cases rendered
    exact text name.isValidUTF8
  · rw [hr] at rendered
    cases rendered

/-- What a name is answered with was rendered, and is within the limit. -/
theorem renders_of_answer {slots : Slots} {text : String}
    (answered : ((resting options generation).answer name slots).1 = .ok text) :
    Renders options generation name text.toUTF8 ∧ text.utf8ByteSize ≤ options.maxOutputLen := by
  unfold answer at answered
  split at answered
  · cases answered
  split at answered
  · cases answered
  rw [parseAndSpell_resting] at answered
  cases parsed : (Rule.parse options.maxRecursion options.maxRecursion .symbol).run
      (.start generation name.toUTF8) with
  | error fault state =>
    rw [parsed] at answered
    cases answered
  | ok root state =>
    rw [parsed] at answered
    change spell options name.toUTF8 state.work.tree root = .ok text at answered
    unfold spell at answered
    cases rendered : render ⟨options.maxRecursion, options.maxOutputLen⟩ name.toUTF8
        state.work.tree root with
    | error fault =>
      rw [rendered] at answered
      cases answered
    | ok out =>
      have renders : Renders options generation name out := ⟨root, state, parsed, rendered⟩
      rw [rendered] at answered
      by_cases long : options.maxOutputLen < out.size
      · simp only [bind, Except.bind, if_pos long, throw, throwThe, MonadExceptOf.throw] at answered
        cases answered
      · simp only [bind, Except.bind, if_neg long] at answered
        cases answered
        have same := Utf8.toUTF8_text renders.isValidUTF8
        refine ⟨by rwa [same], ?_⟩
        rw [← String.size_toByteArray, ← String.toUTF8_eq_toByteArray, same]
        exact Nat.le_of_not_lt long

/-- A rendering within the limit is handed out. -/
theorem demangle_of_renders (named : name ≠ "") (fits : name.utf8ByteSize ≤ options.maxSymbolLen)
    (renders : Renders options generation name out) (short : out.size ≤ options.maxOutputLen) :
    ((resting options generation).demangle name).1 = .ok (Utf8.text out) := by
  obtain ⟨root, state, parsed, rendered⟩ := renders
  have within : ¬(resting options generation).options.maxSymbolLen < name.utf8ByteSize :=
    Nat.not_lt.mpr fits
  rw [demangle_eq_answer, answer, if_neg (by simpa using named), if_neg within,
    parseAndSpell_resting, parsed]
  simp only [spell, rendered, bind, Except.bind, if_neg (Nat.not_lt.mpr short)]
  rfl

/-- What is rendered is text, so the lossy reading of bytes is never needed. The text handed
out has exactly the bytes rendered, its length is what goes into the slot, and it is within
the limit. Nothing but a limit keeps what is rendered from being handed out. -/
theorem demangle_eq_rendered (options : Options) (generation : UInt32) (name : String) :
    (∀ out, Renders options generation name out →
      out.IsValidUTF8 ∧ (Utf8.text out).toUTF8 = out) ∧
      (∀ text, ((resting options generation).demangle name).1 = .ok text →
        (∀ out, Renders options generation name out ↔ out = text.toUTF8) ∧
          text.utf8ByteSize ≤ options.maxOutputLen) ∧
      (∀ slots slots' after,
        (resting options generation).demangleTo name slots = (.ok (), slots', after) →
          ∃ text : String, (∀ out, Renders options generation name out ↔ out = text.toUTF8) ∧
            text.utf8ByteSize ≤ options.maxOutputLen ∧
            slots' = ⟨slots.buffer.map fun _ => text,
              slots.length.map fun _ => text.utf8ByteSize⟩) ∧
      ∀ out, name ≠ "" → name.utf8ByteSize ≤ options.maxSymbolLen →
        Renders options generation name out → out.size ≤ options.maxOutputLen →
          ((resting options generation).demangle name).1 = .ok (Utf8.text out) := by
  have exact_iff {text : String} (renders : Renders options generation name text.toUTF8)
      (out : ByteArray) : Renders options generation name out ↔ out = text.toUTF8 := by
    constructor
    · intro h
      exact h.unique renders
    · rintro rfl
      exact renders
  refine ⟨?_, ?_, ?_, ?_⟩
  · intro out renders
    have valid := renders.isValidUTF8
    exact ⟨valid, Utf8.toUTF8_text valid⟩
  · intro text given
    rw [demangle_eq_answer] at given
    obtain ⟨renders, short⟩ := renders_of_answer given
    exact ⟨exact_iff renders, short⟩
  · intro slots slots' after given
    unfold demangleTo at given
    cases answered : (resting options generation).answer name slots with
    | mk outcome engine =>
      rw [answered] at given
      cases outcome with
      | error fault => cases given
      | ok text =>
        cases given
        obtain ⟨renders, short⟩ := renders_of_answer (congrArg Prod.fst answered)
        exact ⟨text, exact_iff renders, short, rfl⟩
  · intro out named fits renders short
    exact demangle_of_renders named fits renders short

theorem demangle_accented : ((resting {} 0).demangle "_Z2év").1 = .ok "é()" := by
  have renders : Renders {} 0 "_Z2év" "é()".toUTF8 := by decide +kernel
  obtain ⟨-, -, -, handed⟩ := demangle_eq_rendered {} 0 "_Z2év"
  rw [handed _ (by decide) (by decide) renders (by decide), Utf8.text_toUTF8]

/-- A length that ends inside a character leaves a byte behind that no rule reads. -/
example : (Engine.demangle {} "_Z2év").1.toOption = some "é()" ∧
    (Engine.demangle {} "_Z1év").1.toOption = none := by decide +kernel

end Engine
end Unmangle
