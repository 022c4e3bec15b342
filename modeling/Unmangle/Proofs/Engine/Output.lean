import Unmangle.Proofs.Engine.Text
import Unmangle.Proofs.Spelling.Gauge

/-!
# The limit for the output

A demangled form is given out under every limit that is not below its length, and not below what is
written on the way as any half is begun. Where more is written on the way than stays, as for the
elements of an empty pack, some limits that the form would fit in withhold it.
-/
namespace Unmangle.Engine

variable {options : Options} {name text : String}

/-- The most that is written as a half is begun, in the spelling of a name that is read. -/
def crest (options : Options) (name : String) : Nat :=
  match (Rule.parse options.maxRecursion options.maxRecursion .symbol).run
      (.start 0 name.toUTF8) with
  | .ok root state => Unmangle.crest options.maxRecursion name.toUTF8 state.work.tree root
  | .error _ _ => 0

/-- What a name was demangled to is spelled under other limits for the output too. -/
theorem answer_of_demangle {top : Nat}
    (unlimited : (Engine.demangle { options := { options with maxOutputLen := top } } name).1 =
      .ok text) (limit : Nat) :
    ∃ root state, (Rule.parse options.maxRecursion options.maxRecursion .symbol).run
        (.start 0 name.toUTF8) = .ok root state ∧
      render ⟨options.maxRecursion, top⟩ name.toUTF8 state.work.tree root = .ok text.toUTF8 ∧
      (Engine.demangle { options := { options with maxOutputLen := limit } } name).1 =
        spell { options with maxOutputLen := limit } name.toUTF8 state.work.tree root := by
  rw [demangle_eq_answer] at unlimited ⊢
  obtain ⟨⟨root, state, parsed, rendered⟩, -⟩ :=
    @renders_of_answer { options with maxOutputLen := top } 0 _ _ _ unlimited
  refine ⟨root, state, parsed, rendered, ?_⟩
  unfold answer at unlimited ⊢
  by_cases call : (name.isEmpty || ((some "").isSome && (some 0).isNone)) = true
  · rw [if_pos call] at unlimited
    cases unlimited
  · rw [if_neg call] at unlimited ⊢
    by_cases long : options.maxSymbolLen < name.utf8ByteSize
    · rw [if_pos long] at unlimited
      cases unlimited
    · rw [if_neg long]
      have parses := parseAndSpell_resting { options with maxOutputLen := limit } 0 name.toUTF8
      rw [show (Rule.parse options.maxRecursion options.maxRecursion .symbol).run
        (.start 0 name.toUTF8) = _ from parsed] at parses
      exact congrArg Prod.fst parses

/-- A name that is demangled under some limit for the output is demangled to the same under every
limit that neither its length nor its crest exceeds, and is too long under every other. So the limit
is exact for a name if and only if its crest does not exceed its length. -/
theorem demangle_eq_of_ok {top : Nat}
    (unlimited : (Engine.demangle { options := { options with maxOutputLen := top } } name).1 =
      .ok text) :
    (∀ limit, (Engine.demangle { options := { options with maxOutputLen := limit } } name).1 =
      if max (crest options name) text.utf8ByteSize ≤ limit then .ok text else .error .tooLong) ∧
    ((∀ limit, (Engine.demangle { options := { options with maxOutputLen := limit } } name).1 =
        if text.utf8ByteSize ≤ limit then .ok text else .error .tooLong) ↔
      crest options name ≤ text.utf8ByteSize) := by
  have all (limit : Nat) :
      (Engine.demangle { options := { options with maxOutputLen := limit } } name).1 =
        if max (crest options name) text.utf8ByteSize ≤ limit then .ok text else .error .tooLong := by
    obtain ⟨root, state, parsed, rendered, given⟩ := answer_of_demangle unlimited limit
    have known : crest options name =
        Unmangle.crest options.maxRecursion name.toUTF8 state.work.tree root := by
      rw [crest, parsed]
    have size : text.toUTF8.size = text.utf8ByteSize := String.size_toByteArray
    rw [given, spell, render_eq_of_ok rendered, known]
    by_cases high : Unmangle.crest options.maxRecursion name.toUTF8 state.work.tree root ≤ limit
    · by_cases long : limit < text.utf8ByteSize
      · rw [if_pos high, if_neg (by omega)]
        simp only [bind, Except.bind, size, if_pos long, throw, throwThe, MonadExceptOf.throw]
      · rw [if_pos high, if_pos (by omega)]
        simp only [bind, Except.bind, size, if_neg long, Utf8.text_toUTF8]
        rfl
    · rw [if_neg high, if_neg (by omega)]
      rfl
  refine ⟨all, fun exact => ?_, fun low limit => ?_⟩
  · have fits := (exact text.utf8ByteSize).symm.trans (all text.utf8ByteSize)
    rw [if_pos (Nat.le_refl _)] at fits
    by_cases high : max (crest options name) text.utf8ByteSize ≤ text.utf8ByteSize
    · omega
    · rw [if_neg high] at fits
      cases fits
  · rw [all, Nat.max_eq_right low]

/-- An element that is taken back with its comma makes fourteen bytes of a form of thirteen, and
fourteen are enough for it. -/
theorem demangle_empty_pack_at_crest :
    (Engine.demangle { options := { maxOutputLen := 14 } } "_Z1fIJEEviDpT_").1 =
      .ok "void f<>(int)" := by
  have known : (Engine.demangle {} "_Z1fIJEEviDpT_").1 = .ok "void f<>(int)" ∧
      crest {} "_Z1fIJEEviDpT_" = 14 := by decide +kernel
  have all := (@demangle_eq_of_ok {} _ _ (1024 * 1024) known.1).1 14
  rw [known.2] at all
  exact all

/-- Thirteen bytes are withheld under a limit of thirteen. -/
theorem demangle_empty_pack_withheld :
    (Engine.demangle {} "_Z1fIJEEviDpT_").1 = .ok "void f<>(int)" ∧
      "void f<>(int)".utf8ByteSize ≤ 13 ∧
      (Engine.demangle { options := { maxOutputLen := 13 } } "_Z1fIJEEviDpT_").1 =
        .error .tooLong := by
  decide +kernel

end Unmangle.Engine
