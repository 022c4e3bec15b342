import Unmangle.Proofs.Progress.Grammar

/-!
# How far a parse goes

Every rule moves the cursor on over bytes that are there. So a repetition of the grammar would end
without a bound on its rounds, with at most one round more than there are bytes left, and a limit
in proportion to the symbol is never reached.
-/
namespace Unmangle

namespace Parse

/-- Every rule goes on, however few levels there are. -/
theorem ranked_parse (limit levels : Nat) {budget : Budget} (below : budget.spare ≤ limit - budget.level)
    (enough : budget.spare ≤ levels) : Ranked budget (Rule.parse limit levels) := by
  induction levels generalizing budget with
  | zero =>
    intro rule s _
    constructor
    · rintro a t ⟨⟩
    · exact fun t _ => Nat.le_trans enough (Nat.zero_le _)
  | succ levels ih =>
    intro rule s level
    have calls : Ranked ⟨budget.level + 1, budget.spare - 1⟩ (Rule.parse limit levels) :=
      ih (by dsimp only; omega) (by dsimp only; omega)
    have inside : GoesFrom budget (rule.need s.cursor) true
        (deeper limit (rule.body (Rule.parse limit levels))) s := by
      rw [← Nat.sub_one_add_one (Nat.ne_of_gt (rule.need_pos s.cursor))]
      refine .deeper level below ?_
      exact @Goes.body _ _ { s with level := s.level + 1 } calls rule (congrArg (· + 1) level)
    exact ⟨inside.onward, inside.spent⟩

theorem ranked_any (limit levels level : Nat) : Ranked ⟨level, 0⟩ (Rule.parse limit levels) :=
  ranked_parse limit levels (Nat.zero_le _) (Nat.zero_le _)

/-! ## Repetitions -/

section Rounds

variable {β : Type}

/-- What comes of a loop without a bound, and how often its body runs. The loop is at its test, or
behind the test at its body. -/
inductive Rounds (close : Parse Bool) (item : β → Parse β) :
    Bool → β → ParseState → Nat → EStateM.Result Fault ParseState β → Prop
  | closed {acc s t} : close.run s = .ok true t → Rounds close item false acc s 0 (.ok acc t)
  | unknown {acc s fault t} : close.run s = .error fault t →
      Rounds close item false acc s 0 (.error fault t)
  | opened {acc s t n result} : close.run s = .ok false t → Rounds close item true acc t n result →
      Rounds close item false acc s n result
  | failed {acc s fault t} : (item acc).run s = .error fault t →
      Rounds close item true acc s 1 (.error fault t)
  | again {acc acc' s t n result} : (item acc).run s = .ok acc' t →
      Rounds close item false acc' t n result → Rounds close item true acc s (n + 1) result

variable {close : Parse Bool} {item : β → Parse β} {s : ParseState}
  (tests : ∀ level, Goes ⟨level, 0⟩ 6 false close)
  (goes : ∀ acc level, Goes ⟨level, 0⟩ 6 true (item acc))
include tests goes

/-- Each round reads a byte, so the rounds do not run out before the loop ends. -/
theorem rounds_repeatUntil (rounds : List UInt8) (acc : β) (enough : s.cursor.rest.length < rounds.length) :
    ∃ n ≤ s.cursor.rest.length + 1,
      Rounds close item false acc s n ((repeatUntil close item rounds acc).run s) := by
  induction rounds generalizing s acc with
  | nil => cases enough
  | cons _ rounds ih =>
    rw [repeatUntil]
    cases test : close.run s with
    | error fault t =>
      rw [run_bind_error _ test]
      exact ⟨0, Nat.zero_le _, .unknown test⟩
    | ok ended t =>
      have tested := ((tests _ s rfl).onward ended t test).length_le
      rw [run_bind_ok _ test]
      cases ended with
      | true => exact ⟨0, Nat.zero_le _, .closed test⟩
      | false =>
        show ∃ n ≤ _, Rounds close item false acc s n
          ((item acc >>= repeatUntil close item rounds).run t)
        cases round : (item acc).run t with
        | error fault u =>
          rw [run_bind_error _ round]
          exact ⟨1, Nat.le_add_left _ _, .opened test (.failed round)⟩
        | ok acc' u =>
          have read := ((goes acc _ t rfl).onward acc' u round).length_le
          rw [Bool.toNat_false] at tested
          rw [Bool.toNat_true] at read
          rw [List.length_cons] at enough
          obtain ⟨n, few, rest⟩ := ih acc' (s := u) (by omega)
          rw [run_bind_ok _ round]
          exact ⟨n + 1, by omega, .opened test (.again round rest)⟩

theorem rounds_untilHolds (start : β) :
    ∃ n ≤ s.cursor.rest.length + 1,
      Rounds close item false start s n ((untilHolds close start item).run s) :=
  rounds_repeatUntil tests goes (0 :: s.cursor.rest) start (Nat.lt_succ_self _)

end Rounds

/-- The repetitions of the grammar. Each starts at its test or at its body, and has a test, something
to start from, and a body. -/
inductive Repetition (call : Calls) : {β : Type} → Parse β → Bool → Parse Bool → β → (β → Parse β) → Prop
  | abiTags (name : NodeId) :
      Repetition call (abiTags name) false (do return !(← lookingAt "B")) name fun base => do
        expect "B"
        make (.abiTagged base (← identifier))
  /-- The components of a nested name. -/
  | nestedParts (tracked : Bool) (start : Option NodeId) :
      Repetition call (untilHolds (accept "E") start (nestedPart call tracked)) false (accept "E") start
        (nestedPart call tracked)
  | functionParams :
      Repetition call (functionParams call) false atParamsEnd #[] fun params => do
        if ← accept "v" then return params
        return params.push (← call .type)
  | simpleIds (scope : NodeId) :
      Repetition call (simpleIds call scope) false (accept "E") scope fun scope => do
        make (.qualifiedName scope (← simpleId call))
  /-- Types, expressions, template arguments or initializers up to a letter. -/
  | nodes (token : String) (rule : Rule) :
      Repetition call (nodesUntil token (call rule)) false (accept token) #[] fun nodes =>
        return nodes.push (← call rule)
  /-- The template arguments of the name that is read. -/
  | scopedArgs :
      Repetition call (nodesUntil "E" (scopedArg call)) false (accept "E") #[] fun nodes =>
        return nodes.push (← scopedArg call)
  /-- The parameters of a lambda. -/
  | lambdaParams :
      Repetition call (someNodes (accept "E") (call .type)) true (accept "E") #[] fun nodes =>
        return nodes.push (← call .type)
  /-- The parameters of an encoding. -/
  | encodingParams :
      Repetition call (someNodes atEncodingEnd (call .type)) true atEncodingEnd #[] fun nodes =>
        return nodes.push (← call .type)
  /-- The names of a structured binding. -/
  | bindings :
      Repetition call (someNodes (accept "E") sourceName) true (accept "E") #[] fun nodes =>
        return nodes.push (← sourceName)

/-- A loop that starts at its body is not tested before the first round. -/
theorem rounds_someNodes {close : Parse Bool} {item : Parse NodeId} {s : ParseState}
    (tests : ∀ level, Goes ⟨level, 0⟩ 6 false close) (goes : ∀ level, Goes ⟨level, 0⟩ 6 true item) :
    ∃ n ≤ s.cursor.rest.length + 1, Rounds close (fun nodes : Array NodeId => return nodes.push (← item))
      true #[] s n ((someNodes close item).run s) := by
  have pushes (nodes : Array NodeId) (level : Nat) :
      Goes ⟨level, 0⟩ 6 true (do return nodes.push (← item)) :=
    (goes level).andThen fun _ => .pure _
  rw [someNodes]
  cases first : item.run s with
  | error fault t =>
    rw [run_bind_error _ first]
    exact ⟨1, Nat.le_add_left _ _, .failed (run_bind_error _ first)⟩
  | ok id t =>
    have read := ((goes _ s rfl).onward id t first).length_le
    obtain ⟨n, few, rest⟩ := rounds_untilHolds (s := t) tests pushes #[id]
    rw [run_bind_ok _ first]
    rw [Bool.toNat_true] at read
    exact ⟨n + 1, by omega, .again (run_bind_ok _ first) rest⟩

/-- A repetition has at most as many rounds as there are bytes left, and the one that ends it. -/
theorem Repetition.rounds {call : Calls} (calls : ∀ level, Ranked ⟨level, 0⟩ call) {β : Type}
    {p : Parse β} {tested : Bool} {close : Parse Bool} {start : β} {item : β → Parse β}
    (repetition : Repetition call p tested close start item) (s : ParseState) :
    ∃ n ≤ s.cursor.rest.length + 1, Rounds close item tested start s n (p.run s) := by
  cases repetition with
  | abiTags name => exact rounds_untilHolds (fun _ => .untagged) (fun base _ => .abiTag base) name
  | nestedParts tracked =>
    exact rounds_untilHolds (fun _ => .accept _) (fun _ level => .nestedPart (calls level) tracked _) _
  | functionParams =>
    exact rounds_untilHolds (fun _ => .atParamsEnd) (fun _ level => .param (calls level) _) #[]
  | simpleIds scope =>
    exact rounds_untilHolds (fun _ => .accept _) (fun _ level => .innerScope (calls level) _) scope
  | nodes token rule =>
    exact rounds_untilHolds (fun _ => .accept _)
      (fun _ level => ((calls level).later rule).andThen fun _ => .pure _) #[]
  | scopedArgs =>
    exact rounds_untilHolds (fun _ => .accept _)
      (fun _ level => (Goes.scopedArg (calls level)).andThen fun _ => .pure _) #[]
  | lambdaParams => exact rounds_someNodes (fun _ => .accept _) fun level => (calls level).later _
  | encodingParams => exact rounds_someNodes (fun _ => .atEncodingEnd) fun level => (calls level).later _
  | bindings => exact rounds_someNodes (fun _ => .accept _) fun _ => .sourceName

/-- Six levels for each byte and six more are enough. -/
theorem parseSymbol_ne_tooMuchRecursion {limit level : Nat} {symbol : ByteArray}
    (room : level + 6 * (symbol.size + 1) < limit) (work : Workspace) (t : ParseState) :
    parseSymbol limit level work symbol ≠ .error .tooMuchRecursion t := by
  intro run
  have ranked : Ranked ⟨level, limit - level⟩ (Rule.parse limit limit) :=
    ranked_parse limit limit (Nat.le_refl _) (Nat.sub_le _ _)
  have goes : Goes ⟨level, limit - level⟩ 6 true (Rule.parse limit limit .symbol) :=
    ranked.later .symbol
  have spent : limit - level ≤ 6 * symbol.data.toList.length + 6 := (goes _ rfl).spent t run
  have size : symbol.data.toList.length = symbol.size := Array.length_toList
  omega

end Parse

open Parse

/-- Every rule that is read moves the cursor on, over bytes that are there. Every repetition is what it
would be without a bound on its rounds, and has at most one round more than there are bytes left. A
limit of more than eight levels for each byte, and eight more, is never reached. -/
theorem parse_goes_on (limit levels : Nat) :
    (∀ rule s id t, (Rule.parse limit levels rule).run s = .ok id t → s.Onward true t) ∧
    (∀ s id t, templateParam.run s = .ok id t → s.Onward true t) ∧
    (∀ {β : Type} {p : Parse β} {tested : Bool} {close : Parse Bool} {start : β} {item : β → Parse β},
      Repetition (Rule.parse limit levels) p tested close start item →
        ∀ s, ∃ n ≤ s.cursor.rest.length + 1, Rounds close item tested start s n (p.run s)) ∧
    (∀ cursor property, (Cursor.spanWhile cursor property).1.length ≤ cursor.rest.length) ∧
    ∀ level work symbol t, level + 8 * (symbol.size + 1) < limit →
      parseSymbol limit level work symbol ≠ .error .tooMuchRecursion t := by
  have calls := ranked_any limit levels
  refine ⟨fun rule s id t run => ?_, fun s id t run => ?_, fun repetition => repetition.rounds calls,
    fun cursor property => (cursor.spanWhile_eq property).1, fun level work symbol t room => ?_⟩
  · exact (calls s.level rule s rfl).onward id t run
  · exact (@Goes.templateParam ⟨s.level, 0⟩ 0 true s rfl).onward id t run
  · exact parseSymbol_ne_tooMuchRecursion (by omega) work t

/-- A pointer in a pointer is read within levels in proportion to the symbol, and under a limit that
is less than that it need not be read. -/
theorem parse_goes_on_pointers :
    let start : ParseState := { cursor := ⟨0, [80, 80, 105]⟩ }
    (∃ id t, (Rule.parse 33 33 .type).run start = .ok id t ∧ start.Onward true t) ∧
      (∀ work t, parseSymbol 33 0 work ⟨#[80, 80, 105]⟩ ≠ .error .tooMuchRecursion t) ∧
      ∃ t, parseSymbol 4 0 {} ⟨#[80, 80, 105]⟩ = .error .tooMuchRecursion t := by
  intro start
  obtain ⟨rules, -, -, -, never⟩ := parse_goes_on 33 33
  have read : ∃ id t, (Rule.parse 33 33 .type).run start = .ok id t := ⟨_, _, rfl⟩
  obtain ⟨id, t, read⟩ := read
  exact ⟨⟨id, t, read, rules _ _ _ _ read⟩, fun work t => never 0 work _ t (by decide), _, rfl⟩

end Unmangle
