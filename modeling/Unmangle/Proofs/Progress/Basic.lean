import Unmangle.Proofs.Course.Type

/-!
# How a parse goes on

A production that reads nothing before it calls another spends a level for nothing. No chain of such
calls is longer than six, so six levels for each byte that is left are enough, and a few more for the
chain that has been begun. What a step asks for is the number of these.
-/
namespace Unmangle

/-- The level of a production, and how many levels it can spend. -/
structure Budget where
  level : Nat
  spare : Nat

namespace ParseState

/-- The parse has gone on from a state to another, over at least one byte if it is one that reads,
and is not past the end. -/
structure Onward (reads : Bool) (s t : ParseState) : Prop where
  level : t.level = s.level
  moved : ∃ count, (reads = true → 0 < count) ∧ count ≤ s.cursor.rest.length ∧
    t.cursor = s.cursor.skip count

variable {s t u : ParseState} {reads reads' : Bool}

theorem Onward.still (level : t.level = s.level) (cursor : t.cursor = s.cursor) :
    Onward false s t :=
  ⟨level, 0, nofun, Nat.zero_le _, cursor⟩

/-- Two ways onward make one. -/
theorem Onward.trans (first : Onward reads s t) (next : Onward reads' t u) :
    Onward (reads || reads') s u := by
  obtain ⟨level, count, pos, fits, cursor⟩ := first
  obtain ⟨level', count', pos', fits', cursor'⟩ := next
  refine ⟨level'.trans level, count + count', fun either => ?_, ?_, ?_⟩
  · cases reads with
    | true => exact Nat.add_pos_left (pos rfl) _
    | false => exact Nat.add_pos_right _ (pos' either)
  · rw [cursor, Cursor.skip, List.length_drop] at fits'
    omega
  · rw [cursor', cursor, Cursor.skip_skip]

/-- Fewer bytes are left behind a step that reads. -/
theorem Onward.length_le (h : Onward reads s t) :
    t.cursor.rest.length + reads.toNat ≤ s.cursor.rest.length := by
  obtain ⟨-, count, pos, fits, cursor⟩ := h
  rw [cursor, Cursor.skip, List.length_drop]
  cases reads with
  | true =>
    have := pos rfl
    rw [Bool.toNat_true]
    omega
  | false =>
    rw [Bool.toNat_false]
    omega

end ParseState

namespace Parse

open ParseState

variable {α β : Type} {budget : Budget} {need need' : Nat} {reads reads' : Bool}
  {s t : ParseState} {p : Parse α} {f : α → Parse β}

/-- From a state the step goes on within the symbol, and runs out of levels only if there are not
six for every byte that is left and some more. -/
structure GoesFrom (budget : Budget) (need : Nat) (reads : Bool) (p : Parse α) (s : ParseState) :
    Prop where
  onward : ∀ a t, p.run s = .ok a t → s.Onward reads t
  spent : ∀ t, p.run s = .error .tooMuchRecursion t →
    budget.spare ≤ 6 * s.cursor.rest.length + need

def Goes (budget : Budget) (need : Nat) (reads : Bool) (p : Parse α) : Prop :=
  ∀ s, s.level = budget.level → GoesFrom budget need reads p s

namespace GoesFrom

theorem weaken (h : GoesFrom budget need reads p s) (more : need ≤ need')
    (less : reads' = true → reads = true) : GoesFrom budget need' reads' p s := by
  refine ⟨fun a t run => ?_, fun t run => Nat.le_trans (h.spent t run) (Nat.add_le_add_left more _)⟩
  obtain ⟨level, count, pos, moved⟩ := h.onward a t run
  exact ⟨level, count, fun asked => pos (less asked), moved⟩

/-- A step that fails for any other reason needs no more levels. -/
theorem fails {fault : Fault} (run : p.run s = .error fault t) (other : fault ≠ .tooMuchRecursion) :
    GoesFrom budget need reads p s := by
  constructor
  · rintro a t run'
    rw [run] at run'
    cases run'
  · rintro t run'
    rw [run] at run'
    cases run'
    exact absurd rfl other

/-- A step whose outcome is known. -/
theorem known {a : α} (run : p.run s = .ok a t) (onward : s.Onward reads t) :
    GoesFrom budget need reads p s := by
  constructor
  · intro a' t' run'
    rw [run] at run'
    cases run'
    exact onward
  · intro t' run'
    rw [run] at run'
    cases run'

/-- Behind a step that reads there is a byte less, and another chain of calls may begin. -/
theorem bind (first : GoesFrom budget need reads p s)
    (next : ∀ a t, p.run s = .ok a t → s.Onward reads t →
      GoesFrom budget (need + 6 * reads.toNat) reads' (f a) t) :
    GoesFrom budget need (reads || reads') (p >>= f) s := by
  cases run : p.run s with
  | ok a t =>
    have onward := first.onward a t run
    have behind := next a t run onward
    constructor
    · intro b u run'
      rw [run_bind_ok f run] at run'
      exact onward.trans (behind.onward b u run')
    · intro u run'
      rw [run_bind_ok f run] at run'
      have := behind.spent u run'
      have := onward.length_le
      omega
  | error fault t =>
    constructor
    · intro b u run'
      rw [run_bind_error f run] at run'
      cases run'
    · intro u run'
      rw [run_bind_error f run] at run'
      cases run'
      exact first.spent t run

theorem andThen (first : GoesFrom budget need true p s) (next : ∀ a, Goes budget 6 false (f a))
    (level : s.level = budget.level) : GoesFrom budget need reads (p >>= f) s := by
  have both : GoesFrom budget need (true || false) (p >>= f) s := bind first fun a t _ onward =>
    (next a t (onward.level.trans level)).weaken (Nat.le_add_left _ _) id
  exact both.weaken (Nat.le_refl _) fun _ => rfl

/-- What follows a step that reads and whose outcome is known. -/
theorem after {a : α} (run : p.run s = .ok a t) (onward : s.Onward true t)
    (level : s.level = budget.level) (next : Goes budget 6 false (f a)) :
    GoesFrom budget need reads (p >>= f) s := by
  have first : GoesFrom budget need true p s := known run onward
  have both : GoesFrom budget need (true || false) (p >>= f) s := by
    apply bind first
    intro a' t' run' _
    cases run.symm.trans run'
    exact (next t (onward.level.trans level)).weaken (Nat.le_add_left _ _) id
  exact both.weaken (Nat.le_refl _) fun _ => rfl

/-- A step that only looks at the state. -/
theorem look {a : α} (run : p.run s = .ok a s) (next : GoesFrom budget need reads (f a) s) :
    GoesFrom budget need reads (p >>= f) s := by
  constructor
  · intro b u run'
    rw [run_bind_ok f run] at run'
    exact next.onward b u run'
  · intro u run'
    rw [run_bind_ok f run] at run'
    exact next.spent u run'

/-- A step of two parts may be taken as one. -/
theorem assoc {γ : Type} {g : β → Parse γ}
    (h : GoesFrom budget need reads (p >>= fun a => f a >>= g) s) :
    GoesFrom budget need reads ((p >>= f) >>= g) s := by
  constructor
  · intro c t run
    rw [run_bind_assoc f g] at run
    exact h.onward c t run
  · intro t run
    rw [run_bind_assoc f g] at run
    exact h.spent t run

/-- A step one level deeper has one level less to spend. -/
theorem deeper {limit : Nat} (level : s.level = budget.level)
    (below : budget.spare ≤ limit - budget.level)
    (inside : GoesFrom ⟨budget.level + 1, budget.spare - 1⟩ need reads p
      { s with level := s.level + 1 }) :
    GoesFrom budget (need + 1) reads (p.deeper limit) s := by
  by_cases room : s.level + 1 < limit
  · constructor
    · intro a t run
      rw [run_deeper_of_lt room] at run
      simp only [Parse.thenAlways] at run
      split at run
      · cases run
        obtain ⟨same, count, pos, fits, moved⟩ := inside.onward _ _ ‹_›
        exact ⟨Nat.sub_eq_of_eq_add same, count, pos, fits, moved⟩
      · cases run
    · intro t run
      rw [run_deeper_of_lt room] at run
      simp only [Parse.thenAlways] at run
      split at run
      · cases run
      · cases run
        have : budget.spare - 1 ≤ 6 * s.cursor.rest.length + need := inside.spent _ ‹_›
        omega
  · rw [Nat.not_lt] at room
    constructor
    · intro a t run
      rw [run_deeper_of_le room] at run
      cases run
    · intro t _
      omega

end GoesFrom

namespace Goes

theorem weaken (h : Goes budget need reads p) (more : need ≤ need')
    (less : reads' = true → reads = true) : Goes budget need' reads' p :=
  fun s level => (h s level).weaken more less

/-- A step that reads also just goes on. -/
theorem any (h : Goes budget need true p) : Goes budget need reads p :=
  h.weaken (Nat.le_refl _) fun _ => rfl

theorem bind (first : Goes budget need false p) (next : ∀ a, Goes budget need reads (f a)) :
    Goes budget need reads (p >>= f) := by
  intro s level
  apply (first s level).bind
  intro a t _ onward
  exact (next a t (onward.level.trans level)).weaken (Nat.le_add_right _ _) id

/-- What the first step comes to is not needed behind it. -/
theorem seq {q : Parse β} (first : Goes budget need false p) (next : Goes budget need reads q) :
    Goes budget need reads (do let _ ← p; q) :=
  first.bind fun _ => next

theorem andThen (first : Goes budget need true p) (next : ∀ a, Goes budget 6 false (f a)) :
    Goes budget need reads (p >>= f) :=
  fun s level => (first s level).andThen next level

theorem pure (a : α) : Goes budget need false (Pure.pure a : Parse α) :=
  fun _ _ => .known rfl (.still rfl rfl)

theorem throw {fault : Fault} (other : fault ≠ .tooMuchRecursion) :
    Goes budget need reads (Parse.throw fault : Parse α) :=
  fun _ _ => .fails rfl other

theorem get : Goes budget need false (MonadState.get : Parse ParseState) :=
  fun _ _ => .known rfl (.still rfl rfl)

theorem modified {change : ParseState → ParseState} (level : ∀ s, (change s).level = s.level)
    (cursor : ∀ s, (change s).cursor = s.cursor) :
    Goes budget need false (modify change : Parse Unit) :=
  fun s _ => .known rfl (.still (level s) (cursor s))

/-- A step that stores something and moves nothing. -/
theorem stores {run : ParseState → EStateM.Result Fault ParseState α}
    (still : ∀ s, ∃ a t, run s = .ok a t ∧ t.level = s.level ∧ t.cursor = s.cursor) :
    Goes budget need false (step run) := by
  intro s _
  obtain ⟨a, t, run, level, cursor⟩ := still s
  exact .known run (.still level cursor)

theorem map (g : α → β) (h : Goes budget need reads p) : Goes budget need reads (g <$> p) := by
  refine fun s level => ?_
  have mapped : GoesFrom budget need (reads || false) (g <$> p) s :=
    (h s level).bind fun _ _ _ _ => .known rfl (.still rfl rfl)
  rwa [Bool.or_false] at mapped

theorem ite {c : Prop} [Decidable c] {p q : Parse α} (yes : Goes budget need reads p)
    (no : Goes budget need reads q) : Goes budget need reads (if c then p else q) := by
  split
  · exact yes
  · exact no

theorem ensure {held : Bool} {otherwise : Parse Unit} (h : Goes budget need false otherwise) :
    Goes budget need false (Parse.ensure held otherwise) :=
  ite (pure ()) h

theorem orFault {value : Option α} {fault : Fault} (other : fault ≠ .tooMuchRecursion) :
    Goes budget need false (Parse.orFault value fault) := by
  cases value with
  | none => exact throw other
  | some a => exact pure a

/-- A change that leaves the level and the cursor alone may come behind any step. -/
theorem thenAlways {change : ParseState → ParseState} (h : Goes budget need reads p)
    (level : ∀ s, (change s).level = s.level) (cursor : ∀ s, (change s).cursor = s.cursor) :
    Goes budget need reads (p.thenAlways change) := by
  intro s here
  have first := h s here
  cases run : p.run s with
  | ok a t =>
    obtain ⟨same, count, pos, fits, moved⟩ := first.onward a t run
    have changed : (p.thenAlways change).run s = .ok a (change t) := by
      simp only [Parse.thenAlways, run]
    exact .known changed ⟨(level t).trans same, count, pos, fits, (cursor t).trans moved⟩
  | error fault t =>
    constructor
    · intro a u run'
      simp only [Parse.thenAlways, run] at run'
      cases run'
    · intro u run'
      simp only [Parse.thenAlways, run] at run'
      cases run'
      exact first.spent t run

/-- A repetition goes on as long as each round reads something. -/
theorem repeatUntil {close : Parse Bool} {item : α → Parse α} (tests : Goes budget need false close)
    (goes : ∀ a, Goes budget need true (item a)) (rounds : List UInt8) (a : α) :
    Goes budget need false (Parse.repeatUntil close item rounds a) := by
  induction rounds generalizing a with
  | nil => exact throw nofun
  | cons _ rounds ih =>
    apply tests.bind
    intro closed
    exact ite (pure a) ((goes a).any.bind ih)

theorem untilHolds {close : Parse Bool} {item : α → Parse α} (tests : Goes budget need false close)
    (goes : ∀ a, Goes budget need true (item a)) (start : α) :
    Goes budget need false (Parse.untilHolds close start item) := by
  apply get.bind
  intro s
  exact repeatUntil tests goes _ start

theorem unexpected : Goes budget need reads (Parse.unexpected : Parse α) := by
  intro s level
  refine .look (a := s.cursor.atEnd) rfl ?_
  split
  · exact .fails rfl nofun
  · exact .fails rfl nofun

end Goes

/-! ## Tokens -/

namespace GoesFrom

/-- A token that comes next is moved over, and otherwise the parse stays where it is. -/
theorem accept_bind {token : String} {f : Bool → Parse β} (some : token.toList ≠ [])
    (level : s.level = budget.level) (hit : Goes budget 6 false (f true))
    (miss : s.cursor.strip? token.toList = none → GoesFrom budget need reads (f false) s) :
    GoesFrom budget need reads (Parse.accept token >>= f) s := by
  cases found : s.cursor.strip? token.toList with
  | none =>
    have run : (Parse.accept token).run s = .ok false s := by simp only [Parse.accept, step, found]
    exact .look run (miss found)
  | some cursor =>
    have run : (Parse.accept token).run s = .ok true { s with cursor := cursor } := by
      simp only [Parse.accept, step, found]
    obtain ⟨fits, rfl⟩ := Cursor.strip?_eq_some found
    exact .after run ⟨rfl, _, fun _ => List.length_pos_iff.mpr some, fits, rfl⟩ level hit

theorem peekPair_bind {f : Char × Char → Parse β}
    (next : ∀ first second, s.cursor.peekAt 0 = first →
      GoesFrom budget need reads (f (first, second)) s) :
    GoesFrom budget need reads (Parse.peekPair >>= f) s :=
  .look (a := (s.cursor.peekAt 0, s.cursor.peekAt 1)) rfl (next _ _ rfl)

/-- A letter that was looked at is there to be moved over. -/
theorem advance_onward (count : Nat) (s : ParseState) :
    ∃ moved, (Letter (s.cursor.peekAt 0) → 0 < count → 0 < moved) ∧
      moved ≤ s.cursor.rest.length ∧ s.cursor.advance count = s.cursor.skip moved := by
  refine ⟨min count s.cursor.rest.length, fun letter pos => ?_, Nat.min_le_right _ _, ?_⟩
  · obtain ⟨byte, next, -⟩ := Cursor.getElem?_of_letter letter
    exact Nat.lt_min.mpr ⟨pos, (List.getElem?_eq_some_iff.mp next).1⟩
  · have rest := Cursor.rest_advance s.cursor count
    have stop := Cursor.stop_advance s.cursor count
    generalize s.cursor.advance count = after at rest stop
    obtain ⟨offset, _⟩ := after
    obtain rfl := rest
    simp only [Cursor.stop, List.length_drop] at stop
    rw [Cursor.skip, Cursor.mk.injEq]
    refine ⟨by omega, ?_⟩
    obtain below | above := Nat.le_total count s.cursor.rest.length
    · rw [Nat.min_eq_left below]
    · rw [Nat.min_eq_right above, List.drop_length, List.drop_of_length_le above]

/-- Behind a letter that was looked at, a byte was read. -/
theorem advance_bind {count : Nat} {f : Unit → Parse β} (letter : Letter (s.cursor.peekAt 0))
    (level : s.level = budget.level) (next : Goes budget 6 false (f ())) :
    GoesFrom budget need reads (Parse.advance (count + 1) >>= f) s := by
  obtain ⟨moved, pos, fits, cursor⟩ := advance_onward (count + 1) s
  exact .after rfl ⟨rfl, moved, fun _ => pos letter (Nat.succ_pos _), fits, cursor⟩ level next

/-- Bytes that are counted are there. -/
theorem take_bind {count : Nat} {fault : Fault} {f : Cursor → Parse β}
    (other : fault ≠ .tooMuchRecursion)
    (next : ∀ behind, s.cursor.take? count = some behind → GoesFrom budget need reads (f behind) s) :
    GoesFrom budget need reads (Parse.orFault (s.cursor.take? count) fault >>= f) s := by
  cases found : s.cursor.take? count with
  | none => exact .fails rfl other
  | some behind => exact .look rfl (next behind found)

theorem moved_bind {count : Nat} {behind : Cursor} {f : Unit → Parse β}
    (found : s.cursor.take? count = some behind) (level : s.level = budget.level)
    (next : Goes budget need reads (f ())) :
    GoesFrom budget need reads
      ((modify fun state : ParseState => { state with cursor := behind }) >>= f) s := by
  obtain ⟨fits, rfl⟩ := (Cursor.take?_eq_some_iff _ _ _).mp found
  have moved : GoesFrom budget need false
      (modify fun state : ParseState => { state with cursor := s.cursor.skip count }) s :=
    .known rfl ⟨rfl, count, nofun, fits, rfl⟩
  apply moved.bind
  intro _ t _ onward
  exact (next t (onward.level.trans level)).weaken (Nat.le_add_right _ _) id

end GoesFrom

namespace Goes

theorem accept_bind {token : String} {f : Bool → Parse β} (some : token.toList ≠ [])
    (hit : Goes budget 6 false (f true)) (miss : Goes budget need reads (f false)) :
    Goes budget need reads (Parse.accept token >>= f) := by
  intro s level
  exact .accept_bind some level hit fun _ => miss s level

theorem accept (token : String) : Goes budget need false (Parse.accept token) := by
  intro s _
  cases found : s.cursor.strip? token.toList with
  | none => exact .known (a := false) (t := s) (by simp only [Parse.accept, step, found]) (.still rfl rfl)
  | some cursor =>
    obtain ⟨fits, rfl⟩ := Cursor.strip?_eq_some found
    refine .known (a := true) (t := { s with cursor := s.cursor.skip token.toList.length }) ?_ ?_
    · simp only [Parse.accept, step, found]
    · exact ⟨rfl, _, nofun, fits, rfl⟩

theorem expect {token : String} (some : token.toList ≠ []) :
    Goes budget need reads (Parse.expect token) :=
  accept_bind some (pure ()) unexpected

/-- One of two tokens. -/
theorem acceptEither_bind {token token' : String} {f : Bool → Parse β} (some : token.toList ≠ [])
    (some' : token'.toList ≠ []) (hit : Goes budget 6 false (f true))
    (miss : Goes budget need reads (f false)) :
    Goes budget need reads
      ((do if ← Parse.accept token then return true else Parse.accept token') >>= f) := by
  refine fun s level => .assoc (accept_bind some ?_ ?_ s level)
  · exact fun t here => .look rfl (hit t here)
  · exact accept_bind some' hit miss

theorem lookingAt (token : String) : Goes budget need false (Parse.lookingAt token) := by
  apply get.bind
  intro s
  exact pure _

theorem atEnd : Goes budget need false Parse.atEnd := by
  apply get.bind
  intro s
  exact pure _

theorem peek : Goes budget need false Parse.peek := by
  apply get.bind
  intro s
  exact pure _

theorem peekAt (distance : Nat) : Goes budget need false (Parse.peekAt distance) := by
  apply get.bind
  intro s
  exact pure _

theorem peekPair : Goes budget need false Parse.peekPair := by
  apply get.bind
  intro s
  exact pure _

theorem atEncodingEnd : Goes budget need false Parse.atEncodingEnd := by
  apply get.bind
  intro s
  split
  · exact pure _
  · exact pure _

theorem advance (count : Nat) : Goes budget need false (Parse.advance count) := by
  intro s _
  obtain ⟨moved, -, fits, cursor⟩ := GoesFrom.advance_onward count s
  exact .known rfl ⟨rfl, moved, nofun, fits, cursor⟩

theorem make (node : Node) : Goes budget need false (Parse.make node) :=
  stores fun _ => ⟨_, _, rfl, rfl, rfl⟩

theorem makeList (ids : Array NodeId) : Goes budget need false (Parse.makeList ids) :=
  stores fun _ => ⟨_, _, rfl, rfl, rfl⟩

theorem makeName (words : String) : Goes budget need false (Parse.makeName words) :=
  make _

theorem node (id : NodeId) : Goes budget need false (Parse.node id) :=
  fun _ _ => .known rfl (.still rfl rfl)

theorem patch (id : NodeId) (node : Node) : Goes budget need false (Parse.patch id node) :=
  fun _ _ => .known rfl (.still rfl rfl)

theorem enlist (id : NodeId) : Goes budget need false (Parse.enlist id) := by
  intro s _
  constructor
  · intro a t run
    simp only [Parse.enlist, step] at run
    split at run
    · cases run
    · cases run
      exact .still rfl rfl
  · intro t run
    simp only [Parse.enlist, step] at run
    split at run <;> cases run

theorem delist : Goes budget need false Parse.delist := by
  apply get.bind
  intro s
  apply (orFault (by nofun)).bind
  intro value
  exact modified (fun _ => rfl) fun _ => rfl

theorem listed (index : Nat) : Goes budget need false (Parse.listed index) := by
  apply get.bind
  intro s
  exact orFault (by nofun)

theorem addArgument (id : NodeId) : Goes budget need false (Parse.addArgument id) :=
  stores fun _ => ⟨_, _, rfl, rfl, rfl⟩

theorem setScopes (scopes : TemplateScopes) : Goes budget need false (Parse.setScopes scopes) :=
  modified (fun _ => rfl) fun _ => rfl

theorem setLevels (levels : Array ScopeLevel) : Goes budget need false (Parse.setLevels levels) :=
  modified (fun _ => rfl) fun _ => rfl

theorem learn (tracked : Bool) (change : NameFacts → NameFacts) :
    Goes budget need false (Parse.learn tracked change) :=
  ite (modified (fun _ => rfl) fun _ => rfl) (pure ())

/-- A run of bytes. -/
theorem digits (property : UInt8 → Bool) : Goes budget need false (Parse.digits property) := by
  intro s _
  obtain ⟨fits, cursor⟩ := s.cursor.spanWhile_eq property
  exact .known rfl ⟨rfl, _, nofun, fits, cursor⟩

theorem remainder : Goes budget need false Parse.remainder := by
  intro s _
  obtain ⟨fits, cursor⟩ := s.cursor.spanWhile_eq fun _ => true
  exact .known rfl ⟨rfl, _, nofun, fits, cursor⟩

theorem number (signed : Bool) : Goes budget need false (Parse.number signed) := by
  intro s _
  obtain ⟨count, fits, sign, -⟩ := s.cursor.signed_eq signed
  obtain ⟨fits', cursor⟩ := (s.cursor.skip count).spanWhile_eq Number.isDigit
  constructor
  · intro a t run
    simp only [Parse.number, step, sign] at run
    split at run
    · cases run
      exact .still rfl rfl
    · cases run
      rename_i found
      simp only [found] at cursor fits'
      refine ⟨rfl, _, nofun, ?_, cursor.trans (Cursor.skip_skip _ _ _)⟩
      rw [Cursor.skip, List.length_drop] at fits'
      omega
  · intro t run
    simp only [Parse.number, step, sign] at run
    split at run <;> cases run

/-- There is at least one digit. -/
theorem value (base : Nat) (property : UInt8 → Bool) :
    Goes budget need reads (Parse.value base property) := by
  intro s level
  obtain ⟨fits, cursor⟩ := s.cursor.spanWhile_eq property
  have run : (Parse.digits property).run s =
      .ok (s.cursor.spanWhile property).1 { s with cursor := (s.cursor.spanWhile property).2 } := rfl
  cases found : (s.cursor.spanWhile property).1 with
  | nil =>
    apply (digits property s level).bind
    intro digits t run' onward
    cases run.symm.trans run'
    rw [found]
    exact unexpected _ (onward.level.trans level)
  | cons digit more =>
    rw [found] at run fits cursor
    exact .after run ⟨rfl, _, fun _ => Nat.succ_pos _, fits, cursor⟩ level (orFault nofun)

theorem decimal : Goes budget need reads Parse.decimal :=
  value 10 _

theorem seqId : Goes budget need reads Parse.seqId :=
  value 36 _

theorem identifierFrom : Goes budget need reads Parse.identifierFrom := by
  apply decimal.andThen
  intro length
  apply (ensure (throw (by nofun))).seq
  refine fun s level => ?_
  refine .look (a := s) rfl ?_
  exact .take_bind nofun fun behind found => .moved_bind found level (pure _)

theorem identifier : Goes budget need reads Parse.identifier := by
  apply identifierFrom.andThen
  intro name
  exact pure _

theorem qualifiers : Goes budget need false Parse.qualifiers := by
  apply (accept _).bind
  intro held
  apply (accept _).bind
  intro held
  apply (accept _).bind
  intro held
  exact pure _

/-- What only looked like a number is given back. -/
theorem skipDiscriminator : Goes budget need false Parse.skipDiscriminator := by
  apply peek.bind
  intro letter
  refine ite (pure ()) fun s level => ?_
  refine .look (a := s) rfl (.look (a := s.cursor.peekAt 1) rfl ?_)
  split
  · exact advance 2 s level
  · split
    · obtain ⟨_, t, first⟩ : ∃ a t, (Parse.advance 2).run s = .ok a t := ⟨_, _, rfl⟩
      have moved := (@advance budget need 2 s level).onward _ t first
      obtain ⟨words, u, second⟩ : ∃ words u, (Parse.number false).run t = .ok words u := by
        simp only [Parse.number, step]
        split <;> exact ⟨_, _, rfl⟩
      have moved := moved.trans <|
        (@number budget need false t (moved.level.trans level)).onward words u second
      obtain ⟨closed, v, third⟩ : ∃ closed v,
          (if words.isEmpty then Pure.pure false else Parse.accept "_").run u = .ok closed v := by
        split
        · exact ⟨_, _, rfl⟩
        · simp only [Parse.accept, step]
          split <;> exact ⟨_, _, rfl⟩
      have moved := moved.trans <| (@ite _ budget need _ _ _ _ _ (pure false) (accept "_") u
        (moved.level.trans level)).onward closed v third
      cases closed with
      | true =>
        refine .known (a := ()) (t := v) ?_ moved
        rw [run_bind_ok _ first, run_bind_ok _ second, run_bind_ok _ third]
        rfl
      | false =>
        refine .known (a := ()) (t := { v with cursor := s.cursor }) ?_ (.still moved.level rfl)
        rw [run_bind_ok _ first, run_bind_ok _ second, run_bind_ok _ third]
        rfl
    · exact pure () s level

theorem discard (h : Goes budget need reads p) : Goes budget need reads (discard p) :=
  h.map _

theorem moreNodes {close : Parse Bool} {item : Parse NodeId} (tests : Goes budget need false close)
    (goes : Goes budget need true item) (nodes : Array NodeId) :
    Goes budget need false (Parse.moreNodes close item nodes) :=
  untilHolds tests (fun _ => goes.andThen fun _ => pure _) nodes

theorem nodesUntil (token : String) {item : Parse NodeId} (goes : Goes budget need true item) :
    Goes budget need false (Parse.nodesUntil token item) :=
  moreNodes (accept token) goes #[]

theorem someNodes {close : Parse Bool} {item : Parse NodeId} (tests : Goes budget need false close)
    (goes : Goes budget need true item) : Goes budget need false (Parse.someNodes close item) := by
  apply goes.any.bind
  intro id
  exact moreNodes tests goes #[id]

end Goes
end Parse
end Unmangle
