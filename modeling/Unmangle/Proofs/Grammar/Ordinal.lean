import Unmangle.Grammar.Parse
import Unmangle.Proofs.Compression.Numeral
import Unmangle.Proofs.Grammar.Cursor
import Unmangle.Proofs.Grammar.Run

/-!
# Numbers are decoded exactly

The number in a substitution, in a template parameter and in front of an identifier may have any
number of digits. It is read as the number that its digits denote, and what is looked up is found
in just that place; where a place does not fit 64 bits the parse overflows instead.
-/
namespace Unmangle

namespace Number

/-- A number, if 64 bits hold it. -/
def checked (number : Nat) : Except Fault Nat :=
  if number < 2 ^ 64 then .ok number else .error .overflow

theorem bound_eq : bound = 2 ^ 64 := by norm_num [bound]

/-- Whoever counts on from a number that does not fit has none that fits either. -/
theorem checked_bind_succ (number : Nat) :
    (checked number >>= fun number => checked (number + 1)) = checked (number + 1) := by
  by_cases fits : number < 2 ^ 64
  · rw [checked, if_pos fits]
    rfl
  · rw [checked, if_neg fits, checked, if_neg (by omega)]
    rfl

/-- A digit is told from whatever else may stand in its place. -/
theorem digitByte_other (digit : Fin 36) :
    (Char.ofNat (digitByte digit).toNat).isLower = false ∧
      (digitByte digit).toNat ≠ '_'.toNat := by
  revert digit
  decide

end Number

/-- How a place, counted from zero, is written: the first one by an underscore alone, a later one by
digits that count on from it, in front of an underscore. -/
inductive Ordinal (base : Nat)
  | first
  | later (digit : Fin base) (digits : List (Fin base))

namespace Ordinal

variable {base : Nat}

def code : Ordinal base → List UInt8
  | first => octets "_"
  | later digit digits => Number.written (digit :: digits) ++ octets "_"

def place : Ordinal base → Nat
  | first => 0
  | later digit digits => Number.denoted (digit :: digits) + 1

end Ordinal

namespace ParseState

/-- The state behind bytes that were read, in front of others. -/
def past (s : ParseState) (read rest : List UInt8) : ParseState :=
  { s with cursor := ⟨s.cursor.offset + read.length, rest⟩ }

theorem past_past (s : ParseState) (read read' rest rest' : List UInt8) :
    (s.past read rest).past read' rest' = s.past (read ++ read') rest' := by
  simp only [past, List.length_append, Nat.add_assoc]

def storing (node : Node) (s : ParseState) : EStateM.Result Fault ParseState NodeId :=
  .ok (s.work.tree.alloc node).1
    { s with work := { s.work with tree := (s.work.tree.alloc node).2 } }

/-- The component that is listed in a place, if there is one. -/
def component (place : Nat) (s : ParseState) : EStateM.Result Fault ParseState NodeId :=
  match s.work.substitutions.entries[place]? with
  | some id => .ok id s
  | none => .error .badBackReference s

/-- What stands for the template parameter in a place of a level: a node that waits for its
argument, the argument, the invented parameter of a lambda, or nothing. -/
def param (level place : Nat) (s : ParseState) : EStateM.Result Fault ParseState NodeId :=
  if s.forwardAllowed && level == 0 then
    let (id, tree) := s.work.tree.alloc (.forwardParam place none)
    .ok id { s with work := { s.work with tree := tree, forward := s.work.forward.push id } }
  else
    match s.work.scopes.argument? level place with
    | some target => s.storing (.templateParam target)
    | none =>
      let scopes := s.work.scopes
      if s.lambdaLevel = some level ∧ level ≤ scopes.levels.size then
        let levels := if level = scopes.levels.size then scopes.levels.push .unbound
          else scopes.levels
        { s with work := { s.work with scopes := { scopes with levels := levels } } }.storing
          (.name (.literal "auto"))
      else .error .badTemplateArgReference s

/-- The identifier of a length: it is not empty, and all of its bytes are there. -/
def identifier (length : Nat) (s : ParseState) :
    EStateM.Result Fault ParseState (Text × Cursor) :=
  if length = 0 then .error .unexpectedText s
  else if s.cursor.rest.length < length then .error .unexpectedEnd s
  else
    .ok (.span s.cursor.offset (s.cursor.offset + length),
      ⟨s.cursor.offset, s.cursor.rest.take length⟩) { s with cursor := s.cursor.skip length }

end ParseState

namespace Parse

variable {α β γ : Type}

/-- In front of a token a step goes on from behind the token with what the token says. Where the
token says nothing that fits, the step fails, and all that was stored and listed stays as it was. -/
def Decodes (p : Parse β) (s : ParseState) (token rest : List UInt8) (said : Except Fault α)
    (next : α → ParseState → EStateM.Result Fault ParseState β) : Prop :=
  match said with
  | .ok a => p.run (s.past [] (token ++ rest)) = next a (s.past token rest)
  | .error fault => ∃ t, p.run (s.past [] (token ++ rest)) = .error fault t ∧ t.work = s.work

/-- The end of a template parameter, behind its level and its place. -/
def paramBehind (level place : Nat) : Parse NodeId := do
  let state ← get
  if state.forwardAllowed && level == 0 then
    let id ← make (.forwardParam place none)
    modify fun state =>
      { state with work := { state.work with forward := state.work.forward.push id } }
    return id
  match state.work.scopes.argument? level place with
  | some target => make (.templateParam target)
  | none =>
    let scopes := state.work.scopes
    if state.lambdaLevel == some level && level ≤ scopes.levels.size then
      (if level == scopes.levels.size then
        setScopes { scopes with levels := scopes.levels.push .unbound }
      else pure ())
      makeName "auto"
    else
      throw .badTemplateArgReference

theorem templateParam_eq : templateParam = (do
    expect "T"
    let level ← (if (← accept "L") then ordinal else pure 0)
    let place ← (if (← accept "_") then pure 0 else ordinal)
    paramBehind level place) :=
  rfl

/-- What cannot begin with the next byte does not come next. -/
theorem run_accept_false {s : ParseState} {word : String} {char : Char} {chars : List Char}
    (spelled : word.toList = char :: chars)
    (other : ∀ byte ∈ s.cursor.rest.head?, byte.toNat ≠ char.toNat) :
    (accept word).run s = .ok false s := by
  simp only [accept, step, spelled, Cursor.strip?_of_ne other]

theorem run_listed (place : Nat) (t : ParseState) :
    (listed place).run t = t.component place := by
  unfold listed
  rw [run_bind_ok _ run_get, ParseState.component, Substitutions.get?]
  cases t.work.substitutions.entries[place]? <;> rfl

/-- Behind its numbers a parameter is looked up. -/
theorem run_paramBehind (level place : Nat) (t : ParseState) :
    (paramBehind level place).run t = t.param level place := by
  unfold paramBehind ParseState.param
  rw [run_bind_ok _ run_get]
  by_cases waits : (t.forwardAllowed && level == 0) = true
  · rw [if_pos waits, if_pos waits]
    rfl
  · rw [if_neg waits, if_neg waits]
    cases t.work.scopes.argument? level place with
    | some target => rfl
    | none =>
      dsimp only
      by_cases invents : t.lambdaLevel = some level ∧ level ≤ t.work.scopes.levels.size
      · have known : (t.lambdaLevel == some level &&
            decide (level ≤ t.work.scopes.levels.size)) = true := by simp [invents]
        rw [if_pos known, if_pos invents]
        by_cases last : level = t.work.scopes.levels.size
        · rw [if_pos (beq_iff_eq.mpr last), if_pos last]
          rfl
        · rw [if_neg (mt beq_iff_eq.mp last), if_neg last]
          rfl
      · have unknown : ¬(t.lambdaLevel == some level &&
            decide (level ≤ t.work.scopes.levels.size)) = true := by simpa using invents
        rw [if_neg unknown, if_neg invents]
        rfl

namespace Decodes

variable {p : Parse α} {s : ParseState} {token token' rest : List UInt8} {said : Except Fault α}
  {next : γ → ParseState → EStateM.Result Fault ParseState β}

/-- Behind a token that is read, the next one comes. -/
theorem passed {f : α → Parse β} {a : α} {said : Except Fault γ}
    (h : p.Decodes s token (token' ++ rest) (.ok a) .ok)
    (h' : (f a).Decodes (s.past token (token' ++ rest)) token' rest said next) :
    (p >>= f).Decodes s (token ++ token') rest said next := by
  unfold Decodes at h' ⊢
  rw [ParseState.past_past, List.append_nil, ParseState.past_past] at h'
  rw [List.append_assoc, run_bind_ok f h]
  exact h'

/-- What one token says, then what the next one says. -/
theorem bind {f : α → Parse β} {said' : α → Except Fault γ}
    (h : p.Decodes s token (token' ++ rest) said .ok)
    (h' : ∀ a, (f a).Decodes (s.past token (token' ++ rest)) token' rest (said' a) next) :
    (p >>= f).Decodes s (token ++ token') rest (said >>= said') next := by
  cases said with
  | ok a => exact passed h (h' a)
  | error fault =>
    obtain ⟨t, run, same⟩ := h
    refine ⟨t, ?_, same⟩
    rw [List.append_assoc]
    exact run_bind_error f run

/-- A step that reads nothing is in front of the token, and so is what comes behind it. -/
theorem after {f : α → Parse β} {a : α} {said : Except Fault γ}
    (run : p.run (s.past [] (token ++ rest)) = .ok a (s.past [] (token ++ rest)))
    (h : (f a).Decodes s token rest said next) : (p >>= f).Decodes s token rest said next := by
  unfold Decodes
  rw [run_bind_ok f run]
  exact h

/-- A token that is spelled next is taken. -/
theorem accept (word : String) (bytes : List UInt8)
    (spelled : bytes = word.toList.map fun char => UInt8.ofNat char.toNat)
    (ascii : word.toList.all (fun char => char.toNat < 256) = true) :
    (Parse.accept word).Decodes s bytes rest (.ok true) .ok := by
  have passed : (s.past [] (bytes ++ rest)).cursor.strip? word.toList =
      some ⟨s.cursor.offset + bytes.length, rest⟩ :=
    Cursor.strip?_of_spelled spelled ascii rfl
  unfold Decodes
  simp only [Parse.accept, step, passed]
  rfl

theorem expect (word : String) (bytes : List UInt8)
    (spelled : bytes = word.toList.map fun char => UInt8.ofNat char.toNat)
    (ascii : word.toList.all (fun char => char.toNat < 256) = true) :
    (Parse.expect word).Decodes s bytes rest (.ok ()) .ok :=
  run_bind_ok _ (accept word bytes spelled ascii)

/-- The word that comes next was all. -/
theorem accepted (word : String) (bytes : List UInt8) {f : Bool → Parse β} {a : γ}
    (spelled : bytes = word.toList.map fun char => UInt8.ofNat char.toNat)
    (ascii : word.toList.all (fun char => char.toNat < 256) = true)
    (h : ∀ t, (f true).run t = next a t) :
    (Parse.accept word >>= f).Decodes s bytes rest (.ok a) next :=
  (run_bind_ok f (accept word bytes spelled ascii)).trans (h _)

section Numbers

variable {base : Nat} {property : UInt8 → Bool}

/-- Digits are taken up to the first byte that is none. -/
theorem digits (holds : ∀ value < base, property (Number.digitByte value) = true)
    (ends : ∀ byte ∈ rest.head?, property byte = false) (string : List (Fin base)) :
    (Parse.digits property).Decodes s (Number.written string) rest
      (.ok (Number.written string)) .ok := by
  have span : (s.past [] (Number.written string ++ rest)).cursor.spanWhile property =
      (Number.written string, ⟨s.cursor.offset + (Number.written string).length, rest⟩) :=
    Cursor.spanWhile_of_append (Number.all_written holds string) ends rfl
  unfold Decodes
  simp only [Parse.digits, step, span]
  rfl

/-- Digits decode to the number that they denote, if it is within bounds. -/
theorem value (most : base ≤ 36)
    (holds : ∀ value < base, property (Number.digitByte value) = true)
    (ends : ∀ byte ∈ rest.head?, property byte = false) (digit : Fin base)
    (more : List (Fin base)) :
    (Parse.value base property).Decodes s (Number.written (digit :: more)) rest
      (Number.checked (Number.denoted (digit :: more))) .ok := by
  have run : (Parse.value base property).run (s.past [] (Number.written (digit :: more) ++ rest)) =
      (orFault (Number.value? base (Number.written (digit :: more))) .overflow).run
        (s.past (Number.written (digit :: more)) rest) :=
    run_bind_ok _ (digits holds ends (digit :: more))
  unfold Decodes Number.checked
  rw [run, Number.value?_written most, Number.bound_eq]
  by_cases fits : Number.denoted (digit :: more) < 2 ^ 64
  · rw [if_pos fits, if_pos fits]
    rfl
  · rw [if_neg fits, if_neg fits]
    exact ⟨_, rfl, rfl⟩

/-- What comes behind a number that is counted on by one. -/
theorem counted {f : Nat → Parse β} {said : Nat → Except Fault γ} (number : Nat)
    (h : ∀ place, (f place).Decodes s token rest (said place) next) :
    (orFault (Number.succ? number) .overflow >>= f).Decodes s token rest
      (Number.checked (number + 1) >>= said) next := by
  unfold Number.succ? Number.checked
  rw [Number.bound_eq]
  by_cases fits : number + 1 < 2 ^ 64
  · rw [if_pos fits, if_pos fits]
    exact after rfl (h (number + 1))
  · rw [if_neg fits, if_neg fits]
    exact ⟨_, rfl, rfl⟩

/-- A number that is counted on by one, and the underscore behind it. -/
theorem later {f : Nat → Parse β} {next : Nat → ParseState → EStateM.Result Fault ParseState β}
    (most : base ≤ 36) (holds : ∀ value < base, property (Number.digitByte value) = true)
    (bar : property 95 = false) (digit : Fin base) (more : List (Fin base))
    (h : ∀ place (t : ParseState), (f place).run (t.past [] rest) = next place (t.past [] rest)) :
    (do
      let place ← orFault (Number.succ? (← Parse.value base property)) .overflow
      Parse.expect "_"
      f place).Decodes s (Ordinal.later digit more).code rest
        (Number.checked (Ordinal.later digit more).place) next := by
  have ends : ∀ byte ∈ (octets "_" ++ rest).head?, property byte = false := by
    rintro _ ⟨⟩
    exact bar
  rw [Ordinal.code, Ordinal.place, ← Number.checked_bind_succ]
  refine bind (value most holds ends digit more) ?_
  intro number
  rw [← bind_pure (Number.checked (number + 1))]
  refine counted number ?_
  intro place
  rw [← List.append_nil (octets "_")]
  exact passed (expect "_" _ rfl rfl) (h place _)

end Numbers

/-- A substitution decodes to the place behind its number. -/
theorem substitution (number : Ordinal 36) :
    Parse.substitution.Decodes s (octets "S" ++ number.code) rest (Number.checked number.place)
      ParseState.component := by
  refine passed (expect "S" _ rfl rfl) (after rfl ?_)
  cases number with
  | first =>
    have letter : ((s.past (octets "S") (octets "_" ++ rest)).past []
        (octets "_" ++ rest)).cursor.peekAt 0 = '_' := rfl
    rw [Ordinal.code, letter, if_neg (by decide)]
    exact accepted "_" _ rfl rfl fun t => run_listed 0 t
  | later digit digits =>
    obtain ⟨notLower, notBar⟩ := Number.digitByte_other digit
    have letter : ((s.past (octets "S") ((Ordinal.later digit digits).code ++ rest)).past []
        ((Ordinal.later digit digits).code ++ rest)).cursor.peekAt 0 =
        Char.ofNat (Number.digitByte digit).toNat := rfl
    rw [letter, notLower, if_neg Bool.false_ne_true]
    refine after (run_accept_false rfl ?_) ?_
    · rintro _ ⟨⟩
      exact notBar
    · exact later (by decide) (fun _ => Number.isSeqDigit_digitByte) rfl digit digits
        fun place t => run_listed place _

/-- The rule reads its token one level deeper, so it fails in another way where no level is left. -/
theorem substitutionRule (limit levels : Nat) (number : Ordinal 36) :
    (Rule.parse limit (levels + 1) .substitution).Decodes s (octets "S" ++ number.code) rest
      (if s.level + 1 < limit then Number.checked number.place else .error .tooMuchRecursion)
      ParseState.component := by
  by_cases room : s.level + 1 < limit
  · have run : (Rule.parse limit (levels + 1) .substitution).run
          (s.past [] (octets "S" ++ number.code ++ rest)) =
        (Parse.substitution.thenAlways up).run
          (({ s with level := s.level + 1 } : ParseState).past []
            (octets "S" ++ number.code ++ rest)) :=
      run_deeper_of_lt (p := Parse.substitution) room
    have inner : Parse.substitution.Decodes { s with level := s.level + 1 }
        (octets "S" ++ number.code) rest (Number.checked number.place) ParseState.component :=
      substitution number
    unfold Decodes at inner ⊢
    rw [if_pos room, run, thenAlways]
    cases said : Number.checked number.place with
    | ok place =>
      rw [said] at inner
      dsimp only at inner ⊢
      rw [inner]
      unfold ParseState.component
      dsimp only [ParseState.past]
      cases s.work.substitutions.entries[place]? <;> rfl
    | error fault =>
      rw [said] at inner
      obtain ⟨t, inner, same⟩ := inner
      refine ⟨up t, ?_, same⟩
      dsimp only
      rw [inner]
  · rw [if_neg room]
    exact ⟨_, run_deeper_of_le (p := Parse.substitution) (Nat.le_of_not_lt room), rfl⟩

theorem map {δ : Type} {p : Parse β} {said : Except Fault γ} (g : γ → δ)
    {next : δ → ParseState → EStateM.Result Fault ParseState β}
    (h : p.Decodes s token rest said fun a => next (g a)) :
    p.Decodes s token rest (said >>= fun a => pure (g a)) next := by
  cases said with
  | ok a => exact h
  | error fault => exact h

theorem into {f : α → Parse β} {next : α → ParseState → EStateM.Result Fault ParseState β}
    (h : p.Decodes s token rest said .ok) (h' : ∀ a t, (f a).run t = next a t) :
    (p >>= f).Decodes s token rest said next := by
  cases said with
  | ok a => exact (run_bind_ok f h).trans (h' a _)
  | error fault =>
    obtain ⟨t, run, same⟩ := h
    exact ⟨t, run_bind_error f run, same⟩

theorem ordinal (digit : Fin 10) (digits : List (Fin 10)) :
    Parse.ordinal.Decodes s (Ordinal.later digit digits).code rest
      (Number.checked (Ordinal.later digit digits).place) .ok :=
  later (by decide) (fun _ => Number.isDigit_digitByte) rfl digit digits fun _ _ => rfl

/-- A place of parameters, whichever it is. -/
theorem place {f : Nat → Parse β} {next : Nat → ParseState → EStateM.Result Fault ParseState β}
    (number : Ordinal 10) (h : ∀ place t, (f place).run t = next place t) :
    (do
      let place ← (if (← Parse.accept "_") then pure 0 else Parse.ordinal)
      f place).Decodes s number.code rest (Number.checked number.place) next := by
  cases number with
  | first => exact accepted "_" _ rfl rfl fun t => h 0 t
  | later digit digits =>
    refine after (run_accept_false rfl ?_) (into (ordinal digit digits) h)
    rintro _ ⟨⟩
    exact (Number.digitByte_other (digit.castLE (by decide))).2

/-- A parameter decodes to the place behind its number in the innermost scope. -/
theorem templateParam (number : Ordinal 10) :
    Parse.templateParam.Decodes s (octets "T" ++ number.code) rest (Number.checked number.place)
      (ParseState.param 0) := by
  rw [templateParam_eq]
  refine passed (expect "T" _ rfl rfl) (after (run_accept_false rfl ?_) ?_)
  · cases number with
    | first =>
      rintro _ ⟨⟩
      decide
    | later digit digits =>
      rintro _ ⟨⟩
      have others : ∀ digit : Fin 10, (Number.digitByte digit).toNat ≠ 'L'.toNat := by decide
      exact others digit
  · exact after rfl (place number (run_paramBehind 0))

/-- A parameter with a level decodes both of its numbers. -/
theorem deepParam (digit : Fin 10) (digits : List (Fin 10)) (number : Ordinal 10) :
    Parse.templateParam.Decodes s
      (octets "TL" ++ (Ordinal.later digit digits).code ++ number.code) rest
      (do
        let level ← Number.checked (Ordinal.later digit digits).place
        let place ← Number.checked number.place
        return (level, place))
      fun (level, place) => ParseState.param level place := by
  show Parse.templateParam.Decodes s
    (octets "T" ++ (octets "L" ++ ((Ordinal.later digit digits).code ++ number.code))) rest _ _
  rw [templateParam_eq]
  refine passed (expect "T" _ rfl rfl) (passed (accept "L" _ rfl rfl) ?_)
  refine bind (ordinal digit digits) fun level => map _ (place number (run_paramBehind level))

/-- The length of an identifier decodes to the number of bytes behind it. -/
theorem identifierFrom (digit : Fin 10) (digits : List (Fin 10))
    (ends : ∀ byte ∈ rest.head?, Number.isDigit byte = false) :
    Parse.identifierFrom.Decodes s (Number.written (digit :: digits)) rest
      (Number.checked (Number.denoted (digit :: digits))) ParseState.identifier := by
  refine into (value (by decide) (fun _ => Number.isDigit_digitByte) ends digit digits) ?_
  intro length t
  unfold ParseState.identifier
  by_cases none : length = 0
  · rw [if_pos none, none]
    rfl
  · have some : (length != 0) = true := bne_iff_ne.mpr none
    rw [if_neg none, some, ensure_true, run_bind_ok _ (run_pure ()), run_bind_ok _ run_get]
    dsimp only
    rw [Cursor.take?_eq]
    by_cases fits : length ≤ t.cursor.rest.length
    · rw [if_pos fits, if_neg (Nat.not_lt.mpr fits)]
      rfl
    · rw [if_neg fits, if_pos (Nat.lt_of_not_le fits)]
      rfl

end Decodes

/-- Whatever else is there, a substitution names the component in its place, a template parameter
the argument in its place of its level, and an identifier has the length in front of it. No place
and no length is mistaken for another one, however many digits it has. -/
theorem numbers_decoded (s : ParseState) (rest : List UInt8) :
    (∀ (limit levels : Nat) (number : Ordinal 36),
      (Rule.parse limit (levels + 1) .substitution).Decodes s (octets "S" ++ number.code) rest
        (if s.level + 1 < limit then Number.checked number.place else .error .tooMuchRecursion)
        ParseState.component) ∧
    (∀ number : Ordinal 10,
      templateParam.Decodes s (octets "T" ++ number.code) rest (Number.checked number.place)
        (ParseState.param 0)) ∧
    (∀ (digit : Fin 10) (digits : List (Fin 10)) (number : Ordinal 10),
      templateParam.Decodes s (octets "TL" ++ (Ordinal.later digit digits).code ++ number.code) rest
        (do
          let level ← Number.checked (Ordinal.later digit digits).place
          let place ← Number.checked number.place
          return (level, place))
        fun (level, place) => ParseState.param level place) ∧
    ∀ (digit : Fin 10) (digits : List (Fin 10)),
      (∀ byte ∈ rest.head?, Number.isDigit byte = false) →
        identifierFrom.Decodes s (Number.written (digit :: digits)) rest
          (Number.checked (Number.denoted (digit :: digits))) ParseState.identifier :=
  ⟨Decodes.substitutionRule, Decodes.templateParam, Decodes.deepParam, Decodes.identifierFrom⟩

def twoListed : ParseState where
  cursor := ⟨0, []⟩
  work := { substitutions := (({} : Substitutions).insert ⟨4, 0⟩).insert ⟨7, 0⟩ }

/-- A number with a zero in front names the second component. There is no number of 64 bits behind
the largest, and the one before it does not wrap around. -/
theorem numbers_decoded_twoListed :
    (Rule.parse 192 1 .substitution).run (twoListed.past [] (octets "S00_E")) =
        .ok ⟨7, 0⟩ (twoListed.past (octets "S00_") (octets "E")) ∧
      (∃ t, (Rule.parse 192 1 .substitution).run
        (twoListed.past [] (octets "S3W5E11264SGSF_E")) = .error .overflow t) ∧
      (∃ t, (Rule.parse 192 1 .substitution).run
        (twoListed.past [] (octets "S3W5E11264SGSE_E")) = .error .badBackReference t) ∧
      (∃ t, identifierFrom.run (twoListed.past [] (octets "18446744073709551617E")) =
        .error .overflow t) := by
  obtain ⟨component, -, -, identifier⟩ := numbers_decoded twoListed (octets "E")
  have second := component 192 0 (.later 0 [0])
  have largest := component 192 0 (.later 3 [32, 5, 14, 1, 1, 2, 6, 4, 28, 16, 28, 15])
  have before := component 192 0 (.later 3 [32, 5, 14, 1, 1, 2, 6, 4, 28, 16, 28, 14])
  have ends : ∀ byte ∈ (octets "E").head?, Number.isDigit byte = false := by
    rintro _ ⟨⟩
    rfl
  have length := identifier 1 [8, 4, 4, 6, 7, 4, 4, 0, 7, 3, 7, 0, 9, 5, 5, 1, 6, 1, 7] ends
  refine ⟨second, ?_, ⟨_, before⟩, ?_⟩
  · obtain ⟨t, run, -⟩ := largest
    exact ⟨t, run⟩
  · obtain ⟨t, run, -⟩ := length
    exact ⟨t, run⟩

end Parse
end Unmangle
