import Mathlib.Data.List.TakeWhile
import Unmangle.Proofs.Course.Leads

/-!
# Tokens on course

Every token of the grammar is ASCII, and so is every letter that a production looks at
before it moves on. What is counted follows a number, and so begins between two characters.
-/
namespace Unmangle

/-- A letter that is no NUL, and so stands for a byte of the symbol, and is ASCII. -/
def Letter (char : Char) : Prop :=
  0 < char.toNat ∧ char.toNat < 128

instance (char : Char) : Decidable (Letter char) :=
  inferInstanceAs (Decidable (_ ∧ _))

def AsciiToken (token : String) : Prop :=
  ∀ char ∈ token.toList, char.toNat < 128

instance (token : String) : Decidable (AsciiToken token) :=
  List.decidableBAll (fun char : Char => char.toNat < 128) token.toList

theorem Letter.of_le {char : Char} (first last : Char) (pos : 0 < first.toNat) (small : last.toNat < 128)
    (h : first ≤ char ∧ char ≤ last) : Letter char :=
  ⟨Nat.lt_of_lt_of_le pos h.1, Nat.lt_of_le_of_lt h.2 small⟩

theorem Letter.of_isDigit {char : Char} (h : char.isDigit = true) : Letter char := by
  simp only [Char.isDigit, Bool.and_eq_true, decide_eq_true_eq] at h
  exact .of_le '0' '9' (by decide) (by decide) h

theorem Letter.of_isLower {char : Char} (h : char.isLower = true) : Letter char := by
  obtain ⟨first, last⟩ := Bool.and_eq_true_iff.mp h
  exact .of_le 'a' 'z' (by decide) (by decide) ⟨of_decide_eq_true first, of_decide_eq_true last⟩

theorem Number.ascii_of_isDigit {byte : UInt8} (h : Number.isDigit byte = true) :
    Ascii byte := by
  simp only [Number.isDigit, Bool.and_eq_true, decide_eq_true_eq] at h
  exact Nat.lt_of_le_of_lt (UInt8.le_iff_toNat_le.mp h.2) (by decide)

theorem Number.ascii_of_isSeqDigit {byte : UInt8} (h : Number.isSeqDigit byte = true) :
    Ascii byte := by
  simp only [Number.isSeqDigit, Number.isUpper, Bool.or_eq_true, Bool.and_eq_true,
    decide_eq_true_eq] at h
  obtain h | h := h
  · exact Number.ascii_of_isDigit h
  · exact Nat.lt_of_le_of_lt (UInt8.le_iff_toNat_le.mp h.2) (by decide)

namespace Cursor

variable {cursor after : Cursor}

/-- A token is moved over byte by byte. -/
theorem ascii_of_strip? {token : List Char} (ascii : ∀ char ∈ token, char.toNat < 128)
    (h : cursor.strip? token = some after) :
    ∀ byte ∈ cursor.rest.take token.length, Ascii byte := by
  induction token generalizing cursor with
  | nil => simp
  | cons char token ih =>
    obtain ⟨offset, _ | ⟨byte, rest⟩⟩ := cursor
    · simp [strip?] at h
    · rw [strip?] at h
      split at h
      · intro byte' hbyte'
        rw [List.length_cons, List.take_succ_cons, List.mem_cons] at hbyte'
        obtain rfl | hbyte' := hbyte'
        · rw [Ascii, ‹byte'.toNat = char.toNat›]
          exact ascii char (List.mem_cons_self ..)
        · exact ih (fun c hc => ascii c (List.mem_cons_of_mem char hc)) h byte' hbyte'
      · cases h

/-- A letter stands for the byte at its distance. -/
theorem getElem?_of_letter {distance : Nat} (h : Letter (cursor.peekAt distance)) :
    ∃ byte, cursor.rest[distance]? = some byte ∧ Ascii byte := by
  rw [peekAt] at h
  cases hbyte : cursor.rest[distance]? with
  | none =>
    rw [hbyte] at h
    exact absurd h.1 (by decide)
  | some byte =>
    rw [hbyte] at h
    have value : (Char.ofNat byte.toNat).toNat = byte.toNat := by
      rw [Char.ofNat, dif_pos (.inl (Nat.lt_trans byte.toNat_lt (by decide)))]
      rfl
    have small := h.2
    simp only [value] at small
    exact ⟨byte, rfl, small⟩

/-- What letters stand for comes next. -/
theorem ascii_of_letters {count : Nat}
    (letters : ∀ distance < count, Letter (cursor.peekAt distance)) :
    count ≤ cursor.rest.length ∧ ∀ byte ∈ cursor.rest.take count, Ascii byte := by
  have here : ∀ distance < count, ∃ byte, cursor.rest[distance]? = some byte ∧ Ascii byte :=
    fun distance lt => getElem?_of_letter (letters distance lt)
  have fits : count ≤ cursor.rest.length := by
    cases count with
    | zero => exact Nat.zero_le _
    | succ last =>
      obtain ⟨byte, hbyte, -⟩ := here last (Nat.lt_succ_self last)
      exact (List.getElem?_eq_some_iff.mp hbyte).1
  refine ⟨fits, fun byte hbyte => ?_⟩
  obtain ⟨distance, hdistance⟩ := List.mem_iff_getElem?.mp hbyte
  have lt : distance < count := by
    by_contra ge
    rw [List.getElem?_eq_none (by rw [List.length_take]; omega)] at hdistance
    cases hdistance
  obtain ⟨byte', hbyte', ascii⟩ := here distance lt
  rw [List.getElem?_take_of_lt lt, hbyte'] at hdistance
  cases hdistance
  exact ascii

/-- The bytes of a span are ASCII if every byte with the property is. -/
theorem ascii_of_spanWhile {property : UInt8 → Bool}
    (ascii : ∀ byte, property byte = true → Ascii byte) (cursor : Cursor) :
    ∀ byte ∈ cursor.rest.take (cursor.spanWhile property).1.length, Ascii byte := by
  intro byte hbyte
  simp only [spanWhile] at hbyte
  rw [← List.prefix_iff_eq_take.mp (List.takeWhile_prefix property)] at hbyte
  exact ascii byte (List.mem_takeWhile_imp hbyte)

theorem ascii_add {count count' : Nat} (first : ∀ byte ∈ cursor.rest.take count, Ascii byte)
    (next : ∀ byte ∈ (cursor.skip count).rest.take count', Ascii byte) :
    ∀ byte ∈ cursor.rest.take (count + count'), Ascii byte := by
  intro byte hbyte
  rw [List.take_add, List.mem_append] at hbyte
  exact hbyte.elim (first byte) (next byte)

/-- The sign of a number is a token. -/
theorem signed_eq (cursor : Cursor) (signed : Bool) :
    ∃ count ≤ cursor.rest.length,
      (if signed then (cursor.strip? ['n']).getD cursor else cursor) = cursor.skip count ∧
      ∀ byte ∈ cursor.rest.take count, Ascii byte := by
  have unsigned : ∃ count ≤ cursor.rest.length, cursor = cursor.skip count ∧
      ∀ byte ∈ cursor.rest.take count, Ascii byte := ⟨0, Nat.zero_le _, rfl, by simp⟩
  cases signed with
  | false => exact unsigned
  | true =>
    cases h : cursor.strip? ['n'] with
    | none => exact unsigned
    | some after =>
      obtain ⟨fits, rfl⟩ := strip?_eq_some h
      exact ⟨1, fits, rfl, ascii_of_strip? (List.forall_mem_singleton.mpr (by decide)) h⟩

end Cursor

variable {symbol : ByteArray} {s : ParseState} {α β : Type}

namespace ParseState.Grounded

/-- ASCII bytes are a text. -/
theorem whole_span (h : s.Grounded symbol) {count : Nat} (pos : 0 < count)
    (fits : count ≤ s.cursor.rest.length)
    (ascii : ∀ byte ∈ s.cursor.rest.take count, Ascii byte) (offset : Nat) :
    Text.Whole symbol offset (.span s.cursor.offset (s.cursor.offset + count)) := by
  have moved : Move symbol s { s with cursor := s.cursor.skip count } := .read count fits ascii
  have behind : Boundary symbol (s.cursor.offset + count) := h.boundary_skip pos fits ascii
  exact ⟨Nat.le_add_right _ _, moved.boundary h behind, fun _ => behind⟩

end ParseState.Grounded

namespace Leads

variable {Q : α → ParseState → Prop}

/-- A look at the state changes nothing. -/
theorem get_bind {f : ParseState → Parse β} {R : β → ParseState → Prop}
    (h : Leads symbol (f s) s R) : Leads symbol (MonadState.get >>= f) s R := by
  refine bind (Q := fun a t => a = s ∧ t = s) (get ⟨rfl, rfl⟩) ?_
  rintro _ _ - - ⟨rfl, rfl⟩
  exact h

theorem unexpected {Q : α → ParseState → Prop} : Leads symbol Parse.unexpected s Q := by
  refine bind (Q := fun _ _ => True) (get_bind (pure trivial)) ?_
  intro _ _ _ _ _
  exact ite (fun _ => throw _) fun _ => throw _

/-- Behind a test that fails otherwise the test held. -/
theorem ensure_bind {held : Bool} {otherwise : Parse Unit} {f : Unit → Parse β}
    {R : β → ParseState → Prop} (fails : Leads symbol otherwise s fun _ _ => False)
    (h : held = true → Leads symbol (f ()) s R) :
    Leads symbol (Parse.ensure held otherwise >>= f) s R := by
  cases held with
  | true => exact bind (Q := fun _ t => t = s) (pure rfl) fun _ _ _ _ same => same ▸ h rfl
  | false =>
    apply fails.bind
    intro _ _ _ _ never
    exact never.elim

theorem orFault {value : Option α} {fault : Fault} (h : ∀ a, value = some a → Q a s) :
    Leads symbol (Parse.orFault value fault) s Q := by
  cases value with
  | none => exact throw fault
  | some a => exact pure (h a rfl)

theorem orFault_bind {value : Option α} {fault : Fault} {f : α → Parse β}
    {R : β → ParseState → Prop} (h : ∀ a, value = some a → Leads symbol (f a) s R) :
    Leads symbol (Parse.orFault value fault >>= f) s R := by
  refine bind (Q := fun a t => value = some a ∧ t = s) (orFault fun a same => ⟨same, rfl⟩) ?_
  rintro a _ - - ⟨same, rfl⟩
  exact h a same

theorem peekAt_bind (distance : Nat) {f : Char → Parse β} {R : β → ParseState → Prop}
    (h : ∀ char, s.cursor.peekAt distance = char → Leads symbol (f char) s R) :
    Leads symbol (Parse.peekAt distance >>= f) s R := by
  refine bind (Q := fun a t => s.cursor.peekAt distance = a ∧ t = s)
    (get_bind (pure ⟨rfl, rfl⟩)) ?_
  rintro char _ - - ⟨look, rfl⟩
  exact h char look

theorem peek_bind {f : Char → Parse β} {R : β → ParseState → Prop}
    (h : ∀ char, s.cursor.peekAt 0 = char → Leads symbol (f char) s R) :
    Leads symbol (Parse.peek >>= f) s R :=
  peekAt_bind 0 h

theorem peekPair_bind {f : Char × Char → Parse β} {R : β → ParseState → Prop}
    (h : ∀ first second, s.cursor.peekAt 0 = first → s.cursor.peekAt 1 = second →
      Leads symbol (f (first, second)) s R) :
    Leads symbol (Parse.peekPair >>= f) s R := by
  refine bind (Q := fun a t => s.cursor.peekAt 0 = a.1 ∧ s.cursor.peekAt 1 = a.2 ∧ t = s)
    (get_bind (pure ⟨rfl, rfl, rfl⟩)) ?_
  rintro ⟨first, second⟩ _ - - ⟨look, look', rfl⟩
  exact h first second look look'

/-- Letters that were looked at can be moved over. -/
theorem advance (count : Nat) (letters : ∀ distance < count, Letter (s.cursor.peekAt distance)) :
    Leads symbol (Parse.advance count) s fun _ t =>
      0 < count → Boundary symbol t.cursor.offset := by
  intro ground
  obtain ⟨fits, ascii⟩ := Cursor.ascii_of_letters letters
  have moved : Move symbol s { s with cursor := s.cursor.advance count } := by
    rw [Cursor.advance_eq fits]
    exact .read count fits ascii
  refine modified (.one moved) (fun pos => ?_) ground
  rw [Cursor.advance_eq fits]
  exact ground.boundary_skip pos fits ascii

theorem advance_one {char : Char} (look : s.cursor.peekAt 0 = char) (letter : Letter char) :
    Leads symbol (Parse.advance 1) s fun _ _ => True := by
  refine (advance 1 fun distance lt => ?_).weaken fun _ _ _ _ => trivial
  obtain rfl : distance = 0 := by omega
  rwa [look]

/-- Behind two letters stands a boundary of characters. -/
theorem advance_two {first second : Char} (look : s.cursor.peekAt 0 = first)
    (look' : s.cursor.peekAt 1 = second) (letter : Letter first) (letter' : Letter second) :
    Leads symbol (Parse.advance 2) s fun _ t => Boundary symbol t.cursor.offset := by
  refine (advance 2 fun distance lt => ?_).weaken fun _ _ _ h => h (by decide)
  obtain rfl | rfl : distance = 0 ∨ distance = 1 := by omega
  · rwa [look]
  · rwa [look']

/-- A token that is not accepted leaves the state as it was. -/
theorem accept {token : String} (ascii : AsciiToken token) :
    Leads symbol (Parse.accept token) s fun taken t => taken = false → t = s := by
  refine step ?_
  intro taken t hr
  cases h : s.cursor.strip? token.toList with
  | none =>
    rw [h] at hr
    cases hr
    exact ⟨.refl s, fun _ => rfl⟩
  | some cursor =>
    rw [h] at hr
    cases hr
    obtain ⟨fits, rfl⟩ := Cursor.strip?_eq_some h
    exact ⟨.one (.read _ fits (Cursor.ascii_of_strip? ascii h)), nofun⟩

/-- A whole node can be stored anywhere on the course. -/
theorem make {node : Node} (whole : node.Whole symbol s.cursor.offset)
    (ready : ∀ index, node ≠ .forwardParam index none) :
    Leads symbol (Parse.make node) s fun _ _ => True := by
  refine step ?_
  intro id t hr
  cases hr
  exact ⟨.one (.make node whole ready), trivial⟩

/-- A node with one text, which is no bit pattern. -/
theorem make_text {node : Node} {words : Text} (whole : words.Whole symbol s.cursor.offset)
    (one : node.texts = [words]) (integral : ∀ format, node ≠ .float format words) :
    Leads symbol (Parse.make node) s fun _ _ => True := by
  refine make (.of_text one integral whole) ?_
  rintro index rfl
  cases one

theorem make_name {words : Text} (whole : words.Whole symbol s.cursor.offset) :
    Leads symbol (Parse.make (.name words)) s fun _ _ => True :=
  make_text whole rfl nofun

/-- A text between two characters, or one whose end the parse has to reach first. -/
theorem number (signed : Bool) :
    Leads symbol (Parse.number signed) s fun words t => words.Whole symbol t.cursor.offset ∧
      (Boundary symbol s.cursor.offset → Boundary symbol t.cursor.offset) := by
  intro ground
  refine step (fun words t hr => ?_) ground
  obtain ⟨count, fits, hsigned, ascii⟩ := s.cursor.signed_eq signed
  obtain ⟨fits', hbehind⟩ := (s.cursor.skip count).spanWhile_eq Number.isDigit
  have ascii' := Cursor.ascii_of_spanWhile (fun _ => Number.ascii_of_isDigit) (s.cursor.skip count)
  simp only [hsigned] at hr
  generalize (s.cursor.skip count).spanWhile Number.isDigit = r at *
  obtain ⟨run, behind⟩ := r
  cases run with
  | nil =>
    cases hr
    exact ⟨.refl s, trivial, id⟩
  | cons digit run =>
    cases hr
    dsimp only at fits' hbehind ascii'
    rw [hbehind, Cursor.skip_skip]
    have both : count + (digit :: run).length ≤ s.cursor.rest.length := by
      simp only [Cursor.skip, List.length_drop] at fits'
      omega
    have all := Cursor.ascii_add ascii ascii'
    have pos : 0 < count + (digit :: run).length := Nat.add_pos_right count (Nat.succ_pos _)
    exact ⟨.one (.read _ both all), ground.whole_span pos both all _,
      fun _ => ground.boundary_skip pos both all⟩

/-- Digits that are there end between two characters. -/
theorem value (base : Nat) {property : UInt8 → Bool}
    (ascii : ∀ byte, property byte = true → Ascii byte) :
    Leads symbol (Parse.value base property) s fun _ t => Boundary symbol t.cursor.offset := by
  intro ground
  refine bind (Q := fun run t => run ≠ [] → Boundary symbol t.cursor.offset)
    (step fun run t hr => ?_) (fun run t _ _ behind => ?_) ground
  · obtain ⟨fits, hbehind⟩ := s.cursor.spanWhile_eq property
    have all := Cursor.ascii_of_spanWhile ascii s.cursor
    generalize s.cursor.spanWhile property = r at *
    obtain ⟨run, behind⟩ := r
    cases hr
    dsimp only at fits all hbehind
    obtain rfl := hbehind
    exact ⟨.one (.read _ fits all), fun some => ground.boundary_skip
      (List.length_pos_iff.mpr some) fits all⟩
  · split
    · exact unexpected
    · exact orFault fun _ _ => behind ‹_›

theorem decimal : Leads symbol Parse.decimal s fun _ t => Boundary symbol t.cursor.offset :=
  value 10 fun _ => Number.ascii_of_isDigit

/-- What a number counts is cut between two characters, if the parse goes on from there. -/
theorem identifierFrom :
    Leads symbol Parse.identifierFrom s fun r t => r.1.Whole symbol t.cursor.offset := by
  apply decimal.bind
  intro length t ground _ start
  apply ensure_bind (throw _)
  intro _
  refine get_bind (orFault_bind fun behind hbehind => ?_)
  obtain ⟨fits, rfl⟩ := (Cursor.take?_eq_some_iff _ _ _).mp hbehind
  refine bind (modified (Q := fun _ u => u.cursor = t.cursor.skip length) ?_ rfl) ?_
  · exact .one (.take length fits start)
  · intro _ u _ _ same
    refine pure ⟨Nat.le_add_right _ _, start, fun h => ?_⟩
    rwa [same] at h

theorem identifier :
    Leads symbol Parse.identifier s fun words t => words.Whole symbol t.cursor.offset := by
  apply identifierFrom.bind
  intro _ _ _ _ whole
  exact pure whole

/-- Everything that is left, behind a byte that was looked at. -/
theorem remainder {char : Char} (look : s.cursor.peekAt 0 = char) (letter : Letter char) :
    Leads symbol Parse.remainder s fun words t => words.Whole symbol t.cursor.offset := by
  intro ground
  refine step (fun words t hr => ?_) ground
  obtain ⟨byte, hbyte, ascii⟩ := Cursor.getElem?_of_letter (look ▸ letter)
  have start := ground.boundary hbyte ascii
  obtain ⟨fits, hbehind⟩ := s.cursor.spanWhile_eq fun _ => true
  generalize s.cursor.spanWhile (fun _ => true) = r at *
  obtain ⟨run, behind⟩ := r
  cases hr
  dsimp only at fits hbehind
  obtain rfl := hbehind
  exact ⟨.one (.take _ fits start), Nat.le_add_right _ _, start, id⟩

end Leads

namespace OnCourse

theorem unexpected : OnCourse symbol (Parse.unexpected : Parse α) :=
  fun _ => .unexpected

theorem accept {token : String} (ascii : AsciiToken token) :
    OnCourse symbol (Parse.accept token) :=
  fun _ => (Leads.accept ascii).weaken fun _ _ _ _ => trivial

theorem expect {token : String} (ascii : AsciiToken token) :
    OnCourse symbol (Parse.expect token) := by
  apply (accept ascii).bind
  intro held
  exact ensure unexpected

theorem lookingAt (token : String) : OnCourse symbol (Parse.lookingAt token) := by
  apply get.bind
  intro s
  exact pure _

theorem atEnd : OnCourse symbol Parse.atEnd := by
  apply get.bind
  intro s
  exact pure _

theorem atEncodingEnd : OnCourse symbol Parse.atEncodingEnd := by
  apply get.bind
  intro s
  split
  · exact pure _
  · exact pure _

theorem peek : OnCourse symbol Parse.peek := by
  apply get.bind
  intro s
  exact pure _

theorem number (signed : Bool) : OnCourse symbol (Parse.number signed) :=
  fun _ => (Leads.number signed).weaken fun _ _ _ _ => trivial

theorem seqId : OnCourse symbol Parse.seqId :=
  fun _ => (Leads.value 36 fun _ => Number.ascii_of_isSeqDigit).weaken fun _ _ _ _ => trivial

theorem decimal : OnCourse symbol Parse.decimal :=
  fun _ => Leads.decimal.weaken fun _ _ _ _ => trivial

/-- A node without text that does not wait. -/
theorem make {node : Node} (none : node.texts = []) (ready : ∀ index, node ≠ .forwardParam index .none) :
    OnCourse symbol (Parse.make node) :=
  fun _ => .make (.of_texts_eq_nil none) ready

theorem makeList (ids : Array NodeId) : OnCourse symbol (Parse.makeList ids) := by
  refine fun s => .step fun list t hr => ?_
  cases hr
  exact ⟨.one (.makeList ids), trivial⟩

theorem makeName (words : String) : OnCourse symbol (Parse.makeName words) :=
  fun _ => .make_name trivial

theorem node (id : NodeId) : OnCourse symbol (Parse.node id) := by
  rintro s - _ _ ⟨⟩
  refine ⟨.refl s, trivial, ?_⟩
  rintro u ⟨⟩

theorem enlist (id : NodeId) : OnCourse symbol (Parse.enlist id) := by
  refine fun s => .step fun _ t hr => ?_
  split at hr
  · cases hr
  · cases hr
    exact ⟨.one (.aside rfl rfl rfl), trivial⟩

theorem delist : OnCourse symbol Parse.delist := by
  apply get.bind
  intro s
  apply (orFault _ _).bind
  intro value
  exact modified ⟨fun _ => rfl, fun _ => rfl, fun _ => rfl⟩

theorem listed (index : Nat) : OnCourse symbol (Parse.listed index) := by
  apply get.bind
  intro s
  exact orFault _ _

theorem addArgument (id : NodeId) : OnCourse symbol (Parse.addArgument id) := by
  refine fun s => .step fun _ t hr => ?_
  cases hr
  exact ⟨.one (.aside rfl rfl rfl), trivial⟩

theorem setScopes (scopes : TemplateScopes) : OnCourse symbol (Parse.setScopes scopes) :=
  modified ⟨fun _ => rfl, fun _ => rfl, fun _ => rfl⟩

theorem setLevels (levels : Array ScopeLevel) : OnCourse symbol (Parse.setLevels levels) :=
  modified ⟨fun _ => rfl, fun _ => rfl, fun _ => rfl⟩

theorem learn (tracked : Bool) (change : NameFacts → NameFacts) :
    OnCourse symbol (Parse.learn tracked change) := by
  refine ite ?_ (pure ())
  exact modified ⟨fun _ => rfl, fun _ => rfl, fun _ => rfl⟩

theorem qualifiers : OnCourse symbol Parse.qualifiers := by
  apply (accept (by decide)).bind
  intro held
  apply (accept (by decide)).bind
  intro held
  apply (accept (by decide)).bind
  intro held
  exact pure _

theorem nodesUntil {token : String} (ascii : AsciiToken token) {item : Parse NodeId}
    (hitem : OnCourse symbol item) : OnCourse symbol (Parse.nodesUntil token item) :=
  moreNodes (accept ascii) hitem #[]

/-- What only looked like a number is given back. -/
theorem skipDiscriminator : OnCourse symbol Parse.skipDiscriminator := by
  intro s
  refine .peek_bind ?_
  intro first look
  refine .ite (fun _ => .pure trivial) fun isMark => ?_
  obtain rfl : first = '_' := by simpa using isMark
  refine .get_bind (.peekAt_bind 1 fun second look' => .ite (fun isDigit => ?_) fun _ => ?_)
  · exact (Leads.advance_two look look' (by decide) (.of_isDigit isDigit)).weaken
      fun _ _ _ _ => trivial
  · refine .ite (fun isMark' => ?_) fun _ => .pure trivial
    obtain rfl : second = '_' := by simpa using isMark'
    intro ground
    refine Leads.bind (Leads.advance_two look look' (by decide) (by decide)) ?_ ground
    intro _ t _ _ behind
    apply (Leads.number false).bind
    intro words u _ _ known
    have behind := known.2 behind
    refine Leads.bind (Q := fun closed v => closed = false → v = u) ?_ fun closed v _ _ same => ?_
    · exact .ite (fun _ => .pure fun _ => rfl) fun _ => .accept (by decide)
    · cases closed with
      | true => exact .pure trivial
      | false =>
        obtain rfl := same rfl
        exact .modified (.one (.back s.cursor ground.rest ground.stop behind)) trivial

end OnCourse
end Unmangle
