import Mathlib
import Unmangle.Yaml.Lexeme

/-!
# Scalars of one line

A word is a scalar as it stands, wherever in a block it is written. Between quotes nearly everything
may stand, of which the letters of names are enough here. Behind a scalar comes a colon, or the end
of its line and the indentation of the next one.
-/
namespace Unmangle.Yaml

/-- Characters that begin no other token if something follows, and are no mark of the byte order. -/
def beginsWord (c : Char) : Bool :=
  match c with
  | '[' | ']' | '\x7b' | '\x7d' | ',' | '*' | '&' | '!' | '|' | '>' | '\'' | '"' | '#' | '%' | '@'
  | '\x60' | '\uFEFF' => false
  | _ => true

def continuesWord (c : Char) : Bool :=
  isPrintable c && !isBlank c && !isBreak c

/-- A plain scalar without gaps, if it does not end with what has a meaning in front of one. -/
structure Word where
  letters : List Char
  begins : letters.head?.any beginsWord = true
  continues : letters.all continuesWord = true
  deriving DecidableEq

/-- The word ends where something follows it. No colon may stand in front of a gap, and neither a
dash nor a question mark by itself. -/
def Word.EndsAt (word : Word) (ending : List Char) : Prop :=
  atGap ending = true →
    word.letters.getLast? ≠ some ':' ∧ word.letters ≠ ['-'] ∧ word.letters ≠ ['?']

def atToken : List Char → Bool
  | [] => true
  | c :: _ => !isBlank c && !isBreak c && c != '#'

namespace Source

theorem byteLength_eq_sum (run : List Char) : byteLength run = (run.map Char.utf8Size).sum := by
  rw [List.sum_eq_foldl_nat, List.foldl_map, byteLength]

theorem byteLength_append (run run' : List Char) :
    byteLength (run ++ run') = byteLength run + byteLength run' := by
  simp only [byteLength_eq_sum, List.map_append, List.sum_append]

variable {source : Source} {rest run : List Char}

theorem skip_skip (source : Source) (n m : Nat) :
    (source.skip n).skip m = source.skip (n + m) := by
  simp only [skip, List.drop_drop, List.take_add, byteLength_append, Nat.add_assoc]

theorem skip_append (here : source.rest = run ++ rest) :
    (source.skip run.length).rest = rest := by
  rw [skip, here, List.drop_left]

theorem skip_indentation (count offset line : Nat) (rest : List Char) :
    skip ⟨List.replicate count ' ' ++ rest, offset, line, 0⟩ count =
      ⟨rest, offset + count, line, count⟩ := by
  have front : (List.replicate count ' ' ++ rest).take count = List.replicate count ' ' := by simp
  have bytes : byteLength (List.replicate count ' ') = count := by
    rw [byteLength_eq_sum, List.map_replicate, List.sum_replicate_nat]
    exact Nat.mul_one count
  rw [skip, front, bytes, Nat.zero_add]
  simp

theorem break?_newline (here : source.rest = '\n' :: rest) :
    source.break? = some ('\n', ⟨rest, source.offset + 1, source.line + 1, 0⟩) := by
  rw [break?, here]
  rfl

/-- The mark of a document begins its line. -/
theorem documentMark?_of_column (column : source.column ≠ 0) : source.documentMark? = none :=
  if_neg fun here => column here.1

theorem break?_of_atToken (token : atToken source.rest = true) : source.break? = none := by
  unfold break?
  split
  · rename_i rest here
    rw [here] at token
    cases token
  · rename_i c rest _ here
    rw [here] at token
    simp only [atToken, Bool.and_eq_true, Bool.not_eq_true'] at token
    rw [if_neg (by simp [token])]
  · rfl

theorem next?_ne_comment (token : atToken source.rest = true) : source.next? ≠ some '#' := by
  intro comment
  obtain ⟨rest, here⟩ := List.head?_eq_some_iff.mp comment
  rw [here] at token
  simp [atToken] at token

theorem skipWhile_indentation {property : Char → Bool} {count : Nat}
    (here : source.rest = List.replicate count ' ' ++ rest)
    (blank : property ' ' = true) (token : rest.head?.all (!property ·) = true) :
    source.skipWhile property = source.skip count := by
  have run : (List.replicate count ' ' ++ rest).takeWhile property = List.replicate count ' ' := by
    rw [List.takeWhile_append_of_pos fun c member => (List.eq_of_mem_replicate member) ▸ blank]
    cases rest with
    | nil => rw [List.takeWhile_nil, List.append_nil]
    | cons c rest =>
      have other : ¬property c = true := Bool.not_eq_true _ ▸ Bool.not_eq_true' _ ▸ token
      rw [List.takeWhile_cons_of_neg other, List.append_nil]
  rw [skipWhile, span, here, run, List.length_replicate]

end Source

namespace Gap

variable {source : Source} {rest : List Char}

/-- Blanks in front of a later line are passed over. -/
theorem readWithin_indentation {indent : Int} {first : Option Char} {more : List Char}
    {count rounds : Nat} (here : source.rest = List.replicate count ' ' ++ rest)
    (token : atToken rest = true) (enough : count < rounds) :
    readWithin indent rounds (.breaks first more) source =
      some (.breaks first more, source.skip count) := by
  obtain ⟨rounds, rfl⟩ : ∃ n, rounds = n + 1 := ⟨rounds - 1, by omega⟩
  induction count generalizing source rounds with
  | zero =>
    have here : source.rest = rest := here
    rw [readWithin, Source.break?_of_atToken (here ▸ token), Source.next?, here]
    cases rest with
    | nil => rfl
    | cons c rest =>
      simp only [atToken, isBlank, Bool.and_eq_true, Bool.not_eq_true', Bool.or_eq_false_iff,
        beq_eq_false_iff_ne] at token
      simp only [List.head?_cons]
      split
      · rename_i blank
        exact absurd (Option.some.inj blank) token.1.1.1
      · rename_i blank
        exact absurd (Option.some.inj blank) token.1.1.2
      · rfl
  | succ count ih =>
    obtain ⟨rounds, rfl⟩ : ∃ n, rounds = n + 1 := ⟨rounds - 1, by omega⟩
    have here : source.rest = ' ' :: (List.replicate count ' ' ++ rest) := here
    have blank : source.break? = none := by
      rw [Source.break?, here]
      rfl
    have behind : (source.skip 1).rest = List.replicate count ' ' ++ rest := by
      rw [Source.skip, here]
      rfl
    rw [readWithin, blank, Source.next?, here]
    refine (ih behind rounds (by omega)).trans ?_
    rw [Source.skip_skip, Nat.add_comm]

end Gap

namespace Word

variable {word : Word} {source : Source} {ending more : List Char}

/-- A word begins with a letter that may begin one. -/
theorem letters_eq_cons (word : Word) :
    ∃ c rest, word.letters = c :: rest ∧ beginsWord c = true := by
  have begins := word.begins
  cases letters : word.letters with
  | nil =>
    rw [letters] at begins
    cases begins
  | cons c rest =>
    rw [letters] at begins
    exact ⟨c, rest, rfl, begins⟩

theorem length_letters_pos (word : Word) : 0 < word.letters.length := by
  obtain ⟨c, rest, letters, -⟩ := word.letters_eq_cons
  rw [letters]
  exact Nat.succ_pos _

theorem continues_of_mem (word : Word) {c : Char} (member : c ∈ word.letters) :
    continuesWord c = true :=
  List.all_eq_true.mp word.continues c member

theorem atGap_of_continues {c : Char} (continues : continuesWord c = true) (rest : List Char) :
    atGap (c :: rest) = false := by
  simp only [continuesWord, Bool.and_eq_true, Bool.not_eq_true'] at continues
  simp [atGap, continues]

theorem endsWord_of_continues {c : Char} (continues : continuesWord c = true) {rest : List Char}
    (colon : c = ':' → atGap rest = false) : endsWord false (c :: rest) = false := by
  simp only [continuesWord, Bool.and_eq_true, Bool.not_eq_true'] at continues
  by_cases same : c = ':'
  · simp [endsWord, continues, colon same]
  · simp [endsWord, continues, same]

theorem plainWord?_cons (c : Char) (rest : List Char) :
    plainWord? false (c :: rest) =
      if endsWord false (c :: rest) then some [] else (plainWord? false rest).map (c :: ·) := by
  cases rest <;> rfl

/-- A word is taken up to where it ends. -/
theorem plainWord?_append {run : List Char} (continues : run.all continuesWord = true)
    (closed : run.getLast? = some ':' → atGap ending = false)
    (ends : endsWord false ending = true) : plainWord? false (run ++ ending) = some run := by
  induction run with
  | nil =>
    cases ending with
    | nil => rfl
    | cons c rest => rw [List.nil_append, plainWord?_cons, if_pos ends]
  | cons c run ih =>
    obtain ⟨first, continues⟩ := Bool.and_eq_true_iff.mp continues
    have goes : endsWord false (c :: (run ++ ending)) = false := by
      refine endsWord_of_continues first ?_
      intro colon
      cases run with
      | nil => exact closed (congrArg some colon)
      | cons d run => exact atGap_of_continues (Bool.and_eq_true_iff.mp continues).1 _
    have closed (colon : run.getLast? = some ':') : atGap ending = false := by
      cases run with
      | nil => cases colon
      | cons d run => exact closed colon
    rw [List.cons_append, plainWord?_cons, if_neg (by simp [goes]), ih continues closed,
      Option.map_some]

/-- Behind three marks in front of a colon there is no gap. -/
theorem not_atGap_drop {mark : Char} (other : mark ≠ ':')
    (marks : (word.letters ++ ':' :: more).take 3 = [mark, mark, mark]) :
    atGap ((word.letters ++ ':' :: more).drop 3) = false := by
  match letters : word.letters with
  | [] | [_] | [_, _] =>
    rw [letters] at marks
    simp only [List.nil_append, List.cons_append, List.take_succ_cons, List.cons.injEq] at marks
    grind
  | [_, _, _] => rfl
  | _ :: _ :: _ :: c :: rest =>
    have member : c ∈ word.letters := by simp [letters]
    exact atGap_of_continues (word.continues_of_mem member) _

/-- A key is no mark of a document. -/
theorem documentMark?_of_key (here : source.rest = word.letters ++ ':' :: more) :
    source.documentMark? = none := by
  unfold Source.documentMark?
  split
  · rename_i gap
    have gap : atGap ((word.letters ++ ':' :: more).drop 3) = true := here ▸ gap.2
    split
    · rename_i marks
      rw [not_atGap_drop (by decide) (here ▸ marks)] at gap
      cases gap
    · split
      · rename_i marks
        rw [not_atGap_drop (by decide) (here ▸ marks)] at gap
        cases gap
      · rfl
  · rfl

theorem atToken_append (word : Word) (rest : List Char) :
    atToken (word.letters ++ rest) = true := by
  obtain ⟨c, rest', letters, begins⟩ := word.letters_eq_cons
  have continues : continuesWord c = true := word.continues_of_mem (by simp [letters])
  have comment : c ≠ '#' := by
    rintro rfl
    cases begins
  simp only [continuesWord, Bool.and_eq_true, Bool.not_eq_true'] at continues
  simp [letters, atToken, continues, comment]

/-- The first letter of a word begins a plain scalar. -/
theorem token_eq (word : Word) (layout : Layout)
    (here : layout.source.rest = word.letters ++ ending) (ends : word.EndsAt ending)
    (outside : layout.inFlow = false) (mark : layout.source.documentMark? = none) :
    ∃ c, layout.source.next? = some c ∧ layout.token c = layout.plainToken := by
  obtain ⟨c, rest, letters, begins⟩ := word.letters_eq_cons
  have continues : continuesWord c = true := word.continues_of_mem (by simp [letters])
  have tight (special : c = '-' ∨ c = '?' ∨ c = ':') : layout.source.gapAt 1 = false := by
    rw [Source.gapAt, here, letters]
    cases rest with
    | nil =>
      refine Bool.eq_false_iff.mpr ?_
      intro gap
      obtain ⟨colon, dash, mark⟩ := ends gap
      rw [letters] at colon dash mark
      rcases special with rfl | rfl | rfl
      · exact dash rfl
      · exact mark rfl
      · exact colon rfl
    | cons d rest =>
      have member : d ∈ word.letters := by simp [letters]
      exact atGap_of_continues (word.continues_of_mem member) _
  refine ⟨c, by rw [Source.next?, here, letters]; rfl, ?_⟩
  have directive : ¬(layout.source.column = 0 ∧ c = '%') := by
    rintro ⟨-, rfl⟩
    cases begins
  rw [Layout.token, if_neg directive, mark]
  show layout.tokenOf c = layout.plainToken
  -- three letters begin a token of their own only with a gap behind them
  by_cases dash : c = '-'
  · subst dash
    exact if_neg (Bool.eq_false_iff.mp (tight (.inl rfl)))
  by_cases mark : c = '?'
  · subst mark
    apply if_neg
    rw [outside, tight (.inr (.inl rfl))]
    decide
  by_cases colon : c = ':'
  · subst colon
    apply if_neg
    rw [outside, tight (.inr (.inr rfl))]
    decide
  unfold Layout.tokenOf
  split <;> first | rfl | contradiction

/-- A word in front of a colon is read without what follows it. -/
theorem plainScalar?_key {indent : Int} (here : source.rest = word.letters ++ ':' :: more)
    (gap : atGap more = true) :
    plainScalar? false indent source =
      some ⟨word.letters, .blanks [], source.skip word.letters.length⟩ := by
  have ends : endsWord false (':' :: more) = true := by simp [endsWord, gap]
  have words : plainWord? false source.rest = some word.letters :=
    here ▸ plainWord?_append word.continues (fun _ => rfl) ends
  have behind := Source.skip_append here
  have colon : (source.skip word.letters.length).gapAt 0 = false := by
    rw [Source.gapAt, behind]
    rfl
  have comment := Source.next?_ne_comment (here ▸ word.atToken_append _)
  rw [plainScalar?, plainWithin, documentMark?_of_key here, if_neg (by simp [comment]), words]
  exact if_pos (.inr (by rw [colon]; rfl))

/-- A word at the end of a line is read with the indentation of the next one. -/
theorem plainScalar?_value {count : Nat} {indent : Int}
    (here : source.rest = word.letters ++ '\n' :: (List.replicate count ' ' ++ more))
    (closed : word.letters.getLast? ≠ some ':') (column : source.column ≠ 0)
    (token : Yaml.atToken more = true) (out : count < indent) :
    ∃ offset, plainScalar? false indent source =
      some ⟨word.letters, .breaks (some '\n') [], ⟨more, offset, source.line + 1, count⟩⟩ := by
  let behind := source.skip word.letters.length
  have here_behind : behind.rest = '\n' :: (List.replicate count ' ' ++ more) :=
    Source.skip_append here
  have gap : Gap.read indent (.blanks []) behind =
      some (.breaks (some '\n') [], ⟨more, behind.offset + 1 + count, source.line + 1, count⟩) := by
    rw [Gap.read, here_behind, Gap.readWithin, Source.break?_newline here_behind,
      ← Source.skip_indentation]
    refine Gap.readWithin_indentation rfl token ?_
    rw [List.length_cons, List.length_append, List.length_replicate]
    omega
  have comment := Source.next?_ne_comment (here ▸ word.atToken_append _)
  have words : plainWord? false source.rest = some word.letters :=
    here ▸ plainWord?_append word.continues (fun colon => absurd colon closed) rfl
  have more : ¬(behind.rest.isEmpty = true ∨ (!behind.gapAt 0) = true) := by
    rw [Source.gapAt, here_behind]
    exact fun ends => ends.elim nofun nofun
  refine ⟨behind.offset + 1 + count, ?_⟩
  rw [plainScalar?, plainWithin, Source.documentMark?_of_column column, if_neg (by simp [comment]),
    words]
  show (if behind.rest.isEmpty = true ∨ (!behind.gapAt 0) = true then _ else _) = _
  rw [if_neg more, gap]
  exact if_pos ⟨rfl, out⟩

end Word

/-! ## Letters of names -/

theorem ne_of_isWord {c d : Char} (letter : isWord c = true) (other : isWord d = false) :
    c ≠ d := by
  rintro rfl
  rw [letter] at other
  cases other

theorem not_isBlank_of_isWord {c : Char} (letter : isWord c = true) : isBlank c = false := by
  simp [isBlank, ne_of_isWord letter (show isWord ' ' = false by decide),
    ne_of_isWord letter (show isWord '\t' = false by decide)]

theorem not_isBreak_of_isWord {c : Char} (letter : isWord c = true) : isBreak c = false := by
  simp [isBreak, ne_of_isWord letter (show isWord '\n' = false by decide),
    ne_of_isWord letter (show isWord '\r' = false by decide),
    ne_of_isWord letter (show isWord '\u0085' = false by decide),
    ne_of_isWord letter (show isWord '\u2028' = false by decide),
    ne_of_isWord letter (show isWord '\u2029' = false by decide)]

theorem isPrintable_of_isWord {c : Char} (letter : isWord c = true) : isPrintable c = true := by
  have bounds : 0x20 ≤ c.toNat ∧ c.toNat ≤ 0x7e := by
    simp only [isWord, Char.isAlphanum, Char.isAlpha, Char.isUpper, Char.isLower, Char.isDigit,
      Bool.or_eq_true, Bool.and_eq_true, decide_eq_true_eq, beq_iff_eq, ge_iff_le,
      UInt32.le_iff_toNat_le] at letter
    rcases letter with (((letter | letter) | letter) | rfl) | rfl
    case inr | inl.inr => decide
    all_goals exact ⟨Nat.le_trans (by decide) letter.1, Nat.le_trans letter.2 (by decide)⟩
  simp [isPrintable, bounds]

theorem continuesWord_of_isWord {c : Char} (letter : isWord c = true) :
    continuesWord c = true := by
  simp [continuesWord, isPrintable_of_isWord letter, not_isBlank_of_isWord letter,
    not_isBreak_of_isWord letter]

theorem beginsWord_of_isWord {c : Char} (letter : isWord c = true) : beginsWord c = true := by
  unfold beginsWord
  split <;> first | rfl | exact absurd letter (by decide)

/-- Letters of names are a word. -/
def Word.ofLetters (letters : List Char) (bare : letters.all isWord = true) (some : letters ≠ []) :
    Word where
  letters := letters
  begins := by
    cases letters with
    | nil => exact absurd rfl some
    | cons c rest => exact beginsWord_of_isWord (Bool.and_eq_true_iff.mp bare).1
  continues := List.all_eq_true.mpr fun c member =>
    continuesWord_of_isWord (List.all_eq_true.mp bare c member)

/-! ## Between quotes -/

section Quoted

variable {source : Source} {quote : Quote} {letters rest : List Char}

theorem quotedPiece?_letter {c : Char} (here : source.rest = c :: rest)
    (column : source.column ≠ 0) (letter : isWord c = true) :
    quotedPiece? quote source = some (.text [c], source.skip 1) := by
  have close : (c == quote.char) = false :=
    beq_false_of_ne (ne_of_isWord letter (by cases quote <;> decide))
  have escape : ¬(quote = .double ∧ c = '\\') := fun both =>
    ne_of_isWord letter (show isWord '\\' = false by decide) both.2
  rw [quotedPiece?, Source.documentMark?_of_column column, here]
  simp [close, not_isBlank_of_isWord letter, not_isBreak_of_isWord letter, escape]

theorem quotedPiece?_close (here : source.rest = quote.char :: rest) (column : source.column ≠ 0)
    (single : rest.head? ≠ some '\'') :
    quotedPiece? quote source = some (.close, source.skip 1) := by
  rw [quotedPiece?, Source.documentMark?_of_column column, here]
  simp [single]

/-- A quoted word is taken up to its closing quote. -/
theorem quotedWithin_append {rounds : Nat} (here : source.rest = letters ++ quote.char :: rest)
    (column : source.column ≠ 0) (bare : letters.all isWord = true)
    (single : rest.head? ≠ some '\'') (enough : letters.length < rounds) :
    quotedWithin quote rounds source = some (letters, source.skip (letters.length + 1)) := by
  obtain ⟨rounds, rfl⟩ : ∃ n, rounds = n + 1 := ⟨rounds - 1, by omega⟩
  induction letters generalizing source rounds with
  | nil =>
    rw [quotedWithin, quotedPiece?_close here column single]
    rfl
  | cons c letters ih =>
    obtain ⟨rounds, rfl⟩ : ∃ n, rounds = n + 1 := ⟨rounds - 1, by
      rw [List.length_cons] at enough
      omega⟩
    obtain ⟨letter, bare⟩ := Bool.and_eq_true_iff.mp bare
    have behind : (source.skip 1).rest = letters ++ quote.char :: rest := by
      rw [Source.skip, here]
      rfl
    have more := ih behind (Nat.succ_ne_zero _) bare rounds (Nat.lt_of_succ_lt_succ enough)
    rw [quotedWithin, quotedPiece?_letter here column letter]
    simp [more, Source.skip_skip, Nat.add_comm]

end Quoted

/-! ## Behind a colon -/

/-- A scalar as it stands behind a colon, at the end of a line. -/
inductive Scalar
  | plain (word : Word) (ends : word.EndsAt [])
  | quoted (quote : Quote) (letters : List Char) (bare : letters.all isWord = true)
  deriving DecidableEq

namespace Scalar

def style : Scalar → ScalarStyle
  | plain .. => .plain
  | quoted .. => .quoted

def letters : Scalar → List Char
  | plain word _ => word.letters
  | quoted _ letters _ => letters

def text : Scalar → List Char
  | plain word _ => word.letters
  | quoted quote letters _ => quote.char :: (letters ++ [quote.char])

/-- Letters of names as a scalar, unless they are a dash and nothing else. -/
def ofLetters (letters : List Char) (bare : letters.all isWord = true) (some : letters ≠ [])
    (dash : letters ≠ ['-']) : Scalar :=
  plain (.ofLetters letters bare some) fun _ => by
    have colon : letters.getLast? ≠ .some ':' := fun last =>
      absurd (List.all_eq_true.mp bare _ (List.mem_of_getLast? last)) (by decide)
    refine ⟨colon, dash, ?_⟩
    rintro rfl
    exact absurd bare (by decide)

end Scalar

theorem Word.printable (word : Word) : word.letters.all isPrintable = true :=
  List.all_eq_true.mpr fun c member => by
    have continues := word.continues_of_mem member
    simp only [continuesWord, Bool.and_eq_true] at continues
    exact continues.1.1

/-- Scalars are printable. -/
theorem Scalar.printable (scalar : Scalar) : scalar.text.all isPrintable = true := by
  cases scalar with
  | plain word ends => exact word.printable
  | quoted quote letters bare =>
    have mark : isPrintable quote.char = true := by cases quote <;> decide
    have inside : letters.all isPrintable = true :=
      List.all_eq_true.mpr fun c member => isPrintable_of_isWord (List.all_eq_true.mp bare c member)
    simp [text, mark, inside]

end Unmangle.Yaml
