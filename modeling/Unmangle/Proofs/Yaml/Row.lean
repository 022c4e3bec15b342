import Unmangle.Proofs.Yaml.Scalar

/-!
# Rows

A row has a key, and a scalar behind it or rows below it that stand further in. The tokens tell
from the columns where a mapping begins and where it ends.
-/
namespace Unmangle.Yaml

/-- A key of one row. -/
structure Key extends Word where
  short : Source.byteLength letters ≤ KeyMark.maxLength

/-- A row of an outline. -/
structure Row where
  indent : Nat
  key : Key
  value : Option Scalar

namespace Row

def behind (row : Row) : List Char :=
  match row.value with
  | some scalar => ' ' :: scalar.text
  | none => []

def text (row : Row) : List Char :=
  List.replicate row.indent ' ' ++ (row.key.letters ++ ':' :: (row.behind ++ ['\n']))

/-- The column of the first of some rows. The end of the text has the first one. -/
def column : List Row → Nat
  | [] => 0
  | row :: _ => row.indent

def body : List Row → List Char
  | [] => []
  | row :: rest => row.key.letters ++ ':' :: (row.behind ++ '\n' :: rest.flatMap text)

/-- Rows stand further in only below one without a scalar. -/
def Nested : List Row → Prop
  | [] => True
  | row :: rest => (row.value.isSome = true → column rest ≤ row.indent) ∧ Nested rest

def tokens (row : Row) : List Token :=
  [.key, .scalar .plain row.key.letters, .value] ++
    (row.value.map fun scalar => Token.scalar scalar.style scalar.letters).toList

/-- A block begins at a column unless the innermost one has it: the token for that, and the blocks
that are open then. -/
def enter (blocks : List Nat) (column : Nat) : List Token × List Nat :=
  if blocks.head? = some column then ([], blocks) else ([.blockMappingStart], column :: blocks)

def ends (blocks : List Nat) (column : Nat) : List Token :=
  List.replicate (blocks.takeWhile (column < ·)).length .blockEnd

def left (blocks : List Nat) (column : Nat) : List Nat :=
  blocks.dropWhile (column < ·)

/-- The tokens of rows inside blocks at some columns, the innermost first. -/
def tokensOf : List Nat → List Row → List Token
  | blocks, [] => List.replicate blocks.length .blockEnd
  | blocks, row :: rest =>
    let (start, blocks') := enter (left blocks row.indent) row.indent
    ends blocks row.indent ++ (start ++ (row.tokens ++ tokensOf blocks' rest))

theorem flatMap_text (rows : List Row) :
    rows.flatMap text = List.replicate (column rows) ' ' ++ body rows := by
  cases rows with
  | nil => rfl
  | cons row rest => simp [text, column, body]

theorem atToken_body (rows : List Row) : atToken (body rows) = true := by
  cases rows with
  | nil => rfl
  | cons row rest => exact row.key.atToken_append _

theorem head?_left_le (blocks : List Nat) (column : Nat) :
    ∀ block ∈ (left blocks column).head?, block ≤ column := by
  intro block member
  have stop := List.head?_dropWhile_not (column < ·) blocks
  rw [show (blocks.dropWhile (column < ·)).head? = some block from member] at stop
  exact Nat.not_lt.mp (of_decide_eq_false stop)

theorem head?_enter (blocks : List Nat) (column : Nat) :
    (enter blocks column).2.head? = some column := by
  unfold enter
  split
  · assumption
  · rfl

end Row

namespace Layout

variable {layout : Layout} {rest : List Char}

theorem toToken_indentation {count : Nat}
    (here : layout.source.rest = List.replicate count ' ' ++ rest) (token : atToken rest = true) :
    layout.toToken = { layout with source := layout.source.skip count } := by
  have behind : (layout.source.skip count).rest = rest := by
    have skipped := Source.skip_append here
    rwa [List.length_replicate] at skipped
  have skipped : (layout.source.skipWhile fun c =>
      c == ' ' || ((layout.inFlow || !layout.keyAllowed) && c == '\t')) =
      layout.source.skip count := by
    refine Source.skipWhile_indentation here rfl ?_
    cases rest with
    | nil => rfl
    | cons c rest =>
      simp only [atToken, isBlank, Bool.and_eq_true, Bool.not_eq_true',
        Bool.or_eq_false_iff] at token
      simp [token]
  have token : atToken (layout.source.skip count).rest = true := behind ▸ token
  rw [toToken, toTokenWithin, skipped, if_neg (Source.next?_ne_comment token),
    Source.break?_of_atToken token]

theorem toToken_here (token : atToken layout.source.rest = true) : layout.toToken = layout :=
  toToken_indentation (show _ = List.replicate 0 ' ' ++ layout.source.rest from rfl) token

theorem toToken_newline (here : layout.source.rest = '\n' :: rest)
    (outside : layout.outerKeys = []) :
    layout.toToken = toToken
      { layout with
        source := ⟨rest, layout.source.offset + 1, layout.source.line + 1, 0⟩
        keyAllowed := true } := by
  have skipped (property : Char → Bool) (other : property '\n' = false) :
      layout.source.skipWhile property = layout.source := by
    rw [Source.skipWhile, Source.span, here, List.takeWhile_cons_of_neg (by simp [other])]
    rfl
  have flow : layout.inFlow = false := by rw [inFlow, outside]; rfl
  have comment : layout.source.next? ≠ some '#' := by
    rw [Source.next?, here]
    exact fun same => absurd (Option.some.inj same) (by decide)
  rw [toToken, toTokenWithin, skipped _ (by simp), if_neg comment, Source.break?_newline here, here,
    flow, Bool.not_false, Bool.or_true]
  rfl

def outside (source : Source) (tokens : List Token) (blocks : List Nat) (keyAllowed : Bool) :
    Layout :=
  { source := source, tokens := tokens.toArray, blocks := blocks, keyAllowed := keyAllowed }

def marked (source : Source) (tokens : List Token) (blocks : List Nat) (mark : KeyMark) : Layout :=
  { outside source tokens blocks false with key := some mark }

theorem insert_eq {front more : List Token} (tokens : layout.tokens = (front ++ more).toArray)
    (token : Token) : layout.insert front.length token =
      { layout with tokens := (front ++ token :: more).toArray } := by
  rw [insert, tokens]
  simp

/-- The blocks further in than a column are closed. -/
theorem closeBlocks_outside (source : Source) (tokens : List Token) (blocks : List Nat) :
    (outside source tokens blocks true).closeBlocks source.column =
      outside source (tokens ++ Row.ends blocks source.column) (Row.left blocks source.column)
        true := by
  have left : blocks.drop (blocks.takeWhile (source.column < ·)).length =
      Row.left blocks source.column := by
    have whole := List.takeWhile_append_dropWhile (p := (source.column < ·)) (l := blocks)
    calc blocks.drop _
      _ = (blocks.takeWhile (source.column < ·) ++ blocks.dropWhile (source.column < ·)).drop
          (blocks.takeWhile (source.column < ·)).length := by rw [whole]
      _ = blocks.dropWhile (source.column < ·) := List.drop_left
  rw [closeBlocks, inFlow]
  simp [outside, Row.ends, left]

theorem closeBlocks_of_le (column : Int)
    (within : ∀ block ∈ layout.blocks.head?, (block : Int) ≤ column) :
    layout.closeBlocks column = layout := by
  have none : layout.blocks.takeWhile (fun block : Nat => column < (block : Int)) = [] := by
    cases blocks : layout.blocks with
    | nil => rfl
    | cons block rest =>
      have := within block (by rw [blocks]; rfl)
      exact List.takeWhile_cons_of_neg (by simpa using this)
  rw [closeBlocks, none]
  split
  · rfl
  · simp

/-- All tokens are read, whatever the rounds are that are allowed. -/
def Gives (layout : Layout) (result : List Token) : Prop :=
  ∀ rounds, layout.source.rest.length < rounds → readWithin rounds layout = some result.toArray

/-- One more token. -/
theorem Gives.step {moved closed after : Layout} {c : Char} {result : List Token}
    (moves : layout.toToken.dropStaleKeys = some moved)
    (closes : moved.closeBlocks moved.source.column = closed)
    (next : closed.source.next? = some c) (token : closed.token c = some after)
    (shorter : after.source.rest.length < layout.source.rest.length) (gives : after.Gives result) :
    layout.Gives result := by
  intro rounds enough
  obtain ⟨rounds, rfl⟩ : ∃ n, rounds = n + 1 := ⟨rounds - 1, by omega⟩
  have more := gives rounds (by omega)
  simp only [readWithin, moves, Option.bind_eq_bind, Option.bind_some, closes, next, token, more]

/-- The end of the text. -/
theorem Gives.stop {moved closed last : Layout}
    (moves : layout.toToken.dropStaleKeys = some moved)
    (closes : moved.closeBlocks moved.source.column = closed)
    (next : closed.source.next? = none) (drops : (closed.closeBlocks (-1)).dropKey = some last) :
    layout.Gives last.tokens.toList := by
  intro rounds enough
  obtain ⟨rounds, rfl⟩ : ∃ n, rounds = n + 1 := ⟨rounds - 1, by omega⟩
  simp only [readWithin, moves, Option.bind_eq_bind, Option.bind_some, closes, next, drops,
    Array.toArray_toList]
  rfl

section Key

variable {key : Key} {source : Source} {tokens : List Token} {blocks : List Nat} {more : List Char}

/-- A key is a plain token that a colon follows. -/
theorem plainToken_key (here : source.rest = key.letters ++ ':' :: more) (gap : atGap more = true) :
    ∃ isRequired, (outside source tokens blocks true).plainToken = some
      (marked (source.skip key.letters.length) (tokens ++ [.scalar .plain key.letters]) blocks
        ⟨isRequired, tokens.length, source.offset, source.line, source.column⟩) := by
  have scalar : plainScalar? (outside source tokens blocks true).inFlow
      ((outside source tokens blocks true).indent + 1) source = _ :=
    Word.plainScalar?_key here gap
  refine ⟨(outside source tokens blocks true).indent == source.column, ?_⟩
  rw [plainToken]
  simp only [outside] at scalar ⊢
  rw [scalar]
  simp [pushKeyPart, markKey, dropKey, inFlow, Gap.isBroken, indent, marked, outside]

/-- A colon puts the tokens of an entry in front of what was marked. -/
theorem valueToken_marked {name : Token} {mark : KeyMark} (first : mark.token = tokens.length)
    (within : ∀ block ∈ blocks.head?, block ≤ mark.column) :
    (marked source (tokens ++ [name]) blocks mark).valueToken = some
      (outside (source.skip 1) (tokens ++ (Row.enter blocks mark.column).1 ++ [.key, name, .value])
        (Row.enter blocks mark.column).2 false) := by
  have inserted : (marked source (tokens ++ [name]) blocks mark).insert mark.token .key =
      marked source (tokens ++ [.key, name]) blocks mark := by
    rw [first, insert_eq rfl]
    rfl
  have opened : (marked source (tokens ++ [.key, name]) blocks mark).openBlock mark.column
        mark.token .blockMappingStart =
      marked source (tokens ++ (Row.enter blocks mark.column).1 ++ [.key, name])
        (Row.enter blocks mark.column).2 mark := by
    by_cases same : blocks.head? = some mark.column
    · have column : ¬(outside source tokens blocks true).indent < mark.column := by
        obtain ⟨rest, rfl⟩ := List.head?_eq_some_iff.mp same
        exact Int.lt_irrefl _
      rw [openBlock, if_neg fun both => column both.2, Row.enter, if_pos same, List.append_nil]
    · have deeper : (outside source tokens blocks true).indent < mark.column := by
        cases blocks with
        | nil =>
          show (-1 : Int) < mark.column
          omega
        | cons block rest =>
          have := within block rfl
          have : block ≠ mark.column := fun equal => same (congrArg some equal)
          show (block : Int) < mark.column
          omega
      rw [openBlock, if_pos ⟨rfl, deeper⟩, first, insert_eq rfl, Row.enter, if_neg same]
      simp [marked, outside]
  rw [valueToken]
  show some { (openBlock (insert (marked _ _ _ _) _ _) _ _ _).push .value 1 with
    key := none, keyAllowed := false } = _
  rw [inserted, opened]
  simp [marked, push, outside]

/-- A mark on the line of the colon is kept, since the key is short. -/
theorem dropStaleKeys_marked (here : source.rest = key.letters ++ ':' :: more) {mark : KeyMark}
    (line : mark.line = source.line) (offset : mark.offset = source.offset) :
    (marked (source.skip key.letters.length) tokens blocks mark).dropStaleKeys =
      some (marked (source.skip key.letters.length) tokens blocks mark) := by
  have run : source.rest.take key.letters.length = key.letters := by rw [here, List.take_left]
  have near : ¬(mark.line < (source.skip key.letters.length).line ∨
      mark.offset + KeyMark.maxLength < (source.skip key.letters.length).offset) := by
    have short := key.short
    simp only [Source.skip, run, line, offset]
    omega
  have kept : KeyMark.keep? (source.skip key.letters.length) (some mark) = some (some mark) :=
    if_neg near
  simp only [dropStaleKeys, marked, outside, kept]
  rfl

/-- The colon behind a key puts the tokens of an entry in front of it. -/
theorem gives_colon {result : List Token} {name : Token} {mark : KeyMark}
    (here : source.rest = key.letters ++ ':' :: more) (gap : atGap more = true)
    (within : ∀ block ∈ blocks.head?, block ≤ mark.column) (first : mark.token = tokens.length)
    (line : mark.line = source.line) (offset : mark.offset = source.offset)
    (column : mark.column = source.column)
    (gives : Gives (outside (source.skip (key.letters.length + 1))
      (tokens ++ (Row.enter blocks mark.column).1 ++ [.key, name, .value])
      (Row.enter blocks mark.column).2 false) result) :
    (marked (source.skip key.letters.length) (tokens ++ [name]) blocks mark).Gives result := by
  let layout := marked (source.skip key.letters.length) (tokens ++ [name]) blocks mark
  have behind : layout.source.rest = ':' :: more := Source.skip_append here
  have width := key.length_letters_pos
  have moves : layout.toToken.dropStaleKeys = some layout := by
    rw [toToken_here (behind ▸ rfl)]
    exact dropStaleKeys_marked here line offset
  have closes : layout.closeBlocks layout.source.column = layout := by
    refine closeBlocks_of_le _ ?_
    intro block member
    have := within block member
    show (block : Int) ≤ (source.column + key.letters.length : Nat)
    omega
  have token : layout.token ':' = layout.valueToken := by
    have column : layout.source.column ≠ 0 := by
      show source.column + key.letters.length ≠ 0
      omega
    have gap : layout.source.gapAt 1 = true := by
      rw [Source.gapAt, behind]
      exact gap
    rw [Layout.token, if_neg fun both => column both.1, Source.documentMark?_of_column column]
    show (if layout.inFlow || layout.source.gapAt 1 then _ else _) = _
    rw [gap, Bool.or_true, if_pos rfl]
  have next : layout.source.next? = some ':' := by rw [Source.next?, behind]; rfl
  refine Gives.step moves closes next (token.trans (valueToken_marked first within)) ?_ ?_
  · have shorter : ((source.skip key.letters.length).skip 1).rest = more :=
      Source.skip_append (show (source.skip key.letters.length).rest = [':'] ++ more from behind)
    show ((source.skip key.letters.length).skip 1).rest.length < layout.source.rest.length
    rw [shorter, behind]
    exact Nat.lt_succ_self _
  · rwa [Source.skip_skip]

/-- A key and the colon behind it end the blocks that stand further in, and begin one if none of
those that are left has its column. -/
theorem gives_key {result : List Token} (ready : layout.toToken = outside source tokens blocks true)
    (here : source.rest = key.letters ++ ':' :: more) (gap : atGap more = true)
    (less : source.rest.length ≤ layout.source.rest.length)
    (gives : Gives (outside (source.skip (key.letters.length + 1))
      (tokens ++ Row.ends blocks source.column ++
        (Row.enter (Row.left blocks source.column) source.column).1 ++
        [.key, .scalar .plain key.letters, .value])
      (Row.enter (Row.left blocks source.column) source.column).2 false) result) :
    layout.Gives result := by
  let closed := outside source (tokens ++ Row.ends blocks source.column)
    (Row.left blocks source.column) true
  have moves : layout.toToken.dropStaleKeys = some (outside source tokens blocks true) := by
    rw [ready]
    rfl
  have closes : (outside source tokens blocks true).closeBlocks source.column = closed :=
    closeBlocks_outside source tokens blocks
  obtain ⟨c, next, token⟩ :=
    key.token_eq closed here (fun gap => by cases gap) rfl (Word.documentMark?_of_key here)
  obtain ⟨isRequired, read⟩ := plainToken_key here gap
  refine Gives.step moves closes next (token.trans read) ?_
    (gives_colon here gap (Row.head?_left_le blocks source.column) rfl rfl rfl rfl gives)
  show (source.skip key.letters.length).rest.length < _
  have width := key.length_letters_pos
  refine Nat.lt_of_lt_of_le ?_ less
  rw [Source.skip_append here, here, List.length_append]
  omega

end Key

/-- The layout is in front of a token at a column, or of the end. -/
def Ready (layout : Layout) (tokens : List Token) (blocks : List Nat) (column : Nat)
    (rest : List Char) : Prop :=
  ∃ offset line, layout.toToken = outside ⟨rest, offset, line, column⟩ tokens blocks true ∧
    rest.length ≤ layout.source.rest.length

section Value

variable {source : Source} {tokens : List Token} {blocks : List Nat} {count indent : Nat}

theorem ready_here (token : atToken rest = true) (offset line : Nat) :
    Ready (outside ⟨rest, offset, line, count⟩ tokens blocks true) tokens blocks count rest :=
  ⟨offset, line, toToken_here token, Nat.le_refl _⟩

theorem ready_indented (token : atToken rest = true) (offset line : Nat) :
    Ready (outside ⟨List.replicate count ' ' ++ rest, offset, line, 0⟩ tokens blocks true) tokens
      blocks count rest := by
  refine ⟨offset + count, line, ?_, ?_⟩
  · refine (toToken_indentation rfl token).trans ?_
    rw [outside, Source.skip_indentation]
    rfl
  · show rest.length ≤ (List.replicate count ' ' ++ rest).length
    rw [List.length_append]
    exact Nat.le_add_left _ _

/-- Behind a row a new line begins. -/
theorem ready_newline {keyAllowed : Bool}
    (here : source.rest = '\n' :: (List.replicate count ' ' ++ rest))
    (token : atToken rest = true) :
    Ready (outside source tokens blocks keyAllowed) tokens blocks count rest := by
  have line : (outside source tokens blocks keyAllowed).toToken = _ := toToken_newline here rfl
  obtain ⟨offset, number, moved, less⟩ : Ready (outside
      ⟨List.replicate count ' ' ++ rest, source.offset + 1, source.line + 1, 0⟩ tokens blocks true)
      tokens blocks count rest := ready_indented token _ _
  refine ⟨offset, number, line.trans moved, Nat.le_trans less ?_⟩
  show (List.replicate count ' ' ++ rest).length ≤ source.rest.length
  rw [here]
  exact Nat.le_succ _

/-- The token of a word at the end of its line. -/
theorem token_word (word : Word) (ends : word.EndsAt []) (column : source.column ≠ 0)
    (here : source.rest = word.letters ++ '\n' :: (List.replicate count ' ' ++ rest))
    (token : atToken rest = true) (out : count < (outside source tokens blocks false).indent + 1) :
    ∃ c after, source.next? = some c ∧ (outside source tokens blocks false).token c = some after ∧
      Ready after (tokens ++ [.scalar .plain word.letters]) blocks count rest ∧
      after.source.rest.length < source.rest.length := by
  obtain ⟨c, next, first⟩ := word.token_eq (outside source tokens blocks false) here
    (fun _ => ends rfl) rfl (Source.documentMark?_of_column column)
  obtain ⟨offset, read⟩ := Word.plainScalar?_value here (ends rfl).1 column token out
  have read : plainScalar? (outside source tokens blocks false).inFlow
    ((outside source tokens blocks false).indent + 1) source = _ := read
  refine ⟨c, outside ⟨rest, offset, source.line + 1, count⟩
    (tokens ++ [.scalar .plain word.letters]) blocks true, next, first.trans ?_,
    ready_here token _ _, ?_⟩
  · rw [plainToken]
    simp only [outside] at read ⊢
    rw [read]
    simp [pushKeyPart, markKey, Gap.isBroken]
  · show rest.length < source.rest.length
    rw [here, List.length_append, List.length_cons, List.length_append]
    omega

/-- The token of letters between quotes at the end of their line. -/
theorem token_quoted (quote : Quote) {letters : List Char} (bare : letters.all isWord = true)
    (column : source.column ≠ 0)
    (here : source.rest =
      quote.char :: (letters ++ quote.char :: '\n' :: (List.replicate count ' ' ++ rest)))
    (token : atToken rest = true) :
    ∃ after, (outside source tokens blocks false).token quote.char = some after ∧
      Ready after (tokens ++ [.scalar .quoted letters]) blocks count rest ∧
      after.source.rest.length < source.rest.length := by
  have inside : (source.skip 1).rest =
      letters ++ quote.char :: '\n' :: (List.replicate count ' ' ++ rest) :=
    Source.skip_append (show source.rest = [quote.char] ++ _ from here)
  have behind : ((source.skip 1).skip (letters.length + 1)).rest =
      '\n' :: (List.replicate count ' ' ++ rest) := by
    rw [← Source.skip_skip]
    exact Source.skip_append (show _ = [quote.char] ++ _ from Source.skip_append inside)
  have read : quotedScalar? quote (source.skip 1) =
      some (letters, (source.skip 1).skip (letters.length + 1)) := by
    refine quotedWithin_append inside (Nat.succ_ne_zero _) bare nofun ?_
    rw [inside, List.length_append]
    omega
  have first : (outside source tokens blocks false).token quote.char =
      (outside source tokens blocks false).quotedToken quote := by
    have mark : (outside source tokens blocks false).source.documentMark? = none :=
      Source.documentMark?_of_column column
    rw [Layout.token, if_neg fun both => column both.1, mark]
    cases quote <;> rfl
  refine ⟨outside ((source.skip 1).skip (letters.length + 1)) (tokens ++ [.scalar .quoted letters])
    blocks false, first.trans ?_, ready_newline behind token, ?_⟩
  · rw [quotedToken]
    show quotedScalar? quote (source.skip 1) >>= _ = _
    rw [read]
    simp [pushKeyPart, markKey, outside]
  · show ((source.skip 1).skip (letters.length + 1)).rest.length < source.rest.length
    rw [behind, here]
    simp only [List.length_cons, List.length_append]
    omega

/-- A scalar is a token that its line ends with. -/
theorem token_scalar (scalar : Scalar) (column : source.column ≠ 0)
    (here : source.rest = scalar.text ++ '\n' :: (List.replicate count ' ' ++ rest))
    (token : atToken rest = true) (out : count < (outside source tokens blocks false).indent + 1) :
    ∃ c after, source.next? = some c ∧ (outside source tokens blocks false).token c = some after ∧
      Ready after (tokens ++ [.scalar scalar.style scalar.letters]) blocks count rest ∧
      after.source.rest.length < source.rest.length := by
  cases scalar with
  | plain word ends => exact token_word word ends column here token out
  | quoted quote letters bare =>
    have here : source.rest =
        quote.char :: (letters ++ quote.char :: '\n' :: (List.replicate count ' ' ++ rest)) := by
      rw [here, Scalar.text]
      simp
    obtain ⟨after, read, ready, shorter⟩ := token_quoted quote bare column here token
    exact ⟨quote.char, after, by rw [Source.next?, here]; rfl, read, ready, shorter⟩

/-- A scalar behind a colon, with which its row ends. -/
theorem gives_scalar {result : List Token} (scalar : Scalar)
    (here : source.rest = ' ' :: (scalar.text ++ '\n' :: (List.replicate count ' ' ++ rest)))
    (token : atToken rest = true) (block : blocks.head? = some indent)
    (deeper : indent ≤ source.column) (out : count ≤ indent)
    (gives : ∀ after, Ready after (tokens ++ [.scalar scalar.style scalar.letters]) blocks count
      rest → after.Gives result) : Gives (outside source tokens blocks false) result := by
  obtain ⟨others, rfl⟩ := List.head?_eq_some_iff.mp block
  let layout := outside (source.skip 1) tokens (indent :: others) false
  have behind : (source.skip 1).rest =
      scalar.text ++ '\n' :: (List.replicate count ' ' ++ rest) :=
    Source.skip_append (show source.rest = [' '] ++ _ from here)
  have column : (source.skip 1).column ≠ 0 := Nat.succ_ne_zero source.column
  have starts : atToken (scalar.text ++ '\n' :: (List.replicate count ' ' ++ rest)) = true := by
    cases scalar with
    | plain word ends => exact word.atToken_append _
    | quoted quote letters bare => cases quote <;> rfl
  have moves : (outside source tokens (indent :: others) false).toToken.dropStaleKeys =
      some layout := by
    rw [toToken_indentation (show source.rest = List.replicate 1 ' ' ++ _ from here) starts]
    rfl
  have closes : layout.closeBlocks layout.source.column = layout := by
    refine closeBlocks_of_le _ ?_
    intro block member
    cases member
    show (indent : Int) ≤ (source.column + 1 : Nat)
    omega
  have out : (count : Int) < layout.indent + 1 := by
    show (count : Int) < indent + 1
    omega
  obtain ⟨c, after, next, first, ready, shorter⟩ :=
    token_scalar scalar column behind token out
  refine Gives.step moves closes next first (Nat.lt_trans shorter ?_) (gives after ready)
  show (source.skip 1).rest.length < source.rest.length
  rw [behind, here]
  exact Nat.lt_succ_self _

end Value

/-- At the end of the text all blocks are closed. -/
theorem closeBlocks_all (outside : layout.outerKeys = []) :
    layout.closeBlocks (-1) = { layout with
      tokens := layout.tokens ++ (List.replicate layout.blocks.length Token.blockEnd).toArray
      blocks := [] } := by
  have all : layout.blocks.takeWhile (fun block : Nat => (-1 : Int) < (block : Int)) =
      layout.blocks := by
    refine List.takeWhile_eq_self_iff.mpr ?_
    intro block _
    refine decide_eq_true ?_
    omega
  rw [closeBlocks, inFlow, outside, all]
  simp

section Rows

variable {tokens : List Token} {blocks : List Nat}

/-- At the end every block ends. -/
theorem gives_end {column : Nat} (ready : Ready layout tokens blocks column []) :
    layout.Gives (tokens ++ List.replicate blocks.length .blockEnd) := by
  obtain ⟨offset, line, moved, -⟩ := ready
  let closed := outside ⟨[], offset, line, column⟩ (tokens ++ Row.ends blocks column)
    (Row.left blocks column) true
  have moves : layout.toToken.dropStaleKeys =
      some (outside ⟨[], offset, line, column⟩ tokens blocks true) := by
    rw [moved]
    rfl
  have count : blocks.length = (blocks.takeWhile (column < ·)).length +
      (Row.left blocks column).length := by
    rw [Row.left, ← List.length_append, List.takeWhile_append_dropWhile]
  have drops : (closed.closeBlocks (-1)).dropKey =
      some (outside ⟨[], offset, line, column⟩
        (tokens ++ List.replicate blocks.length .blockEnd) [] true) := by
    rw [closeBlocks_all rfl, count]
    simp [closed, outside, dropKey, Row.ends]
  exact Gives.stop moves (closeBlocks_outside _ _ _) rfl drops

/-- Rows give their tokens in their order. -/
theorem gives_rows (rows : List Row) (nested : Row.Nested rows)
    (ready : Ready layout tokens blocks (Row.column rows) (Row.body rows)) :
    layout.Gives (tokens ++ Row.tokensOf blocks rows) := by
  induction rows generalizing layout tokens blocks with
  | nil => exact gives_end ready
  | cons row rest ih =>
    obtain ⟨offset, line, moved, less⟩ := ready
    obtain ⟨nearer, nested⟩ := nested
    have gap : atGap (row.behind ++ '\n' :: rest.flatMap Row.text) = true := by
      rw [Row.behind]
      cases row.value <;> rfl
    refine gives_key moved rfl gap less ?_
    let source : Source := ⟨Row.body (row :: rest), offset, line, row.indent⟩
    have behind : (source.skip (row.key.letters.length + 1)).rest =
        row.behind ++ '\n' :: (List.replicate (Row.column rest) ' ' ++ Row.body rest) := by
      rw [← Row.flatMap_text, ← Source.skip_skip]
      exact Source.skip_append (show _ = [':'] ++ _ from Source.skip_append rfl)
    have token := Row.atToken_body rest
    -- the tokens of the row in the order in which they are read
    rw [Row.tokensOf, Row.tokens, ← List.append_assoc, ← List.append_assoc, ← List.append_assoc,
      ← List.append_assoc]
    cases value : row.value with
    | none =>
      rw [Row.behind, value] at behind
      rw [Option.map_none, Option.toList_none, List.append_nil]
      exact ih nested (ready_newline behind token)
    | some scalar =>
      rw [Row.behind, value] at behind
      have deeper : row.indent ≤ (source.skip (row.key.letters.length + 1)).column :=
        Nat.le_add_right _ _
      have nearer := nearer (by rw [value]; rfl)
      exact gives_scalar scalar behind token (Row.head?_enter _ _) deeper nearer
        fun after ready => ih nested ready

end Rows

end Layout

/-- The tokens of rows. -/
theorem tokens?_rows (rows : List Row) (nested : Row.Nested rows) :
    tokens? (rows.flatMap Row.text) = some (Row.tokensOf [] rows) := by
  have start : Source.start (rows.flatMap Row.text) = { rest := rows.flatMap Row.text } := by
    cases rows with
    | nil => rfl
    | cons row rest =>
      obtain ⟨c, letters, key, begins⟩ := row.key.letters_eq_cons
      rw [Row.flatMap_text, Row.column, Row.body, key]
      cases row.indent with
      | zero =>
        rw [List.replicate_zero, List.nil_append, List.cons_append, Source.start]
        rintro _ ⟨⟩
        cases begins
      | succ count => rfl
  have ready : Layout.Ready { source := Source.start (rows.flatMap Row.text) } [] []
      (Row.column rows) (Row.body rows) := by
    rw [start, Row.flatMap_text]
    exact Layout.ready_indented (Row.atToken_body rows) 0 0
  have enough : (Source.start (rows.flatMap Row.text)).rest.length <
      (rows.flatMap Row.text).length + 1 := by
    rw [start]
    exact Nat.lt_succ_self _
  rw [tokens?, Layout.gives_rows rows nested ready _ enough]
  rfl

/-- Rows are printable. -/
theorem Row.printable (row : Row) : row.text.all isPrintable = true := by
  have blank : isPrintable ' ' = true := by decide
  have colon : isPrintable ':' = true := by decide
  have newline : isPrintable '\n' = true := by decide
  have behind : row.behind.all isPrintable = true := by
    rw [Row.behind]
    cases row.value with
    | none => rfl
    | some scalar => exact Bool.and_eq_true_iff.mpr ⟨blank, scalar.printable⟩
  rw [text, List.all_append, List.all_append, row.key.printable, List.all_cons, List.all_append,
    behind, colon, Bool.true_and, Bool.true_and, Bool.true_and]
  simp [blank, newline]

end Unmangle.Yaml
