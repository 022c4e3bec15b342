import Unmangle.Yaml.Character

/-!
# A place in a YAML text

A source holds the text that is left and where it begins. Columns matter because
blocks are told apart by their indentation, and the other two numbers because a key
is short and stands on one line.
-/
namespace Unmangle.Yaml

structure Source where
  rest : List Char
  /-- The number of bytes in front. -/
  offset : Nat := 0
  line : Nat := 0
  column : Nat := 0
  deriving Repr, DecidableEq, Inhabited

/-- The lines that separate documents. -/
inductive DocumentMark
  | start
  | stop
  deriving Repr, DecidableEq, Inhabited

namespace Source

/-- The source in front of a text. The mark of its byte order may stand before the
first token, and takes up a column there. -/
def start : List Char → Source
  | '\uFEFF' :: rest => { rest := rest, offset := 3, column := 1 }
  | text => { rest := text }

def next? (source : Source) : Option Char :=
  source.rest.head?

def gapAt (source : Source) (distance : Nat) : Bool :=
  atGap (source.rest.drop distance)

def byteLength (run : List Char) : Nat :=
  run.foldl (fun bytes c => bytes + c.utf8Size) 0

/-- Move over some characters of a line. -/
def skip (source : Source) (count : Nat) : Source :=
  { source with
    rest := source.rest.drop count
    offset := source.offset + byteLength (source.rest.take count)
    column := source.column + count }

/-- The longest run of characters with a property, and the source behind it. The
characters stand on one line. -/
def span (source : Source) (property : Char → Bool) : List Char × Source :=
  let run := source.rest.takeWhile property
  (run, source.skip run.length)

def skipWhile (source : Source) (property : Char → Bool) : Source :=
  (source.span property).2

/-- What a line break stands for in a scalar. Only two of them are kept as they are. -/
def breakText (c : Char) : Char :=
  if c == '\u2028' || c == '\u2029' then c else '\n'

/-- The line break that comes next, and the source behind it. -/
def break? (source : Source) : Option (Char × Source) :=
  match source.rest with
  | '\r' :: '\n' :: rest => some ('\n', ⟨rest, source.offset + 2, source.line + 1, 0⟩)
  | c :: rest =>
    if isBreak c then
      some (breakText c, ⟨rest, source.offset + c.utf8Size, source.line + 1, 0⟩)
    else none
  | [] => none

/-- The line break that comes next, if one does. -/
def skipBreak (source : Source) : Source :=
  match source.break? with
  | some (_, behind) => behind
  | none => source

/-- The mark of a document, which has a line of its own or begins one. -/
def documentMark? (source : Source) : Option DocumentMark :=
  if source.column = 0 ∧ source.gapAt 3 then
    if source.rest.take 3 = ['-', '-', '-'] then some .start
    else if source.rest.take 3 = ['.', '.', '.'] then some .stop
    else none
  else none

/-- What may stand between a token and the end of its line: blanks and a comment. -/
def lineEnd? (source : Source) : Option Source :=
  let source := source.skipWhile isBlank
  let source := if source.next? = some '#' then source.skipWhile (!isBreak ·) else source
  match source.break? with
  | some (_, behind) => some behind
  | none => if source.rest.isEmpty then some source else none

end Source
end Unmangle.Yaml
