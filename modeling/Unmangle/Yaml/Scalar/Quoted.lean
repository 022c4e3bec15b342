import Unmangle.Yaml.Scalar.Gap

/-!
# Quoted scalars

A quoted scalar ends at its quote and may go on over any lines, but not over the
mark of a document. Between single quotes a quote is written twice. Between double
quotes a backslash begins an escape, or takes a line break away.
-/
namespace Unmangle.Yaml

inductive Quote
  | single
  | double
  deriving Repr, DecidableEq, Inhabited

def Quote.char : Quote → Char
  | single => '\''
  | double => '"'

/-- The character that a letter stands for behind a backslash. -/
def escapeLetter? : Char → Option Char
  | '0' => some '\x00'
  | 'a' => some '\x07'
  | 'b' => some '\x08'
  | 't' | '\t' => some '\t'
  | 'n' => some '\n'
  | 'v' => some '\x0b'
  | 'f' => some '\x0c'
  | 'r' => some '\r'
  | 'e' => some '\x1b'
  | ' ' => some ' '
  | '"' => some '"'
  | '/' => some '/'
  | '\\' => some '\\'
  | 'N' => some '\u0085'
  | '_' => some '\u00a0'
  | 'L' => some '\u2028'
  | 'P' => some '\u2029'
  | _ => none

/-- The number of hex digits behind the letter of a longer escape. -/
def escapeDigits? : Char → Option Nat
  | 'x' => some 2
  | 'u' => some 4
  | 'U' => some 8
  | _ => none

/-- The character of a code, if it has one. -/
def charOfCode? (code : Nat) : Option Char :=
  if h : code.isValidChar then some (Char.ofNatAux code h) else none

/-- What an escape stands for, and the source behind it. -/
def escape? (source : Source) : Option (Char × Source) :=
  match source.rest with
  | '\\' :: letter :: rest =>
    match escapeLetter? letter with
    | some c => some (c, source.skip 2)
    | none => do
      let count ← escapeDigits? letter
      guard (count ≤ rest.length)
      let c ← digits? 16 (rest.take count) >>= charOfCode?
      return (c, source.skip (2 + count))
  | _ => none

/-- The line break that a backslash takes away, if it does. -/
def escapedBreak? (source : Source) : Option Source :=
  if source.next? = some '\\' then (source.skip 1).break?.map (·.2) else none

/-- A piece of a quoted scalar. -/
inductive QuotedPiece
  | close
  | text (run : List Char)
  deriving Repr, DecidableEq, Inhabited

/-- What comes next of a quoted scalar, and the source behind it. -/
def quotedPiece? (quote : Quote) (source : Source) : Option (QuotedPiece × Source) :=
  if source.documentMark?.isSome then none
  else
    match source.rest with
    | [] => none
    | c :: rest =>
      if c == quote.char then
        if quote = .single ∧ rest.head? = some '\'' then some (.text [c], source.skip 2)
        else some (.close, source.skip 1)
      else if isBlank c || isBreak c then
        (Gap.read 0 (.blanks []) source).map fun (gap, behind) => (.text gap.text, behind)
      else if quote = .double ∧ c = '\\' then
        match escapedBreak? source with
        | some behind =>
          (Gap.read 0 (.breaks none []) behind).map fun (gap, behind) => (.text gap.text, behind)
        | none => (escape? source).map fun (c, behind) => (.text [c], behind)
      else some (.text [c], source.skip 1)

/-- A quoted scalar behind its first quote. -/
def quotedWithin (quote : Quote) : Nat → Source → Option (List Char × Source)
  | 0, _ => none
  | rounds + 1, source => do
    match ← quotedPiece? quote source with
    | (.close, behind) => return ([], behind)
    | (.text run, behind) => do
      let (more, behind) ← quotedWithin quote rounds behind
      return (run ++ more, behind)

def quotedScalar? (quote : Quote) (source : Source) : Option (List Char × Source) :=
  quotedWithin quote (source.rest.length + 1) source

end Unmangle.Yaml
