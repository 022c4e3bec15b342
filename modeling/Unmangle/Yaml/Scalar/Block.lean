import Unmangle.Yaml.Source

/-!
# Block scalars

A block scalar is the run of lines that stand deeper than the block around it. A
literal one keeps its line breaks, and a folded one joins the lines that begin with
no blank. The header says how the line breaks at the end are treated, and may say
how deep the lines stand.
-/
namespace Unmangle.Yaml

/-- What becomes of the line breaks at the end. -/
inductive Chomping
  | strip
  /-- The first is kept. -/
  | clip
  | keep
  deriving Repr, DecidableEq, Inhabited

/-- The header behind its first character. A depth of zero means that none is given. -/
structure BlockHeader where
  chomping : Chomping := .clip
  depth : Nat := 0
  deriving Repr, DecidableEq, Inhabited

def chomping? : Char → Option Chomping
  | '-' => some .strip
  | '+' => some .keep
  | _ => none

/-- The two parts of a header come in either order. A depth of zero is not given in
digits. -/
def blockHeader? (source : Source) : Option (BlockHeader × Source) :=
  let chomping := source.next? >>= chomping?
  let source := if chomping.isSome then source.skip 1 else source
  let digit := source.next?.filter Char.isDigit
  if digit = some '0' then none
  else
    let source := if digit.isSome then source.skip 1 else source
    let depth := (digit >>= hexValue?).getD 0
    match chomping, source.next? >>= chomping? with
    | some chomping, _ => some (⟨chomping, depth⟩, source)
    | none, some chomping => some (⟨chomping, depth⟩, source.skip 1)
    | none, none => some (⟨.clip, depth⟩, source)

/-- The empty lines in front of a line: their breaks, the furthest column that was
reached, and the source behind at most `indent` spaces of the line. The spaces of a
line are not limited as long as `indent` is zero. -/
def emptyLines (indent : Nat) : Nat → Source → Option (List Char × Nat × Source)
  | 0, _ => none
  | rounds + 1, source =>
    let spaces := (source.rest.takeWhile (· == ' ')).length
    let source := source.skip (if indent = 0 then spaces else min spaces (indent - source.column))
    if (indent = 0 ∨ source.column < indent) ∧ source.next? = some '\t' then none
    else
      match source.break? with
      | none => some ([], source.column, source)
      | some (c, behind) => do
        let (breaks, furthest, behind) ← emptyLines indent rounds behind
        return (c :: breaks, max source.column furthest, behind)

/-- What stands between two lines: the break behind the first, and those of the empty
lines. A folded scalar turns a single one into a space. -/
def joint (folds : Bool) (first : Option Char) (breaks : List Char) : List Char :=
  if folds && first == some '\n' then (if breaks.isEmpty then [' '] else breaks)
  else first.toList ++ breaks

/-- The end of a scalar, of which the last line has been read. -/
def chomped (chomping : Chomping) (first : Option Char) (breaks : List Char) : List Char :=
  match chomping with
  | .strip => []
  | .clip => first.toList
  | .keep => first.toList ++ breaks

/-- Where the lines of a scalar go on: the break behind the last line, whether that line
began with a blank, and the breaks of the empty lines. -/
structure LineState where
  first : Option Char := none
  isIndented : Bool := false
  breaks : List Char := []
  deriving Repr, DecidableEq, Inhabited

/-- The lines at a column. -/
def blockLines (isLiteral : Bool) (chomping : Chomping) (indent : Nat) :
    Nat → LineState → Source → Option (List Char × Source)
  | 0, _, _ => none
  | rounds + 1, state, source =>
    if source.column = indent ∧ !source.rest.isEmpty then do
      let isIndented := source.next?.any isBlank
      let front := joint (!isLiteral && !state.isIndented && !isIndented) state.first state.breaks
      let (line, source) := source.span (!isBreak ·)
      let first := source.break?.map (·.1)
      let source := source.skipBreak
      let (breaks, _, source) ← emptyLines indent (source.rest.length + 1) source
      let (more, source) ←
        blockLines isLiteral chomping indent rounds ⟨first, isIndented, breaks⟩ source
      return (front ++ line ++ more, source)
    else some (chomped chomping state.first state.breaks, source)

/-- A block scalar behind its first character, in a block at a column. -/
def blockScalar? (isLiteral : Bool) (column : Int) (source : Source) :
    Option (List Char × Source) := do
  let (header, source) ← blockHeader? source
  let source ← source.lineEnd?
  let given := if header.depth = 0 then 0 else (max column 0).toNat + header.depth
  let (breaks, furthest, source) ← emptyLines given (source.rest.length + 1) source
  let indent := if given = 0 then max furthest (max (column + 1).toNat 1) else given
  blockLines isLiteral header.chomping indent (source.rest.length + 1) ⟨none, false, breaks⟩ source

end Unmangle.Yaml
