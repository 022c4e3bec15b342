import Unmangle.Yaml.Scalar.Gap

/-!
# Plain scalars

A plain scalar is a run of words. It ends at a comment, at a colon with a gap behind
it, and in front of a line that does not stand deeper than its block. Inside
brackets it ends at their punctuation, and lines do not matter. Quotes and other
punctuation mean nothing once it has begun.
-/
namespace Unmangle.Yaml

/-- Whether a word ends here. -/
def endsWord (inFlow : Bool) : List Char → Bool
  | [] => true
  | c :: rest =>
    isBlank c || isBreak c || (c == ':' && atGap rest) || (inFlow && isFlowIndicator c)

/-- A word. Inside brackets a colon in front of punctuation is an error. -/
def plainWord? (inFlow : Bool) : List Char → Option (List Char)
  | [] => some []
  | c :: rest =>
    let isStray := match rest with
      | next :: _ => inFlow && c == ':' && (isFlowIndicator next || next == '?')
      | [] => false
    if isStray then none
    else if endsWord inFlow (c :: rest) then some []
    else (plainWord? inFlow rest).map (c :: ·)

/-- What was read of a plain scalar: its text, the gap behind it, and the source behind
that. -/
structure PlainScalar where
  text : List Char
  gap : Gap
  behind : Source
  deriving Repr, DecidableEq, Inhabited

/-- A plain scalar whose later lines stand at `indent` or deeper. -/
def plainWithin (inFlow : Bool) (indent : Int) : Nat → Source → Option PlainScalar
  | 0, _ => none
  | rounds + 1, source => do
    if source.documentMark?.isSome ∨ source.next? = some '#' then
      return ⟨[], .blanks [], source⟩
    let word ← plainWord? inFlow source.rest
    let source := source.skip word.length
    if source.rest.isEmpty ∨ !source.gapAt 0 then
      return ⟨word, .blanks [], source⟩
    let (gap, behind) ← Gap.read indent (.blanks []) source
    if !inFlow ∧ (behind.column : Int) < indent then
      return ⟨word, gap, behind⟩
    let more ← plainWithin inFlow indent rounds behind
    if more.text.isEmpty then return ⟨word, gap, behind⟩
    return { more with text := word ++ gap.text ++ more.text }

def plainScalar? (inFlow : Bool) (indent : Int) (source : Source) : Option PlainScalar :=
  plainWithin inFlow indent (source.rest.length + 1) source

end Unmangle.Yaml
