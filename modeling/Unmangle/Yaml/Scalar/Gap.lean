import Unmangle.Yaml.Source

/-!
# Gaps inside a scalar

A scalar may go on behind blanks and over line breaks. Blanks on one line are kept.
A single line break is written as a space, and of more than one the first is
dropped.
-/
namespace Unmangle.Yaml

/-- Blanks and line breaks between two words of a scalar. -/
inductive Gap
  | blanks (run : List Char)
  /-- The first line break, and those of the empty lines behind it. There is no first
  one where a backslash took it away. -/
  | breaks (first : Option Char) (more : List Char)
  deriving Repr, DecidableEq, Inhabited

namespace Gap

def isBroken : Gap → Bool
  | blanks _ => false
  | breaks .. => true

/-- What the gap stands for between two words. -/
def text : Gap → List Char
  | blanks run => run
  | breaks (some '\n') [] => [' ']
  | breaks (some '\n') more => more
  | breaks first more => first.toList ++ more

/-- One more blank. Those in front of a later line are not kept. -/
def addBlank (c : Char) : Gap → Gap
  | blanks run => blanks (run ++ [c])
  | gap => gap

/-- One more line break. The blanks at the end of the line are not kept. -/
def addBreak (c : Char) : Gap → Gap
  | blanks _ => breaks (some c) []
  | breaks first more => breaks first (more ++ [c])

/-- Read on in a gap. A tab may not stand further left than `indent` on a later
line. The rounds are as many as the characters that are left, and one more. -/
def readWithin (indent : Int) : Nat → Gap → Source → Option (Gap × Source)
  | 0, _, _ => none
  | rounds + 1, gap, source =>
    match source.break? with
    | some (c, behind) => readWithin indent rounds (gap.addBreak c) behind
    | none =>
      match source.next? with
      | some ' ' => readWithin indent rounds (gap.addBlank ' ') (source.skip 1)
      | some '\t' =>
        if gap.isBroken ∧ (source.column : Int) < indent then none
        else readWithin indent rounds (gap.addBlank '\t') (source.skip 1)
      | _ => some (gap, source)

def read (indent : Int) (gap : Gap) (source : Source) : Option (Gap × Source) :=
  readWithin indent (source.rest.length + 1) gap source

end Gap
end Unmangle.Yaml
