import Unmangle.Yaml.Tag

/-!
# Tokens of YAML

The tokens of a text mark where blocks begin and end as well, so places in the text
do not matter any more.
-/
namespace Unmangle.Yaml

/-- How a scalar is written. -/
inductive ScalarStyle
  | plain
  | quoted
  | literal
  | folded
  deriving Repr, DecidableEq, Inhabited

inductive Token
  | directive (directive : Directive)
  | documentStart
  | documentEnd
  -- blocks told by indentation
  | blockSequenceStart
  | blockMappingStart
  | blockEnd
  /-- The dash in front of an item. -/
  | blockEntry
  -- values in brackets
  | flowSequenceStart
  | flowSequenceEnd
  | flowMappingStart
  | flowMappingEnd
  | flowEntry
  -- entries of both kinds of mapping
  | key
  | value
  -- values
  | aliasOf (name : List Char)
  | anchor (name : List Char)
  | tag (tag : Tag)
  | scalar (style : ScalarStyle) (text : List Char)
  deriving Repr, DecidableEq, Inhabited

end Unmangle.Yaml
