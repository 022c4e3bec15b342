import Unmangle.Yaml.Token

/-!
# Layout

Reading tokens keeps track of the open blocks and of what may turn out to be a key.
A key is known by the colon behind it, so its token is put in front of it only then,
and with it the token for the block that it begins.
-/
namespace Unmangle.Yaml

/-- Where something stands that is a key if a colon follows it. -/
structure KeyMark where
  /-- A key must begin here, since nothing else may at the column of a block. -/
  isRequired : Bool
  /-- The number of tokens in front. -/
  token : Nat
  offset : Nat
  line : Nat
  column : Nat
  deriving Repr, DecidableEq, Inhabited

namespace KeyMark

/-- The longest key, in bytes. -/
def maxLength : Nat := 1024

/-- What may be a key as long as it is not too far away. A key that must be there may
not be given up. -/
def keep? (source : Source) : Option KeyMark → Option (Option KeyMark)
  | none => some none
  | some mark =>
    if mark.line < source.line ∨ mark.offset + maxLength < source.offset then
      if mark.isRequired then none else some none
    else some (some mark)

end KeyMark

/-- What was read of a text. -/
structure Layout where
  source : Source
  tokens : Array Token := #[]
  /-- The columns of the open blocks, innermost first. -/
  blocks : List Nat := []
  /-- What may be a key of the innermost brackets, or outside of any. -/
  key : Option KeyMark := none
  /-- What may be a key around the brackets that are open, innermost first. -/
  outerKeys : List (Option KeyMark) := []
  /-- Whether a key may begin here. -/
  keyAllowed : Bool := true
  deriving Repr, DecidableEq, Inhabited

namespace Layout

def inFlow (layout : Layout) : Bool :=
  !layout.outerKeys.isEmpty

/-- The column of the innermost block. It is left of the text where there is none. -/
def indent (layout : Layout) : Int :=
  match layout.blocks with
  | column :: _ => column
  | [] => -1

/-- Give up what is too far away to be a key. -/
def dropStaleKeys (layout : Layout) : Option Layout := do
  let key ← KeyMark.keep? layout.source layout.key
  let outerKeys ← layout.outerKeys.mapM (KeyMark.keep? layout.source)
  return { layout with key := key, outerKeys := outerKeys }

def dropKey (layout : Layout) : Option Layout :=
  if layout.key.any KeyMark.isRequired then none else some { layout with key := none }

/-- What comes next may be a key, if one may begin here. -/
def markKey (layout : Layout) : Option Layout := do
  if layout.keyAllowed then
    let layout ← layout.dropKey
    let source := layout.source
    return { layout with
      key := some {
        isRequired := !layout.inFlow && layout.indent == source.column
        token := layout.tokens.size
        offset := source.offset
        line := source.line
        column := source.column } }
  else
    return layout

/-- Put a token in front of others. -/
def insert (layout : Layout) (place : Nat) (token : Token) : Layout :=
  { layout with
    tokens := layout.tokens.extract 0 place ++ #[token] ++
      layout.tokens.extract place layout.tokens.size }

/-- A token that takes up some characters. -/
def push (layout : Layout) (token : Token) (width : Nat) : Layout :=
  { layout with tokens := layout.tokens.push token, source := layout.source.skip width }

/-- Begin a block at a column further right than the innermost one. -/
def openBlock (layout : Layout) (column place : Nat) (token : Token) : Layout :=
  if !layout.inFlow ∧ layout.indent < column then
    { layout.insert place token with blocks := column :: layout.blocks }
  else layout

/-- End the blocks that stand further right than a column. -/
def closeBlocks (layout : Layout) (column : Int) : Layout :=
  if layout.inFlow then layout
  else
    let closed := layout.blocks.takeWhile fun (block : Nat) => column < (block : Int)
    { layout with
      tokens := layout.tokens ++ Array.replicate closed.length .blockEnd
      blocks := layout.blocks.drop closed.length }

/-- Move to the next token, over blanks, comments and line breaks. Outside of brackets
a new line may begin with a key, and a tab cannot indent one. -/
def toTokenWithin : Nat → Layout → Layout
  | 0, layout => layout
  | rounds + 1, layout =>
    let skipsTabs := layout.inFlow || !layout.keyAllowed
    let source := layout.source.skipWhile fun c => c == ' ' || (skipsTabs && c == '\t')
    let source := if source.next? = some '#' then source.skipWhile (!isBreak ·) else source
    match source.break? with
    | some (_, behind) =>
      toTokenWithin rounds
        { layout with source := behind, keyAllowed := layout.keyAllowed || !layout.inFlow }
    | none => { layout with source := source }

def toToken (layout : Layout) : Layout :=
  toTokenWithin (layout.source.rest.length + 1) layout

end Layout
end Unmangle.Yaml
