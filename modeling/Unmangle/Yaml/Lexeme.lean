import Unmangle.Yaml.Layout
import Unmangle.Yaml.Scalar.Block
import Unmangle.Yaml.Scalar.Plain
import Unmangle.Yaml.Scalar.Quoted

/-!
# Reading tokens

Each step reads one token from where it begins. The first character tells which
token it is.
-/
namespace Unmangle.Yaml
namespace Layout

/-- A token that ends every block and begins no key. -/
def pushDocumentToken (layout : Layout) (token : Token) (behind : Source) : Option Layout := do
  let layout ← (layout.closeBlocks (-1)).dropKey
  return { layout with
    tokens := layout.tokens.push token, source := behind, keyAllowed := false }

def documentToken (layout : Layout) : DocumentMark → Option Layout
  | .start => layout.pushDocumentToken .documentStart (layout.source.skip 3)
  | .stop => layout.pushDocumentToken .documentEnd (layout.source.skip 3)

def directiveToken (layout : Layout) : Option Layout := do
  let (directive, behind) ← directive? layout.source
  layout.pushDocumentToken (.directive directive) behind

/-- An opening bracket, which may begin a key and has keys of its own behind it. -/
def flowStart (layout : Layout) (token : Token) : Option Layout := do
  let layout ← layout.markKey
  return { layout.push token 1 with
    key := none, outerKeys := layout.key :: layout.outerKeys, keyAllowed := true }

/-- A closing bracket. What may be a key is again what was before the opening one. -/
def flowEnd (layout : Layout) (token : Token) : Option Layout := do
  let layout ← layout.dropKey
  let layout := { layout.push token 1 with keyAllowed := false }
  match layout.outerKeys with
  | key :: outerKeys => return { layout with key := key, outerKeys := outerKeys }
  | [] => return layout

def flowEntry (layout : Layout) : Option Layout := do
  let layout ← layout.dropKey
  return { layout.push .flowEntry 1 with keyAllowed := true }

/-- The dash of an item. Brackets do not hold any, which shows only later. -/
def blockEntry (layout : Layout) : Option Layout := do
  guard (layout.inFlow ∨ layout.keyAllowed)
  let layout := layout.openBlock layout.source.column layout.tokens.size .blockSequenceStart
  let layout ← layout.dropKey
  return { layout.push .blockEntry 1 with keyAllowed := true }

/-- The question mark in front of a key of any kind. -/
def keyToken (layout : Layout) : Option Layout := do
  guard (layout.inFlow ∨ layout.keyAllowed)
  let layout := layout.openBlock layout.source.column layout.tokens.size .blockMappingStart
  let layout ← layout.dropKey
  return { layout.push .key 1 with keyAllowed := !layout.inFlow }

/-- The colon behind a key. What was marked is a key now. -/
def valueToken (layout : Layout) : Option Layout := do
  match layout.key with
  | some mark =>
    let layout := layout.insert mark.token .key
    let layout := layout.openBlock mark.column mark.token .blockMappingStart
    return { layout.push .value 1 with key := none, keyAllowed := false }
  | none =>
    guard (layout.inFlow ∨ layout.keyAllowed)
    let layout := layout.openBlock layout.source.column layout.tokens.size .blockMappingStart
    return { layout.push .value 1 with keyAllowed := !layout.inFlow }

/-- The name of an anchor, and the source behind it. -/
def anchorName? (source : Source) : Option (List Char × Source) := do
  let (name, behind) := (source.skip 1).span isWord
  guard (!name.isEmpty ∧ (behind.gapAt 0 ∨ behind.next?.any "?:,]\x7d%@\x60".toList.contains))
  return (name, behind)

/-- A token that may be the beginning of a key. -/
def pushKeyPart (layout : Layout) (token : Token) (behind : Source) : Option Layout := do
  let layout ← layout.markKey
  return { layout with
    tokens := layout.tokens.push token, source := behind, keyAllowed := false }

def anchorToken (layout : Layout) (token : List Char → Token) : Option Layout := do
  let (name, behind) ← anchorName? layout.source
  layout.pushKeyPart (token name) behind

def tagToken (layout : Layout) : Option Layout := do
  let (tag, behind) ← tag? layout.inFlow layout.source
  layout.pushKeyPart (.tag tag) behind

def quotedToken (layout : Layout) (quote : Quote) : Option Layout := do
  let (text, behind) ← quotedScalar? quote (layout.source.skip 1)
  layout.pushKeyPart (.scalar .quoted text) behind

/-- A plain scalar reads the gap behind it too, and a key may begin on a later line. -/
def plainToken (layout : Layout) : Option Layout := do
  let scalar ← plainScalar? layout.inFlow (layout.indent + 1) layout.source
  let layout ← layout.pushKeyPart (.scalar .plain scalar.text) scalar.behind
  return { layout with keyAllowed := scalar.gap.isBroken }

/-- A block scalar is no key, and the line behind it may begin with one. -/
def blockToken (layout : Layout) (isLiteral : Bool) : Option Layout := do
  let style := if isLiteral then ScalarStyle.literal else ScalarStyle.folded
  let layout ← layout.dropKey
  let (text, behind) ← blockScalar? isLiteral layout.indent (layout.source.skip 1)
  return { layout with
    tokens := layout.tokens.push (.scalar style text), source := behind, keyAllowed := true }

/-- A token by its first character. -/
def tokenOf (layout : Layout) (c : Char) : Option Layout :=
  match c with
  | '[' => layout.flowStart .flowSequenceStart
  | '\x7b' => layout.flowStart .flowMappingStart
  | ']' => layout.flowEnd .flowSequenceEnd
  | '\x7d' => layout.flowEnd .flowMappingEnd
  | ',' => layout.flowEntry
  | '-' => if layout.source.gapAt 1 then layout.blockEntry else layout.plainToken
  | '?' => if layout.inFlow || layout.source.gapAt 1 then layout.keyToken else layout.plainToken
  | ':' => if layout.inFlow || layout.source.gapAt 1 then layout.valueToken else layout.plainToken
  | '*' => layout.anchorToken .aliasOf
  | '&' => layout.anchorToken .anchor
  | '!' => layout.tagToken
  | '|' => if layout.inFlow then none else layout.blockToken true
  | '>' => if layout.inFlow then none else layout.blockToken false
  | '\'' => layout.quotedToken .single
  | '"' => layout.quotedToken .double
  | '\t' | '#' | '%' | '@' | '\x60' => none
  | _ => layout.plainToken

/-- The next token, where one begins with a character. -/
def token (layout : Layout) (c : Char) : Option Layout :=
  if layout.source.column = 0 ∧ c = '%' then layout.directiveToken
  else
    match layout.source.documentMark? with
    | some mark => layout.documentToken mark
    | none => layout.tokenOf c

/-- Read all tokens. The rounds are as many as the characters that are left, and one
more. -/
def readWithin : Nat → Layout → Option (Array Token)
  | 0, _ => none
  | rounds + 1, layout => do
    let layout ← layout.toToken.dropStaleKeys
    let layout := layout.closeBlocks layout.source.column
    match layout.source.next? with
    | some c => readWithin rounds (← layout.token c)
    | none =>
      let layout ← (layout.closeBlocks (-1)).dropKey
      return layout.tokens

end Layout

/-- The tokens of a text, if it is made of tokens. -/
def tokens? (text : List Char) : Option (List Token) := do
  let tokens ← Layout.readWithin (text.length + 1) { source := Source.start text }
  return tokens.toList

end Unmangle.Yaml
