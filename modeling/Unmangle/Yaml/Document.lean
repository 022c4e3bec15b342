import Unmangle.Yaml.Lexeme
import Unmangle.Yaml.Node

/-!
# Documents of YAML

The tokens of a text are read as one value. Nothing may be written for a value at
the places where it would stand: behind a dash or a colon, and as a key.
-/
namespace Unmangle.Yaml

/-- What is left of the tokens, and the anchors that were met. The number of an anchor
is the number of different names before it. -/
structure Reading where
  tokens : List Token
  anchors : List (List Char × Nat) := []
  deriving Repr, DecidableEq, Inhabited

abbrev Read := StateT Reading Option

namespace Read

def peek : Read (Option Token) := do
  return (← get).tokens.head?

def skip : Read Unit :=
  modify fun reading => { reading with tokens := reading.tokens.drop 1 }

def expect (token : Token) : Read Unit := do
  guard ((← peek) = some token)
  skip

/-- The number of a new anchor. A name that is used again counts once. -/
def register (name : List Char) : Read Nat := do
  let reading ← get
  let number := reading.anchors.length
  let others := reading.anchors.filter (·.1 != name)
  set { reading with anchors := (name, number) :: others }
  return number

/-- The number of an anchor that was met. -/
def anchorOf (name : List Char) : Read Nat := do
  match (← get).anchors.lookup name with
  | some number => return number
  | none => failure

/-- An anchor, if one comes next. -/
def anchor? : Read (Option (List Char)) := do
  match ← peek with
  | some (.anchor name) =>
    skip
    return some name
  | _ => return none

/-- A tag, if one comes next. -/
def tag? : Read (Option Tag) := do
  match ← peek with
  | some (.tag tag) =>
    skip
    return some tag
  | _ => return none

/-- An anchor and a tag, of which either may come first and both may be missing. -/
def properties : Read (Option (List Char) × Option Tag) := do
  match ← anchor? with
  | some anchor => return (some anchor, ← tag?)
  | none =>
    match ← tag? with
    | some tag => return (← anchor?, some tag)
    | none => return (none, none)

end Read

abbrev Handles := List (List Char × List Char)

/-- A tag in full. A handle that is not known is an error. -/
def resolveTag (handles : Handles) : Option Tag → Read (Option (List Char))
  | none => return none
  | some tag =>
    match tag.resolve? handles with
    | some full => return some full
    | none => failure

/-- Where a value stands. -/
inductive Position
  /-- In brackets, where no block begins. -/
  | flow
  | block
  /-- In a mapping, whose column the items of a sequence may share. -/
  | entry
  deriving Repr, DecidableEq, Inhabited

open Read

mutual

/-- A value. The rounds of each function bound the depth of the document. -/
def value (handles : Handles) : Nat → Position → Read Node
  | 0, _ => failure
  | rounds + 1, position => do
    match ← peek with
    | some (.aliasOf name) =>
      skip
      return .aliasOf (← anchorOf name)
    | _ =>
      let (anchor, tag) ← properties
      let tag ← resolveTag handles tag
      match anchor with
      | some name =>
        let number ← register name
        return .anchored number (← content handles rounds position true tag)
      | none => content handles rounds position tag.isSome tag

/-- A value behind its anchor and tag, which may stand alone. A scalar whose tag is a
mark and nothing else has none. -/
def content (handles : Handles) : Nat → Position → Bool → Option (List Char) → Read Node
  | 0, _, _, _ => failure
  | rounds + 1, position, mayBeEmpty, tag => do
    match ← peek, position with
    | some .blockEntry, .entry => return .sequence (← sharedItems handles rounds)
    | some (.scalar style text), _ =>
      skip
      return .scalar style (tag.filter (· != ['!'])) text
    | some .flowSequenceStart, _ =>
      skip
      return .sequence (← flowItems handles rounds true)
    | some .flowMappingStart, _ =>
      skip
      return .mapping (← flowEntries handles rounds true)
    | some .blockSequenceStart, .block | some .blockSequenceStart, .entry =>
      skip
      return .sequence (← blockItems handles rounds)
    | some .blockMappingStart, .block | some .blockMappingStart, .entry =>
      skip
      return .mapping (← blockEntries handles rounds)
    | _, _ => if mayBeEmpty then return .scalar .plain tag [] else failure

/-- A value, or nothing where one of some tokens comes next. -/
def valueOr (handles : Handles) : Nat → Position → List Token → Read Node
  | 0, _, _ => failure
  | rounds + 1, position, ends => do
    match ← peek with
    | some token => if token ∈ ends then return .empty else value handles rounds position
    | none => failure

/-- The items of a block, up to its end. -/
def blockItems (handles : Handles) : Nat → Read (List Node)
  | 0 => failure
  | rounds + 1 => do
    match ← peek with
    | some .blockEntry =>
      skip
      let item ← valueOr handles rounds .block [.blockEntry, .blockEnd]
      return item :: (← blockItems handles rounds)
    | some .blockEnd =>
      skip
      return []
    | _ => failure

/-- Items in the column of a mapping, up to its next key or its end. -/
def sharedItems (handles : Handles) : Nat → Read (List Node)
  | 0 => failure
  | rounds + 1 => do
    match ← peek with
    | some .blockEntry =>
      skip
      let item ← valueOr handles rounds .block [.blockEntry, .key, .value, .blockEnd]
      return item :: (← sharedItems handles rounds)
    | _ => return []

/-- The entries of a block, up to its end. -/
def blockEntries (handles : Handles) : Nat → Read (List (Node × Node))
  | 0 => failure
  | rounds + 1 => do
    match ← peek with
    | some .key =>
      skip
      let key ← valueOr handles rounds .entry [.key, .value, .blockEnd]
      let value ← blockEntryValue handles rounds
      return (key, value) :: (← blockEntries handles rounds)
    | some .blockEnd =>
      skip
      return []
    | _ => failure

/-- The value behind a colon, or nothing where there is no colon. -/
def blockEntryValue (handles : Handles) : Nat → Read Node
  | 0 => failure
  | rounds + 1 => do
    match ← peek with
    | some .value =>
      skip
      valueOr handles rounds .entry [.key, .value, .blockEnd]
    | _ => return .empty

/-- The items in square brackets, up to the closing one. An item may be one entry of
a mapping. -/
def flowItems (handles : Handles) : Nat → Bool → Read (List Node)
  | 0, _ => failure
  | rounds + 1, isFirst => do
    unless isFirst || (← peek) == some .flowSequenceEnd do expect .flowEntry
    match ← peek with
    | some .flowSequenceEnd =>
      skip
      return []
    | some .key =>
      skip
      let entry ← flowPair handles rounds
      return .mapping [entry] :: (← flowItems handles rounds false)
    | _ =>
      let item ← value handles rounds .flow
      return item :: (← flowItems handles rounds false)

/-- One entry in square brackets, behind the mark of its key. Where no key follows the
mark, the token that does is passed over. -/
def flowPair (handles : Handles) : Nat → Read (Node × Node)
  | 0 => failure
  | rounds + 1 => do
    match ← peek with
    | some .value | some .flowEntry | some .flowSequenceEnd =>
      skip
      return (.empty, ← flowEntryValue handles rounds .flowSequenceEnd)
    | _ =>
      let key ← value handles rounds .flow
      return (key, ← flowEntryValue handles rounds .flowSequenceEnd)

/-- The entries in curly brackets, up to the closing one. A key may stand alone. -/
def flowEntries (handles : Handles) : Nat → Bool → Read (List (Node × Node))
  | 0, _ => failure
  | rounds + 1, isFirst => do
    unless isFirst || (← peek) == some .flowMappingEnd do expect .flowEntry
    match ← peek with
    | some .flowMappingEnd =>
      skip
      return []
    | some .key =>
      skip
      let key ← valueOr handles rounds .flow [.value, .flowEntry, .flowMappingEnd]
      let value ← flowEntryValue handles rounds .flowMappingEnd
      return (key, value) :: (← flowEntries handles rounds false)
    | _ =>
      let key ← value handles rounds .flow
      return (key, .empty) :: (← flowEntries handles rounds false)

/-- The value behind a colon in brackets, or nothing where there is no colon. -/
def flowEntryValue (handles : Handles) : Nat → Token → Read Node
  | 0, _ => failure
  | rounds + 1, close => do
    match ← peek with
    | some .value =>
      skip
      valueOr handles rounds .flow [.flowEntry, close]
    | _ => return .empty

end

/-- The directives in front of a document. A version is written once, and a handle is
explained once. -/
def directives (version : Bool) (handles : Handles) : List Token → Option (Handles × List Token)
  | .directive (.version major minor) :: rest =>
    if version || major != 1 || (minor != 1 && minor != 2) then none
    else directives true handles rest
  | .directive (.tag handle expansion) :: rest =>
    if (handles.lookup handle).isSome then none
    else directives version ((handle, expansion) :: handles) rest
  | rest => some (handles, rest)

/-- Nothing is written where a document ends at once. -/
def endsDocument : List Token → Bool
  | [] => true
  | .documentStart :: _ | .documentEnd :: _ | .directive _ :: _ => true
  | _ => false

/-- The value of a document, and the tokens behind it. -/
def document? (handles : Handles) (tokens : List Token) : Option (Node × List Token) := do
  let (node, reading) ← (value handles (4 * tokens.length + 4) .block).run { tokens := tokens }
  return (node, reading.tokens)

/-- The value of the first document of some tokens, and what is behind it. -/
def firstDocument? (tokens : List Token) : Option (Node × List Token) :=
  match tokens with
  | [] => some (.empty, [])
  | .documentStart :: _ | .directive _ :: _ => do
    let (handles, rest) ← directives false [] tokens
    match rest with
    | .documentStart :: rest =>
      if endsDocument rest then some (.empty, rest)
      else document? (handles ++ standardHandles) rest
    | _ => none
  | _ => document? standardHandles tokens

/-- The value of the one document of a text. -/
def read? (text : List Char) : Option Node := do
  guard (text.all isPrintable)
  let (node, rest) ← tokens? text >>= firstDocument?
  guard (rest.all (· == .documentEnd))
  return node

end Unmangle.Yaml
