import Unmangle.Grammar.Number
import Unmangle.Grammar.State

/-!
# Tokens

The smallest steps of a parse: looking at the next bytes, moving over a token or a
number, and storing a node.
-/
namespace Unmangle.Parse

/-- The next byte, or NUL at the end. -/
def peek : Parse Char := do
  return (← get).cursor.peekAt 0

def peekAt (distance : Nat) : Parse Char := do
  return (← get).cursor.peekAt distance

def peekPair : Parse (Char × Char) := do
  let cursor := (← get).cursor
  return (cursor.peekAt 0, cursor.peekAt 1)

def atEnd : Parse Bool := do
  return (← get).cursor.atEnd

def advance (count : Nat) : Parse Unit :=
  modify fun state => { state with cursor := state.cursor.advance count }

def lookingAt (token : String) : Parse Bool := do
  return ((← get).cursor.strip? token.toList).isSome

/-- Move over a token if it comes next. -/
def accept (token : String) : Parse Bool := step fun state =>
  match state.cursor.strip? token.toList with
  | some cursor => .ok true { state with cursor := cursor }
  | none => .ok false state

/-- The fault for a symbol that does not go on as the grammar needs. -/
def unexpected {α : Type} : Parse α := do
  if ← atEnd then throw .unexpectedEnd else throw .unexpectedText

def expect (token : String) : Parse Unit := do
  ensure (← accept token) unexpected

/-- The value, or a fault if there is none. -/
def orFault {α : Type} (value : Option α) (fault : Fault) : Parse α :=
  match value with
  | some value => pure value
  | none => throw fault

def remainder : Parse Text := step fun state =>
  let (run, cursor) := state.cursor.spanWhile fun _ => true
  .ok (.span state.cursor.offset (state.cursor.offset + run.length)) { state with cursor := cursor }

/-- Store a node. -/
def make (node : Node) : Parse NodeId := step fun state =>
  let ⟨cursor, level, ⟨tree, substitutions, forward, scopes⟩, facts, args, ahead, lambda⟩ := state
  let (id, tree) := tree.alloc node
  .ok id ⟨cursor, level, ⟨tree, substitutions, forward, scopes⟩, facts, args, ahead, lambda⟩

/-- Store a list of nodes. -/
def makeList (ids : Array NodeId) : Parse NodeList := step fun state =>
  let ⟨cursor, level, ⟨tree, substitutions, forward, scopes⟩, facts, args, ahead, lambda⟩ := state
  let (list, tree) := tree.allocList ids
  .ok list ⟨cursor, level, ⟨tree, substitutions, forward, scopes⟩, facts, args, ahead, lambda⟩

def makeName (words : String) : Parse NodeId :=
  make (.name (.literal words))

def node (id : NodeId) : Parse Node :=
  ⟨fun state => .ok (state.work.tree.node id) state, fun state event => event = .opens state id⟩

/-- Put another node under a name that is already in use. -/
def patch (id : NodeId) (node : Node) : Parse Unit :=
  let changed (state : ParseState) : ParseState :=
    { state with work := { state.work with tree := state.work.tree.set id node } }
  ⟨fun state => .ok () (changed state), fun state event =>
    event = .opens state id ∨ event = .visits (changed state)⟩

/-- List a component for substitution. No component is listed twice. -/
def enlist (id : NodeId) : Parse Unit := step fun state =>
  if state.work.substitutions.contains id then .error .duplicateSubstitution state
  else
    let ⟨cursor, level, ⟨tree, substitutions, forward, scopes⟩, facts, args, ahead, lambda⟩ := state
    .ok () ⟨cursor, level, ⟨tree, substitutions.insert id, forward, scopes⟩, facts, args, ahead,
      lambda⟩

def delist : Parse Unit := do
  let table ← orFault (← get).work.substitutions.pop? .unexpectedText
  modify fun state => { state with work := { state.work with substitutions := table } }

def listed (index : Nat) : Parse NodeId := do
  orFault ((← get).work.substitutions.get? index) .badBackReference

/-- Bring one more argument of the outer level into scope. -/
def addArgument (id : NodeId) : Parse Unit := step fun state =>
  let ⟨cursor, level, ⟨tree, substitutions, forward, ⟨levels, outer⟩⟩, facts, args, ahead,
    lambda⟩ := state
  .ok () ⟨cursor, level, ⟨tree, substitutions, forward, ⟨levels, outer.push id⟩⟩, facts, args,
    ahead, lambda⟩

def setScopes (scopes : TemplateScopes) : Parse Unit :=
  modify fun state => { state with work := { state.work with scopes := scopes } }

def setLevels (levels : Array ScopeLevel) : Parse Unit :=
  modify fun state =>
    { state with work := { state.work with scopes := { state.work.scopes with levels := levels } } }

/-- Learn something of the name being read, if it is the name of the encoding. -/
def learn (tracked : Bool) (change : NameFacts → NameFacts) : Parse Unit :=
  if tracked then modify fun state => { state with facts := change state.facts } else pure ()

def digits (property : UInt8 → Bool) : Parse (List UInt8) := step fun state =>
  let (run, cursor) := state.cursor.spanWhile property
  .ok run { state with cursor := cursor }

/-- A decimal number as it is written, with a sign `n` where one is allowed. The
text is empty, and nothing is read, when there is no digit. -/
def number (signed : Bool) : Parse Text := step fun state =>
  let start := state.cursor
  let digitsStart := if signed then (start.strip? ['n']).getD start else start
  match digitsStart.spanWhile Number.isDigit with
  | ([], _) => .ok .empty state
  | (_, cursor) => .ok (.span start.offset cursor.offset) { state with cursor := cursor }

/-- A number in one base, at least one digit long. -/
def value (base : Nat) (property : UInt8 → Bool) : Parse Nat := do
  match ← digits property with
  | [] => unexpected
  | run => orFault (Number.value? base run) .overflow

def decimal : Parse Nat :=
  value 10 Number.isDigit

def seqId : Parse Nat :=
  value 36 Number.isSeqDigit

/-- Nothing that follows here can begin a type. -/
def atEncodingEnd : Parse Bool := do
  match (← get).cursor.rest with
  | [] => return true
  | byte :: _ => return byte == 69 || byte == 46 || byte == 95

/-- The number behind a local entity, which does not show: `_` and one digit, or
`__`, a number and `_`. -/
def skipDiscriminator : Parse Unit := do
  if (← peek) != '_' then return
  let before := (← get).cursor
  let second ← peekAt 1
  if second.isDigit then
    advance 2
  else if second == '_' then
    advance 2
    let number ← number false
    let closed ← (if number.isEmpty then pure false else accept "_")
    ensure closed (modify fun state => { state with cursor := before })

/-- The qualifiers in their fixed order: restrict, volatile, const. -/
def qualifiers : Parse Qualifiers := do
  let isRestrict ← accept "r"
  let isVolatile ← accept "V"
  let isConst ← accept "K"
  return ⟨isConst, isVolatile, isRestrict⟩

/-- A length and as many bytes: the identifier, and a cursor over its bytes alone. -/
def identifierFrom : Parse (Text × Cursor) := do
  let length ← decimal
  ensure (length != 0) (throw .unexpectedText)
  let cursor := (← get).cursor
  let behind ← orFault (cursor.take? length) .unexpectedEnd
  modify fun state => { state with cursor := behind }
  return (.span cursor.offset behind.offset, ⟨cursor.offset, cursor.rest.take length⟩)

def identifier : Parse Text := do
  return (← identifierFrom).1

/-- Repeat a step until a closing test holds, starting from a value. -/
def untilHolds {β : Type} (close : Parse Bool) (start : β) (step : β → Parse β) : Parse β := do
  repeatUntil close step (0 :: (← get).cursor.rest) start

/-- Nodes until a closing test holds, behind those already read. -/
def moreNodes (close : Parse Bool) (item : Parse NodeId) (nodes : Array NodeId) :
    Parse (Array NodeId) :=
  untilHolds close nodes fun nodes => return nodes.push (← item)

/-- Any number of nodes, up to a closing token. -/
def nodesUntil (token : String) (item : Parse NodeId) : Parse (Array NodeId) :=
  moreNodes (accept token) item #[]

/-- At least one node, until a closing test holds. -/
def someNodes (close : Parse Bool) (item : Parse NodeId) : Parse (Array NodeId) := do
  moreNodes close item #[← item]

end Unmangle.Parse
