import Unmangle.Spelling.Canvas

/-!
# Looking through references

Template parameters and packs are spelled as what they stand for. Whether a type
needs parentheses around its declarator, what a reference to a reference is, and
what a constructor is called all depend on the node behind them. References can
lead in a circle, so nothing is followed further than a fixed number of times.
-/
namespace Unmangle

/-- What a type may have behind the name that it declares. -/
inductive Tail
  /-- Anything. -/
  | any
  | array
  | function
  deriving Repr, DecidableEq, Inhabited

namespace Print

/-- How often a reference is followed. -/
def chainLimit : Nat := 128

/-- Whether the type has such a tail, as far as it can be followed. A pointer is
neither an array nor a function, but may have the tail of one. -/
def hasTailWithin (tree : Tree) (tail : Tail) : Nat → NodeId → Print Bool
  | 0, _ => return false
  | steps + 1, id => do
    match ← node tree id with
    | .qualified target _ | .templateParam target | .forwardParam _ (some target) =>
      hasTailWithin tree tail steps target
    | .parameterPack elements =>
      match ← currentElement tree elements with
      | some element => hasTailWithin tree tail steps element
      | none => return false
    | .pointer target | .reference _ target | .memberPointer _ target =>
      if tail = .any then hasTailWithin tree tail steps target else return false
    | .array .. => return tail != .function
    | .functionType .. | .function .. => return tail != .array
    | _ => return false

def hasTail (tree : Tree) (tail : Tail) (id : NodeId) : Print Bool :=
  hasTailWithin tree tail chainLimit id

def hasArrayOrFunction (tree : Tree) (id : NodeId) : Print Bool := do
  if ← hasTail tree .array id then return true else hasTail tree .function id

/-- The node that decides how another is spelled, as far as it can be followed. -/
def behindWithin (tree : Tree) : Nat → NodeId → Print NodeId
  | 0, id => return id
  | steps + 1, id => do
    match ← node tree id with
    | .templateParam target | .forwardParam _ (some target) => behindWithin tree steps target
    | .parameterPack elements =>
      match ← currentElement tree elements with
      | some element => behindWithin tree steps element
      | none => return id
    | _ => return id

/-- The node that decides how another is spelled. -/
def behind (tree : Tree) (id : NodeId) : Print NodeId :=
  behindWithin tree chainLimit id

/-- The one reference that a chain of references comes to, and what it refers to.
There is none if the chain has no end. -/
def collapseWithin (tree : Tree) : Nat → Reference → NodeId → Print (Option (Reference × NodeId))
  | 0, _, _ => return none
  | steps + 1, kind, pointee => do
    match ← node tree (← behind tree pointee) with
    | .reference inner pointee => collapseWithin tree steps (kind.collapse inner) pointee
    | _ => return some (kind, pointee)

def collapse (tree : Tree) (kind : Reference) (pointee : NodeId) :
    Print (Option (Reference × NodeId)) :=
  collapseWithin tree chainLimit kind pointee

/-- The last component of a name, as far as it can be followed. -/
def baseNameWithin (tree : Tree) : Nat → NodeId → Print Text
  | 0, _ => return .empty
  | steps + 1, id => do
    match ← node tree id with
    | .name text => return text
    | .abbreviation short | .expandedAbbreviation short => return .literal short.baseName
    | .nestedName _ name | .qualifiedName _ name | .instantiation name _ | .stdName name
    | .abiTagged name _ | .templateParam name | .forwardParam _ (some name) =>
      baseNameWithin tree steps name
    | _ => return .empty

def baseName (tree : Tree) (id : NodeId) : Print Text :=
  baseNameWithin tree chainLimit id

end Print
end Unmangle
