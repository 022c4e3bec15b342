import Unmangle.Spelling.Declarator

/-!
# Steps of spelling

A declarator surrounds the name that it declares, so every node is spelled in two
halves, before the name and behind it. A speller knows how to spell the halves of
other nodes, and the steps here put them together.
-/
namespace Unmangle

/-- The part of a node before the declared name, or the part behind it. -/
inductive Half
  | left
  | right
  deriving Repr, DecidableEq, Inhabited

/-- What spelling needs: the symbol, its tree, and a way to spell any half. -/
structure Speller where
  symbol : ByteArray
  tree : Tree
  half : Half → NodeId → Print Unit

namespace Speller

open Print

variable (speller : Speller)

def spell (id : NodeId) : Print Unit := do
  speller.half .left id
  speller.half .right id

def text (text : Text) : Print Unit := do
  writeBytes (← bytes speller.symbol text)

/-- A number of the symbol, whose sign is written `n`. -/
def number (value : Text) : Print Unit := do
  let digits ← bytes speller.symbol value
  if digits[0]? = some 110 then
    write "-"
    writeBytes (digits.extract 1 digits.size)
  else
    writeBytes digits

def parenthesized (id : NodeId) : Print Unit := do
  write "("
  speller.spell id
  write ")"

/-- Nodes with commas between them. A node that spells nothing has no comma. -/
def separated (isFirst : Bool) : List NodeId → Print Unit
  | [] => pure ()
  | id :: rest => do
    let before ← written
    whenever (!isFirst) (write ", ")
    let start ← written
    speller.spell id
    if (← written) = start then
      truncate before
      separated isFirst rest
    else
      separated false rest

def list (nodes : NodeList) : Print Unit := do
  speller.separated true (← elements speller.tree nodes)

def parenthesizedList (nodes : NodeList) : Print Unit := do
  write "("
  speller.list nodes
  write ")"

def inBrackets (id : Option NodeId) : Print Unit := do
  write "["
  ifAny id speller.spell
  write "]"

/-- The parameters of a closure, if the node is one. -/
def closureParams (id : NodeId) : Print Unit := do
  match ← node speller.tree id with
  | .closureType params _ => speller.parenthesizedList params
  | _ => pure ()

/-- The elements of an expansion behind the first. -/
def laterElements (pattern : NodeId) (size : Nat) : List Nat → Print Unit
  | [] => pure ()
  | index :: rest => do
    write ", "
    modify fun canvas => { canvas with pack := some ⟨index, size⟩ }
    speller.spell pattern
    laterElements pattern size rest

/-- A pattern once for each element of the pack that it mentions, and not at all
for an empty pack. Without a pack it is spelled once, with an ellipsis. -/
def expandOnce (pattern : NodeId) : Print Unit := do
  let start ← written
  speller.spell pattern
  match (← get).pack with
  | none => write "..."
  | some pack =>
    if pack.size = 0 then truncate start
    else speller.laterElements pattern pack.size (List.range' 1 (pack.size - 1))

/-- An expansion. A pack being expanded around it is not seen, and stays as it is. -/
def expand (pattern : NodeId) : Print Unit :=
  ⟨fun canvas =>
    match (speller.expandOnce pattern).run { canvas with pack := none } with
    | .ok () after => .ok () { after with pack := canvas.pack }
    | .error fault after => .error fault { after with pack := canvas.pack },
  fun canvas => (speller.expandOnce pattern).looksAt { canvas with pack := none }⟩

/-- An initializer behind the field or the element that it is for. -/
def initializer (id : NodeId) : Print Unit := do
  (match (← node speller.tree id) with
  | .fieldInit .. | .indexInit .. | .rangeInit .. => pure ()
  | _ => write " = ")
  speller.spell id

/-- The space and the parenthesis that a pointer needs before its star. -/
def openDeclarator (pointee : NodeId) : Print Unit := do
  whenever (← hasTail speller.tree .array pointee) (write " ")
  whenever (← hasArrayOrFunction speller.tree pointee) (write "(")

/-- What a pointer has behind its star: the parenthesis, and the pointee's own. -/
def closeDeclarator (pointee : NodeId) : Print Unit := do
  whenever (← hasArrayOrFunction speller.tree pointee) (write ")")
  speller.half .right pointee

end Speller
end Unmangle
