import Unmangle.Fault
import Unmangle.Tree.Node

/-!
# What has been spelled so far

Spelling a node writes to a canvas. The canvas also knows which element of a
parameter pack stands for the pack while an expansion is being written.
-/
namespace Unmangle

/-- The place in the pack that is being expanded. -/
structure Pack where
  index : Nat
  size : Nat
  deriving Repr, DecidableEq, Inhabited

/-- The text so far, and what the spelling of the next node depends on. -/
structure Canvas where
  out : ByteArray := .empty
  /-- No pack is being expanded, or an expansion has not met its pack yet. -/
  pack : Option Pack := none
  /-- The number of nodes being spelled. -/
  depth : Nat := 0
  deriving Inhabited

/-- What spelling looks at. -/
inductive Access
  /-- The node under a name. -/
  | node (id : NodeId)
  /-- A stored list, or an element of it. -/
  | list (run : NodeList)
  | text (text : Text)
  deriving Repr, DecidableEq, Inhabited

/-- A step of spelling: what it makes of a canvas, and what it looks at on the way.
What it looks at is a proposition, and nothing is computed for it. -/
structure Print (α : Type) where
  run : Canvas → EStateM.Result Fault Canvas α
  looksAt : Canvas → Access → Prop

namespace Print

@[always_inline, inline]
def throw {α : Type} (fault : Fault) : Print α :=
  ⟨fun canvas => .error fault canvas, fun _ _ => False⟩

@[always_inline]
instance : Monad Print where
  pure value := ⟨fun canvas => .ok value canvas, fun _ _ => False⟩
  bind first next :=
    ⟨fun canvas =>
      match first.run canvas with
      | .ok value after => (next value).run after
      | .error fault after => .error fault after,
    fun canvas access => first.looksAt canvas access ∨
      ∃ value after, first.run canvas = .ok value after ∧ (next value).looksAt after access⟩

@[always_inline]
instance : MonadStateOf Canvas Print where
  get := ⟨fun canvas => .ok canvas canvas, fun _ _ => False⟩
  set canvas := ⟨fun _ => .ok () canvas, fun _ _ => False⟩
  modifyGet change :=
    ⟨fun canvas =>
      let (value, after) := change canvas
      .ok value after,
    fun _ _ => False⟩

/-- Run a step if a test holds. -/
def whenever (holds : Bool) (step : Print Unit) : Print Unit :=
  if holds then step else pure ()

/-- Run a step on a node that may be missing. -/
def ifAny (id : Option NodeId) (step : NodeId → Print Unit) : Print Unit :=
  match id with
  | some id => step id
  | none => pure ()

def node (tree : Tree) (id : NodeId) : Print Node :=
  ⟨fun canvas => .ok (tree.node id) canvas, fun _ access => access = .node id⟩

def elements (tree : Tree) (run : NodeList) : Print (List NodeId) :=
  ⟨fun canvas => .ok (tree.list run).toList canvas, fun _ access => access = .list run⟩

def element (tree : Tree) (run : NodeList) (index : Nat) : Print (Option NodeId) :=
  ⟨fun canvas => .ok (tree.element? run index) canvas, fun _ access => access = .list run⟩

def bytes (symbol : ByteArray) (text : Text) : Print ByteArray :=
  ⟨fun canvas => .ok (text.resolve symbol) canvas, fun _ access => access = .text text⟩

def writeBytes (bytes : ByteArray) : Print Unit :=
  modify fun canvas => { canvas with out := canvas.out ++ bytes }

def write (words : String) : Print Unit :=
  writeBytes words.toUTF8

def written : Print Nat := do
  return (← get).out.size

def truncate (size : Nat) : Print Unit :=
  modify fun canvas => { canvas with out := canvas.out.extract 0 size }

def lastByte : Print (Option UInt8) := do
  let out := (← get).out
  return out[out.size - 1]?

/-- The place of the element that stands for a pack of some size. The first pack that
an expansion meets decides how many elements it has. -/
def currentIndex (size : Nat) : Print Nat := do
  match (← get).pack with
  | some pack => return pack.index
  | none =>
    modify fun canvas => { canvas with pack := some ⟨0, size⟩ }
    return 0

def currentElement (tree : Tree) (elements : NodeList) : Print (Option NodeId) := do
  element tree elements (← currentIndex elements.length)

/-- Qualifiers behind a type, in one order however they were written. -/
def quals (quals : Qualifiers) : Print Unit := do
  whenever quals.isConst (write " const")
  whenever quals.isVolatile (write " volatile")
  whenever quals.isRestrict (write " restrict")

def refQualifier : Option Reference → Print Unit
  | none => pure ()
  | some .lvalue => write " &"
  | some .rvalue => write " &&"

end Print
end Unmangle
