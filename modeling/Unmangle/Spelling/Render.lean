import Unmangle.Spelling.Left
import Unmangle.Spelling.Right

/-!
# Spelling a symbol

The halves are tied together by the nesting limit, as the rules of the grammar
are. What has been written is measured at every half.
-/
namespace Unmangle

/-- How deep and how long a spelling may become. -/
structure SpellingLimits where
  maxDepth : Nat
  maxLength : Nat
  deriving Repr, DecidableEq, Inhabited

namespace Print

/-- Run a step one level deeper. -/
def nested (step : Print Unit) : Print Unit :=
  ⟨fun canvas =>
    match step.run { canvas with depth := canvas.depth + 1 } with
    | .ok () after => .ok () { after with depth := after.depth - 1 }
    | .error fault after => .error fault { after with depth := after.depth - 1 },
  fun canvas => step.looksAt { canvas with depth := canvas.depth + 1 }⟩

/-- Run a step one level deeper, unless too much was written or the limit is
reached. -/
def deeper (limits : SpellingLimits) (step : Print Unit) : Print Unit := do
  let length := (← get).out.size
  let depth := (← get).depth
  if limits.maxLength < length then throw .tooLong
  else if limits.maxDepth ≤ depth + 1 then throw .tooMuchRecursion
  else nested step

end Print

namespace Speller

def side (speller : Speller) : Half → NodeId → Print Unit
  | .left, id => do speller.left (← Print.node speller.tree id)
  | .right, id => do speller.right (← Print.node speller.tree id)

end Speller

/-- Spell a half under limits, with a number of levels to spend. -/
def renderHalf (limits : SpellingLimits) (symbol : ByteArray) (tree : Tree) :
    Nat → Half → NodeId → Print Unit
  | 0, _, _ => Print.deeper limits (Print.throw .tooMuchRecursion)
  | levels + 1, half, id =>
    Print.deeper limits (Speller.side ⟨symbol, tree, renderHalf limits symbol tree levels⟩ half id)

/-- Spell a node in full. -/
def rendering (limits : SpellingLimits) (symbol : ByteArray) (tree : Tree) (root : NodeId) :
    Print Unit :=
  Speller.spell ⟨symbol, tree, renderHalf limits symbol tree limits.maxDepth⟩ root

/-- What a node is in full, on an empty canvas. -/
def render (limits : SpellingLimits) (symbol : ByteArray) (tree : Tree) (root : NodeId) :
    Except Fault ByteArray :=
  match (rendering limits symbol tree root).run {} with
  | .ok () canvas => .ok canvas.out
  | .error fault _ => .error fault

end Unmangle
