/-!
# Text carried by a node

A node says text either in words of its own or by pointing into the symbol, so
nothing of the symbol is copied until it is spelled.
-/
namespace Unmangle

/-- A piece of spelling. -/
inductive Text
  | literal (words : String)
  /-- The bytes of the symbol from `start` up to `stop`. -/
  | span (start stop : Nat)
  deriving Repr, DecidableEq, Inhabited

namespace Text

def empty : Text := .literal ""

def isEmpty : Text → Bool
  | literal words => words.isEmpty
  | span start stop => start == stop

/-- The bytes the text stands for in a symbol. -/
def resolve (symbol : ByteArray) : Text → ByteArray
  | literal words => words.toUTF8
  | span start stop => symbol.extract start stop

end Text
end Unmangle
