import Unmangle.Yaml.Token

/-!
# YAML values

A document is a tree of scalars, sequences and mappings. A value may have an anchor,
by which an alias stands for it again.
-/
namespace Unmangle.Yaml

/-- A value. The entries of a mapping keep their order, and may repeat a key. A tag
matters only to a scalar. -/
inductive Node
  | scalar (style : ScalarStyle) (tag : Option (List Char)) (text : List Char)
  | sequence (items : List Node)
  | mapping (entries : List (Node × Node))
  | aliasOf (anchor : Nat)
  | anchored (anchor : Nat) (node : Node)
  deriving Repr, Inhabited

namespace Node

def empty : Node := .scalar .plain none []

def bare : Node → Node
  | anchored _ node => node
  | node => node

mutual

/-- The values with anchors, in the order in which they begin. -/
def anchors : Node → List (Nat × Node)
  | scalar .. | aliasOf _ => []
  | sequence items => itemAnchors items
  | mapping entries => entryAnchors entries
  | anchored anchor node => (anchor, node) :: node.anchors

def itemAnchors : List Node → List (Nat × Node)
  | [] => []
  | item :: rest => item.anchors ++ itemAnchors rest

def entryAnchors : List (Node × Node) → List (Nat × Node)
  | [] => []
  | (key, value) :: rest => key.anchors ++ value.anchors ++ entryAnchors rest

end

/-- What a value of a document is without anchors and aliases at its front. Of several
values with one anchor the last counts. -/
def resolve (document : Node) : Node → Node
  | aliasOf anchor => ((document.anchors.reverse.lookup anchor).getD empty).bare
  | node => node.bare

def text? : Node → Option (List Char)
  | scalar _ _ text => some text
  | _ => none

/-- The text of a scalar that may be something else than a text: a plain one, or a
literal one that has the tag for it. -/
def typedText? (expected : String) : Node → Option (List Char)
  | scalar .plain _ text => some text
  | scalar .literal (some tag) text => if tag = expected.toList then some text else none
  | _ => none

/-- The entries of a mapping. Nothing is a mapping without entries. -/
def entries? : Node → Option (List (Node × Node))
  | mapping entries => some entries
  | scalar .plain _ [] => some []
  | _ => none

end Node
end Unmangle.Yaml
