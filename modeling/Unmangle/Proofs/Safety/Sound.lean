import Unmangle.Grammar.State
import Unmangle.Proofs.Tree.Likeness
import Unmangle.Spelling.Canvas

/-!
# Sound states

A state is sound when everything in it that points somewhere points at something that
is there: the cursor into the symbol, spans into the symbol, names into the store, runs
into the list sequence. A node is made of older nodes only. What a waiting template
parameter came to stand for may be younger, so the whole is a graph and not a tree.
-/
namespace Unmangle

/-- A span does not end before it starts, nor behind a symbol of so many bytes. -/
def Text.Within (size : Nat) : Text → Prop
  | .literal _ => True
  | .span start stop => start ≤ stop ∧ stop ≤ size

/-- The name is of the store's generation and below its size. -/
structure NodeId.HeldIn (tree : Tree) (id : NodeId) : Prop where
  current : id.generation = tree.generation
  below : id.index < tree.size

/-- The run is part of the store's list sequence. -/
def NodeList.Within (tree : Tree) (run : NodeList) : Prop :=
  run.start + run.length ≤ tree.lists.size

/-- What the node under a name points at is there, and its parts are older. -/
structure Node.SoundAt (symbol : ByteArray) (tree : Tree) (id : NodeId) (node : Node) : Prop where
  texts : ∀ text ∈ node.texts, text.Within symbol.size
  children : ∀ child ∈ node.children, child.HeldIn tree ∧ child.index < id.index
  lists : ∀ run ∈ node.lists, run.Within tree ∧ ∀ element ∈ tree.list run, element.index < id.index
  target : ∀ target ∈ node.target?, target.HeldIn tree

structure Tree.Sound (symbol : ByteArray) (tree : Tree) : Prop where
  /-- The names that hold something are those of this generation below the size. -/
  held : ∀ id, (tree.get? id).isSome ↔ id.HeldIn tree
  nodes : ∀ id node, tree.get? id = some node → node.SoundAt symbol tree id
  lists : ∀ id ∈ tree.lists, id.HeldIn tree

structure Workspace.Sound (symbol : ByteArray) (work : Workspace) : Prop where
  tree : work.tree.Sound symbol
  entries : ∀ id ∈ work.substitutions.entries, id.HeldIn work.tree
  nodup : work.substitutions.entries.toList.Nodup
  places : ∀ place, place ∈ work.substitutions.places ↔
    ∃ id ∈ work.substitutions.entries, id.index = place
  forward : ∀ id ∈ work.forward, id.HeldIn work.tree
  outer : ∀ id ∈ work.scopes.outer, id.HeldIn work.tree

structure ParseState.Sound (symbol : ByteArray) (state : ParseState) : Prop where
  rest : state.cursor.rest = symbol.data.toList.drop state.cursor.offset
  stop : state.cursor.offset + state.cursor.rest.length = symbol.size
  work : state.work.Sound symbol

/-- What happens in a sound parse of a symbol. -/
def Event.Sound (symbol : ByteArray) : Event → Prop
  | .visits state => state.Sound symbol
  | .opens state id => state.Sound symbol ∧ id.HeldIn state.work.tree
  | .reads _ before id after =>
    before.Sound symbol ∧ after.Sound symbol ∧ id.HeldIn after.work.tree

/-- What spelling looks at is there. -/
def Access.InRange (symbol : ByteArray) (tree : Tree) : Access → Prop
  | .node id => id.HeldIn tree
  | .list run => run.Within tree
  | .text words => words.Within symbol.size

end Unmangle
