/-!
# Storage for the nodes of one symbol

Nodes live in chained blocks of one fixed length and are named by their position.
A child is a name, never a copy, so a node can be patched after others refer to
it. Lists of children are runs of one shared sequence. Emptying the store starts
a new generation, which tells a stale name from a current one.
-/
namespace Unmangle

/-- The name of a stored node. -/
structure NodeId where
  index : Nat
  generation : UInt32
  deriving Repr, DecidableEq, Inhabited

/-- A run of the store's list sequence. -/
structure NodeList where
  start : Nat
  length : Nat
  deriving Repr, DecidableEq, Inhabited

namespace NodeList

def isEmpty (list : NodeList) : Bool :=
  list.length == 0

end NodeList

/-- Chained blocks of values. The blocks before the last one are full. -/
structure Store (α : Type) where
  full : Array (Array α) := #[]
  last : Array α := #[]
  lists : Array NodeId := #[]
  size : Nat := 0
  generation : UInt32 := 0

namespace Store

variable {α : Type}

/-- The number of nodes in a full block. -/
def blockLength : Nat := 256

instance : Inhabited (Store α) := ⟨{}⟩

/-- The whole chain, oldest block first. It is never without a block. -/
def blocks (store : Store α) : Array (Array α) :=
  store.full.push store.last

/-- Store a value under the next name. -/
def alloc (store : Store α) (value : α) : NodeId × Store α :=
  let id : NodeId := ⟨store.size, store.generation⟩
  let ⟨full, last, lists, size, generation⟩ := store
  if last.size = blockLength then
    (id, ⟨full.push last, #[value], lists, size + 1, generation⟩)
  else
    (id, ⟨full, last.push value, lists, size + 1, generation⟩)

def allocList (store : Store α) (ids : Array NodeId) : NodeList × Store α :=
  (⟨store.lists.size, ids.size⟩, { store with lists := store.lists ++ ids })

/-- The block and the place in it that a name stands for. -/
def locate (id : NodeId) : Nat × Nat :=
  (id.index / blockLength, id.index % blockLength)

def block? (store : Store α) (place : Nat) : Option (Array α) :=
  if place = store.full.size then some store.last else store.full[place]?

/-- The value stored under a name of this generation. -/
def get? (store : Store α) (id : NodeId) : Option α :=
  if id.generation = store.generation then
    let (block, place) := locate id
    store.block? block >>= (·[place]?)
  else
    none

/-- Replace the value under a name. A name that holds nothing is left alone. -/
def set (store : Store α) (id : NodeId) (value : α) : Store α :=
  if id.generation = store.generation then
    let (block, place) := locate id
    if block = store.full.size then
      { store with last := store.last.setIfInBounds place value }
    else
      { store with full := store.full.modify block (·.setIfInBounds place value) }
  else
    store

/-- The names of a stored list, in order. -/
def list (store : Store α) (run : NodeList) : Array NodeId :=
  store.lists.extract run.start (run.start + run.length)

def element? (store : Store α) (run : NodeList) (index : Nat) : Option NodeId :=
  if index < run.length then store.lists[run.start + index]? else none

/-- Release every block behind the first one. -/
def truncate (store : Store α) : Store α :=
  match store.full[0]? with
  | some first => { store with full := store.full.shrink 0, last := first }
  | none => store

/-- Drop every value and list, and end the generation. The first block is kept, and so is the
room that the lists have taken. -/
def reset (store : Store α) : Store α :=
  let first := store.truncate
  { first with
    last := first.last.shrink 0
    lists := first.lists.shrink 0
    size := 0
    generation := first.generation + 1 }

theorem size_alloc (store : Store α) (value : α) :
    (store.alloc value).2.size = store.size + 1 := by
  simp only [alloc]
  split <;> rfl

theorem list_allocList (store : Store α) (ids : Array NodeId) :
    (store.allocList ids).2.list (store.allocList ids).1 = ids := by
  simp [allocList, list]

/-- A store that was emptied is a new one of the next generation. -/
theorem reset_eq (store : Store α) : store.reset = { generation := store.generation + 1 } := by
  unfold reset truncate
  cases begun : store.full[0]? with
  | none =>
    have none_full : store.full = #[] := by simpa using begun
    simp [none_full]
  | some first => simp

end Store
end Unmangle
