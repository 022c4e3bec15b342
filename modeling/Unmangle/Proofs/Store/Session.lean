import Mathlib.Algebra.Order.Floor.Div
import Unmangle.Proofs.Store.Lookup

/-!
# A store is a flat array

A session is a store together with all that it gave out and was given since it was last emptied.
Names and lists are handed out in words of 32 bits. Whatever is asked of the store, and in whatever
order, its blocks one after another are one array: the names are the places of it, and in each
place is the value that was last written under its name.
-/
namespace Unmangle

/-- One more than the largest number of 32 bits. -/
def wordBound : Nat := 0x100000000

/-- What 32 bits keep of a name. -/
def NodeId.word (id : NodeId) : NodeId :=
  { id with index := id.index % wordBound }

def NodeList.word (run : NodeList) : NodeList :=
  ⟨run.start % wordBound, run.length % wordBound⟩

theorem NodeId.word_of_lt {id : NodeId} (fits : id.index < wordBound) : id.word = id := by
  rw [word, Nat.mod_eq_of_lt fits]

theorem NodeList.word_of_lt {run : NodeList} (fits : run.start + run.length < wordBound) :
    run.word = run := by
  rw [word, Nat.mod_eq_of_lt (by omega), Nat.mod_eq_of_lt (by omega)]

namespace Store

variable {α : Type}

/-- What is asked of a store. -/
inductive Request (α : Type)
  | alloc (value : α)
  | allocList (ids : Array NodeId)
  | patch (id : NodeId) (value : α)
  | reset

/-- A store, and what became of the requests since it was last emptied, newest first. -/
structure Session (α : Type) where
  store : Store α := {}
  /-- The names that were given out. -/
  names : List NodeId := []
  /-- The values that were written, each under its name. -/
  writes : List (NodeId × α) := []
  /-- The lists that were given out, each with the names it was made of. -/
  runs : List (NodeList × Array NodeId) := []

namespace Session

def serve (session : Session α) : Request α → Session α
  | .alloc value =>
    let (id, store) := session.store.alloc value
    { session with
      store := store
      names := id.word :: session.names
      writes := (id.word, value) :: session.writes }
  | .allocList ids =>
    let (run, store) := session.store.allocList ids
    { session with store := store, runs := (run.word, ids) :: session.runs }
  | .patch id value =>
    { session with
      store := session.store.set id value
      writes := (id, value) :: session.writes }
  | .reset => { store := session.store.reset }

def serveAll (session : Session α) (requests : List (Request α)) : Session α :=
  requests.foldl serve session

def entries (session : Session α) : Nat :=
  (session.runs.map fun given => given.2.size).sum

/-- Fewer values and list entries than 32 bits can count are stored, and only what is stored is
patched. -/
def Admits (session : Session α) : Request α → Prop
  | .alloc _ => session.names.length + 1 < wordBound
  | .allocList ids => session.entries + ids.size < wordBound
  | .patch id _ => id ∈ session.names
  | .reset => True

/-- Each request is admitted when its turn comes. -/
def AdmitsAll (session : Session α) : List (Request α) → Prop
  | [] => True
  | request :: requests => session.Admits request ∧ (session.serve request).AdmitsAll requests

instance (session : Session α) (request : Request α) : Decidable (session.Admits request) :=
  match request with
  | .alloc _ => inferInstanceAs (Decidable (_ < _))
  | .allocList _ => inferInstanceAs (Decidable (_ < _))
  | .patch id _ => inferInstanceAs (Decidable (id ∈ session.names))
  | .reset => inferInstanceAs (Decidable True)

instance decidableAdmitsAll (session : Session α) :
    (requests : List (Request α)) → Decidable (session.AdmitsAll requests)
  | [] => inferInstanceAs (Decidable True)
  | request :: requests =>
    have := decidableAdmitsAll (session.serve request) requests
    inferInstanceAs (Decidable (_ ∧ _))

/-- What holds between a store and its requests at every time. -/
structure Kept (session : Session α) : Prop where
  intact : session.store.Intact
  /-- A block is only begun to put something into it. -/
  begun : session.store.full.size = 0 ∨ 0 < session.store.last.size
  names : session.names.reverse =
    (List.range session.store.size).map fun place => ⟨place, session.store.generation⟩
  reads : ∀ id ∈ session.names, session.store.get? id = session.writes.lookup id
  runs : ∀ given ∈ session.runs,
    given.1.start + given.1.length ≤ session.store.lists.size ∧
      given.1.length = given.2.size ∧ session.store.list given.1 = given.2
  entries : session.store.lists.size = session.entries

end Session

namespace Intact

variable {store : Store α}

/-- Storing a value leaves those under other names. -/
theorem get?_alloc_of_ne (h : store.Intact) {id : NodeId} {value : α}
    (ne : id ≠ (store.alloc value).1) : (store.alloc value).2.get? id = store.get? id := by
  apply Option.ext
  intro found
  constructor
  · intro after
    rcases h.of_get?_alloc after with before | ⟨same, -⟩
    · exact before
    · exact absurd same ne
  · exact h.extends_alloc value id found

end Intact

theorem list_alloc (store : Store α) (value : α) (run : NodeList) :
    (store.alloc value).2.list run = store.list run := by
  rw [list, list, lists_alloc]

theorem list_set (store : Store α) (id : NodeId) (value : α) (run : NodeList) :
    (store.set id value).list run = store.list run := by
  rw [list, list, lists_set]

/-- There is something in the block that a value was just put into. -/
theorem size_last_alloc_pos (store : Store α) (value : α) :
    0 < (store.alloc value).2.last.size := by
  simp only [alloc]
  split <;> simp

theorem size_full_set (store : Store α) (id : NodeId) (value : α) :
    (store.set id value).full.size = store.full.size := by
  simp only [set]
  split
  · split <;> simp
  · rfl

theorem size_last_set (store : Store α) (id : NodeId) (value : α) :
    (store.set id value).last.size = store.last.size := by
  simp only [set]
  split
  · split <;> simp
  · rfl

namespace Session

variable {session : Session α}

namespace Kept

theorem size_eq (h : session.Kept) : session.store.size = session.names.length := by
  rw [← List.length_reverse, h.names, List.length_map, List.length_range]

/-- The names given out are those of this generation below the size of the store. -/
theorem mem_names_iff (h : session.Kept) {id : NodeId} :
    id ∈ session.names ↔
      id.generation = session.store.generation ∧ id.index < session.store.size := by
  obtain ⟨index, generation⟩ := id
  rw [← List.mem_reverse, h.names]
  simp only [List.mem_map, List.mem_range, NodeId.mk.injEq]
  constructor
  · rintro ⟨_, below, rfl, rfl⟩
    exact ⟨rfl, below⟩
  · rintro ⟨rfl, below⟩
    exact ⟨index, below, rfl, rfl⟩

/-- A name that was given out holds something. -/
theorem isSome_get? (h : session.Kept) {id : NodeId} (given : id ∈ session.names) :
    (session.store.get? id).isSome :=
  (h.intact.get?_isSome_iff id).mpr (h.mem_names_iff.mp given)

theorem empty (generation : UInt32) : Kept ({ store := { generation } } : Session α) := by
  constructor
  · exact .empty generation
  · exact .inl rfl
  · rfl
  · intro id given
    simp at given
  · intro given member
    simp at member
  · rfl

/-- Storing a value keeps the session's record of names. -/
theorem alloc (h : session.Kept) {value : α} (fits : session.names.length + 1 < wordBound) :
    (session.serve (.alloc value)).Kept := by
  have name := alloc_name session.store value
  have word : (session.store.alloc value).1.word = (session.store.alloc value).1 := by
    apply NodeId.word_of_lt
    rw [name, h.size_eq]
    exact Nat.lt_of_succ_lt fits
  have new : (session.store.alloc value).1 ∉ session.names := by
    intro given
    have below := (h.mem_names_iff.mp given).2
    rw [name] at below
    exact Nat.lt_irrefl _ below
  simp only [serve, word]
  refine ⟨h.intact.alloc value, .inr (size_last_alloc_pos _ _), ?_, ?_, ?_, ?_⟩
  · rw [List.reverse_cons, h.names, name, size_alloc, generation_alloc, List.range_succ,
      List.map_append, List.map_singleton]
  · intro id given
    rcases List.mem_cons.mp given with rfl | old
    · rw [h.intact.get?_alloc, List.lookup_cons_self]
    · have ne : id ≠ (session.store.alloc value).1 := fun same => new (same ▸ old)
      rw [h.intact.get?_alloc_of_ne ne, List.lookup_cons, beq_false_of_ne ne, h.reads id old]
  · intro given member
    simp only [list_alloc, lists_alloc]
    exact h.runs given member
  · rw [lists_alloc]
    exact h.entries

theorem allocList (h : session.Kept) {ids : Array NodeId}
    (fits : session.entries + ids.size < wordBound) :
    (session.serve (.allocList ids)).Kept := by
  have word : (session.store.allocList ids).1.word = (session.store.allocList ids).1 := by
    apply NodeList.word_of_lt
    simp only [Store.allocList, h.entries]
    exact fits
  have size : (session.store.allocList ids).2.lists.size = session.store.lists.size + ids.size :=
    Array.size_append
  simp only [serve, word]
  refine ⟨h.intact.allocList ids, h.begun, h.names, ?_, ?_, ?_⟩
  · intro id given
    rw [h.intact.get?_allocList]
    exact h.reads id given
  · intro given member
    rcases List.mem_cons.mp member with rfl | old
    · exact ⟨Nat.le_of_eq size.symm, rfl, list_allocList _ _⟩
    · obtain ⟨inside, length, same⟩ := h.runs given old
      refine ⟨?_, length, ?_⟩
      · rw [size]
        exact Nat.le_add_right_of_le inside
      · rw [list_allocList_of_le _ _ inside]
        exact same
  · rw [size, h.entries, Session.entries, Session.entries, List.map_cons, List.sum_cons]
    exact Nat.add_comm _ _

/-- Setting a value that was given out changes no name. -/
theorem patch (h : session.Kept) {id : NodeId} {value : α} (given : id ∈ session.names) :
    (session.serve (.patch id value)).Kept := by
  simp only [serve]
  refine ⟨h.intact.set id value, ?_, ?_, ?_, ?_, ?_⟩
  · rw [size_full_set, size_last_set]
    exact h.begun
  · rw [size_set, generation_set]
    exact h.names
  · intro other given'
    by_cases same : other = id
    · rw [same, h.intact.get?_set_self (h.isSome_get? given), List.lookup_cons_self]
    · rw [h.intact.get?_set_of_ne same, List.lookup_cons, beq_false_of_ne same, h.reads other given']
  · intro run member
    simp only [list_set, lists_set]
    exact h.runs run member
  · rw [lists_set]
    exact h.entries

/-- Every request that is admitted keeps the session's record. -/
theorem serve (h : session.Kept) {request : Request α} (admitted : session.Admits request) :
    (session.serve request).Kept := by
  cases request with
  | alloc value => exact h.alloc admitted
  | allocList ids => exact h.allocList admitted
  | patch id value => exact h.patch admitted
  | reset =>
    rw [Session.serve, reset_eq]
    exact empty _

theorem serveAll (h : session.Kept) {requests : List (Request α)}
    (admitted : session.AdmitsAll requests) : (session.serveAll requests).Kept := by
  induction requests generalizing session with
  | nil => exact h
  | cons request requests ih => exact ih (h.serve admitted.1) admitted.2

/-- The number of blocks is that of the values, divided by the length of a block and rounded up. A
store without values has a block all the same. -/
theorem size_blocks (h : session.Kept) :
    session.store.blocks.size = max 1 (session.names.length ⌈/⌉ blockLength) := by
  have size := h.intact.size_eq
  have last := h.intact.last
  have begun := h.begun
  simp only [Array.length_toList] at size last
  rw [blocks, Array.size_push, ← h.size_eq, Nat.ceilDiv_eq_add_pred_div]
  simp only [blockLength] at size last ⊢
  omega

end Kept

/-- Seen from outside, the store is one array of the values last written. -/
structure Flat (session : Session α) : Prop where
  counted : session.names.reverse.map NodeId.index = List.range session.names.length
  distinct : session.names.Nodup
  contents : session.store.contents.map some =
    session.names.reverse.map fun id => session.writes.lookup id
  reads : ∀ id ∈ session.names, ∃ value,
    session.writes.lookup id = some value ∧ session.store.get? id = some value
  lists : ∀ given ∈ session.runs,
    given.1.length = given.2.size ∧ session.store.list given.1 = given.2
  full : ∀ block ∈ session.store.blocks.pop, block.size = blockLength
  size_blocks : session.store.blocks.size = max 1 (session.names.length ⌈/⌉ blockLength)

namespace Kept

theorem counted (h : session.Kept) :
    session.names.reverse.map NodeId.index = List.range session.names.length := by
  rw [h.names, ← h.size_eq, List.map_map]
  exact List.map_id _

theorem distinct (h : session.Kept) : session.names.Nodup := by
  rw [← List.nodup_reverse]
  apply List.Nodup.of_map NodeId.index
  rw [h.counted]
  exact List.nodup_range

/-- Place by place, the blocks hold what is found under the names. -/
theorem contents (h : session.Kept) :
    session.store.contents.map some =
      session.names.reverse.map fun id => session.writes.lookup id := by
  have found : ∀ place, session.store.get? ⟨place, session.store.generation⟩ =
      session.store.contents[place]? := fun place => h.intact.get?_eq rfl
  have reads : ∀ id ∈ session.names.reverse, session.store.get? id = session.writes.lookup id :=
    fun id given => h.reads id (List.mem_reverse.mp given)
  rw [← List.map_congr_left reads, h.names, List.map_map, ← h.intact.length_contents]
  apply List.ext_getElem?
  intro place
  rw [List.getElem?_map, List.getElem?_map, Function.comp_def]
  by_cases inside : place < session.store.contents.length
  · rw [List.getElem?_range inside, Option.map_some, found, List.getElem?_eq_getElem inside]
    rfl
  · rw [List.getElem?_eq_none (Nat.le_of_not_lt inside),
      List.getElem?_eq_none (by simpa using inside)]
    rfl

/-- A session that is kept reads as the values that were written last. -/
theorem flat (h : session.Kept) : session.Flat := by
  constructor
  · exact h.counted
  · exact h.distinct
  · exact h.contents
  · intro id given
    obtain ⟨value, found⟩ := Option.isSome_iff_exists.mp (h.isSome_get? given)
    exact ⟨value, (h.reads id given).symm.trans found, found⟩
  · intro given member
    exact (h.runs given member).2
  · intro block member
    rw [blocks, Array.pop_push] at member
    exact h.intact.full block (Array.mem_toList_iff.mpr member)
  · exact h.size_blocks

end Kept

/-- However often a store is emptied, one block without values is left. -/
theorem blocks_resets (session : Session α) (count : Nat) :
    (session.serveAll (List.replicate (count + 1) .reset)).store.blocks = #[#[]] := by
  induction count generalizing session with
  | zero =>
    change session.store.reset.blocks = _
    rw [reset_eq]
    rfl
  | succ count ih => exact ih (session.serve .reset)

/-- A new store that is asked for anything, in any order, is one array from outside, and one empty
block whenever it was just emptied. -/
theorem serveAll_flat (requests : List (Request α))
    (admitted : ({} : Session α).AdmitsAll requests) :
    (({} : Session α).serveAll requests).Flat ∧
      ∀ count, ((({} : Session α).serveAll requests).serveAll
        (List.replicate (count + 1) .reset)).store.blocks = #[#[]] := by
  have kept := (Kept.empty 0).serveAll admitted
  exact ⟨kept.flat, blocks_resets _⟩

/-- Values for a block and one more, a list of names from both blocks, and a patch in the second. -/
def acrossBlocks : List (Request Nat) :=
  [.alloc 7, .reset] ++ List.replicate 257 (.alloc 0) ++
    [.allocList #[⟨256, 1⟩, ⟨0, 1⟩], .patch ⟨256, 1⟩ 6, .alloc 1]

theorem serveAll_flat_acrossBlocks :
    ({} : Session Nat).AdmitsAll acrossBlocks ∧
      (({} : Session Nat).serveAll acrossBlocks).store.get? ⟨256, 1⟩ = some 6 ∧
      (({} : Session Nat).serveAll acrossBlocks).store.blocks.size = 2 := by
  have admitted : ({} : Session Nat).AdmitsAll acrossBlocks := by decide +kernel
  obtain ⟨flat, -⟩ := serveAll_flat acrossBlocks admitted
  obtain ⟨value, last, found⟩ := flat.reads ⟨256, 1⟩ (by decide +kernel)
  have newest : (({} : Session Nat).serveAll acrossBlocks).writes.lookup ⟨256, 1⟩ = some 6 := by
    decide +kernel
  refine ⟨admitted, ?_, flat.size_blocks.trans (by decide +kernel)⟩
  rw [found, ← last, newest]

end Session
end Store
end Unmangle
