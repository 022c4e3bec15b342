import Mathlib.Data.List.Basic
import Unmangle.Store

/-!
# What a store holds

A store is as good as the list of its values, oldest first. Blocks only matter to
`Intact`, which says that every block but the last is full. Under it a name is read
and patched at its place in the list.
-/
namespace Unmangle.Store

variable {α : Type}

/-- The values of a store, oldest first. -/
def contents (store : Store α) : List α :=
  (store.full.toList.map Array.toList).flatten ++ store.last.toList

structure Intact (store : Store α) : Prop where
  full : ∀ block ∈ store.full.toList, block.toList.length = blockLength
  last : store.last.toList.length ≤ blockLength
  size_eq : store.size = store.full.toList.length * blockLength + store.last.toList.length

theorem blockLength_pos : 0 < blockLength := by decide

/-- Blocks of one length hold so many values each. -/
theorem length_flatten_of_uniform {n : Nat} (blocks : List (List α))
    (h : ∀ block ∈ blocks, block.length = n) : blocks.flatten.length = blocks.length * n := by
  induction blocks with
  | nil => simp
  | cons block rest ih =>
    rw [List.flatten_cons, List.length_append, h block (by simp),
      ih fun b hb => h b (List.mem_cons_of_mem block hb), List.length_cons, Nat.succ_mul,
      Nat.add_comm]

/-- Among blocks of one length a place is found by division. -/
theorem getElem?_flatten_of_uniform {n : Nat} (hn : 0 < n) (blocks : List (List α))
    (h : ∀ block ∈ blocks, block.length = n) (i : Nat) :
    blocks.flatten[i]? = blocks[i / n]? >>= (·[i % n]?) := by
  induction blocks generalizing i with
  | nil => simp
  | cons block rest ih =>
    have hb := h block (by simp)
    by_cases hi : i < n
    · rw [List.flatten_cons, List.getElem?_append_left (by omega), Nat.div_eq_of_lt hi,
        Nat.mod_eq_of_lt hi]
      simp
    · obtain ⟨j, rfl⟩ : ∃ j, i = n + j := ⟨i - n, by omega⟩
      rw [List.flatten_cons, List.getElem?_append_right (by omega), hb, Nat.add_sub_cancel_left,
        ih (fun b hb => h b (List.mem_cons_of_mem block hb)), Nat.add_div_left j hn,
        Nat.add_mod_left, List.getElem?_cons_succ]

/-- The place of a value in blocks of one length is found by division. -/
theorem set_flatten_of_uniform {n : Nat} (hn : 0 < n) (blocks : List (List α))
    (h : ∀ block ∈ blocks, block.length = n) (i : Nat) (value : α) :
    (blocks.modify (i / n) (·.set (i % n) value)).flatten = blocks.flatten.set i value := by
  induction blocks generalizing i with
  | nil => simp
  | cons block rest ih =>
    have hb := h block (by simp)
    by_cases hi : i < n
    · rw [Nat.div_eq_of_lt hi, Nat.mod_eq_of_lt hi, List.modify_zero_cons, List.flatten_cons,
        List.flatten_cons, List.set_append_left _ _ (by omega)]
    · obtain ⟨j, rfl⟩ : ∃ j, i = n + j := ⟨i - n, by omega⟩
      rw [Nat.add_div_left j hn, Nat.add_mod_left, List.modify_succ_cons, List.flatten_cons,
        List.flatten_cons, ih (fun b hb => h b (List.mem_cons_of_mem block hb)),
        List.set_append_right _ _ (by omega), hb, Nat.add_sub_cancel_left]

theorem get?_of_current {store : Store α} {id : NodeId}
    (current : id.generation = store.generation) :
    store.get? id = store.block? (id.index / blockLength) >>= (·[id.index % blockLength]?) :=
  if_pos current

theorem block?_of_eq {store : Store α} {place : Nat} (h : place = store.full.size) :
    store.block? place = some store.last :=
  if_pos h

theorem block?_of_ne {store : Store α} {place : Nat} (h : place ≠ store.full.size) :
    store.block? place = store.full[place]? :=
  if_neg h

theorem set_of_eq {store : Store α} {id : NodeId} (current : id.generation = store.generation)
    (h : id.index / blockLength = store.full.size) (value : α) :
    store.set id value =
      { store with last := store.last.setIfInBounds (id.index % blockLength) value } :=
  (if_pos current).trans (if_pos h)

theorem set_of_ne {store : Store α} {id : NodeId} (current : id.generation = store.generation)
    (h : id.index / blockLength ≠ store.full.size) (value : α) :
    store.set id value =
      { store with
        full := store.full.modify (id.index / blockLength)
          (·.setIfInBounds (id.index % blockLength) value) } :=
  (if_pos current).trans (if_neg h)

namespace Intact

variable {store : Store α}

theorem uniform (h : store.Intact) :
    ∀ block ∈ store.full.toList.map Array.toList, block.length = blockLength := by
  intro block hb
  obtain ⟨array, ha, rfl⟩ := List.mem_map.mp hb
  exact h.full array ha

theorem length_contents (h : store.Intact) : store.contents.length = store.size := by
  rw [contents, List.length_append, length_flatten_of_uniform _ h.uniform, List.length_map,
    h.size_eq]

/-- A name of this generation is read at its place in the list. -/
theorem get?_eq (h : store.Intact) {id : NodeId} (current : id.generation = store.generation) :
    store.get? id = store.contents[id.index]? := by
  have hlen := length_flatten_of_uniform _ h.uniform
  rw [List.length_map] at hlen
  have hdiv := Nat.div_add_mod id.index blockLength
  have hmod := Nat.mod_lt id.index blockLength_pos
  rw [get?_of_current current, contents]
  by_cases hlast : id.index / blockLength = store.full.size
  · have hle : store.full.toList.length * blockLength ≤ id.index := by
      rw [Array.length_toList, ← hlast, Nat.mul_comm]
      exact Nat.mul_div_le _ _
    rw [block?_of_eq hlast, List.getElem?_append_right (by rw [hlen]; exact hle), hlen,
      Array.length_toList, ← hlast]
    have hplace : id.index - id.index / blockLength * blockLength = id.index % blockLength := by
      rw [Nat.mul_comm]; omega
    rw [hplace]
    simp
  · rw [block?_of_ne hlast]
    by_cases hin : id.index < store.full.toList.length * blockLength
    · rw [List.getElem?_append_left (by rw [hlen]; exact hin),
        getElem?_flatten_of_uniform blockLength_pos _ h.uniform]
      cases hb : store.full[id.index / blockLength]? <;> simp [hb]
    · have hdiv' : store.full.size ≤ id.index / blockLength :=
        (Nat.le_div_iff_mul_le blockLength_pos).mpr (by simpa using hin)
      have hpast : store.full.size + 1 ≤ id.index / blockLength := by omega
      have hfar : (store.full.size + 1) * blockLength ≤ id.index :=
        (Nat.le_div_iff_mul_le blockLength_pos).mp hpast
      have hout : store.contents.length ≤ id.index := by
        have hl := h.last
        rw [h.length_contents, h.size_eq, Array.length_toList]
        rw [Nat.succ_mul] at hfar
        omega
      rw [Array.getElem?_eq_none (by omega)]
      exact (List.getElem?_eq_none hout).symm

theorem get?_eq_none (_ : store.Intact) {id : NodeId}
    (stale : id.generation ≠ store.generation) : store.get? id = none := by
  simp [get?, stale]

/-- The names that hold something are those of this generation below the size. -/
theorem get?_isSome_iff (h : store.Intact) (id : NodeId) :
    (store.get? id).isSome ↔ id.generation = store.generation ∧ id.index < store.size := by
  by_cases current : id.generation = store.generation
  · rw [h.get?_eq current, ← h.length_contents]
    simp [current]
  · simp [h.get?_eq_none current, current]

theorem empty (generation : UInt32) : Intact ({ generation := generation } : Store α) :=
  ⟨by simp, by simp, by simp⟩

end Intact

@[simp]
theorem contents_empty (generation : UInt32) :
    contents ({ generation := generation } : Store α) = [] := by
  simp [contents]

theorem contents_alloc (store : Store α) (value : α) :
    (store.alloc value).2.contents = store.contents ++ [value] := by
  simp only [alloc]
  split <;> simp [contents]

theorem alloc_name (store : Store α) (value : α) :
    (store.alloc value).1 = ⟨store.size, store.generation⟩ := by
  simp only [alloc]
  split <;> rfl

@[simp]
theorem generation_alloc (store : Store α) (value : α) :
    (store.alloc value).2.generation = store.generation := by
  simp only [alloc]
  split <;> rfl

@[simp]
theorem lists_alloc (store : Store α) (value : α) :
    (store.alloc value).2.lists = store.lists := by
  simp only [alloc]
  split <;> rfl

/-- Storing a value keeps every block full but the last one. -/
theorem Intact.alloc {store : Store α} (h : store.Intact) (value : α) :
    (store.alloc value).2.Intact := by
  have hsize := h.size_eq
  have hlast := h.last
  simp only [Store.alloc]
  split
  · rename_i hfull
    refine ⟨?_, ?_, ?_⟩
    · intro block hb
      simp only [Array.toList_push, List.mem_append, List.mem_singleton] at hb
      rcases hb with hb | rfl
      · exact h.full block hb
      · rw [Array.length_toList]; exact hfull
    · exact Nat.succ_le_of_lt blockLength_pos
    · simp only [Array.toList_push, List.length_append, List.length_singleton, Nat.succ_mul]
      simp only [Array.length_toList] at hsize ⊢
      simp only [hsize, hfull]
  · rename_i hroom
    refine ⟨h.full, ?_, ?_⟩
    · simp only [Array.toList_push, List.length_append, List.length_singleton]
      rw [Array.length_toList] at hlast ⊢
      omega
    · simp only [Array.toList_push, List.length_append, List.length_singleton]
      omega

/-- Setting a value changes the contents at its place only. -/
theorem contents_set {store : Store α} (h : store.Intact) {id : NodeId}
    (current : id.generation = store.generation) (value : α) :
    (store.set id value).contents = store.contents.set id.index value := by
  have hlen := length_flatten_of_uniform _ h.uniform
  rw [List.length_map] at hlen
  have hdiv := Nat.div_add_mod id.index blockLength
  have hmod := Nat.mod_lt id.index blockLength_pos
  by_cases hlast : id.index / blockLength = store.full.size
  · have hle : store.full.toList.length * blockLength ≤ id.index := by
      rw [Array.length_toList, ← hlast, Nat.mul_comm]
      exact Nat.mul_div_le _ _
    have hplace : id.index - id.index / blockLength * blockLength = id.index % blockLength := by
      rw [Nat.mul_comm]; omega
    rw [set_of_eq current hlast, contents, contents, List.set_append_right _ _ (by rw [hlen]; exact hle),
      hlen, Array.length_toList, ← hlast, hplace, Array.toList_setIfInBounds]
  · rw [set_of_ne current hlast]
    by_cases hin : id.index < store.full.toList.length * blockLength
    · rw [contents, contents, List.set_append_left _ _ (by rw [hlen]; exact hin),
        ← set_flatten_of_uniform blockLength_pos _ h.uniform]
      congr 2
      rw [Array.toList_modify]
      apply List.ext_getElem?
      intro i
      rw [List.getElem?_map, List.getElem?_modify, List.getElem?_modify, List.getElem?_map]
      cases store.full.toList[i]? with
      | none => rfl
      | some block => split <;> simp [*]
    · have hdiv' : store.full.size ≤ id.index / blockLength :=
        (Nat.le_div_iff_mul_le blockLength_pos).mpr (by simpa using hin)
      have hpast : store.full.size + 1 ≤ id.index / blockLength := by omega
      have hfar : (store.full.size + 1) * blockLength ≤ id.index :=
        (Nat.le_div_iff_mul_le blockLength_pos).mp hpast
      have hout : store.contents.length ≤ id.index := by
        have hl := h.last
        rw [h.length_contents, h.size_eq, Array.length_toList]
        rw [Nat.succ_mul] at hfar
        omega
      rw [List.set_eq_of_length_le hout]
      simp only [contents]
      congr 2
      rw [Array.toList_modify, List.modify_eq_self (by rw [Array.length_toList]; omega)]

@[simp]
theorem generation_set (store : Store α) (id : NodeId) (value : α) :
    (store.set id value).generation = store.generation := by
  simp only [set]
  split
  · split <;> rfl
  · rfl

@[simp]
theorem lists_set (store : Store α) (id : NodeId) (value : α) :
    (store.set id value).lists = store.lists := by
  simp only [set]
  split
  · split <;> rfl
  · rfl

@[simp]
theorem size_set (store : Store α) (id : NodeId) (value : α) :
    (store.set id value).size = store.size := by
  simp only [set]
  split
  · split <;> rfl
  · rfl

/-- Setting a value leaves the blocks as long as they were. -/
theorem Intact.set {store : Store α} (h : store.Intact) (id : NodeId) (value : α) :
    (store.set id value).Intact := by
  simp only [Store.set]
  split
  · split
    · exact ⟨h.full, by simpa using h.last, by simpa using h.size_eq⟩
    · refine ⟨?_, h.last, by simpa using h.size_eq⟩
      intro block hb
      obtain ⟨i, hi⟩ := List.mem_iff_getElem?.mp hb
      rw [Array.toList_modify, List.getElem?_modify] at hi
      obtain ⟨old, hold, rfl⟩ := Option.map_eq_some_iff.mp hi
      have := h.full old (List.mem_iff_getElem?.mpr ⟨i, hold⟩)
      split
      · simpa using this
      · exact this
  · exact h

theorem Intact.allocList {store : Store α} (h : store.Intact) (ids : Array NodeId) :
    (store.allocList ids).2.Intact :=
  ⟨h.full, h.last, h.size_eq⟩

theorem list_eq (store : Store α) (run : NodeList) :
    (store.list run).toList = (store.lists.toList.drop run.start).take run.length := by
  simp [list, List.extract_eq_take_drop]

/-- A stored list stays what it is when others are stored behind it. -/
theorem list_allocList_of_le (store : Store α) (ids : Array NodeId) {run : NodeList}
    (h : run.start + run.length ≤ store.lists.size) :
    (store.allocList ids).2.list run = store.list run := by
  have hsize : store.lists.toList.length = store.lists.size := store.lists.length_toList
  apply Array.toList_inj.mp
  rw [list_eq, list_eq, Store.allocList, Array.toList_append,
    List.drop_append_of_le_length (by omega),
    List.take_append_of_le_length (by rw [List.length_drop]; omega)]

/-- An element of a list is what the list has in its place. -/
theorem element?_eq (store : Store α) (run : NodeList) (index : Nat) :
    store.element? run index = (store.list run).toList[index]? := by
  rw [element?, list_eq, List.getElem?_take, List.getElem?_drop, Array.getElem?_toList]

end Unmangle.Store
