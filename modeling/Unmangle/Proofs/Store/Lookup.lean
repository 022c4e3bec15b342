import Unmangle.Proofs.Store.Contents

/-!
# What is found under a name

Storing a value or a list loses nothing of what is stored. Replacing a value changes what is
found under its own name alone.
-/
namespace Unmangle.Store

variable {α : Type}

/-- Whatever is stored in one is stored in the other under the same name. -/
def Extends (store store' : Store α) : Prop :=
  ∀ id value, store.get? id = some value → store'.get? id = some value

theorem Extends.refl (store : Store α) : store.Extends store :=
  fun _ _ h => h

theorem Extends.trans {store store' store'' : Store α} (h : store.Extends store')
    (h' : store'.Extends store'') : store.Extends store'' :=
  fun id value held => h' id value (h id value held)

variable {store : Store α}

/-- A name of this generation finds the value at its place. -/
theorem get?_eq_some_iff (h : store.Intact) {id : NodeId} {value : α} :
    store.get? id = some value ↔
      id.generation = store.generation ∧ store.contents[id.index]? = some value := by
  by_cases current : id.generation = store.generation
  · rw [h.get?_eq current]
    simp [current]
  · rw [h.get?_eq_none current]
    simp [current]

namespace Intact

/-- Storing a value keeps those that were stored before. -/
theorem extends_alloc (h : store.Intact) (value : α) : store.Extends (store.alloc value).2 := by
  intro id held hid
  rw [get?_eq_some_iff h] at hid
  rw [get?_eq_some_iff (h.alloc value), contents_alloc, generation_alloc]
  refine ⟨hid.1, ?_⟩
  rw [List.getElem?_append_left (List.getElem?_eq_some_iff.mp hid.2).1]
  exact hid.2

theorem get?_alloc (h : store.Intact) (value : α) :
    (store.alloc value).2.get? (store.alloc value).1 = some value := by
  rw [get?_eq_some_iff (h.alloc value), alloc_name, contents_alloc, generation_alloc]
  refine ⟨rfl, ?_⟩
  rw [← h.length_contents]
  exact List.getElem?_concat_length

/-- What is found was stored before, or is the new value under the new name. -/
theorem of_get?_alloc (h : store.Intact) {value found : α} {id : NodeId}
    (hid : (store.alloc value).2.get? id = some found) :
    store.get? id = some found ∨ id = (store.alloc value).1 ∧ found = value := by
  rw [get?_eq_some_iff (h.alloc value), contents_alloc, generation_alloc] at hid
  obtain ⟨current, hplace⟩ := hid
  by_cases old : id.index < store.contents.length
  · rw [List.getElem?_append_left old] at hplace
    exact .inl ((get?_eq_some_iff h).mpr ⟨current, hplace⟩)
  · rw [List.getElem?_append_right (Nat.le_of_not_lt old), List.getElem?_singleton] at hplace
    split at hplace
    · refine .inr ⟨?_, (Option.some.inj hplace).symm⟩
      have next : id.index = store.contents.length := by omega
      rw [alloc_name, ← current, ← h.length_contents, ← next]
    · cases hplace

theorem extends_allocList (h : store.Intact) (ids : Array NodeId) :
    store.Extends (store.allocList ids).2 := by
  intro id held hid
  rw [get?_eq_some_iff h] at hid
  rw [get?_eq_some_iff (h.allocList ids)]
  exact hid

theorem get?_allocList (h : store.Intact) (ids : Array NodeId) (id : NodeId) :
    (store.allocList ids).2.get? id = store.get? id := by
  apply Option.ext
  intro value
  rw [get?_eq_some_iff h, get?_eq_some_iff (h.allocList ids)]
  rfl

/-- Under a name that holds something, the new value is found. -/
theorem get?_set_self (h : store.Intact) {id : NodeId} (held : (store.get? id).isSome) (value : α) :
    (store.set id value).get? id = some value := by
  obtain ⟨current, below⟩ := (h.get?_isSome_iff id).mp held
  rw [get?_eq_some_iff (h.set id value), generation_set, contents_set h current]
  refine ⟨current, ?_⟩
  rw [List.getElem?_set_self (by rwa [h.length_contents])]

/-- Setting a value leaves those under other names. -/
theorem get?_set_of_ne (h : store.Intact) {id other : NodeId} (ne : other ≠ id) (value : α) :
    (store.set id value).get? other = store.get? other := by
  by_cases current : id.generation = store.generation
  · apply Option.ext
    intro found
    rw [get?_eq_some_iff h, get?_eq_some_iff (h.set id value), generation_set,
      contents_set h current]
    -- names of one generation that differ have different places
    refine and_congr_right ?_
    intro current'
    have elsewhere : id.index ≠ other.index := by
      intro same
      apply ne
      rw [NodeId.mk.injEq]
      exact ⟨same.symm, current'.trans current.symm⟩
    rw [List.getElem?_set_ne elsewhere]
  · rw [Store.set, if_neg current]

end Intact
end Unmangle.Store
