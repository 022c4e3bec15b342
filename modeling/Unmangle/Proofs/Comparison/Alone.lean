import Unmangle.Proofs.Comparison.Basic

/-!
# A parse beside itself

With one parse on both sides nothing but equal is alike. Something more may be kept up
that the list of components has, and it is asked for where a component is listed.
-/
namespace Unmangle.Comparison

variable {World : Type} [Preorder World] {table : World → Substitutions → Prop}
  {event lost : Event → Prop} {withheld : Fault → Prop}

/-- One parse on both sides, with something kept up of its list of components. -/
def alone (table : World → Substitutions → Prop) (event lost : Event → Prop)
    (withheld : Fault → Prop) : Comparison where
  World := World
  cursor := Eq
  text := Eq
  bits _ := Eq
  name _ := Eq
  list _ := Eq
  tree _ := Eq
  table w u u' := u = u' ∧ table w u
  event := event
  lost := lost
  withheld := withheld

namespace alone

variable {w : World} {s s' : ParseState}

theorem names_iff {ids ids' : Array NodeId} :
    (alone table event lost withheld).Names w ids ids' ↔ ids = ids' := by
  change List.Forall₂ (fun a b => a = b) ids.toList ids'.toList ↔ ids = ids'
  rw [List.forall₂_eq_eq_eq, Array.toList_inj]

theorem state_self (h : table w s.work.substitutions) :
    (alone table event lost withheld).State w s s :=
  ⟨rfl, rfl, rfl, ⟨rfl, h⟩, names_iff.mpr rfl, rfl, names_iff.mpr rfl, rfl, rfl, rfl, rfl⟩

/-- Compared with itself a state is the same state, with the table that is asked for. -/
theorem state_iff :
    (alone table event lost withheld).State w s s' ↔ s = s' ∧ table w s.work.substitutions := by
  constructor
  · intro h
    obtain ⟨hcursor, hlevel, htree, ⟨htable, kept⟩, hforward, hlevels, houter, hfacts, hargs,
      hahead, hlambda⟩ := h
    refine ⟨?_, kept⟩
    rcases s with ⟨_, _, ⟨_, _, _, ⟨_, _⟩⟩, _, _, _, _⟩
    rcases s' with ⟨_, _, ⟨_, _, _, ⟨_, _⟩⟩, _, _, _, _⟩
    cases hcursor
    cases hlevel
    cases htree
    cases htable
    cases names_iff.mp hforward
    cases hlevels
    cases names_iff.mp houter
    cases hfacts
    cases hargs
    cases hahead
    cases hlambda
    rfl
  · rintro ⟨rfl, kept⟩
    exact state_self kept

/-- What the events and the list are asked for makes the comparison lawful. -/
theorem lawful (mono : ∀ {w v : World} {u}, w ≤ v → table w u → table v u)
    (insert : ∀ {w : World} {u} (id : NodeId), table w u → table w (u.insert id))
    (visits : ∀ s, event (.visits s)) (opens : ∀ s id, event (.opens s id))
    (reads : ∀ {rule}, (∀ tracked, rule ≠ .nestedName tracked) →
      (alone table event lost withheld).MayRead rule)
    (events : ∀ {fault}, withheld fault → ∀ e, event e) :
    (alone table event lost withheld).Lawful where
  name_mono _ h := h
  list_mono _ h := h
  table_mono later h := ⟨h.1, mono later h.2⟩
  name_eq_iff := by
    rintro w a _ b _ rfl rfl
    exact Iff.rfl
  rest h := congrArg Cursor.rest h
  moved := by
    rintro c _ n rfl -
    rfl
  span := by
    rintro c _ n rfl -
    rfl
  literal _ := rfl
  isEmpty h := congrArg Text.isEmpty h
  bits := by
    rintro c _ format rfl - -
    rfl
  alloc := by
    rintro w t _ node node' rfl alike
    obtain rfl : node = node' := alike.eq
    exact ⟨w, le_refl w, rfl, rfl⟩
  allocList := by
    rintro w t _ ids ids' rfl hids
    obtain rfl := names_iff.mp hids
    exact ⟨w, le_refl w, rfl, rfl⟩
  node := by
    rintro w t _ a _ rfl rfl
    exact .refl _
  patch := by
    rintro w t _ a _ x _ index rfl rfl rfl
    rfl
  contains := by
    rintro w u _ a _ ⟨rfl, -⟩ rfl
    rfl
  insert := by
    rintro w u _ a _ ⟨rfl, kept⟩ rfl -
    exact ⟨rfl, insert a kept⟩
  get? := by
    rintro w u _ index ⟨rfl, -⟩
    exact rel_refl (fun _ => rfl) _
  visits _ := visits _
  opens _ _ := opens _ _
  reads := reads
  events := events

end alone
end Unmangle.Comparison
