import Mathlib.Algebra.Order.Floor.Div
import Mathlib.Data.List.Forall2
import Unmangle.Table.Workers

/-!
# How work is shared out

Work that is worth sharing is cut into runs of one length, which is the number of items for each
worker, rounded up. The number of runs is rounded up once more and may stay below the number of
workers. Run `k` begins at item `k * length`, every run is folded from the state that all workers
start in, and the results stand side by side in the order of the items.
-/
namespace Unmangle.Workers

variable {α β σ : Type}

/-- A worker takes up one more item, behind the results it has. -/
def takeUp (step : σ → α → β × σ) (done : List β × σ) (item : α) : List β × σ :=
  (done.1 ++ [(step done.2 item).1], (step done.2 item).2)

/-- The results of a worker, and the state it ends in. -/
def fold (step : σ → α → β × σ) (start : σ) (items : List α) : List β × σ :=
  items.foldl (takeUp step) ([], start)

/-- The results so far stay in front of those to come. -/
theorem foldl_takeUp (step : σ → α → β × σ) (results : List β) (state : σ) (items : List α) :
    (items.foldl (takeUp step) (results, state)).1 = results ++ runOne step state items := by
  induction items generalizing results state with
  | nil => simp [runOne]
  | cons item rest ih =>
    rw [List.foldl_cons, takeUp, ih]
    simp [runOne]

theorem runOne_eq_fold (step : σ → α → β × σ) (start : σ) (items : List α) :
    runOne step start items = (fold step start items).1 := by
  simp [fold, foldl_takeUp]

/-- The item has this result in some state of a worker. -/
def ResultOf (step : σ → α → β × σ) (item : α) (result : β) : Prop :=
  ∃ state, (step state item).1 = result

theorem forall₂_runOne (step : σ → α → β × σ) (start : σ) (items : List α) :
    List.Forall₂ (ResultOf step) items (runOne step start items) := by
  induction items generalizing start with
  | nil => exact .nil
  | cons item rest ih => exact .cons ⟨start, rfl⟩ (ih _)

section chunks

variable {length : Nat}

/-- The run that is being filled takes the items it has room for. -/
theorem chunksFrom_eq (pos : 0 < length) (room : Nat) (run items : List α)
    (some : run ≠ [] ∨ items ≠ []) :
    chunksFrom length room run items =
      (run.reverse ++ items.take room) :: chunks length (items.drop room) := by
  induction items generalizing room run with
  | nil =>
    have filled : run ≠ [] := by simpa using some
    simp [chunksFrom, chunks, filled]
  | cons item rest ih =>
    cases room with
    | zero =>
      obtain ⟨short, rfl⟩ : ∃ short, length = short + 1 := ⟨length - 1, by omega⟩
      simp [chunksFrom, chunks]
    | succ room => simp [chunksFrom, ih room (item :: run) (by simp)]

theorem chunks_of_ne_nil (pos : 0 < length) {items : List α} (some : items ≠ []) :
    chunks length items = items.take length :: chunks length (items.drop length) := by
  rw [chunks, chunksFrom_eq pos length [] items (.inr some)]
  simp

/-- One run less is needed for the items behind the first run. -/
theorem ceilDiv_drop (pos : 0 < length) {items : List α} (some : items ≠ []) :
    items.length ⌈/⌉ length = (items.drop length).length ⌈/⌉ length + 1 := by
  have hpos : 0 < items.length := List.length_pos_iff.mpr some
  simp only [Nat.ceilDiv_eq_add_pred_div, List.length_drop]
  by_cases whole : length ≤ items.length
  · rw [← Nat.add_div_right _ pos]
    congr 1
    omega
  · have one : (items.length + length - 1) / length = 1 :=
      Nat.div_eq_of_lt_le (by omega) (by omega)
    rw [one, Nat.div_eq_of_lt (by omega)]

/-- Run `k` begins at item `k * length`, and there are as many runs as it takes. -/
theorem chunks_eq_map_range (pos : 0 < length) (items : List α) :
    chunks length items = (List.range (items.length ⌈/⌉ length)).map fun k =>
      (items.drop (k * length)).take length := by
  induction hcount : items.length ⌈/⌉ length generalizing items with
  | zero =>
    have none : items = [] := by
      by_contra some
      rw [ceilDiv_drop pos some] at hcount
      omega
    simp [none, chunks, chunksFrom]
  | succ count ih =>
    have some : items ≠ [] := by
      rintro rfl
      simp at hcount
    have rest : (items.drop length).length ⌈/⌉ length = count := by
      rw [ceilDiv_drop pos some] at hcount
      omega
    rw [chunks_of_ne_nil pos some, ih _ rest, List.range_succ_eq_map]
    simp [Function.comp_def, Nat.add_mul, Nat.add_comm]

end chunks

/-- However a list is cut, each of its items has its result in its place. -/
theorem forall₂_flatMap_runOne (step : σ → α → β × σ) (start : σ) (runs : List (List α)) :
    List.Forall₂ (ResultOf step) runs.flatten (runs.flatMap (runOne step start)) := by
  induction runs with
  | nil => exact .nil
  | cons run rest ih =>
    rw [List.flatten_cons, List.flatMap_cons]
    exact List.rel_append (forall₂_runOne step start run) ih

/-- What is shared out has at least as many items as there are workers, so every run has some item,
and the sum that is rounded up stays below twice the number of items. -/
theorem run_of_shared (workers : Workers) (start : σ) (step : σ → α → β × σ) (items : List α)
    (earlier : List β) (some : 1 ≤ workers.count)
    (shared : ¬(workers.count = 1 ∨ items.length < max workers.threshold workers.count)) :
    let length := items.length ⌈/⌉ workers.count
    1 ≤ length ∧ items.length + workers.count - 1 < 2 * items.length ∧
      items.length ⌈/⌉ length ≤ workers.count ∧
      workers.run start step items earlier =
        (earlier ++ (List.range (items.length ⌈/⌉ length)).flatMap fun k =>
          (fold step start ((items.drop (k * length)).take length)).1,
        items.length ⌈/⌉ length) := by
  intro length
  have many : workers.count ≤ items.length := by omega
  have long : items.length ≤ workers.count * length := (ceilDiv_le_iff_le_mul some).mp le_rfl
  have pos : 1 ≤ length := by
    by_contra none
    have hzero : length = 0 := by omega
    rw [hzero] at long
    omega
  have few : items.length ⌈/⌉ length ≤ workers.count :=
    (ceilDiv_le_iff_le_mul pos).mpr (by rw [Nat.mul_comm]; exact long)
  have available : workers.available = workers.count := if_neg (by omega)
  refine ⟨pos, by omega, few, ?_⟩
  rw [run, available, if_neg shared, ← Nat.ceilDiv_eq_add_pred_div, chunks_eq_map_range pos]
  simp [List.flatMap_map, runOne_eq_fold, length]

theorem run_of_alone (workers : Workers) (start : σ) (step : σ → α → β × σ) (items : List α)
    (earlier : List β) (some : 1 ≤ workers.count)
    (alone : workers.count = 1 ∨ items.length < max workers.threshold workers.count) :
    workers.run start step items earlier = (earlier ++ (fold step start items).1, 1) := by
  have available : workers.available = workers.count := if_neg (by omega)
  rw [run, available, if_pos alone, runOne_eq_fold]

/-- The results of all items stand behind the earlier ones, in the order of the items. -/
theorem run_in_order (workers : Workers) (start : σ) (step : σ → α → β × σ) (items : List α)
    (earlier : List β) :
    ∃ results, (workers.run start step items earlier).1 = earlier ++ results ∧
      List.Forall₂ (ResultOf step) items results := by
  rw [run]
  split
  · exact ⟨_, rfl, forall₂_runOne step start items⟩
  · refine ⟨_, rfl, ?_⟩
    have related := forall₂_flatMap_runOne step start
      (chunks ((items.length + workers.available - 1) / workers.available) items)
    rwa [flatten_chunks] at related

/-- Work is folded by one worker when there is one, or when there are fewer items than the threshold
or than workers. Else it is cut into runs of the number of items for each worker, rounded up, and
each is folded from the first state by a worker of its own. No more workers are used than there
are, and every item has one result, behind the earlier ones and in the order of the items. -/
theorem run_eq_folds (workers : Workers) (start : σ) (step : σ → α → β × σ) (items : List α)
    (earlier : List β) (some : 1 ≤ workers.count) :
    let length := items.length ⌈/⌉ workers.count
    let outcome := workers.run start step items earlier
    (workers.count = 1 ∨ items.length < max workers.threshold workers.count →
      outcome = (earlier ++ (fold step start items).1, 1)) ∧
    (¬(workers.count = 1 ∨ items.length < max workers.threshold workers.count) →
      1 ≤ length ∧ items.length + workers.count - 1 < 2 * items.length ∧
      outcome =
        (earlier ++ (List.range (items.length ⌈/⌉ length)).flatMap fun k =>
          (fold step start ((items.drop (k * length)).take length)).1,
        items.length ⌈/⌉ length)) ∧
    (1 ≤ outcome.2 ∧ outcome.2 ≤ workers.count) ∧
    ∃ results, outcome.1 = earlier ++ results ∧ results.length = items.length ∧
      List.Forall₂ (ResultOf step) items results := by
  intro length outcome
  obtain ⟨results, given, related⟩ := run_in_order workers start step items earlier
  have ordered : ∃ results, outcome.1 = earlier ++ results ∧ results.length = items.length ∧
      List.Forall₂ (ResultOf step) items results :=
    ⟨results, given, related.length_eq.symm, related⟩
  by_cases alone : workers.count = 1 ∨ items.length < max workers.threshold workers.count
  · have one : outcome = _ := run_of_alone workers start step items earlier some alone
    refine ⟨fun _ => one, fun shared => absurd alone shared, ?_, ordered⟩
    rw [one]
    exact ⟨le_rfl, some⟩
  · obtain ⟨pos, sum, few, shares⟩ := run_of_shared workers start step items earlier some alone
    have hshares : outcome = _ := shares
    refine ⟨fun alone' => absurd alone' alone, fun _ => ⟨pos, sum, shares⟩, ?_, ordered⟩
    rw [hshares]
    constructor
    · -- no runs at all would leave no items
      by_contra none
      have long := (ceilDiv_le_iff_le_mul pos).mp (Nat.le_of_lt_succ (Nat.lt_of_not_le none))
      omega
    · exact few

/-- Nine items for four workers make runs of three, so that three workers are enough. Each counts
and adds up its own items. -/
theorem run_nine_on_four :
    Workers.run ⟨4, 0⟩ (0, 0)
        (fun (sum, count) item => ((sum + item, count + 1), (sum + item, count + 1)))
        [1, 2, 3, 4, 5, 6, 7, 8, 9] [] =
      ([(1, 1), (3, 2), (6, 3), (4, 1), (9, 2), (15, 3), (7, 1), (15, 2), (24, 3)], 3) := by
  obtain ⟨-, shares, -⟩ := run_eq_folds ⟨4, 0⟩ (0, 0)
    (fun (sum, count) item => ((sum + item, count + 1), (sum + item, count + 1)))
    [1, 2, 3, 4, 5, 6, 7, 8, 9] [] (by decide)
  obtain ⟨-, -, outcome⟩ := shares (by decide)
  rw [outcome]
  decide

end Unmangle.Workers
