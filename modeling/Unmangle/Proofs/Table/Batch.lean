import Unmangle.Proofs.Engine.History
import Unmangle.Table.Summary

/-!
# A table is worked off record by record

Workers share out a table and reuse an engine for all records of a run. Neither is
seen in the results: they are those of one record after another, each with an engine
of its own.
-/
namespace Unmangle

namespace Workers

variable {α β σ : Type} {step : σ → α → β × σ} {Idle : σ → Prop} {answer : α → β}

/-- Any idle state gives an item its one answer, and is idle behind it. -/
def Steady (step : σ → α → β × σ) (Idle : σ → Prop) (answer : α → β) : Prop :=
  ∀ state item, Idle state → (step state item).1 = answer item ∧ Idle (step state item).2

/-- A worker that comes to rest behind each item answers each on its own. -/
theorem runOne_eq_map (steady : Steady step Idle answer) (items : List α) {state : σ}
    (idle : Idle state) : runOne step state items = items.map answer := by
  induction items generalizing state with
  | nil => rfl
  | cons item rest ih =>
    obtain ⟨answered, after⟩ := steady state item idle
    show (step state item).1 :: runOne step (step state item).2 rest = _
    rw [answered, ih after, List.map_cons]

/-- The runs that a list is cut into give what the whole list gives. -/
theorem flatMap_chunks_eq_map (steady : Steady step Idle answer) (length : Nat) (items : List α)
    {start : σ} (idle : Idle start) :
    (chunks length items).flatMap (runOne step start) = items.map answer := by
  calc (chunks length items).flatMap (runOne step start)
      = (chunks length items).flatMap (List.map answer) := by
        congr 1
        funext run
        exact runOne_eq_map steady run idle
    _ = (chunks length items).flatten.map answer := by
        rw [List.flatMap_def, List.map_flatten]
    _ = items.map answer := by rw [flatten_chunks]

/-- However the work is shared out, every item has its answer in its place. -/
theorem run_eq_map (workers : Workers) (steady : Steady step Idle answer) (items : List α)
    (earlier : List β) {start : σ} (idle : Idle start) :
    (workers.run start step items earlier).1 = earlier ++ items.map answer := by
  unfold run
  by_cases alone : workers.available = 1 ∨ items.length < max workers.threshold workers.available
  · rw [if_pos alone]
    show earlier ++ runOne step start items = _
    rw [runOne_eq_map steady items idle]
  · rw [if_neg alone]
    show earlier ++ (chunks _ items).flatMap (runOne step start) = _
    rw [flatMap_chunks_eq_map steady _ items idle]

end Workers

namespace Record

variable (options : Options) (record : Record)

def tried : Attempt :=
  (Engine.attemptSymbol { options := options } record.name record.typeCode).1

/-- The demangled form if there is one. Else the name without its decoration, which a
record that is not looked at keeps. -/
def shown : String :=
  match (record.tried options).outcome with
  | .ok text => text
  | .error _ =>
    if record.typeCode ≤ Symbol.maxEligible then Symbol.undecorated record.name record.typeCode
    else record.name

/-- A record that is not looked at has no demangled form to be shown. -/
theorem display_tried : record.display (record.tried options) = record.shown options := by
  unfold display shown Attempt.display
  by_cases above : Symbol.maxEligible < record.typeCode
  · have declined : (record.tried options).outcome = .error .notEligible := by
      rw [tried, Engine.attemptSymbol, if_pos above]
    rw [if_pos above, declined]
    exact (if_neg (UInt8.not_le.mpr above)).symm
  · rw [if_neg above]
    cases (record.tried options).outcome with
    | ok text => rfl
    | error reason => exact (if_pos (UInt8.not_lt.mp above)).symm

end Record

namespace Engine

theorem attemptRecord_steady (options : Options) :
    Workers.Steady attemptRecord (AtRest options) (Record.tried options) := by
  intro engine record rest
  exact rest.attemptSymbol (.fresh options) record.name record.typeCode

end Engine

namespace Table

theorem attempts_eq_map_tried (settings : Settings) (records : List Record) :
    (attempts settings records).1 = records.map (Record.tried settings.options) :=
  settings.workers.run_eq_map (Engine.attemptRecord_steady settings.options) records []
    (.fresh settings.options)

/-- The numbers of one record do not touch the count of demangled ones. -/
theorem demangled_foldl_count (counts : Summary) (records : List Record) :
    (records.foldl count counts).demangled = counts.demangled := by
  induction records generalizing counts with
  | nil => rfl
  | cons record rest ih => exact ih (count counts record)

/-- A table is shown and counted as if every record had a new engine, in the order of
the records, for any number of workers and any length from which work is shared out. -/
theorem batch_eq_one_by_one (settings : Settings) (records : List Record) :
    (names settings records).1 = records.map (Record.shown settings.options) ∧
      (summary settings records).1.demangled =
        records.countP fun record => (record.tried settings.options).succeeded := by
  have tried := attempts_eq_map_tried settings records
  constructor
  · show List.zipWith Record.display records (attempts settings records).1 = _
    rw [tried, List.zipWith_map_right, List.zipWith_self]
    apply List.map_congr_left
    intro record _
    exact record.display_tried settings.options
  · show (records.foldl count _).demangled = _
    rw [demangled_foldl_count]
    show (attempts settings records).1.countP Attempt.succeeded = _
    rw [tried, List.countP_map]
    rfl

end Table
end Unmangle
