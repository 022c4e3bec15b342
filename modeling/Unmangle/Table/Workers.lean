/-!
# Work shared out in chunks

A list is cut into runs of one length, one for each worker, and every worker
starts from a state of its own. Short lists are left to a single worker. Results
come in the order of the items, whoever worked them out.
-/
namespace Unmangle

/-- How work is shared out. -/
structure Workers where
  /-- Zero leaves the number open, and one is taken. -/
  count : Nat := 0
  /-- Shorter lists are not shared out. -/
  threshold : Nat := 512
  deriving Repr, DecidableEq, Inhabited

namespace Workers

variable {α β σ : Type}

/-- One worker: every item changes the state and has a result. -/
def runOne (step : σ → α → β × σ) : σ → List α → List β
  | _, [] => []
  | state, item :: rest =>
    let (result, state) := step state item
    result :: runOne step state rest

/-- Runs of one length. The current run takes some more items before it is full. -/
def chunksFrom (length : Nat) : Nat → List α → List α → List (List α)
  | _, run, [] => if run.isEmpty then [] else [run.reverse]
  | 0, run, item :: rest => run.reverse :: chunksFrom length (length - 1) [item] rest
  | room + 1, run, item :: rest => chunksFrom length room (item :: run) rest

/-- Consecutive runs of a length. Only the last one may be shorter. -/
def chunks (length : Nat) (items : List α) : List (List α) :=
  chunksFrom length length [] items

def available (workers : Workers) : Nat :=
  if workers.count = 0 then 1 else workers.count

/-- The results of all items behind earlier results, and the number of workers
that had something to do. -/
def run (workers : Workers) (start : σ) (step : σ → α → β × σ) (items : List α)
    (earlier : List β) : List β × Nat :=
  let available := workers.available
  if available = 1 ∨ items.length < max workers.threshold available then
    (earlier ++ runOne step start items, 1)
  else
    let runs := chunks ((items.length + available - 1) / available) items
    (earlier ++ runs.flatMap (runOne step start), runs.length)

/-- Cutting a list into chunks loses nothing. -/
theorem flatten_chunksFrom (length room : Nat) (run items : List α) :
    (chunksFrom length room run items).flatten = run.reverse ++ items := by
  induction items generalizing room run with
  | nil =>
    rw [chunksFrom]
    split
    · simp_all
    · simp
  | cons item rest ih => cases room <;> simp [chunksFrom, ih]

/-- Cutting a list loses nothing and moves nothing. -/
theorem flatten_chunks (length : Nat) (items : List α) :
    (chunks length items).flatten = items := by
  simp [chunks, flatten_chunksFrom]

end Workers
end Unmangle
