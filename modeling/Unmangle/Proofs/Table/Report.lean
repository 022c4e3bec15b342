import Mathlib
import Unmangle.Proofs.Log.Newest
import Unmangle.Proofs.Table.Tally

/-!
# What the passes over a table report

A pass comes to the records one after another. It reports a record when the record is looked at,
has the marker of an encoding and is none, provided such lines are asked for. Behind the last record
it reports itself. Two passes say the same of a record, so the log has its line twice.
-/
namespace Unmangle

namespace LogEntry

def Ended (entry : LogEntry) : Prop :=
  ∃ last, entry.line.toList.getLast? = some last ∧ last ≠ '\n'

theorem Ended.trimmed {entry : LogEntry} (ended : entry.Ended) : entry.trimmed = entry := by
  obtain ⟨last, hlast, differs⟩ := ended
  have kept : entry.line.toList.rdropWhile (· == '\n') = entry.line.toList := by
    rw [List.rdropWhile_eq_self_iff]
    intro some
    rw [List.getLast?_eq_some_getLast some, Option.some.injEq] at hlast
    simpa [hlast] using differs
  rw [LogEntry.trimmed, kept, String.ofList_toList]

/-- What a line is put together from ends it. -/
theorem ended_append {front words : String} {level : LogLevel} (ended : Ended ⟨words, level⟩) :
    Ended ⟨front ++ words, level⟩ := by
  obtain ⟨last, hlast, differs⟩ := ended
  refine ⟨last, ?_, differs⟩
  rw [String.toList_append, List.getLast?_append, hlast]
  rfl

end LogEntry

theorem LogRing.holds_appendAll {capacity : Nat} {ring : LogRing capacity} {lines : List LogEntry}
    (holds : ring.Holds lines) (more : List LogEntry) :
    (ring.appendAll more).Holds (lines ++ more) := by
  induction more generalizing ring lines with
  | nil => simpa [LogRing.appendAll] using holds
  | cons entry more ih => simpa [LogRing.appendAll] using ih (holds.append entry)

/-- A ring that was cleared shows the last of the lines that it has got since. -/
theorem LogRing.toList_appendAll_clear {capacity : Nat} (ring : LogRing capacity)
    {lines : List LogEntry} (ended : ∀ entry ∈ lines, entry.Ended) :
    (ring.clear.appendAll lines).toList = lines.rtake capacity := by
  have holds : (ring.clear.appendAll lines).Holds lines :=
    holds_appendAll (holds_nil rfl rfl) lines
  rw [LogRing.toList, holds.stored, List.map_map]
  refine (List.map_congr_left fun entry mem => ?_).trans (List.map_id _)
  rw [Function.comp_apply, trimNewlines_closed]
  exact (ended entry (List.mem_of_mem_drop mem)).trimmed

namespace TypeCounts

theorem mem_keys_add (counts : TypeCounts) (code other : UInt8) :
    other ∈ (counts.add code).map Prod.fst ↔ other = code ∨ other ∈ counts.map Prod.fst := by
  induction counts with
  | nil => simp [TypeCounts.add]
  | cons entry rest ih =>
    obtain ⟨first, count⟩ := entry
    rw [TypeCounts.add]
    split
    · simp
    · split
      · simp_all
      · rw [List.map_cons, List.mem_cons, ih, List.map_cons, List.mem_cons, or_left_comm]

/-- The codes that are counted are those that occur. -/
theorem mem_keys_tally (codes : List UInt8) (code : UInt8) :
    code ∈ (tally codes).map Prod.fst ↔ code ∈ codes := by
  induction codes using List.reverseRecOn with
  | nil => simp [tally]
  | append_singleton codes last ih =>
    rw [tally, List.foldl_concat, mem_keys_add, List.mem_append, List.mem_singleton, or_comm, ← ih,
      tally]

/-- A code has one count, however often it occurs. -/
theorem length_tally (codes : List UInt8) : (tally codes).length = codes.dedup.length := by
  have nodup : ((tally codes).map Prod.fst).Nodup :=
    List.pairwise_map.mpr ((ascending_tally codes).imp fun below => UInt8.ne_of_lt below)
  have perm : ((tally codes).map Prod.fst).Perm codes.dedup := by
    refine (List.perm_ext_iff_of_nodup nodup codes.nodup_dedup).mpr ?_
    intro code
    rw [mem_keys_tally, List.mem_dedup]
  simpa using perm.length_eq

end TypeCounts

/-- The line for a record that is declined though it has the marker, if such lines are asked for. -/
def Record.declinedLine? (options : Options) (record : Record) : Option LogEntry :=
  let candidate := Symbol.undecorated record.name record.typeCode
  if options.traceFailures = true ∧ record.typeCode ≤ 40 ∧ Symbol.isEncoding candidate = true then
    match (Engine.demangle { options := options } candidate).1 with
    | .ok _ => none
    | .error fault =>
      some ⟨"[demangler] declined '" ++ candidate ++ "': " ++ fault.message, .trace⟩
  else none

namespace Table

/-- The line of a pass that shows the names, with one worker. -/
def rewrittenLine (options : Options) (records : List Record) : LogEntry :=
  ⟨"[machsym::demangle_all] Rewrote " ++
    Nat.repr (records.countP fun record => record.shown options != record.name) ++ " of " ++
    Nat.repr records.length ++ " symbols on 1 thread(s).", .info⟩

/-- The line of a pass that counts. -/
def countedLine (options : Options) (records : List Record) : LogEntry :=
  ⟨"[machsym::analyze] " ++ Nat.repr records.length ++ " symbols, " ++
    Nat.repr (records.countP Record.isExternal) ++ " external, " ++
    Nat.repr (records.countP fun record => (record.tried options).succeeded) ++ " demangled, " ++
    Nat.repr (records.map Record.typeCode).dedup.length ++ " distinct types.", .info⟩

variable (settings : Settings) (options : Options) (records : List Record)

/-- An attempt logs a line just if it declines. -/
theorem lines_tried (record : Record) :
    (record.tried options).lines = (record.declinedLine? options).toList := by
  have kept : (Engine.demangle { options := options }
      (Symbol.undecorated record.name record.typeCode)).2.options = options :=
    ((Engine.AtRest.fresh options).demangle (.fresh options) _).2.options
  unfold Record.tried Engine.attemptSymbol Engine.attempt Record.declinedLine?
  by_cases above : Symbol.maxEligible < record.typeCode
  · have skipped : ¬record.typeCode ≤ 40 := UInt8.not_le.mpr above
    simp [above, skipped]
  · have eligible : record.typeCode ≤ 40 := UInt8.not_lt.mp above
    by_cases marked : Symbol.isEncoding (Symbol.undecorated record.name record.typeCode) = true
    · rcases hcall : Engine.demangle { options := options }
        (Symbol.undecorated record.name record.typeCode) with ⟨outcome, engine⟩
      have kept : engine.options = options := by simpa only [hcall] using kept
      cases outcome with
      | ok text => simp [above, marked, hcall]
      | error fault =>
        cases asked : options.traceFailures <;>
          simp [above, eligible, marked, hcall, kept, asked]
    · simp [above, marked]

/-- A pass logs the records that it declines in their order. -/
theorem flatMap_lines :
    (attempts settings records).1.flatMap Attempt.lines =
      records.filterMap (Record.declinedLine? settings.options) := by
  rw [attempts_eq_map_tried, List.flatMap_map, List.filterMap_eq_flatMap_toList]
  congr 1
  funext record
  exact lines_tried settings.options record

theorem attempts_alone (alone : settings.workers.count = 1) :
    (attempts settings records).2 = 1 := by
  unfold attempts Workers.run Workers.available
  simp [alone]

theorem names_eq_map_shown :
    (names settings records).1 = records.map (Record.shown settings.options) := by
  show List.zipWith Record.display records (attempts settings records).1 = _
  rw [attempts_eq_map_tried, List.zipWith_map_right, List.zipWith_self]
  exact List.map_congr_left fun record _ => record.display_tried settings.options

theorem one_worker (front : String) :
    front ++ " symbols on " ++ Nat.repr 1 ++ " thread(s)." = front ++ " symbols on 1 thread(s)." := by
  rw [String.append_assoc, String.append_assoc]
  exact congrArg (front ++ ·) (by decide)

/-- What a pass over names logs: the declined records, then how many were rewritten. -/
theorem lines_names (alone : settings.workers.count = 1) :
    (names settings records).2 = records.filterMap (Record.declinedLine? settings.options) ++
      [rewrittenLine settings.options records] := by
  have changed : (records.zip (names settings records).1).countP
      (fun pair => pair.1.name != pair.2) =
      records.countP fun record => record.shown settings.options != record.name := by
    have beside : records.zip (records.map (Record.shown settings.options)) =
        records.map fun record => (record, record.shown settings.options) := by
      rw [← List.zip_map', List.map_id']
    rw [names_eq_map_shown, beside, List.countP_map]
    exact List.countP_congr fun record _ => by
      simp only [Function.comp_apply, bne_iff_ne, ne_comm]
  have told : (names settings records).2 =
      (attempts settings records).1.flatMap Attempt.lines ++
        [⟨"[machsym::demangle_all] Rewrote " ++
          Nat.repr ((records.zip (names settings records).1).countP
            fun pair => pair.1.name != pair.2) ++ " of " ++ Nat.repr records.length ++
          " symbols on " ++ Nat.repr (attempts settings records).2 ++ " thread(s).", .info⟩] :=
    rfl
  rw [told, flatMap_lines, changed, attempts_alone settings records alone, one_worker]
  rfl

/-- What a pass over types logs: the declined records, then the counts. -/
theorem lines_summary :
    (summary settings records).2 = records.filterMap (Record.declinedLine? settings.options) ++
      [countedLine settings.options records] := by
  have counted : (summary settings records).1.typeCounts.length =
      (records.map Record.typeCode).dedup.length := by
    rw [summary_eq, TypeCounts.length_tally]
  have told : (summary settings records).2 =
      (attempts settings records).1.flatMap Attempt.lines ++
        [⟨"[machsym::analyze] " ++ Nat.repr (summary settings records).1.symbols ++ " symbols, " ++
          Nat.repr (summary settings records).1.external ++ " external, " ++
          Nat.repr (summary settings records).1.demangled ++ " demangled, " ++
          Nat.repr (summary settings records).1.typeCounts.length ++ " distinct types.", .info⟩] :=
    rfl
  rw [told, flatMap_lines, counted, summary_eq]
  rfl

/-- Every fault has a text for people. -/
theorem ended_message (fault : Fault) : LogEntry.Ended ⟨fault.message, .trace⟩ := by
  cases fault <;> exact ⟨_, rfl, by decide⟩

theorem ended_lines :
    ∀ entry ∈ records.filterMap (Record.declinedLine? options), entry.Ended := by
  intro entry mem
  obtain ⟨record, -, told⟩ := List.mem_filterMap.mp mem
  simp only [Record.declinedLine?] at told
  split at told
  · split at told
    · cases told
    · cases told
      exact LogEntry.ended_append (ended_message _)
  · cases told

theorem ended_rewrittenLine : (rewrittenLine options records).Ended :=
  LogEntry.ended_append ⟨'.', rfl, by decide⟩

theorem ended_countedLine : (countedLine options records).Ended :=
  LogEntry.ended_append ⟨'.', rfl, by decide⟩

/-- To show the names of a table with one worker and then to count it brings these lines and no
others, and a log that was cleared before holds the last of them as they are. -/
theorem log_of_passes (settings : Settings) (records : List Record)
    (ring : LogRing programLogCapacity) (alone : settings.workers.count = 1) :
    let declined := records.filterMap (Record.declinedLine? settings.options)
    let lines := declined ++ [rewrittenLine settings.options records] ++
      (declined ++ [countedLine settings.options records])
    (names settings records).2 ++ (summary settings records).2 = lines ∧
      (ring.clear.appendAll ((names settings records).2 ++ (summary settings records).2)).toList =
        lines.rtake 300 := by
  intro declined lines
  have brought : (names settings records).2 ++ (summary settings records).2 = lines := by
    rw [lines_names settings records alone, lines_summary]
  refine ⟨brought, ?_⟩
  rw [brought]
  apply ring.toList_appendAll_clear
  intro entry mem
  simp only [lines, List.mem_append, List.mem_singleton] at mem
  rcases mem with (told | rfl) | told | rfl
  · exact ended_lines _ _ entry told
  · exact ended_rewrittenLine _ _
  · exact ended_lines _ _ entry told
  · exact ended_countedLine _ _

/-- A decoration comes off before a name is declined, and a record that is not looked at is not
declined though its name is no better. -/
theorem log_of_one_declined :
    let settings : Settings := ⟨{ traceFailures := true }, 1, 0⟩
    let records : List Record := [⟨"_Z3foov:F", 0x24, 0⟩, ⟨"_Z3foo:G", 0x20, 0⟩, ⟨"_main", 0x0f, 0⟩,
      ⟨"_Z3foo", 0x64, 0⟩]
    let declined : LogEntry :=
      ⟨"[demangler] declined '_Z3foo': mangled symbol ends abruptly", .trace⟩
    settings.workers.count = 1 ∧
      (LogRing.appendAll (LogRing.clear (default : LogRing programLogCapacity))
        ((names settings records).2 ++ (summary settings records).2)).toList =
        [declined, ⟨"[machsym::demangle_all] Rewrote 2 of 4 symbols on 1 thread(s).", .info⟩,
          declined, ⟨"[machsym::analyze] 4 symbols, 1 external, 1 demangled, 4 distinct types.",
            .info⟩] := by
  intro settings records declined
  obtain ⟨-, held⟩ := log_of_passes settings records default rfl
  refine ⟨rfl, ?_⟩
  rw [held]
  decide +kernel

end Table
end Unmangle
