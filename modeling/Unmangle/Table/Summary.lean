import Unmangle.Settings.Basic
import Unmangle.Table.Record

/-!
# Symbol tables

A whole table is demangled or counted, each record with an engine that it may
share with others. Each pass reports itself in one line of the log, behind the
lines of its records.
-/
namespace Unmangle

/-- How often each type code occurs, in the order of the codes. -/
abbrev TypeCounts := List (UInt8 × Nat)

/-- Count one more occurrence. -/
def TypeCounts.add (code : UInt8) : TypeCounts → TypeCounts
  | [] => [(code, 1)]
  | (other, count) :: rest =>
    if code < other then (code, 1) :: (other, count) :: rest
    else if code = other then (other, count + 1) :: rest
    else (other, count) :: TypeCounts.add code rest

/-- The numbers of a table. -/
structure Summary where
  symbols : Nat := 0
  external : Nat := 0
  stabs : Nat := 0
  /-- Records whose name is a valid encoding. -/
  demangled : Nat := 0
  typeCounts : TypeCounts := []
  deriving Repr, DecidableEq, Inhabited

namespace Table

/-- What came of every record, and the number of workers. -/
def attempts (settings : Settings) (records : List Record) : List Attempt × Nat :=
  settings.workers.run { options := settings.options : Engine } Engine.attemptRecord records []

/-- The names of a table as they are shown, with the lines of the log. -/
def names (settings : Settings) (records : List Record) : List String × List LogEntry :=
  let (attempts, workers) := attempts settings records
  let names := List.zipWith Record.display records attempts
  let changed := (records.zip names).countP fun (record, name) => record.name != name
  let line := "[machsym::demangle_all] Rewrote " ++ Nat.repr changed ++ " of " ++
    Nat.repr records.length ++ " symbols on " ++ Nat.repr workers ++ " thread(s)."
  (names, attempts.flatMap Attempt.lines ++ [⟨line, .info⟩])

/-- Count a record. Whether its name is an encoding is counted apart. -/
def count (counts : Summary) (record : Record) : Summary :=
  { counts with
    external := counts.external + record.isExternal.toNat
    stabs := counts.stabs + record.isStab.toNat
    typeCounts := counts.typeCounts.add record.typeCode }

/-- The numbers of a table, with the lines of the log. -/
def summary (settings : Settings) (records : List Record) : Summary × List LogEntry :=
  let (attempts, _) := attempts settings records
  let demangled := attempts.countP Attempt.succeeded
  let counts := records.foldl count { symbols := records.length, demangled := demangled }
  let line := "[machsym::analyze] " ++ Nat.repr counts.symbols ++ " symbols, " ++
    Nat.repr counts.external ++ " external, " ++ Nat.repr counts.demangled ++ " demangled, " ++
    Nat.repr counts.typeCounts.length ++ " distinct types."
  (counts, attempts.flatMap Attempt.lines ++ [⟨line, .info⟩])

end Table
end Unmangle
