import Mathlib.Data.List.DropRight
import Mathlib.Data.List.Rotate
import Mathlib.Order.Interval.Finset.Nat
import Unmangle.Log.Ring

/-!
# A ring holds the newest lines

Number the lines appended since a ring was last cleared from zero. Line `i` goes to the place
`i % capacity`, and it stays there until `capacity` more lines have come. So the lines held are the
last ones of that list, whatever stood in the places before, and the head, which is the number of
lines round the ring, is the place of the oldest of them once the ring is full.
-/
namespace Unmangle

namespace LogEntry

def closed (entry : LogEntry) : LogEntry := ⟨entry.line ++ "\n", entry.level⟩

def trimmed (entry : LogEntry) : LogEntry :=
  ⟨String.ofList (entry.line.toList.rdropWhile (· == '\n')), entry.level⟩

end LogEntry

namespace LogRing

variable {capacity : Nat}

/-- What is done to a ring. -/
inductive Command
  | append (entry : LogEntry)
  | clear
  deriving Repr, DecidableEq

namespace Command

def line? : Command → Option LogEntry
  | append entry => some entry
  | clear => none

/-- The entries appended since the last clear, in their order. -/
def appended (commands : List Command) : List LogEntry :=
  (commands.rtakeWhile fun command => command.line?.isSome).filterMap line?

theorem appended_append (commands : List Command) (entry : LogEntry) :
    appended (commands ++ [append entry]) = appended commands ++ [entry] := by
  rw [appended, List.rtakeWhile_concat_pos _ _ _ rfl]
  simp [appended, line?]

theorem appended_clear (commands : List Command) : appended (commands ++ [clear]) = [] := by
  rw [appended, List.rtakeWhile_concat_neg _ _ _ (by simp [line?]), List.filterMap_nil]

end Command

def perform (ring : LogRing capacity) : Command → LogRing capacity
  | .append entry => ring.append entry
  | .clear => ring.clear

def after (capacity : Nat) (commands : List Command) : LogRing capacity :=
  commands.foldl perform {}

/-- The ring has got these lines since it was cleared. Of them the last `capacity` still have their
places; nothing is said of the other places. -/
structure Holds (ring : LogRing capacity) (lines : List LogEntry) : Prop where
  appended : ring.appended = lines.length
  head : ring.head = lines.length % capacity
  newest : ∀ (i : Nat) (hi : i < lines.length), lines.length ≤ i + capacity →
    ring.slots.toList[i % capacity]? = some lines[i].closed

/-- Nothing is asked of the places of a ring without lines, so that clearing need not touch them. -/
theorem holds_nil {ring : LogRing capacity} (appended : ring.appended = 0) (head : ring.head = 0) :
    ring.Holds [] := by
  constructor
  · exact appended
  · simp [head]
  · intro i hi
    simp at hi

/-- The place of a new line was that of the line `capacity` before it, which is no longer held. -/
theorem Holds.append {ring : LogRing capacity} {lines : List LogEntry} (holds : ring.Holds lines)
    (entry : LogEntry) : (ring.append entry).Holds (lines ++ [entry]) := by
  constructor
  · simp [LogRing.append, holds.appended]
  · simp [LogRing.append, holds.head]
  · intro i hi held
    have hslots : (ring.append entry).slots.toList =
        ring.slots.toList.set (lines.length % capacity) entry.closed := by
      simp [LogRing.append, holds.head, LogEntry.closed, Vector.toList_setIfInBounds]
    rw [List.length_append, List.length_singleton] at hi held
    rw [hslots]
    by_cases old : i < lines.length
    · have apart : lines.length % capacity ≠ i % capacity := by
        intro same
        have := Nat.mod_injOn_Ico i capacity (by simp; omega) (by simp; omega) same.symm
        omega
      rw [List.getElem?_set_ne apart, List.getElem_append_left old]
      exact holds.newest i old (by omega)
    · obtain rfl : i = lines.length := by omega
      have inside : lines.length % capacity < ring.slots.toList.length := by
        rw [Vector.length_toList]
        exact Nat.mod_lt _ (by omega)
      rw [List.getElem?_set_self inside]
      simp

/-- Whatever was done to a ring, it holds what was appended since it was cleared. -/
theorem holds_after (commands : List Command) :
    Holds (after capacity commands) (Command.appended commands) := by
  induction commands using List.reverseRecOn with
  | nil => exact holds_nil rfl rfl
  | append_singleton commands command ih =>
    rw [after, List.foldl_concat]
    cases command with
    | append entry =>
      rw [Command.appended_append]
      exact ih.append entry
    | clear =>
      rw [Command.appended_clear]
      exact holds_nil rfl rfl

/-- While there is room, no line has been put in another's place. -/
theorem Holds.take_slots {ring : LogRing capacity} {lines : List LogEntry}
    (holds : ring.Holds lines) (room : lines.length < capacity) :
    ring.slots.toList.take lines.length = lines.map LogEntry.closed := by
  apply List.ext_getElem?
  intro i
  by_cases inside : i < lines.length
  · have place := holds.newest i inside (by omega)
    rw [Nat.mod_eq_of_lt (by omega)] at place
    simp [List.getElem?_take_of_lt inside, place, inside]
  · rw [List.getElem?_eq_none (by simp; omega), List.getElem?_eq_none (by simp; omega)]

/-- When there is none, the places from the head on and round the ring hold the last lines. -/
theorem Holds.rotate_slots {ring : LogRing capacity} {lines : List LogEntry}
    (holds : ring.Holds lines) (full : capacity ≤ lines.length) :
    ring.slots.toList.rotate lines.length = (lines.rtake capacity).map LogEntry.closed := by
  rw [List.rtake]
  apply List.ext_getElem?
  intro i
  by_cases inside : i < capacity
  · have place := holds.newest (lines.length - capacity + i) (by omega) (by omega)
    have round : (i + lines.length) % capacity = (lines.length - capacity + i) % capacity := by
      rw [← Nat.add_mod_right (lines.length - capacity + i)]
      congr 1
      omega
    rw [List.getElem?_rotate (by simpa using inside), Vector.length_toList, round, place]
    simp [show lines.length - capacity + i < lines.length by omega]
  · rw [List.getElem?_eq_none (by simp; omega), List.getElem?_eq_none (by simp; omega)]

/-- The lines held are stored in at most two runs of places: behind the head, then before it. -/
theorem Holds.stored {ring : LogRing capacity} {lines : List LogEntry} (holds : ring.Holds lines) :
    ring.stored = (lines.rtake capacity).map LogEntry.closed := by
  rw [LogRing.stored, holds.appended]
  by_cases room : lines.length < capacity
  · rw [if_pos room, holds.take_slots room, List.rtake, Nat.sub_eq_zero_of_le room.le,
      List.drop_zero]
  · rw [if_neg room, ← holds.rotate_slots (Nat.le_of_not_lt room),
      List.rotate_eq_drop_append_take_mod, Vector.length_toList, holds.head]

/-- Trimming takes off the newline that closes a line with those that it ended in before. -/
theorem trimNewlines_closed (entry : LogEntry) :
    (⟨trimNewlines entry.closed.line, entry.closed.level⟩ : LogEntry) = entry.trimmed := by
  have newline : (entry.line ++ "\n").toList = entry.line.toList ++ ['\n'] := String.toList_append
  have trims : ((entry.line.toList ++ ['\n']).reverse.dropWhile (· == '\n')).reverse =
      entry.line.toList.rdropWhile (· == '\n') :=
    List.rdropWhile_concat_pos _ _ _ rfl
  rw [trimNewlines, LogEntry.closed, LogEntry.trimmed, newline, trims]

/-- A ring that is filled and cleared in any order shows the newest lines appended since it was
last cleared, oldest first, as many as it has places for. -/
theorem shows_newest (capacity : Nat) (commands : List Command) :
    let ring := after capacity commands
    let lines := Command.appended commands
    let newest := lines.rtake (min capacity lines.length)
    ring.toList = newest.map LogEntry.trimmed ∧
      ring.format = String.join (newest.map fun entry =>
        "[" ++ entry.level.name ++ "] " ++ entry.line ++ "\n") ∧
      ring.length = min capacity lines.length ∧
      (ring.isEmpty = true ↔ lines = []) := by
  intro ring lines newest
  have holds : ring.Holds lines := holds_after commands
  have stored : ring.stored = newest.map LogEntry.closed := by
    rw [holds.stored]
    simp only [newest, List.rtake]
    congr 2
    omega
  refine ⟨?_, ?_, ?_, ?_⟩
  · rw [LogRing.toList, stored, List.map_map]
    apply List.map_congr_left
    intro entry _
    exact trimNewlines_closed entry
  · rw [LogRing.format, stored, List.map_map]
    congr 1
    apply List.map_congr_left
    intro entry _
    simp [LogEntry.closed, String.append_assoc]
  · rw [LogRing.length, holds.appended, Nat.min_comm]
  · rw [LogRing.isEmpty, holds.appended, beq_iff_eq, List.length_eq_zero_iff]

/-- A line from before the last clear is gone, and the first of three in a ring of two. -/
example : (after 2 [.append ⟨"a", .info⟩, .clear, .append ⟨"b", .error⟩, .append ⟨"c\n", .trace⟩,
    .append ⟨"d", .warning⟩]).toList = [⟨"c", .trace⟩, ⟨"d", .warning⟩] := by decide +kernel

end LogRing
end Unmangle
