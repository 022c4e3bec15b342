import Unmangle.Log.Entry

/-!
# A log of bounded length

A ring holds the newest lines. When it is full a new line takes the place of the
oldest one. Clearing it forgets the lines without touching their places.
-/
namespace Unmangle

/-- A ring with room for `capacity` lines. -/
structure LogRing (capacity : Nat) where
  /-- The stored lines, each with its closing newline. -/
  slots : Vector LogEntry capacity := Vector.replicate capacity ⟨"", .trace⟩
  /-- The place of the next line. -/
  head : Nat := 0
  /-- The number of lines appended since the ring was last cleared. -/
  appended : Nat := 0

namespace LogRing

variable {capacity : Nat}

instance : Inhabited (LogRing capacity) := ⟨{}⟩

/-- Write a line to the next place, which is the oldest line's when the ring is full. -/
def append (ring : LogRing capacity) (entry : LogEntry) : LogRing capacity where
  slots := ring.slots.setIfInBounds ring.head ⟨entry.line ++ "\n", entry.level⟩
  head := (ring.head + 1) % capacity
  appended := ring.appended + 1

def appendAll (ring : LogRing capacity) (entries : List LogEntry) : LogRing capacity :=
  entries.foldl append ring

def clear (ring : LogRing capacity) : LogRing capacity :=
  { ring with head := 0, appended := 0 }

def length (ring : LogRing capacity) : Nat :=
  min ring.appended capacity

def isEmpty (ring : LogRing capacity) : Bool :=
  ring.appended == 0

/-- The lines held as they are stored, oldest first. -/
def stored (ring : LogRing capacity) : List LogEntry :=
  let slots := ring.slots.toList
  if ring.appended < capacity then slots.take ring.appended
  else slots.drop ring.head ++ slots.take ring.head

def trimNewlines (text : String) : String :=
  String.ofList ((text.toList.reverse.dropWhile (· == '\n')).reverse)

/-- The lines held, oldest first. -/
def toList (ring : LogRing capacity) : List LogEntry :=
  ring.stored.map fun entry => ⟨trimNewlines entry.line, entry.level⟩

/-- The lines held as one text, each behind its level. -/
def format (ring : LogRing capacity) : String :=
  String.join (ring.stored.map fun entry => "[" ++ entry.level.name ++ "] " ++ entry.line)

end LogRing

def programLogCapacity : Nat := 300

end Unmangle
