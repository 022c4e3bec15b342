/-!
# A place in a symbol

A cursor holds how many bytes were read and the bytes that are left. Every move is
forward, over bytes that are there.
-/
namespace Unmangle

/-- A place in a symbol, and what lies behind it. -/
structure Cursor where
  offset : Nat
  rest : List UInt8
  deriving Repr, DecidableEq, Inhabited

namespace Cursor

def start (symbol : ByteArray) : Cursor :=
  ⟨0, symbol.data.toList⟩

def atEnd (cursor : Cursor) : Bool :=
  cursor.rest.isEmpty

/-- The byte at a distance, as the character of that code. There is nothing but
NUL beyond the end. -/
def peekAt (cursor : Cursor) (distance : Nat) : Char :=
  match cursor.rest[distance]? with
  | some byte => Char.ofNat byte.toNat
  | none => '\x00'

/-- Move over a number of bytes, or to the end if there are fewer. -/
def advance (cursor : Cursor) : Nat → Cursor
  | 0 => cursor
  | count + 1 =>
    match cursor with
    | ⟨offset, _ :: rest⟩ => advance ⟨offset + 1, rest⟩ count
    | ⟨offset, []⟩ => ⟨offset, []⟩

/-- Move over exactly a number of bytes. -/
def take? (cursor : Cursor) : Nat → Option Cursor
  | 0 => some cursor
  | count + 1 =>
    match cursor with
    | ⟨offset, _ :: rest⟩ => take? ⟨offset + 1, rest⟩ count
    | ⟨_, []⟩ => none

/-- Move over a token. -/
def strip? (cursor : Cursor) : List Char → Option Cursor
  | [] => some cursor
  | char :: token =>
    match cursor with
    | ⟨offset, byte :: rest⟩ =>
      if byte.toNat = char.toNat then strip? ⟨offset + 1, rest⟩ token else none
    | ⟨_, []⟩ => none

/-- The longest run of bytes with a property, and the cursor behind it. -/
def spanWhile (cursor : Cursor) (property : UInt8 → Bool) : List UInt8 × Cursor :=
  let run := cursor.rest.takeWhile property
  (run, ⟨cursor.offset + run.length, cursor.rest.dropWhile property⟩)

/-- Where the symbol ends. No move changes it. -/
def stop (cursor : Cursor) : Nat :=
  cursor.offset + cursor.rest.length

theorem rest_advance (cursor : Cursor) (count : Nat) :
    (cursor.advance count).rest = cursor.rest.drop count := by
  induction count generalizing cursor with
  | zero => simp [advance]
  | succ count ih =>
    obtain ⟨offset, _ | ⟨byte, rest⟩⟩ := cursor
    · simp [advance]
    · simp [advance, ih]

/-- Moving on does not move the end of the symbol. -/
theorem stop_advance (cursor : Cursor) (count : Nat) :
    (cursor.advance count).stop = cursor.stop := by
  induction count generalizing cursor with
  | zero => rfl
  | succ count ih =>
    obtain ⟨offset, _ | ⟨byte, rest⟩⟩ := cursor
    · rfl
    · rw [advance, ih]
      simp only [stop, List.length_cons]
      omega

/-- Exactly the counts that are left can be moved over. -/
theorem take?_eq_some_iff (cursor after : Cursor) (count : Nat) :
    cursor.take? count = some after ↔
      count ≤ cursor.rest.length ∧ after = ⟨cursor.offset + count, cursor.rest.drop count⟩ := by
  induction count generalizing cursor with
  | zero => simp [take?, eq_comm]
  | succ count ih =>
    obtain ⟨offset, _ | ⟨byte, rest⟩⟩ := cursor
    · simp [take?]
    · simp [take?, ih, Nat.add_assoc, Nat.add_comm 1 count]

end Cursor
end Unmangle
