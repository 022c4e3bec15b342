import Unmangle.Grammar.Cursor

/-!
# Moving over tokens

Whether a token comes next shows in the bytes that are left, and what lies behind it too.
-/
namespace Unmangle

theorem toList_extract (symbol : ByteArray) (start n : Nat) :
    (symbol.extract start (start + n)).data.toList = (symbol.data.toList.drop start).take n := by
  simp [ByteArray.data_extract, List.extract_eq_take_drop]

namespace Cursor

def skip (cursor : Cursor) (count : Nat) : Cursor :=
  ⟨cursor.offset + count, cursor.rest.drop count⟩

/-- A token that was in front has been passed over. -/
theorem strip?_eq_some {cursor after : Cursor} {token : List Char}
    (h : cursor.strip? token = some after) :
    token.length ≤ cursor.rest.length ∧ after = cursor.skip token.length := by
  induction token generalizing cursor with
  | nil =>
    obtain rfl : cursor = after := by simpa [strip?] using h
    exact ⟨Nat.zero_le _, rfl⟩
  | cons char token ih =>
    obtain ⟨offset, _ | ⟨byte, rest⟩⟩ := cursor
    · simp [strip?] at h
    · rw [strip?] at h
      split at h
      · obtain ⟨fits, rfl⟩ := ih h
        refine ⟨Nat.succ_le_succ fits, ?_⟩
        simp only [skip, List.length_cons, List.drop_succ_cons, Cursor.mk.injEq, and_true]
        omega
      · simp at h

/-- A token that comes next still does with more bytes behind it. -/
theorem strip?_append {cursor after : Cursor} {token : List Char} {more : List UInt8}
    (h : cursor.strip? token = some after) :
    (⟨cursor.offset, cursor.rest ++ more⟩ : Cursor).strip? token =
      some ⟨after.offset, after.rest ++ more⟩ := by
  induction token generalizing cursor with
  | nil =>
    obtain rfl : cursor = after := by simpa [strip?] using h
    rfl
  | cons char token ih =>
    obtain ⟨offset, _ | ⟨byte, rest⟩⟩ := cursor
    · simp [strip?] at h
    · simp only [List.cons_append, strip?] at h ⊢
      split at h
      · rw [if_pos ‹_›]
        exact ih h
      · cases h

/-- Whether a token comes next depends on what is left alone. -/
theorem isSome_strip?_congr {c c' : Cursor} (h : c.rest = c'.rest) (token : List Char) :
    (c.strip? token).isSome = (c'.strip? token).isSome := by
  induction token generalizing c c' with
  | nil => rfl
  | cons char token ih =>
    obtain ⟨offset, _ | ⟨byte, rest⟩⟩ := c <;> obtain ⟨offset', _ | ⟨byte', rest'⟩⟩ := c'
    · rfl
    · cases h
    · cases h
    · obtain ⟨rfl, rfl⟩ := List.cons.inj h
      rw [strip?, strip?]
      split
      · exact ih rfl
      · rfl

/-- The bytes that are spanned have been passed over. -/
theorem spanWhile_eq (cursor : Cursor) (property : UInt8 → Bool) :
    (cursor.spanWhile property).1.length ≤ cursor.rest.length ∧
      (cursor.spanWhile property).2 = cursor.skip (cursor.spanWhile property).1.length := by
  refine ⟨(List.takeWhile_prefix property).length_le, ?_⟩
  have h : (cursor.rest.takeWhile property ++ cursor.rest.dropWhile property).drop
      (cursor.rest.takeWhile property).length = cursor.rest.dropWhile property :=
    List.drop_left
  rw [List.takeWhile_append_dropWhile] at h
  simp only [spanWhile, skip, h]

/-- Bytes are taken just if there are enough of them. -/
theorem take?_eq (cursor : Cursor) (count : Nat) :
    cursor.take? count =
      if count ≤ cursor.rest.length then some (cursor.skip count) else none := by
  split
  · exact (take?_eq_some_iff cursor _ count).mpr ⟨‹_›, rfl⟩
  · rw [Option.eq_none_iff_forall_ne_some]
    intro after h
    exact absurd ((take?_eq_some_iff cursor after count).mp h).1 ‹_›

theorem skip_skip (cursor : Cursor) (n m : Nat) : (cursor.skip n).skip m = cursor.skip (n + m) := by
  simp only [skip, List.drop_drop, Nat.add_assoc]

theorem advance_eq {cursor : Cursor} {count : Nat} (fits : count ≤ cursor.rest.length) :
    cursor.advance count = cursor.skip count := by
  induction count generalizing cursor with
  | zero => rfl
  | succ count ih =>
    obtain ⟨offset, _ | ⟨byte, rest⟩⟩ := cursor
    · cases fits
    · rw [advance, ih (Nat.le_of_succ_le_succ fits)]
      simp only [skip, List.drop_succ_cons, Cursor.mk.injEq, and_true]
      omega

theorem strip?_one {cursor behind : Cursor} {char : Char} (h : cursor.strip? [char] = some behind) :
    ∃ byte, byte.toNat = char.toNat ∧ cursor.rest = byte :: behind.rest := by
  obtain ⟨offset, _ | ⟨byte, rest⟩⟩ := cursor
  · simp [strip?] at h
  · simp only [strip?] at h
    split at h
    · cases h
      exact ⟨byte, ‹_›, rfl⟩
    · cases h

theorem strip?_one_none {cursor : Cursor} {char : Char} (h : cursor.strip? [char] = none) :
    cursor.rest = [] ∨ ∃ byte rest, byte.toNat ≠ char.toNat ∧ cursor.rest = byte :: rest := by
  obtain ⟨offset, _ | ⟨byte, rest⟩⟩ := cursor
  · exact .inl rfl
  · simp only [strip?] at h
    split at h
    · cases h
    · exact .inr ⟨byte, rest, ‹_›, rfl⟩

/-- A token that comes next is moved over. -/
theorem strip?_of_append {cursor : Cursor} {token : List Char} {rest : List UInt8}
    (ascii : ∀ char ∈ token, char.toNat < 256)
    (h : cursor.rest = token.map (fun char => UInt8.ofNat char.toNat) ++ rest) :
    cursor.strip? token = some ⟨cursor.offset + token.length, rest⟩ := by
  induction token generalizing cursor with
  | nil =>
    obtain ⟨offset, _⟩ := cursor
    obtain rfl := h
    rfl
  | cons char token ih =>
    obtain ⟨offset, _⟩ := cursor
    obtain rfl := h
    have byte : (UInt8.ofNat char.toNat).toNat = char.toNat := by
      simpa using ascii char (List.mem_cons_self ..)
    simp only [List.map_cons, List.cons_append, strip?]
    rw [if_pos byte, ih (fun c hc => ascii c (List.mem_cons_of_mem char hc)) rfl]
    simp only [List.length_cons, Option.some.injEq, Cursor.mk.injEq, and_true]
    omega

/-- A token is in front where its bytes are. -/
theorem strip?_of_spelled {cursor : Cursor} {token : String} {bytes rest : List UInt8}
    (spelled : bytes = token.toList.map fun char => UInt8.ofNat char.toNat)
    (ascii : token.toList.all (fun char => char.toNat < 256) = true)
    (h : cursor.rest = bytes ++ rest) :
    cursor.strip? token.toList = some ⟨cursor.offset + bytes.length, rest⟩ := by
  have comes : cursor.rest =
      token.toList.map (fun char => UInt8.ofNat char.toNat) ++ rest := spelled ▸ h
  rw [strip?_of_append (fun char member => by simpa using List.all_eq_true.mp ascii char member)
    comes, spelled, List.length_map]

/-- Another byte than the first of a token comes next. -/
theorem strip?_of_ne {cursor : Cursor} {char : Char} {token : List Char}
    (h : ∀ byte ∈ cursor.rest.head?, byte.toNat ≠ char.toNat) :
    cursor.strip? (char :: token) = none := by
  obtain ⟨offset, _ | ⟨byte, rest⟩⟩ := cursor
  · rfl
  · rw [strip?, if_neg (h byte rfl)]

/-- Bytes of one kind come next, and a byte of another kind behind them, if any. -/
theorem spanWhile_of_append {cursor : Cursor} {property : UInt8 → Bool} {bytes rest : List UInt8}
    (all : ∀ byte ∈ bytes, property byte = true)
    (ends : ∀ byte ∈ rest.head?, property byte = false) (h : cursor.rest = bytes ++ rest) :
    cursor.spanWhile property = (bytes, ⟨cursor.offset + bytes.length, rest⟩) := by
  have none : rest.takeWhile property = [] ∧ rest.dropWhile property = rest := by
    cases rest with
    | nil => exact ⟨rfl, rfl⟩
    | cons byte rest =>
      have other := ends byte rfl
      simp [other]
  simp only [spanWhile, h, List.takeWhile_append_of_pos all, List.dropWhile_append_of_pos all, none,
    List.append_nil]

end Cursor
end Unmangle
