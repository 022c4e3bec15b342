import Unmangle.Grammar.State
import Unmangle.Grammar.Number
import Unmangle.Proofs.Grammar.Cursor

/-!
# Bare nested names

A nested name is bare when nothing of it is listed: it is `St` or a substitution without
tags, with no component behind it. Whether a nested name is bare shows in its bytes.
-/
namespace Unmangle
namespace Cursor

def past (cursor : Cursor) (token : String) : Cursor :=
  (cursor.strip? token.toList).getD cursor

def pastRef (cursor : Cursor) : Cursor :=
  match cursor.strip? "O".toList with
  | some behind => behind
  | none => cursor.past "R"

def pastQualifiers (cursor : Cursor) : Cursor :=
  ((((cursor.past "N").past "r").past "V").past "K").pastRef

def pastSeqId? (cursor : Cursor) : Option Cursor :=
  match cursor.strip? "_".toList with
  | some behind => some behind
  | none => (cursor.spanWhile Number.isSeqDigit).2.strip? "_".toList

def pastSubstitution? (cursor : Cursor) : Option Cursor := do
  let behind ← cursor.strip? "S".toList
  if (behind.peekAt 0).isLower then return behind.advance 1 else behind.pastSeqId?

/-- Behind a first component that is not listed. -/
def pastScope? (cursor : Cursor) : Option Cursor :=
  match cursor.strip? "St".toList with
  | some behind => some behind
  | none => if (cursor.past "L").peekAt 1 = 't' then none else (cursor.past "L").pastSubstitution?

/-- Whether `(M | LM)* E` comes next. -/
def closes : List UInt8 → Bool
  | [] => false
  | byte :: rest =>
    byte == 69 || (byte == 77 || byte == 76 && rest.head? == some 77) && closes rest

/-- Whether the nested name that comes next is bare. -/
def isBare (cursor : Cursor) : Bool :=
  cursor.pastQualifiers.pastScope?.any fun behind => closes behind.rest

section Closes

variable {cursor behind : Cursor}

theorem closes_of_end (h : cursor.strip? "E".toList = some behind) :
    closes cursor.rest = true := by
  obtain ⟨byte, hbyte, hrest⟩ := strip?_one h
  obtain rfl : byte = 69 := UInt8.toNat_inj.mp hbyte
  simp [hrest, closes]

theorem past_of_some {token : String} (h : cursor.strip? token.toList = some behind) :
    cursor.past token = behind := by
  rw [past, h, Option.getD_some]

theorem past_of_none {token : String} (h : cursor.strip? token.toList = none) :
    cursor.past token = cursor := by
  rw [past, h, Option.getD_none]

theorem closes_cons_member (rest : List UInt8) : closes (77 :: rest) = closes rest := by
  simp [closes]

/-- A member marker does not count. -/
theorem closes_of_member (h : (cursor.past "L").strip? "M".toList = some behind) :
    closes cursor.rest = closes behind.rest := by
  obtain ⟨byte, hbyte, hrest⟩ := strip?_one h
  obtain rfl : byte = 77 := UInt8.toNat_inj.mp hbyte
  cases hlocal : cursor.strip? "L".toList with
  | none =>
    rw [past_of_none hlocal] at hrest
    rw [hrest, closes_cons_member]
  | some inner =>
    rw [past_of_some hlocal] at hrest
    obtain ⟨byte, hbyte, hrest'⟩ := strip?_one hlocal
    obtain rfl : byte = 76 := UInt8.toNat_inj.mp hbyte
    rw [hrest', hrest, ← closes_cons_member behind.rest]
    simp [closes]

/-- Bytes that are not the end of a nested name do not close it. -/
theorem closes_of_other (notEnd : cursor.strip? "E".toList = none)
    (notMember : (cursor.past "L").strip? "M".toList = none) : closes cursor.rest = false := by
  obtain hnil | ⟨byte, rest, hend, hrest⟩ := strip?_one_none notEnd
  · rw [hnil]
    rfl
  have notE : byte ≠ 69 := fun h => hend (congrArg UInt8.toNat h)
  cases hlocal : cursor.strip? "L".toList with
  | none =>
    rw [past_of_none hlocal] at notMember
    obtain hnil | ⟨byte', rest', hmember, hrest'⟩ := strip?_one_none notMember
    · simp [hnil] at hrest
    obtain hnil | ⟨byte'', rest'', hinternal, hrest''⟩ := strip?_one_none hlocal
    · simp [hnil] at hrest
    obtain ⟨rfl, rfl⟩ := List.cons.inj (hrest.symm.trans hrest')
    obtain ⟨rfl, rfl⟩ := List.cons.inj (hrest.symm.trans hrest'')
    have notM : byte ≠ 77 := fun h => hmember (congrArg UInt8.toNat h)
    have notL : byte ≠ 76 := fun h => hinternal (congrArg UInt8.toNat h)
    simp [hrest, closes, notE, notM, notL]
  | some inner =>
    rw [past_of_some hlocal] at notMember
    obtain ⟨byte', hbyte, hrest'⟩ := strip?_one hlocal
    obtain ⟨rfl, rfl⟩ := List.cons.inj (hrest.symm.trans hrest')
    obtain rfl : byte = 76 := UInt8.toNat_inj.mp hbyte
    obtain hnil | ⟨next, rest', hmember, hnext⟩ := strip?_one_none notMember
    · simp [hrest, hnil, closes]
    · have notM : next ≠ 77 := fun h => hmember (congrArg UInt8.toNat h)
      simp [hrest, hnext, closes, notM]

/-- What follows a scope cannot end the name. Where there is no scope yet, what is read
first is listed, or is not all of the name. -/
def Unbare (hasScope : Bool) (cursor : Cursor) : Prop :=
  if hasScope then closes cursor.rest = false
  else ∀ behind, cursor.pastScope? = some behind → closes behind.rest = false

theorem pastSubstitution?_eq (h : cursor.strip? "S".toList = some behind) :
    cursor.pastSubstitution? =
      if (behind.peekAt 0).isLower then some (behind.advance 1) else behind.pastSeqId? := by
  rw [pastSubstitution?, h]
  rfl

theorem pastSeqId?_of_some (h : cursor.strip? "_".toList = some behind) :
    cursor.pastSeqId? = some behind := by
  rw [pastSeqId?, h]

theorem pastSeqId?_of_none (h : cursor.strip? "_".toList = none) :
    cursor.pastSeqId? = (cursor.spanWhile Number.isSeqDigit).2.strip? "_".toList := by
  rw [pastSeqId?, h]

theorem pastScope?_of_some (inStd : cursor.strip? "St".toList = some behind) :
    cursor.pastScope? = some behind := by
  rw [pastScope?, inStd]

theorem pastScope?_of_none (noStd : cursor.strip? "St".toList = none) :
    cursor.pastScope? = if (cursor.past "L").peekAt 1 = 't' then none
      else (cursor.past "L").pastSubstitution? := by
  rw [pastScope?, noStd]

theorem peekAt_of_strip?_one {char : Char} (h : cursor.strip? [char] = some behind) :
    cursor.peekAt 0 = char := by
  obtain ⟨byte, hbyte, hrest⟩ := strip?_one h
  simp [peekAt, hrest, hbyte]

theorem pastScope?_of_other (noStd : cursor.strip? "St".toList = none)
    (other : ((cursor.past "L").peekAt 0 == 'S' && (cursor.past "L").peekAt 1 != 't') = false) :
    cursor.pastScope? = none := by
  rw [pastScope?_of_none noStd]
  split
  · rfl
  · rename_i second
    cases hsub : (cursor.past "L").strip? "S".toList with
    | none =>
      rw [pastSubstitution?, hsub]
      rfl
    | some behind =>
      have first : (cursor.past "L").peekAt 0 = 'S' := peekAt_of_strip?_one hsub
      simp [first, second] at other

/-- A nested name with a part that is listed is not bare. -/
theorem unbare_of_other {hasScope : Bool} (notEnd : cursor.strip? "E".toList = none)
    (notMember : (cursor.past "L").strip? "M".toList = none)
    (noStd : hasScope = false → cursor.strip? "St".toList = none)
    (other : ((cursor.past "L").peekAt 0 == 'S' && (cursor.past "L").peekAt 1 != 't') = false) :
    Unbare hasScope cursor := by
  cases hasScope with
  | true => exact closes_of_other notEnd notMember
  | false =>
    intro behind hscope
    rw [pastScope?_of_other (noStd rfl) other] at hscope
    cases hscope

end Closes
end Cursor
end Unmangle
