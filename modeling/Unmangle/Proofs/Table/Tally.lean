import Mathlib
import Unmangle.Proofs.Table.Batch

/-!
# The numbers of a table

The numbers of a table count its records, each by itself: the numbers of two tables add up, and
their order does not matter. The counts of the type codes are kept in the order of the codes, each
code once. For any test of a code, the counts of the codes that pass it add up to the number of
records whose code passes it, and the other numbers are read off them.
-/
namespace Unmangle

namespace TypeCounts

def of (counts : TypeCounts) (code : UInt8) : Nat :=
  (counts.lookup code).getD 0

/-- How often the codes that pass a test occur, taken together. -/
def total (counts : TypeCounts) (test : UInt8 → Bool) : Nat :=
  ((counts.filter fun entry => test entry.1).map Prod.snd).sum

def tally (codes : List UInt8) : TypeCounts :=
  codes.foldl (fun counts code => counts.add code) []

def Ascending (counts : TypeCounts) : Prop :=
  counts.Pairwise fun entry later => entry.1 < later.1

variable {counts : TypeCounts} {code : UInt8}

/-- Counting a code raises the totals that it belongs to by one. -/
theorem total_add (counts : TypeCounts) (code : UInt8) (test : UInt8 → Bool) :
    (counts.add code).total test = counts.total test + (test code).toNat := by
  induction counts with
  | nil => cases passes : test code <;> simp [TypeCounts.add, total, passes]
  | cons entry rest ih =>
    obtain ⟨other, count⟩ := entry
    simp only [total] at ih ⊢
    rw [TypeCounts.add]
    split
    · cases passes : test code <;> simp [passes]
      omega
    · split
      · next same =>
        subst same
        cases passes : test code <;> simp [passes]
        omega
      · cases passes : test other <;> simp [passes, ih]
        omega

/-- Counting touches the entry of the code, and no other. -/
theorem mem_add {entry : UInt8 × Nat} (mem : entry ∈ counts.add code) :
    entry.1 = code ∧ 0 < entry.2 ∨ entry ∈ counts := by
  induction counts with
  | nil => simp_all [TypeCounts.add]
  | cons first rest ih =>
    obtain ⟨other, count⟩ := first
    rw [TypeCounts.add] at mem
    split at mem
    · rcases List.mem_cons.mp mem with rfl | old
      · simp
      · exact .inr old
    · split at mem
      · next same =>
        rcases List.mem_cons.mp mem with rfl | old
        · simp [same]
        · exact .inr (List.mem_cons_of_mem _ old)
      · rcases List.mem_cons.mp mem with rfl | later
        · simp
        · rcases ih later with new | old
          · exact .inl new
          · exact .inr (List.mem_cons_of_mem _ old)

/-- Counting a code keeps the codes in their order. -/
theorem Ascending.add (ascending : counts.Ascending) (code : UInt8) :
    (counts.add code).Ascending := by
  induction counts with
  | nil => simp [TypeCounts.add, Ascending]
  | cons first rest ih =>
    obtain ⟨other, count⟩ := first
    obtain ⟨below, behind⟩ := List.pairwise_cons.mp ascending
    rw [TypeCounts.add]
    split
    · next before =>
      apply List.pairwise_cons.mpr
      constructor
      · intro entry mem
        rcases List.mem_cons.mp mem with rfl | later
        · exact before
        · exact UInt8.lt_trans before (below entry later)
      · exact ascending
    · split
      · exact List.pairwise_cons.mpr ⟨below, behind⟩
      · next notBefore other_ne =>
        apply List.pairwise_cons.mpr
        constructor
        · intro entry mem
          rcases mem_add mem with ⟨rfl, -⟩ | old
          · exact UInt8.lt_of_le_of_ne (UInt8.not_lt.mp notBefore) (Ne.symm other_ne)
          · exact below entry old
        · exact ih behind

/-- Two codes may be counted in either order, wherever they stand. -/
theorem add_right_comm (counts : TypeCounts) (first second : UInt8) :
    (counts.add first).add second = (counts.add second).add first := by
  induction counts with
  | nil => grind [TypeCounts.add]
  | cons entry rest ih => grind [TypeCounts.add]

/-- Where each code has one count, the count of a code is what its entries come to. -/
theorem of_eq_total (ascending : counts.Ascending) (code : UInt8) :
    counts.of code = counts.total (· == code) := by
  induction counts with
  | nil => rfl
  | cons entry rest ih =>
    obtain ⟨other, count⟩ := entry
    obtain ⟨below, behind⟩ := List.pairwise_cons.mp ascending
    by_cases same : other = code
    · subst same
      -- no entry behind the first has its code
      have none : rest.filter (fun entry => entry.1 == other) = [] := by
        apply List.filter_eq_nil_iff.mpr
        intro entry mem
        simpa using (UInt8.ne_of_lt (below entry mem)).symm
      simp [of, total, none]
    · have differ : (code == other) = false := by simpa using Ne.symm same
      simpa [of, total, List.lookup_cons, differ, same] using ih behind

theorem ascending_tally (codes : List UInt8) : (tally codes).Ascending := by
  induction codes using List.reverseRecOn with
  | nil => simp [tally, Ascending]
  | append_singleton codes code ih =>
    rw [tally, List.foldl_concat]
    exact ih.add code

theorem positive_tally (codes : List UInt8) : ∀ entry ∈ tally codes, 0 < entry.2 := by
  induction codes using List.reverseRecOn with
  | nil => simp [tally]
  | append_singleton codes code ih =>
    intro entry mem
    rw [tally, List.foldl_concat] at mem
    rcases mem_add mem with ⟨-, positive⟩ | old
    · exact positive
    · exact ih entry old

/-- The counts of the codes that pass a test add up to the number of codes that pass it. -/
theorem total_tally (codes : List UInt8) (test : UInt8 → Bool) :
    (tally codes).total test = codes.countP test := by
  induction codes using List.reverseRecOn with
  | nil => rfl
  | append_singleton codes code ih =>
    rw [tally, List.foldl_concat, total_add, List.countP_append, ← ih, tally]
    cases passes : test code <;> simp [passes]

theorem of_tally (codes : List UInt8) (code : UInt8) :
    (tally codes).of code = codes.count code := by
  rw [of_eq_total (ascending_tally codes), total_tally, List.count]

theorem tally_perm {codes codes' : List UInt8} (perm : codes.Perm codes') :
    tally codes = tally codes' :=
  perm.foldl_eq' (fun first _ second _ counts => add_right_comm counts first second) []

end TypeCounts

namespace Record

/-- A record of an external symbol is none of a debugger. -/
theorem not_isStab_of_isExternal {record : Record} (external : record.isExternal = true) :
    record.isStab = false := by
  rw [isExternal, Bool.and_eq_true] at external
  simpa using external.1

/-- Only a record that is looked at has a demangled form. -/
theorem eligible_of_succeeded {options : Options} {record : Record}
    (succeeded : (record.tried options).succeeded = true) : record.typeCode ≤ 40 := by
  by_contra above
  have declined : (record.tried options).outcome = .error .notEligible := by
    have skipped : Symbol.maxEligible < record.typeCode := UInt8.not_le.mp above
    rw [tried, Engine.attemptSymbol, if_pos skipped]
  simp [Attempt.succeeded, declined] at succeeded

end Record

namespace Summary

/-- The numbers of a table that two tables make, one behind the other. -/
structure Joins (whole left right : Summary) : Prop where
  symbols : whole.symbols = left.symbols + right.symbols
  external : whole.external = left.external + right.external
  stabs : whole.stabs = left.stabs + right.stabs
  demangled : whole.demangled = left.demangled + right.demangled
  typeCounts : ∀ code,
    whole.typeCounts.of code = left.typeCounts.of code + right.typeCounts.of code

/-- The numbers are those of the type codes of some records. -/
structure Accounts (summary : Summary) (records : List Record) : Prop where
  length : summary.symbols = records.length
  counted : ∀ code,
    summary.typeCounts.of code = records.countP fun record => record.typeCode == code
  ascending : summary.typeCounts.Ascending
  positive : ∀ entry ∈ summary.typeCounts, 0 < entry.2
  symbols : (summary.typeCounts.map Prod.snd).sum = summary.symbols
  stabs : summary.stabs = summary.typeCounts.total fun code => code &&& 0xe0 != 0
  external : summary.external =
    summary.typeCounts.total fun code => code &&& 0xe0 == 0 && code &&& 0x01 == 0x01
  apart : summary.stabs + summary.external ≤ summary.symbols
  demangled : summary.demangled ≤ summary.typeCounts.total fun code => code ≤ 40

end Summary

namespace Table

variable (settings : Settings) (records : List Record)

/-- What counting some records one by one comes to. -/
theorem foldl_count (counts : Summary) :
    records.foldl count counts =
      { counts with
        external := counts.external + records.countP Record.isExternal
        stabs := counts.stabs + records.countP Record.isStab
        typeCounts := (records.map Record.typeCode).foldl (fun counts code => counts.add code)
          counts.typeCounts } := by
  induction records generalizing counts with
  | nil => rfl
  | cons record rest ih =>
    rw [List.foldl_cons, ih]
    cases hexternal : record.isExternal <;> cases hstab : record.isStab <;>
      simp [count, hexternal, hstab, Nat.add_comm, Nat.add_left_comm]

/-- Every number counts records by what each of them is alone. -/
theorem summary_eq :
    (summary settings records).1 =
      { symbols := records.length
        external := records.countP Record.isExternal
        stabs := records.countP Record.isStab
        demangled := records.countP fun record => (record.tried settings.options).succeeded
        typeCounts := .tally (records.map Record.typeCode) } := by
  have demangled : (attempts settings records).1.countP Attempt.succeeded =
      records.countP fun record => (record.tried settings.options).succeeded := by
    rw [attempts_eq_map_tried, List.countP_map]
    rfl
  rw [summary]
  simp only [foldl_count, demangled]
  simp [TypeCounts.tally]

/-- A record that is for debuggers is not external. -/
theorem countP_isStab_add_le :
    records.countP Record.isStab + records.countP Record.isExternal ≤ records.length := by
  have apart : records.countP Record.isExternal ≤ records.countP fun record => !record.isStab := by
    apply List.countP_mono_left
    intro record _ external
    simp [Record.not_isStab_of_isExternal external]
  have both : records.length =
      records.countP Record.isStab + records.countP fun record => !record.isStab := by
    simpa using List.length_eq_countP_add_countP Record.isStab
  omega

/-- All numbers but that of the demangled records are read off the counts of the codes, and that one
is bounded by them. -/
theorem accounts_summary : (summary settings records).1.Accounts records := by
  rw [summary_eq]
  have total (test : UInt8 → Bool) :
      (TypeCounts.tally (records.map Record.typeCode)).total test =
        records.countP fun record => test record.typeCode := by
    rw [TypeCounts.total_tally, List.countP_map]
    rfl
  constructor
  case length => rfl
  case counted =>
    intro code
    rw [TypeCounts.of_tally, List.count, List.countP_map]
    rfl
  case ascending => exact TypeCounts.ascending_tally _
  case positive => exact TypeCounts.positive_tally _
  case symbols => simpa [TypeCounts.total] using total fun _ => true
  case stabs =>
    rw [total]
    rfl
  case external =>
    rw [total]
    apply List.countP_congr
    intro record _
    simp [Record.isExternal, Record.isStab, Record.hasAll, TypeFlag.mask]
  case apart => exact countP_isStab_add_le records
  case demangled =>
    rw [total]
    apply List.countP_mono_left
    intro record _ succeeded
    simpa using Record.eligible_of_succeeded succeeded

/-- The numbers of two tables add up in the table that they make together, the order of the records
does not matter, and the numbers agree with the counts of the type codes, for any number of
workers. -/
theorem summary_additive (settings : Settings) :
    (∀ records more : List Record, (summary settings (records ++ more)).1.Joins
      (summary settings records).1 (summary settings more).1) ∧
    (∀ records other : List Record, records.Perm other →
      (summary settings records).1 = (summary settings other).1) ∧
    ∀ records : List Record, (summary settings records).1.Accounts records := by
  refine ⟨?_, ?_, accounts_summary settings⟩
  · intro records more
    simp only [summary_eq]
    constructor
    case symbols => exact List.length_append
    case external => exact List.countP_append
    case stabs => exact List.countP_append
    case demangled => exact List.countP_append
    case typeCounts =>
      intro code
      simp [TypeCounts.of_tally]
  · intro records other perm
    simp only [summary_eq, perm.length_eq, perm.countP_eq, TypeCounts.tally_perm (perm.map _)]

/-- Two workers share a table of four records, and the numbers are those of the table read from
behind, where other records share an engine. -/
theorem summary_of_reversed :
    let records : List Record := [⟨"_Z3fooi", 0x0f, 0⟩, ⟨"_ZSt4cout:G", 0x20, 0⟩,
      ⟨"_main", 0x0f, 0⟩, ⟨"_Z3fooi", 0x64, 0⟩]
    (summary ⟨{}, 2, 0⟩ records.reverse).1 = (summary ⟨{}, 2, 0⟩ records).1 ∧
      (summary ⟨{}, 2, 0⟩ records).1 = ⟨4, 2, 2, 2, [(0x0f, 2), (0x20, 1), (0x64, 1)]⟩ := by
  intro records
  obtain ⟨-, unordered, -⟩ := summary_additive ⟨{}, 2, 0⟩
  constructor
  · exact unordered records.reverse records (List.reverse_perm records)
  · decide +kernel

end Table
end Unmangle
