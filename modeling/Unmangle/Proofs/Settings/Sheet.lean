import Unmangle.Proofs.Yaml.Outline
import Unmangle.Settings.Read

/-!
# Sheets of settings

A sheet is written line by line, in sections or outside of any. What it writes under a field
replaces the default, whatever else stands around it. If a section writes what is no value of its
field, or writes a field twice, the whole sheet sets nothing.
-/
namespace Unmangle.Settings

/-- A value as it is written. -/
inductive Written
  | number (n : Nat)
  | negative (n : Nat)
  | truth (holds : Bool)
  | quoted (quote : Yaml.Quote) (n : Nat)
  | other (scalar : Yaml.Scalar)
  deriving DecidableEq

namespace Written

theorem isDigit_of_mem {c : Char} {n : Nat} (member : c ∈ Nat.toDigits 10 n) : c.isDigit = true :=
  Nat.isDigit_of_mem_toDigits (by decide) (by decide) member

theorem isWord_digits (n : Nat) : (Nat.toDigits 10 n).all Yaml.isWord = true :=
  List.all_eq_true.mpr fun c member => by
    simp [Yaml.isWord, Char.isAlphanum, isDigit_of_mem member]

theorem digits_ne_dash (n : Nat) : Nat.toDigits 10 n ≠ ['-'] := by
  intro dash
  have digit : ('-').isDigit = true := isDigit_of_mem (dash ▸ List.mem_singleton_self '-')
  exact absurd digit (by decide)

def scalar : Written → Yaml.Scalar
  | number n =>
    .ofLetters (Nat.toDigits 10 n) (isWord_digits n) Nat.toDigits_ne_nil (digits_ne_dash n)
  | negative n =>
    .ofLetters ('-' :: Nat.toDigits 10 n) (Bool.and_eq_true_iff.mpr ⟨by decide, isWord_digits n⟩)
      nofun fun dash => Nat.toDigits_ne_nil (List.cons.inj dash).2
  | truth true => .ofLetters "true".toList (by decide) (by decide) (by decide)
  | truth false => .ofLetters "false".toList (by decide) (by decide) (by decide)
  | quoted quote n => .quoted quote (Nat.toDigits 10 n) (isWord_digits n)
  | other scalar => scalar

def node (value : Written) : Yaml.Node :=
  .scalar value.scalar.style none value.scalar.letters

/-- Digits are read one after another as Horner's rule has it. -/
theorem foldlM_digits {digits : List Char} (all : ∀ c ∈ digits, c.isDigit = true) (front : Nat) :
    digits.foldlM (fun number digit => do
      let value ← Yaml.hexValue? digit
      if value < 10 then some (number * 10 + value) else none) front =
      some (Nat.ofDigitChars 10 digits front) := by
  induction digits generalizing front with
  | nil => rfl
  | cons c digits ih =>
    obtain ⟨digit, all⟩ := List.forall_mem_cons.mp all
    have small : c.toNat - 48 < 10 := by
      simp only [Char.isDigit, Bool.and_eq_true, decide_eq_true_eq, ge_iff_le,
        UInt32.le_iff_toNat_le] at digit
      have : c.toNat ≤ 57 := digit.2
      omega
    have value : (do
        let value ← Yaml.hexValue? c
        if value < 10 then some (front * 10 + value) else none) =
        some (10 * front + (c.toNat - 48)) := by
      rw [Yaml.hexValue?, if_pos digit, Nat.mul_comm]
      exact if_pos small
    rw [List.foldlM_cons, value]
    exact ih all _

theorem digits?_toDigits (n : Nat) : Yaml.digits? 10 (Nat.toDigits 10 n) = some n := by
  have some : (Nat.toDigits 10 n).isEmpty = false :=
    List.isEmpty_eq_false_iff.mpr Nat.toDigits_ne_nil
  rw [Yaml.digits?, some, if_neg Bool.false_ne_true, foldlM_digits fun c => isDigit_of_mem,
    Nat.ofDigitChars_ten_toDigits]

theorem toDigits_ne_zero_cons {n : Nat} (pos : 0 < n) (rest : List Char) :
    Nat.toDigits 10 n ≠ '0' :: rest := by
  induction n using Nat.strong_induction_on generalizing rest with
  | h n ih =>
    intro zero
    rw [Nat.toDigits_eq_if (by decide)] at zero
    split at zero
    · have := Nat.digitChar_eq_zero.mp (List.cons.inj zero).1
      omega
    · obtain ⟨none, -⟩ | ⟨front, digits, -⟩ := List.append_eq_cons_iff.mp zero
      · exact Nat.toDigits_ne_nil none
      · exact ih (n / 10) (by omega) (by omega) front digits

/-- A number is read back from its decimal digits. -/
theorem magnitude?_toDigits (n : Nat) : Yaml.magnitude? (Nat.toDigits 10 n) = some n := by
  by_cases zero : n = 0
  · subst zero
    rfl
  · have first := toDigits_ne_zero_cons (Nat.pos_of_ne_zero zero)
    have decimal : Yaml.magnitude? (Nat.toDigits 10 n) = Yaml.digits? 10 (Nat.toDigits 10 n) := by
      unfold Yaml.magnitude?
      split <;> first | rfl | exact absurd ‹_› (first _)
    rw [decimal, digits?_toDigits]

theorem natural?_digits (bound n : Nat) :
    Yaml.natural? bound (Nat.toDigits 10 n) = if n < bound then some n else none := by
  have digits : Yaml.natural? bound (Nat.toDigits 10 n) =
      Yaml.magnitude? (Nat.toDigits 10 n) >>= fun number =>
        if number < bound then some number else none := by
    unfold Yaml.natural?
    split
    · rename_i rest plus
      have digit : ('+').isDigit = true := isDigit_of_mem (plus ▸ List.mem_cons_self)
      exact absurd digit (by decide)
    · rfl
  rw [digits, magnitude?_toDigits]
  rfl

theorem truth?_eq_none {c : Char} (other : c ∉ ['t', 'T', 'f', 'F']) (rest : List Char) :
    Yaml.truth? (c :: rest) = none := by
  simp only [List.mem_cons, not_or] at other
  simp [Yaml.truth?, other]

/-- A number is no truth value. -/
theorem truth?_digits (n : Nat) : Yaml.truth? (Nat.toDigits 10 n) = none := by
  cases digits : Nat.toDigits 10 n with
  | nil => exact absurd digits Nat.toDigits_ne_nil
  | cons c rest =>
    have digit : c.isDigit = true := isDigit_of_mem (digits ▸ List.mem_cons_self)
    refine truth?_eq_none (fun member => ?_) rest
    simp only [List.mem_cons, List.not_mem_nil, or_false] at member
    rcases member with rfl | rfl | rfl | rfl <;> exact absurd digit (by decide)

end Written

/-- A value under a key. -/
structure Line where
  key : Yaml.Key
  value : Written

/-- A part of a sheet: a line, or a section under its title. -/
inductive Part
  | single (line : Line)
  | titled (title : Yaml.Key) (lines : List Line)

abbrev Sheet := List Part

/-- A value that can be set. -/
inductive Field
  | maxRecursion
  | maxSymbolLen
  | maxOutputLen
  | traceFailures
  | count
  | threshold
  deriving Repr, DecidableEq, Inhabited

/-- A name as a key. -/
def keyOf (name : String) (bare : name.toList.all Yaml.isWord = true)
    (some : name.toList ≠ [])
    (short : Yaml.Source.byteLength name.toList ≤ Yaml.KeyMark.maxLength) : Yaml.Key where
  toWord := .ofLetters name.toList bare some
  short := short

namespace Field

def title : Field → String
  | count | threshold => "pipeline"
  | _ => "demangler"

theorem title_cases (field : Field) : field.title = "demangler" ∨ field.title = "pipeline" := by
  cases field <;> simp [title]

def key : Field → String
  | maxRecursion => "max_recursion"
  | maxSymbolLen => "max_symbol_len"
  | maxOutputLen => "max_output_len"
  | traceFailures => "trace_failures"
  | count => "worker_threads"
  | threshold => "parallel_threshold"

def heading (field : Field) : Yaml.Key :=
  keyOf field.title (by cases field <;> decide) (by cases field <;> decide)
    (by cases field <;> decide)

def line (field : Field) (value : Written) : Line :=
  ⟨keyOf field.key (by cases field <;> decide) (by cases field <;> decide)
    (by cases field <;> decide), value⟩

/-- What is no value of the field, though it may be one of another: a number out of its range, a
number where a truth value belongs or the other way round, and whatever has a minus sign or
quotes. -/
def refuses : Field → Written → Bool
  | _, .negative _ | _, .quoted .. => true
  | _, .other _ => false
  | traceFailures, .truth _ => false
  | _, .truth _ => true
  | traceFailures, .number _ => true
  | maxRecursion, .number n => bound32 ≤ n
  | _, .number n => bound64 ≤ n

/-- Some of the values under the field is none of its own, or there is more than one. -/
def Spoiled (field : Field) (values : List Written) : Prop :=
  (∃ value ∈ values, field.refuses value = true) ∨ 1 < values.length

end Field

/-- What is set, of everything that can be. -/
structure Choice where
  maxRecursion : Option UInt32 := none
  maxSymbolLen : Option UInt64 := none
  maxOutputLen : Option UInt64 := none
  traceFailures : Option Bool := none
  count : Option UInt64 := none
  threshold : Option UInt64 := none

namespace Choice

/-- What is to be written under a field. -/
def written (choice : Choice) : Field → Option Written
  | .maxRecursion => choice.maxRecursion.map fun n => .number n.toNat
  | .maxSymbolLen => choice.maxSymbolLen.map fun n => .number n.toNat
  | .maxOutputLen => choice.maxOutputLen.map fun n => .number n.toNat
  | .traceFailures => choice.traceFailures.map .truth
  | .count => choice.count.map fun n => .number n.toNat
  | .threshold => choice.threshold.map fun n => .number n.toNat

/-- The defaults of an engine but for what is chosen. -/
def options (choice : Choice) : Options :=
  let default : Options := {}
  { maxRecursion := (choice.maxRecursion.map UInt32.toNat).getD default.maxRecursion
    maxSymbolLen := (choice.maxSymbolLen.map UInt64.toNat).getD default.maxSymbolLen
    maxOutputLen := (choice.maxOutputLen.map UInt64.toNat).getD default.maxOutputLen
    traceFailures := choice.traceFailures.getD default.traceFailures }

/-- The defaults of a configuration but for what is chosen. -/
def engine (choice : Choice) : EngineConfig :=
  let default : EngineConfig := {}
  { maxRecursion := (choice.maxRecursion.map UInt32.toNat).getD default.maxRecursion
    maxSymbolLen := (choice.maxSymbolLen.map UInt64.toNat).getD default.maxSymbolLen
    maxOutputLen := (choice.maxOutputLen.map UInt64.toNat).getD default.maxOutputLen
    traceFailures := choice.traceFailures.getD default.traceFailures }

def workers (choice : Choice) : Workers :=
  let default : Workers := {}
  { count := (choice.count.map UInt64.toNat).getD default.count
    threshold := (choice.threshold.map UInt64.toNat).getD default.threshold }

def config (choice : Choice) : Config :=
  ⟨choice.engine, choice.workers⟩

def settings (choice : Choice) : Settings :=
  ⟨choice.options, choice.workers⟩

end Choice

namespace Line

def outline (line : Line) : Yaml.Line :=
  ⟨line.key, line.value.scalar⟩

def under (key : String) (lines : List Line) : List Written :=
  (lines.filter (·.key.letters = key.toList)).map (·.value)

end Line

namespace Part

def outline : Part → Yaml.Part
  | single line => .single line.outline
  | titled title lines => .heading title (lines.map Line.outline)

def key : Part → Yaml.Key
  | single line => line.key
  | titled title _ => title

def lines : Part → List Line
  | single _ => []
  | titled _ lines => lines

def isSection : Part → Bool
  | single _ => false
  | titled .. => true

end Part

namespace Sheet

def text (sheet : Sheet) : String :=
  .ofList (((sheet.map Part.outline).flatMap Yaml.Part.rows).flatMap Yaml.Row.text)

def named (sheet : Sheet) (key : String) : List Part :=
  sheet.filter (·.key.letters = key.toList)

def under (sheet : Sheet) (field : Field) : List Written :=
  (sheet.named field.title).flatMap fun part => Line.under field.key part.lines

/-- The sheet writes what is chosen and nothing else under the fields. Sections are not repeated,
and no line has the title of one. Other keys may have any values. -/
structure Writes (sheet : Sheet) (choice : Choice) : Prop where
  once : ∀ field : Field, (sheet.named field.title).length ≤ 1
  titled : ∀ field : Field, ∀ part ∈ sheet.named field.title, part.isSection = true
  written : ∀ field, sheet.under field = (choice.written field).toList

/-- The sheet writes under a field what the field refuses, or writes it twice. -/
def Spoiled (sheet : Sheet) : Prop :=
  ∃ field : Field, field.Spoiled (sheet.under field)

end Sheet

/-! ## Reading a section -/

section Section

variable {document : Yaml.Node} {lines : List Line} {α β : Type}

def entriesOf (lines : List Line) : Entries :=
  (lines.map Line.outline).map Yaml.Line.entry

/-- The values under a key are those of the entries that are named by it. -/
theorem valuesOf_map {ι : Type} (items : List ι) (name : ι → List Char) (node : ι → Yaml.Node)
    (key : String) :
    valuesOf (items.map fun item => (.scalar .plain none (name item), node item)) key =
      (items.filter (name · = key.toList)).map node := by
  induction items with
  | nil => rfl
  | cons item items ih =>
    by_cases same : name item = key.toList
    · rw [List.filter_cons_of_pos (by simpa using same), List.map_cons, List.map_cons, ← ih]
      exact List.filterMap_cons_some (if_pos (congrArg some same))
    · rw [List.filter_cons_of_neg (by simpa using same), ← ih]
      exact List.filterMap_cons_none (if_neg fun equal => same (Option.some.inj equal))

theorem valuesOf_lines (lines : List Line) (key : String) :
    valuesOf (entriesOf lines) key = (Line.under key lines).map Written.node := by
  rw [entriesOf, List.map_map, Line.under, List.map_map]
  exact valuesOf_map lines (·.key.letters) (·.value.node) key

/-- Entries without anchors and aliases are those of their section. -/
theorem section?_eq {node : Yaml.Node} {entries : Entries} (given : node.entries? = some entries)
    (plain : ∀ entry ∈ entries, entry.1.text?.isSome = true ∧
      document.resolve entry.1 = entry.1 ∧
      document.resolve entry.2 = entry.2) : section? document node = some entries := by
  have resolved : entries.map (fun entry =>
      (document.resolve entry.1, document.resolve entry.2)) = entries :=
    (List.map_congr_left fun entry member =>
      Prod.ext (plain entry member).2.1 (plain entry member).2.2).trans (List.map_id entries)
  have named : entries.all (fun entry => entry.1.text?.isSome) = true :=
    List.all_eq_true.mpr fun entry member => (plain entry member).1
  have read : section? document node = node.entries? >>= fun entries => do
      let entries := entries.map fun entry => (document.resolve entry.1, document.resolve entry.2)
      guard (entries.all fun entry => entry.1.text?.isSome)
      return entries :=
    rfl
  rw [read, given]
  simp only [Option.bind_eq_bind, Option.bind_some, resolved, named]
  rfl

/-- Lines that differ in their keys are a section. -/
theorem section?_lines (document : Yaml.Node) (lines : List Line) : section? document
    (Yaml.Part.mapping (entriesOf lines)) = some (entriesOf lines) := by
  have given : (Yaml.Part.mapping (entriesOf lines)).entries? = some (entriesOf lines) := by
    cases lines <;> rfl
  refine section?_eq given ?_
  intro entry member
  obtain ⟨line, -, rfl⟩ := List.mem_map.mp member
  exact ⟨rfl, rfl, rfl⟩

/-- A field that is written once is read, and one that is not written has its default. -/
theorem field?_chosen {key : String} {read? : Yaml.Node → Option α} {default : α}
    {chosen : Option β} {write : β → Written} {value : β → α}
    (reads : ∀ b, read? (write b).node = some (value b))
    (written : Line.under key lines = (chosen.map write).toList) :
    field? (entriesOf lines) key read? default = some ((chosen.map value).getD default) := by
  rw [field?, valuesOf_lines, written]
  cases chosen with
  | none => rfl
  | some b => exact reads b

/-- A field with a wrong value, or with more than one, is not read. -/
theorem field?_spoiled {field : Field} {read? : Yaml.Node → Option α}
    (spoiled : field.Spoiled (Line.under field.key lines))
    (reads : ∀ value, field.refuses value = true → read? value.node = none) (default : α) :
    field? (entriesOf lines) field.key read? default = none := by
  rw [field?, valuesOf_lines]
  generalize Line.under field.key lines = values at spoiled
  rcases values with - | ⟨value, - | ⟨next, rest⟩⟩
  · simp [Field.Spoiled] at spoiled
  · obtain ⟨value, member, wrong⟩ | twice := spoiled
    · cases List.mem_singleton.mp member
      exact reads value wrong
    · cases Nat.lt_irrefl 1 twice
  · rfl

end Section

theorem natural?_toNat {bound n : Nat} (fits : n < bound) :
    natural? bound (Written.number n).node = some n :=
  (Written.natural?_digits bound n).trans (if_pos fits)

section Chosen

variable {document : Yaml.Node} {lines : List Line} {choice : Choice}

/-- The section of the engine gives what was chosen, or the defaults. -/
theorem engine?_chosen (written : ∀ field : Field, field.title = "demangler" →
      Line.under field.key lines = (choice.written field).toList) :
    engine? document (Yaml.Part.mapping (entriesOf lines)) = some choice.engine := by
  have maxRecursion : field? (entriesOf lines) "max_recursion" (natural? bound32)
      ({} : EngineConfig).maxRecursion = some choice.engine.maxRecursion :=
    field?_chosen (fun n => natural?_toNat n.toNat_lt) (written .maxRecursion rfl)
  have maxSymbolLen : field? (entriesOf lines) "max_symbol_len" (natural? bound64)
      ({} : EngineConfig).maxSymbolLen = some choice.engine.maxSymbolLen :=
    field?_chosen (fun n => natural?_toNat n.toNat_lt) (written .maxSymbolLen rfl)
  have maxOutputLen : field? (entriesOf lines) "max_output_len" (natural? bound64)
      ({} : EngineConfig).maxOutputLen = some choice.engine.maxOutputLen :=
    field?_chosen (fun n => natural?_toNat n.toNat_lt) (written .maxOutputLen rfl)
  have traceFailures : field? (entriesOf lines) "trace_failures" truth?
      ({} : EngineConfig).traceFailures = some choice.engine.traceFailures := by
    have read : field? (entriesOf lines) "trace_failures" truth? ({} : EngineConfig).traceFailures =
        some ((choice.traceFailures.map id).getD _) :=
      field?_chosen (fun holds => by cases holds <;> rfl) (written .traceFailures rfl)
    rw [read, Option.map_id]
    rfl
  refine Option.bind_eq_some_iff.mpr ⟨_, section?_lines document lines, ?_⟩
  refine Option.bind_eq_some_iff.mpr ⟨_, maxRecursion, ?_⟩
  refine Option.bind_eq_some_iff.mpr ⟨_, maxSymbolLen, ?_⟩
  refine Option.bind_eq_some_iff.mpr ⟨_, maxOutputLen, ?_⟩
  exact Option.bind_eq_some_iff.mpr ⟨_, traceFailures, rfl⟩

/-- The section of the workers gives what was chosen, or the defaults. -/
theorem workers?_chosen (written : ∀ field : Field, field.title = "pipeline" →
      Line.under field.key lines = (choice.written field).toList) :
    workers? document (Yaml.Part.mapping (entriesOf lines)) = some choice.workers := by
  have count : field? (entriesOf lines) "worker_threads" (natural? bound64)
      ({} : Workers).count = some choice.workers.count :=
    field?_chosen (fun n => natural?_toNat n.toNat_lt) (written .count rfl)
  have threshold : field? (entriesOf lines) "parallel_threshold" (natural? bound64)
      ({} : Workers).threshold = some choice.workers.threshold :=
    field?_chosen (fun n => natural?_toNat n.toNat_lt) (written .threshold rfl)
  refine Option.bind_eq_some_iff.mpr ⟨_, section?_lines document lines, ?_⟩
  refine Option.bind_eq_some_iff.mpr ⟨_, count, ?_⟩
  exact Option.bind_eq_some_iff.mpr ⟨_, threshold, rfl⟩

end Chosen

section Spoiled

variable {document : Yaml.Node} {lines : List Line} {field : Field}

/-- A value that a number field refuses is no number within its bound. -/
theorem natural?_refused {bound : Nat}
    (refuses : ∀ n, field.refuses (.number n) = decide (bound ≤ n)) (value : Written)
    (refused : field.refuses value = true) : natural? bound value.node = none := by
  cases value with
  | number n =>
    have large : bound ≤ n := of_decide_eq_true ((refuses n).symm.trans refused)
    exact (Written.natural?_digits bound n).trans (if_neg (Nat.not_lt.mpr large))
  | negative n | quoted quote n => rfl
  | truth holds => cases holds <;> rfl
  | other scalar => cases field <;> cases refused

theorem truth?_refused (value : Written) (refused : Field.traceFailures.refuses value = true) :
    truth? value.node = none := by
  cases value with
  | number n => exact Written.truth?_digits n
  | negative n => exact Written.truth?_eq_none (c := '-') (by decide) (Nat.toDigits 10 n)
  | quoted quote n => rfl
  | truth holds | other scalar => cases refused

/-- One spoiled field of the engine spoils its section. -/
theorem engine?_spoiled (titled : field.title = "demangler")
    (spoiled : field.Spoiled (Line.under field.key lines)) :
    engine? document (Yaml.Part.mapping (entriesOf lines)) = none := by
  rw [engine?, section?_lines]
  simp only [Option.bind_eq_bind, Option.bind_some]
  cases field with
  | maxRecursion | maxSymbolLen | maxOutputLen =>
    have none := field?_spoiled spoiled (natural?_refused fun _ => rfl)
    simp only [Field.key] at none
    simp only [none, Option.bind_none, Option.bind_fun_none]
  | traceFailures =>
    have none := field?_spoiled spoiled truth?_refused
    simp only [Field.key] at none
    simp only [none, Option.bind_none, Option.bind_fun_none]
  | count | threshold => exact absurd titled (by decide)

/-- One spoiled field of the workers spoils their section. -/
theorem workers?_spoiled (titled : field.title = "pipeline")
    (spoiled : field.Spoiled (Line.under field.key lines)) :
    workers? document (Yaml.Part.mapping (entriesOf lines)) = none := by
  rw [workers?, section?_lines]
  simp only [Option.bind_eq_bind, Option.bind_some]
  cases field with
  | count | threshold =>
    have none := field?_spoiled spoiled (natural?_refused fun _ => rfl)
    simp only [Field.key] at none
    simp only [none, Option.bind_none, Option.bind_fun_none]
  | maxRecursion | maxSymbolLen | maxOutputLen | traceFailures => exact absurd titled (by decide)

end Spoiled

/-! ## Reading a sheet -/

namespace Sheet

variable {sheet : Sheet} {choice : Choice} {field : Field} {α : Type}

def entries (sheet : Sheet) : Entries :=
  (sheet.map Part.outline).map Yaml.Part.entry

/-- The values under a title are the sections of that title. -/
theorem valuesOf_sheet (sheet : Sheet) (key : String) :
    valuesOf sheet.entries key = (sheet.named key).map fun part => part.outline.entry.2 := by
  have plain (part : Part) : part.outline.entry =
      (.scalar .plain none part.key.letters, part.outline.entry.2) := by
    cases part <;> rfl
  have whole : sheet.entries = sheet.map fun part =>
      (.scalar .plain none part.key.letters, part.outline.entry.2) := by
    rw [entries, List.map_map]
    exact List.map_congr_left fun part _ => plain part
  rw [whole]
  exact valuesOf_map sheet (·.key.letters) (·.outline.entry.2) key

theorem section?_sheet (document : Yaml.Node) (sheet : Sheet) : section? document
    (.mapping sheet.entries) = some sheet.entries := by
  refine section?_eq rfl ?_
  intro entry member
  obtain ⟨outline, parts, rfl⟩ := List.mem_map.mp member
  obtain ⟨part, -, rfl⟩ := List.mem_map.mp parts
  cases part with
  | single line => exact ⟨rfl, rfl, rfl⟩
  | titled title lines => cases lines <;> exact ⟨rfl, rfl, rfl⟩

/-- A section is read if it is written, and has its defaults if it is not. -/
theorem field?_section {read? : Yaml.Node → Option α} {default value : α}
    (writes : sheet.Writes choice) (field : Field)
    (reads : ∀ lines, (∀ other : Field, other.title = field.title →
      Line.under other.key lines = (choice.written other).toList) →
        read? (Yaml.Part.mapping (entriesOf lines)) = some value)
    (empty : read? (Yaml.Part.mapping (entriesOf [])) = some default) :
    field? sheet.entries field.title read? default = some value := by
  have once := writes.once field
  have titled := writes.titled field
  have written (other : Field) (same : other.title = field.title) :
      (sheet.named field.title).flatMap (fun part => Line.under other.key part.lines) =
        (choice.written other).toList := by
    rw [← same]
    exact writes.written other
  rw [field?, valuesOf_sheet]
  generalize sheet.named field.title = parts at once titled written
  rcases parts with - | ⟨part, - | ⟨next, rest⟩⟩
  · rw [← empty]
    exact reads [] written
  · cases part with
    | single line => cases titled (.single line) (List.mem_singleton_self _)
    | titled title lines =>
      refine reads lines ?_
      intro other same
      rw [← written other same, List.flatMap_singleton]
      rfl
  · exact absurd once (by simp)

/-- A section in which something is wrong is not read. -/
theorem field?_section_spoiled {read? : Yaml.Node → Option α} {default : α}
    (spoiled : field.Spoiled (sheet.under field))
    (reads : ∀ lines, field.Spoiled (Line.under field.key lines) →
      read? (Yaml.Part.mapping (entriesOf lines)) = none) :
    field? sheet.entries field.title read? default = none := by
  rw [field?, valuesOf_sheet]
  rw [under] at spoiled
  generalize sheet.named field.title = parts at spoiled
  rcases parts with - | ⟨part, - | ⟨next, rest⟩⟩
  · simp [Field.Spoiled] at spoiled
  · rw [List.flatMap_singleton] at spoiled
    cases part with
    | single line => simp [Field.Spoiled, Part.lines, Line.under] at spoiled
    | titled title lines => exact reads lines spoiled
  · rfl

/-- A sheet that writes choices is the configuration that they make. -/
theorem ofNode?_chosen (writes : sheet.Writes choice) :
    ofNode? (.mapping sheet.entries) = some choice.config := by
  have engine : field? sheet.entries "demangler" (engine? (.mapping sheet.entries)) {} =
      some choice.engine :=
    field?_section writes .maxRecursion (fun lines => engine?_chosen) rfl
  have workers : field? sheet.entries "pipeline" (workers? (.mapping sheet.entries)) {} =
      some choice.workers :=
    field?_section writes .count (fun lines => workers?_chosen) rfl
  refine Option.bind_eq_some_iff.mpr ⟨_, section?_sheet _ sheet, ?_⟩
  refine Option.bind_eq_some_iff.mpr ⟨_, engine, ?_⟩
  exact Option.bind_eq_some_iff.mpr ⟨_, workers, rfl⟩

/-- A spoiled sheet is no configuration at all. -/
theorem ofNode?_spoiled (spoiled : sheet.Spoiled) : ofNode? (.mapping sheet.entries) = none := by
  obtain ⟨field, spoiled⟩ := spoiled
  let document : Yaml.Node := .mapping sheet.entries
  have entries : section? document (document.resolve document) = _ := section?_sheet document sheet
  rw [ofNode?, entries]
  simp only [Option.bind_eq_bind, Option.bind_some]
  obtain title | title := field.title_cases
  · have none : field? sheet.entries "demangler" (engine? document) {} = none :=
      title ▸ field?_section_spoiled spoiled fun lines => engine?_spoiled title
    rw [none, Option.bind_none]
  · have none : field? sheet.entries "pipeline" (workers? document) {} = none :=
      title ▸ field?_section_spoiled spoiled fun lines => workers?_spoiled title
    simp only [document] at none
    simp only [none, Option.bind_none, Option.bind_fun_none]

theorem toList_text (sheet : Sheet) : sheet.text.toList =
    ((sheet.map Part.outline).flatMap Yaml.Part.rows).flatMap Yaml.Row.text :=
  String.toList_ofList

theorem dark_text (part : Part) (rest : Sheet) :
    (text (part :: rest)).toList.all isSpace = false := by
  obtain ⟨row, rows, first⟩ : ∃ row rows, part.outline.rows = row :: rows := by
    cases part <;> exact ⟨_, _, rfl⟩
  have colon : ':' ∈ row.text := by simp [Yaml.Row.text]
  rw [toList_text, List.map_cons, List.flatMap_cons, first, List.cons_append, List.flatMap_cons]
  exact List.all_eq_false.mpr ⟨':', List.mem_append_left _ colon, by decide⟩

/-- A sheet is read as its entries. If nothing is written, that is no mistake. -/
theorem read_text (sheet : Sheet) : read sheet.text =
    (ofNode? (.mapping sheet.entries)).elim ({}, [⟨"Failed to parse config.", .warning⟩])
      fun config => (config, []) := by
  cases sheet with
  | nil => rfl
  | cons part rest =>
    have document : Yaml.read? (text (part :: rest)).toList =
        some (.mapping (entries (part :: rest))) := by
      have outline : (part :: rest).map Part.outline ≠ [] := List.cons_ne_nil _ _
      rw [toList_text, Yaml.read?_outline _ outline, entries]
    rw [read, dark_text, if_neg Bool.false_ne_true, document]
    simp only [Option.bind_eq_bind, Option.bind_some]
    cases ofNode? (.mapping (entries (part :: rest))) <;> rfl

/-- A sheet replaces the defaults of the fields that it writes, and an engine and a pass over a table
are told the same. Or all is as if nothing were written and a warning is given. -/
theorem read_sheet (sheet : Sheet) :
    (∀ choice, sheet.Writes choice → read sheet.text = (choice.config, []) ∧
      (read sheet.text).1.engine.options = choice.options ∧
      (read sheet.text).1.settings = choice.settings) ∧
    (sheet.Spoiled → ∃ line, read sheet.text = ({}, [⟨line, .warning⟩])) := by
  constructor
  · intro choice writes
    have given : read sheet.text = (choice.config, []) := by
      rw [read_text, ofNode?_chosen writes]
      rfl
    have options : choice.engine.options = choice.options := rfl
    have settings : choice.config.settings = choice.settings := rfl
    rw [given]
    exact ⟨rfl, options, settings⟩
  · intro spoiled
    refine ⟨"Failed to parse config.", ?_⟩
    rw [read_text, ofNode?_spoiled spoiled]
    rfl

/-- A sheet with all fields at the ends of their ranges among other keys, and one with a number that
is out of range by one. -/
theorem read_sheet_of_all_fields :
    read ("extra: -7\npipeline:\n  parallel_threshold: 0\n  other: 12\n" ++
      "  worker_threads: 18446744073709551615\ndemangler:\n  trace_failures: true\n" ++
      "  max_output_len: 1\n  max_recursion: 4294967295\n  max_symbol_len: 0\n") =
      (⟨⟨4294967295, 0, 1, true⟩, ⟨18446744073709551615, 0⟩⟩, []) ∧
    ∃ line, read "demangler:\n  max_symbol_len: 7\n  max_recursion: 4294967296\n" =
      ({}, [⟨line, .warning⟩]) := by
  let sheet : Sheet := [
    .single ⟨keyOf "extra" (by decide) (by decide) (by decide), .negative 7⟩,
    .titled Field.count.heading [
      Field.threshold.line (.number 0),
      ⟨keyOf "other" (by decide) (by decide) (by decide), .number 12⟩,
      Field.count.line (.number 18446744073709551615)],
    .titled Field.maxRecursion.heading [
      Field.traceFailures.line (.truth true),
      Field.maxOutputLen.line (.number 1),
      Field.maxRecursion.line (.number 4294967295),
      Field.maxSymbolLen.line (.number 0)]]
  let choice : Choice :=
    ⟨some 4294967295, some 0, some 1, some true, some 18446744073709551615, some 0⟩
  have writes : sheet.Writes choice := by
    constructor <;> intro field <;> cases field <;> decide
  let spoiled : Sheet := [
    .titled Field.maxRecursion.heading [
      Field.maxSymbolLen.line (.number 7),
      Field.maxRecursion.line (.number 4294967296)]]
  have text : sheet.text =
      "extra: -7\npipeline:\n  parallel_threshold: 0\n  other: 12\n" ++
      "  worker_threads: 18446744073709551615\ndemangler:\n  trace_failures: true\n" ++
      "  max_output_len: 1\n  max_recursion: 4294967295\n  max_symbol_len: 0\n" := by decide +kernel
  have text' : spoiled.text = "demangler:\n  max_symbol_len: 7\n  max_recursion: 4294967296\n" := by
    decide +kernel
  refine ⟨?_, ?_⟩
  · rw [← text]
    exact ((read_sheet sheet).1 choice writes).1
  · rw [← text']
    exact (read_sheet spoiled).2 ⟨.maxRecursion, .inl ⟨.number 4294967296, by decide, by decide⟩⟩

end Sheet

end Unmangle.Settings
