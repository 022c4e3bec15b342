import Mathlib.Data.List.Forall2
import Unmangle.Proofs.Image.Append

/-!
# Files of several images

The images of a universal file are read as if each were a file of its own, one after the
other in the order of the table. What they give stands one behind the other, up to the first
image that cannot be read.
-/
namespace Unmangle

/-- The format of a file of several images, by the width of its offsets. -/
def WordSize.universal : WordSize → FileFormat
  | .word32 => .machOFat32
  | .word64 => .machOFat64

/-- The bytes at the range that an entry of the table gives, if they lie in the file. -/
def slice? (word : WordSize) (file : ByteArray) (index : Nat) : Option ByteArray :=
  let start := 8 + index * sliceEntrySize word
  range? file (ByteOrder.big.field file (start + 8) (sliceField word))
    (ByteOrder.big.field file (start + 8 + sliceField word) (sliceField word))

/-- A universal file and the bytes of its images, which may overlap. -/
structure Universal (word : WordSize) (file : ByteArray) (slices : List ByteArray) : Prop where
  format : FileFormat.of file = .ok word.universal
  count : ByteOrder.big.field file 4 4 = slices.length
  table : 8 + slices.length * sliceEntrySize word ≤ file.size
  ranges : (List.range slices.length).map (slice? word file) = slices.map some

/-- The bytes are not those of a universal file. -/
def Thin (slice : ByteArray) : Prop :=
  ∀ word : WordSize, FileFormat.of slice ≠ .ok word.universal

variable {word : WordSize} {file slice : ByteArray} {slices : List ByteArray}

/-- A thin file is loaded as one image. -/
theorem Thin.loadFile_eq (thin : Thin slice) : loadFile slice = loadImage slice := by
  have not32 := thin .word32
  have not64 := thin .word64
  unfold loadFile
  cases hformat : FileFormat.of slice with
  | error fault =>
    simp only [loadImage, hformat]
  | ok format =>
    rw [hformat] at not32 not64
    cases format with
    | machOFat32 => exact absurd rfl not32
    | machOFat64 => exact absurd rfl not64
    | _ => dsimp only

theorem loadSlice_of_slice? {index : Nat} (h : slice? word file index = some slice) :
    loadSlice word file index = loadImage slice := by
  unfold loadSlice
  unfold slice? at h
  dsimp only at h ⊢
  rw [h]

/-- Reading by the table is reading the images that the table lists. -/
theorem forM_loadSlice {indices : List Nat}
    (ranges : indices.map (slice? word file) = slices.map some) :
    indices.forM (loadSlice word file) = slices.forM loadImage := by
  induction indices generalizing slices with
  | nil =>
    cases slices with
    | nil => rfl
    | cons slice slices => cases ranges
  | cons index indices ih =>
    cases slices with
    | nil => cases ranges
    | cons slice slices =>
      rw [List.map_cons, List.map_cons] at ranges
      obtain ⟨first, others⟩ := List.cons.inj ranges
      change (do loadSlice word file index; indices.forM (loadSlice word file)) =
        (do loadImage slice; slices.forM loadImage)
      rw [loadSlice_of_slice? first, ih others]

/-- A universal file is loaded slice by slice. -/
theorem Universal.loadFile_eq (h : Universal word file slices) :
    loadFile file = slices.forM loadImage := by
  have fits : range? file 8 (slices.length * sliceEntrySize word) ≠ none := by
    unfold range?
    rw [if_pos h.table]
    simp
  have load : loadSlices word file = slices.forM loadImage := by
    unfold loadSlices
    dsimp only
    rw [h.count, if_neg (by simpa using fits), forM_loadSlice h.ranges]
  unfold loadFile
  rw [h.format]
  cases word <;> exact load

/-- What is read from each of some images, one after the other. -/
def Parts (slices : List ByteArray) (parts : List ImageSymbols) : Prop :=
  List.Forall₂ (fun slice part => loadImage slice {} = .ok () part) slices parts

variable {parts : List ImageSymbols}

theorem run_loadImage (slice : ByteArray) (before : ImageSymbols) :
    loadImage slice before = Load.behind before (loadImage slice {}) := by
  have frame := (Load.appends_loadImage slice).frame before {}
  rwa [ImageSymbols.append_empty] at frame

/-- Slices that all load add up. -/
theorem Parts.run (h : Parts slices parts) (before : ImageSymbols) :
    slices.forM loadImage before = .ok () (parts.foldl (· ++ ·) before) := by
  induction h generalizing before with
  | nil => rfl
  | @cons slice part slices parts first _ ih =>
    have here : loadImage slice before = .ok () (before ++ part) := by
      rw [run_loadImage, first, Load.behind]
    exact (Load.bind_ok here).trans (ih (before ++ part))

/-- The first slice that fails ends the reading, with the warnings up to there. -/
theorem Parts.run_error (h : Parts slices parts) {bad : ByteArray} {fault : ImageFault}
    {part : ImageSymbols} (failed : loadImage bad {} = .error fault part) (rest : List ByteArray)
    (before : ImageSymbols) :
    (slices ++ bad :: rest).forM loadImage before =
      .error fault (parts.foldl (· ++ ·) before ++ part) := by
  induction h generalizing before with
  | nil =>
    have here : loadImage bad before = .error fault (before ++ part) := by
      rw [run_loadImage, failed, Load.behind]
    exact Load.bind_error here
  | @cons slice part' slices parts first _ ih =>
    have here : loadImage slice before = .ok () (before ++ part') := by
      rw [run_loadImage, first, Load.behind]
    exact (Load.bind_ok here).trans (ih (before ++ part'))

namespace ImageSymbols

theorem records_foldl (parts : List ImageSymbols) (before : ImageSymbols) :
    (parts.foldl (· ++ ·) before).records.toList =
      before.records.toList ++ parts.flatMap (·.records.toList) := by
  induction parts generalizing before with
  | nil => simp
  | cons part parts ih => simp [ih]

theorem lines_foldl (parts : List ImageSymbols) (before : ImageSymbols) :
    (parts.foldl (· ++ ·) before).lines.toList =
      before.lines.toList ++ parts.flatMap (·.lines.toList) := by
  induction parts generalizing before with
  | nil => simp
  | cons part parts ih => simp [ih]

theorem images_foldl (h : Parts slices parts) (before : ImageSymbols) :
    (parts.foldl (· ++ ·) before).images = before.images + slices.length := by
  induction h generalizing before with
  | nil => rfl
  | @cons slice part slices parts first _ ih =>
    have one : part.images = 0 + 1 := (Load.appends_loadImage slice).counts {} () part first
    rw [List.foldl_cons, ih, List.length_cons, images_append, one]
    omega

/-- A file of one image is read well, or not, with the warnings that came up. -/
theorem read_thin (thin : Thin slice) :
    (∃ part, loadImage slice {} = .ok () part ∧ read slice = (.ok part, part.lines.toList)) ∨
      ∃ fault part, loadImage slice {} = .error fault part ∧
        read slice = (.error fault, part.lines.toList) := by
  unfold read
  rw [thin.loadFile_eq]
  cases hload : loadImage slice {} with
  | ok _ part => exact .inl ⟨part, rfl, rfl⟩
  | error fault part => exact .inr ⟨fault, part, rfl, rfl⟩

/-- Slices that can be read have parts of their own. -/
theorem parts_of_isOk (thin : ∀ slice ∈ slices, Thin slice)
    (ok : ∀ slice ∈ slices, (read slice).1.isOk = true) :
    ∃ parts, Parts slices parts ∧ slices.map read = parts.map fun part =>
      (.ok part, part.lines.toList) := by
  induction slices with
  | nil => exact ⟨[], .nil, rfl⟩
  | cons slice slices ih =>
    obtain ⟨parts, loaded, same⟩ := ih (fun s hs => thin s (.tail _ hs)) fun s hs => ok s (.tail _ hs)
    have first := ok slice (.head _)
    rcases read_thin (thin slice (.head _)) with ⟨part, hload, hread⟩ | ⟨fault, part, -, hread⟩
    · exact ⟨part :: parts, .cons hload loaded, by rw [List.map_cons, List.map_cons, hread, same]⟩
    · rw [hread] at first
      cases first

theorem lines_of_parts (same : slices.map read = parts.map fun part =>
      (.ok part, part.lines.toList)) :
    slices.flatMap (fun slice => (read slice).2) = parts.flatMap (·.lines.toList) := by
  have second := congrArg (List.flatMap Prod.snd) same
  simpa [List.flatMap_map] using second

theorem read_of_loaded {symbols : ImageSymbols} (run : loadFile file {} = .ok () symbols) :
    read file = (.ok symbols, symbols.lines.toList) := by
  simp only [read, run]

theorem read_of_failed {fault : ImageFault} {symbols : ImageSymbols}
    (run : loadFile file {} = .error fault symbols) :
    read file = (.error fault, symbols.lines.toList) := by
  simp only [read, run]

/-- The parts are what reading the images gives, if all of them can be read. -/
theorem eq_of_map_ok {parts' : List ImageSymbols}
    (same : slices.map read = parts'.map fun part => (.ok part, part.lines.toList))
    (given : slices.map (fun slice => (read slice).1) = parts.map .ok) : parts' = parts := by
  have first := congrArg (List.map Prod.fst) same
  simp only [List.map_map] at first
  have ran : parts'.map (Except.ok (ε := ImageFault)) = parts.map Except.ok := by
    rw [← given]
    exact first.symm
  exact List.map_injective_iff.mpr (fun _ _ e => Except.ok.inj e) ran

theorem isOk_of_map_ok (given : slices.map (fun slice => (read slice).1) = parts.map .ok) :
    ∀ slice ∈ slices, (read slice).1.isOk = true := by
  intro slice hslice
  have found : (read slice).1 ∈ parts.map Except.ok := by
    rw [← given]
    exact List.mem_map_of_mem hslice
  obtain ⟨part, -, same⟩ := List.mem_map.mp found
  rw [← same]
  rfl

/-- If not all images can be read, there is a first one that cannot. -/
theorem exists_first_fault (bad : ¬∀ slice ∈ slices, (read slice).1.isOk = true) :
    ∃ good bad rest fault, slices = good ++ bad :: rest ∧
      (∀ slice ∈ good, (read slice).1.isOk = true) ∧ (read bad).1 = .error fault := by
  cases found : slices.find? fun slice => !(read slice).1.isOk with
  | none =>
    rw [List.find?_eq_none] at found
    exact absurd (fun slice hslice => by simpa using found slice hslice) bad
  | some first =>
    obtain ⟨failed, good, rest, split, before⟩ := List.find?_eq_some_iff_append.mp found
    cases hread : (read first).1 with
    | ok part =>
      rw [hread] at failed
      cases failed
    | error fault =>
      exact ⟨good, first, rest, fault, split, fun slice hslice => by simpa using before slice hslice,
        hread⟩

end ImageSymbols

namespace Universal

open ImageSymbols

/-- A universal file whose slices all read is their sum. -/
theorem read_of_all (h : Universal word file slices) (thin : ∀ slice ∈ slices, Thin slice)
    (given : slices.map (fun slice => (read slice).1) = parts.map .ok) :
    ∃ whole, read file = (.ok whole, slices.flatMap fun slice => (read slice).2) ∧
      whole.records.toList = parts.flatMap (·.records.toList) ∧ whole.images = slices.length := by
  obtain ⟨parts', loaded, same⟩ := parts_of_isOk thin (isOk_of_map_ok given)
  have equal : parts' = parts := eq_of_map_ok same given
  subst equal
  have run : loadFile file {} = .ok () (parts'.foldl (· ++ ·) {}) := by
    rw [h.loadFile_eq]
    exact loaded.run {}
  refine ⟨parts'.foldl (· ++ ·) {}, ?_, ?_, ?_⟩
  · rw [read_of_loaded run, lines_foldl, lines_of_parts same]
    rfl
  · rw [records_foldl]
    rfl
  · rw [images_foldl loaded]
    exact Nat.zero_add _

/-- A universal file fails as its first slice does that fails. -/
theorem read_of_fault {good rest : List ByteArray} {bad : ByteArray} {fault : ImageFault}
    (h : Universal word file (good ++ bad :: rest)) (thin : ∀ slice ∈ good ++ bad :: rest, Thin slice)
    (ok : ∀ slice ∈ good, (read slice).1.isOk = true) (failed : (read bad).1 = .error fault) :
    read file = (.error fault, (good ++ [bad]).flatMap fun slice => (read slice).2) := by
  have thin_good : ∀ slice ∈ good, Thin slice := fun slice hslice =>
    thin slice (List.mem_append_left _ hslice)
  have thin_bad : Thin bad := thin bad (List.mem_append_right _ (.head _))
  obtain ⟨parts, loaded, same⟩ := parts_of_isOk thin_good ok
  rcases read_thin thin_bad with ⟨part, -, hread⟩ | ⟨fault', part, hload, hread⟩
  · rw [hread] at failed
    cases failed
  · rw [hread] at failed
    obtain rfl : fault' = fault := Except.error.inj failed
    -- the records of the images before are dropped with the outcome, their warnings are not
    have run : loadFile file {} = .error fault' (parts.foldl (· ++ ·) {} ++ part) := by
      rw [h.loadFile_eq]
      exact loaded.run_error hload rest {}
    rw [read_of_failed run, lines_append, Array.toList_append, lines_foldl, List.flatMap_append,
      lines_of_parts same, List.flatMap_singleton, hread]
    rfl

end Universal

/-- A universal file is read well if and only if each of its images is. Its records are then
those of its images in the order of the table. Else the first image that cannot be read gives
the fault, and the warnings are those up to it. -/
theorem read_universal (h : Universal word file slices) (thin : ∀ slice ∈ slices, Thin slice) :
    ((ImageSymbols.read file).1.isOk = true ↔
        ∀ slice ∈ slices, (ImageSymbols.read slice).1.isOk = true) ∧
      (∀ parts : List ImageSymbols,
        slices.map (fun slice => (ImageSymbols.read slice).1) = parts.map .ok →
          ∃ whole, ImageSymbols.read file =
              (.ok whole, slices.flatMap fun slice => (ImageSymbols.read slice).2) ∧
            whole.records.toList = parts.flatMap (·.records.toList) ∧
            whole.images = slices.length) ∧
      ∀ good bad rest fault, slices = good ++ bad :: rest →
        (∀ slice ∈ good, (ImageSymbols.read slice).1.isOk = true) →
        (ImageSymbols.read bad).1 = .error fault →
          ImageSymbols.read file =
            (.error fault, (good ++ [bad]).flatMap fun slice => (ImageSymbols.read slice).2) := by
  refine ⟨⟨?_, ?_⟩, fun parts given => h.read_of_all thin given, ?_⟩
  · intro ok
    by_contra bad
    obtain ⟨good, first, rest, fault, rfl, before, failed⟩ := ImageSymbols.exists_first_fault bad
    rw [h.read_of_fault thin before failed] at ok
    cases ok
  · intro ok
    obtain ⟨parts, -, same⟩ := ImageSymbols.parts_of_isOk thin ok
    have given := congrArg (List.map Prod.fst) same
    simp only [List.map_map] at given
    obtain ⟨whole, hread, -⟩ := h.read_of_all thin given
    rw [hread]
    rfl
  · rintro good bad rest fault rfl ok failed
    exact h.read_of_fault thin ok failed

/-- An image of 32-bit words with one symbol. -/
def oneSymbol : ByteArray := ⟨#[
  0xce, 0xfa, 0xed, 0xfe, 7, 0, 0, 0, 3, 0, 0, 0, 1, 0, 0, 0, 1, 0, 0, 0, 24, 0, 0, 0, 0, 0, 0, 0,
  2, 0, 0, 0, 24, 0, 0, 0, 52, 0, 0, 0, 1, 0, 0, 0, 64, 0, 0, 0, 4, 0, 0, 0,
  1, 0, 0, 0, 0x0f, 1, 0, 0, 0x40, 0, 0, 0,
  0, 0x66, 0, 0]⟩

/-- A file with a table of two entries for one and the same image. -/
def listedTwice : ByteArray := ⟨#[
  0xca, 0xfe, 0xba, 0xbe, 0, 0, 0, 2,
  0, 0, 0, 7, 0, 0, 0, 3, 0, 0, 0, 48, 0, 0, 0, 68, 0, 0, 0, 4,
  0, 0, 0, 7, 0, 0, 0, 3, 0, 0, 0, 48, 0, 0, 0, 68, 0, 0, 0, 4]⟩ ++ oneSymbol

set_option maxRecDepth 2000 in
theorem universal_listedTwice : Universal .word32 listedTwice [oneSymbol, oneSymbol] where
  format := rfl
  count := rfl
  table := by decide +kernel
  ranges := by decide +kernel

theorem read_universal_overlapping :
    ∃ whole, ImageSymbols.read listedTwice = (.ok whole, []) ∧
      whole.records.toList = [⟨"f", 0x0f, 0x40⟩, ⟨"f", 0x0f, 0x40⟩] ∧ whole.images = 2 := by
  have thin : ∀ slice ∈ [oneSymbol, oneSymbol], Thin slice := by
    intro slice hslice word
    obtain rfl : slice = oneSymbol := by simpa using hslice
    cases word with
    | word32 => exact fun h => by cases h
    | word64 => exact fun h => by cases h
  exact (read_universal universal_listedTwice thin).2.1
    [⟨#[⟨"f", 0x0f, 0x40⟩], 1, #[]⟩, ⟨#[⟨"f", 0x0f, 0x40⟩], 1, #[]⟩] rfl

end Unmangle
