import Mathlib
import Unmangle.Proofs.Image.RoundTrip

/-!
# Every entry is accounted for

The tables of a file list entries, image by image, command by command and in the order of
each table. An entry with a name gives one record, and any other gives one warning with its
place in its table. Nothing is lost, told twice, or put elsewhere.
-/
namespace Unmangle

/-- An entry of a symbol table. -/
structure TableEntry where
  layout : ImageLayout
  image : ByteArray
  table : SymbolTable
  index : Nat

/-- The bytes stand at an offset of the names with a NUL behind them, all of it inside the
names and these inside the image. -/
structure SymbolTable.Names (table : SymbolTable) (image : ByteArray) (offset : Nat)
    (bytes : List UInt8) : Prop where
  inside : offset + bytes.length < table.namesSize
  fits : table.namesOffset + table.namesSize ≤ image.size
  free : 0 ∉ bytes
  held : Holds image (table.namesOffset + offset) (bytes ++ [0])

namespace TableEntry

def field (entry : TableEntry) (place width : Nat) : Nat :=
  entry.layout.order.field entry.image
    (entry.table.offset + entry.index * entry.layout.word.entrySize + place) width

/-- The name of the entry has these bytes. -/
def Named (entry : TableEntry) (bytes : List UInt8) : Prop :=
  entry.table.Names entry.image (entry.field 0 4) bytes

/-- The entry has a name, which is a text, and shows a type and a value. -/
structure Shows (entry : TableEntry) (record : Record) : Prop where
  name : entry.Named record.nameBytes
  type : record.typeCode.toNat = entry.field 4 1
  value : record.address.toNat = entry.field 8 entry.layout.word.valueSize

/-- Why the entry shows nothing. -/
def Fails (entry : TableEntry) : EntryFault → Prop
  | .nameOffset => ∀ bytes, ¬entry.Named bytes
  | .nameText => ∃ bytes, entry.Named bytes ∧ ∀ name : String, name.toUTF8.data.toList ≠ bytes

end TableEntry

/-- The records and the warnings that entries give, each entry one of them. -/
inductive Accounted : List TableEntry → List Record → List LogEntry → Prop
  | nil : Accounted [] [] []
  | kept {entry record entries records lines} (shows : entry.Shows record)
      (rest : Accounted entries records lines) :
      Accounted (entry :: entries) (record :: records) lines
  | passed {entry fault entries records lines} (fails : entry.Fails fault)
      (rest : Accounted entries records lines) :
      Accounted (entry :: entries) records (⟨fault.line entry.index, .warning⟩ :: lines)

namespace ImageLayout

variable (layout : ImageLayout)

/-- The commands that stand one behind the other in some bytes, each as long as it says. -/
def cut : Nat → ByteArray → List ByteArray
  | 0, _ => []
  | count + 1, commands =>
    commands.extract 0 (layout.order.field commands 4 4) ::
      cut count (commands.extract (layout.order.field commands 4 4) commands.size)

/-- The table that a command leads to, if it is of the kind that does. -/
def table? (command : ByteArray) : Option SymbolTable :=
  if layout.order.field command 0 4 = symtabCommand then some {
    offset := layout.order.field command 8 4
    count := layout.order.field command 12 4
    namesOffset := layout.order.field command 16 4
    namesSize := layout.order.field command 20 4 }
  else none

/-- The tables of an image, in the order of its commands. -/
def tables (image : ByteArray) : List SymbolTable :=
  (layout.cut (layout.order.field image 16 4) (image.extract layout.word.headerSize
    (layout.word.headerSize + layout.order.field image 20 4))).filterMap layout.table?

/-- The entries of a table, in their order. -/
def entriesOf (image : ByteArray) (table : SymbolTable) : List TableEntry :=
  (List.range table.count).map (⟨layout, image, table, ·⟩)

def entries (image : ByteArray) : List TableEntry :=
  (layout.tables image).flatMap (layout.entriesOf image)

end ImageLayout

/-- How the fields of an image are read, by its magic number. -/
def ImageLayout.of (image : ByteArray) : ImageLayout :=
  ⟨if FileFormat.of image = .ok .machO64 then .word64 else .word32, orderOf image⟩

/-- The bytes at the range that an entry of the table of a universal file gives. -/
def sliceOf (word : WordSize) (file : ByteArray) (index : Nat) : ByteArray :=
  let start := 8 + index * sliceEntrySize word
  let offset := ByteOrder.big.field file (start + 8) (sliceField word)
  file.extract offset
    (offset + ByteOrder.big.field file (start + 8 + sliceField word) (sliceField word))

/-- The images of a universal file, in the order of its table. -/
def slicesOf (word : WordSize) (file : ByteArray) : List ByteArray :=
  (List.range (ByteOrder.big.field file 4 4)).map (sliceOf word file)

/-- The images of a file: the file itself, or the ranges that its table gives. -/
def imagesOf (file : ByteArray) : List ByteArray :=
  match FileFormat.of file with
  | .ok .machOFat32 => slicesOf .word32 file
  | .ok .machOFat64 => slicesOf .word64 file
  | _ => [file]

/-- The tables of a file, image by image, each with the layout and the bytes of its image. -/
def tablesOf (file : ByteArray) : List (ImageLayout × ByteArray × SymbolTable) :=
  (imagesOf file).flatMap fun image =>
    ((ImageLayout.of image).tables image).map (ImageLayout.of image, image, ·)

/-- The entries of a file, image by image. -/
def entriesOf (file : ByteArray) : List TableEntry :=
  (imagesOf file).flatMap fun image => (ImageLayout.of image).entries image

section Universal

variable {word : WordSize} {file : ByteArray}

theorem exists_universal (wide : ¬Thin file) :
    ∃ word : WordSize, FileFormat.of file = .ok word.universal := by
  by_contra none
  exact wide fun word format => none ⟨word, format⟩

theorem loadFile_of_universal (format : FileFormat.of file = .ok word.universal) :
    loadFile file = loadSlices word file := by
  unfold loadFile
  rw [format]
  cases word <;> rfl

theorem imagesOf_of_universal (format : FileFormat.of file = .ok word.universal) :
    imagesOf file = slicesOf word file := by
  unfold imagesOf
  rw [format]
  cases word <;> rfl

/-- A thin file is one image. -/
theorem Thin.imagesOf_eq (thin : Thin file) : imagesOf file = [file] := by
  unfold imagesOf
  split
  · rename_i format
    exact absurd format (thin .word32)
  · rename_i format
    exact absurd format (thin .word64)
  · rfl

end Universal

/-- Entries are accounted for one list after the other. -/
theorem Accounted.append {entries entries' : List TableEntry} {records records' : List Record}
    {lines lines' : List LogEntry} (h : Accounted entries records lines)
    (h' : Accounted entries' records' lines') :
    Accounted (entries ++ entries') (records ++ records') (lines ++ lines') := by
  induction h with
  | nil => exact h'
  | kept shows _ ih => exact .kept shows ih
  | passed fails _ ih => exact .passed fails ih

/-- There are as many records and warnings as entries. -/
theorem Accounted.length {entries : List TableEntry} {records : List Record}
    {lines : List LogEntry} (h : Accounted entries records lines) :
    records.length + lines.length = entries.length := by
  induction h with
  | nil => rfl
  | kept _ _ ih => simp only [List.length_cons, ← ih, Nat.add_right_comm]
  | passed _ _ ih => simp only [List.length_cons, ← ih, Nat.add_assoc]

section Entry

variable {layout : ImageLayout} {image : ByteArray} {table : SymbolTable}

/-- A field holds no more than its width. -/
theorem ByteOrder.number_lt (order : ByteOrder) {bytes : List UInt8} {width : Nat}
    (short : bytes.length ≤ width) : order.number bytes < bound width := by
  have little : ∀ {bytes : List UInt8} {width : Nat}, bytes.length ≤ width →
      ByteOrder.little.number bytes < bound width := by
    intro bytes
    induction bytes with
    | nil =>
      intro width _
      show 0 < bound width
      induction width with
      | zero => exact Nat.one_pos
      | succ width ih => exact Nat.mul_pos (by decide) (ih (Nat.zero_le _))
    | cons byte bytes ih =>
      intro width short
      cases width with
      | zero => cases short
      | succ width =>
        have rest := ih (Nat.le_of_succ_le_succ short)
        have first := byte.toNat_lt
        change byte.toNat + 256 * ByteOrder.little.number bytes < 256 * bound width
        omega
  cases order with
  | little => exact little short
  | big =>
    rw [← bytes.reverse_reverse, number_big_reverse]
    exact little (by rwa [List.length_reverse])

theorem ByteOrder.field_lt (order : ByteOrder) (file : ByteArray) (offset width : Nat) :
    order.field file offset width < bound width := by
  apply number_lt
  rw [toList_extract]
  exact List.length_take_le _ _

/-- Bytes up to a NUL, none of which is one. -/
theorem split_at_nul {bytes : List UInt8} {length : Nat}
    (first : bytes.findIdx? (· == 0) = some length) :
    ∃ rest, bytes = bytes.take length ++ 0 :: rest ∧ (bytes.take length).length = length ∧
      0 ∉ bytes.take length := by
  obtain ⟨below, nul, before⟩ := List.findIdx?_eq_some_iff_getElem.mp first
  refine ⟨bytes.drop (length + 1), ?_, ?_, ?_⟩
  · rw [← eq_of_beq nul, ← List.drop_eq_getElem_cons below, List.take_append_drop]
  · rw [List.length_take]
    omega
  · intro member
    obtain ⟨place, inside, zero⟩ := List.mem_take_iff_getElem.mp member
    exact before place (by omega) (beq_iff_eq.mpr zero)

/-- What is cut from a file stands in it. -/
theorem Holds.of_extract {offset length : Nat} {bytes : List UInt8}
    (fits : offset + length ≤ image.size)
    (same : (image.extract offset (offset + length)).data.toList = bytes) :
    Holds image offset bytes := by
  refine ⟨image.data.toList.take offset, image.data.toList.drop (offset + length), ?_, ?_⟩
  · rw [← same, toList_extract, ← List.drop_drop, List.take_append_drop, List.take_append_drop]
  · have size : image.data.toList.length = image.size := rfl
    rw [List.length_take]
    omega

/-- The bytes up to the first NUL are the name. -/
theorem SymbolTable.names_of_nameBytes? {offset : Nat} {bytes : ByteArray}
    (h : ImageLayout.nameBytes? image table offset = some bytes) :
    table.Names image offset bytes.data.toList := by
  simp only [ImageLayout.nameBytes?, guard, Option.bind_eq_bind, Option.bind_eq_some_iff] at h
  obtain ⟨_, -, all, range, length, first, same⟩ := h
  unfold range? at range
  split at range
  · rename_i fits
    obtain rfl := Option.some.inj range
    obtain ⟨rest, split, -, free⟩ := split_at_nul first
    have name : bytes.data.toList = (image.extract (table.namesOffset + offset)
        (table.namesOffset + offset + (table.namesOffset + table.namesSize -
          (table.namesOffset + offset)))).data.toList.take length := by
      rw [← Option.some.inj same, ByteArray.data_extract, Array.toList_extract]
      simp
    rw [← name] at split free
    have size : image.data.toList.length = image.size := rfl
    have whole := congrArg List.length split
    rw [toList_extract, List.length_take, List.length_drop, List.length_append,
      List.length_cons] at whole
    refine ⟨by omega, by omega, free, ?_⟩
    have held := Holds.of_extract fits split
    rw [← List.singleton_append, ← List.append_assoc] at held
    exact held.left
  · cases range

/-- A name that stands in the names is found. -/
theorem SymbolTable.Names.isSome {offset : Nat} {bytes : List UInt8}
    (h : table.Names image offset bytes) :
    (ImageLayout.nameBytes? image table offset).isSome := by
  obtain ⟨inside, fits, -, before, after, split, length⟩ := h
  have ended : table.namesOffset + offset + (table.namesOffset + table.namesSize -
      (table.namesOffset + offset)) ≤ image.size := by omega
  have nul : 0 ∈ (image.extract (table.namesOffset + offset) (table.namesOffset + offset +
      (table.namesOffset + table.namesSize - (table.namesOffset + offset)))).data.toList := by
    rw [toList_extract, split, ← length, List.drop_left, List.mem_take_iff_getElem]
    exact ⟨bytes.length, by simp; omega, by simp⟩
  have found : ∃ place, (image.extract (table.namesOffset + offset) (table.namesOffset + offset +
      (table.namesOffset + table.namesSize - (table.namesOffset + offset)))).data.toList.findIdx?
        (· == 0) = some place := by
    rw [← Option.isSome_iff_exists, List.findIdx?_isSome, List.any_eq_true]
    exact ⟨0, nul, rfl⟩
  obtain ⟨place, found⟩ := found
  simp only [ImageLayout.nameBytes?, guard, range?, if_pos ended, Option.bind_eq_bind]
  rw [if_pos (by omega)]
  simp only [Option.pure_def, Option.bind_some, found, Option.isSome_some]

theorem toUTF8_of_fromUTF8? {bytes : ByteArray} {text : String}
    (h : String.fromUTF8? bytes = some text) : bytes = text.toUTF8 := by
  unfold String.fromUTF8? at h
  split at h
  · obtain rfl := Option.some.inj h
    rfl
  · cases h

/-- An entry that gives a record shows it. -/
theorem TableEntry.shows_of_entry {index : Nat} {record : Record}
    (h : layout.entry image table index = .ok record) :
    TableEntry.Shows ⟨layout, image, table, index⟩ record := by
  dsimp only [ImageLayout.entry] at h
  split at h
  · rename_i bytes named
    split at h
    · rename_i name text
      obtain rfl := Except.ok.inj h
      refine ⟨?_, ?_, ?_⟩
      · rw [TableEntry.Named, Record.nameBytes, ← toUTF8_of_fromUTF8? text]
        exact SymbolTable.names_of_nameBytes? named
      · exact UInt8.toNat_ofNat_of_lt' (layout.order.field_lt image _ 1)
      · have small := layout.order.field_lt image
          (table.offset + index * layout.word.entrySize + 8) layout.word.valueSize
        have bound : ByteOrder.bound layout.word.valueSize ≤ 18446744073709551616 := by
          cases layout.word <;> decide
        exact UInt64.toNat_ofNat_of_lt' (Nat.lt_of_lt_of_le small bound)
    · cases h
  · cases h

/-- An entry that gives a fault has that fault. -/
theorem TableEntry.fails_of_entry {index : Nat} {fault : EntryFault}
    (h : layout.entry image table index = .error fault) :
    TableEntry.Fails ⟨layout, image, table, index⟩ fault := by
  dsimp only [ImageLayout.entry] at h
  split at h
  · rename_i bytes named
    split at h
    · cases h
    · rename_i text
      obtain rfl := Except.error.inj h
      refine ⟨_, SymbolTable.names_of_nameBytes? named, ?_⟩
      intro name same
      have bytes : name.toUTF8 = bytes := ByteArray.ext (Array.toList_inj.mp same)
      rw [← bytes] at text
      exact absurd (dif_pos name.isValidUTF8) (text name)
  · rename_i unread
    obtain rfl := Except.error.inj h
    intro bytes named
    obtain ⟨found, read⟩ := Option.isSome_iff_exists.mp (SymbolTable.Names.isSome named)
    exact unread found read

end Entry

/-- Reading adds what some entries give, each of them once and in their order. -/
def Load.Accounts (entries : List TableEntry) (step : Load Unit) : Prop :=
  ∀ before after, step before = .ok () after → ∃ records lines,
    Accounted entries records lines ∧
      after.records.toList = before.records.toList ++ records ∧
      after.lines.toList = before.lines.toList ++ lines

namespace Load.Accounts

variable {entries entries' : List TableEntry} {step step' : Load Unit}

theorem nothing (change : ImageSymbols → ImageSymbols)
    (records : ∀ symbols, (change symbols).records = symbols.records)
    (lines : ∀ symbols, (change symbols).lines = symbols.lines) :
    Accounts [] (modify change) := by
  rintro before _ ⟨⟩
  refine ⟨[], [], .nil, ?_, ?_⟩
  · rw [records, List.append_nil]
  · rw [lines, List.append_nil]

theorem pure : Accounts [] (Pure.pure ()) := by
  rintro before _ ⟨⟩
  exact ⟨[], [], .nil, (List.append_nil _).symm, (List.append_nil _).symm⟩

theorem throw (fault : ImageFault) : Accounts entries (MonadExcept.throw fault : Load Unit) := by
  intro before after h
  cases h

/-- Two steps in a row account for the entries of both. -/
theorem bind (h : Accounts entries step) (h' : Accounts entries' step') :
    Accounts (entries ++ entries') (step >>= fun _ => step') := by
  intro before last run
  cases first : step before with
  | error fault after =>
    rw [Load.bind_error first] at run
    cases run
  | ok _ after =>
    rw [Load.bind_ok first] at run
    obtain ⟨records, lines, accounted, records_eq, lines_eq⟩ := h before after first
    obtain ⟨records', lines', accounted', records_eq', lines_eq'⟩ := h' after last run
    refine ⟨records ++ records', lines ++ lines', accounted.append accounted', ?_, ?_⟩
    · rw [records_eq', records_eq, List.append_assoc]
    · rw [lines_eq', lines_eq, List.append_assoc]

/-- A test that may end the reading, and what comes behind it. -/
theorem guarded {c : Prop} [Decidable c] {fault : ImageFault} {next : PUnit → Load Unit}
    (h : ∀ tested, Accounts entries (next tested)) :
    Accounts entries (if c then MonadExcept.throw fault >>= next else next ⟨⟩) := by
  split
  · intro before after run
    have ended : (MonadExcept.throw fault >>= next) before = .error fault before :=
      Load.bind_error rfl
    rw [ended] at run
    cases run
  · exact h ⟨⟩

theorem forM {ι : Type} {step : ι → Load Unit} {found : ι → List TableEntry} {items : List ι}
    (h : ∀ item ∈ items, Accounts (found item) (step item)) :
    Accounts (items.flatMap found) (items.forM step) := by
  induction items with
  | nil => exact pure
  | cons item items ih =>
    rw [List.flatMap_cons]
    exact (h item (.head _)).bind (ih fun item member => h item (.tail _ member))

variable (layout : ImageLayout) (image : ByteArray)

/-- Reading an entry leaves a record or a warning. -/
theorem readEntry (table : SymbolTable) (index : Nat) :
    Accounts [⟨layout, image, table, index⟩] (layout.readEntry image table index) := by
  rintro before _ ⟨⟩
  dsimp only
  cases read : layout.entry image table index with
  | ok record =>
    exact ⟨[record], [], .kept (TableEntry.shows_of_entry read) .nil, Array.toList_push,
      (List.append_nil _).symm⟩
  | error fault =>
    exact ⟨[], [⟨fault.line index, .warning⟩], .passed (TableEntry.fails_of_entry read) .nil,
      (List.append_nil _).symm, Array.toList_push⟩

theorem readTable (table : SymbolTable) :
    Accounts (layout.entriesOf image table) (layout.readTable image table) := by
  unfold ImageLayout.readTable ImageLayout.entriesOf
  rw [← List.flatMap_pure_eq_map]
  apply guarded
  intro _
  exact forM fun index _ => readEntry layout image table index

/-- A command accounts for the table that it leads to. -/
theorem readCommand (command : ByteArray) :
    Accounts ((layout.table? command).toList.flatMap (layout.entriesOf image))
      (layout.readCommand image command) := by
  unfold ImageLayout.readCommand ImageLayout.table?
  split
  · rw [Option.toList_some, List.flatMap_singleton]
    apply guarded
    intro _
    exact readTable layout image _
  · exact pure

/-- The commands that are read are the bytes cut by the sizes that they give. -/
theorem readCommands (count : Nat) (commands : ByteArray) :
    Accounts (((layout.cut count commands).filterMap layout.table?).flatMap
      (layout.entriesOf image)) (layout.readCommands image count commands) := by
  induction count generalizing commands with
  | zero => exact pure
  | succ count ih =>
    have cut : ((layout.cut (count + 1) commands).filterMap layout.table?).flatMap
        (layout.entriesOf image) =
        (layout.table? (commands.extract 0 (layout.order.field commands 4 4))).toList.flatMap
          (layout.entriesOf image) ++
        ((layout.cut count (commands.extract (layout.order.field commands 4 4)
          commands.size)).filterMap layout.table?).flatMap (layout.entriesOf image) := by
      rw [ImageLayout.cut, List.filterMap_cons]
      cases layout.table? _ with
      | none => rfl
      | some table => rw [Option.toList_some, List.flatMap_singleton, List.flatMap_cons]
    rw [cut]
    unfold ImageLayout.readCommands
    apply guarded
    intro _
    apply guarded
    intro _
    dsimp only
    split
    · rename_i command inside
      have command_eq : command = commands.extract 0 (layout.order.field commands 4 4) := by
        unfold range? at inside
        split at inside
        · rw [← Option.some.inj inside, Nat.zero_add]
        · cases inside
      rw [← command_eq]
      exact (readCommand layout image command).bind (ih _)
    · exact throw _

/-- An image accounts for the tables of all its commands. -/
theorem readImage : Accounts (layout.entries image) (layout.readImage image) := by
  unfold ImageLayout.readImage
  apply guarded
  intro _
  dsimp only
  split
  · rename_i commands inside
    have commands_eq : commands = image.extract layout.word.headerSize
        (layout.word.headerSize + layout.order.field image 20 4) := by
      unfold range? at inside
      split at inside
      · exact (Option.some.inj inside).symm
      · cases inside
    have read := (readCommands layout image (layout.order.field image 16 4) commands).bind
      (nothing (fun symbols => { symbols with images := symbols.images + 1 })
        (fun _ => rfl) fun _ => rfl)
    rw [List.append_nil] at read
    unfold ImageLayout.entries ImageLayout.tables
    rwa [← commands_eq]
  · exact throw _

theorem loadImage : Accounts ((ImageLayout.of image).entries image) (loadImage image) := by
  unfold Unmangle.loadImage
  split
  · exact throw _
  · rename_i format
    have word : ImageLayout.of image = ⟨.word32, ImageLayout.orderOf image⟩ := by
      unfold ImageLayout.of
      rw [format]
      rfl
    rw [word]
    exact readImage _ image
  · rename_i format
    have word : ImageLayout.of image = ⟨.word64, ImageLayout.orderOf image⟩ := by
      unfold ImageLayout.of
      rw [format]
      rfl
    rw [word]
    exact readImage _ image
  · exact throw _

theorem loadSlice (word : WordSize) (file : ByteArray) (index : Nat) :
    Accounts ((ImageLayout.of (sliceOf word file index)).entries (sliceOf word file index))
      (loadSlice word file index) := by
  unfold Unmangle.loadSlice
  dsimp only
  split
  · rename_i slice inside
    have slice_eq : sliceOf word file index = slice := by
      unfold range? at inside
      split at inside
      · exact Option.some.inj inside
      · cases inside
    rw [slice_eq]
    exact loadImage slice
  · exact throw _

/-- A universal file accounts for its slices in their order. -/
theorem loadSlices (word : WordSize) (file : ByteArray) :
    Accounts ((slicesOf word file).flatMap fun image => (ImageLayout.of image).entries image)
      (loadSlices word file) := by
  unfold Unmangle.loadSlices slicesOf
  rw [List.flatMap_map]
  apply guarded
  intro _
  exact forM fun index _ => loadSlice word file index

theorem loadFile (file : ByteArray) : Accounts (entriesOf file) (loadFile file) := by
  unfold entriesOf
  by_cases thin : Thin file
  · rw [thin.loadFile_eq, thin.imagesOf_eq, List.flatMap_singleton]
    exact loadImage file
  · obtain ⟨word, format⟩ := exists_universal thin
    rw [loadFile_of_universal format, imagesOf_of_universal format]
    exact loadSlices word file

end Load.Accounts

namespace Load

variable {α : Type} {step : α → Load Unit} {before after : ImageSymbols}

/-- Steps that read an image each. -/
theorem images_of_forM (h : ∀ item, Appends 1 (step item)) {items : List α}
    (run : items.forM step before = .ok () after) : after.images = before.images + items.length := by
  induction items generalizing before with
  | nil =>
    cases run
    rfl
  | cons item items ih =>
    change (step item >>= fun _ => items.forM step) before = _ at run
    cases first : step item before with
    | error fault middle =>
      rw [bind_error first] at run
      cases run
    | ok _ middle =>
      rw [bind_ok first] at run
      rw [ih run, (h item).counts before () middle first, List.length_cons]
      omega

theorem appends_loadSlice (word : WordSize) (file : ByteArray) (index : Nat) :
    Appends 1 (loadSlice word file index) := by
  unfold loadSlice
  dsimp only
  split
  · exact appends_loadImage _
  · exact .throw _

/-- Each slice counts as an image. -/
theorem images_of_loadSlices {word : WordSize} {file : ByteArray}
    (run : loadSlices word file before = .ok () after) :
    after.images = before.images + (slicesOf word file).length := by
  unfold loadSlices at run
  dsimp only at run
  split at run
  · have ended : (MonadExcept.throw .sliceCount >>= fun _ : PUnit =>
        (List.range (ByteOrder.big.field file 4 4)).forM (loadSlice word file)) before =
        .error .sliceCount before := bind_error rfl
    exact absurd (ended.symm.trans run) (by simp)
  · rw [images_of_forM (appends_loadSlice word file) run, slicesOf, List.length_map]

/-- A file that can be read has no image that was not read. -/
theorem images_of_loadFile {file : ByteArray} (run : loadFile file before = .ok () after) :
    after.images = before.images + (imagesOf file).length := by
  by_cases thin : Thin file
  · rw [thin.loadFile_eq] at run
    rw [thin.imagesOf_eq]
    exact (appends_loadImage file).counts before () after run
  · obtain ⟨word, format⟩ := exists_universal thin
    rw [loadFile_of_universal format] at run
    rw [imagesOf_of_universal format]
    exact images_of_loadSlices run

end Load

theorem ImageSymbols.loaded_of_read {file : ByteArray} {symbols : ImageSymbols}
    (ok : (ImageSymbols.read file).1 = .ok symbols) : loadFile file {} = .ok () symbols := by
  unfold ImageSymbols.read at ok
  split at ok
  · rename_i run
    rw [run, Except.ok.inj ok]
  · cases ok

/-- A table has as many entries as it says, so the entries of a file are counted by its
tables. -/
theorem length_entriesOf (file : ByteArray) :
    (entriesOf file).length = ((tablesOf file).map fun (_, _, table) => table.count).sum := by
  unfold entriesOf tablesOf
  generalize imagesOf file = images
  induction images with
  | nil => rfl
  | cons image images ih =>
    have here : ((ImageLayout.of image).entries image).length =
        (((ImageLayout.of image).tables image).map (·.count)).sum := by
      unfold ImageLayout.entries ImageLayout.entriesOf
      simp only [List.length_flatMap, List.length_map, List.length_range]
    simp only [List.flatMap_cons, List.length_append, List.map_append, List.sum_append, ih, here,
      List.map_map]
    rfl

/-- Of a file that can be read, every entry of every table gives its record or its warning,
in the order of images, commands and entries, and there are no others. -/
theorem read_accounts {file : ByteArray} {symbols : ImageSymbols}
    (ok : (ImageSymbols.read file).1 = .ok symbols) :
    symbols.images = (imagesOf file).length ∧
      Accounted (entriesOf file) symbols.records.toList (ImageSymbols.read file).2 ∧
      symbols.records.size + (ImageSymbols.read file).2.length =
        ((tablesOf file).map fun (_, _, table) => table.count).sum := by
  have run := ImageSymbols.loaded_of_read ok
  have images := Load.images_of_loadFile run
  obtain ⟨records, lines, accounted, records_eq, lines_eq⟩ := Load.Accounts.loadFile file {} symbols run
  have read : (ImageSymbols.read file).2 = lines := by
    rw [ImageSymbols.read_of_loaded run]
    exact lines_eq
  have given : symbols.records.toList = records := records_eq
  refine ⟨images.trans (Nat.zero_add _), ?_, ?_⟩
  · rw [given, read]
    exact accounted
  · rw [read, ← Array.length_toList, given, accounted.length, length_entriesOf]

/-- An image of 32-bit words with two tables. Of the entries of the first, one has a name and
one leads behind the names. The entry of the second leads to bytes that are no text. -/
def twoTables : ByteArray := ⟨#[
  0xce, 0xfa, 0xed, 0xfe, 7, 0, 0, 0, 3, 0, 0, 0, 1, 0, 0, 0, 2, 0, 0, 0, 48, 0, 0, 0, 0, 0, 0, 0,
  2, 0, 0, 0, 24, 0, 0, 0, 76, 0, 0, 0, 2, 0, 0, 0, 112, 0, 0, 0, 5, 0, 0, 0,
  2, 0, 0, 0, 24, 0, 0, 0, 100, 0, 0, 0, 1, 0, 0, 0, 112, 0, 0, 0, 5, 0, 0, 0,
  1, 0, 0, 0, 0x0f, 1, 0, 0, 0x40, 0, 0, 0,
  9, 0, 0, 0, 0x0f, 1, 0, 0, 0x44, 0, 0, 0,
  3, 0, 0, 0, 0x0f, 1, 0, 0, 0x48, 0, 0, 0,
  0, 0x66, 0, 0xff, 0]⟩

theorem read_accounts_twoTables :
    ∃ symbols, (ImageSymbols.read twoTables).1 = .ok symbols ∧
      Accounted (entriesOf twoTables) symbols.records.toList (ImageSymbols.read twoTables).2 ∧
      symbols.records.size + (ImageSymbols.read twoTables).2.length = 3 := by
  have ok : (ImageSymbols.read twoTables).1 = .ok ⟨#[⟨"f", 0x0f, 0x40⟩], 1, #[
      ⟨EntryFault.nameOffset.line 1, .warning⟩, ⟨EntryFault.nameText.line 0, .warning⟩]⟩ := by
    decide +kernel
  obtain ⟨-, accounted, count⟩ := read_accounts ok
  exact ⟨_, ok, accounted, count.trans (by decide +kernel)⟩

end Unmangle
