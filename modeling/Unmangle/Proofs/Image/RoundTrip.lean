import Unmangle.Proofs.Image.Layout
import Unmangle.Proofs.Image.Slices

/-!
# Reading back what was laid out

The symbols of an image come back from its bytes as they were, in the order of the table and
without a warning, whatever other commands the image has.
-/
namespace Unmangle

/-- The image can be laid out: only one command leads to a table, no name has a NUL in it,
and every number fits in its field. -/
structure Image.Fits (layout : ImageLayout) (image : Image) : Prop where
  others : ∀ command ∈ image.before ++ image.after, command.kind ≠ 2
  names : ∀ symbol ∈ image.symbols, 0 ∉ symbol.nameBytes
  addresses : layout.word = .word32 →
    ∀ symbol ∈ image.symbols, symbol.address.toNat < 4294967296
  size : (layout.write image).size < 4294967296

/-- The numbers of a table fit in the fields of the command that leads to it. -/
structure SymbolTable.Fits (table : SymbolTable) : Prop where
  offset : table.offset < 4294967296
  count : table.count < 4294967296
  namesOffset : table.namesOffset < 4294967296
  namesSize : table.namesSize < 4294967296

/-- The format of a file of one image, by the size of its words. -/
def WordSize.format : WordSize → FileFormat
  | .word32 => .machO32
  | .word64 => .machO64

namespace ImageLayout

variable {layout : ImageLayout} {file : ByteArray} {image : Image} {table : SymbolTable}
  {symbol : Record} {symbols : List Record} {command : LoadCommand} {commands : List LoadCommand}

section Commands

/-- A command that leads to no table is passed over. -/
theorem readCommand_other (kind : command.kind ≠ 2) :
    layout.readCommand file ⟨(command.write layout.order).toArray⟩ = pure () := by
  have read : layout.order.field ⟨(command.write layout.order).toArray⟩ 0 4 =
      command.kind.toNat := (Holds.whole _).left.field command.kind.toNat_lt
  have other : command.kind.toNat ≠ symtabCommand := fun same =>
    kind (UInt32.toNat_inj.mp same)
  unfold readCommand
  rw [read, if_neg other]

/-- Commands of other kinds do nothing, so reading goes on behind them. -/
theorem forM_behind_others (others : ∀ command ∈ commands, command.kind ≠ 2)
    (rest : List LoadCommand) :
    ((commands ++ rest).forM fun command =>
        layout.readCommand file ⟨(command.write layout.order).toArray⟩) =
      rest.forM fun command =>
        layout.readCommand file ⟨(command.write layout.order).toArray⟩ := by
  induction commands with
  | nil => rfl
  | cons command commands ih =>
    change (do
      layout.readCommand file ⟨(command.write layout.order).toArray⟩
      (commands ++ rest).forM fun command =>
        layout.readCommand file ⟨(command.write layout.order).toArray⟩) = _
    rw [readCommand_other (others command (.head _)),
      ih fun command found => others command (.tail _ found)]
    rfl

/-- The command of a table leads to it. -/
theorem readCommand_table (fits : table.Fits) :
    layout.readCommand file ⟨((layout.tableCommand table).write layout.order).toArray⟩ =
      layout.readTable file table := by
  have whole := Holds.whole ((layout.tableCommand table).write layout.order)
  have kind := whole.left.field (show (2 : UInt32).toNat < ByteOrder.bound 4 by decide)
  have body := whole.right.right
  have offset := body.left.field fits.offset
  have count := body.right.left.field fits.count
  have namesOffset := body.right.right.left.field fits.namesOffset
  have namesSize := body.right.right.right.field fits.namesSize
  simp only [ByteOrder.length_bytes, Nat.zero_add, Nat.reduceAdd] at offset count namesOffset namesSize
  have size : (ByteArray.mk ((layout.tableCommand table).write layout.order).toArray).size = 24 := by
    change ((layout.tableCommand table).write layout.order).toArray.size = 24
    simp
  unfold readCommand
  rw [kind, size, offset, count, namesOffset, namesSize]
  rfl

/-- Commands that stand one behind the other are read one after the other. -/
theorem readCommands_write (fits : ∀ command ∈ commands, command.size < 4294967296) :
    layout.readCommands file commands.length
        ⟨(commands.flatMap (·.write layout.order)).toArray⟩ =
      commands.forM fun command =>
        layout.readCommand file ⟨(command.write layout.order).toArray⟩ := by
  induction commands with
  | nil => rfl
  | cons command commands ih =>
    have whole := Holds.whole (command.write layout.order ++
      commands.flatMap (·.write layout.order))
    have size : (ByteArray.mk (command.write layout.order ++
        commands.flatMap (·.write layout.order)).toArray).size =
        command.size + (commands.flatMap (·.write layout.order)).length := by
      change (command.write layout.order ++ _).toArray.size = _
      simp
    have first := whole.left.right.left.field (fits command (.head _))
    have here := whole.left.range?
    have behind := whole.right.extract
    simp only [ByteOrder.length_bytes, LoadCommand.length_write, Nat.zero_add] at first here behind
    have least : 8 ≤ command.size := Nat.le_add_right 8 _
    rw [List.flatMap_cons, List.length_cons, readCommands]
    dsimp only
    rw [size, first, here, behind, if_neg (by omega), if_neg (by omega),
      ih fun command found => fits command (.tail _ found)]
    rfl

end Commands

section Entries

/-- A name is read up to the NUL behind it. -/
theorem nameBytes?_eq {offset : Nat} {rest : List UInt8}
    (names : Holds file (table.namesOffset + offset) (symbol.nameBytes ++ 0 :: rest))
    (ends : offset + (symbol.nameBytes ++ 0 :: rest).length = table.namesSize)
    (free : 0 ∉ symbol.nameBytes) :
    nameBytes? file table offset = some symbol.name.toUTF8 := by
  have inside : table.namesOffset + offset ≤ table.namesOffset + table.namesSize := by omega
  have length : table.namesOffset + table.namesSize - (table.namesOffset + offset) =
      (symbol.nameBytes ++ 0 :: rest).length := by omega
  have found : (symbol.nameBytes ++ 0 :: rest).findIdx? (· == 0) = some symbol.nameBytes.length := by
    have before : symbol.nameBytes.findIdx? (· == 0) = none := by
      rw [List.findIdx?_eq_none_iff]
      intro byte hbyte
      have other : byte ≠ 0 := fun zero => free (zero ▸ hbyte)
      simpa using other
    simp [List.findIdx?_append, before, List.findIdx?_cons]
  have text : (ByteArray.mk (symbol.nameBytes ++ 0 :: rest).toArray).extract 0
      symbol.nameBytes.length = symbol.name.toUTF8 := by
    have name := (Holds.whole (symbol.nameBytes ++ 0 :: rest)).left.extract
    rw [Nat.zero_add] at name
    rw [name]
    rfl
  have passed : (guard (table.namesOffset + offset ≤ table.namesOffset + table.namesSize) :
      Option Unit) = some () := if_pos inside
  dsimp only [nameBytes?]
  rw [passed, length]
  simp only [names.range?, Option.bind_eq_bind, Option.bind_some, found]
  exact congrArg some text

theorem fromUTF8?_nameBytes (text : String) : String.fromUTF8? text.toUTF8 = some text := by
  exact dif_pos text.isValidUTF8

/-- An entry of the table is read as the symbol that it was written for. -/
theorem entry_eq {index offset : Nat} {rest : List UInt8}
    (entry : Holds file (table.offset + index * layout.word.entrySize)
      (layout.writeEntry offset symbol))
    (names : Holds file (table.namesOffset + offset) (symbol.nameBytes ++ 0 :: rest))
    (ends : offset + (symbol.nameBytes ++ 0 :: rest).length = table.namesSize)
    (small : table.namesSize < 4294967296) (free : 0 ∉ symbol.nameBytes)
    (address : layout.word = .word32 → symbol.address.toNat < 4294967296) :
    layout.entry file table index = .ok symbol := by
  have value : symbol.address.toNat < ByteOrder.bound layout.word.valueSize := by
    cases word : layout.word with
    | word32 => exact address word
    | word64 => exact symbol.address.toNat_lt
  have readOffset := entry.left.field (show offset < 4294967296 by omega)
  have readType := entry.right.left.field symbol.typeCode.toNat_lt
  have readValue := entry.right.right.right.right.field value
  simp only [ByteOrder.length_bytes, Nat.add_assoc, Nat.reduceAdd] at readOffset readType readValue
  simp only [Nat.add_assoc, ImageLayout.entry, readOffset, readType, readValue,
    nameBytes?_eq names ends free, fromUTF8?_nameBytes]
  simp
  rfl

/-- Entries that give records add them in their order. -/
theorem forM_readEntry {indices : List Nat}
    (entries : indices.map (layout.entry file table) = symbols.map .ok) (before : ImageSymbols) :
    indices.forM (layout.readEntry file table) before =
      .ok () { before with records := before.records ++ symbols.toArray } := by
  induction indices generalizing symbols before with
  | nil =>
    cases symbols with
    | nil => simp; rfl
    | cons symbol symbols => cases entries
  | cons index indices ih =>
    cases symbols with
    | nil => cases entries
    | cons symbol symbols =>
      rw [List.map_cons, List.map_cons] at entries
      obtain ⟨first, others⟩ := List.cons.inj entries
      have here : layout.readEntry file table index before =
          .ok () { before with records := before.records.push symbol } := by
        change EStateM.Result.ok () _ = _
        rw [first]
      have later : (index :: indices).forM (layout.readEntry file table) before =
          indices.forM (layout.readEntry file table) _ := Load.bind_ok here
      rw [later, ih others]
      simp

/-- A symbol behind some others is read from the entry and the name behind theirs. -/
theorem entry_behind {before after : List Record}
    (entries : Holds file table.offset (layout.writeEntries 1 (before ++ symbol :: after)))
    (names : Holds file table.namesOffset (Record.nameTable (before ++ symbol :: after)))
    (namesSize : table.namesSize = (Record.nameTable (before ++ symbol :: after)).length)
    (small : table.namesSize < 4294967296) (free : 0 ∉ symbol.nameBytes)
    (address : layout.word = .word32 → symbol.address.toNat < 4294967296) :
    layout.entry file table before.length = .ok symbol := by
  obtain ⟨rest, split⟩ : ∃ rest, Record.nameTable (before ++ symbol :: after) =
      (0 :: Record.writeNames before) ++ (symbol.nameBytes ++ 0 :: rest) := by
    simp only [Record.nameTable, Record.writeNames_append, Record.writeNames_cons,
      List.cons_append, List.append_assoc]
    exact ⟨_, rfl⟩
  rw [split] at names namesSize
  rw [writeEntries_append] at entries
  have entry := entries.right.left
  have name := names.right
  rw [length_writeEntries] at entry
  apply entry_eq entry _ _ small free address
  · exact rest
  · simpa [Nat.add_comm] using name
  · simp only [namesSize, List.length_append, List.length_cons]
    omega

/-- The entries of a table, with the names they lead to, are read as its symbols. -/
theorem entries_eq (count : table.count = symbols.length)
    (entries : Holds file table.offset (layout.writeEntries 1 symbols))
    (names : Holds file table.namesOffset (Record.nameTable symbols))
    (namesSize : table.namesSize = (Record.nameTable symbols).length)
    (small : table.namesSize < 4294967296) (free : ∀ symbol ∈ symbols, 0 ∉ symbol.nameBytes)
    (addresses : layout.word = .word32 → ∀ symbol ∈ symbols, symbol.address.toNat < 4294967296) :
    (List.range table.count).map (layout.entry file table) = symbols.map .ok := by
  apply List.ext_getElem
  · simp [count]
  intro index _ inside
  rw [List.length_map] at inside
  -- the entry at an index stands behind the entries of all symbols before it
  have split : symbols = symbols.take index ++ symbols[index] :: symbols.drop (index + 1) := by simp
  have length : (symbols.take index).length = index := by
    rw [List.length_take]
    omega
  have member : symbols[index] ∈ symbols := List.getElem_mem inside
  rw [split] at entries names namesSize
  have here := entry_behind entries names namesSize small (free _ member) fun word =>
    addresses word _ member
  rw [length] at here
  simpa using here

/-- A table that is held as it was written gives its symbols back. -/
theorem readTable_eq (count : table.count = symbols.length)
    (entries : Holds file table.offset (layout.writeEntries 1 symbols))
    (names : Holds file table.namesOffset (Record.nameTable symbols))
    (namesSize : table.namesSize = (Record.nameTable symbols).length)
    (small : table.namesSize < 4294967296) (free : ∀ symbol ∈ symbols, 0 ∉ symbol.nameBytes)
    (addresses : layout.word = .word32 → ∀ symbol ∈ symbols, symbol.address.toNat < 4294967296)
    (before : ImageSymbols) :
    layout.readTable file table before =
      .ok () { before with records := before.records ++ symbols.toArray } := by
  have range := entries.range?
  rw [length_writeEntries, ← count] at range
  unfold readTable
  rw [if_neg (by simp [range])]
  exact forM_readEntry (entries_eq count entries names namesSize small free addresses) before

end Entries

section File

/-- The parts of the bytes of an image. -/
theorem holds_write (layout : ImageLayout) (image : Image) :
    Holds (layout.write image) 0 (layout.writeHeader
      (layout.writeCommands image (layout.tableOf image)).length (commandsLength image) ++
      ((layout.writeCommands image (layout.tableOf image)).flatMap (·.write layout.order) ++
        (layout.writeEntries 1 image.symbols ++ Record.nameTable image.symbols))) :=
  Holds.whole _

/-- The magic number of an image tells how wide its words are. -/
theorem format_write (layout : ImageLayout) (image : Image) :
    FileFormat.of (layout.write image) = .ok layout.word.format := by
  have opening : (layout.write image).extract 0 16 = ⟨layout.writeOpening.toArray⟩ := by
    have held := (holds_write layout image).left.left.extract
    rwa [length_writeOpening] at held
  have size := (holds_write layout image).left.left.le_size
  rw [length_writeOpening] at size
  unfold FileFormat.of
  rw [if_neg (by omega), opening]
  obtain ⟨word, order⟩ := layout
  cases word <;> cases order <;> rfl

theorem orderOf_write (layout : ImageLayout) (image : Image) :
    orderOf (layout.write image) = layout.order := by
  obtain ⟨word, order⟩ := layout
  cases word <;> cases order <;> rfl

theorem fits_tableOf (fits : image.Fits layout) : (layout.tableOf image).Fits := by
  have size := fits.size
  rw [size_write] at size
  constructor
  · simp only [tableOf]
    omega
  · have room : image.symbols.length ≤ image.symbols.length * layout.word.entrySize :=
      Nat.le_mul_of_pos_right _ (by cases layout.word <;> decide)
    simp only [tableOf]
    omega
  · simp only [tableOf]
    omega
  · simp only [tableOf]
    omega

/-- Among all commands of an image only the one of its table reads anything. -/
theorem readCommands_image (fits : image.Fits layout) (file : ByteArray) :
    layout.readCommands file (layout.writeCommands image (layout.tableOf image)).length
        ⟨((layout.writeCommands image (layout.tableOf image)).flatMap
          (·.write layout.order)).toArray⟩ =
      layout.readTable file (layout.tableOf image) := by
  have small : ∀ command ∈ layout.writeCommands image (layout.tableOf image),
      command.size < 4294967296 := by
    intro command member
    have le := LoadCommand.size_le_sizes member
    have size := fits.size
    rw [sizes_writeCommands] at le
    rw [size_write] at size
    omega
  have before : ∀ command ∈ image.before, command.kind ≠ 2 := fun command member =>
    fits.others command (List.mem_append_left _ member)
  have after : ∀ command ∈ image.after, command.kind ≠ 2 := fun command member =>
    fits.others command (List.mem_append_right _ member)
  have last : (image.after.forM fun command =>
      layout.readCommand file ⟨(command.write layout.order).toArray⟩) = pure () := by
    rw [← List.append_nil image.after, forM_behind_others after []]
    rfl
  rw [readCommands_write small, writeCommands, forM_behind_others before]
  change (do
    layout.readCommand file
      ⟨((layout.tableCommand (layout.tableOf image)).write layout.order).toArray⟩
    image.after.forM fun command =>
      layout.readCommand file ⟨(command.write layout.order).toArray⟩) = _
  rw [last, readCommand_table (fits_tableOf fits)]
  exact bind_pure _

/-- The table of an image gives its symbols back. -/
theorem readTable_image (fits : image.Fits layout) (before : ImageSymbols) :
    layout.readTable (layout.write image) (layout.tableOf image) before =
      .ok () { before with records := before.records ++ image.symbols.toArray } := by
  have parts := (holds_write layout image).right.right
  simp only [length_writeHeader, length_flatMap_write, sizes_writeCommands, Nat.zero_add]
    at parts
  have names := parts.right
  rw [length_writeEntries] at names
  exact readTable_eq rfl parts.left names rfl (fits_tableOf fits).namesSize fits.names
    fits.addresses before

/-- An image that was written gives its symbols back. -/
theorem readImage_write (fits : image.Fits layout) :
    layout.readImage (layout.write image) {} = .ok () ⟨image.symbols.toArray, 1, #[]⟩ := by
  have size := fits.size
  rw [size_write] at size
  have few := layout.length_writeCommands_le image (layout.tableOf image)
  have whole := holds_write layout image
  have count := whole.left.right.left.field
    (show (layout.writeCommands image (layout.tableOf image)).length < 4294967296 by omega)
  have length := whole.left.right.right.left.field
    (show commandsLength image < 4294967296 by omega)
  have commands := whole.right.left.range?
  simp only [length_writeOpening, length_writeHeader, ByteOrder.length_bytes,
    length_flatMap_write, sizes_writeCommands, Nat.zero_add, Nat.reduceAdd]
    at count length commands
  unfold readImage
  rw [if_neg (by rw [size_write]; omega)]
  simp only [count, length, commands, readCommands_image fits]
  rw [Load.bind_ok (readTable_image fits {})]
  simp
  rfl

/-- An image that was written is no universal file. -/
theorem loadFile_write (layout : ImageLayout) (image : Image) :
    loadFile (layout.write image) = layout.readImage (layout.write image) := by
  have format := format_write layout image
  have order := orderOf_write layout image
  unfold loadFile loadImage
  rw [format, order]
  obtain ⟨word, _⟩ := layout
  cases word <;> rfl

end File
end ImageLayout

/-- The symbols of an image that was laid out are read back from it, in the order of the
table and without a warning. -/
theorem read_write (layout : ImageLayout) (image : Image) (fits : image.Fits layout) :
    ImageSymbols.read (layout.write image) = (.ok ⟨image.symbols.toArray, 1, #[]⟩, []) := by
  have run := ImageLayout.readImage_write fits
  rw [← ImageLayout.loadFile_write] at run
  exact ImageSymbols.read_of_loaded run

/-- An image with commands around the one that leads to its table, and an empty name among
its names. -/
def surroundedTable : Image where
  before := [⟨0x1b, [1, 2, 3, 4, 5, 6, 7, 8]⟩]
  symbols := [⟨"_Z1fv", 0x0f, 0x100000040⟩, ⟨"", 0x01, 0⟩, ⟨"_größe", 0x20, 7⟩]
  after := [⟨0x80000028, []⟩]

theorem fits_surroundedTable : surroundedTable.Fits ⟨.word64, .big⟩ where
  others := by decide
  names := by decide
  addresses := fun word => by cases word
  size := by decide +kernel

theorem read_write_surroundedTable :
    ImageSymbols.read (ImageLayout.write ⟨.word64, .big⟩ surroundedTable) =
      (.ok ⟨#[⟨"_Z1fv", 0x0f, 0x100000040⟩, ⟨"", 0x01, 0⟩, ⟨"_größe", 0x20, 7⟩], 1, #[]⟩, []) :=
  read_write ⟨.word64, .big⟩ surroundedTable fits_surroundedTable

example : ImageLayout.write ⟨.word32, .little⟩ ⟨[], [⟨"f", 0x0f, 0x40⟩], []⟩ = oneSymbol := rfl

end Unmangle
