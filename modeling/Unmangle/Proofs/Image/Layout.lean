import Unmangle.Image.Symbols
import Unmangle.Proofs.Image.Field

/-!
# How an image is laid out

An image is its header, its commands, the entries of its symbol table and the names of its
symbols, one behind the other. One command leads to the table, and others may stand around
it. The entries lead to the names, which end at a NUL each.
-/
namespace Unmangle

/-- A command of any kind, with what stands behind its kind and its size. -/
structure LoadCommand where
  kind : UInt32
  body : List UInt8
  deriving Repr, DecidableEq, Inhabited

namespace LoadCommand

def size (command : LoadCommand) : Nat :=
  8 + command.body.length

def write (order : ByteOrder) (command : LoadCommand) : List UInt8 :=
  order.bytes 4 command.kind.toNat ++ (order.bytes 4 command.size ++ command.body)

@[simp]
theorem length_write (order : ByteOrder) (command : LoadCommand) :
    (command.write order).length = command.size := by
  simp [write, size]
  omega

def sizes : List LoadCommand → Nat
  | [] => 0
  | command :: commands => command.size + sizes commands

@[simp]
theorem sizes_append (commands commands' : List LoadCommand) :
    sizes (commands ++ commands') = sizes commands + sizes commands' := by
  induction commands with
  | nil => exact (Nat.zero_add _).symm
  | cons command commands ih => rw [List.cons_append, sizes, sizes, ih, Nat.add_assoc]

theorem size_le_sizes {command : LoadCommand} {commands : List LoadCommand}
    (member : command ∈ commands) : command.size ≤ sizes commands := by
  obtain ⟨before, after, rfl⟩ := List.append_of_mem member
  simp only [sizes_append, sizes]
  omega

end LoadCommand

/-- An image with one symbol table, and the commands before and behind the one that leads to
it. -/
structure Image where
  before : List LoadCommand
  symbols : List Record
  after : List LoadCommand
  deriving Repr, DecidableEq, Inhabited

namespace Record

def nameBytes (symbol : Record) : List UInt8 :=
  symbol.name.toUTF8.data.toList

/-- The names of some symbols, with a NUL behind each. -/
def writeNames (symbols : List Record) : List UInt8 :=
  symbols.flatMap fun symbol => symbol.nameBytes ++ [0]

theorem writeNames_append (symbols symbols' : List Record) :
    writeNames (symbols ++ symbols') = writeNames symbols ++ writeNames symbols' := by
  simp [writeNames]

theorem writeNames_cons (symbol : Record) (symbols : List Record) :
    writeNames (symbol :: symbols) = symbol.nameBytes ++ (0 :: writeNames symbols) := by
  simp [writeNames]

/-- The names begin with an empty one, and are filled up with NULs to a multiple of four. -/
def nameTable (symbols : List Record) : List UInt8 :=
  let names := 0 :: writeNames symbols
  names ++ List.replicate ((4 - names.length % 4) % 4) 0

end Record

namespace ImageLayout

variable (layout : ImageLayout)

/-- The beginning of an image, up to its type. -/
def writeOpening : List UInt8 :=
  let magic := match layout.word with
    | .word32 => 0xfeedface
    | .word64 => 0xfeedfacf
  let processor := match layout.word with
    | .word32 => 0x7
    | .word64 => 0x01000007
  layout.order.bytes 4 magic ++ (layout.order.bytes 4 processor ++
    (layout.order.bytes 4 3 ++ layout.order.bytes 4 1))

/-- The header of an image with so many commands of so many bytes in all. -/
def writeHeader (count length : Nat) : List UInt8 :=
  let reserved := match layout.word with
    | .word32 => []
    | .word64 => layout.order.bytes 4 0
  layout.writeOpening ++ (layout.order.bytes 4 count ++ (layout.order.bytes 4 length ++
    (layout.order.bytes 4 0 ++ reserved)))

/-- The command that leads to a symbol table. -/
def tableCommand (table : SymbolTable) : LoadCommand where
  kind := 2
  body := layout.order.bytes 4 table.offset ++ (layout.order.bytes 4 table.count ++
    (layout.order.bytes 4 table.namesOffset ++ layout.order.bytes 4 table.namesSize))

/-- The entry of a symbol whose name begins at an offset in the names. -/
def writeEntry (nameOffset : Nat) (symbol : Record) : List UInt8 :=
  layout.order.bytes 4 nameOffset ++ (layout.order.bytes 1 symbol.typeCode.toNat ++
    (layout.order.bytes 1 1 ++ (layout.order.bytes 2 0 ++
      layout.order.bytes layout.word.valueSize symbol.address.toNat)))

/-- The entries of symbols whose names stand one behind the other from an offset on. -/
def writeEntries : Nat → List Record → List UInt8
  | _, [] => []
  | nameOffset, symbol :: symbols =>
    layout.writeEntry nameOffset symbol ++
      writeEntries (nameOffset + (symbol.nameBytes.length + 1)) symbols

/-- The commands of an image, with the table at a place. -/
def writeCommands (image : Image) (table : SymbolTable) : List LoadCommand :=
  image.before ++ layout.tableCommand table :: image.after

def commandsLength (image : Image) : Nat :=
  LoadCommand.sizes image.before + (24 + LoadCommand.sizes image.after)

/-- Where the symbol table stands. -/
def tableOf (image : Image) : SymbolTable where
  offset := layout.word.headerSize + commandsLength image
  count := image.symbols.length
  namesOffset := layout.word.headerSize + commandsLength image +
    image.symbols.length * layout.word.entrySize
  namesSize := (Record.nameTable image.symbols).length

/-- The bytes of an image. -/
def write (image : Image) : ByteArray :=
  let commands := layout.writeCommands image (layout.tableOf image)
  let header := layout.writeHeader commands.length (commandsLength image)
  ⟨(header ++ (commands.flatMap (·.write layout.order) ++
    (layout.writeEntries 1 image.symbols ++ Record.nameTable image.symbols))).toArray⟩

@[simp]
theorem length_writeOpening : layout.writeOpening.length = 16 := by
  simp [writeOpening]

@[simp]
theorem length_writeHeader (count length : Nat) :
    (layout.writeHeader count length).length = layout.word.headerSize := by
  cases word : layout.word <;> simp [writeHeader, WordSize.headerSize, word]

@[simp]
theorem size_tableCommand (table : SymbolTable) : (layout.tableCommand table).size = 24 := by
  simp [tableCommand, LoadCommand.size]

@[simp]
theorem length_writeEntry (nameOffset : Nat) (symbol : Record) :
    (layout.writeEntry nameOffset symbol).length = layout.word.entrySize := by
  cases word : layout.word <;>
    simp [writeEntry, WordSize.valueSize, WordSize.entrySize, word]

@[simp]
theorem length_writeEntries (nameOffset : Nat) (symbols : List Record) :
    (layout.writeEntries nameOffset symbols).length =
      symbols.length * layout.word.entrySize := by
  induction symbols generalizing nameOffset with
  | nil => simp [writeEntries]
  | cons symbol symbols ih =>
    simp [writeEntries, ih, Nat.succ_mul]
    omega

/-- The entries behind some others begin where the names of those end. -/
theorem writeEntries_append (nameOffset : Nat) (symbols symbols' : List Record) :
    layout.writeEntries nameOffset (symbols ++ symbols') =
      layout.writeEntries nameOffset symbols ++
        layout.writeEntries (nameOffset + (Record.writeNames symbols).length) symbols' := by
  induction symbols generalizing nameOffset with
  | nil => rfl
  | cons symbol symbols ih =>
    have ends : nameOffset + (symbol.nameBytes.length + 1) + (Record.writeNames symbols).length =
        nameOffset + (Record.writeNames (symbol :: symbols)).length := by
      simp [Record.writeNames_cons]
      omega
    simp [writeEntries, ih, ends]

theorem length_flatMap_write (order : ByteOrder) (commands : List LoadCommand) :
    (commands.flatMap (·.write order)).length = LoadCommand.sizes commands := by
  induction commands with
  | nil => rfl
  | cons command commands ih =>
    rw [List.flatMap_cons, List.length_append, LoadCommand.length_write, ih, LoadCommand.sizes]

theorem sizes_writeCommands (image : Image) (table : SymbolTable) :
    LoadCommand.sizes (layout.writeCommands image table) = commandsLength image := by
  simp [writeCommands, commandsLength, LoadCommand.sizes]

/-- The length of an image is that of its parts. -/
theorem size_write (image : Image) :
    (layout.write image).size = layout.word.headerSize + (commandsLength image +
      (image.symbols.length * layout.word.entrySize +
        (Record.nameTable image.symbols).length)) := by
  change (layout.write image).data.toList.length = _
  simp only [write, List.length_append, length_writeHeader, length_writeEntries,
    length_flatMap_write, sizes_writeCommands]

/-- A command takes room, so there are no more commands than bytes. -/
theorem length_writeCommands_le (image : Image) (table : SymbolTable) :
    (layout.writeCommands image table).length ≤ commandsLength image := by
  rw [← layout.sizes_writeCommands image table]
  generalize layout.writeCommands image table = commands
  induction commands with
  | nil => exact Nat.le_refl 0
  | cons command commands ih =>
    simp only [List.length_cons, LoadCommand.sizes, LoadCommand.size] at ih ⊢
    omega

end ImageLayout
end Unmangle
