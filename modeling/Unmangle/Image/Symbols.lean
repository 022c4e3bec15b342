import Unmangle.Image.Field
import Unmangle.Image.Format
import Unmangle.Table.Record

/-!
# Symbols of an image

The load commands of an image lead to its symbol tables. An entry with a name that
cannot be read is passed over with a warning, and all others become records in the
order of the table. What was read before a fault stays.
-/
namespace Unmangle

/-- What was read from a file so far. -/
structure ImageSymbols where
  records : Array Record := #[]
  images : Nat := 0
  lines : Array LogEntry := #[]
  deriving Repr, DecidableEq, Inhabited

abbrev Load := EStateM ImageFault ImageSymbols

/-- The size of the words in an image. -/
inductive WordSize
  | word32
  | word64
  deriving Repr, DecidableEq, Inhabited

namespace WordSize

def headerSize : WordSize → Nat
  | word32 => 28
  | word64 => 32

def entrySize : WordSize → Nat
  | word32 => 12
  | word64 => 16

def valueSize : WordSize → Nat
  | word32 => 4
  | word64 => 8

end WordSize

/-- How the fields of an image are read. -/
structure ImageLayout where
  word : WordSize
  order : ByteOrder
  deriving Repr, DecidableEq, Inhabited

/-- Where an image keeps a symbol table and the names of its symbols. -/
structure SymbolTable where
  offset : Nat
  count : Nat
  namesOffset : Nat
  namesSize : Nat
  deriving Repr, DecidableEq, Inhabited

/-- Why an entry of a symbol table is passed over. -/
inductive EntryFault
  | nameOffset
  | nameText
  deriving Repr, DecidableEq, Inhabited

/-- The warning for the entry at a place of its table. -/
def EntryFault.line (fault : EntryFault) (index : Nat) : String :=
  "[macho::parse_symtab] Symbol " ++ Nat.repr index ++
    match fault with
    | nameOffset => ": Invalid Mach-O symbol name offset."
    | nameText => " isn't valid utf-8."

namespace ImageLayout

variable (layout : ImageLayout)

/-- The bytes of a name: from its start to the first NUL before the end of the
names. -/
def nameBytes? (image : ByteArray) (table : SymbolTable) (nameOffset : Nat) : Option ByteArray := do
  let start := table.namesOffset + nameOffset
  let stop := table.namesOffset + table.namesSize
  guard (start ≤ stop)
  let bytes ← range? image start (stop - start)
  let length ← bytes.data.toList.findIdx? (· == 0)
  return bytes.extract 0 length

/-- The record of an entry of a table. -/
def entry (image : ByteArray) (table : SymbolTable) (index : Nat) : Except EntryFault Record := do
  let start := table.offset + index * layout.word.entrySize
  let some bytes := nameBytes? image table (layout.order.field image start 4)
    | throw .nameOffset
  let some name := String.fromUTF8? bytes
    | throw .nameText
  return {
    name := name
    typeCode := UInt8.ofNat (layout.order.field image (start + 4) 1)
    address := UInt64.ofNat (layout.order.field image (start + 8) layout.word.valueSize) }

/-- Keep the record of an entry, or the warning that it has none. -/
def readEntry (image : ByteArray) (table : SymbolTable) (index : Nat) : Load Unit :=
  modify fun symbols =>
    match layout.entry image table index with
    | .ok record => { symbols with records := symbols.records.push record }
    | .error fault =>
      { symbols with lines := symbols.lines.push ⟨fault.line index, .warning⟩ }

/-- Every entry of a table, in order, if the table lies in the image. -/
def readTable (image : ByteArray) (table : SymbolTable) : Load Unit := do
  if (range? image table.offset (table.count * layout.word.entrySize)).isNone then
    throw .symbolTable
  (List.range table.count).forM (layout.readEntry image table)

def symtabCommand : Nat := 2

/-- One command, from its first byte. -/
def readCommand (image command : ByteArray) : Load Unit := do
  if layout.order.field command 0 4 = symtabCommand then
    if command.size < 24 then throw .symtabSize
    layout.readTable image {
      offset := layout.order.field command 8 4
      count := layout.order.field command 12 4
      namesOffset := layout.order.field command 16 4
      namesSize := layout.order.field command 20 4 }

/-- A number of commands, one behind the other. -/
def readCommands (image : ByteArray) : Nat → ByteArray → Load Unit
  | 0, _ => pure ()
  | count + 1, commands => do
    if commands.size < 8 then throw .commandHeader
    let size := layout.order.field commands 4 4
    if size < 8 then throw .commandSize
    let some command := range? commands 0 size
      | throw .commandSize
    layout.readCommand image command
    readCommands image count (commands.extract size commands.size)

/-- A whole image: its header, and the commands behind it. -/
def readImage (image : ByteArray) : Load Unit := do
  let headerSize := layout.word.headerSize
  if image.size < headerSize then throw .header
  let count := layout.order.field image 16 4
  let some commands := range? image headerSize (layout.order.field image 20 4)
    | throw .commandTable
  layout.readCommands image count commands
  modify fun symbols => { symbols with images := symbols.images + 1 }

end ImageLayout

/-- The order that the first byte of an image's magic number shows. -/
def ImageLayout.orderOf (image : ByteArray) : ByteOrder :=
  if image[0]? = some 0xfe then .big else .little

/-- A file that holds one image. -/
def loadImage (image : ByteArray) : Load Unit := do
  match FileFormat.of image with
  | .error fault => throw fault
  | .ok .machO32 => ImageLayout.readImage ⟨.word32, ImageLayout.orderOf image⟩ image
  | .ok .machO64 => ImageLayout.readImage ⟨.word64, ImageLayout.orderOf image⟩ image
  | .ok format => throw (.unsupported format)

/-- The width of the offsets in a file of several images, and of its table's
entries. -/
def sliceField : WordSize → Nat
  | .word32 => 4
  | .word64 => 8

def sliceEntrySize : WordSize → Nat
  | .word32 => 20
  | .word64 => 32

/-- One image of several, by its place in the table. -/
def loadSlice (word : WordSize) (file : ByteArray) (index : Nat) : Load Unit := do
  let start := 8 + index * sliceEntrySize word
  let width := sliceField word
  let offset := ByteOrder.big.field file (start + 8) width
  let size := ByteOrder.big.field file (start + 8 + width) width
  let some slice := range? file offset size
    | throw .sliceRange
  loadImage slice

/-- A file of several images, in the order of its table. -/
def loadSlices (word : WordSize) (file : ByteArray) : Load Unit := do
  let count := ByteOrder.big.field file 4 4
  if (range? file 8 (count * sliceEntrySize word)).isNone then throw .sliceCount
  (List.range count).forM (loadSlice word file)

/-- A file of any kind. -/
def loadFile (file : ByteArray) : Load Unit := do
  match FileFormat.of file with
  | .error fault => throw fault
  | .ok .machOFat32 => loadSlices .word32 file
  | .ok .machOFat64 => loadSlices .word64 file
  | .ok _ => loadImage file

/-- The symbols of a file, and the warnings that came up while it was read. -/
def ImageSymbols.read (file : ByteArray) : Except ImageFault ImageSymbols × List LogEntry :=
  match loadFile file {} with
  | .ok () symbols => (.ok symbols, symbols.lines.toList)
  | .error fault symbols => (.error fault, symbols.lines.toList)

end Unmangle
