/-!
# Formats of binary files

The first bytes of a file tell its format. Only two of the formats are images with
symbols, for words of either size, and two more hold several images.
-/
namespace Unmangle

/-- A format that the first bytes of a file announce. -/
inductive FileFormat
  | archive
  | dyldCache
  | elf32
  | elf64
  | machO32
  | machO64
  | machOFat32
  | machOFat64
  | coff
  | coffImport
  | xcoff32
  | xcoff64
  deriving Repr, DecidableEq, Inhabited

namespace FileFormat

def name : FileFormat → String
  | archive => "Archive"
  | dyldCache => "DyldCache"
  | elf32 => "Elf32"
  | elf64 => "Elf64"
  | machO32 => "MachO32"
  | machO64 => "MachO64"
  | machOFat32 => "MachOFat32"
  | machOFat64 => "MachOFat64"
  | coff => "Coff"
  | coffImport => "CoffImport"
  | xcoff32 => "Xcoff32"
  | xcoff64 => "Xcoff64"

/-- The beginnings of files, each with its format. None begins another. -/
def magics : List (List UInt8 × FileFormat) := [
  ([0x21, 0x3c, 0x61, 0x72, 0x63, 0x68, 0x3e, 0x0a], archive),
  ([0x64, 0x79, 0x6c, 0x64, 0x5f, 0x76, 0x31, 0x20], dyldCache),
  ([0x7f, 0x45, 0x4c, 0x46, 0x01], elf32),
  ([0x7f, 0x45, 0x4c, 0x46, 0x02], elf64),
  ([0xfe, 0xed, 0xfa, 0xce], machO32),
  ([0xce, 0xfa, 0xed, 0xfe], machO32),
  ([0xfe, 0xed, 0xfa, 0xcf], machO64),
  ([0xcf, 0xfa, 0xed, 0xfe], machO64),
  ([0xca, 0xfe, 0xba, 0xbe], machOFat32),
  ([0xca, 0xfe, 0xba, 0xbf], machOFat64),
  ([0xc4, 0x01], coff),
  ([0x64, 0xaa], coff),
  ([0x41, 0xa6], coff),
  ([0x4c, 0x01], coff),
  ([0x64, 0x86], coff),
  ([0x00, 0x00, 0xff, 0xff, 0x00, 0x00], coffImport),
  ([0x01, 0xdf], xcoff32),
  ([0x01, 0xf7], xcoff64)]

end FileFormat

/-- Why no symbols could be read from a file. -/
inductive ImageFault
  | noMagic
  | unknownMagic
  | sliceCount
  | sliceRange
  | header
  | commandTable
  | commandHeader
  | commandSize
  | symtabSize
  | symbolTable
  /-- The file is well known, but is no image with symbols. -/
  | unsupported (format : FileFormat)
  deriving Repr, DecidableEq, Inhabited

namespace ImageFault

/-- What is wrong with the bytes of the file. -/
def reason : ImageFault → String
  | noMagic => "Could not read file magic"
  | unknownMagic => "Unknown file magic"
  | sliceCount => "Invalid nfat_arch"
  | sliceRange => "Invalid fat arch offset or size"
  | header => "Invalid Mach-O header size or alignment"
  | commandTable => "Invalid Mach-O load command table size"
  | commandHeader => "Invalid Mach-O load command header"
  | commandSize => "Invalid Mach-O load command size"
  | symtabSize => "Invalid Mach-O command size"
  | symbolTable => "Invalid Mach-O symbol table offset or size"
  | unsupported format => format.name

def message : ImageFault → String
  | unsupported format => "unsupported binary format: " ++ format.name
  | fault => "failed to parse object: " ++ fault.reason

end ImageFault

namespace FileFormat

/-- The format of a file. A file too short for any header has none. -/
def of (file : ByteArray) : Except ImageFault FileFormat :=
  if file.size < 16 then .error .noMagic
  else
    let start := (file.extract 0 16).data.toList
    match magics.find? fun (magic, _) => magic.isPrefixOf start with
    | some (_, format) => .ok format
    | none => .error .unknownMagic

end FileFormat
end Unmangle
