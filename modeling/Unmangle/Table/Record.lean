import Unmangle.Symbol

/-!
# Records of a symbol table

A record is a name, its type code and an address. The type code is a byte of flags
and of small numbers: any of its three high bits makes the record one of a
debugger.
-/
namespace Unmangle

/-- An entry of a symbol table. -/
structure Record where
  name : String
  typeCode : UInt8
  address : UInt64 := 0
  deriving Repr, DecidableEq, Inhabited

/-- A field of the type code. -/
inductive TypeFlag
  /-- The record is one of a debugger. -/
  | stab
  /-- The symbol is external, but private to its image. -/
  | privateExternal
  /-- The kind of the symbol. -/
  | kind
  | external
  deriving Repr, DecidableEq, Inhabited

namespace TypeFlag

def all : List TypeFlag := [stab, privateExternal, kind, external]

/-- The bits of a field. -/
def mask : TypeFlag → UInt8
  | stab => 0xe0
  | privateExternal => 0x10
  | kind => 0x0e
  | external => 0x01

end TypeFlag

namespace Record

def hasAll (record : Record) (flag : TypeFlag) : Bool :=
  record.typeCode &&& flag.mask == flag.mask

/-- The fields all of whose bits are set, from the highest. -/
def flags (record : Record) : List TypeFlag :=
  TypeFlag.all.filter record.hasAll

/-- Whether the record is one of a debugger, which any bit of the field shows. -/
def isStab (record : Record) : Bool :=
  record.typeCode &&& TypeFlag.stab.mask != 0

/-- Whether the symbol is external. The bit means something else in a debugger's
record. -/
def isExternal (record : Record) : Bool :=
  !record.isStab && record.hasAll .external

/-- The name to show for an attempt on the record. A record that is not looked at
keeps its decoration. -/
def display (record : Record) (attempt : Attempt) : String :=
  if Symbol.maxEligible < record.typeCode then record.name
  else attempt.display (Symbol.undecorated record.name record.typeCode)

end Record

namespace Engine

def attemptRecord (engine : Engine) (record : Record) : Attempt × Engine :=
  engine.attemptSymbol record.name record.typeCode

end Engine
end Unmangle
