import Unmangle.Engine
import Unmangle.Log.Entry

/-!
# Names in symbol tables

A name of a symbol table is demangled when it has the marker of an encoding. The
type code of its entry says whether it is looked at at all and which decoration
comes off first. A name that is declined stays as it is.
-/
namespace Unmangle

/-- Why a name was left alone. -/
inductive Declined
  | notMangledEncoding
  | invalidMangledName (fault : Fault)
  | notEligible
  deriving Repr, DecidableEq, Inhabited

/-- The text for people. -/
def Declined.message : Declined → String
  | notMangledEncoding => "not a mangled encoding"
  | invalidMangledName fault => "invalid mangled name: " ++ fault.message
  | notEligible => "symbol type is not eligible"

namespace Symbol

/-- Whether a name begins with one to four underscores and `Z`. -/
def isEncoding (name : String) : Bool :=
  let underscores := (name.toList.takeWhile (· == '_')).length
  1 ≤ underscores && underscores ≤ 4 && name.toList[underscores]? == some 'Z'

/-- The highest type code of a symbol that is looked at. -/
def maxEligible : UInt8 := 40

/-- The name without the first of the beginnings that it has. -/
def dropStart (beginnings : List String) (name : String) : String :=
  match beginnings.findSome? fun beginning => beginning.toList.isPrefixOf? name.toList with
  | some rest => String.ofList rest
  | none => name

/-- The name without the first of the endings that it has. -/
def dropEnd (endings : List String) (name : String) : String :=
  match endings.findSome? fun ending => ending.toList.isSuffixOf? name.toList with
  | some rest => String.ofList rest
  | none => name

/-- The name without the decoration that its type code implies. Debugger entries
end in a descriptor, and routines that run before or after the program begin with
a mark of their own. -/
def undecorated (name : String) (typeCode : UInt8) : String :=
  if maxEligible < typeCode then name
  else
    match typeCode.toNat with
    -- absolute symbols, and symbols of a section
    | 0x02 | 0x0e => dropStart ["_GLOBAL__I_", "_GLOBAL__D_"] name
    -- global variables
    | 0x20 => dropEnd [":G"] name
    -- functions
    | 0x24 => dropEnd [":F", ":f"] (dropStart ["_GLOBAL__I"] name)
    -- static variables
    | 0x26 | 0x28 => dropEnd [":S", ":V"] name
    | _ => name

end Symbol

/-- What came of a name: the demangled form or why there is none, and the log lines. -/
structure Attempt where
  outcome : Except Declined String
  lines : List LogEntry := []

namespace Attempt

/-- The name to show for an attempt on a name. -/
def display (attempt : Attempt) (name : String) : String :=
  match attempt.outcome with
  | .ok demangled => demangled
  | .error _ => name

/-- Whether the attempt has a demangled form. -/
def succeeded (attempt : Attempt) : Bool :=
  match attempt.outcome with
  | .ok _ => true
  | .error _ => false

end Attempt

namespace Engine

/-- Demangle a name that has the marker. -/
def attempt (engine : Engine) (name : String) : Attempt × Engine :=
  if Symbol.isEncoding name then
    match engine.demangle name with
    | (.ok demangled, engine) => (⟨.ok demangled, []⟩, engine)
    | (.error fault, engine) =>
      let line := "[demangler] declined '" ++ name ++ "': " ++ fault.message
      (⟨.error (.invalidMangledName fault),
        if engine.options.traceFailures then [⟨line, .trace⟩] else []⟩, engine)
  else
    (⟨.error .notMangledEncoding, []⟩, engine)

def attemptSymbol (engine : Engine) (name : String) (typeCode : UInt8) : Attempt × Engine :=
  if Symbol.maxEligible < typeCode then (⟨.error .notEligible, []⟩, engine)
  else engine.attempt (Symbol.undecorated name typeCode)

end Engine
end Unmangle
