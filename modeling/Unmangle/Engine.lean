import Unmangle.Options
import Unmangle.Bytes.Utf8
import Unmangle.Grammar.Parse
import Unmangle.Spelling.Render

/-!
# The engine

An engine reads symbols one after another in one workspace. It empties the
workspace after every symbol, whatever became of it, so an answer depends on the
symbol and the options alone.
-/
namespace Unmangle

/-- Options, and the workspace that symbols are read in. -/
structure Engine where
  options : Options := {}
  /-- The number of productions being read. It is zero between calls. -/
  level : Nat := 0
  work : Workspace := {}
  deriving Inhabited

/-- Where a caller wants the result: a buffer for the text, a slot for its length. -/
structure Slots where
  buffer : Option String := none
  length : Option Nat := none
  deriving Repr, DecidableEq, Inhabited

namespace Engine

def reset (engine : Engine) : Engine :=
  { engine with work := engine.work.reset }

/-- Spell a parsed symbol under the limits of the options. -/
def spell (options : Options) (symbol : ByteArray) (tree : Tree) (root : NodeId) :
    Except Fault String := do
  let out ← render ⟨options.maxRecursion, options.maxOutputLen⟩ symbol tree root
  if options.maxOutputLen < out.size then throw .tooLong
  return Utf8.text out

/-- Read and spell a symbol. The workspace is left as the parse left it. -/
def parseAndSpell (engine : Engine) (symbol : ByteArray) : Except Fault String × Engine :=
  match parseSymbol engine.options.maxRecursion engine.level engine.work symbol with
  | .ok root state =>
    (spell engine.options symbol state.work.tree root,
      { engine with level := state.level, work := state.work })
  | .error fault state =>
    (.error fault, { engine with level := state.level, work := state.work })

/-- The text of a call that asks for these slots, before it is delivered. -/
def answer (engine : Engine) (name : String) (slots : Slots) : Except Fault String × Engine :=
  if name.isEmpty || (slots.buffer.isSome && slots.length.isNone) then
    (.error .invalidArguments, engine)
  else if engine.options.maxSymbolLen < name.utf8ByteSize then
    (.error .tooLong, engine)
  else
    let (outcome, engine) := engine.parseAndSpell name.toUTF8
    (outcome, engine.reset)

/-- Demangle into the slots that were given. They change only on success. -/
def demangleTo (engine : Engine) (name : String) (slots : Slots) :
    Except Fault Unit × Slots × Engine :=
  match engine.answer name slots with
  | (.ok text, engine) =>
    (.ok (), ⟨slots.buffer.map fun _ => text, slots.length.map fun _ => text.utf8ByteSize⟩, engine)
  | (.error fault, engine) => (.error fault, slots, engine)

/-- The demangled form of a symbol. -/
def demangle (engine : Engine) (name : String) : Except Fault String × Engine :=
  match engine.demangleTo name ⟨some "", some 0⟩ with
  | (.ok (), slots, engine) => (.ok (slots.buffer.getD ""), engine)
  | (.error fault, _, engine) => (.error fault, engine)

end Engine
end Unmangle
