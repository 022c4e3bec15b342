import Unmangle.Log.Entry
import Unmangle.Settings.Basic
import Unmangle.Yaml.Document
import Unmangle.Yaml.Value

/-!
# Reading a configuration

A configuration is a mapping of two sections, each a mapping of its own. What is not
written keeps its default and what is not known is passed over. A text with any
mistake in it sets nothing.
-/
namespace Unmangle

namespace Settings

abbrev Entries := List (Yaml.Node × Yaml.Node)

def valuesOf (entries : Entries) (key : String) : List Yaml.Node :=
  entries.filterMap fun (name, value) =>
    if name.text? = some key.toList then some value else none

/-- The value under a key, or the default if the key is not written. A key that is
written twice has no value. -/
def field? {α : Type} (entries : Entries) (key : String) (read? : Yaml.Node → Option α)
    (default : α) : Option α :=
  match valuesOf entries key with
  | [] => some default
  | [value] => read? value
  | _ => none

/-- The entries of a section of a document. Every key is a scalar. -/
def section? (document node : Yaml.Node) : Option Entries := do
  let entries := (← node.entries?).map fun (name, value) =>
    (document.resolve name, document.resolve value)
  guard (entries.all fun (name, _) => name.text?.isSome)
  return entries

/-- One more than the largest numbers of 32 and of 64 bits. -/
def bound32 : Nat := 0x100000000

def bound64 : Nat := 0x10000000000000000

def natural? (bound : Nat) (node : Yaml.Node) : Option Nat :=
  node.typedText? "tag:yaml.org,2002:int" >>= Yaml.natural? bound

def truth? (node : Yaml.Node) : Option Bool :=
  node.typedText? "tag:yaml.org,2002:bool" >>= Yaml.truth?

/-- The section of the engine. -/
def engine? (document node : Yaml.Node) : Option EngineConfig := do
  let entries ← section? document node
  let default : EngineConfig := {}
  let maxRecursion ← field? entries "max_recursion" (natural? bound32) default.maxRecursion
  let maxSymbolLen ← field? entries "max_symbol_len" (natural? bound64) default.maxSymbolLen
  let maxOutputLen ← field? entries "max_output_len" (natural? bound64) default.maxOutputLen
  let traceFailures ← field? entries "trace_failures" truth? default.traceFailures
  return ⟨maxRecursion, maxSymbolLen, maxOutputLen, traceFailures⟩

/-- The section of the work on tables. -/
def workers? (document node : Yaml.Node) : Option Workers := do
  let entries ← section? document node
  let default : Workers := {}
  let count ← field? entries "worker_threads" (natural? bound64) default.count
  let threshold ← field? entries "parallel_threshold" (natural? bound64) default.threshold
  return ⟨count, threshold⟩

/-- The configuration of a document. -/
def ofNode? (document : Yaml.Node) : Option Config := do
  let entries ← section? document (document.resolve document)
  let engine ← field? entries "demangler" (engine? document) {}
  let workers ← field? entries "pipeline" (workers? document) {}
  return ⟨engine, workers⟩

/-- The white space of Unicode. -/
def isSpace (c : Char) : Bool :=
  let code := c.toNat
  (9 ≤ code && code ≤ 13) || code == 0x20 || code == 0x85 || code == 0xA0 || code == 0x1680 ||
    (0x2000 ≤ code && code ≤ 0x200A) || code == 0x2028 || code == 0x2029 || code == 0x202F ||
    code == 0x205F || code == 0x3000

/-- The configuration of a text, and a warning if it sets nothing for a mistake. A
text of white space sets nothing and is no mistake. -/
def read (text : String) : Config × List LogEntry :=
  if text.toList.all isSpace then ({}, [])
  else
    match Yaml.read? text.toList >>= ofNode? with
    | some config => (config, [])
    | none => ({}, [⟨"Failed to parse config.", .warning⟩])

end Settings
end Unmangle
