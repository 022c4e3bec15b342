import Unmangle.Options
import Unmangle.Table.Workers

/-!
# Settings

What a run of the library can be told: the limits of the engine, and how the work
on a table is shared out. A configuration is what is told in a text. The engine
never reads one, so its section is copied into options.
-/
namespace Unmangle

/-- The limits of the engine and the way in which work is shared out. -/
structure Settings where
  options : Options := {}
  workers : Workers := {}
  deriving Repr, DecidableEq, Inhabited

/-- The section of the engine in a configuration. -/
structure EngineConfig where
  maxRecursion : Nat := Options.maxRecursion {}
  maxSymbolLen : Nat := Options.maxSymbolLen {}
  maxOutputLen : Nat := Options.maxOutputLen {}
  traceFailures : Bool := false
  deriving Repr, DecidableEq, Inhabited

/-- The options that an engine of a configuration has. -/
def EngineConfig.options (config : EngineConfig) : Options where
  maxRecursion := config.maxRecursion
  maxSymbolLen := config.maxSymbolLen
  maxOutputLen := config.maxOutputLen
  traceFailures := config.traceFailures

/-- What a text sets, section by section. -/
structure Config where
  engine : EngineConfig := {}
  workers : Workers := {}
  deriving Repr, DecidableEq, Inhabited

namespace Config

def options (config : Config) : Options :=
  config.engine.options

/-- What a pass over a table is told. -/
def settings (config : Config) : Settings :=
  ⟨config.options, config.workers⟩

end Config

end Unmangle
