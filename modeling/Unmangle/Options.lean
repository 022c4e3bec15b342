/-!
# Limits of the engine

Limits bound the work done for one symbol. They withhold an answer and never
change one.
-/
namespace Unmangle

/-- The limits of one engine. -/
structure Options where
  /-- Nesting limit of productions, and of rendering. -/
  maxRecursion : Nat := 128
  /-- Longest symbol, in bytes, that is looked at. -/
  maxSymbolLen : Nat := 64 * 1024
  /-- Longest demangled form, in bytes, that is given out. -/
  maxOutputLen : Nat := 1024 * 1024
  /-- Whether every declined symbol is written to the log with its fault. -/
  traceFailures : Bool := false
  deriving Repr, DecidableEq, Inhabited

end Unmangle
