/-!
# Log lines

What the library reports is data: a line and how much it matters. Operations hand
their lines out in order, and the caller keeps them.
-/
namespace Unmangle

/-- How much a line matters. -/
inductive LogLevel
  | info
  | error
  | warning
  | trace
  deriving Repr, DecidableEq, Inhabited

namespace LogLevel

def name : LogLevel → String
  | info => "info"
  | error => "error"
  | warning => "warning"
  | trace => "trace"

end LogLevel

structure LogEntry where
  line : String
  level : LogLevel
  deriving Repr, DecidableEq, Inhabited

end Unmangle
