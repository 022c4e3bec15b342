/-!
# Why a symbol was not demangled

Every failure of the engine is one of eleven causes. A cause has a text for
people and a coarser status for callers that only tell bad input from bad calls.
-/
namespace Unmangle

/-- A cause for which the engine gives no demangled form. -/
inductive Fault
  /-- The name is empty, or a buffer came without a slot for its length. -/
  | invalidArguments
  /-- The symbol stops where the grammar needs more. -/
  | unexpectedEnd
  /-- The symbol goes on with something the grammar does not allow. -/
  | unexpectedText
  /-- A substitution names a component that is not listed yet. -/
  | badBackReference
  /-- A template parameter names an argument that is not in scope. -/
  | badTemplateArgReference
  /-- A template parameter was used ahead of its argument, which never came. -/
  | unresolvedForwardReference
  /-- One node was listed twice as a substitution. -/
  | duplicateSubstitution
  /-- A number does not fit 64 bits. -/
  | overflow
  /-- Productions or renderings nest deeper than the limit. -/
  | tooMuchRecursion
  /-- The symbol or its demangled form is longer than the limit. -/
  | tooLong
  /-- The result could not be stored. -/
  | allocationFailure
  deriving Repr, DecidableEq, Inhabited

/-- What a caller can do about a fault: mend the call, or leave the name alone. -/
inductive Status
  | invalidArguments
  | invalidMangledName
  | allocationFailure
  deriving Repr, DecidableEq, Inhabited

namespace Fault

/-- Only a bad call and a result that cannot be stored are not the fault of the name. -/
def status : Fault → Status
  | invalidArguments => .invalidArguments
  | allocationFailure => .allocationFailure
  | _ => .invalidMangledName

/-- The text for people. -/
def message : Fault → String
  | invalidArguments => "empty mangled name or missing length slot"
  | unexpectedEnd => "mangled symbol ends abruptly"
  | unexpectedText => "mangled symbol is not well-formed"
  | badBackReference => "back reference that is out-of-bounds of the substitution table"
  | badTemplateArgReference =>
    "reference to a template arg that is either out-of-bounds, or in a context without template args"
  | unresolvedForwardReference => "forward template arg reference was never resolved"
  | duplicateSubstitution => "node registered twice in the substitution table"
  | overflow => "an overflow would occur when parsing an integer in a mangled symbol"
  | tooMuchRecursion => "encountered too much recursion when demangling symbol"
  | tooLong => "symbol exceeds the configured length limit"
  | allocationFailure => "failed to allocate the output buffer"

end Fault
end Unmangle
