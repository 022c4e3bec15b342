import Unmangle.Spelling.Speller

/-!
# Right halves

What a node is spelled as behind the name that it declares: parameters, dimensions,
and the parentheses that the left half opened.
-/
namespace Unmangle.Speller

open Print

variable (speller : Speller)

/-- What follows the name of a function: parameters, the rest of the result type,
and the function's own qualifiers. -/
def behindFunction (result : Option NodeId) (params : NodeList) (quals : Qualifiers)
    (ref : Option Reference) : Print Unit := do
  speller.parenthesizedList params
  ifAny result (speller.half .right)
  Print.quals quals
  Print.refQualifier ref

/-- The right half of a node. It is empty for what declares nothing. -/
def right : Node → Print Unit
  | .qualified target _ | .templateParam target | .forwardParam _ (some target) =>
    speller.half .right target
  | .forwardParam _ none => throw .unresolvedForwardReference
  | .function result _ params quals ref => speller.behindFunction result params quals ref
  | .pointer pointee | .memberPointer _ pointee => speller.closeDeclarator pointee
  | .reference kind pointee => do
    match ← collapse speller.tree kind pointee with
    | some (_, pointee) => speller.closeDeclarator pointee
    | none => pure ()
  | .array element dimension => do
    -- dimensions follow each other without a space
    whenever ((← lastByte) != some 93) (write " ")
    speller.inBrackets dimension
    speller.half .right element
  | .functionType result params quals ref exception => do
    speller.behindFunction (some result) params quals ref
    ifAny exception fun exception => do
      write " "
      speller.spell exception
  | .parameterPack elements => do
    ifAny (← currentElement speller.tree elements) (speller.half .right)
  | _ => pure ()

end Unmangle.Speller
