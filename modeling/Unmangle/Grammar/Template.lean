import Unmangle.Grammar.Token

/-!
# Template arguments and parameters

The arguments behind a tracked name come into scope one by one, and a parameter
stands for the argument in scope. Inside a conversion's type a parameter may come
ahead of its argument, and inside the parameters of a generic lambda it may have
no argument at all.
-/
namespace Unmangle.Parse

/-- A number and `_`, counted on from one. -/
def ordinal : Parse Nat := do
  let number ← orFault (Number.succ? (← decimal)) .overflow
  expect "_"
  return number

/-- `T_`, `T <number> _`, or the same at a deeper level behind `L <number> _`. -/
def templateParam : Parse NodeId := do
  expect "T"
  let level ← (if (← accept "L") then ordinal else pure 0)
  let index ← (if (← accept "_") then pure 0 else ordinal)
  let state ← get
  if state.forwardAllowed && level == 0 then
    let id ← make (.forwardParam index none)
    modify fun state =>
      { state with work := { state.work with forward := state.work.forward.push id } }
    return id
  match state.work.scopes.argument? level index with
  | some target => make (.templateParam target)
  | none =>
    let scopes := state.work.scopes
    if state.lambdaLevel == some level && level ≤ scopes.levels.size then
      (if level == scopes.levels.size then
        setScopes { scopes with levels := scopes.levels.push .unbound }
      else pure ())
      makeName "auto"
    else
      throw .badTemplateArgReference

/-- An argument of the name being read. It sees no template parameters, and comes
into scope when it is complete, a pack of arguments as a pack of parameters. -/
def scopedArg (call : Calls) : Parse NodeId := do
  let levels := (← get).work.scopes.levels
  setLevels #[]
  let arg ← (call .templateArg).thenAlways fun after =>
    { after with work := { after.work with scopes := { after.work.scopes with levels := levels } } }
  let entry ← (match (← node arg) with
    | .argumentPack elements => make (.parameterPack elements)
    | _ => pure arg)
  addArgument entry
  return arg

/-- `I <template-arg>* E` -/
def templateArgs (call : Calls) (tracked : Bool) : Parse NodeId := do
  expect "I"
  (if tracked then setScopes { levels := #[.outer] } else pure ())
  let args ← nodesUntil "E" (if tracked then scopedArg call else call .templateArg)
  make (.templateArgs (← makeList args))

/-- A type, an expression in `X` and `E`, a literal, a pack in `J` and `E`, or an
encoding in `LZ` and `E`. -/
def templateArg (call : Calls) : Parse NodeId := do
  match ← peekPair with
  | ('X', _) =>
    advance 1
    let operand ← call .expression
    expect "E"
    return operand
  | ('J', _) =>
    advance 1
    let args ← nodesUntil "E" (call .templateArg)
    make (.argumentPack (← makeList args))
  | ('L', 'Z') =>
    advance 2
    let encoding ← call .encoding
    expect "E"
    return encoding
  | ('L', _) => call .literal
  | _ => call .type

/-- A name with its template arguments. -/
def instantiate (call : Calls) (tracked : Bool) (name : NodeId) : Parse NodeId := do
  let args ← call (.templateArgs tracked)
  learn tracked fun facts => { facts with endsWithTemplateArgs := true }
  make (.instantiation name args)

/-- A name with the template arguments that follow it, if any do. -/
def instantiateIfArgs (call : Calls) (name : NodeId) : Parse NodeId := do
  if (← peek) == 'I' then instantiate call false name else return name

end Unmangle.Parse
