import Unmangle.Grammar.Name

/-!
# Encodings

An encoding is a name with the type of what it names, or a title and the component
it belongs to. Nested encodings see no template parameters of the outer one.
-/
namespace Unmangle

/-- The names that a linker gives to what it adds to a program. -/
inductive SpecialForm
  /-- A title and the component that it belongs to. -/
  | titled (title : String) (rule : Rule)
  | covariantThunk
  | constructionVtable
  | referenceTemporary
  | thunk (title : String)
  deriving Repr, DecidableEq, Inhabited

namespace SpecialForm

/-- The form that two letters announce. -/
def ofLetters? : Char → Char → Option SpecialForm
  | 'T', 'V' => some (titled "vtable for " .type)
  | 'T', 'T' => some (titled "VTT for " .type)
  | 'T', 'I' => some (titled "typeinfo for " .type)
  | 'T', 'S' => some (titled "typeinfo name for " .type)
  | 'T', 'W' => some (titled "thread-local wrapper routine for " (.name false))
  | 'T', 'H' => some (titled "thread-local initialization routine for " (.name false))
  | 'G', 'V' => some (titled "guard variable for " (.name false))
  | 'T', 'c' => some covariantThunk
  | 'T', 'C' => some constructionVtable
  | 'T', 'A' => some (titled "template parameter object for " .templateArg)
  | 'G', 'R' => some referenceTemporary
  | 'G', 'A' => some (titled "hidden alias for " .encoding)
  | 'T', 'v' => some (thunk "virtual thunk to ")
  | 'T', _ => some (thunk "non-virtual thunk to ")
  | _, _ => none

end SpecialForm

namespace Parse

/-- Give a waiting template parameter its argument. -/
def resolve (id : NodeId) : Parse Unit := do
  match ← node id with
  | .forwardParam index _ =>
    let scopes := (← get).work.scopes
    let target ← orFault (scopes.argument? 0 index) .unresolvedForwardReference
    patch id (.forwardParam index (some target))
  | _ => throw .unresolvedForwardReference

/-- Give every template parameter that waits since a mark its argument. -/
def resolveSince (mark : Nat) : Parse Unit := do
  ((← get).work.forward.toList.drop mark).forM resolve
  modify fun state =>
    { state with work := { state.work with forward := state.work.forward.take mark } }

/-- A name, and unless it stands alone the type of its function. Template functions
write their result type, `v` stands for no parameters. -/
def plainEncoding (call : Calls) : Parse NodeId := do
  let mark := (← get).work.forward.size
  let name ← call (.name true)
  resolveSince mark
  if ← atEncodingEnd then
    return name
  let facts := (← get).facts
  let result ←
    (if !facts.isResultless && facts.endsWithTemplateArgs then some <$> call .type
    else pure none)
  let params ← (if (← accept "v") then pure #[] else someNodes atEncodingEnd (call .type))
  make (.function result name (← makeList params) facts.quals facts.ref)

/-- An encoding on its own. What it learned of its name and the scopes it opened end
with it, whether or not it could be read. -/
def encoding (call : Calls) : Parse NodeId := do
  let before ← get
  let scopes := before.work.scopes
  let facts := before.facts
  modify fun state => { state with work := { state.work with scopes := {} }, facts := {} }
  let inner := do
    match ← peek with
    | 'G' | 'T' => call .specialName
    | _ => plainEncoding call
  inner.thenAlways fun after =>
    { after with work := { after.work with scopes := scopes }, facts := facts }

/-- A signed number, which does not show. -/
def skipOffset : Parse Unit := do
  ensure (!(← number true).isEmpty) unexpected

/-- `h <number> _` or `v <number> _ <number> _` -/
def callOffset : Parse Unit := do
  if ← accept "h" then
    skipOffset
    expect "_"
  else if ← accept "v" then
    skipOffset
    expect "_"
    skipOffset
    expect "_"
  else
    unexpected

/-- What a linker adds to the components of a program: tables, guards, thunks. -/
def specialName (call : Calls) : Parse NodeId := do
  let (first, second) ← peekPair
  match SpecialForm.ofLetters? first second with
  | none => unexpected
  | some (.titled title rule) =>
    advance 2
    make (.special title (← call rule))
  | some .covariantThunk =>
    advance 2
    callOffset
    callOffset
    make (.special "covariant return thunk to " (← call .encoding))
  | some .constructionVtable =>
    advance 2
    let derived ← call .type
    skipOffset
    expect "_"
    make (.constructionVtable (← call .type) derived)
  | some .referenceTemporary =>
    advance 2
    let child ← call (.name false)
    ensure (← accept "_") do
      discard seqId
      expect "_"
    make (.special "reference temporary for " child)
  | some (.thunk title) =>
    advance 1
    callOffset
    make (.special title (← call .encoding))

/-- The whole symbol was read, and no template parameter waits. -/
def finish (root : NodeId) : Parse NodeId := do
  ensure (← atEnd) (throw .unexpectedText)
  ensure (← get).work.forward.isEmpty (throw .unresolvedForwardReference)
  return root

/-- An encoding behind its marker, with a suffix for a clone of the function. A
global variable is never mangled, so a bare name is no encoding unless its linkage
is internal. -/
def markedEncoding (call : Calls) : Parse NodeId := do
  let isInternal := (← peek) == 'L'
  let encoding ← call .encoding
  (match (← node encoding) with
  | .name _ => ensure isInternal (throw .unexpectedEnd)
  | _ => pure ())
  if (← peek) == '.' then
    let suffix ← remainder
    make (.clone encoding suffix)
  else
    return encoding

/-- The function that runs a block, behind its marker. Numbers and suffixes of
blocks do not show. -/
def blockInvocation (call : Calls) : Parse NodeId := do
  let encoding ← call .encoding
  expect "_block_invoke"
  let numbered ← accept "_"
  let number ← number false
  ensure (!(number.isEmpty && numbered)) unexpected
  (if (← peek) == '.' then discard remainder else pure ())
  make (.special "invocation function for block in " encoding)

/-- A whole symbol: an encoding behind `_Z` or `__Z`, a block's function behind
`___Z` or `____Z`, or a type. -/
def symbol (call : Calls) : Parse NodeId := do
  if ← (do if ← accept "_Z" then return true else accept "__Z") then
    finish (← markedEncoding call)
  else if ← (do if ← accept "___Z" then return true else accept "____Z") then
    finish (← blockInvocation call)
  else
    finish (← call .type)

end Parse
end Unmangle
