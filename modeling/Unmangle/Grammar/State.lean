import Unmangle.Fault
import Unmangle.Tree.Node
import Unmangle.Grammar.Cursor
import Unmangle.Grammar.BackReference
import Unmangle.Grammar.Rule

/-!
# The state of a parse

A production takes a state to a state and either a result or a fault. The state is
kept on a fault too, so that what was built can be taken down again. What happens
on the way, step by step, belongs to a production as much as its result.
-/
namespace Unmangle

/-- What a parse builds. -/
structure Workspace where
  tree : Tree := {}
  substitutions : Substitutions := {}
  /-- The template parameters that wait for their argument. -/
  forward : Array NodeId := #[]
  scopes : TemplateScopes := {}
  deriving Inhabited

namespace Workspace

/-- Empty every table. The names given out before are stale from then on. -/
def reset (work : Workspace) : Workspace :=
  { work with
    tree := work.tree.reset
    substitutions := work.substitutions.clear
    forward := work.forward.shrink 0
    scopes := work.scopes.clear }

/-- What is left is a new workspace, of the next generation of names. -/
theorem reset_eq (work : Workspace) : work.reset = { tree := work.tree.reset } := by
  simp [reset, Substitutions.clear_eq, TemplateScopes.clear_eq]

end Workspace

/-- What is known of the name of an encoding when the name has been read. It
decides how the encoding goes on. -/
structure NameFacts where
  quals : Qualifiers := {}
  ref : Option Reference := none
  /-- Constructors, destructors and conversions have no result type. -/
  isResultless : Bool := false
  endsWithTemplateArgs : Bool := false
  deriving Repr, DecidableEq, Inhabited

/-- The cursor, the workspace, and what the enclosing productions allow. -/
structure ParseState where
  cursor : Cursor
  /-- The number of productions being read. -/
  level : Nat := 0
  work : Workspace := {}
  facts : NameFacts := {}
  /-- Whether arguments behind a template parameter belong to it. -/
  templateArgsAllowed : Bool := true
  /-- Whether a template parameter may be used ahead of its argument. -/
  forwardAllowed : Bool := false
  /-- The scope level that the parameters of the innermost lambda invent. -/
  lambdaLevel : Option Nat := none
  deriving Inhabited

/-- What happens in a parse. -/
inductive Event
  /-- The parse is in a state. -/
  | visits (state : ParseState)
  /-- The node under a name is looked at or replaced. -/
  | opens (state : ParseState) (id : NodeId)
  /-- A rule was read, from one state to another. -/
  | reads (rule : Rule) (before : ParseState) (id : NodeId) (after : ParseState)

/-- A step of a parse: what it makes of a state, and what happens on the way. The
events are propositions, and nothing is computed for them. -/
structure Parse (α : Type) where
  run : ParseState → EStateM.Result Fault ParseState α
  happens : ParseState → Event → Prop

/-- A way to read each rule. A production is given one, so that the grammar itself
has no recursion in it. -/
abbrev Calls := Rule → Parse NodeId

namespace Parse

variable {α β : Type}

/-- The state that is left, whether or not the step failed. -/
def final : EStateM.Result Fault ParseState α → ParseState
  | .ok _ state | .error _ state => state

/-- A step that is not made of others. -/
@[always_inline, inline]
def step (run : ParseState → EStateM.Result Fault ParseState α) : Parse α :=
  ⟨run, fun state event => event = .visits (final (run state))⟩

@[always_inline, inline]
def throw (fault : Fault) : Parse α :=
  ⟨fun state => .error fault state, fun _ _ => False⟩

@[always_inline]
instance : Monad Parse where
  pure value := ⟨fun state => .ok value state, fun _ _ => False⟩
  bind first next :=
    ⟨fun state =>
      match first.run state with
      | .ok value after => (next value).run after
      | .error fault after => .error fault after,
    fun state event => first.happens state event ∨
      ∃ value after, first.run state = .ok value after ∧ (next value).happens after event⟩

@[always_inline]
instance : MonadStateOf ParseState Parse where
  get := ⟨fun state => .ok state state, fun _ _ => False⟩
  set state := step fun _ => .ok () state
  modifyGet change := step fun state =>
    let (value, after) := change state
    .ok value after

/-- Run a step unless a test held. -/
def ensure (held : Bool) (otherwise : Parse Unit) : Parse Unit :=
  if held then pure () else otherwise

/-- Run a step, then change the state whether or not the step failed. -/
def thenAlways (first : Parse α) (change : ParseState → ParseState) : Parse α :=
  ⟨fun state =>
    match first.run state with
    | .ok value after => .ok value (change after)
    | .error fault after => .error fault (change after),
  fun state event => first.happens state event ∨
    event = .visits (change (final (first.run state)))⟩

/-- Run a step one level deeper. At the limit the step fails instead. -/
def deeper (limit : Nat) (inner : Parse α) : Parse α := do
  ensure ((← get).level + 1 < limit) (throw .tooMuchRecursion)
  modify fun state => { state with level := state.level + 1 }
  inner.thenAlways fun after => { after with level := after.level - 1 }

/-- Make it known that a step reads a rule. -/
@[always_inline, inline]
def reading (rule : Rule) (inner : Parse NodeId) : Parse NodeId :=
  ⟨inner.run, fun state event => inner.happens state event ∨
    ∃ id after, inner.run state = .ok id after ∧ event = .reads rule state id after⟩

/-- Repeat a step until a closing test holds. The rounds are bounded by the bytes
that are left, since every round reads at least one. -/
def repeatUntil (close : Parse Bool) (item : β → Parse β) : List UInt8 → β → Parse β
  | [], _ => throw .unexpectedEnd
  | _ :: rounds, acc => do
    if ← close then return acc
    repeatUntil close item rounds (← item acc)

end Parse
end Unmangle
