import Unmangle.Proofs.Comparison.Symbol
import Unmangle.Table.Record

/-!
# An engine has no history

Between calls an engine is at rest: nothing is being read and nothing is stored. What
the last symbols leave behind is the generation of the store, and no answer shows it.
A session of any length is answered as if every request had an engine of its own.
-/
namespace Unmangle

/-- What can be asked of an engine. -/
inductive Request
  | demangle (name : String)
  | demangleTo (name : String) (slots : Slots)
  /-- Demangle a name, or say why it is left alone. -/
  | attempt (name : String)
  /-- Demangle a name, or give it back. -/
  | display (name : String)
  | attemptSymbol (name : String) (typeCode : UInt8)
  | displaySymbol (name : String) (typeCode : UInt8)
  | reset
  deriving Repr, DecidableEq

inductive Answer
  | demangled (outcome : Except Fault String)
  | delivered (outcome : Except Fault Unit) (slots : Slots)
  | attempted (attempt : Attempt)
  | shown (words : String)
  | done

/-- Nothing is stored, and the store has one block. -/
structure Workspace.Empty (work : Workspace) : Prop where
  size : work.tree.size = 0
  blocks : work.tree.blocks = #[#[]]
  lists : work.tree.lists = #[]
  entries : work.substitutions.entries = #[]
  places : work.substitutions.places = ∅
  forward : work.forward = #[]
  levels : work.scopes.levels = #[]
  outer : work.scopes.outer = #[]

namespace Engine

/-- Between calls, with the options that it was made with. -/
structure AtRest (options : Options) (engine : Engine) : Prop where
  options : engine.options = options
  level : engine.level = 0
  work : engine.work.Empty

def perform (engine : Engine) : Request → Answer × Engine
  | .demangle name =>
    let (outcome, engine) := engine.demangle name
    (.demangled outcome, engine)
  | .demangleTo name slots =>
    let (outcome, slots, engine) := engine.demangleTo name slots
    (.delivered outcome slots, engine)
  | .attempt name =>
    let (attempt, engine) := engine.attempt name
    (.attempted attempt, engine)
  | .display name =>
    let (attempt, engine) := engine.attempt name
    (.shown (attempt.display name), engine)
  | .attemptSymbol name typeCode =>
    let (attempt, engine) := engine.attemptSymbol name typeCode
    (.attempted attempt, engine)
  | .displaySymbol name typeCode =>
    let (attempt, engine) := engine.attemptSymbol name typeCode
    (.shown (Record.display ⟨name, typeCode, 0⟩ attempt), engine)
  | .reset => (.done, engine.reset)

/-- The answers to a session, and the engine after each. -/
def session (engine : Engine) : List Request → List (Answer × Engine)
  | [] => []
  | request :: requests =>
    let step := engine.perform request
    step :: step.2.session requests

variable {options : Options} {engine engine' : Engine}

/-- An engine at rest whose store is of some generation. -/
def resting (options : Options) (generation : UInt32) : Engine :=
  ⟨options, 0, { tree := { generation := generation } }⟩

namespace AtRest

theorem fresh (options : Options) : AtRest options { options := options } :=
  ⟨rfl, rfl, rfl, rfl, rfl, rfl, rfl, rfl, rfl, rfl⟩

/-- Only the generation of the store is left open. -/
theorem eq (rest : AtRest options engine) :
    engine = resting options engine.work.tree.generation := by
  obtain ⟨hoptions, hlevel, hsize, hblocks, hlists, hentries, hplaces, hforward, hlevels, houter⟩ :=
    rest
  rcases engine with ⟨_, _, ⟨⟨full, last, _, _, _⟩, ⟨_, _⟩, _, ⟨_, _⟩⟩⟩
  have single : full.push last = (#[] : Array (Array Node)).push #[] := hblocks
  obtain ⟨hlast, hfull⟩ := Array.push_eq_push.mp single
  simp_all [resting]

theorem reset (hoptions : engine.options = options) (hlevel : engine.level = 0) :
    AtRest options engine.reset := by
  rw [Engine.reset, Workspace.reset_eq, Store.reset_eq]
  exact ⟨hoptions, hlevel, rfl, rfl, rfl, rfl, rfl, rfl, rfl, rfl⟩

end AtRest

/-- An engine at rest parses into an empty workspace and spells the tree it gets. -/
theorem parseAndSpell_resting (options : Options) (generation : UInt32) (symbol : ByteArray) :
    (resting options generation).parseAndSpell symbol =
      match (Rule.parse options.maxRecursion options.maxRecursion .symbol).run
        (.start generation symbol) with
      | .ok root state =>
        (spell options symbol state.work.tree root, ⟨options, state.level, state.work⟩)
      | .error fault state => (.error fault, ⟨options, state.level, state.work⟩) :=
  rfl

/-- What is read into workspaces of two generations is spelled the same. -/
theorem AtRest.parseAndSpell (rest : AtRest options engine) (rest' : AtRest options engine')
    (symbol : ByteArray) :
    (engine.parseAndSpell symbol).1 = (engine'.parseAndSpell symbol).1 ∧
      AtRest options (engine.parseAndSpell symbol).2.reset := by
  rw [rest.eq, rest'.eq]
  generalize engine.work.tree.generation = generation
  generalize engine'.work.tree.generation = generation'
  have begun := Sides.start symbol generation generation'
  obtain ⟨-, outcome⟩ := (Sides.both symbol generation generation').reads options.maxRecursion
    options.maxRecursion .symbol (0, 0) _ _ begun fun _ _ lost => lost.elim
  obtain ⟨v, root, root', state, state', hr, hr', -, same, level, name⟩ |
    ⟨v, fault, state, state', hr, hr', -, same, level⟩ | ⟨_, _, -, gone⟩ := outcome.elim
  · have tree : Sides.SameTree _ v state.work.tree state'.work.tree := same.tree
    have spelled : render ⟨options.maxRecursion, options.maxOutputLen⟩ symbol state.work.tree root =
        render ⟨options.maxRecursion, options.maxOutputLen⟩ symbol state'.work.tree root' :=
      (tree.mirror.render rfl (.refl rfl _) name).resolve_right fun ⟨_, _, gone⟩ => gone
    rw [parseAndSpell_resting, parseAndSpell_resting, hr, hr']
    exact ⟨by simp only [spell, spelled], .reset rfl level⟩
  · rw [parseAndSpell_resting, parseAndSpell_resting, hr, hr']
    exact ⟨rfl, .reset rfl level⟩
  · exact gone.elim

/-- Two calls gave one answer, and the first left its engine at rest. -/
def Agree {α : Type} (options : Options) (call call' : α × Engine) : Prop :=
  call.1 = call'.1 ∧ AtRest options call.2

/-- Two engines at rest give the same answer. -/
theorem AtRest.answer (rest : AtRest options engine) (rest' : AtRest options engine')
    (name : String) (slots : Slots) :
    Agree options (engine.answer name slots) (engine'.answer name slots) := by
  simp only [Engine.answer, rest.options, rest'.options]
  split
  · exact ⟨rfl, rest⟩
  · split
    · exact ⟨rfl, rest⟩
    · exact rest.parseAndSpell rest' name.toUTF8

/-- Two engines at rest fill the same slots. -/
theorem AtRest.demangleTo (rest : AtRest options engine) (rest' : AtRest options engine')
    (name : String) (slots : Slots) :
    let call := engine.demangleTo name slots
    let call' := engine'.demangleTo name slots
    (call.1 = call'.1 ∧ call.2.1 = call'.2.1) ∧ AtRest options call.2.2 := by
  obtain ⟨same, after⟩ := rest.answer rest' name slots
  simp only [Engine.demangleTo]
  rcases hcall : engine.answer name slots with ⟨outcome, _⟩
  rcases hcall' : engine'.answer name slots with ⟨outcome', _⟩
  rw [hcall] at after
  rw [hcall, hcall'] at same
  obtain rfl : outcome = outcome' := same
  cases outcome with
  | ok text => exact ⟨⟨rfl, rfl⟩, after⟩
  | error fault => exact ⟨⟨rfl, rfl⟩, after⟩

/-- Two engines at rest demangle a name alike. -/
theorem AtRest.demangle (rest : AtRest options engine) (rest' : AtRest options engine')
    (name : String) : Agree options (engine.demangle name) (engine'.demangle name) := by
  obtain ⟨⟨same, slots⟩, after⟩ := rest.demangleTo rest' name ⟨some "", some 0⟩
  simp only [Engine.demangle]
  rcases hcall : engine.demangleTo name ⟨some "", some 0⟩ with ⟨outcome, _, _⟩
  rcases hcall' : engine'.demangleTo name ⟨some "", some 0⟩ with ⟨outcome', _, _⟩
  rw [hcall] at after
  rw [hcall, hcall'] at same slots
  obtain rfl : outcome = outcome' := same
  obtain rfl := slots
  cases outcome with
  | ok => exact ⟨rfl, after⟩
  | error fault => exact ⟨rfl, after⟩

/-- Two engines at rest make the same attempt at a name. -/
theorem AtRest.attempt (rest : AtRest options engine) (rest' : AtRest options engine')
    (name : String) : Agree options (engine.attempt name) (engine'.attempt name) := by
  obtain ⟨same, after⟩ := rest.demangle rest' name
  obtain ⟨-, after'⟩ := rest'.demangle rest' name
  simp only [Engine.attempt]
  split
  · rcases hcall : engine.demangle name with ⟨outcome, left⟩
    rcases hcall' : engine'.demangle name with ⟨outcome', left'⟩
    rw [hcall] at after
    rw [hcall'] at after'
    rw [hcall, hcall'] at same
    obtain rfl : outcome = outcome' := same
    cases outcome with
    | ok text => exact ⟨rfl, after⟩
    | error fault =>
      have tracing : left.options = left'.options := after.options.trans after'.options.symm
      dsimp only
      rw [tracing]
      exact ⟨rfl, after⟩
  · exact ⟨rfl, rest⟩

/-- Two engines at rest make the same attempt at a symbol. -/
theorem AtRest.attemptSymbol (rest : AtRest options engine) (rest' : AtRest options engine')
    (name : String) (typeCode : UInt8) :
    Agree options (engine.attemptSymbol name typeCode) (engine'.attemptSymbol name typeCode) := by
  simp only [Engine.attemptSymbol]
  split
  · exact ⟨rfl, rest⟩
  · exact rest.attempt rest' _

/-- A request is answered alike by engines at rest, and ends at rest. -/
theorem AtRest.perform (rest : AtRest options engine) (rest' : AtRest options engine')
    (request : Request) : Agree options (engine.perform request) (engine'.perform request) := by
  cases request with
  | demangle name =>
    obtain ⟨same, after⟩ := rest.demangle rest' name
    exact ⟨congrArg Answer.demangled same, after⟩
  | demangleTo name slots =>
    obtain ⟨⟨same, slots⟩, after⟩ := rest.demangleTo rest' name slots
    exact ⟨congrArg₂ Answer.delivered same slots, after⟩
  | attempt name =>
    obtain ⟨same, after⟩ := rest.attempt rest' name
    exact ⟨congrArg Answer.attempted same, after⟩
  | display name =>
    obtain ⟨same, after⟩ := rest.attempt rest' name
    exact ⟨congrArg (fun attempt : Attempt => Answer.shown (attempt.display name)) same, after⟩
  | attemptSymbol name typeCode =>
    obtain ⟨same, after⟩ := rest.attemptSymbol rest' name typeCode
    exact ⟨congrArg Answer.attempted same, after⟩
  | displaySymbol name typeCode =>
    obtain ⟨same, after⟩ := rest.attemptSymbol rest' name typeCode
    exact ⟨congrArg (fun attempt => Answer.shown (Record.display ⟨name, typeCode, 0⟩ attempt)) same,
      after⟩
  | reset => exact ⟨rfl, .reset rest.options rest.level⟩

/-- Whatever was asked before, an engine answers as a fresh one does. -/
theorem AtRest.session (rest : AtRest options engine) (requests : List Request) :
    (engine.session requests).map Prod.fst =
        requests.map (fun request => (Engine.perform { options := options } request).1) ∧
      ∀ step ∈ engine.session requests, AtRest options step.2 := by
  induction requests generalizing engine with
  | nil => exact ⟨rfl, fun _ h => by cases h⟩
  | cons request requests ih =>
    obtain ⟨same, after⟩ := rest.perform (.fresh options) request
    obtain ⟨answers, left⟩ := ih after
    refine ⟨?_, ?_⟩
    · rw [Engine.session, List.map_cons, List.map_cons, same, answers]
    · rw [Engine.session]
      rintro step (_ | ⟨_, hstep⟩)
      · exact after
      · exact left step hstep

/-- Every request of a session that a new engine begins is answered as a new engine
answers it, and leaves the engine at rest. -/
theorem session_eq_map_perform (options : Options) (requests : List Request) :
    (Engine.session { options := options } requests).map Prod.fst =
        requests.map (fun request => (Engine.perform { options := options } request).1) ∧
      ∀ step ∈ Engine.session { options := options } requests, AtRest options step.2 :=
  (AtRest.fresh options).session requests

end Engine
end Unmangle
