import Unmangle.Grammar.Name
import Unmangle.Grammar.Template
import Unmangle.Proofs.Grammar.Run

/-!
# Parses that differ in what is allowed around them

Three parts of the state are set by the productions around the one that is read: whether
arguments may follow, whether a template parameter may come ahead of its argument, and the level at
which a lambda invents parameters. Two parses that differ in nothing else go on alike until one of
these is asked for where it was set outside. Such a place is a leak.
-/
namespace Unmangle

namespace Parse

/-- The level and the index of a template parameter. -/
def paramPlace : Parse (Nat × Nat) := do
  expect "T"
  let level ← (if (← accept "L") then ordinal else pure 0)
  let index ← (if (← accept "_") then pure 0 else ordinal)
  return (level, index)

/-- A state in a parse from one state from which the parse would go on otherwise with what is
allowed in another. -/
inductive Leak (outer inner : ParseState) (t : ParseState) : Prop
  /-- A template parameter comes ahead of its argument in one of the parses only. -/
  | ahead {t' index} (param : paramPlace.run t = .ok (0, index) t')
      (differs : outer.forwardAllowed ≠ inner.forwardAllowed)
      (outside : t'.forwardAllowed = inner.forwardAllowed)
  /-- A template parameter without an argument is invented in one of the parses only. -/
  | invented {t' level index} (param : paramPlace.run t = .ok (level, index) t')
      (unknown : t'.work.scopes.argument? level index = none)
      (below : level ≤ t'.work.scopes.levels.size)
      (differs : outer.lambdaLevel ≠ inner.lambdaLevel)
      (outside : t'.lambdaLevel = inner.lambdaLevel)
      (lambda : outer.lambdaLevel = some level ∨ inner.lambdaLevel = some level)
  /-- Arguments follow a template parameter, and belong to it in one of the parses only. -/
  | paramArgs {t' id} (param : templateParam.run t = .ok id t')
      (args : t'.cursor.peekAt 0 = 'I')
      (differs : outer.templateArgsAllowed ≠ inner.templateArgsAllowed)
      (outside : t'.templateArgsAllowed = inner.templateArgsAllowed)
  /-- Arguments follow a substitution, and belong to it in one of the parses only. -/
  | listedArgs {t' id} (listed : substitution.run t = .ok id t')
      (args : t'.cursor.peekAt 0 = 'I')
      (differs : outer.templateArgsAllowed ≠ inner.templateArgsAllowed)
      (outside : t'.templateArgsAllowed = inner.templateArgsAllowed)

end Parse

/-- The part of a state was set alike in two parses, or not since they began. -/
def Inherits {α : Type} (outer inner value value' : α) : Prop :=
  value = value' ∨ value = outer ∧ value' = inner

theorem Inherits.of_ne {α : Type} {outer inner value value' : α}
    (h : Inherits outer inner value value') (differ : value ≠ value') :
    outer ≠ inner ∧ value = outer ∧ value' = inner := by
  obtain same | ⟨rfl, rfl⟩ := h
  · exact absurd same differ
  · exact ⟨differ, rfl, rfl⟩

namespace ParseState

/-- The same state with what is allowed in another. -/
def allowing (s around : ParseState) : ParseState :=
  { s with
    templateArgsAllowed := around.templateArgsAllowed
    forwardAllowed := around.forwardAllowed
    lambdaLevel := around.lambdaLevel }

/-- Two parses that began in one state and in another have come to such states. -/
structure Sheltered (outer inner s t : ParseState) : Prop where
  same : s = t.allowing s
  args : Inherits outer.templateArgsAllowed inner.templateArgsAllowed s.templateArgsAllowed
    t.templateArgsAllowed
  ahead : Inherits outer.forwardAllowed inner.forwardAllowed s.forwardAllowed t.forwardAllowed
  lambda : Inherits outer.lambdaLevel inner.lambdaLevel s.lambdaLevel t.lambdaLevel
  still : ¬Parse.Leak outer inner t

/-- A step that is not concerned with what is allowed leaves both states sheltered. -/
theorem Sheltered.moved {outer inner s t t' : ParseState} (h : Sheltered outer inner s t)
    (same : t' = t'.allowing t) (still : ¬Parse.Leak outer inner t') :
    Sheltered outer inner (t'.allowing s) t' where
  same := rfl
  args := by
    rw [same]
    exact h.args
  ahead := by
    rw [same]
    exact h.ahead
  lambda := by
    rw [same]
    exact h.lambda
  still := still

end ParseState

namespace Parse

open ParseState

variable {outer inner s t : ParseState} {α β : Type}

/-- Both steps give the same value or the same fault. -/
inductive Matches (outer inner : ParseState) :
    EStateM.Result Fault ParseState α → EStateM.Result Fault ParseState α → Prop
  | ok {a s t} (same : Sheltered outer inner s t) : Matches outer inner (.ok a s) (.ok a t)
  | error {fault s t} : Matches outer inner (.error fault s) (.error fault t)

/-- Two steps from two states match unless there is a leak on the way of the second. -/
def Agrees (outer inner s t : ParseState) (p p' : Parse α) : Prop :=
  (∀ u, p'.happens t (.visits u) → ¬Leak outer inner u) → Matches outer inner (p.run s) (p'.run t)

/-- A step agrees with itself from all sheltered states. -/
def Blind (outer inner : ParseState) (p : Parse α) : Prop :=
  ∀ s t, Sheltered outer inner s t → Agrees outer inner s t p p

namespace Agrees

variable {p p' q q' : Parse α}

theorem pure {a : α} (h : Sheltered outer inner s t) :
    Agrees outer inner s t (Pure.pure a) (Pure.pure a) :=
  fun _ => .ok h

theorem throw (fault : Fault) :
    Agrees outer inner s t (Parse.throw fault : Parse α) (Parse.throw fault) :=
  fun _ => .error

/-- The second step goes on from where the first came to. -/
theorem bind {f f' : α → Parse β} (h : Agrees outer inner s t p p')
    (next : ∀ a s' t', p'.run t = .ok a t' → (∀ u, p'.happens t (.visits u) → ¬Leak outer inner u) →
      Sheltered outer inner s' t' → Agrees outer inner s' t' (f a) (f' a)) :
    Agrees outer inner s t (p >>= f) (p' >>= f') := by
  intro quiet
  have quiet' : ∀ u, p'.happens t (.visits u) → ¬Leak outer inner u :=
    fun u hu => quiet u (.inl hu)
  have both := h quiet'
  cases run : p.run s with
  | ok a s' =>
    cases run' : p'.run t with
    | ok a' t' =>
      rw [run, run'] at both
      cases both with
      | ok same =>
        rw [run_bind_ok f run, run_bind_ok f' run']
        exact next a s' t' run' quiet' same fun u hu => quiet u
          ((happens_bind_ok f' run' _).mpr (.inr hu))
    | error fault t' =>
      rw [run, run'] at both
      cases both
  | error fault s' =>
    cases run' : p'.run t with
    | ok a' t' =>
      rw [run, run'] at both
      cases both
    | error fault' t' =>
      rw [run, run'] at both
      cases both
      rw [run_bind_error f run, run_bind_error f' run']
      exact .error

theorem get {f f' : ParseState → Parse β} (h : Agrees outer inner s t (f s) (f' t)) :
    Agrees outer inner s t (MonadState.get >>= f) (MonadState.get >>= f') := by
  intro quiet
  rw [run_bind_ok f run_get, run_bind_ok f' run_get]
  exact h fun u hu => quiet u ((happens_bind_ok f' run_get _).mpr (.inr hu))

theorem ite {c : Prop} [Decidable c] (yes : c → Agrees outer inner s t p p')
    (no : ¬c → Agrees outer inner s t q q') :
    Agrees outer inner s t (if c then p else q) (if c then p' else q') := by
  split
  · exact yes ‹_›
  · exact no ‹_›

/-- A change of both states. -/
theorem modified {f f' : ParseState → ParseState}
    (h : ¬Leak outer inner (f' t) → Sheltered outer inner (f s) (f' t)) :
    Agrees outer inner s t (modify f : Parse Unit) (modify f') :=
  fun quiet => .ok (h (quiet _ rfl))

/-- What was changed around a step is changed back. -/
theorem thenAlways {f f' : ParseState → ParseState} (h : Agrees outer inner s t p p')
    (back : ∀ s' t', Sheltered outer inner s' t' → ¬Leak outer inner (f' t') →
      Sheltered outer inner (f s') (f' t')) :
    Agrees outer inner s t (p.thenAlways f) (p'.thenAlways f') := by
  intro quiet
  have both := h fun u hu => quiet u (.inl hu)
  have last : ¬Leak outer inner (f' (final (p'.run t))) := quiet _ (.inr rfl)
  simp only [Parse.thenAlways]
  generalize p.run s = r, p'.run t = r' at both last ⊢
  cases both with
  | ok same => exact .ok (back _ _ same last)
  | error => exact .error

end Agrees

def Unconcerned (run : ParseState → EStateM.Result Fault ParseState α) : Prop :=
  ∀ s around, run (s.allowing around) = match run s with
    | .ok a t => .ok a (t.allowing around)
    | .error fault t => .error fault (t.allowing around)

namespace Blind

variable {p q : Parse α}

/-- A step that is unconcerned with what is around is blind to it. -/
theorem step {run : ParseState → EStateM.Result Fault ParseState α} (apart : Unconcerned run) :
    Blind outer inner (Parse.step run) := by
  intro s t h quiet
  have last : ¬Leak outer inner (final (run t)) := quiet _ rfl
  have same := apart t s
  rw [← h.same] at same
  have still := apart t t
  change run t = _ at still
  show Matches outer inner (run s) (run t)
  rw [same]
  cases moved : run t with
  | error fault t' => exact .error
  | ok a t' =>
    rw [moved] at last still
    injection still with _ still
    exact .ok (h.moved still last)

theorem bind {f : α → Parse β} (h : Blind outer inner p) (next : ∀ a, Blind outer inner (f a)) :
    Blind outer inner (p >>= f) := by
  intro s t sheltered
  apply (h s t sheltered).bind
  intro a s' t' _ _
  exact next a s' t'

/-- What the first step comes to is not needed behind it. -/
theorem seq {q : Parse β} (h : Blind outer inner p) (next : Blind outer inner q) :
    Blind outer inner (do let _ ← p; q) :=
  h.bind fun _ => next

theorem pure (a : α) : Blind outer inner (Pure.pure a : Parse α) :=
  fun _ _ => .pure

theorem throw (fault : Fault) : Blind outer inner (Parse.throw fault : Parse α) :=
  fun _ _ _ => .throw fault

theorem ite {c : Prop} [Decidable c] (yes : Blind outer inner p) (no : Blind outer inner q) :
    Blind outer inner (if c then p else q) :=
  fun s t h => .ite (fun _ => yes s t h) fun _ => no s t h

/-- A look at a part of the state that the two states share. -/
theorem look {f : ParseState → Parse α} (shared : ∀ s around, f (s.allowing around) = f s)
    (next : ∀ s, Blind outer inner (f s)) : Blind outer inner (MonadState.get >>= f) := by
  intro s t h
  refine .get ?_
  have same : f s = f t := by rw [h.same, shared]
  rw [same]
  exact next t s t h

/-- A change that is not concerned with what is allowed. -/
theorem modified {f : ParseState → ParseState}
    (apart : ∀ s around, f (s.allowing around) = (f s).allowing around) :
    Blind outer inner (modify f : Parse Unit) := by
  intro s t h
  refine .modified ?_
  intro last
  have same := apart t s
  rw [← h.same] at same
  rw [same]
  exact h.moved (apart t t) last

theorem ensure {held : Bool} {otherwise : Parse Unit} (h : Blind outer inner otherwise) :
    Blind outer inner (Parse.ensure held otherwise) :=
  ite (pure ()) h

theorem orFault (value : Option α) (fault : Fault) : Blind outer inner (Parse.orFault value fault) := by
  cases value with
  | some value => exact pure value
  | none => exact throw fault

theorem map {f : α → β} (h : Blind outer inner p) : Blind outer inner (f <$> p) := by
  apply h.bind
  intro a
  exact pure (f a)

theorem discard (h : Blind outer inner p) : Blind outer inner (Functor.discard p) :=
  h.map

/-- A change apart from what is around may come behind any step. -/
theorem thenAlways {f : ParseState → ParseState} (h : Blind outer inner p)
    (apart : ∀ s around, f (s.allowing around) = (f s).allowing around) :
    Blind outer inner (p.thenAlways f) := by
  intro s t sheltered
  refine (h s t sheltered).thenAlways ?_
  intro s' t' sheltered last
  have same := apart t' s'
  rw [← sheltered.same] at same
  rw [same]
  exact sheltered.moved (apart t' t') last

/-- A step is blind one level deeper too. -/
theorem deeper (limit : Nat) (h : Blind outer inner p) : Blind outer inner (p.deeper limit) := by
  unfold Parse.deeper
  apply look fun _ _ => rfl
  intro s
  apply (ensure (throw _)).bind
  intro _
  apply bind (modified fun _ _ => rfl)
  intro _
  exact thenAlways h fun _ _ => rfl

theorem reading (rule : Rule) {p : Parse NodeId} (h : Blind outer inner p) :
    Blind outer inner (p.reading rule) :=
  fun s t sheltered quiet => h s t sheltered fun u hu => quiet u (.inl hu)

/-- A repetition is blind if each round is. -/
theorem repeatUntil {close : Parse Bool} {item : α → Parse α} (hclose : Blind outer inner close)
    (hitem : ∀ a, Blind outer inner (item a)) (rounds : List UInt8) (a : α) :
    Blind outer inner (Parse.repeatUntil close item rounds a) := by
  induction rounds generalizing a with
  | nil => exact throw _
  | cons _ rounds ih =>
    apply hclose.bind
    intro closed
    exact ite (pure a) ((hitem a).bind ih)

theorem untilHolds {close : Parse Bool} {item : α → Parse α} (hclose : Blind outer inner close)
    (hitem : ∀ a, Blind outer inner (item a)) (a : α) :
    Blind outer inner (Parse.untilHolds close a item) := by
  apply look fun _ _ => rfl
  intro _
  exact repeatUntil hclose hitem _ a

theorem moreNodes {close : Parse Bool} {item : Parse NodeId} (hclose : Blind outer inner close)
    (hitem : Blind outer inner item) (nodes : Array NodeId) :
    Blind outer inner (Parse.moreNodes close item nodes) := by
  refine untilHolds hclose (fun nodes => ?_) nodes
  apply hitem.bind
  intro id
  exact pure (nodes.push id)

theorem someNodes {close : Parse Bool} {item : Parse NodeId} (hclose : Blind outer inner close)
    (hitem : Blind outer inner item) : Blind outer inner (Parse.someNodes close item) := by
  apply hitem.bind
  intro id
  exact moreNodes hclose hitem #[id]

/-! ## Tokens

A token looks at the bytes, and stores what it is given in the tree or the tables, so it is not
concerned with what is allowed.
-/

theorem peek : Blind outer inner Parse.peek := by
  apply look fun _ _ => rfl
  intro _
  exact pure _

theorem peekAt (distance : Nat) : Blind outer inner (Parse.peekAt distance) := by
  apply look fun _ _ => rfl
  intro _
  exact pure _

theorem peekPair : Blind outer inner Parse.peekPair := by
  apply look fun _ _ => rfl
  intro _
  exact pure _

theorem atEnd : Blind outer inner Parse.atEnd := by
  apply look fun _ _ => rfl
  intro _
  exact pure _

theorem advance (count : Nat) : Blind outer inner (Parse.advance count) :=
  modified fun _ _ => rfl

theorem lookingAt (token : String) : Blind outer inner (Parse.lookingAt token) := by
  apply look fun _ _ => rfl
  intro _
  exact pure _

theorem accept (token : String) : Blind outer inner (Parse.accept token) := by
  refine step ?_
  intro s around
  dsimp only [ParseState.allowing]
  cases s.cursor.strip? token.toList <;> rfl

theorem unexpected : Blind outer inner (Parse.unexpected : Parse α) := by
  apply atEnd.bind
  intro ended
  exact ite (throw _) (throw _)

theorem expect (token : String) : Blind outer inner (Parse.expect token) := by
  apply (accept token).bind
  intro held
  exact ensure unexpected

theorem remainder : Blind outer inner Parse.remainder :=
  step fun _ _ => rfl

theorem make (node : Node) : Blind outer inner (Parse.make node) :=
  step fun _ _ => rfl

theorem makeList (ids : Array NodeId) : Blind outer inner (Parse.makeList ids) :=
  step fun _ _ => rfl

theorem makeName (words : String) : Blind outer inner (Parse.makeName words) :=
  make _

theorem node (id : NodeId) : Blind outer inner (Parse.node id) := by
  intro s t h _
  rw [h.same]
  exact .ok (h.moved rfl h.still)

theorem patch (id : NodeId) (node : Node) : Blind outer inner (Parse.patch id node) := by
  intro s t h quiet
  rw [h.same]
  exact .ok (h.moved rfl (quiet _ (.inr rfl)))

theorem enlist (id : NodeId) : Blind outer inner (Parse.enlist id) := by
  refine step fun s around => ?_
  change (if s.work.substitutions.contains id then _ else _) = _
  split
  · simp only [*]
  · simp only [*]
    rfl

theorem delist : Blind outer inner Parse.delist := by
  apply look fun _ _ => rfl
  intro _
  apply (orFault _ _).bind
  intro value
  exact modified fun _ _ => rfl

theorem listed (index : Nat) : Blind outer inner (Parse.listed index) := by
  apply look fun _ _ => rfl
  intro _
  exact orFault _ _

theorem addArgument (id : NodeId) : Blind outer inner (Parse.addArgument id) :=
  step fun _ _ => rfl

theorem setScopes (scopes : TemplateScopes) : Blind outer inner (Parse.setScopes scopes) :=
  modified fun _ _ => rfl

theorem setLevels (levels : Array ScopeLevel) : Blind outer inner (Parse.setLevels levels) :=
  modified fun _ _ => rfl

theorem learn (tracked : Bool) (change : NameFacts → NameFacts) :
    Blind outer inner (Parse.learn tracked change) :=
  ite (modified fun _ _ => rfl) (pure ())

theorem digits (property : UInt8 → Bool) : Blind outer inner (Parse.digits property) :=
  step fun _ _ => rfl

theorem number (signed : Bool) : Blind outer inner (Parse.number signed) := by
  refine step ?_
  intro s around
  dsimp only [ParseState.allowing]
  split <;> rfl

theorem value (base : Nat) (property : UInt8 → Bool) :
    Blind outer inner (Parse.value base property) := by
  apply (digits property).bind
  intro run
  split
  · exact unexpected
  · exact orFault _ _

theorem decimal : Blind outer inner Parse.decimal :=
  value _ _

theorem seqId : Blind outer inner Parse.seqId :=
  value _ _

theorem atEncodingEnd : Blind outer inner Parse.atEncodingEnd := by
  apply look fun _ _ => rfl
  intro s
  split
  · exact pure true
  · exact pure _

theorem skipDiscriminator : Blind outer inner Parse.skipDiscriminator := by
  apply peek.bind
  intro first
  apply ite (pure ())
  apply look fun _ _ => rfl
  intro before
  apply (peekAt 1).bind
  intro second
  refine ite (advance 2) (ite ?_ (pure ()))
  apply (advance 2).seq
  apply (number false).bind
  intro number
  apply (ite (pure false) (accept "_")).bind
  intro closed
  refine ensure ?_
  exact modified fun _ _ => rfl

theorem qualifiers : Blind outer inner Parse.qualifiers := by
  apply (accept "r").bind
  intro held
  apply (accept "V").bind
  intro held
  apply (accept "K").bind
  intro held
  exact pure _

theorem identifierFrom : Blind outer inner Parse.identifierFrom := by
  apply decimal.bind
  intro length
  apply (ensure (throw _)).seq
  apply look fun _ _ => rfl
  intro s
  apply (orFault _ _).bind
  intro behind
  apply (modified fun _ _ => rfl).seq
  exact pure _

theorem identifier : Blind outer inner Parse.identifier := by
  apply identifierFrom.bind
  intro r
  exact pure r.1

theorem nodesUntil (token : String) {item : Parse NodeId} (h : Blind outer inner item) :
    Blind outer inner (Parse.nodesUntil token item) :=
  moreNodes (accept token) h #[]

theorem ordinal : Blind outer inner Parse.ordinal := by
  apply decimal.bind
  intro value
  apply (orFault _ _).bind
  intro number
  apply (expect "_").seq
  exact pure number

end Blind
end Parse
end Unmangle
