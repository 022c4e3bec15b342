import Mathlib.Order.Basic
import Unmangle.Grammar.Parse
import Unmangle.Proofs.Grammar.Run
import Unmangle.Proofs.Tree.Likeness

/-!
# Parses side by side

Two parses that start alike go on alike: no production looks at more of the state than
the few steps it is made of. A comparison says when cursors, names, trees and tables
count as alike, and its laws say that the smallest steps keep them so. Whole productions
then follow each other step by step. With one parse on both sides a comparison is an
invariant.
-/
namespace Unmangle

/-- What counts as alike. A world says how far both parses have come. -/
structure Comparison where
  World : Type
  [order : Preorder World]
  cursor : Cursor → Cursor → Prop
  text : Text → Text → Prop
  bits : FloatFormat → Text → Text → Prop
  name : World → NodeId → NodeId → Prop
  list : World → NodeList → NodeList → Prop
  tree : World → Tree → Tree → Prop
  table : World → Substitutions → Substitutions → Prop
  /-- What the first parse may come across. -/
  event : Event → Prop
  /-- Where the comparison gives up: nothing is claimed of a run with such an event. -/
  lost : Event → Prop
  /-- Faults of the first parse behind which nothing is claimed of the second. -/
  withheld : Fault → Prop := fun _ => False

namespace Comparison

instance (C : Comparison) : Preorder C.World := C.order

variable (C : Comparison) {α β γ δ : Type}

def likeness (w : C.World) : Likeness where
  child := C.name w
  target := Option.Rel (C.name w)
  list := C.list w
  text := C.text
  bits := C.bits

def Names (w : C.World) (ids ids' : Array NodeId) : Prop :=
  List.Forall₂ (C.name w) ids.toList ids'.toList

/-- Both parses are in such states. -/
structure State (w : C.World) (s s' : ParseState) : Prop where
  cursor : C.cursor s.cursor s'.cursor
  level : s.level = s'.level
  tree : C.tree w s.work.tree s'.work.tree
  table : C.table w s.work.substitutions s'.work.substitutions
  forward : C.Names w s.work.forward s'.work.forward
  levels : s.work.scopes.levels = s'.work.scopes.levels
  outer : C.Names w s.work.scopes.outer s'.work.scopes.outer
  facts : s.facts = s'.facts
  templateArgsAllowed : s.templateArgsAllowed = s'.templateArgsAllowed
  forwardAllowed : s.forwardAllowed = s'.forwardAllowed
  lambdaLevel : s.lambdaLevel = s'.lambdaLevel

/-- Both steps gave alike values, or both failed with one fault, or the first was withheld. -/
inductive Outcome (w : C.World) (s : ParseState) (Q : C.World → α → β → Prop) :
    EStateM.Result Fault ParseState α → EStateM.Result Fault ParseState β → Prop
  | ok {v a b t t'} (later : w ≤ v) (state : C.State v t t') (level : t.level = s.level)
      (value : Q v a b) : Outcome w s Q (.ok a t) (.ok b t')
  | error {v fault t t'} (later : w ≤ v) (state : C.State v t t') (level : t.level = s.level) :
      Outcome w s Q (.error fault t) (.error fault t')
  | withheld {fault t r'} (gone : C.withheld fault) : Outcome w s Q (.error fault t) r'

/-- One step follows another from where both are. -/
def FollowsFrom (s s' : ParseState) (w : C.World) (p : Parse α) (p' : Parse β)
    (Q : C.World → α → β → Prop) : Prop :=
  (∀ e, p.happens s e → ¬C.lost e) →
    (∀ e, p.happens s e → C.event e) ∧ C.Outcome w s Q (p.run s) (p'.run s')

/-- One step follows another: from alike states to alike states and values. -/
def Follows (w : C.World) (p : Parse α) (p' : Parse β) (Q : C.World → α → β → Prop) : Prop :=
  ∀ s s', C.State w s s' → C.FollowsFrom s s' w p p' Q

/-- Every rule follows itself. -/
def Reads (call call' : Calls) : Prop :=
  ∀ rule w, C.Follows w (call rule) (call' rule) C.name

/-- A rule may be read wherever reading it keeps both parses alike. -/
def MayRead (rule : Rule) : Prop :=
  ∀ {s s' a b t t'}, (∃ w, C.State w s s') →
    (∀ w, C.State w s s' → ∃ v, w ≤ v ∧ C.State v t t' ∧ C.name v a b) →
    C.event (.reads rule s a t)

/-- Limits for both parses. They are the same unless the first may be withheld at its own. -/
structure Limits (limit limit' : Nat) : Prop where
  le : limit ≤ limit'
  same : C.withheld .tooMuchRecursion ∨ limit' ≤ limit

/-- What the smallest steps of a parse must keep alike. -/
structure Lawful : Prop where
  name_mono {w v : C.World} {a b} : w ≤ v → C.name w a b → C.name v a b
  list_mono {w v : C.World} {l l'} : w ≤ v → C.list w l l' → C.list v l l'
  table_mono {w v : C.World} {u u'} : w ≤ v → C.table w u u' → C.table v u u'
  name_eq_iff {w : C.World} {a a' b b'} : C.name w a a' → C.name w b b' → (a = b ↔ a' = b')
  rest {c c'} : C.cursor c c' → c.rest = c'.rest
  moved {c c'} (n : Nat) : C.cursor c c' → n ≤ c.rest.length →
    C.cursor ⟨c.offset + n, c.rest.drop n⟩ ⟨c'.offset + n, c'.rest.drop n⟩
  span {c c'} (n : Nat) : C.cursor c c' → n ≤ c.rest.length →
    C.text (.span c.offset (c.offset + n)) (.span c'.offset (c'.offset + n))
  literal (words : String) : C.text (.literal words) (.literal words)
  isEmpty {t t'} : C.text t t' → t.isEmpty = t'.isEmpty
  bits {c c'} (format : FloatFormat) : C.cursor c c' → format.digits ≤ c.rest.length →
    (c.rest.take format.digits).all Parse.isHexDigit = true →
    C.bits format (.span c.offset (c.offset + format.digits))
      (.span c'.offset (c'.offset + format.digits))
  alloc {w t t' node node'} : C.tree w t t' → Node.Alike (C.likeness w) node node' →
    ∃ v, w ≤ v ∧ C.tree v (t.alloc node).2 (t'.alloc node').2 ∧
      C.name v (t.alloc node).1 (t'.alloc node').1
  allocList {w t t' ids ids'} : C.tree w t t' → C.Names w ids ids' →
    ∃ v, w ≤ v ∧ C.tree v (t.allocList ids).2 (t'.allocList ids').2 ∧
      C.list v (t.allocList ids).1 (t'.allocList ids').1
  node {w t t' a b} : C.tree w t t' → C.name w a b →
    Node.Alike (C.likeness w) (t.node a) (t'.node b)
  patch {w t t' a b x y} (index : Nat) : C.tree w t t' → C.name w a b → C.name w x y →
    C.tree w (t.set a (.forwardParam index (some x))) (t'.set b (.forwardParam index (some y)))
  contains {w u u' a b} : C.table w u u' → C.name w a b → u.contains a = u'.contains b
  insert {w u u' a b} : C.table w u u' → C.name w a b → u.contains a = false →
    C.table w (u.insert a) (u'.insert b)
  get? {w u u'} (index : Nat) : C.table w u u' →
    Option.Rel (C.name w) (u.get? index) (u'.get? index)
  visits {w s s'} : C.State w s s' → C.event (.visits s)
  opens {w s s' a b} : C.State w s s' → C.name w a b → C.event (.opens s a)
  reads {rule} : (∀ tracked, rule ≠ .nestedName tracked) → C.MayRead rule
  /-- Where something can be withheld, nothing is asked of what happens. -/
  events {fault} : C.withheld fault → ∀ e, C.event e

/-- What a nested name must keep alike. At its end it takes a component off the list. -/
structure Pops : Prop where
  pop? {w : C.World} {u u'} : C.table w u u' → Option.Rel (C.table w) u.pop? u'.pop?
  reads (tracked : Bool) : C.MayRead (.nestedName tracked)

variable {C} {w : C.World}

namespace State

variable {s s' : ParseState}

theorem setCursor (h : C.State w s s') {c c' : Cursor} (hc : C.cursor c c') :
    C.State w { s with cursor := c } { s' with cursor := c' } :=
  ⟨hc, h.level, h.tree, h.table, h.forward, h.levels, h.outer, h.facts, h.templateArgsAllowed,
    h.forwardAllowed, h.lambdaLevel⟩

/-- States that are alike stay alike in a later world with its trees. -/
theorem mono (law : C.Lawful) {v : C.World} (later : w ≤ v) (h : C.State w s s') {t t' : Tree}
    (ht : C.tree v t t') :
    C.State v { s with work := { s.work with tree := t } }
      { s' with work := { s'.work with tree := t' } } :=
  ⟨h.cursor, h.level, ht, law.table_mono later h.table,
    h.forward.imp fun _ _ => law.name_mono later, h.levels,
    h.outer.imp fun _ _ => law.name_mono later, h.facts, h.templateArgsAllowed,
    h.forwardAllowed, h.lambdaLevel⟩

theorem setTable (h : C.State w s s') {u u' : Substitutions} (hu : C.table w u u') :
    C.State w { s with work := { s.work with substitutions := u } }
      { s' with work := { s'.work with substitutions := u' } } :=
  ⟨h.cursor, h.level, h.tree, hu, h.forward, h.levels, h.outer, h.facts, h.templateArgsAllowed,
    h.forwardAllowed, h.lambdaLevel⟩

theorem setForward (h : C.State w s s') {ids ids' : Array NodeId} (hi : C.Names w ids ids') :
    C.State w { s with work := { s.work with forward := ids } }
      { s' with work := { s'.work with forward := ids' } } :=
  ⟨h.cursor, h.level, h.tree, h.table, hi, h.levels, h.outer, h.facts, h.templateArgsAllowed,
    h.forwardAllowed, h.lambdaLevel⟩

theorem setScopes (h : C.State w s s') {scopes scopes' : TemplateScopes}
    (levels : scopes.levels = scopes'.levels) (outer : C.Names w scopes.outer scopes'.outer) :
    C.State w { s with work := { s.work with scopes := scopes } }
      { s' with work := { s'.work with scopes := scopes' } } :=
  ⟨h.cursor, h.level, h.tree, h.table, h.forward, levels, outer, h.facts,
    h.templateArgsAllowed, h.forwardAllowed, h.lambdaLevel⟩

theorem setLevels (h : C.State w s s') {levels levels' : Array ScopeLevel}
    (hl : levels = levels') :
    C.State w
      { s with work := { s.work with scopes := { s.work.scopes with levels := levels } } }
      { s' with work := { s'.work with scopes := { s'.work.scopes with levels := levels' } } } :=
  h.setScopes hl h.outer

theorem takeLevels (h : C.State w s s') {n n' : Nat} (hn : n = n') :
    C.State w
      { s with work := { s.work with
          scopes := { s.work.scopes with levels := s.work.scopes.levels.take n } } }
      { s' with work := { s'.work with
          scopes := { s'.work.scopes with levels := s'.work.scopes.levels.take n' } } } :=
  h.setLevels (by rw [h.levels, hn])

/-- No template parameters are in scope. -/
theorem unscoped (h : C.State w s s') :
    C.State w { s with work := { s.work with scopes := {} } }
      { s' with work := { s'.work with scopes := {} } } :=
  h.setScopes rfl .nil

theorem setFacts (h : C.State w s s') {facts facts' : NameFacts} (hf : facts = facts') :
    C.State w { s with facts := facts } { s' with facts := facts' } :=
  ⟨h.cursor, h.level, h.tree, h.table, h.forward, h.levels, h.outer, hf,
    h.templateArgsAllowed, h.forwardAllowed, h.lambdaLevel⟩

theorem setFlags (h : C.State w s s') {args args' ahead ahead' : Bool} {lambda lambda' : Option Nat}
    (ha : args = args') (hf : ahead = ahead') (hl : lambda = lambda') :
    C.State w
      { s with templateArgsAllowed := args, forwardAllowed := ahead, lambdaLevel := lambda }
      { s' with templateArgsAllowed := args', forwardAllowed := ahead', lambdaLevel := lambda' } :=
  ⟨h.cursor, h.level, h.tree, h.table, h.forward, h.levels, h.outer, h.facts, ha, hf, hl⟩

theorem setLevel (h : C.State w s s') {n n' : Nat} (hn : n = n') :
    C.State w { s with level := n } { s' with level := n' } :=
  ⟨h.cursor, hn, h.tree, h.table, h.forward, h.levels, h.outer, h.facts, h.templateArgsAllowed,
    h.forwardAllowed, h.lambdaLevel⟩

end State

/-- Two outcomes that are alike are both a success or both the same fault, or the first is withheld. -/
theorem Outcome.elim {s : ParseState} {Q : C.World → α → β → Prop} {r r'}
    (h : C.Outcome w s Q r r') :
    (∃ v a b t t', r = .ok a t ∧ r' = .ok b t' ∧ w ≤ v ∧ C.State v t t' ∧ t.level = s.level ∧
      Q v a b) ∨
    (∃ v fault t t', r = .error fault t ∧ r' = .error fault t' ∧ w ≤ v ∧ C.State v t t' ∧
      t.level = s.level) ∨
    ∃ fault t, r = .error fault t ∧ C.withheld fault := by
  cases h with
  | ok later state level value => exact .inl ⟨_, _, _, _, _, rfl, rfl, later, state, level, value⟩
  | error later state level => exact .inr (.inl ⟨_, _, _, _, rfl, rfl, later, state, level⟩)
  | withheld gone => exact .inr (.inr ⟨_, _, rfl, gone⟩)

namespace Follows

variable {p : Parse α} {p' : Parse β} {Q : C.World → α → β → Prop}
  {R : C.World → γ → δ → Prop}

theorem pure {a : α} {b : β} (h : Q w a b) : C.Follows w (Pure.pure a) (Pure.pure b) Q :=
  fun _ _ hs _ => ⟨fun _ he => he.elim, .ok le_rfl hs rfl h⟩

theorem throw (fault : Fault) : C.Follows w (Parse.throw fault) (Parse.throw fault) Q :=
  fun _ _ hs _ => ⟨fun _ he => he.elim, .error le_rfl hs rfl⟩

/-- Two steps in a row are compared one after the other. -/
theorem bind {f : α → Parse γ} {f' : β → Parse δ} (h : C.Follows w p p' Q)
    (hf : ∀ v, w ≤ v → ∀ a b, Q v a b → C.Follows v (f a) (f' b) R) :
    C.Follows w (p >>= f) (p' >>= f') R := by
  intro s s' hs kept
  obtain ⟨events, outcome⟩ := h s s' hs fun e he => kept e (.inl he)
  obtain ⟨v, a, b, t, t', hr, hr', later, state, level, value⟩ |
    ⟨v, fault, t, t', hr, hr', later, state, level⟩ | ⟨fault, t, hr, gone⟩ := outcome.elim
  · obtain ⟨events', outcome'⟩ := hf v later a b value t t' state
      fun e he => kept e (.inr ⟨a, t, hr, he⟩)
    refine ⟨?_, ?_⟩
    · rintro e (he | ⟨a', u, ha, he⟩)
      · exact events e he
      · obtain ⟨rfl, rfl⟩ := EStateM.Result.ok.inj (hr.symm.trans ha)
        exact events' e he
    · rw [Parse.run_bind_ok f hr, Parse.run_bind_ok f' hr']
      obtain ⟨x, c, d, u, u', hr, hr', later', state, level', value⟩ |
        ⟨x, fault, u, u', hr, hr', later', state, level'⟩ | ⟨fault, u, hr, gone⟩ := outcome'.elim
      · rw [hr, hr']
        exact .ok (later.trans later') state (level'.trans level) value
      · rw [hr, hr']
        exact .error (later.trans later') state (level'.trans level)
      · rw [hr]
        exact .withheld gone
  · refine ⟨?_, ?_⟩
    · rintro e (he | ⟨a', u, ha, -⟩)
      · exact events e he
      · cases hr.symm.trans ha
    · rw [Parse.run_bind_error f hr, Parse.run_bind_error f' hr']
      exact .error later state level
  · refine ⟨?_, ?_⟩
    · rintro e (he | ⟨a', u, ha, -⟩)
      · exact events e he
      · cases hr.symm.trans ha
    · rw [Parse.run_bind_error f hr]
      exact .withheld gone

/-- What the first steps come to is not needed behind them. -/
theorem seq {q : Parse γ} {q' : Parse δ} (h : C.Follows w p p' Q)
    (next : ∀ v, w ≤ v → C.Follows v q q' R) :
    C.Follows w (do let _ ← p; q) (do let _ ← p'; q') R :=
  h.bind fun v later _ _ _ => next v later

theorem get : C.Follows w (MonadState.get : Parse ParseState) MonadState.get C.State :=
  fun _ _ hs _ => ⟨fun _ he => he.elim, .ok le_rfl hs rfl hs⟩

theorem ite {c : Prop} [Decidable c] {q : Parse α} {q' : Parse β}
    (yes : c → C.Follows w p p' Q) (no : ¬c → C.Follows w q q' Q) :
    C.Follows w (if c then p else q) (if c then p' else q') Q := by
  split
  · exact yes ‹_›
  · exact no ‹_›

section Lawful

variable (law : C.Lawful)
include law

theorem step {run run'} (h : ∀ s s', C.State w s s' → C.Outcome w s Q (run s) (run' s')) :
    C.Follows w (Parse.step run) (Parse.step run') Q := by
  intro s s' hs _
  refine ⟨?_, h s s' hs⟩
  rintro e rfl
  obtain ⟨v, a, b, t, t', hr, hr', later, state, level, value⟩ |
    ⟨v, fault, t, t', hr, hr', later, state, level⟩ | ⟨fault, t, hr, gone⟩ := (h s s' hs).elim
  · rw [hr]
    exact law.visits state
  · rw [hr]
    exact law.visits state
  · exact law.events gone _

theorem modified {f f' : ParseState → ParseState}
    (h : ∀ s s', C.State w s s' → C.State w (f s) (f' s'))
    (level : ∀ s, (f s).level = s.level) :
    C.Follows w (modify f : Parse Unit) (modify f') fun _ _ _ => True :=
  step law fun s s' hs => .ok le_rfl (h s s' hs) (level s) trivial

/-- A change that comes behind a step in any case is compared where it is made. -/
theorem thenAlways {change change' : ParseState → ParseState} (h : C.Follows w p p' Q)
    (hc : ∀ v, w ≤ v → ∀ t t', C.State v t t' → C.State v (change t) (change' t'))
    (level : ∀ t, (change t).level = t.level) :
    C.Follows w (p.thenAlways change) (p'.thenAlways change') Q := by
  intro s s' hs kept
  obtain ⟨events, outcome⟩ := h s s' hs fun e he => kept e (.inl he)
  obtain ⟨v, a, b, t, t', hr, hr', later, state, same, value⟩ |
    ⟨v, fault, t, t', hr, hr', later, state, same⟩ | ⟨fault, t, hr, gone⟩ := outcome.elim
  · have changed := hc v later t t' state
    refine ⟨?_, ?_⟩
    · rintro e (he | rfl)
      · exact events e he
      · rw [hr]
        exact law.visits changed
    · simp only [Parse.thenAlways, hr, hr']
      exact .ok later changed ((level t).trans same) value
  · have changed := hc v later t t' state
    refine ⟨?_, ?_⟩
    · rintro e (he | rfl)
      · exact events e he
      · rw [hr]
        exact law.visits changed
    · simp only [Parse.thenAlways, hr, hr']
      exact .error later changed ((level t).trans same)
  · refine ⟨fun e _ => law.events gone e, ?_⟩
    simp only [Parse.thenAlways, hr]
    exact .withheld gone

/-- What holds one level deeper holds at this level. -/
theorem deeperFrom {s s' : ParseState} (hs : C.State w s s') {limit limit' : Nat}
    (limits : C.Limits limit limit')
    (h : s.level + 1 < limit →
      C.FollowsFrom { s with level := s.level + 1 } { s' with level := s'.level + 1 } w p p' Q) :
    C.FollowsFrom s s' w (p.deeper limit) (p'.deeper limit') Q := by
  intro kept
  by_cases room : s.level + 1 < limit
  · have room' : s'.level + 1 < limit' := Nat.lt_of_lt_of_le (hs.level ▸ room) limits.le
    have inside : C.State w { s with level := s.level + 1 } { s' with level := s'.level + 1 } :=
      hs.setLevel (congrArg (· + 1) hs.level)
    have kept' := fun e he => kept e ((Parse.happens_deeper_of_lt room e).mpr (.inr he))
    obtain ⟨events, outcome⟩ := h room fun e he => kept' e (.inl he)
    have up {v t t'} (state : C.State v t t') : C.State v (Parse.up t) (Parse.up t') :=
      state.setLevel (congrArg (· - 1) state.level)
    rw [Parse.run_deeper_of_lt room, Parse.run_deeper_of_lt room', Parse.thenAlways,
      Parse.thenAlways]
    obtain ⟨v, a, b, t, t', hr, hr', later, state, level, value⟩ |
      ⟨v, fault, t, t', hr, hr', later, state, level⟩ | ⟨fault, t, hr, gone⟩ := outcome.elim
    · refine ⟨?_, ?_⟩
      · intro e he
        rcases (Parse.happens_deeper_of_lt room e).mp he with rfl | he | rfl
        · exact law.visits inside
        · exact events e he
        · rw [hr]
          exact law.visits (up state)
      · simp only [hr, hr']
        exact .ok later (up state) (by simp [level]) value
    · refine ⟨?_, ?_⟩
      · intro e he
        rcases (Parse.happens_deeper_of_lt room e).mp he with rfl | he | rfl
        · exact law.visits inside
        · exact events e he
        · rw [hr]
          exact law.visits (up state)
      · simp only [hr, hr']
        exact .error later (up state) (by simp [level])
    · refine ⟨fun e _ => law.events gone e, ?_⟩
      simp only [hr]
      exact .withheld gone
  · have full := Nat.le_of_not_lt room
    refine ⟨fun e he => (Parse.happens_deeper_of_le full e he).elim, ?_⟩
    rw [Parse.run_deeper_of_le full]
    rcases limits.same with gone | least
    · exact .withheld gone
    · rw [Parse.run_deeper_of_le (Nat.le_trans least (hs.level ▸ full))]
      exact .error le_rfl hs rfl

theorem deeper {limit limit' : Nat} (limits : C.Limits limit limit') (h : C.Follows w p p' Q) :
    C.Follows w (p.deeper limit) (p'.deeper limit') Q :=
  fun _ _ hs => deeperFrom law hs limits fun _ => h _ _ (hs.setLevel (congrArg (· + 1) hs.level))

omit law in
/-- What is said of a rule holds where it is known that the rule was read. -/
theorem reading {rule : Rule} (may : C.MayRead rule) {q q' : Parse NodeId}
    (h : ∀ w, C.Follows w q q' C.name) :
    C.Follows w (q.reading rule) (q'.reading rule) C.name := by
  intro s s' hs kept
  have kept' := fun e he => kept e (.inl he)
  obtain ⟨events, outcome⟩ := h w s s' hs kept'
  refine ⟨?_, outcome⟩
  rintro e (he | ⟨a, t, hr, rfl⟩)
  · exact events e he
  · obtain ⟨v, a', b, u, t', hu, hr', -⟩ | ⟨v, fault, u, t', hu, -⟩ | ⟨fault, u, hu, -⟩ :=
      outcome.elim
    · have anywhere : ∀ w, C.State w s s' → ∃ v, w ≤ v ∧ C.State v t t' ∧ C.name v a b := by
        intro w hs
        have outcome := (h w s s' hs kept').2
        rw [hr, show q'.run s' = .ok b t' from hr'] at outcome
        cases outcome with
        | ok later state level value => exact ⟨_, later, state, value⟩
      exact may ⟨w, hs⟩ anywhere
    · cases hr.symm.trans hu
    · cases hr.symm.trans hu

omit law in
/-- A loop keeps alike what its closing test and its rounds keep alike. -/
theorem repeatUntil {close close' : Parse Bool} {item : α → Parse α} {item' : β → Parse β}
    (mono : ∀ u v, u ≤ v → ∀ a b, Q u a b → Q v a b)
    (hclose : ∀ v, C.Follows v close close' fun _ => Eq)
    (hitem : ∀ v a b, Q v a b → C.Follows v (item a) (item' b) Q) (rounds : List UInt8) :
    ∀ {w a b}, Q w a b →
      C.Follows w (Parse.repeatUntil close item rounds a)
        (Parse.repeatUntil close' item' rounds b) Q := by
  induction rounds with
  | nil => exact fun _ => throw _
  | cons _ rounds ih =>
    intro w a b h
    refine (hclose w).bind ?_
    rintro v later closed _ rfl
    refine ite (fun _ => pure (mono w v later a b h)) fun _ => ?_
    apply (hitem v a b (mono w v later a b h)).bind
    intro _ _ _ _ h
    exact ih h

end Lawful
end Follows
end Comparison
end Unmangle
