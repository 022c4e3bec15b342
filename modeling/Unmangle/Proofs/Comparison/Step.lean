import Mathlib.Data.List.Forall2
import Unmangle.Proofs.Comparison.Basic
import Unmangle.Proofs.Grammar.Cursor

/-!
# The smallest steps side by side

Every token, number and table step keeps alike what a lawful comparison compares.
-/
namespace Unmangle

namespace Comparison

variable {C : Comparison} {w v : C.World}

theorem Names.nil : C.Names w #[] #[] :=
  List.Forall₂.nil

theorem Names.push {ids ids' : Array NodeId} {a b : NodeId} (h : C.Names w ids ids')
    (hid : C.name w a b) : C.Names w (ids.push a) (ids'.push b) := by
  simpa [Names] using List.rel_append h (.cons hid .nil)

theorem Names.get? {ids ids' : Array NodeId} (h : C.Names w ids ids') (index : Nat) :
    Option.Rel (C.name w) ids[index]? ids'[index]? := by
  rw [← Array.getElem?_toList, ← Array.getElem?_toList]
  exact rel_getElem? h index

/-- A template parameter stands for alike arguments. -/
theorem State.argument? {s s' : ParseState} (h : C.State w s s') (level index : Nat) :
    Option.Rel (C.name w) (s.work.scopes.argument? level index)
      (s'.work.scopes.argument? level index) := by
  rw [TemplateScopes.argument?, TemplateScopes.argument?, ← h.levels]
  split
  · exact h.outer.get? index
  · exact .none

namespace Lawful

variable (law : C.Lawful) {c c' : Cursor}
include law

theorem peekAt (h : C.cursor c c') (distance : Nat) : c.peekAt distance = c'.peekAt distance := by
  rw [Cursor.peekAt, Cursor.peekAt, law.rest h]

theorem atEnd (h : C.cursor c c') : c.atEnd = c'.atEnd := by
  rw [Cursor.atEnd, Cursor.atEnd, law.rest h]

/-- Both cursors move over the next byte. -/
theorem next {offset offset' : Nat} {byte byte' : UInt8} {rest rest' : List UInt8}
    (h : C.cursor ⟨offset, byte :: rest⟩ ⟨offset', byte' :: rest'⟩) :
    C.cursor ⟨offset + 1, rest⟩ ⟨offset' + 1, rest'⟩ :=
  law.moved 1 h (by simp)

theorem advance (h : C.cursor c c') (count : Nat) : C.cursor (c.advance count) (c'.advance count) := by
  induction count generalizing c c' with
  | zero => exact h
  | succ count ih =>
    have hrest := law.rest h
    obtain ⟨offset, _ | ⟨byte, rest⟩⟩ := c <;> obtain ⟨offset', _ | ⟨byte', rest'⟩⟩ := c'
    · exact h
    · cases hrest
    · cases hrest
    · exact ih (law.next h)

theorem strip? (h : C.cursor c c') (token : List Char) :
    Option.Rel C.cursor (c.strip? token) (c'.strip? token) := by
  induction token generalizing c c' with
  | nil => exact .some h
  | cons char token ih =>
    have hrest := law.rest h
    obtain ⟨offset, _ | ⟨byte, rest⟩⟩ := c <;> obtain ⟨offset', _ | ⟨byte', rest'⟩⟩ := c'
    · exact .none
    · cases hrest
    · cases hrest
    · obtain ⟨rfl, rfl⟩ := List.cons.inj hrest
      rw [Cursor.strip?, Cursor.strip?]
      split
      · exact ih (law.next h)
      · exact .none

/-- Both cursors move over so many bytes, or both come to the end before. -/
theorem take? (h : C.cursor c c') (count : Nat) :
    Option.Rel
      (fun d d' => count ≤ c.rest.length ∧ d = c.skip count ∧ d' = c'.skip count ∧ C.cursor d d')
      (c.take? count) (c'.take? count) := by
  rw [Cursor.take?_eq, Cursor.take?_eq, ← law.rest h]
  split
  · exact .some ⟨‹_›, rfl, rfl, law.moved count h ‹_›⟩
  · exact .none

/-- Cursors that are alike span the same bytes. -/
theorem spanWhile (h : C.cursor c c') (property : UInt8 → Bool) :
    (c.spanWhile property).1 = (c'.spanWhile property).1 ∧
      C.cursor (c.spanWhile property).2 (c'.spanWhile property).2 := by
  have hrun : (c.spanWhile property).1 = (c'.spanWhile property).1 :=
    congrArg (List.takeWhile property) (law.rest h)
  obtain ⟨fits, hc⟩ := c.spanWhile_eq property
  obtain ⟨-, hc'⟩ := c'.spanWhile_eq property
  rw [hc, hc', ← hrun]
  exact ⟨rfl, law.moved _ h fits⟩

theorem empty : C.text .empty .empty :=
  law.literal ""

theorem option_mono {o o' : Option NodeId} (later : w ≤ v) (h : Option.Rel (C.name w) o o') :
    Option.Rel (C.name v) o o' := by
  cases h with
  | some h => exact .some (law.name_mono later h)
  | none => exact .none

theorem names_mono {ids ids' : Array NodeId} (later : w ≤ v) (h : C.Names w ids ids') :
    C.Names v ids ids' :=
  h.imp fun _ _ => law.name_mono later

/-- Both cursors move over the sign of a number, or both stay. -/
theorem signed (h : C.cursor c c') (signed : Bool) :
    ∃ n ≤ c.rest.length,
      (if signed then (c.strip? ['n']).getD c else c) = c.skip n ∧
      (if signed then (c'.strip? ['n']).getD c' else c') = c'.skip n := by
  cases signed with
  | false => exact ⟨0, Nat.zero_le _, rfl, rfl⟩
  | true =>
    have hc := law.strip? h ['n']
    cases ho : c.strip? ['n'] with
    | none =>
      rw [ho] at hc
      refine ⟨0, Nat.zero_le _, rfl, ?_⟩
      generalize c'.strip? ['n'] = o' at hc
      cases hc
      rfl
    | some d =>
      obtain ⟨fits, rfl⟩ := Cursor.strip?_eq_some ho
      refine ⟨1, fits, rfl, ?_⟩
      rw [ho] at hc
      cases ho' : c'.strip? ['n'] with
      | none => rw [ho'] at hc; cases hc
      | some d' =>
        obtain ⟨-, rfl⟩ := Cursor.strip?_eq_some ho'
        rfl

end Lawful

namespace Follows

variable {α β : Type} (law : C.Lawful)
include law

theorem peekAt (distance : Nat) :
    C.Follows w (Parse.peekAt distance) (Parse.peekAt distance) fun _ => Eq := by
  apply get.bind
  intro _ _ _ _ h
  exact pure (law.peekAt h.cursor distance)

theorem peek : C.Follows w Parse.peek Parse.peek fun _ => Eq := by
  apply get.bind
  intro _ _ _ _ h
  exact pure (law.peekAt h.cursor 0)

theorem peekPair : C.Follows w Parse.peekPair Parse.peekPair fun _ => Eq := by
  apply get.bind
  intro _ _ _ _ h
  exact pure (Prod.ext (law.peekAt h.cursor 0) (law.peekAt h.cursor 1))

theorem atEnd : C.Follows w Parse.atEnd Parse.atEnd fun _ => Eq := by
  apply get.bind
  intro _ _ _ _ h
  exact pure (law.atEnd h.cursor)

theorem advance (count : Nat) :
    C.Follows w (Parse.advance count) (Parse.advance count) fun _ _ _ => True :=
  modified law (fun _ _ h => h.setCursor (law.advance h.cursor count)) fun _ => rfl

theorem lookingAt (token : String) :
    C.Follows w (Parse.lookingAt token) (Parse.lookingAt token) fun _ => Eq := by
  apply get.bind
  intro v _ s s' h
  refine pure ?_
  have hc := law.strip? h.cursor token.toList
  generalize s.cursor.strip? token.toList = o at hc ⊢
  generalize s'.cursor.strip? token.toList = o' at hc ⊢
  cases hc <;> rfl

/-- A token is accepted on both sides or on neither. -/
theorem accept (token : String) :
    C.Follows w (Parse.accept token) (Parse.accept token) fun _ => Eq := by
  refine step law ?_
  intro s s' h
  have hc := law.strip? h.cursor token.toList
  generalize s.cursor.strip? token.toList = o at hc ⊢
  generalize s'.cursor.strip? token.toList = o' at hc ⊢
  cases hc with
  | some hc => exact .ok le_rfl (h.setCursor hc) rfl rfl
  | none => exact .ok le_rfl h rfl rfl

theorem unexpected {Q : C.World → α → β → Prop} :
    C.Follows w Parse.unexpected Parse.unexpected Q := by
  refine (atEnd law).bind ?_
  rintro v later ended _ rfl
  exact ite (fun _ => throw _) fun _ => throw _

omit law in
theorem ensure {held held' : Bool} {p p' : Parse Unit} (same : held = held')
    (h : C.Follows w p p' fun _ _ _ => True) :
    C.Follows w (Parse.ensure held p) (Parse.ensure held' p') fun _ _ _ => True := by
  subst same
  exact ite (fun _ => pure trivial) fun _ => h

omit law in
/-- Behind a test that would have failed the parse, it is known to have held. -/
theorem ensure_throw (held : Bool) (fault : Fault) :
    C.Follows w (Parse.ensure held (Parse.throw fault)) (Parse.ensure held (Parse.throw fault))
      fun _ _ _ => held = true := by
  cases held with
  | false => exact throw fault
  | true => exact pure rfl

theorem expect (token : String) :
    C.Follows w (Parse.expect token) (Parse.expect token) fun _ _ _ => True := by
  refine (accept law token).bind ?_
  rintro v later taken _ rfl
  exact ensure rfl (unexpected law)

omit law in
theorem orFault {R : C.World → α → β → Prop} {o o'} (h : Option.Rel (R w) o o') (fault : Fault) :
    C.Follows w (Parse.orFault o fault) (Parse.orFault o' fault) R := by
  cases h with
  | some h => exact pure h
  | none => exact throw fault

omit law in
theorem orFault_self (o : Option α) (fault : Fault) :
    C.Follows w (Parse.orFault o fault) (Parse.orFault o fault) fun _ => Eq := by
  cases o with
  | some value => exact pure rfl
  | none => exact throw fault

theorem remainder : C.Follows w Parse.remainder Parse.remainder fun _ => C.text := by
  refine step law ?_
  intro s s' h
  obtain ⟨hrun, hc⟩ := law.spanWhile h.cursor fun _ => true
  obtain ⟨fits, -⟩ := s.cursor.spanWhile_eq fun _ => true
  have htext := law.span _ h.cursor fits
  refine .ok le_rfl (h.setCursor hc) rfl ?_
  change C.text _ (.span _ (_ + (s'.cursor.spanWhile fun _ => true).1.length))
  rw [← hrun]
  exact htext

theorem make {node node' : Node} (h : Node.Alike (C.likeness w) node node') :
    C.Follows w (Parse.make node) (Parse.make node') C.name := by
  refine step law ?_
  intro s s' hs
  obtain ⟨v, later, tree, name⟩ := law.alloc hs.tree h
  exact .ok later (hs.mono law later tree) rfl name

theorem makeList {ids ids' : Array NodeId} (h : C.Names w ids ids') :
    C.Follows w (Parse.makeList ids) (Parse.makeList ids') C.list := by
  refine step law ?_
  intro s s' hs
  obtain ⟨v, later, tree, list⟩ := law.allocList hs.tree h
  exact .ok later (hs.mono law later tree) rfl list

theorem makeName (words : String) :
    C.Follows w (Parse.makeName words) (Parse.makeName words) C.name :=
  make law (.name (law.literal words))

theorem node {a b : NodeId} (h : C.name w a b) :
    C.Follows w (Parse.node a) (Parse.node b) fun v => Node.Alike (C.likeness v) := by
  intro s s' hs _
  refine ⟨?_, .ok le_rfl hs rfl (law.node hs.tree h)⟩
  rintro e rfl
  exact law.opens hs h

theorem enlist {a b : NodeId} (h : C.name w a b) :
    C.Follows w (Parse.enlist a) (Parse.enlist b) fun _ _ _ => True := by
  refine step law ?_
  intro s s' hs
  have same := law.contains hs.table h
  cases listed : s.work.substitutions.contains a with
  | true =>
    simp only [listed, ← same, ↓reduceIte]
    exact .error le_rfl hs rfl
  | false =>
    simp only [listed, ← same, Bool.false_eq_true, ↓reduceIte]
    exact .ok le_rfl (hs.setTable (law.insert hs.table h listed)) rfl trivial

/-- The newest component goes off both lists, if it may. -/
theorem delist (pops : C.Pops) :
    C.Follows w Parse.delist Parse.delist fun _ _ _ => True := by
  apply get.bind
  intro _ _ s s' hs
  apply (orFault (R := C.table) (pops.pop? hs.table) _).bind
  intro _ _ table table' htable
  exact modified law (fun _ _ ht => ht.setTable htable) fun _ => rfl

theorem listed (index : Nat) :
    C.Follows w (Parse.listed index) (Parse.listed index) C.name := by
  apply get.bind
  intro _ _ _ _ hs
  exact orFault (law.get? index hs.table) _

theorem addArgument {a b : NodeId} (h : C.name w a b) :
    C.Follows w (Parse.addArgument a) (Parse.addArgument b) fun _ _ _ => True := by
  exact step law fun s s' hs => .ok le_rfl (hs.setScopes hs.levels (hs.outer.push h)) rfl trivial

theorem setScopes {scopes scopes' : TemplateScopes} (levels : scopes.levels = scopes'.levels)
    (outer : C.Names w scopes.outer scopes'.outer) :
    C.Follows w (Parse.setScopes scopes) (Parse.setScopes scopes') fun _ _ _ => True :=
  modified law (fun _ _ hs => hs.setScopes levels outer) fun _ => rfl

theorem setLevels (levels : Array ScopeLevel) :
    C.Follows w (Parse.setLevels levels) (Parse.setLevels levels) fun _ _ _ => True :=
  modified law (fun _ _ hs => hs.setLevels rfl) fun _ => rfl

omit law in
theorem onlyIf {c : Prop} [Decidable c] {p p' : Parse Unit}
    (h : c → C.Follows w p p' fun _ _ _ => True) :
    C.Follows w (if c then p else Pure.pure ()) (if c then p' else Pure.pure ())
      fun _ _ _ => True :=
  ite h fun _ => pure trivial

omit law in
theorem unlessHeld {c : Prop} [Decidable c] {p p' : Parse Unit}
    (h : ¬c → C.Follows w p p' fun _ _ _ => True) :
    C.Follows w (if c then Pure.pure () else p) (if c then Pure.pure () else p')
      fun _ _ _ => True :=
  ite (fun _ => pure trivial) h

theorem learn (tracked : Bool) (change : NameFacts → NameFacts) :
    C.Follows w (Parse.learn tracked change) (Parse.learn tracked change) fun _ _ _ => True :=
  ite (fun _ => modified law (fun _ _ hs => hs.setFacts (congrArg change hs.facts)) fun _ => rfl)
    fun _ => pure trivial

theorem digits (property : UInt8 → Bool) :
    C.Follows w (Parse.digits property) (Parse.digits property) fun _ => Eq := by
  refine step law ?_
  intro s s' hs
  obtain ⟨hrun, hc⟩ := law.spanWhile hs.cursor property
  exact .ok le_rfl (hs.setCursor hc) rfl hrun

/-- Numbers are read alike. -/
theorem number (signed : Bool) :
    C.Follows w (Parse.number signed) (Parse.number signed) fun _ => C.text := by
  refine step law ?_
  intro s s' hs
  obtain ⟨n, fits, hd, hd'⟩ := law.signed hs.cursor signed
  have hmoved : C.cursor (s.cursor.skip n) (s'.cursor.skip n) := law.moved n hs.cursor fits
  obtain ⟨hrun, hc⟩ := law.spanWhile hmoved Number.isDigit
  obtain ⟨fits', hbehind⟩ := (s.cursor.skip n).spanWhile_eq Number.isDigit
  obtain ⟨-, hbehind'⟩ := (s'.cursor.skip n).spanWhile_eq Number.isDigit
  simp only [hd, hd']
  generalize (s.cursor.skip n).spanWhile Number.isDigit = r at *
  generalize (s'.cursor.skip n).spanWhile Number.isDigit = r' at *
  obtain ⟨run, d⟩ := r
  obtain ⟨run', d'⟩ := r'
  dsimp only at hrun hc hbehind hbehind' fits'
  subst hrun
  cases run with
  | nil => exact .ok le_rfl hs rfl law.empty
  | cons digit run =>
    refine .ok le_rfl (hs.setCursor hc) rfl ?_
    rw [hbehind, hbehind', Cursor.skip_skip, Cursor.skip_skip]
    refine law.span _ hs.cursor ?_
    simp only [Cursor.skip, List.length_drop] at fits'
    omega

/-- Digits come to the same value on both sides. -/
theorem value (base : Nat) (property : UInt8 → Bool) :
    C.Follows w (Parse.value base property) (Parse.value base property) fun _ => Eq := by
  refine (digits law property).bind ?_
  rintro v later run _ rfl
  split
  · exact unexpected law
  · exact orFault_self _ _

theorem decimal : C.Follows w Parse.decimal Parse.decimal fun _ => Eq :=
  value law 10 _

theorem seqId : C.Follows w Parse.seqId Parse.seqId fun _ => Eq :=
  value law 36 _

theorem atEncodingEnd : C.Follows w Parse.atEncodingEnd Parse.atEncodingEnd fun _ => Eq := by
  apply get.bind
  intro v later s s' hs
  rw [← law.rest hs.cursor]
  split <;> exact pure rfl

theorem skipDiscriminator :
    C.Follows w Parse.skipDiscriminator Parse.skipDiscriminator fun _ _ _ => True := by
  refine (peek law).bind ?_
  rintro _ _ first _ rfl
  refine ite (fun _ => pure trivial) fun _ => get.bind fun _ _ s s' hs => ?_
  refine (peekAt law 1).bind ?_
  rintro _ _ second _ rfl
  refine ite (fun _ => advance law 2) fun _ => ite (fun _ => ?_) fun _ => pure trivial
  apply (advance law 2).seq
  intro _ _
  apply (number law false).bind
  intro _ _ t t' ht
  rw [← law.isEmpty ht]
  refine (ite (fun _ => pure rfl) fun _ => accept law "_").bind ?_
  rintro _ _ closed _ rfl
  exact ensure rfl (modified law (fun _ _ ht => ht.setCursor hs.cursor) fun _ => rfl)

theorem qualifiers : C.Follows w Parse.qualifiers Parse.qualifiers fun _ => Eq := by
  refine (accept law "r").bind ?_
  rintro _ _ isRestrict _ rfl
  refine (accept law "V").bind ?_
  rintro _ _ isVolatile _ rfl
  refine (accept law "K").bind ?_
  rintro _ _ isConst _ rfl
  exact pure rfl

/-- Identifiers are read alike, with the same bytes behind them. -/
theorem identifierFrom :
    C.Follows w Parse.identifierFrom Parse.identifierFrom fun _ r r' =>
      C.text r.1 r'.1 ∧ r.2.rest = r'.2.rest := by
  refine (decimal law).bind ?_
  rintro _ _ length _ rfl
  apply (ensure rfl (throw _)).seq
  intro _ _
  apply get.bind
  intro v _ s s' hs
  refine (orFault (R := fun _ => _) (law.take? hs.cursor length) _).bind ?_
  rintro _ _ d d' ⟨fits, rfl, rfl, hc⟩
  apply Follows.bind (modified law (fun _ _ ht => ht.setCursor hc) fun _ => rfl)
  intro _ _ _ _ _
  refine pure ⟨?_, ?_⟩
  · exact law.span _ hs.cursor fits
  · exact congrArg (List.take length) (law.rest hs.cursor)

theorem identifier : C.Follows w Parse.identifier Parse.identifier fun _ => C.text := by
  apply (identifierFrom law).bind
  intro _ _ _ _ h
  exact pure h.1

omit law in
theorem map {γ δ : Type} {p : Parse α} {p' : Parse β} {Q : C.World → α → β → Prop}
    {R : C.World → γ → δ → Prop} {f : α → γ} {f' : β → δ} (h : C.Follows w p p' Q)
    (hf : ∀ v a b, Q v a b → R v (f a) (f' b)) : C.Follows w (f <$> p) (f' <$> p') R := by
  apply h.bind
  intro v _ a b hab
  exact pure (hf v a b hab)

omit law in
theorem discard {p : Parse α} {p' : Parse β} {Q : C.World → α → β → Prop}
    (h : C.Follows w p p' Q) :
    C.Follows w (Functor.discard p) (Functor.discard p') fun _ _ _ => True :=
  map h fun _ _ _ _ => trivial

theorem patch {a b x y : NodeId} (index : Nat) (h : C.name w a b) (hx : C.name w x y) :
    C.Follows w (Parse.patch a (.forwardParam index (some x)))
      (Parse.patch b (.forwardParam index (some y))) fun _ _ _ => True := by
  intro s s' hs _
  have patched := hs.mono law le_rfl (law.patch index hs.tree h hx)
  refine ⟨?_, .ok le_rfl patched rfl trivial⟩
  rintro e (rfl | rfl)
  · exact law.opens hs h
  · exact law.visits patched

/-- Repetitions are alike if each round and each test is. -/
theorem untilHolds {close close' : Parse Bool} {item : α → Parse α} {item' : β → Parse β}
    {Q : C.World → α → β → Prop} {a b} (mono : ∀ u v, u ≤ v → ∀ a b, Q u a b → Q v a b)
    (hclose : ∀ v, C.Follows v close close' fun _ => Eq)
    (hitem : ∀ v a b, Q v a b → C.Follows v (item a) (item' b) Q) (h : Q w a b) :
    C.Follows w (Parse.untilHolds close a item) (Parse.untilHolds close' b item') Q := by
  apply get.bind
  intro v later s s' hs
  rw [law.rest hs.cursor]
  exact repeatUntil mono hclose hitem _ (mono w v later a b h)

/-- A loop over a name that is put inside another in every round. -/
theorem untilHolds_name {close close' : Parse Bool} {item item' : NodeId → Parse NodeId} {a b}
    (hclose : ∀ v, C.Follows v close close' fun _ => Eq)
    (hitem : ∀ v a b, C.name v a b → C.Follows v (item a) (item' b) C.name) (h : C.name w a b) :
    C.Follows w (Parse.untilHolds close a item) (Parse.untilHolds close' b item') C.name :=
  untilHolds law (fun _ _ later _ _ => law.name_mono later) hclose hitem h

/-- Lists of nodes are read alike if each node is. -/
theorem moreNodes {close close' : Parse Bool} {item item' : Parse NodeId} {nodes nodes'}
    (hclose : ∀ v, C.Follows v close close' fun _ => Eq)
    (hitem : ∀ v, C.Follows v item item' C.name) (h : C.Names w nodes nodes') :
    C.Follows w (Parse.moreNodes close item nodes) (Parse.moreNodes close' item' nodes')
      C.Names := by
  refine untilHolds law (fun _ _ later _ _ => law.names_mono later) hclose ?_ h
  intro v nodes nodes' h
  apply (hitem v).bind
  intro _ later _ _ hid
  exact pure ((law.names_mono later h).push hid)

theorem nodesUntil (token : String) {item item' : Parse NodeId}
    (hitem : ∀ v, C.Follows v item item' C.name) :
    C.Follows w (Parse.nodesUntil token item) (Parse.nodesUntil token item') C.Names :=
  moreNodes law (fun _ => accept law token) hitem Names.nil

theorem someNodes {close close' : Parse Bool} {item item' : Parse NodeId}
    (hclose : ∀ v, C.Follows v close close' fun _ => Eq)
    (hitem : ∀ v, C.Follows v item item' C.name) :
    C.Follows w (Parse.someNodes close item) (Parse.someNodes close' item') C.Names := by
  apply (hitem w).bind
  intro _ _ _ _ h
  exact moreNodes law hclose hitem (.cons h .nil)

end Follows
end Comparison
end Unmangle
