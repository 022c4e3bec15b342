import Unmangle.Proofs.Grammar.Yields
import Unmangle.Proofs.Store.Contents
import Unmangle.Proofs.Substitution.Growth

/-!
# What a nested name lists

A nested name that succeeds lists its complete name last, or it is bare and lists nothing.
-/
namespace Unmangle.Parse.Yields

variable {α : Type} {symbol : ByteArray} {w : List NodeId} {s : ParseState} {out : Event → Prop}
  {Q : α → ParseState → Prop}

/-- A name was listed last, behind others. -/
def ListsLast (w : List NodeId) (scope : Option NodeId) (s : ParseState) : Prop :=
  ∃ id between, scope = some id ∧ s.listed = w ++ between ++ [id]

theorem both {p : Parse α} {Q' : α → ParseState → Prop} (h : Yields out p s Q)
    (h' : Yields out p s Q') : Yields out p s fun a t => Q a t ∧ Q' a t :=
  fun kept a t hr => ⟨h kept a t hr, h' kept a t hr⟩

/-- A step that keeps the beginning of the list. -/
theorem keeps {p : Parse α} {R : List NodeId → α → α → Prop}
    (follows : (growth symbol).Follows w p p R) (listed : w <+: s.listed) :
    Yields (growth symbol).lost p s fun _ t => w <+: t.listed := by
  intro kept a t hr
  obtain ⟨-, outcome⟩ := follows s s (growth.state_self listed) kept
  rw [hr] at outcome
  cases outcome with
  | ok later state => exact later ▸ (growth.state_iff.mp state).2

theorem make (node : Node) {Q : NodeId → ParseState → Prop}
    (h : Q ⟨s.work.tree.size, s.work.tree.generation⟩
      { s with work := { s.work with tree := (s.work.tree.alloc node).2 } }) :
    Yields out (Parse.make node) s Q := by
  refine step ?_
  intro id t hr
  obtain ⟨rfl, rfl⟩ := EStateM.Result.ok.inj hr
  rw [← Store.alloc_name s.work.tree node] at h
  exact h

/-- A component is listed last. -/
theorem enlist {id : NodeId} {Q : Unit → ParseState → Prop}
    (h : ∀ t : ParseState, t.listed = s.listed ++ [id] → Q () t) :
    Yields out (Parse.enlist id) s Q := by
  refine step ?_
  intro _ t
  split
  · rintro ⟨⟩
  · rintro ⟨⟩
    exact h _ (by simp [ParseState.listed, Substitutions.insert])

/-- A component that is listed and handed on. -/
theorem listing (listed : w <+: s.listed) (id : NodeId) :
    Yields out (do Parse.enlist id; return some id) s (ListsLast w) := by
  obtain ⟨between, hlisted⟩ := listed
  exact bind (enlist fun t ht => pure ⟨id, between, rfl, by rw [ht, ← hlisted]⟩)

theorem peek {Q : Char → ParseState → Prop} (h : Q (s.cursor.peekAt 0) s) :
    Yields out Parse.peek s Q :=
  bind (get (pure h))

theorem peekPair {Q : Char × Char → ParseState → Prop}
    (h : Q (s.cursor.peekAt 0, s.cursor.peekAt 1) s) : Yields out Parse.peekPair s Q :=
  bind (get (pure h))

/-- Behind a token that may come next its bytes are passed over. -/
theorem past {token : String} {Q : Bool → ParseState → Prop}
    (h : ∀ found, Q found { s with cursor := s.cursor.past token }) :
    Yields out (Parse.accept token) s Q := by
  refine accept (fun cursor hit => ?_) fun miss => ?_
  · rw [← Cursor.past_of_some hit]
    exact h true
  · have same := h false
    rwa [Cursor.past_of_none miss] at same

theorem value {base : Nat} {property : UInt8 → Bool} {Q : Nat → ParseState → Prop}
    (h : ∀ number, Q number { s with cursor := (s.cursor.spanWhile property).2 }) :
    Yields out (Parse.value base property) s Q := by
  refine bind (step fun run t hr => ?_)
  obtain ⟨rfl, rfl⟩ := EStateM.Result.ok.inj hr
  split
  · exact unexpected
  · exact orFault fun number _ => h number

/-- An identifier moves the cursor and nothing else. -/
theorem identifier {Q : Text → ParseState → Prop}
    (h : ∀ text cursor, Q text { s with cursor := cursor }) :
    Yields out Parse.identifier s Q := by
  apply bind
  apply bind
  apply value
  intro length
  apply bind
  refine ensure (fun _ => ?_) fun _ => throw _
  apply bind
  apply get
  apply bind
  apply orFault
  intro behind _
  apply bind
  apply modified
  exact pure (pure (h _ behind))

/-- Tags behind a name make another name of it. -/
theorem abiTags {name : NodeId} (stored : name.index < s.work.tree.size) :
    Yields out (Parse.abiTags name) s fun id t =>
      id = name ∧ t = s ∨ id ≠ name ∧ Cursor.closes s.cursor.rest = false := by
  refine untilHolds (fun base u => name.index < u.work.tree.size ∧
      (base = name ∧ u = s ∨ base ≠ name ∧ Cursor.closes s.cursor.rest = false))
    (fun base u => name.index < u.work.tree.size ∧ Cursor.closes s.cursor.rest = false)
    ?_ ?_ ⟨stored, .inl ⟨rfl, rfl⟩⟩
  · rintro base u ⟨held, same⟩
    apply bind
    apply bind
    apply get
    refine pure (pure ?_)
    cases htag : u.cursor.strip? "B".toList with
    | none => exact same
    | some behind =>
      refine ⟨held, ?_⟩
      obtain ⟨rfl, rfl⟩ | ⟨-, unclosed⟩ := same
      · obtain ⟨byte, hbyte, hrest⟩ := Cursor.strip?_one htag
        obtain rfl : byte = 66 := UInt8.toNat_inj.mp hbyte
        simp [hrest, Cursor.closes]
      · exact unclosed
  · rintro base u ⟨held, unclosed⟩
    apply bind
    apply expect
    intro _ _
    apply bind
    apply identifier
    intro text cursor
    apply make
    refine ⟨?_, .inr ⟨?_, unclosed⟩⟩
    · rw [Store.size_alloc]
      exact Nat.lt_succ_of_lt held
    · rintro rfl
      exact Nat.lt_irrefl _ held

theorem keptTags {name : NodeId} (stored : name.index < s.work.tree.size) (listed : w <+: s.listed) :
    Yields (growth symbol).lost (Parse.abiTags name) s fun id t =>
      (id = name ∧ t = s ∨ id ≠ name ∧ Cursor.closes s.cursor.rest = false) ∧ w <+: t.listed :=
  both (abiTags stored) (keeps (Comparison.Follows.abiTags growth.lawful rfl) listed)

/-- What a substitution does to the list at a cursor: nothing when it has no tags, and
otherwise it lists what it gives. -/
def Substituted (w : List NodeId) (s : ParseState) (id : NodeId) (t : ParseState) : Prop :=
  ∃ behind, s.cursor.pastSubstitution? = some behind ∧
    (t.listed = s.listed ∧ t.cursor = behind ∨
      ListsLast w (some id) t ∧ Cursor.closes behind.rest = false)

theorem listed {index : Nat} {Q : NodeId → ParseState → Prop} (h : ∀ id, Q id s) :
    Yields out (Parse.listed index) s Q :=
  bind (get (orFault fun id _ => h id))

theorem substitutionBody (listed : w <+: s.listed) :
    Yields (growth symbol).lost Parse.substitution s (Substituted w s) := by
  apply bind
  apply expect
  intro cursor hsub
  apply bind
  apply peek
  have past := Cursor.pastSubstitution?_eq hsub
  refine ite (fun lower => ?_) fun upper => bind (accept (fun behind hit => ?_) fun miss => ?_)
  · rw [if_pos lower] at past
    apply bind
    apply orFault
    intro short _
    apply bind
    apply modified
    apply bind
    apply make
    apply bind
    refine weaken (keptTags (w := w) ?_ ?_) fun tagged t h => ?_
    · rw [Store.size_alloc]
      exact Nat.lt_succ_self _
    · exact listed
    · obtain ⟨⟨rfl, rfl⟩ | ⟨other, unclosed⟩, between, hbetween⟩ := h
      · refine bind (ite (fun _ => pure (pure ?_)) fun other => absurd rfl other)
        exact ⟨_, past, .inl ⟨rfl, rfl⟩⟩
      · refine bind (ite (fun same => absurd same other) fun _ => enlist fun u hu => pure ?_)
        exact ⟨_, past, .inr ⟨⟨tagged, between, rfl, by rw [hu, ← hbetween]⟩, unclosed⟩⟩
  · rw [if_neg upper] at past
    replace past := past.trans (Cursor.pastSeqId?_of_some hit)
    exact ite (fun _ => Yields.listed fun id => ⟨behind, past, .inl ⟨rfl, rfl⟩⟩) fun h => absurd rfl h
  · rw [if_neg upper] at past
    replace past := past.trans (Cursor.pastSeqId?_of_none miss)
    refine ite (fun h => by cases h) fun _ => ?_
    apply bind
    apply value
    intro number
    apply bind
    apply orFault
    intro index _
    apply bind
    apply expect
    intro behind hit
    apply Yields.listed
    exact fun id => ⟨behind, past.trans hit, .inl ⟨rfl, rfl⟩⟩

/-- A substitution finds what was listed, or lists its own name with tags. -/
theorem substitution {limit levels : Nat} (listed : w <+: s.listed) :
    Yields (growth symbol).lost (Rule.parse limit levels .substitution) s fun id t =>
      id.index < t.work.tree.size ∧ Substituted w s id t := by
  cases levels with
  | zero => exact throw _
  | succ levels =>
    have body : Yields (growth symbol).lost Parse.substitution { s with level := s.level + 1 }
        (Substituted w s) := substitutionBody listed
    refine reading (deeper (body.weaken fun id t given allowed => ?_))
    have sound : (Event.reads .substitution s id (up t)).Sound symbol :=
      not_not.mp fun unsound => allowed (.inl unsound)
    exact ⟨sound.2.2.below, given⟩

/-- What one round does to the list and to the scope. -/
inductive Round (w : List NodeId) (scope : Option NodeId) (s : ParseState)
    (after : Option NodeId) (t : ParseState) : Prop
  /-- A member marker is passed over. -/
  | passed (inside : scope.isSome) (same : after = scope) (list : t.listed = s.listed)
      (closes : Cursor.closes s.cursor.rest = Cursor.closes t.cursor.rest)
  /-- The first component is not listed. -/
  | silent (outside : scope = none) (some : after.isSome) (list : t.listed = s.listed)
      (bare : s.cursor.pastScope? = .some t.cursor)
  /-- A component is listed, and it is the scope from then on. -/
  | listed (last : ListsLast w after t) (unbare : Cursor.Unbare scope.isSome s.cursor)

section Parts

open Comparison (Follows)

theorem kept {p : Parse NodeId} (follows : (growth symbol).Follows w p p (growth symbol).name)
    {Q : NodeId → ParseState → Prop} (listed : w <+: s.listed)
    (h : ∀ id t, w <+: t.listed → Q id t) : Yields (growth symbol).lost p s Q :=
  (keeps follows listed).weaken h

/-- A part that is listed comes last. -/
theorem listedPart (tracked : Bool) (scope : Option NodeId) (part : NodeId)
    (listed : w <+: s.listed) :
    Yields (growth symbol).lost (Parse.nestedPart.listedPart tracked scope part) s
      (ListsLast w) := by
  have follows : (growth symbol).Follows w (Parse.component scope part tracked)
      (Parse.component scope part tracked) (growth symbol).name :=
    Follows.component growth.lawful tracked (rel_refl (fun _ => rfl) _) rfl
  exact bind (kept follows listed fun node t listed => listing listed node)

/-- The round of a part that is listed once it was read. -/
theorem listedRound (tracked : Bool) {scope : Option NodeId} {before : ParseState}
    {p : Parse NodeId} (follows : (growth symbol).Follows w p p (growth symbol).name)
    (listed : w <+: s.listed) (unbare : Cursor.Unbare scope.isSome before.cursor) :
    Yields (growth symbol).lost (do Parse.nestedPart.listedPart tracked scope (← p)) s
      (Round w scope before) := by
  apply bind
  refine kept follows listed ?_
  intro part t listed
  refine (listedPart tracked scope part listed).weaken ?_
  intro after u last
  exact .listed last unbare

theorem learn {tracked : Bool} {change : NameFacts → NameFacts} {Q : Unit → ParseState → Prop}
    (h : ∀ facts, Q () { s with facts := facts }) : Yields out (Parse.learn tracked change) s Q :=
  ite (fun _ => modified (h _)) fun _ => pure (h s.facts)

/-- A component that a substitution stands for. On its own it is not listed again. -/
theorem substitutedPart (tracked : Bool) {scope : Option NodeId} {id : NodeId} {t : ParseState}
    (listed : w <+: t.listed) (held : id.index < t.work.tree.size) :
    Yields (growth symbol).lost (do
        let node ← Parse.component scope id tracked
        (if node = id then Pure.pure () else Parse.enlist node)
        return some node) t fun after u =>
      scope = none ∧ after = some id ∧ u.listed = t.listed ∧ u.cursor = t.cursor ∨
        scope.isSome ∧ ListsLast w after u := by
  cases scope with
  | none =>
    apply bind
    apply bind
    apply pure
    apply bind
    apply learn
    intro facts
    apply pure
    apply bind
    refine ite (fun _ => pure (pure ?_)) fun other => absurd rfl other
    exact .inl ⟨rfl, rfl, rfl, rfl⟩
  | some scope =>
    apply bind
    apply bind
    apply make
    apply bind
    apply learn
    intro facts
    apply pure
    apply bind
    refine ite (fun same => ?_) fun _ => enlist fun u hu => pure ?_
    · rw [← same] at held
      exact absurd held (Nat.lt_irrefl _)
    · obtain ⟨between, hbetween⟩ := listed
      exact .inr ⟨rfl, _, between, rfl, by rw [hbetween]; exact hu⟩

variable {limit levels : Nat}

/-- The round of a substitution. -/
theorem substitutedRound (tracked : Bool) {scope : Option NodeId} (listed : w <+: s.listed)
    (notEnd : s.cursor.strip? "E".toList = none)
    (notMember : (s.cursor.past "L").strip? "M".toList = none)
    (alone : scope.isSome = false →
      s.cursor.pastScope? = (s.cursor.past "L").pastSubstitution?) :
    Yields (growth symbol).lost (do
        let id ← Rule.parse limit levels .substitution
        let node ← Parse.component scope id tracked
        (if node = id then Pure.pure () else Parse.enlist node)
        return some node) { s with cursor := s.cursor.past "L" } (Round w scope s) := by
  have read : Yields (growth symbol).lost (Rule.parse limit levels .substitution)
    { s with cursor := s.cursor.past "L" } _ := substitution listed
  refine bind (read.weaken fun id t h => ?_)
  obtain ⟨held, behind, hbehind, given⟩ := h
  have kept : w <+: t.listed := by
    obtain ⟨same, -⟩ | ⟨⟨_, between, -, last⟩, -⟩ := given
    · rw [same]
      exact listed
    · rw [last, List.append_assoc]
      exact List.prefix_append _ _
  refine (substitutedPart tracked kept held).weaken ?_
  intro after u h
  obtain ⟨rfl, rfl, list, cursor⟩ | ⟨inside, last⟩ := h
  · have hscope := (alone rfl).trans hbehind
    obtain ⟨same, rfl⟩ | ⟨⟨_, between, hid, last⟩, unclosed⟩ := given
    · exact .silent rfl rfl (list.trans same) (cursor ▸ hscope)
    · refine .listed ⟨_, between, hid, list.trans last⟩ ?_
      intro behind' h
      rw [Option.some.inj (h.symm.trans hscope)]
      exact unclosed
  · refine .listed last ?_
    rw [inside]
    exact Cursor.closes_of_other notEnd notMember

variable
  (reads : (growth symbol).Reads (Rule.parse limit levels) (Rule.parse limit levels))
include reads

/-- What one part of a nested name does to the list and to the scope. -/
theorem nestedPart (tracked : Bool) {scope : Option NodeId}
    (listed : w <+: s.listed) (notEnd : s.cursor.strip? "E".toList = none)
    (noStd : scope.isSome = false → s.cursor.strip? "St".toList = none) :
    Yields (growth symbol).lost (Parse.nestedPart (Rule.parse limit levels) tracked scope) s
      (Round w scope s) := by
  apply bind
  apply atEnd
  apply bind
  refine ensure (fun _ => ?_) fun _ => throw _
  apply bind
  apply bind
  apply past
  intro _
  apply pure
  apply bind
  refine accept (fun behind hit => ?_) fun miss => ?_
  · refine ite (fun _ => ?_) fun h => absurd rfl h
    apply bind
    refine ensure (fun inside => ?_) fun _ => throw _
    exact pure (.passed inside rfl rfl (Cursor.closes_of_member hit))
  · refine ite (fun h => by cases h) fun _ => ?_
    apply bind
    apply peekPair
    have unbare := Cursor.unbare_of_other notEnd miss noStd
    split
    · rename_i second pair
      have unbare := unbare (by rw [(Prod.mk.inj pair).1]; rfl)
      exact listedRound tracked (Follows.templateParam growth.lawful) listed unbare
    · rename_i second pair
      apply bind
      apply orFault
      intro name _
      apply bind
      refine kept (Follows.instantiate growth.lawful reads tracked rfl) listed ?_
      intro node t listed
      refine (listing listed node).weaken ?_
      intro after t last
      exact .listed last (unbare (by rw [(Prod.mk.inj pair).1]; rfl))
    · rename_i pair
      have unbare := unbare (by rw [(Prod.mk.inj pair).1]; rfl)
      exact listedRound tracked (reads .decltype _) listed unbare
    · rename_i pair
      have unbare := unbare (by rw [(Prod.mk.inj pair).1]; rfl)
      exact listedRound tracked (reads .decltype _) listed unbare
    · rename_i first second _ _ _ _ pair
      obtain ⟨rfl, rfl⟩ := Prod.mk.inj pair
      refine ite (fun substituted => ?_) fun other => ?_
      · have other : (s.cursor.past "L").peekAt 1 ≠ 't' :=
          bne_iff_ne.mp (Bool.and_eq_true_iff.mp substituted).2
        exact substitutedRound tracked listed notEnd miss fun outside => by
          rw [Cursor.pastScope?_of_none (noStd outside), if_neg other]
      · have unbare := unbare (by simpa using other)
        refine ite (fun _ => ?_) fun _ => ?_
        · apply bind
          apply orFault
          intro name _
          apply bind
          refine kept (Follows.structorScope growth.lawful rfl) listed ?_
          intro inside t listed
          apply bind
          refine kept (Follows.structorName growth.lawful reads tracked rfl) listed ?_
          intro structor t listed
          apply bind
          refine kept (Follows.component growth.lawful tracked (.some rfl) rfl) listed ?_
          intro node t listed
          apply bind
          refine kept (Follows.abiTags growth.lawful rfl) listed ?_
          intro node t listed
          exact (listing listed node).weaken fun after t last => .listed last unbare
        · exact listedRound tracked (reads (.unqualifiedName tracked) _) listed unbare

/-- How far a nested name has come, where it is known whether it will turn out bare. -/
inductive Stage (w : List NodeId) (bare : Bool) (scope : Option NodeId) (s : ParseState) : Prop
  | opened (outside : scope = none) (list : s.listed = w)
      (noStd : s.cursor.strip? "St".toList = none)
      (same : bare = s.cursor.pastScope?.any fun behind => Cursor.closes behind.rest)
  | silent (inside : scope.isSome) (list : s.listed = w)
      (same : bare = Cursor.closes s.cursor.rest)
  | listed (last : ListsLast w scope s) (same : bare = false)

omit reads in
/-- At every stage of a nested name what was listed before is still listed. -/
theorem Stage.kept {bare : Bool} {scope : Option NodeId} (h : Stage w bare scope s) :
    w <+: s.listed := by
  cases h with
  | opened _ list => exact list ▸ List.prefix_rfl
  | silent _ list => exact list ▸ List.prefix_rfl
  | listed last =>
    obtain ⟨_, between, -, list⟩ := last
    rw [list, List.append_assoc]
    exact List.prefix_append _ _

omit reads in
theorem Stage.noStd {bare : Bool} {scope : Option NodeId} (h : Stage w bare scope s)
    (outside : scope.isSome = false) : s.cursor.strip? "St".toList = none := by
  cases h with
  | opened _ _ noStd => exact noStd
  | silent inside => cases outside.symm.trans inside
  | listed last =>
    obtain ⟨_, _, rfl, -⟩ := last
    cases outside

omit reads in
/-- A component that is listed makes the name other than bare. -/
theorem Stage.not_bare {bare : Bool} {scope : Option NodeId} (h : Stage w bare scope s)
    (unbare : Cursor.Unbare scope.isSome s.cursor) : bare = false := by
  cases h with
  | opened outside _ _ same =>
    subst outside
    rw [same]
    cases hscope : s.cursor.pastScope? with
    | none => rfl
    | some behind => exact unbare behind hscope
  | silent inside _ same =>
    rw [inside] at unbare
    exact same.trans unbare
  | listed _ same => exact same

/-- From one stage of a nested name each part leads to another. -/
theorem stage_nestedPart (tracked : Bool) {bare : Bool} {scope : Option NodeId}
    (h : Stage w bare scope s) (notEnd : s.cursor.strip? "E".toList = none) :
    Yields (growth symbol).lost (Parse.nestedPart (Rule.parse limit levels) tracked scope) s
      (Stage w bare) := by
  refine (nestedPart reads tracked h.kept notEnd h.noStd).weaken ?_
  intro after t round
  cases round with
  | passed inside same list closes =>
    subst same
    cases h with
    | opened outside => rw [outside] at inside; cases inside
    | silent _ list' same => exact .silent inside (list.trans list') (same.trans closes)
    | listed last same =>
      obtain ⟨id, between, hid, last⟩ := last
      exact .listed ⟨id, between, hid, list.trans last⟩ same
  | silent outside some list hscope =>
    cases h with
    | opened _ list' _ same =>
      rw [hscope] at same
      exact .silent some (list.trans list') same
    | silent inside => rw [outside] at inside; cases inside
    | listed last =>
      obtain ⟨_, _, hid, -⟩ := last
      cases outside.symm.trans hid
  | listed last unbare => exact .listed last (h.not_bare unbare)

omit reads in
theorem qualifiers {Q : Qualifiers → ParseState → Prop}
    (h : ∀ quals, Q quals { s with cursor := ((s.cursor.past "r").past "V").past "K" }) :
    Yields out Parse.qualifiers s Q := by
  apply bind
  apply past
  intro isRestrict
  apply bind
  apply past
  intro isVolatile
  apply bind
  apply past
  intro isConst
  exact pure (h _)

omit reads in
theorem refQualifier {Q : Option Reference → ParseState → Prop}
    (h : ∀ ref, Q ref { s with cursor := s.cursor.pastRef }) :
    Yields out Parse.refQualifier s Q := by
  rw [Cursor.pastRef] at h
  refine bind (accept (fun behind hit => ?_) fun miss => ?_)
  · rw [hit] at h
    exact ite (fun _ => pure (h _)) fun no => absurd rfl no
  · rw [miss] at h
    refine ite (fun yes => by cases yes) fun _ => ?_
    apply bind
    apply past
    exact fun _ => ite (fun _ => pure (h _)) fun _ => pure (h _)

/-- The components of a nested name, from where it is known whether it is bare. -/
theorem components (tracked : Bool) {bare : Bool} {scope : Option NodeId}
    (h : Stage w bare scope s) :
    Yields (growth symbol).lost (do
        let complete ← Parse.untilHolds (Parse.accept "E") scope
          (Parse.nestedPart (Rule.parse limit levels) tracked)
        Parse.orFault complete .unexpectedText) s fun id t =>
      bare = true ∧ t.listed = w ∨ bare = false ∧ ListsLast w (some id) t := by
  refine bind (untilHolds (Stage w bare)
    (fun scope u => Stage w bare scope u ∧ u.cursor.strip? "E".toList = none)
    (fun scope u stage => accept (fun behind hit => ?_) fun miss => ⟨stage, miss⟩)
    (fun scope u stage => stage_nestedPart reads tracked stage.1 stage.2) h)
  refine orFault ?_
  intro id hid
  subst hid
  cases stage with
  | opened outside => cases outside
  | silent _ list same => exact .inl ⟨same.trans (Cursor.closes_of_end hit), list⟩
  | listed last same => exact .inr ⟨same, last⟩

/-- The complete name was listed last, unless it is bare and nothing was listed. -/
theorem nestedParts (tracked : Bool) :
    Yields (growth symbol).lost (Parse.nestedParts (Rule.parse limit levels) tracked) s fun id t =>
      s.cursor.isBare = true ∧ t.listed = s.listed ∨
        s.cursor.isBare = false ∧ ListsLast s.listed (some id) t := by
  apply bind
  apply expect
  intro behind hit
  apply bind
  apply qualifiers
  intro quals
  apply bind
  apply refQualifier
  intro ref
  obtain rfl : s.cursor.past "N" = behind := Cursor.past_of_some hit
  apply bind
  apply learn
  intro facts
  apply bind
  refine accept (fun behind hit => ?_) fun miss => ?_
  · have hscope : s.cursor.pastQualifiers.pastScope? = some behind := Cursor.pastScope?_of_some hit
    have bare : s.cursor.isBare = Cursor.closes behind.rest := by
      rw [Cursor.isBare, hscope, Option.any_some]
    refine bind (ite (fun _ => bind (make _ (pure ?_))) fun no => absurd rfl no)
    exact components reads tracked (.silent rfl rfl bare)
  · refine bind (ite (fun yes => by cases yes) fun _ => pure ?_)
    exact components reads tracked (.opened rfl rfl miss rfl)

end Parts

end Unmangle.Parse.Yields
