import Unmangle.Proofs.Course.Token
import Unmangle.Proofs.Extension.Number
import Unmangle.Proofs.Formation.Forms

/-!
# Tokens store nothing

A token only moves the cursor. What it reads is a part of the symbol: a number has a digit in it,
and an identifier is not empty.
-/
namespace Unmangle

variable {symbol : ByteArray} {regular : Prop} {s t u : ParseState} {α β : Type}

theorem first_of_extract {start stop : Nat} {byte : UInt8} {rest : List UInt8}
    (begins : symbol.data.toList.drop start = byte :: rest) (some : start < stop) :
    (symbol.extract start stop)[0]? = .some byte := by
  have here : symbol.data.toList[start]? = .some byte := by
    rw [← List.head?_drop, begins, List.head?_cons]
  obtain ⟨below, same⟩ := List.getElem?_eq_some_iff.mp here
  have size : 0 < (symbol.extract start stop).size := by
    rw [Array.length_toList, ByteArray.size_data] at below
    rw [ByteArray.size_extract]
    omega
  rw [getElem?_pos _ 0 size, ByteArray.getElem_extract]
  simpa only [ByteArray.getElem_eq_getElem_data, Nat.add_zero, Array.getElem_toList,
    Option.some.injEq] using same

/-- Moving on stops at the end of the input. -/
theorem Cursor.advance_eq_skip_min (cursor : Cursor) (count : Nat) :
    cursor.advance count = cursor.skip (min count cursor.rest.length) := by
  induction count generalizing cursor with
  | zero => simp [advance, skip]
  | succ count ih =>
    obtain ⟨offset, _ | ⟨byte, rest⟩⟩ := cursor
    · simp [advance, skip]
    · rw [advance, ih, List.length_cons, Nat.succ_min_succ]
      simp only [skip, List.drop_succ_cons, Cursor.mk.injEq, and_true]
      omega

/-- A digit that is looked at is a byte of the symbol. -/
theorem Cursor.byte_of_isDigit {cursor : Cursor} {distance : Nat}
    (h : (cursor.peekAt distance).isDigit = true) :
    ∃ byte, cursor.rest[distance]? = some byte ∧ Number.isDigit byte = true := by
  rw [peekAt] at h
  cases hbyte : cursor.rest[distance]? with
  | none =>
    rw [hbyte] at h
    cases h
  | some byte =>
    rw [hbyte] at h
    exact ⟨byte, rfl, by rwa [← isDigit_ofNat]⟩

/-- The sign of a number is a letter, if there is one. -/
theorem Cursor.behindSign (cursor : Cursor) (signed : Bool) :
    (if signed then (cursor.strip? ['n']).getD cursor else cursor) = cursor ∨
      ∃ rest, cursor.rest = 110 :: rest ∧
        (if signed then (cursor.strip? ['n']).getD cursor else cursor) = cursor.skip 1 := by
  cases signed with
  | false => exact .inl rfl
  | true =>
    obtain ⟨offset, _ | ⟨byte, rest⟩⟩ := cursor
    · exact .inl rfl
    · by_cases sign : byte.toNat = 'n'.toNat
      · obtain rfl : byte = 110 := UInt8.toNat_inj.mp sign
        exact .inr ⟨rest, rfl, rfl⟩
      · refine .inl ?_
        rw [if_pos rfl, strip?, if_neg sign]
        rfl

/-- No digit comes behind the sign, or the number takes up some bytes. -/
theorem Cursor.numeral {cursor start after : Cursor} {run : List UInt8}
    (sign : start = cursor ∨ ∃ rest, cursor.rest = 110 :: rest ∧ start = cursor.skip 1)
    (spans : start.spanWhile Number.isDigit = (run, after)) :
    run = [] ∧ (cursor.peekAt 0).isDigit = false ∨
      run ≠ [] ∧ ∃ count byte rest, 0 < count ∧ count ≤ cursor.rest.length ∧
        after = cursor.skip count ∧ cursor.rest = byte :: rest ∧
          (byte = 110 ∨ Number.isDigit byte = true) := by
  obtain ⟨fits, behind⟩ := start.spanWhile_eq Number.isDigit
  rw [spans] at fits behind
  rw [spanWhile, Prod.mk.injEq] at spans
  cases run with
  | nil =>
    refine .inl ⟨rfl, Bool.eq_false_iff.mpr fun shown => ?_⟩
    obtain ⟨byte, first, digit⟩ := byte_of_isDigit shown
    obtain ⟨rest, begins⟩ : ∃ rest, cursor.rest = byte :: rest :=
      List.head?_eq_some_iff.mp (by rwa [List.head?_eq_getElem?])
    obtain rfl | ⟨rest', begins', rfl⟩ := sign
    · rw [begins, List.takeWhile_cons_of_pos digit] at spans
      cases spans.1
    · rw [begins] at begins'
      cases begins'
      cases digit
  | cons first run =>
    refine .inr ⟨List.cons_ne_nil _ _, ?_⟩
    obtain rfl | ⟨rest, begins, rfl⟩ := sign
    · have mem : first ∈ start.rest.takeWhile Number.isDigit := by
        rw [spans.1]
        exact .head _
      obtain ⟨rest, begins⟩ : ∃ rest, start.rest = first :: rest :=
        ⟨_, (List.takeWhile_append_dropWhile (p := Number.isDigit) (l := start.rest)).symm.trans
          (by rw [spans.1]; rfl)⟩
      exact ⟨_, first, rest, Nat.succ_pos _, fits, behind, begins, .inr (List.mem_takeWhile_imp mem)⟩
    · rw [skip_skip] at behind
      refine ⟨_, 110, rest, Nat.add_pos_left Nat.one_pos _, ?_, behind, begins, .inl rfl⟩
      simp only [skip, List.length_drop, begins, List.length_cons] at fits ⊢
      omega

/-- Only the cursor and what is known of a name have changed. -/
def ParseState.Moved (s t : ParseState) : Prop :=
  ∃ cursor facts, t = { s with cursor := cursor, facts := facts }

theorem ParseState.Moved.refl (s : ParseState) : s.Moved s :=
  ⟨s.cursor, s.facts, rfl⟩

theorem ParseState.Moved.fresh (h : s.Moved t) (fresh : s.Fresh) : t.Fresh := by
  obtain ⟨_, _, rfl⟩ := h
  exact ⟨fresh.entries, fresh.scopes, fresh.forwardAllowed, fresh.lambdaLevel⟩

theorem ParseState.Moved.trans (h : s.Moved t) (h' : t.Moved u) : s.Moved u := by
  obtain ⟨_, _, rfl⟩ := h
  obtain ⟨cursor, facts, rfl⟩ := h'
  exact ⟨cursor, facts, rfl⟩

namespace Forms

variable {Q : α → ParseState → Prop}

theorem unexpected {Q : α → ParseState → Prop} : Forms symbol regular Parse.unexpected s Q :=
  fun _ => .unexpected

theorem peekAt_bind (distance : Nat) {f : Char → Parse β} {R : β → ParseState → Prop}
    (h : Forms symbol regular (f (s.cursor.peekAt distance)) s R) :
    Forms symbol regular (Parse.peekAt distance >>= f) s R :=
  fun formed => .bind (.bind (.get (.pure (h formed))))

theorem peek_bind {f : Char → Parse β} {R : β → ParseState → Prop}
    (h : Forms symbol regular (f (s.cursor.peekAt 0)) s R) :
    Forms symbol regular (Parse.peek >>= f) s R :=
  peekAt_bind 0 h

theorem peekPair_bind {f : Char × Char → Parse β} {R : β → ParseState → Prop}
    (h : Forms symbol regular (f (s.cursor.peekAt 0, s.cursor.peekAt 1)) s R) :
    Forms symbol regular (Parse.peekPair >>= f) s R :=
  fun formed => .bind (.bind (.get (.pure (h formed))))

theorem advance (count : Nat) :
    Forms symbol regular (Parse.advance count) s fun _ t =>
      t = { s with cursor := s.cursor.advance count } := by
  refine moving ?_
  intro ground _ t hr
  cases hr
  refine ⟨?_, rfl, rfl⟩
  change ParseState.Grounded symbol { s with cursor := s.cursor.advance count }
  rw [Cursor.advance_eq_skip_min]
  exact ground.skip (Nat.min_le_right _ _)

/-- What a token says about the bytes in front of the state. -/
theorem accept (token : String) :
    Forms symbol regular (Parse.accept token) s fun taken t =>
      s.Moved t ∧ (taken = true → s.cursor.strip? token.toList = some t.cursor) ∧
        (taken = false → t = s ∧ s.cursor.strip? token.toList = none) := by
  refine moving ?_
  intro ground taken t hr
  cases h : s.cursor.strip? token.toList with
  | none =>
    rw [h] at hr
    cases hr
    exact ⟨ground, rfl, .refl s, nofun, fun _ => ⟨rfl, rfl⟩⟩
  | some cursor =>
    rw [h] at hr
    cases hr
    obtain ⟨fits, rfl⟩ := Cursor.strip?_eq_some h
    exact ⟨ground.skip fits, rfl, ⟨_, s.facts, rfl⟩, fun _ => rfl, nofun⟩

theorem expect (token : String) :
    Forms symbol regular (Parse.expect token) s fun _ t => s.Moved t := by
  apply (accept token).bind
  intro taken t _ moved
  cases taken with
  | true => exact .pure moved.1
  | false => exact unexpected

/-- What is read as a number stands behind words, and has a digit unless it is empty. -/
theorem number (signed : Bool) :
    Forms symbol regular (Parse.number signed) s fun text t =>
      s.Moved t ∧ text.Aside ∧ (text.isEmpty = false → text.Numeral symbol) ∧
        ((s.cursor.peekAt 0).isDigit = true → text.isEmpty = false) := by
  refine moving ?_
  intro ground text t hr
  have sign := s.cursor.behindSign signed
  dsimp only at hr
  generalize (if signed then (s.cursor.strip? ['n']).getD s.cursor else s.cursor) = start at sign hr
  rcases hspan : start.spanWhile Number.isDigit with ⟨run, after⟩
  obtain ⟨rfl, none⟩ | ⟨some, count, byte, rest, pos, fits, rfl, begins, known⟩ :=
    Cursor.numeral sign hspan
  · rw [hspan] at hr
    cases hr
    refine ⟨ground, rfl, .refl s, rfl, nofun, fun digit => ?_⟩
    rw [none] at digit
    cases digit
  · rw [hspan] at hr
    cases run with
    | nil => exact absurd rfl some
    | cons digit run =>
      cases hr
      refine ⟨ground.skip fits, rfl, ⟨_, s.facts, rfl⟩, trivial, fun _ => ⟨byte, ?_, known⟩,
        fun _ => ?_⟩
      · exact first_of_extract (ground.rest.symm.trans begins) (Nat.lt_add_of_pos_right pos)
      · exact beq_eq_false_iff_ne.mpr (Nat.ne_of_lt (Nat.lt_add_of_pos_right pos))

theorem value (base : Nat) (property : UInt8 → Bool) :
    Forms symbol regular (Parse.value base property) s fun _ t => s.Moved t := by
  refine bind (Q := fun _ t => s.Moved t) (moving fun ground run t hr => ?_) fun run t _ moved => ?_
  · obtain ⟨fits, behind⟩ := s.cursor.spanWhile_eq property
    cases hr
    refine ⟨?_, rfl, _, s.facts, rfl⟩
    change ParseState.Grounded symbol { s with cursor := (s.cursor.spanWhile property).2 }
    rw [behind]
    exact ground.skip fits
  · split
    · exact unexpected
    · exact orFault fun _ _ => moved

/-- An identifier is a part of the symbol, and not empty. -/
theorem identifierFrom :
    Forms symbol regular Parse.identifierFrom s fun r _ =>
      ∃ start stop, r.1 = .span start stop ∧ r.1.Called symbol := by
  apply (value 10 _).bind
  intro length t _ _
  refine .ensure_bind (.throw _) ?_
  intro some
  refine .get_bind (.orFault_bind fun behind hbehind => ?_)
  obtain ⟨fits, rfl⟩ := (Cursor.take?_eq_some_iff _ _ _).mp hbehind
  have pos : 0 < length := Nat.pos_of_ne_zero (by simpa using some)
  intro formed
  refine .bind (.modified (.pure ⟨?_, .refl _, _, _, rfl, fun none => ?_⟩))
  · exact formed.of_tree_eq (formed.ground.skip fits) rfl
  · obtain ⟨byte, rest, begins⟩ := List.exists_cons_of_length_pos (Nat.lt_of_lt_of_le pos fits)
    have first := first_of_extract (formed.ground.rest.symm.trans begins)
      (Nat.lt_add_of_pos_right (n := t.cursor.offset) pos)
    rw [none] at first
    cases first

theorem identifier :
    Forms symbol regular Parse.identifier s fun text _ =>
      ∃ start stop, text = .span start stop ∧ text.Called symbol := by
  apply identifierFrom.bind
  intro _ _ _ called
  exact .pure called

/-- Everything that is left is a part of the symbol. -/
theorem remainder :
    Forms symbol regular Parse.remainder s fun text _ => text.Aside := by
  refine moving ?_
  intro ground text t hr
  obtain ⟨fits, behind⟩ := s.cursor.spanWhile_eq fun _ => true
  cases hr
  refine ⟨?_, rfl, trivial⟩
  change ParseState.Grounded symbol { s with cursor := (s.cursor.spanWhile fun _ => true).2 }
  rw [behind]
  exact ground.skip fits

/-- Words of the language as a name. -/
theorem makeName {words : String} (called : Text.Called symbol (.literal words)) :
    Forms symbol regular (Parse.makeName words) s fun id t => t.work.tree.Holds .part id :=
  make_shape .part rfl called

theorem node_bind {id : NodeId} {f : Node → Parse β} {R : β → ParseState → Prop}
    (h : Forms symbol regular (f (s.work.tree.node id)) s R) :
    Forms symbol regular (Parse.node id >>= f) s R := by
  refine fun formed => .bind ?_
  rintro - _ _ ⟨⟩
  exact h formed

theorem qualifiers : Forms symbol regular Parse.qualifiers s fun _ t => s.Moved t := by
  apply (accept "r").bind
  intro _ _ _ first
  apply (accept "V").bind
  intro _ _ _ second
  apply (accept "K").bind
  intro _ _ _ third
  exact .pure ((first.1.trans second.1).trans third.1)

theorem learn (tracked : Bool) (change : NameFacts → NameFacts) :
    Forms symbol regular (Parse.learn tracked change) s fun _ t => s.Moved t := by
  refine .ite (fun _ => ?_) fun _ => .pure (.refl s)
  exact modified ⟨fun _ => rfl, fun _ => rfl⟩ ⟨s.cursor, _, rfl⟩

end Forms

theorem Forms.keeps {p : Parse α} {Q : α → ParseState → Prop}
    (h : Forms symbol regular p s Q) : Forms symbol regular p s fun _ _ => True :=
  h.weaken fun _ _ _ _ => trivial

namespace KeepsForm

theorem unexpected : KeepsForm symbol regular (Parse.unexpected : Parse α) :=
  fun _ => .unexpected

theorem atEnd : KeepsForm symbol regular Parse.atEnd := by
  apply get_bind
  intro _
  exact pure _

theorem peek : KeepsForm symbol regular Parse.peek := by
  apply get_bind
  intro _
  exact pure _

theorem peekAt (distance : Nat) : KeepsForm symbol regular (Parse.peekAt distance) := by
  apply get_bind
  intro _
  exact pure _

theorem peekPair : KeepsForm symbol regular Parse.peekPair := by
  apply get_bind
  intro _
  exact pure _

theorem lookingAt (token : String) : KeepsForm symbol regular (Parse.lookingAt token) := by
  apply get_bind
  intro _
  exact pure _

theorem atEncodingEnd : KeepsForm symbol regular Parse.atEncodingEnd := by
  apply get_bind
  intro s
  split
  · exact pure _
  · exact pure _

theorem advance (count : Nat) : KeepsForm symbol regular (Parse.advance count) :=
  fun _ => (Forms.advance count).keeps

theorem accept (token : String) : KeepsForm symbol regular (Parse.accept token) :=
  fun _ => (Forms.accept token).keeps

theorem expect (token : String) : KeepsForm symbol regular (Parse.expect token) :=
  fun _ => (Forms.expect token).keeps

theorem number (signed : Bool) : KeepsForm symbol regular (Parse.number signed) :=
  fun _ => (Forms.number signed).keeps

theorem seqId : KeepsForm symbol regular Parse.seqId :=
  fun _ => (Forms.value _ _).keeps

theorem qualifiers : KeepsForm symbol regular Parse.qualifiers :=
  fun _ => Forms.qualifiers.keeps

theorem learn (tracked : Bool) (change : NameFacts → NameFacts) :
    KeepsForm symbol regular (Parse.learn tracked change) :=
  fun _ => (Forms.learn tracked change).keeps

/-- Storing a list leaves every node formed. -/
theorem makeList (ids : Array NodeId) : KeepsForm symbol regular (Parse.makeList ids) := by
  refine fun s => .step fun formed list t hr => ?_
  cases hr
  have same := formed.ground.intact.get?_allocList ids
  have stays : s.work.tree.Stays (s.work.tree.allocList ids).2 :=
    .of_extends (formed.ground.intact.extends_allocList ids)
  refine ⟨⟨⟨formed.ground.rest, formed.ground.stop, formed.ground.intact.allocList ids⟩, ?_⟩,
    stays, trivial⟩
  intro id node held
  change (s.work.tree.allocList ids).2.get? id = some node at held
  rw [same] at held
  exact (formed.nodes id node held).stays stays

/-- A node of which nothing is asked. -/
theorem make {node : Node} (formed : ∀ tree, node.Formed symbol regular tree) :
    KeepsForm symbol regular (Parse.make node) :=
  fun s => (Forms.make (formed s.work.tree)).keeps

theorem makeName {words : String} (called : Text.Called symbol (.literal words)) :
    KeepsForm symbol regular (Parse.makeName words) :=
  fun _ => (Forms.makeName called).keeps

theorem node (id : NodeId) : KeepsForm symbol regular (Parse.node id) := by
  rintro s formed - _ _ ⟨⟩
  exact ⟨formed, .refl _, trivial⟩

theorem enlist (id : NodeId) : KeepsForm symbol regular (Parse.enlist id) := by
  refine fun s => .moving fun ground _ t hr => ?_
  split at hr
  · cases hr
  · cases hr
    exact ⟨⟨ground.rest, ground.stop, ground.intact⟩, rfl, trivial⟩

theorem delist : KeepsForm symbol regular Parse.delist := by
  apply get_bind
  intro _
  apply (orFault _ _).bind
  intro value
  exact modified ⟨fun _ => rfl, fun _ => rfl⟩

theorem addArgument (id : NodeId) : KeepsForm symbol regular (Parse.addArgument id) := by
  refine fun s => .moving fun ground _ t hr => ?_
  cases hr
  exact ⟨⟨ground.rest, ground.stop, ground.intact⟩, rfl, trivial⟩

theorem setScopes (scopes : TemplateScopes) : KeepsForm symbol regular (Parse.setScopes scopes) :=
  modified ⟨fun _ => rfl, fun _ => rfl⟩

theorem setLevels (levels : Array ScopeLevel) : KeepsForm symbol regular (Parse.setLevels levels) :=
  modified ⟨fun _ => rfl, fun _ => rfl⟩

theorem nodesUntil (token : String) {item : Parse NodeId} (h : KeepsForm symbol regular item) :
    KeepsForm symbol regular (Parse.nodesUntil token item) :=
  moreNodes (accept token) h #[]

/-- What only looked like a number is given back. -/
theorem skipDiscriminator : KeepsForm symbol regular Parse.skipDiscriminator := by
  intro s formed
  have back : KeepsForm symbol regular
      (modify fun state => { state with cursor := s.cursor } : Parse Unit) :=
    fun t formed' => .modified ⟨formed'.of_tree_eq
      ⟨formed.ground.rest, formed.ground.stop, formed'.ground.intact⟩ rfl, .refl _, trivial⟩
  have numbered : KeepsForm symbol regular (do
      Parse.advance 2
      let number ← Parse.number false
      let closed ← (if number.isEmpty then Pure.pure false else Parse.accept "_")
      Parse.ensure closed (modify fun state => { state with cursor := s.cursor })) := by
    apply (advance 2).seq
    apply (number false).bind
    intro digits
    apply (ite (pure false) (accept "_")).bind
    intro closed
    exact ensure back
  refine Forms.peek_bind (.ite (fun _ => .pure trivial) fun _ => .get_bind (.peekAt_bind 1 ?_))
    formed
  exact .ite (fun _ => advance 2 s) fun _ => .ite (fun _ => numbered s) fun _ => .pure trivial

end KeepsForm
end Unmangle
