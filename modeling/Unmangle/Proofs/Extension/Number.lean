import Unmangle.Proofs.Extension.Token

/-!
# Numbers with more behind them

A number ends where its digits end, and no suffix begins with one. Only the number behind a
local entity looks further, for an underscore that closes it.
-/
namespace Unmangle

theorem toNat_ofNat (byte : UInt8) : (Char.ofNat byte.toNat).toNat = byte.toNat := by
  have valid : byte.toNat.isValidChar := .inl (Nat.lt_trans byte.toNat_lt (by decide))
  rw [Char.ofNat, dif_pos valid]
  rfl

theorem isDigit_ofNat (byte : UInt8) :
    (Char.ofNat byte.toNat).isDigit = Number.isDigit byte := by
  have same : (Char.ofNat byte.toNat).val.toNat = byte.toNat := toNat_ofNat byte
  rw [Bool.eq_iff_iff]
  simp only [Char.isDigit, Number.isDigit, ge_iff_le, Bool.and_eq_true, decide_eq_true_eq,
    UInt32.le_iff_toNat_le, UInt8.le_iff_toNat_le, same]
  rfl

theorem ofNat_beq_bar (byte : UInt8) : (Char.ofNat byte.toNat == '_') = decide (byte = 95) := by
  rw [Bool.eq_iff_iff]
  simp only [beq_iff_eq, decide_eq_true_eq, ← Char.toNat_inj, toNat_ofNat, ← UInt8.toNat_inj]
  rfl

theorem ofNat_bne_bar (byte : UInt8) : (Char.ofNat byte.toNat != '_') = decide (byte ≠ 95) := by
  rw [bne, ofNat_beq_bar]
  simp

/-- How many bytes the number behind a local entity takes up. -/
def discriminatorLength : List UInt8 → Nat
  | first :: second :: rest =>
    if first = 95 ∧ Number.isDigit second then 2
    else
      let count := (rest.takeWhile Number.isDigit).length
      if first = 95 ∧ second = 95 ∧ count ≠ 0 ∧ (rest.drop count).head? = some 95 then count + 3
      else 0
  | _ => 0

theorem discriminatorLength_le (rest : List UInt8) : discriminatorLength rest ≤ rest.length := by
  match rest with
  | [] => exact Nat.le_refl 0
  | [_] => exact Nat.zero_le 1
  | first :: second :: rest =>
    simp only [discriminatorLength]
    split
    · simp
    · split
      · rename_i closed
        have inside : (rest.drop (rest.takeWhile Number.isDigit).length) ≠ [] := by
          intro nothing
          rw [nothing] at closed
          exact nomatch closed.2.2.2
        have := List.length_pos_iff.mpr inside
        simp only [List.length_drop] at this
        simp only [List.length_cons]
        omega
      · exact Nat.zero_le _

/-- There is no discriminator where nothing more can be read. -/
theorem Stranded.discriminatorLength_eq {rest : List UInt8} (h : Stranded rest) :
    discriminatorLength rest = 0 := by
  obtain ⟨digits, -, all, rfl⟩ := h
  have whole : (digits ++ []).takeWhile Number.isDigit = digits ++ [] :=
    List.takeWhile_append_of_pos (List.all_eq_true.mp all)
  rw [List.append_nil] at whole
  simp [discriminatorLength, whole, show Number.isDigit 95 = false by decide]

/-- The number is the same one, unless it would be closed by the suffix. -/
theorem Suffix.discriminatorLength_append {tail : List UInt8} (suffix : Suffix tail)
    (rest : List UInt8) :
    discriminatorLength (rest ++ tail) = discriminatorLength rest ∨ Stranded rest := by
  match rest with
  | [] =>
    left
    rcases suffix with ⟨_ | ⟨_, _⟩, rfl⟩ | ⟨_, rfl⟩
    · rfl
    · simp [discriminatorLength]
    · simp [discriminatorLength, show Number.isDigit 98 = false by decide]
  | [byte] =>
    left
    rcases suffix with ⟨_, rfl⟩ | ⟨_, rfl⟩
    · simp [discriminatorLength, show Number.isDigit 46 = false by decide]
    · simp [discriminatorLength, show Number.isDigit 95 = false by decide,
        show Number.isDigit 98 = false by decide]
  | first :: second :: rest =>
    have dot : Number.isDigit 46 = false := by decide
    have bar : Number.isDigit 95 = false := by decide
    have same := suffix.takeWhile dot bar rest
    have fits : (rest.takeWhile Number.isDigit).length ≤ rest.length :=
      (List.takeWhile_prefix _).length_le
    simp only [List.cons_append, discriminatorLength, same, List.drop_append_of_le_length fits]
    cases left : rest.drop (rest.takeWhile Number.isDigit).length with
    | nil =>
      have whole : rest.takeWhile Number.isDigit = rest := by
        apply (List.takeWhile_prefix _).eq_of_length_le
        exact List.drop_eq_nil_iff.mp left
      by_cases bars : first = 95 ∧ second = 95 ∧ rest ≠ []
      · obtain ⟨rfl, rfl, some⟩ := bars
        refine .inr ⟨rest, some, ?_, rfl⟩
        rw [← whole]
        exact List.all_takeWhile
      · left
        have short : ¬(first = 95 ∧ second = 95 ∧ (rest.takeWhile Number.isDigit).length ≠ 0 ∧
            ([] ++ tail).head? = some 95) := by
          intro h
          rw [whole] at h
          exact bars ⟨h.1, h.2.1, fun none => h.2.2.1 (by simp [none])⟩
        simp only [if_neg short, List.head?_nil, reduceCtorEq, and_false, if_false]
    | cons byte more => exact .inl rfl

namespace Parse

theorem run_number_nil {s : ParseState} (none : s.cursor.rest.takeWhile Number.isDigit = []) :
    (number false).run s = .ok .empty s := by
  simp only [number, step, Bool.false_eq_true, if_false, Cursor.spanWhile, none]

theorem run_number_ne_nil {s : ParseState} (some : s.cursor.rest.takeWhile Number.isDigit ≠ []) :
    (number false).run s =
      .ok (.span s.cursor.offset
          (s.cursor.offset + (s.cursor.rest.takeWhile Number.isDigit).length))
        { s with cursor := s.cursor.skip (s.cursor.rest.takeWhile Number.isDigit).length } := by
  obtain ⟨-, behind⟩ := s.cursor.spanWhile_eq Number.isDigit
  simp only [Cursor.spanWhile] at behind
  rw [← behind]
  simp only [number, step, Bool.false_eq_true, if_false, Cursor.spanWhile]

/-- A number that stands behind two underscores and is closed by another. -/
theorem run_skipClosed (s : ParseState) (before : Cursor) :
    (do
      let number ← number false
      let closed ← (if number.isEmpty then pure false else accept "_")
      ensure closed (modify fun state => { state with cursor := before }) : Parse Unit).run s =
        .ok () { s with cursor :=
          if (s.cursor.rest.takeWhile Number.isDigit).length ≠ 0 ∧
              (s.cursor.rest.drop (s.cursor.rest.takeWhile Number.isDigit).length).head? = some 95
          then s.cursor.skip ((s.cursor.rest.takeWhile Number.isDigit).length + 1) else before } := by
  by_cases none : s.cursor.rest.takeWhile Number.isDigit = []
  · rw [run_bind_ok _ (run_number_nil none), none]
    rfl
  · have long : (s.cursor.rest.takeWhile Number.isDigit).length ≠ 0 :=
      mt List.length_eq_zero_iff.mp none
    have shown : (Text.span s.cursor.offset
        (s.cursor.offset + (s.cursor.rest.takeWhile Number.isDigit).length)).isEmpty = false := by
      simp [Text.isEmpty, long]
    rw [run_bind_ok _ (run_number_ne_nil none), shown, if_neg Bool.false_ne_true]
    by_cases closed :
        (s.cursor.rest.drop (s.cursor.rest.takeWhile Number.isDigit).length).head? = some 95
    · rw [if_pos ⟨long, closed⟩, run_bind_ok _ ((run_acceptBar _).trans (if_pos closed)),
        ← Cursor.skip_skip]
      rfl
    · rw [if_neg fun h => closed h.2, run_bind_ok _ ((run_acceptBar _).trans (if_neg closed))]
      rfl

/-- A discriminator is passed over as a whole. -/
theorem run_skipDiscriminator (s : ParseState) :
    skipDiscriminator.run s =
      .ok () { s with cursor := s.cursor.skip (discriminatorLength s.cursor.rest) } := by
  obtain ⟨⟨offset, rest⟩, level, work, facts, args, ahead, lambda⟩ := s
  match rest with
  | [] => rfl
  | [byte] =>
    have look : peek.run ⟨⟨offset, [byte]⟩, level, work, facts, args, ahead, lambda⟩ =
      .ok (Char.ofNat byte.toNat) ⟨⟨offset, [byte]⟩, level, work, facts, args, ahead, lambda⟩ := rfl
    unfold skipDiscriminator
    rw [run_bind_ok _ look]
    split
    · rfl
    · rfl
  | first :: second :: rest =>
    have look : peek.run
        ⟨⟨offset, first :: second :: rest⟩, level, work, facts, args, ahead, lambda⟩ =
      .ok (Char.ofNat first.toNat)
        ⟨⟨offset, first :: second :: rest⟩, level, work, facts, args, ahead, lambda⟩ := rfl
    have next : (peekAt 1).run
        ⟨⟨offset, first :: second :: rest⟩, level, work, facts, args, ahead, lambda⟩ =
      .ok (Char.ofNat second.toNat)
        ⟨⟨offset, first :: second :: rest⟩, level, work, facts, args, ahead, lambda⟩ := rfl
    have two : (advance 2).run
        ⟨⟨offset, first :: second :: rest⟩, level, work, facts, args, ahead, lambda⟩ =
      .ok () ⟨⟨offset + 2, rest⟩, level, work, facts, args, ahead, lambda⟩ := rfl
    unfold skipDiscriminator
    rw [run_bind_ok _ look, ofNat_bne_bar]
    by_cases bar : first = 95
    · rw [if_neg (by simp [bar]), run_bind_ok _ run_get, run_bind_ok _ next, isDigit_ofNat]
      by_cases digit : Number.isDigit second = true
      · rw [if_pos digit, two]
        simp only [discriminatorLength, if_pos (And.intro bar digit)]
        rfl
      · have other : ¬(first = 95 ∧ Number.isDigit second = true) := fun h => digit h.2
        simp only [discriminatorLength, if_neg other]
        rw [if_neg digit, ofNat_beq_bar]
        by_cases again : second = 95
        · rw [if_pos (by simp [again]), run_bind_ok _ two, run_skipClosed]
          simp only [bar, again, true_and]
          split
          · simp [Cursor.skip, Nat.add_assoc, Nat.add_comm 2]
          · rfl
        · have open' : ¬(first = 95 ∧ second = 95 ∧ (rest.takeWhile Number.isDigit).length ≠ 0 ∧
              (rest.drop (rest.takeWhile Number.isDigit).length).head? = some 95) :=
            fun h => again h.2.1
          rw [if_neg (by simp [again]), if_neg open']
          rfl
    · rw [if_pos (by simp [bar])]
      simp only [discriminatorLength, bar, false_and, if_false]
      rfl

/-- No digits come where the bytes are barred. -/
theorem Fails.value {s : ParseState} (h : Barred s.cursor.rest) (base : Nat)
    {property : UInt8 → Bool} (bar : property 95 = false) : Fails (Parse.value base property) s := by
  have none : (digits property).run s = .ok [] { s with cursor := s.cursor.skip 0 } := by
    obtain ⟨-, behind⟩ := s.cursor.spanWhile_eq property
    simp only [Cursor.spanWhile, h.takeWhile bar] at behind
    simp only [digits, step, Cursor.spanWhile, h.takeWhile bar]
    rw [behind]
    rfl
  exact after none unexpected

theorem Fails.number_bind {β : Type} {s : ParseState} (h : Barred s.cursor.rest) {signed : Bool}
    {f : Text → Parse β} (next : Fails (f .empty) s) : Fails (Parse.number signed >>= f) s := by
  have unsigned : (s.cursor.strip? ['n']).getD s.cursor = s.cursor := by
    rw [h.strip? [] (by decide)]
    rfl
  have none : (Parse.number signed).run s = .ok .empty s := by
    simp only [Parse.number, step, unsigned, ite_self, Cursor.spanWhile,
      h.takeWhile (show Number.isDigit 95 = false by decide)]
  exact after none next

section Moves

variable {β : Type} {tail : List UInt8} {s : ParseState} {doomed : Prop} {C : β → Rests}

/-- A number of bytes that are there. -/
theorem ExtendsFrom.take_bind {count : Nat} {fault : Fault} {f f' : Cursor → Parse β}
    (h : count ≤ s.cursor.rest.length → ExtendsFrom tail s doomed (f (s.cursor.skip count))
      (f' ⟨(s.cursor.skip count).offset, (s.cursor.skip count).rest ++ tail⟩) C) :
    ExtendsFrom tail s doomed (orFault (s.cursor.take? count) fault >>= f)
      (orFault ((s.followed tail).cursor.take? count) fault >>= f') C := by
  by_cases fits : count ≤ s.cursor.rest.length
  · have room : count ≤ (s.cursor.rest ++ tail).length := by
      rw [List.length_append]
      omega
    simp only [ParseState.followed, Cursor.take?_eq, if_pos fits, if_pos room]
    have behind : (⟨s.cursor.offset, s.cursor.rest ++ tail⟩ : Cursor).skip count =
        ⟨(s.cursor.skip count).offset, (s.cursor.skip count).rest ++ tail⟩ := by
      simp only [Cursor.skip, List.drop_append_of_le_length fits]
    rw [behind]
    exact h fits
  · rw [Cursor.take?_eq, if_neg fits]
    exact .of_fails (Fails.bind (Fails.throw fault))

theorem ExtendsFrom.modify_bind {change change' : ParseState → ParseState} {f f' : PUnit → Parse β}
    (same : change' (s.followed tail) = (change s).followed tail)
    (h : ExtendsFrom tail (change s) doomed (f ()) (f' ()) C) :
    ExtendsFrom tail s doomed (modify change >>= f) (modify change' >>= f') C := by
  intro b u hu
  rw [run_bind_ok _ (run_modify _), same]
  exact h b u hu

end Moves

namespace Extends

variable {tail : List UInt8} (suffix : Suffix tail)
include suffix

/-- A number takes none of the bytes that follow the symbol. -/
theorem number (signed : Bool) :
    Extends tail .never (Parse.number signed) (Parse.number signed) fun _ => .never := by
  intro s a t hr
  refine ⟨False.elim, .inl ?_⟩
  have letter : ∀ char ∈ ['n'], char ≠ '_' ∧ char ≠ '.' := by simp
  have sign := suffix.strip? letter s.cursor
  simp only [Parse.number, step, ParseState.followed] at hr ⊢
  have start : (if signed then ((⟨s.cursor.offset, s.cursor.rest ++ tail⟩ : Cursor).strip?
        ['n']).getD ⟨s.cursor.offset, s.cursor.rest ++ tail⟩
      else ⟨s.cursor.offset, s.cursor.rest ++ tail⟩) =
      ⟨(if signed then (s.cursor.strip? ['n']).getD s.cursor else s.cursor).offset,
        (if signed then (s.cursor.strip? ['n']).getD s.cursor else s.cursor).rest ++ tail⟩ := by
    rw [sign]
    cases signed with
    | false => rfl
    | true => cases s.cursor.strip? ['n'] <;> rfl
  rw [start, suffix.spanWhile (by decide) (by decide)]
  generalize (if signed then (s.cursor.strip? ['n']).getD s.cursor else s.cursor).spanWhile
    Number.isDigit = span at hr ⊢
  obtain ⟨_ | ⟨digit, digits⟩, behind⟩ := span
  · cases hr
    rfl
  · cases hr
    rfl

/-- From a number without its end nothing is skipped, and only such a number is skipped with a
suffix alone. -/
theorem skipDiscriminator : Extends tail Stranded Parse.skipDiscriminator Parse.skipDiscriminator
    fun _ => Stranded := by
  intro s a t hr
  rw [run_skipDiscriminator] at hr ⊢
  cases hr
  have fits := discriminatorLength_le s.cursor.rest
  constructor
  · intro doomed
    rw [doomed.discriminatorLength_eq]
    exact doomed
  · rcases suffix.discriminatorLength_append s.cursor.rest with same | stranded
    · left
      simp only [ParseState.followed, same, Cursor.skip, List.drop_append_of_le_length fits]
    · right
      rw [stranded.discriminatorLength_eq]
      exact stranded

theorem digits {property : UInt8 → Bool} (dot : property 46 = false) (bar : property 95 = false) :
    Extends tail .never (Parse.digits property) (Parse.digits property) fun _ => .never := by
  intro s a t hr
  cases hr
  refine ⟨False.elim, .inl ?_⟩
  simp only [Parse.digits, step, ParseState.followed, suffix.spanWhile dot bar]
  rfl

theorem value (base : Nat) {property : UInt8 → Bool} (dot : property 46 = false)
    (bar : property 95 = false) : Extends tail Barred (Parse.value base property)
      (Parse.value base property) fun _ => .never := by
  apply of_never
  · apply (digits suffix dot bar).bind
    intro run
    cases run with
    | nil => exact unexpected
    | cons digit run => exact still (.orFault _ _)
  · intro s h
    exact Fails.value h base bar

theorem decimal : Extends tail Barred Parse.decimal Parse.decimal fun _ => .never :=
  value suffix 10 (by decide) (by decide)

theorem seqId : Extends tail Barred Parse.seqId Parse.seqId fun _ => .never :=
  value suffix 36 (by decide) (by decide)

/-- An identifier takes none of the bytes that follow the symbol. -/
theorem identifierFrom :
    Extends tail Barred Parse.identifierFrom Parse.identifierFrom fun _ => .never := by
  apply (decimal suffix).bind
  intro length
  apply ensure_bind fun _ => Fails.throw _
  apply get_bind
  intro s
  apply ExtendsFrom.take_bind
  intro fits
  simp only [ParseState.followed, List.take_append_of_le_length fits]
  apply ExtendsFrom.modify_bind rfl
  exact .pure id

theorem identifier : Extends tail Barred Parse.identifier Parse.identifier fun _ => .never :=
  (identifierFrom suffix).map

theorem sourceName : Extends tail Barred Parse.sourceName Parse.sourceName fun _ => .never := by
  apply (identifierFrom suffix).bind
  rintro ⟨text, bytes⟩
  exact ite (fun _ => makeName _) fun _ => make _

variable {A : Rests}

theorem lookingAt {token : String} (plain : PlainToken token) (bar : ∀ rest, A rest → Barred rest) :
    Extends tail A (Parse.lookingAt token) (Parse.lookingAt token)
      fun held rest => held = false ∧ A rest := by
  intro s a t hr
  cases hr
  have stripped := suffix.strip? plain.2 s.cursor
  constructor
  · intro doomed
    obtain ⟨char, more, spelled⟩ := List.exists_cons_of_ne_nil plain.1
    have other := (plain.2 char (by simp [spelled])).1
    rw [spelled, (bar _ doomed).strip? more other]
    exact ⟨rfl, doomed⟩
  · left
    simp only [Parse.lookingAt, run_bind_ok _ run_get]
    simp only [ParseState.followed, stripped, Option.isSome_map, run_pure]

theorem qualifiers (bar : ∀ rest, A rest → Barred rest) :
    Extends tail A Parse.qualifiers Parse.qualifiers fun _ => A := by
  apply (accepted suffix (by decide) bar).bind
  intro isRestrict
  apply (accepted suffix (by decide) bar).bind
  intro isVolatile
  apply (accepted suffix (by decide) bar).bind
  intro isConst
  exact pure fun _ => id

theorem refQualifier (bar : ∀ rest, A rest → Barred rest) :
    Extends tail A Parse.refQualifier Parse.refQualifier fun _ => A := by
  apply accept_bind suffix (by decide) bar
  · exact pure fun _ h => h.elim
  · apply accept_bind suffix (by decide) bar
    · exact pure fun _ h => h.elim
    · exact pure fun _ => id

/-- An encoding ends where the bytes that follow the symbol begin. -/
theorem atEncodingEnd (bar : ∀ rest, A rest → Underscored rest) :
    Extends tail A Parse.atEncodingEnd Parse.atEncodingEnd fun held rest => held = true ∧ A rest := by
  rintro ⟨⟨offset, _ | ⟨byte, rest⟩⟩, level, work, facts, args, ahead, lambda⟩ a t hr
  · cases hr
    constructor
    · intro doomed
      exact ⟨rfl, doomed⟩
    · left
      obtain ⟨byte, more, rfl, rfl | rfl⟩ := suffix.head
      · rfl
      · rfl
  · cases hr
    constructor
    · intro doomed
      obtain ⟨more, same⟩ := bar _ doomed
      obtain rfl : byte = 95 := (List.cons.inj same).1
      exact ⟨rfl, doomed⟩
    · exact .inl rfl

section Loops

variable {close close' : Parse Bool} {item item' : Parse NodeId} {R : Bool → Rests} {B : Rests}

omit suffix in
theorem moreNodes (hclose : Extends tail A close close' R) (done : ∀ rest, R true rest → B rest)
    (h : Extends tail (R false) item item' fun _ => A) (nodes : Array NodeId) :
    Extends tail A (Parse.moreNodes close item nodes) (Parse.moreNodes close' item' nodes)
      fun _ => B :=
  untilHolds hclose (fun _ => done) (fun _ => h.map) nodes

omit suffix in
theorem someNodes {A' : Rests} (hclose : Extends tail A close close' R)
    (done : ∀ rest, R true rest → B rest) (first : Extends tail A' item item' fun _ => A)
    (h : Extends tail (R false) item item' fun _ => A) :
    Extends tail A' (Parse.someNodes close item) (Parse.someNodes close' item') fun _ => B := by
  apply first.bind
  intro _
  exact moreNodes hclose done h _

/-- A list of nodes ends before the bytes that follow the symbol. -/
theorem nodesUntil {token : String} (plain : PlainToken token)
    (h : Extends tail Barred item item' fun _ => Stranded) :
    Extends tail Barred (Parse.nodesUntil token item) (Parse.nodesUntil token item')
      fun _ => .never := by
  apply moreNodes (accept suffix plain fun _ => id)
  · intro rest closed
    exact nomatch closed.1
  · exact h.weaken (fun _ h => h.2) fun _ _ h => h.barred

omit suffix in
/-- Nodes up to a closing underscore, none of which begins where nothing is left. -/
theorem nodesUntilBar (h : Extends tail Barred item item' fun _ => Stranded) :
    Extends tail Stranded (Parse.nodesUntil "_" item) (Parse.nodesUntil "_" item')
      fun _ => Underscored := by
  apply moreNodes (acceptBar fun _ => Stranded.eats)
  · exact fun _ h => h
  · exact h.narrow fun _ => Barred.of_nil

theorem abiTags (bar : ∀ rest, A rest → Barred rest) (name : NodeId) :
    Extends tail A (Parse.abiTags name) (Parse.abiTags name) fun _ => A := by
  have close : Extends tail A (do return !(← Parse.lookingAt "B")) (do
      return !(← Parse.lookingAt "B")) fun closed rest => closed = true ∧ A rest := by
    apply (lookingAt suffix (by decide) bar).bind
    intro held
    exact pure fun rest h => ⟨by rw [h.1]; rfl, h.2⟩
  apply untilHolds close
  · exact fun _ _ h => h.2
  · intro base
    apply Extends.bind (B := fun _ => .never)
    · exact expect suffix (by decide) fun _ h => nomatch h.1
    · intro _
      apply ((identifier suffix).narrow fun _ => Rests.never.barred).bind
      intro tag
      exact (make _).always

end Loops
end Extends
end Parse
end Unmangle
