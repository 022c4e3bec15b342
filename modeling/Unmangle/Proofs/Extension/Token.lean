import Unmangle.Proofs.Extension.Basic

/-!
# Tokens with more behind them

No token but an underscore is part of a suffix, so the other tokens, numbers and identifiers
end where they did. A look at the next byte beyond the end finds the suffix instead of
nothing, and makes no difference where neither is looked for.
-/
namespace Unmangle

/-- No part of the token can be part of a suffix. -/
def PlainToken (token : String) : Prop :=
  token.toList ≠ [] ∧ ∀ char ∈ token.toList, char ≠ '_' ∧ char ≠ '.'

instance (token : String) : Decidable (PlainToken token) :=
  decidable_of_iff (token.toList ≠ [] ∧
    (token.toList.all fun char => char ≠ '_' ∧ char ≠ '.') = true) (by simp [PlainToken])

/-- A choice by the next byte that treats the beginning of a suffix like the end. -/
def Blind {γ : Type} (f : Char → γ) : Prop :=
  f '.' = f '\x00' ∧ f '_' = f '\x00'

variable {tail : List UInt8}

namespace Suffix

variable (suffix : Suffix tail)
include suffix

theorem head : ∃ byte more, tail = byte :: more ∧ (byte = 46 ∨ byte = 95) := by
  rcases suffix with ⟨more, rfl⟩ | ⟨more, rfl⟩
  · exact ⟨_, _, rfl, .inl rfl⟩
  · exact ⟨_, _, rfl, .inr rfl⟩

/-- A plain token is in front of more bytes just if it was in front before. -/
theorem strip? {token : List Char} (plain : ∀ char ∈ token, char ≠ '_' ∧ char ≠ '.')
    (cursor : Cursor) :
    (⟨cursor.offset, cursor.rest ++ tail⟩ : Cursor).strip? token =
      (cursor.strip? token).map fun behind => ⟨behind.offset, behind.rest ++ tail⟩ := by
  induction token generalizing cursor with
  | nil => rfl
  | cons char token ih =>
    have other := plain char (.head _)
    obtain ⟨offset, _ | ⟨byte, rest⟩⟩ := cursor
    · apply Cursor.strip?_of_ne
      intro byte hbyte same
      obtain ⟨first, more, rfl, dot | bar⟩ := suffix.head
      · obtain rfl : byte = 46 := dot ▸ (Option.some.inj hbyte).symm
        exact other.2 (Char.toNat_inj.mp same.symm)
      · obtain rfl : byte = 95 := bar ▸ (Option.some.inj hbyte).symm
        exact other.1 (Char.toNat_inj.mp same.symm)
    · simp only [List.cons_append, Cursor.strip?]
      split
      · exact ih (fun c hc => plain c (.tail _ hc)) ⟨offset + 1, rest⟩
      · rfl

theorem takeWhile {property : UInt8 → Bool} (dot : property 46 = false) (bar : property 95 = false)
    (rest : List UInt8) : (rest ++ tail).takeWhile property = rest.takeWhile property := by
  induction rest with
  | nil =>
    obtain ⟨byte, more, rfl, rfl | rfl⟩ := suffix.head
    · simp [dot]
    · simp [bar]
  | cons byte rest ih => simp only [List.cons_append, List.takeWhile_cons, ih]

theorem dropWhile {property : UInt8 → Bool} (dot : property 46 = false) (bar : property 95 = false)
    (rest : List UInt8) : (rest ++ tail).dropWhile property = rest.dropWhile property ++ tail := by
  induction rest with
  | nil =>
    obtain ⟨byte, more, rfl, rfl | rfl⟩ := suffix.head
    · simp [dot]
    · simp [bar]
  | cons byte rest ih =>
    simp only [List.cons_append, List.dropWhile_cons]
    split
    · exact ih
    · rfl

theorem spanWhile {property : UInt8 → Bool} (dot : property 46 = false) (bar : property 95 = false)
    (cursor : Cursor) :
    (⟨cursor.offset, cursor.rest ++ tail⟩ : Cursor).spanWhile property =
      ((cursor.spanWhile property).1,
        ⟨(cursor.spanWhile property).2.offset, (cursor.spanWhile property).2.rest ++ tail⟩) := by
  simp only [Cursor.spanWhile, suffix.takeWhile dot bar, suffix.dropWhile dot bar]

/-- A look at a byte that is there, or at the first beyond the end. -/
theorem blind {γ : Type} {f : Char → γ} (blind : Blind f) {cursor : Cursor} {distance : Nat}
    (near : distance ≤ cursor.rest.length) :
    f ((⟨cursor.offset, cursor.rest ++ tail⟩ : Cursor).peekAt distance) =
      f (cursor.peekAt distance) := by
  by_cases inside : distance < cursor.rest.length
  · simp only [Cursor.peekAt, List.getElem?_append_left inside]
  · obtain rfl : distance = cursor.rest.length := by omega
    obtain ⟨byte, more, rfl, rfl | rfl⟩ := suffix.head
    · simpa [Cursor.peekAt] using blind.1
    · simpa [Cursor.peekAt] using blind.2

end Suffix

/-- A byte that is seen is within the input. -/
theorem lt_length_of_peekAt {cursor : Cursor} {distance : Nat} {char : Char}
    (look : cursor.peekAt distance = char) (some : char ≠ '\x00') :
    distance < cursor.rest.length := by
  apply Nat.lt_of_not_le
  intro beyond
  have none : cursor.rest[distance]? = none := List.getElem?_eq_none beyond
  rw [Cursor.peekAt, none] at look
  exact some look.symm

namespace Operator

theorem find?_no_code {second : Char} (first : Char)
    (other : ∀ operator ∈ all, (operator.code.2 == second) = false) :
    find? first second = none := by
  simp only [find?, List.find?_eq_none]
  intro operator found
  simp [other operator found]

/-- No code of an operator ends in NUL or with the beginning of a suffix. -/
theorem find?_blind (first : Char) :
    find? first '\x00' = none ∧ find? first '.' = none ∧ find? first '_' = none :=
  ⟨find?_no_code first (by decide), find?_no_code first (by decide),
    find?_no_code first (by decide)⟩

theorem second_of_find? {first second : Char} {operator : Operator}
    (found : find? first second = some operator) : second ≠ '\x00' := by
  rintro rfl
  rw [(find?_blind first).1] at found
  cases found

end Operator

namespace Parse

namespace Still

theorem make (node : Node) : Still tail (Parse.make node) := by
  rintro ⟨⟨offset, rest⟩, level, ⟨tree, table, forward, ⟨levels, outer⟩⟩, facts, args, ahead,
    lambda⟩ id t hr
  cases hr
  exact ⟨rfl, rfl⟩

theorem makeList (ids : Array NodeId) : Still tail (Parse.makeList ids) := by
  rintro ⟨⟨offset, rest⟩, level, ⟨tree, table, forward, ⟨levels, outer⟩⟩, facts, args, ahead,
    lambda⟩ id t hr
  cases hr
  exact ⟨rfl, rfl⟩

theorem node (id : NodeId) : Still tail (Parse.node id) := by
  rintro s node t hr
  cases hr
  exact ⟨rfl, rfl⟩

theorem patch (id : NodeId) (node : Node) : Still tail (Parse.patch id node) := by
  rintro s node t hr
  cases hr
  exact ⟨rfl, rfl⟩

theorem enlist (id : NodeId) : Still tail (Parse.enlist id) := by
  rintro ⟨⟨offset, rest⟩, level, ⟨tree, table, forward, ⟨levels, outer⟩⟩, facts, args, ahead,
    lambda⟩ ⟨⟩ t hr
  simp only [Parse.enlist, step, ParseState.followed] at hr ⊢
  split at hr
  · cases hr
  · cases hr
    exact ⟨rfl, if_neg ‹_›⟩

theorem addArgument (id : NodeId) : Still tail (Parse.addArgument id) := by
  rintro ⟨⟨offset, rest⟩, level, ⟨tree, table, forward, ⟨levels, outer⟩⟩, facts, args, ahead,
    lambda⟩ ⟨⟩ t hr
  cases hr
  exact ⟨rfl, rfl⟩

theorem modified {change : ParseState → ParseState} (keeps : ∀ s, (change s).cursor = s.cursor)
    (commutes : ∀ s : ParseState, change (s.followed tail) = (change s).followed tail) :
    Still tail (modify change) := by
  rintro s ⟨⟩ t hr
  cases hr
  refine ⟨keeps s, ?_⟩
  rw [run_modify, commutes]

theorem orFault {α : Type} (value : Option α) (fault : Fault) :
    Still tail (Parse.orFault value fault) := by
  cases value with
  | none =>
    intro s a t hr
    cases hr
  | some a =>
    intro s b t hr
    cases hr
    exact ⟨rfl, rfl⟩

theorem setScopes (scopes : TemplateScopes) : Still tail (Parse.setScopes scopes) :=
  modified (fun _ => rfl) fun _ => rfl

theorem setLevels (levels : Array ScopeLevel) : Still tail (Parse.setLevels levels) :=
  modified (fun _ => rfl) fun _ => rfl

theorem learn (tracked : Bool) (change : NameFacts → NameFacts) :
    Still tail (Parse.learn tracked change) := by
  cases tracked with
  | false =>
    intro s a t hr
    cases hr
    exact ⟨rfl, rfl⟩
  | true => exact modified (fun _ => rfl) fun _ => rfl

end Still

namespace Extends

variable {α β : Type} {s : ParseState} {doomed : Prop} {A : Rests} {C : β → Rests}

theorem make (node : Node) : Extends tail A (Parse.make node) (Parse.make node) fun _ => A :=
  still (.make node)

theorem modify_bind {change : ParseState → ParseState} {f f' : PUnit → Parse β}
    (keeps : ∀ s, (change s).cursor = s.cursor)
    (commutes : ∀ s : ParseState, change (s.followed tail) = (change s).followed tail)
    (h : Extends tail A (f ()) (f' ()) C) :
    Extends tail A (modify change >>= f) (modify change >>= f') C := by
  apply (still (.modified keeps commutes)).seq
  exact h

/-- Where nothing is left the parse ends. -/
theorem more_bind {fault : Fault} {f f' : Unit → Parse β} (h : Extends tail A (f ()) (f' ()) C) :
    Extends tail A (atEnd >>= fun ended => ensure (!ended) (Parse.throw fault) >>= f)
      (atEnd >>= fun ended => ensure (!ended) (Parse.throw fault) >>= f') C := by
  rintro ⟨⟨offset, _ | ⟨byte, rest⟩⟩, level, work, facts, args, ahead, lambda⟩
  · apply ExtendsFrom.of_fails
    exact Fails.after (show atEnd.run _ = .ok true _ from rfl) (Fails.bind (Fails.throw fault))
  · exact h _

theorem makeList (ids : Array NodeId) :
    Extends tail A (Parse.makeList ids) (Parse.makeList ids) fun _ => A :=
  still (.makeList ids)

theorem makeName (words : String) :
    Extends tail A (Parse.makeName words) (Parse.makeName words) fun _ => A :=
  make _

theorem enlist (id : NodeId) : Extends tail A (Parse.enlist id) (Parse.enlist id) fun _ => A :=
  still (.enlist id)

theorem delist : Extends tail A Parse.delist Parse.delist fun _ => A := by
  apply get_bind
  intro s
  apply ExtendsFrom.bind (still (.orFault _ _) s)
  intro table t _
  apply still
  exact .modified (fun _ => rfl) fun _ => rfl

theorem listed (index : Nat) : Extends tail A (Parse.listed index) (Parse.listed index) fun _ => A := by
  apply get_bind
  intro s
  exact still (.orFault _ _) s

end Extends

/-- An underscore is accepted where one comes next. -/
theorem run_acceptBar (s : ParseState) :
    (accept "_").run s =
      if s.cursor.rest.head? = some 95 then .ok true { s with cursor := s.cursor.skip 1 }
      else .ok false s := by
  obtain ⟨⟨offset, _ | ⟨byte, rest⟩⟩, level, work, facts, args, ahead, lambda⟩ := s
  · rfl
  · have bar : byte.toNat = 95 ↔ byte = 95 := UInt8.toNat_inj (b := 95)
    by_cases here : byte = 95
    · simp [accept, step, Cursor.strip?, Cursor.skip, here]
    · simp [accept, step, Cursor.strip?, bar, here]

section Looks

variable {α β : Type} {s : ParseState} {doomed : Prop} {A : Rests} {C : β → Rests}
  (suffix : Suffix tail)
include suffix

namespace ExtendsFrom

/-- A choice that treats the beginning of a suffix like the end is the same choice. -/
theorem peekAt_bind {distance : Nat} {f f' : Char → Parse β}
    (near : distance ≤ s.cursor.rest.length) (blind : Blind f')
    (h : ExtendsFrom tail s doomed (f (s.cursor.peekAt distance)) (f' (s.cursor.peekAt distance))
      C) : ExtendsFrom tail s doomed (peekAt distance >>= f) (peekAt distance >>= f') C := by
  rw [← suffix.blind blind near] at h
  exact h

/-- Only the second of two bytes that are looked at may be one that follows the symbol. -/
theorem peekPair_bind {f f' : Char × Char → Parse β} (some : s.cursor.rest ≠ [])
    (blind : ∀ first, Blind fun second => f' (first, second))
    (h : ExtendsFrom tail s doomed (f (s.cursor.peekAt 0, s.cursor.peekAt 1))
      (f' (s.cursor.peekAt 0, s.cursor.peekAt 1)) C) :
    ExtendsFrom tail s doomed (peekPair >>= f) (peekPair >>= f') C := by
  have one : 0 < s.cursor.rest.length := List.length_pos_iff.mpr some
  have first : (s.followed tail).cursor.peekAt 0 = s.cursor.peekAt 0 := by
    simp only [ParseState.followed, Cursor.peekAt, List.getElem?_append_left one]
  have same : f' ((s.followed tail).cursor.peekAt 0, (s.followed tail).cursor.peekAt 1) =
      f' (s.cursor.peekAt 0, s.cursor.peekAt 1) := by
    rw [first]
    exact suffix.blind (blind _) one
  rw [← same] at h
  exact h

/-- A token that is not there leaves everything known as it was. -/
theorem accept_bind {token : String} {f f' : Bool → Parse β} (plain : PlainToken token)
    (hit : Extends tail .never (f true) (f' true) C)
    (miss : ExtendsFrom tail s False (f false) (f' false) C) :
    ExtendsFrom tail s False (Parse.accept token >>= f) (Parse.accept token >>= f') C := by
  have stripped := suffix.strip? plain.2 s.cursor
  cases found : s.cursor.strip? token.toList with
  | none =>
    have run : (accept token).run s = .ok false s := by
      simp only [accept, step, found]
    have run' : (accept token).run (s.followed tail) = .ok false (s.followed tail) := by
      rw [found] at stripped
      simp only [accept, step, ParseState.followed, stripped, Option.map_none]
    intro b u hu
    rw [run_bind_ok _ run] at hu
    rw [run_bind_ok _ run']
    exact miss b u hu
  | some cursor =>
    have run : (accept token).run s = .ok true { s with cursor := cursor } := by
      simp only [accept, step, found]
    have run' : (accept token).run (s.followed tail) =
        .ok true (ParseState.followed { s with cursor := cursor } tail) := by
      rw [found] at stripped
      simp only [accept, step, ParseState.followed, stripped, Option.map_some]
    intro b u hu
    rw [run_bind_ok _ run] at hu
    rw [run_bind_ok _ run']
    exact hit _ b u hu

omit suffix in
theorem advance_bind {count : Nat} {f f' : Unit → Parse β} (fits : count ≤ s.cursor.rest.length)
    (h : Extends tail .never (f ()) (f' ()) C) :
    ExtendsFrom tail s False (advance count >>= f) (advance count >>= f') C := by
  have same : (s.followed tail).cursor.advance count =
      ⟨(s.cursor.advance count).offset, (s.cursor.advance count).rest ++ tail⟩ := by
    rw [Cursor.advance_eq fits, Cursor.advance_eq (by simp [ParseState.followed]; omega)]
    simp [ParseState.followed, Cursor.skip, List.drop_append_of_le_length fits]
  apply ExtendsFrom.bind (B := fun _ => .never)
  · rintro _ _ ⟨⟩
    refine ⟨False.elim, .inl ?_⟩
    show EStateM.Result.ok () { s.followed tail with cursor := (s.followed tail).cursor.advance count } = _
    rw [same]
    rfl
  · intro a t _
    exact h t

omit suffix in
theorem orFault_bind {value : Option α} {fault : Fault} {f f' : α → Parse β}
    (h : ∀ a, value = some a → ExtendsFrom tail s doomed (f a) (f' a) C) :
    ExtendsFrom tail s doomed (orFault value fault >>= f) (orFault value fault >>= f') C := by
  cases value with
  | none => exact .of_fails (Fails.bind (Fails.throw fault))
  | some a => exact h a rfl

omit suffix in
theorem advance_one {char : Char} {f f' : Unit → Parse β} (look : s.cursor.peekAt 0 = char)
    (some : char ≠ '\x00') (h : Extends tail .never (f ()) (f' ()) C) :
    ExtendsFrom tail s False (advance 1 >>= f) (advance 1 >>= f') C :=
  advance_bind (lt_length_of_peekAt look some) h

omit suffix in
theorem advance_two {char : Char} {f f' : Unit → Parse β} (look : s.cursor.peekAt 1 = char)
    (some : char ≠ '\x00') (h : Extends tail .never (f ()) (f' ()) C) :
    ExtendsFrom tail s False (advance 2 >>= f) (advance 2 >>= f') C :=
  advance_bind (lt_length_of_peekAt look some) h

end ExtendsFrom

namespace Extends

theorem peek_bind {f f' : Char → Parse β} (blind : Blind f')
    (h : ∀ char, Extends tail A (f char) (f' char) C) :
    Extends tail A (peek >>= f) (peek >>= f') C :=
  fun s => ExtendsFrom.peekAt_bind suffix (Nat.zero_le _) blind (h (s.cursor.peekAt 0) s)

/-- A choice by two bytes that fails where nothing is left. -/
theorem peekPair_bind {f f' : Char × Char → Parse β}
    (blind : ∀ first, Blind fun second => f' (first, second))
    (none : ∀ s, s.cursor.rest = [] → Fails (f ('\x00', '\x00')) s)
    (h : ∀ s, s.cursor.rest ≠ [] → ExtendsFrom tail s False
      (f (s.cursor.peekAt 0, s.cursor.peekAt 1)) (f' (s.cursor.peekAt 0, s.cursor.peekAt 1)) C) :
    Extends tail .never (peekPair >>= f) (peekPair >>= f') C := by
  intro s
  by_cases left : s.cursor.rest = []
  · apply ExtendsFrom.of_fails
    have looks : peekPair.run s = .ok ('\x00', '\x00') s := by
      simp [peekPair, run_bind_ok _ run_get, Cursor.peekAt, left]
    exact Fails.after looks (none s left)
  · exact ExtendsFrom.peekPair_bind suffix left blind (h s left)

/-- A plain token is accepted with more bytes behind it just if it was before. -/
theorem accept {token : String} (plain : PlainToken token) (bar : ∀ rest, A rest → Barred rest) :
    Extends tail A (accept token) (accept token) fun held rest => held = false ∧ A rest := by
  intro s a t hr
  have stripped := suffix.strip? plain.2 s.cursor
  cases found : s.cursor.strip? token.toList with
  | none =>
    have run : (Parse.accept token).run s = .ok false s := by
      simp only [Parse.accept, step, found]
    cases run.symm.trans hr
    refine ⟨fun d => ⟨rfl, d⟩, .inl ?_⟩
    rw [found] at stripped
    simp only [Parse.accept, step, ParseState.followed, stripped, Option.map_none]
  | some cursor =>
    have run : (Parse.accept token).run s = .ok true { s with cursor := cursor } := by
      simp only [Parse.accept, step, found]
    cases run.symm.trans hr
    refine ⟨fun d => ?_, .inl ?_⟩
    · obtain ⟨char, more, spelled⟩ := List.exists_cons_of_ne_nil plain.1
      have other := (plain.2 char (by simp [spelled])).1
      rw [spelled, (bar _ d).strip? more other] at found
      cases found
    · rw [found] at stripped
      simp only [Parse.accept, step, ParseState.followed, stripped, Option.map_some]

theorem accept_bind {token : String} {f f' : Bool → Parse β} (plain : PlainToken token)
    (bar : ∀ rest, A rest → Barred rest) (hit : Extends tail .never (f true) (f' true) C)
    (miss : Extends tail A (f false) (f' false) C) :
    Extends tail A (Parse.accept token >>= f) (Parse.accept token >>= f') C := by
  apply (accept suffix plain bar).bind
  intro held
  cases held with
  | true => exact hit.weaken (fun _ h => nomatch h.1) fun _ _ h => h
  | false => exact miss.weaken (fun _ h => h.2) fun _ _ h => h

/-- A token that may come next, where nothing depends on it. -/
theorem accepted {token : String} (plain : PlainToken token)
    (bar : ∀ rest, A rest → Barred rest) :
    Extends tail A (Parse.accept token) (Parse.accept token) fun _ => A :=
  (accept suffix plain bar).widen fun _ _ h => h.2

theorem expect {token : String} (plain : PlainToken token) (bar : ∀ rest, A rest → Barred rest) :
    Extends tail A (Parse.expect token) (Parse.expect token) fun _ => .never :=
  accept_bind suffix plain bar (pure fun _ => id) unexpected

omit suffix in
/-- A token that must come next is wholly part of the bytes themselves. -/
theorem expected (token : String) :
    Extends tail .never (Parse.expect token) (Parse.expect token) fun _ => .never := by
  intro s a t hr
  refine ⟨False.elim, .inl ?_⟩
  cases found : s.cursor.strip? token.toList with
  | none =>
    have run : (Parse.accept token).run s = .ok false s := by
      simp only [Parse.accept, step, found]
    exact absurd hr (Fails.after run Fails.unexpected a t)
  | some cursor =>
    have run : (Parse.accept token).run s = .ok true { s with cursor := cursor } := by
      simp only [Parse.accept, step, found]
    have run' : (Parse.accept token).run (s.followed tail) =
        .ok true (ParseState.followed { s with cursor := cursor } tail) := by
      simp only [Parse.accept, step, ParseState.followed, Cursor.strip?_append found]
    cases (run_bind_ok _ run).symm.trans hr
    exact run_bind_ok _ run'

variable {A' : Rests} (eats : ∀ rest, A rest → ∃ more, rest = 95 :: more ∧ A' more)
include eats

omit suffix in
/-- An underscore is accepted where it stands in the bytes themselves. At their end, where one
of the suffix would be accepted, nothing is left. -/
theorem acceptBar : Extends tail A (Parse.accept "_") (Parse.accept "_")
    fun held rest => if held then A' rest else rest = [] := by
  intro s a t hr
  rw [run_acceptBar] at hr ⊢
  by_cases bar : s.cursor.rest.head? = some 95
  · rw [if_pos bar] at hr
    cases hr
    obtain ⟨byte, rest, left⟩ : ∃ byte rest, s.cursor.rest = byte :: rest := by
      cases left : s.cursor.rest with
      | nil => simp [left] at bar
      | cons byte rest => exact ⟨byte, rest, rfl⟩
    refine ⟨fun doomed => ?_, .inl ?_⟩
    · obtain ⟨more, same, here⟩ := eats _ doomed
      simpa [Cursor.skip, same] using here
    · simp [ParseState.followed, Cursor.skip, left] at bar ⊢
      exact bar
  · rw [if_neg bar] at hr
    cases hr
    refine ⟨fun doomed => ?_, ?_⟩
    · obtain ⟨more, same, -⟩ := eats _ doomed
      exact absurd (by rw [same]; rfl) bar
    · cases left : s.cursor.rest with
      | nil => exact .inr rfl
      | cons byte rest =>
        refine .inl (if_neg ?_)
        simpa [ParseState.followed, left] using bar

omit suffix in
theorem acceptBar_bind {f f' : Bool → Parse β} (hit : Extends tail A' (f true) (f' true) C)
    (miss : Extends tail (· = []) (f false) (f' false) C) :
    Extends tail A (Parse.accept "_" >>= f) (Parse.accept "_" >>= f') C := by
  apply (acceptBar eats).bind
  intro held
  cases held with
  | true => exact hit
  | false => exact miss

omit suffix in
theorem expectBar : Extends tail A (Parse.expect "_") (Parse.expect "_") fun _ => A' :=
  acceptBar_bind eats (pure fun _ => id) unexpected

end Extends
end Looks
end Parse
end Unmangle
