import Unmangle.Grammar.Type
import Unmangle.Proofs.Compression.Opening
import Unmangle.Proofs.Compression.Steps
import Unmangle.Proofs.Declarator.Outcome
import Unmangle.Proofs.Declarator.Stored

/-!
# Steps in front of a known text

How the smallest steps of a parse move over what comes next, and what they store. Whatever
they list for substitution is new, and no other part of the state is touched.
-/
namespace Unmangle

/-- What the reading of a type leaves as it is. -/
structure Setting where
  level : Nat
  facts : NameFacts
  forward : Array NodeId
  scopes : TemplateScopes
  templateArgsAllowed : Bool
  forwardAllowed : Bool
  lambdaLevel : Option Nat

def ParseState.setting (s : ParseState) : Setting :=
  ⟨s.level, s.facts, s.work.forward, s.work.scopes, s.templateArgsAllowed, s.forwardAllowed,
    s.lambdaLevel⟩

/-- A parse that began in `base` is in front of `rest`, and all that it listed is stored. -/
structure Poised (symbol : ByteArray) (base : ParseState) (rest : List UInt8) (s : ParseState) :
    Prop where
  ahead : s.cursor.rest = rest
  behind : symbol.data.toList.drop s.cursor.offset = rest
  intact : s.work.tree.Intact
  grows : base.work.tree.Grows s.work.tree
  places : ∀ place, s.work.substitutions.places.contains place = true → place < s.work.tree.size
  setting : s.setting = base.setting

namespace Poised

variable {symbol : ByteArray} {base s t : ParseState} {rest rest' : List UInt8}

theorem level (h : Poised symbol base rest s) : s.level = base.level :=
  congrArg Setting.level h.setting

/-- A parse that begins where it is. -/
theorem self (h : Poised symbol base rest s) : Poised symbol s rest s :=
  { h with grows := .refl _, setting := rfl }

theorem trans (h : Poised symbol base rest s) (later : Poised symbol s rest' t) :
    Poised symbol base rest' t :=
  { later with
    grows := h.grows.trans later.grows
    setting := later.setting.trans h.setting }

theorem deeper (h : Poised symbol base rest s) :
    Poised symbol { base with level := base.level + 1 } rest { s with level := s.level + 1 } :=
  ⟨h.ahead, h.behind, h.intact, h.grows, h.places,
    congrArg (fun setting => { setting with level := setting.level + 1 }) h.setting⟩

theorem up (h : Poised symbol { base with level := base.level + 1 } rest s) :
    Poised symbol base rest (Parse.up s) :=
  ⟨h.ahead, h.behind, h.intact, h.grows, h.places,
    congrArg (fun setting => { setting with level := setting.level - 1 }) h.setting⟩

theorem passed (bytes : List UInt8) (h : Poised symbol base (bytes ++ rest) s) :
    Poised symbol base rest
      { s with cursor := ⟨s.cursor.offset + bytes.length, rest⟩ } := by
  refine ⟨rfl, ?_, h.intact, h.grows, h.places, h.setting⟩
  rw [← List.drop_drop, h.behind, List.drop_left]

/-- The tree grows, and nothing else changes. -/
theorem stored (h : Poised symbol base rest s) {tree : Tree} (intact : tree.Intact)
    (later : s.work.tree.Grows tree) (size : s.work.tree.size ≤ tree.size) :
    Poised symbol base rest { s with work := { s.work with tree := tree } } :=
  ⟨h.ahead, h.behind, intact, h.grows.trans later,
    fun place found => Nat.lt_of_lt_of_le (h.places place found) size, h.setting⟩

end Poised

theorem Store.Intact.grows_alloc {tree : Tree} (h : tree.Intact) (node : Node) :
    tree.Grows (tree.alloc node).2 :=
  ⟨h.extends_alloc node, #[], by rw [Store.lists_alloc, Array.append_empty]⟩

theorem Store.Intact.grows_allocList {tree : Tree} (h : tree.Intact) (ids : Array NodeId) :
    tree.Grows (tree.allocList ids).2 :=
  ⟨h.extends_allocList ids, ids, rfl⟩

theorem Store.lists_allocList (tree : Tree) (ids : Array NodeId) :
    Tree.Lists (tree.allocList ids).2 (tree.allocList ids).1 ids.toList := by
  constructor
  · simp [Store.allocList]
  · rw [Store.list_allocList]

/-- A numeral of more than 64 bits has no value. -/
theorem Number.value?_numeral_eq_none {number : Nat} (large : bound ≤ number) :
    value? 10 (octets (numeral 10 number)) = none := by
  rw [value?_numeral_eq (by decide) (by decide), if_neg (Nat.not_lt.mpr large)]

namespace Parse.Meets

variable {α : Type} {symbol : ByteArray} {room : Prop} {due : Option Fault} {base s : ParseState}
  {rest allowed : List UInt8}

section Tokens

variable {token : String} {bytes : List UInt8}

theorem run_accept (bytes : List UInt8)
    (spelled : bytes = token.toList.map fun char => UInt8.ofNat char.toNat)
    (ascii : token.toList.all (fun char => char.toNat < 256) = true)
    (h : Poised symbol base (bytes ++ rest) s) :
    (accept token).run s = .ok true { s with cursor := ⟨s.cursor.offset + bytes.length, rest⟩ } := by
  simp only [accept, step, Cursor.strip?_of_spelled spelled ascii h.ahead]

theorem accepted (bytes : List UInt8) {f : Bool → Parse α} {Q : α → ParseState → Prop}
    (spelled : bytes = token.toList.map fun char => UInt8.ofNat char.toNat)
    (ascii : token.toList.all (fun char => char.toNat < 256) = true)
    (h : Poised symbol base (bytes ++ rest) s)
    (next : ∀ t, Poised symbol base rest t → t.work = s.work → Meets room due (f true) t Q) :
    Meets room due (accept token >>= f) s Q :=
  after (run_accept bytes spelled ascii h) (next _ (h.passed bytes) rfl)

theorem expected (bytes : List UInt8) {f : Unit → Parse α} {Q : α → ParseState → Prop}
    (spelled : bytes = token.toList.map fun char => UInt8.ofNat char.toNat)
    (ascii : token.toList.all (fun char => char.toNat < 256) = true)
    (h : Poised symbol base (bytes ++ rest) s)
    (next : ∀ t, Poised symbol base rest t → Meets room due (f ()) t Q) :
    Meets room due (expect token >>= f) s Q :=
  after (run_bind_ok _ (run_accept bytes spelled ascii h)) (next _ (h.passed bytes))

/-- A token is not in front where none of the bytes that may be begins it. -/
theorem strip?_other (token : String) {char : Char} {chars : List Char}
    (spelled : token.toList = char :: chars) (h : Poised symbol base rest s)
    (ahead : Ahead allowed rest) (other : ∀ byte ∈ allowed, byte.toNat ≠ char.toNat) :
    s.cursor.strip? token.toList = none := by
  rw [spelled]
  refine Cursor.strip?_of_ne ?_
  intro byte first
  refine other byte (ahead byte ?_)
  rwa [h.ahead] at first

theorem run_reject (token : String) {char : Char} {chars : List Char}
    (spelled : token.toList = char :: chars) (h : Poised symbol base rest s)
    (ahead : Ahead allowed rest) (other : ∀ byte ∈ allowed, byte.toNat ≠ char.toNat) :
    (accept token).run s = .ok false s := by
  simp only [accept, step, strip?_other token spelled h ahead other]

theorem rejected (token : String) {char : Char} {chars : List Char} {f : Bool → Parse α}
    {Q : α → ParseState → Prop} (spelled : token.toList = char :: chars)
    (h : Poised symbol base rest s) (ahead : Ahead allowed rest)
    (other : ∀ byte ∈ allowed, byte.toNat ≠ char.toNat) (next : Meets room due (f false) s Q) :
    Meets room due (accept token >>= f) s Q :=
  after (run_reject token spelled h ahead other) next

end Tokens

theorem peekAt_cons {byte : UInt8} (h : Poised symbol base (byte :: rest) s) :
    s.cursor.peekAt 0 = Char.ofNat byte.toNat := by
  rw [Cursor.peekAt, h.ahead]
  rfl

theorem peekAt_second {byte byte' : UInt8} (h : Poised symbol base (byte :: byte' :: rest) s) :
    s.cursor.peekAt 1 = Char.ofNat byte'.toNat := by
  rw [Cursor.peekAt, h.ahead]
  rfl

theorem advanced (bytes : List UInt8) {f : Unit → Parse α} {Q : α → ParseState → Prop}
    (h : Poised symbol base (bytes ++ rest) s)
    (next : ∀ t, Poised symbol base rest t → Meets room due (f ()) t Q) :
    Meets room due (advance bytes.length >>= f) s Q := by
  refine after ?_ (next _ (h.passed bytes))
  have moved : s.cursor.advance bytes.length = ⟨s.cursor.offset + bytes.length, rest⟩ := by
    rw [Cursor.advance_eq, Cursor.skip, h.ahead, List.drop_left]
    rw [h.ahead, List.length_append]
    exact Nat.le_add_right _ _
  rw [advance, run_modify, moved]

/-- A new node is stored, and it is not listed yet. -/
theorem made (node : Node) {Q : NodeId → ParseState → Prop} (h : Poised symbol base rest s)
    (next : ∀ id t, Poised symbol base rest t → s.work.tree.Grows t.work.tree →
      t.work.tree.get? id = some node → t.work.substitutions.contains id = false → Q id t) :
    Meets room none (make node) s Q := by
  have later := h.intact.grows_alloc node
  refine known (a := (s.work.tree.alloc node).1)
    (t := { s with work := { s.work with tree := (s.work.tree.alloc node).2 } }) rfl ?_
  refine next _ _ (h.stored (h.intact.alloc node) later ?_) later (h.intact.get?_alloc node) ?_
  · rw [Store.size_alloc]
    exact Nat.le_succ _
  · rw [Store.alloc_name]
    exact Bool.eq_false_iff.mpr fun contained => Nat.lt_irrefl _ (h.places _ contained)

/-- A list of names can be stored anywhere. -/
theorem madeList (ids : Array NodeId) {Q : NodeList → ParseState → Prop}
    (h : Poised symbol base rest s)
    (next : ∀ run t, Poised symbol base rest t → s.work.tree.Grows t.work.tree →
      t.work.tree.Lists run ids.toList → Q run t) :
    Meets room none (makeList ids) s Q := by
  have later := h.intact.grows_allocList ids
  refine known (a := (s.work.tree.allocList ids).1)
    (t := { s with work := { s.work with tree := (s.work.tree.allocList ids).2 } }) rfl ?_
  exact next _ _ (h.stored (h.intact.allocList ids) later (Nat.le_refl _)) later
    (Store.lists_allocList _ ids)

/-- A node that is not listed yet comes last on the list. -/
theorem enlistedLast {id : NodeId} {f : Unit → Parse α} {Q : α → ParseState → Prop}
    (h : Poised symbol base rest s) (held : (s.work.tree.get? id).isSome)
    (unlisted : s.work.substitutions.contains id = false)
    (next : ∀ t, Poised symbol base rest t → t.work.tree = s.work.tree →
      t.work.substitutions = s.work.substitutions.insert id → Meets room due (f ()) t Q) :
    Meets room due (enlist id >>= f) s Q := by
  refine after (t := { s with work := { s.work with
    substitutions := s.work.substitutions.insert id } }) ?_ (next _ ?_ rfl rfl)
  · simp only [enlist, step, unlisted, Bool.false_eq_true, if_false]
  · refine ⟨h.ahead, h.behind, h.intact, h.grows, ?_, h.setting⟩
    intro place found
    rw [Substitutions.insert, Std.TreeSet.contains_insert, Bool.or_eq_true] at found
    rcases found with same | before
    · rw [← Std.LawfulEqCmp.eq_of_compare (beq_iff_eq.mp same)]
      exact ((h.intact.get?_isSome_iff id).mp held).2
    · exact h.places place before

/-- A node that is not listed yet goes on the list. -/
theorem enlisted {id : NodeId} {f : Unit → Parse α} {Q : α → ParseState → Prop}
    (h : Poised symbol base rest s) (held : (s.work.tree.get? id).isSome)
    (unlisted : s.work.substitutions.contains id = false)
    (next : ∀ t, Poised symbol base rest t → t.work.tree = s.work.tree →
      Meets room due (f ()) t Q) : Meets room due (enlist id >>= f) s Q :=
  enlistedLast h held unlisted fun t ht same _ => next t ht same

/-- Whatever comes last on the list goes off it again. -/
theorem delisted {table : Substitutions} {f : Unit → Parse α} {Q : α → ParseState → Prop}
    (popped : s.work.substitutions.pop? = some table) (h : Poised symbol base rest s)
    (next : ∀ t, Poised symbol base rest t → t.work.tree = s.work.tree →
      Meets room due (f ()) t Q) : Meets room due (delist >>= f) s Q := by
  have run : delist.run s = .ok () { s with work := { s.work with substitutions := table } } := by
    refine (run_bind_ok _ run_get).trans ?_
    rw [popped]
    rfl
  refine after run (next _ ⟨h.ahead, h.behind, h.intact, h.grows, ?_, h.setting⟩ rfl)
  intro place contained
  rw [Substitutions.pop?] at popped
  cases last : s.work.substitutions.entries.back? with
  | none =>
    rw [last] at popped
    cases popped
  | some id =>
    rw [last] at popped
    cases popped
    rw [Std.TreeSet.contains_erase, Bool.and_eq_true] at contained
    exact h.places place contained.2

section Numbers

variable {number : Nat}

theorem span_numeral {property : UInt8 → Bool} (digit : ∀ value < 10,
      property (Number.digitByte value) = true) (ends : ∀ byte ∈ rest.head?, property byte = false)
    (h : Poised symbol base (octets (Number.numeral 10 number) ++ rest) s) :
    s.cursor.spanWhile property = (octets (Number.numeral 10 number),
      ⟨s.cursor.offset + (octets (Number.numeral 10 number)).length, rest⟩) :=
  Cursor.spanWhile_of_append (Number.all_numeral (by decide) (by decide) digit number) ends h.ahead

/-- A numeral is read as its number, unless that is too large. -/
theorem run_decimal (ends : ∀ byte ∈ rest.head?, Number.isDigit byte = false)
    (h : Poised symbol base (octets (Number.numeral 10 number) ++ rest) s) :
    decimal.run s =
      (orFault (Number.value? 10 (octets (Number.numeral 10 number))) .overflow).run { s with
        cursor := ⟨s.cursor.offset + (octets (Number.numeral 10 number)).length, rest⟩ } := by
  have run : (digits Number.isDigit).run s = .ok (octets (Number.numeral 10 number)) { s with
      cursor := ⟨s.cursor.offset + (octets (Number.numeral 10 number)).length, rest⟩ } := by
    simp only [digits, step, span_numeral (fun _ => Number.isDigit_digitByte) ends h]
  obtain ⟨first, others, some, -⟩ :=
    Number.head_numeral (by decide : 2 ≤ 10) (by decide) number
  refine (run_bind_ok _ run).trans ?_
  rw [some]

/-- A number that is written comes next. -/
theorem counted {f : Nat → Parse α} {Q : α → ParseState → Prop}
    (ends : ∀ byte ∈ rest.head?, Number.isDigit byte = false) (fits : number < Number.bound)
    (h : Poised symbol base (octets (Number.numeral 10 number) ++ rest) s)
    (next : ∀ t, Poised symbol base rest t → Meets room due (f number) t Q) :
    Meets room due (decimal >>= f) s Q := by
  refine after ?_ (next _ (h.passed _))
  rw [run_decimal ends h, Number.value?_numeral (by decide) (by decide) fits]
  rfl

/-- A number of more than 64 bits is a fault. -/
theorem overflows {f : Nat → Parse α} {Q : α → ParseState → Prop}
    (ends : ∀ byte ∈ rest.head?, Number.isDigit byte = false) (large : Number.bound ≤ number)
    (h : Poised symbol base (octets (Number.numeral 10 number) ++ rest) s) :
    Meets room (some .overflow) (decimal >>= f) s Q := by
  have run := run_decimal ends h
  rw [Number.value?_numeral_eq_none large] at run
  exact fails (run_bind_error f run)

/-- The digits of a number, which are kept as they are. -/
theorem numbered {f : Text → Parse α} {Q : α → ParseState → Prop}
    (ends : ∀ byte ∈ rest.head?, Number.isDigit byte = false)
    (h : Poised symbol base (octets (Number.numeral 10 number) ++ rest) s)
    (next : ∀ text t, Poised symbol base rest t →
      text.resolve symbol = (Number.numeral 10 number).toUTF8 → Meets room due (f text) t Q) :
    Meets room due (Parse.number false >>= f) s Q := by
  have span := span_numeral (fun _ => Number.isDigit_digitByte) ends h
  obtain ⟨first, others, some, -⟩ :=
    Number.head_numeral (by decide : 2 ≤ 10) (by decide) number
  have resolved := Parse.Grants.resolve_span h.behind
  refine after ?_ (next _ _ (h.passed _) resolved)
  simp only [Parse.number, step, Bool.false_eq_true, if_false, span, some]

end Numbers

/-- An identifier and its bytes, behind its length. -/
theorem identifierFrom {ident : Identifier} {f : Text × Cursor → Parse α}
    {Q : α → ParseState → Prop} (small : symbol.size < Number.bound)
    (h : Poised symbol base (octets ident.code ++ rest) s)
    (next : ∀ text bytes t, Poised symbol base rest t → t.work = s.work →
      text.resolve symbol = ident.words.toUTF8 → bytes.rest = octets ident.words →
      Meets room due (f (text, bytes)) t Q) :
    Meets room due (Parse.identifierFrom >>= f) s Q := by
  have size : (octets ident.words).length = ident.words.utf8ByteSize := length_octets ident.words
  have positive : ident.words.utf8ByteSize ≠ 0 := by
    intro zero
    have opens := ident.opens
    rw [List.length_eq_zero_iff.mp (size.trans zero)] at opens
    simp at opens
  have ends : ∀ byte ∈ (octets ident.words ++ rest).head?, Number.isDigit byte = false := by
    have opens := ident.opens
    cases words : octets ident.words with
    | nil => simp [words] at opens
    | cons byte others => simpa [words] using opens
  have fits : ident.words.utf8ByteSize < Number.bound := by
    have inside := congrArg List.length h.behind
    have whole : symbol.data.toList.length = symbol.size := rfl
    have sized := ident.size_le_code
    rw [List.length_drop, List.length_append] at inside
    omega
  rw [Identifier.code, octets_append, List.append_assoc] at h
  have counted := run_decimal ends h
  rw [Number.value?_numeral (by decide) (by decide) fits] at counted
  have ht := h.passed (octets (Number.numeral 10 ident.words.utf8ByteSize))
  generalize hs : ({ s with cursor := _ } : ParseState) = t at counted ht
  have work : t.work = s.work := hs ▸ rfl
  have taken : t.cursor.take? ident.words.utf8ByteSize =
      some ⟨t.cursor.offset + (octets ident.words).length, rest⟩ := by
    rw [Cursor.take?_eq_some_iff, ht.ahead, size, ← size, List.drop_left]
    refine ⟨?_, rfl⟩
    rw [List.length_append]
    exact Nat.le_add_right _ _
  have run : Parse.identifierFrom.run s =
      .ok (.span t.cursor.offset (t.cursor.offset + (octets ident.words).length),
          ⟨t.cursor.offset, octets ident.words⟩)
        { t with cursor := ⟨t.cursor.offset + (octets ident.words).length, rest⟩ } := by
    refine (run_bind_ok _ counted).trans ?_
    have some : (ensure (ident.words.utf8ByteSize != 0) (throw .unexpectedText)).run t = .ok () t := by
      rw [bne_iff_ne.mpr positive]
      rfl
    have behind : (orFault (t.cursor.take? ident.words.utf8ByteSize) .unexpectedEnd).run t =
        .ok ⟨t.cursor.offset + (octets ident.words).length, rest⟩ t := by
      rw [taken]
      rfl
    refine (run_bind_ok _ some).trans ((run_bind_ok _ run_get).trans ?_)
    refine (run_bind_ok _ behind).trans ((run_bind_ok _ (run_modify _)).trans ?_)
    rw [ht.ahead, ← size, List.take_left]
    rfl
  have resolved := Parse.Grants.resolve_span ht.behind
  refine after run (next _ _ _ (ht.passed _) work ?_ rfl)
  rw [resolved]
  rfl

/-- An identifier is stored under what is shown of it. -/
theorem sourceName {ident : Identifier} {Q : NodeId → ParseState → Prop}
    (small : symbol.size < Number.bound) (h : Poised symbol base (octets ident.code ++ rest) s)
    (next : ∀ id t, Poised symbol base rest t → s.work.tree.Grows t.work.tree →
      t.work.tree.Words symbol ident.text id → t.work.substitutions.contains id = false → Q id t) :
    Meets room none Parse.sourceName s Q := by
  refine identifierFrom small h ?_
  intro text bytes t ht work resolved shown
  have same : (bytes.strip? "_GLOBAL__N".toList).isSome =
      ((⟨0, octets ident.words⟩ : Cursor).strip? "_GLOBAL__N".toList).isSome :=
    Cursor.isSome_strip?_congr shown _
  dsimp only
  by_cases anonymous : (bytes.strip? "_GLOBAL__N".toList).isSome
  · rw [if_pos anonymous]
    refine made _ ht ?_
    intro id u hu later held unlisted
    refine next id u hu (work ▸ later) ⟨_, held, ?_⟩ unlisted
    rw [Identifier.text, if_pos (same ▸ anonymous)]
    rfl
  · rw [if_neg anonymous]
    refine made _ ht ?_
    intro id u hu later held unlisted
    refine next id u hu (work ▸ later) ⟨_, held, ?_⟩ unlisted
    rw [Identifier.text, if_neg (same ▸ anonymous), resolved]

end Parse.Meets
end Unmangle
