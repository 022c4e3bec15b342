import Unmangle.Grammar.Type
import Unmangle.Proofs.Compression.Opening
import Unmangle.Proofs.Compression.Stored
import Unmangle.Proofs.Grammar.Cursor
import Unmangle.Proofs.Limits

/-!
# Steps over a symbol

How the smallest steps of a parse move over tokens, numbers and identifiers, and what they
store and list.
-/
namespace Unmangle

namespace Parse.Grants

variable {α : Type} {symbol : ByteArray} {room : Prop} {base s : ParseState}
  {listed : List Component} {rest allowed : List UInt8}

section Tokens

variable {token : String} {bytes : List UInt8}

/-- A token that comes next is accepted. -/
theorem accepted (bytes : List UInt8) {Q : Bool → ParseState → Prop}
    (spelled : bytes = token.toList.map fun char => UInt8.ofNat char.toNat)
    (ascii : token.toList.all (fun char => char.toNat < 256) = true)
    (h : Stands symbol base listed (bytes ++ rest) s)
    (next : ∀ t, Stands symbol base listed rest t → t.work = s.work → Q true t) :
    Grants room (accept token) s Q := by
  refine known (a := true) ?_ (next _ (Stands.passed _ h) rfl)
  simp only [accept, step, Cursor.strip?_of_spelled spelled ascii h.ahead]

/-- A token is not accepted where none of the bytes that can come next begins it. -/
theorem rejected (token : String) {char : Char} {chars : List Char} {Q : Bool → ParseState → Prop}
    (spelled : token.toList = char :: chars) (h : Stands symbol base listed rest s)
    (ahead : Ahead allowed rest) (other : ∀ byte ∈ allowed, byte.toNat ≠ char.toNat)
    (next : Q false s) : Grants room (accept token) s Q := by
  refine known (a := false) ?_ next
  have none : s.cursor.strip? token.toList = none := by
    rw [spelled]
    refine Cursor.strip?_of_ne ?_
    intro byte hbyte
    refine other byte (ahead byte ?_)
    rwa [h.ahead] at hbyte
  simp only [accept, step, none]

theorem expected {Q : Unit → ParseState → Prop}
    (spelled : bytes = token.toList.map fun char => UInt8.ofNat char.toNat)
    (ascii : token.toList.all (fun char => char.toNat < 256) = true)
    (h : Stands symbol base listed (bytes ++ rest) s)
    (next : ∀ t, Stands symbol base listed rest t → Q () t) : Grants room (expect token) s Q :=
  bind (accepted bytes spelled ascii h fun t ht _ => pure (next t ht))

end Tokens

theorem peekAt_cons {byte : UInt8} (h : Stands symbol base listed (byte :: rest) s) :
    s.cursor.peekAt 0 = Char.ofNat byte.toNat := by
  rw [Cursor.peekAt, h.ahead]
  rfl

theorem peek {Q : Char → ParseState → Prop} (next : Q (s.cursor.peekAt 0) s) :
    Grants room Parse.peek s Q :=
  known rfl next

theorem run_peekPair : Parse.peekPair.run s = .ok (s.cursor.peekAt 0, s.cursor.peekAt 1) s :=
  rfl

theorem peekPair {Q : Char × Char → ParseState → Prop}
    (next : Q (s.cursor.peekAt 0, s.cursor.peekAt 1) s) : Grants room Parse.peekPair s Q :=
  known rfl next

theorem advanced {byte : UInt8} {Q : Unit → ParseState → Prop}
    (h : Stands symbol base listed (byte :: rest) s)
    (next : ∀ t, Stands symbol base listed rest t → Q () t) : Grants room (advance 1) s Q := by
  refine known ?_ (next _ (Stands.passed [byte] h))
  have moved : s.cursor.advance 1 = ⟨s.cursor.offset + 1, rest⟩ := by
    have ahead := h.ahead
    generalize s.cursor = cursor at ahead ⊢
    obtain ⟨offset, _⟩ := cursor
    obtain rfl := ahead
    rfl
  rw [advance, run_modify, moved]
  rfl

/-- A new node is stored, and it is not listed yet. -/
theorem made (node : Node) {Q : NodeId → ParseState → Prop}
    (h : Stands symbol base listed rest s)
    (next : ∀ id t, Stands symbol base listed rest t → s.work.tree.Extends t.work.tree →
      t.work.tree.get? id = some node → t.work.substitutions.contains id = false → Q id t) :
    Grants room (make node) s Q := by
  refine known (a := (s.work.tree.alloc node).1)
    (t := { s with work := { s.work with tree := (s.work.tree.alloc node).2 } }) rfl ?_
  refine next _ _ (h.stored (h.intact.alloc node) (h.intact.extends_alloc node) ?_)
    (h.intact.extends_alloc node) (h.intact.get?_alloc node) ?_
  · rw [Store.size_alloc]
    exact Nat.le_succ _
  · rw [Store.alloc_name]
    refine Bool.eq_false_iff.mpr ?_
    intro contained
    exact Nat.lt_irrefl _ (h.places _ contained)

/-- A component that is not listed yet is listed behind the others. -/
theorem enlisted (component : Component) {id : NodeId} {Q : Unit → ParseState → Prop}
    (h : Stands symbol base listed rest s) (held : component.Stored symbol s.work.tree id)
    (unlisted : s.work.substitutions.contains id = false)
    (next : ∀ t, Stands symbol base (listed ++ [component]) rest t → t.work.tree = s.work.tree →
      t.work.substitutions.entries = s.work.substitutions.entries.push id → Q () t) :
    Grants room (enlist id) s Q := by
  refine known (t := { s with work := { s.work with
    substitutions := s.work.substitutions.insert id } }) ?_ (next _ ?_ rfl rfl)
  · simp only [enlist, step, unlisted, Bool.false_eq_true, if_false]
  · refine ⟨h.ahead, h.behind, h.intact, h.tree, ?_, ?_, h.forward, h.level, h.facts⟩
    · rw [Substitutions.insert, Array.toList_push]
      exact List.rel_append h.listed (.cons held .nil)
    · intro place hplace
      rw [Substitutions.insert, Std.TreeSet.contains_insert, Bool.or_eq_true] at hplace
      rcases hplace with same | before
      · rw [← Std.LawfulEqCmp.eq_of_compare (beq_iff_eq.mp same)]
        exact held.lt_size h.intact
      · exact h.places place before

/-- A number that is written comes next, and no digit behind it. -/
theorem counted {radix number : Nat} {property : UInt8 → Bool} {Q : Nat → ParseState → Prop}
    (two : 2 ≤ radix) (most : radix ≤ 36)
    (digit : ∀ value < radix, property (Number.digitByte value) = true)
    (ends : ∀ byte ∈ rest.head?, property byte = false) (fits : number < Number.bound)
    (h : Stands symbol base listed (octets (Number.numeral radix number) ++ rest) s)
    (next : ∀ t, Stands symbol base listed rest t → Q number t) :
    Grants room (value radix property) s Q := by
  have span := Cursor.spanWhile_of_append (Number.all_numeral two most digit number) ends h.ahead
  have run : (digits property).run s = .ok (octets (Number.numeral radix number)) { s with
      cursor := ⟨s.cursor.offset + (octets (Number.numeral radix number)).length, rest⟩ } := by
    simp only [digits, step, span]
  have read := Number.value?_numeral two most fits
  obtain ⟨first, others, hdigits, -⟩ := Number.head_numeral two most number
  refine after run ?_
  simp only [hdigits] at read ⊢
  refine known ?_ (next _ (Stands.passed _ h))
  simp only [read, orFault, run_pure, hdigits]

theorem resolve_span {bytes : List UInt8} {offset : Nat}
    (h : symbol.data.toList.drop offset = bytes ++ rest) :
    (Text.span offset (offset + bytes.length)).resolve symbol = ⟨bytes.toArray⟩ := by
  apply ByteArray.ext
  apply Array.toList_inj.mp
  rw [Text.resolve, toList_extract, h, List.take_left]

/-- An identifier and its bytes, behind its length. -/
theorem identifierFrom {id : Identifier} {Q : Text × Cursor → ParseState → Prop}
    (fits : id.words.utf8ByteSize < Number.bound)
    (h : Stands symbol base listed (octets id.code ++ rest) s)
    (next : ∀ text bytes t, Stands symbol base listed rest t →
      text.resolve symbol = id.words.toUTF8 → bytes.rest = octets id.words → Q (text, bytes) t) :
    Grants room Parse.identifierFrom s Q := by
  have size : (octets id.words).length = id.words.utf8ByteSize := length_octets id.words
  have positive : id.words.utf8ByteSize ≠ 0 := by
    intro zero
    have opens := id.opens
    rw [List.length_eq_zero_iff.mp (size.trans zero)] at opens
    simp at opens
  have ends : ∀ byte ∈ (octets id.words ++ rest).head?, Number.isDigit byte = false := by
    have opens := id.opens
    cases hwords : octets id.words with
    | nil => simp [hwords] at opens
    | cons byte others => simpa [hwords] using opens
  rw [Identifier.code, octets_append, List.append_assoc] at h
  refine bind (counted (by decide) (by decide) (fun _ => Number.isDigit_digitByte) ends fits h ?_)
  intro t ht
  have held : id.words.utf8ByteSize ≤ t.cursor.rest.length := by
    rw [ht.ahead, List.length_append, size]
    exact Nat.le_add_right _ _
  have taken : t.cursor.take? id.words.utf8ByteSize =
      some ⟨t.cursor.offset + (octets id.words).length, rest⟩ := by
    rw [Cursor.take?_eq_some_iff, ht.ahead, size, ← size, List.drop_left]
    refine ⟨?_, rfl⟩
    rw [List.length_append]
    exact Nat.le_add_right _ _
  have resolved := resolve_span ht.behind
  refine bind (known (t := t) (a := ()) ?_ (after (t := t) (a := t) run_get ?_))
  · rw [bne_iff_ne.mpr positive]
    rfl
  · refine after (t := t) (a := ⟨t.cursor.offset + (octets id.words).length, rest⟩) ?_ ?_
    · rw [taken]
      rfl
    · refine after (run_modify _) (pure (next _ _ _ (Stands.passed _ ht) ?_ ?_))
      · rw [resolved]
        rfl
      · rw [ht.ahead, ← size, List.take_left]

/-- An identifier is read from its length and its bytes. -/
theorem sourceName {id : Identifier} {Q : NodeId → ParseState → Prop}
    (fits : id.words.utf8ByteSize < Number.bound)
    (h : Stands symbol base listed (octets id.code ++ rest) s)
    (next : ∀ name t, Stands symbol base listed rest t → id.Stored symbol t.work.tree name →
      t.work.substitutions.contains name = false → Q name t) :
    Grants room Parse.sourceName s Q := by
  refine bind (identifierFrom fits h fun text bytes t ht resolved shown => ?_)
  have same : (bytes.strip? "_GLOBAL__N".toList).isSome =
      ((⟨0, octets id.words⟩ : Cursor).strip? "_GLOBAL__N".toList).isSome :=
    Cursor.isSome_strip?_congr shown _
  dsimp only
  by_cases anonymous : (bytes.strip? "_GLOBAL__N".toList).isSome
  · rw [if_pos anonymous]
    refine made _ ht ?_
    intro name u hu _ held unlisted
    refine next name u hu ⟨_, held, ?_⟩ unlisted
    rw [Identifier.text, if_pos (same ▸ anonymous)]
    rfl
  · rw [if_neg anonymous]
    refine made _ ht ?_
    intro name u hu _ held unlisted
    refine next name u hu ⟨_, held, ?_⟩ unlisted
    rw [Identifier.text, if_neg (same ▸ anonymous), resolved]

end Parse.Grants
end Unmangle
