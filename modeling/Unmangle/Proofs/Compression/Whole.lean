import Unmangle.Proofs.Comparison.Symbol
import Unmangle.Proofs.Compression.Function

/-!
# Reading a whole symbol

Behind its marker a symbol has the name of a function and the parameters, and nothing else.
However the parameters are written, the same function is read.
-/
namespace Unmangle

/-- What stands for the parameters, `v` for none, begins as a component does. -/
theorem Component.AllWritten.begins {listed listed' components : List Component} {code : String}
    (h : AllWritten listed components code listed')
    (formed : ∀ component ∈ components, component.WellFormed) :
    ∃ byte rest, octets (if components.isEmpty then "v" else code) = byte :: rest ∧
      byte ∈ starters := by
  cases h with
  | nil => exact ⟨118, [], rfl, by decide⟩
  | @cons _ _ _ component _ _ code' first others =>
    have begun := formed component (List.mem_cons_self ..)
    obtain ⟨byte, rest, begins, opens⟩ := first.opens begun
    refine ⟨byte, rest ++ octets code', ?_, openers_subset begun byte opens⟩
    rw [List.isEmpty_cons, if_neg Bool.false_ne_true, octets_append, begins, List.cons_append]

theorem Component.AllWritten.length_le {listed listed' components : List Component}
    {code : String} (h : AllWritten listed components code listed') :
    (octets code).length ≤ (octets (if components.isEmpty then "v" else code)).length := by
  cases h with
  | nil => exact Nat.zero_le _
  | cons first others => exact Nat.le_refl _

namespace Parse.Grants

variable {symbol : ByteArray} {room : Prop} {limit levels : Nat} {base s : ParseState}
  {listed listed' : List Component} {rest : List UInt8} {code : String} {signature : Signature}

theorem madeList (names : Array NodeId) {Q : NodeList → ParseState → Prop}
    (h : Stands symbol base listed rest s)
    (next : ∀ run t, Stands symbol base listed rest t → s.work.tree.Extends t.work.tree →
      t.work.tree.list run = names → Q run t) :
    Grants room (makeList names) s Q := by
  have intact := h.intact.allocList names
  have later := h.intact.extends_allocList names
  refine known (a := (s.work.tree.allocList names).1)
    (t := { s with work := { s.work with tree := (s.work.tree.allocList names).2 } }) rfl ?_
  exact next _ _ (h.stored intact later (Nat.le_refl _)) later (Store.list_allocList _ _)

/-- A function is stored around its name and parameters. -/
theorem madeFunction {name : NodeId} {names : Array NodeId}
    (h : Stands symbol base listed rest s)
    (held : signature.name.Stored symbol s.work.tree name)
    (stored : List.Forall₂ (fun component name => component.Stored symbol s.work.tree name)
      signature.params names.toList) :
    Grants room (do make (.function none name (← makeList names) {} none)) s fun root t =>
      Stands symbol base listed rest t ∧ signature.Stored symbol t.work.tree root := by
  refine bind (madeList names h fun run t ht later same => ?_)
  have intact := ht.intact.alloc (.function none name run {} none)
  have behind := ht.intact.extends_alloc (.function none name run {} none)
  have kept := later.trans behind
  refine known (a := (t.work.tree.alloc (.function none name run {} none)).1) (t := { t with
    work := { t.work with tree := (t.work.tree.alloc (.function none name run {} none)).2 } }) rfl ?_
  refine ⟨ht.stored intact behind ?_, name, run, ht.intact.get?_alloc _, held.extends kept, ?_⟩
  · rw [Store.size_alloc]
    exact Nat.le_succ _
  · rw [Store.list, Store.lists_alloc, ← Store.list, same]
    exact stored.imp fun _ _ held => held.extends kept

def Whole (symbol : ByteArray) (base : ParseState) (signature : Signature) (root : NodeId)
    (t : ParseState) : Prop :=
  (∃ listed, Stands symbol base listed [] t) ∧ signature.Stored symbol t.work.tree root

/-- The encoding of a function is its name and then its parameters. -/
theorem plainEncoding (written : Component.AllWritten listed signature.params code listed')
    (small : listed.length + (octets (signature.name.code ++ code)).length < Number.bound)
    (spent : base.level + levels = limit) (fits : room → base.level + signature.height < limit + 2)
    (facts : base.facts = {})
    (h : Stands symbol base listed
      (octets (signature.name.code ++ (if signature.params.isEmpty then "v" else code))) s) :
    Grants room (Parse.plainEncoding (Rule.parse limit levels)) s (Whole symbol base signature) := by
  obtain ⟨byte, more, begins, opens⟩ := written.begins signature.wellFormed
  have tall := signature.four_le_height
  have sized := signature.name.size_le_code
  have level := h.level
  rw [octets_append, List.length_append] at small
  rw [octets_append] at h
  have ahead : Ahead Component.followers
      (octets (if signature.params.isEmpty then "v" else code)) := by
    rw [begins]
    exact (Ahead.cons opens more).weaken (by decide)
  refine after run_get (bind ?_)
  refine (topName true spent (fun enough => by have := fits enough; omega) (by omega) ahead
    h).weaken ?_
  rintro name t ⟨⟨ht, held⟩, -⟩
  refine bind ((resolved _ ht).weaken fun _ u found => ?_)
  obtain ⟨hu, same⟩ := found
  rw [← same] at held
  have peeked := hu
  rw [begins] at peeked
  apply bind
  refine notEncodingEnd opens (by decide) peeked (after run_get ?_)
  rw [hu.facts, facts]
  apply bind
  apply pure
  apply assoc
  apply bind
  have spent : u.level + levels = limit := hu.level ▸ spent
  have level := hu.level
  have room : room → ∀ param ∈ signature.params, u.level + param.height < limit := by
    intro enough param hparam
    have low := fits enough
    have high := Signature.height_le hparam
    omega
  refine (readParams written signature.wellFormed signature.first (by omega) spent room
    hu.self).weaken ?_
  rintro names v ⟨⟨listed', hv⟩, stored⟩
  refine (madeFunction (hu.trans hv) (held.extends hv.tree) stored).weaken ?_
  intro root w found
  exact ⟨⟨listed', found.1⟩, found.2⟩

/-- An encoding is read one level deeper, with its own template arguments. -/
theorem encoding (written : Component.AllWritten listed signature.params code listed')
    (small : listed.length + (octets (signature.name.code ++ code)).length < Number.bound)
    (spent : base.level + levels = limit) (fits : room → base.level + signature.height < limit + 1)
    (h : Stands symbol base listed
      (octets (signature.name.code ++ (if signature.params.isEmpty then "v" else code))) s) :
    Grants room (Rule.parse limit levels .encoding) s (Whole symbol base signature) := by
  have tall := signature.four_le_height
  refine ruleAt spent (fun enough => by have := fits enough; omega) h fun levels spent h => ?_
  show Grants room (Parse.encoding _) _ _
  refine after run_get (after (run_modify _) (thenAlways ?_))
  have cleared : Stands symbol { base with level := base.level + 1, facts := {} } listed
      (octets (signature.name.code ++ (if signature.params.isEmpty then "v" else code)))
      { s with
        level := s.level + 1
        work := { s.work with scopes := {} }
        facts := {} } :=
    { h with facts := rfl }
  obtain ⟨byte, more, begins, opens⟩ := signature.name.code_opens
  have peeked := cleared
  rw [octets_append, begins] at peeked
  have other : ∀ byte ∈ Identifier.openers,
      Char.ofNat byte.toNat ≠ 'G' ∧ Char.ofNat byte.toNat ≠ 'T' := by decide
  obtain ⟨notGuard, notTable⟩ := other byte opens
  refine bind (peek ?_)
  rw [peekAt_cons peeked]
  split
  · exact absurd ‹_› notGuard
  · exact absurd ‹_› notTable
  · refine (plainEncoding written small spent (fun enough => ?_) rfl cleared).weaken ?_
    · have low := fits enough
      show base.level + 1 + signature.height < limit + 2
      omega
    · rintro root t ⟨⟨listed', ht⟩, stored⟩
      exact ⟨⟨listed', Stands.up { ht with facts := h.facts }⟩, stored⟩

/-- The encoding of a function has no suffix and is more than a name. -/
theorem markedEncoding (written : Component.AllWritten listed signature.params code listed')
    (small : listed.length + (octets (signature.name.code ++ code)).length < Number.bound)
    (spent : base.level + levels = limit) (fits : room → base.level + signature.height < limit + 1)
    (h : Stands symbol base listed
      (octets (signature.name.code ++ (if signature.params.isEmpty then "v" else code))) s) :
    Grants room (Parse.markedEncoding (Rule.parse limit levels)) s
      (Whole symbol base signature) := by
  apply bind
  apply peek
  apply bind
  apply (encoding written small spent fits h).weaken
  rintro root t ⟨⟨listed', ht⟩, stored⟩
  have ⟨name, run, held, _⟩ := stored
  have function : t.work.tree.node root = .function none name run {} none := Tree.node_of_get? held
  have last : (t.cursor.peekAt 0 == '.') = false := by
    rw [Cursor.peekAt, ht.ahead]
    rfl
  apply bind
  refine known (a := .function none name run {} none) (t := t) ?_ ?_
  · show EStateM.Result.ok (t.work.tree.node root) t = _
    rw [function]
  · apply bind
    apply pure
    apply bind
    apply peek
    rw [last]
    exact pure ⟨⟨listed', ht⟩, stored⟩

/-- The end of a symbol in which nothing waits. -/
theorem finished {root : NodeId} {Q : NodeId → ParseState → Prop}
    (h : Stands symbol base listed [] s) (next : Q root s) : Grants room (finish root) s Q := by
  have last : s.cursor.atEnd = true := by
    rw [Cursor.atEnd, h.ahead]
    rfl
  have none : s.work.forward.isEmpty = true := by
    rw [h.forward]
    rfl
  apply bind
  refine after run_get (pure ?_)
  rw [last]
  apply bind
  apply pure
  refine after run_get ?_
  rw [none]
  apply bind
  exact pure (pure next)

/-- A symbol at its beginning. -/
theorem stands_start (generation : UInt32) {words : String} {rest : List UInt8}
    (begins : octets words = rest) :
    Stands words.toUTF8 (.start generation words.toUTF8) [] rest
      (.start generation words.toUTF8) where
  ahead := begins
  behind := begins
  intact := .empty generation
  tree := .refl _
  listed := .nil
  places := by
    intro place contained
    have none : (∅ : Std.TreeSet Nat).contains place = false := Std.TreeSet.contains_emptyc
    exact absurd contained (Bool.eq_false_iff.mp none)
  forward := rfl
  level := rfl
  facts := rfl

/-- However its parameters are written, a function is read from its symbol. -/
theorem wholeSymbol (limit : Nat) (written : signature.WrittenAs code)
    (small : code.utf8ByteSize < Number.bound) (generation : UInt32) :
    Grants (signature.height < limit) (Rule.parse limit limit .symbol)
      (.start generation code.toUTF8) fun root t =>
        signature.Stored code.toUTF8 t.work.tree root := by
  obtain ⟨params, listed, written, rfl⟩ := written
  have begins : octets (signature.symbol params) = [95, 90] ++
      octets (signature.name.code ++ (if signature.params.isEmpty then "v" else params)) := by
    rw [Signature.symbol, String.append_assoc, octets_append]
    rfl
  have shorter := written.length_le
  refine ruleAt (Nat.zero_add limit) (fun enough => ?_) (stands_start generation begins)
    fun levels spent h => ?_
  · have tall := signature.four_le_height
    show 0 + 1 < limit
    omega
  show Grants _ (Parse.symbol _) _ _
  apply bind
  apply bind
  apply accepted [95, 90] rfl rfl h
  intro t ht _
  apply pure
  apply bind
  refine (markedEncoding written ?_ spent ?_ ht).weaken ?_
  · rw [← length_octets, begins] at small
    simp only [List.length_append, octets_append] at small ⊢
    simp only [List.length_nil]
    omega
  · intro enough
    show 0 + 1 + signature.height < limit + 1
    omega
  · rintro root u ⟨⟨listed, hu⟩, stored⟩
    exact finished hu stored

end Parse.Grants
end Unmangle
