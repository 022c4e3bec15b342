import Unmangle.Proofs.Compression.Reading

/-!
# Reading the symbol of a function

A name, and the parameters one after another up to the end of the symbol.
-/
namespace Unmangle

/-- A function whose name and parameters are stored, and which shows nothing else. -/
def Signature.Stored (symbol : ByteArray) (tree : Tree) (signature : Signature) (root : NodeId) :
    Prop :=
  ∃ name params, tree.get? root = some (.function none name params {} none) ∧
    signature.name.Stored symbol tree name ∧
    List.Forall₂ (fun component name => component.Stored symbol tree name) signature.params
      (tree.list params).toList

namespace Component

variable {listed listed' components : List Component} {code : String}

/-- What the codes of components may begin with. -/
theorem AllWritten.ahead (h : AllWritten listed components code listed')
    (formed : ∀ component ∈ components, component.WellFormed) : Ahead starters (octets code) := by
  cases h with
  | nil => exact Ahead.nil _
  | cons first others =>
    have begun := formed _ (List.mem_cons_self ..)
    obtain ⟨byte, rest, begins, opens⟩ := first.opens begun
    rw [octets_append, begins]
    exact Ahead.cons (openers_subset begun byte opens) _

end Component

namespace Parse.Grants

variable {symbol : ByteArray} {room : Prop} {limit levels : Nat} {base s : ParseState}
  {listed listed' components : List Component} {rest : List UInt8} {code : String}

/-- Another component follows where a byte that could begin one comes next. -/
theorem notEncodingEnd {byte : UInt8} {allowed : List UInt8} {Q : Bool → ParseState → Prop}
    (opens : byte ∈ allowed)
    (other : ∀ byte ∈ allowed, (byte == 69 || byte == 46 || byte == 95) = false)
    (h : Stands symbol base listed (byte :: rest) s) (next : Q false s) :
    Grants room atEncodingEnd s Q := by
  refine after run_get ?_
  simp only [h.ahead, other byte opens]
  exact pure next

theorem encodingEnd {Q : Bool → ParseState → Prop} (h : Stands symbol base listed [] s)
    (next : Q true s) : Grants room atEncodingEnd s Q := by
  refine after run_get ?_
  simp only [h.ahead]
  exact pure next

/-- A component with others behind it. -/
theorem oneOf {component : Component} {code' : String}
    (first : Component.Written listed component code listed')
    (begun : component.WellFormed) (others : Ahead Component.starters (octets code'))
    (small : listed.length + (octets code).length < Number.bound)
    (spent : base.level + levels = limit)
    (fits : room → base.level + component.height < limit)
    (h : Stands symbol base listed (octets (code ++ code')) s) :
    Grants room (Rule.parse limit levels .type) s fun name t =>
      Stands symbol base listed' (octets code') t ∧ s.work.tree.Extends t.work.tree ∧
        component.Stored symbol t.work.tree name := by
  have level := h.level
  rw [octets_append] at h
  refine (reads first begun small (level ▸ spent) (level ▸ fits) (others.weaken (by decide))
    h.self).weaken ?_
  intro name t found
  exact ⟨h.trans found.1, found.1.tree, found.2⟩

/-- The rounds over the components that are left, behind those already read. -/
theorem paramRounds (written : Component.AllWritten listed components code listed')
    (formed : ∀ component ∈ components, component.WellFormed)
    (small : listed.length + (octets code).length < Number.bound)
    (spent : base.level + levels = limit)
    (fits : room → ∀ component ∈ components, base.level + component.height < limit) :
    ∀ {s : ParseState} {rounds : List UInt8} {read : List Component} {names : Array NodeId},
      Stands symbol base listed (octets code) s → (octets code).length < rounds.length →
      List.Forall₂ (fun component name => component.Stored symbol s.work.tree name) read
        names.toList →
      Grants room (repeatUntil atEncodingEnd
          (fun names => return names.push (← Rule.parse limit levels .type)) rounds names) s
        fun names t => Stands symbol base listed' [] t ∧
          List.Forall₂ (fun component name => component.Stored symbol t.work.tree name)
            (read ++ components) names.toList := by
  induction written with
  | nil =>
    intro s rounds read names h enough stored
    cases rounds with
    | nil => cases enough
    | cons byte rounds =>
      refine bind (encodingEnd h (pure ⟨h, ?_⟩))
      rw [List.append_nil]
      exact stored
  | @cons listed listed' listed'' component others code code' first written ih =>
    intro s rounds read names h enough stored
    have begun := formed component (List.mem_cons_self ..)
    have remain : ∀ component ∈ others, component.WellFormed :=
      fun component hmem => formed component (List.mem_cons_of_mem _ hmem)
    have shorter := first.length_le begun
    obtain ⟨byte, more, begins, opens⟩ := first.opens begun
    rw [octets_append, List.length_append] at small
    cases rounds with
    | nil => cases enough
    | cons head rounds =>
      have peeked := h
      rw [octets_append, begins] at peeked
      have starts := Component.openers_subset begun byte opens
      refine bind (notEncodingEnd starts (by decide) peeked ?_)
      refine bind (bind ((oneOf first begun (written.ahead remain) (by omega) spent (fun enough =>
        fits enough component (List.mem_cons_self ..)) h).weaken fun name t found => pure ?_))
      obtain ⟨ht, kept, held⟩ := found
      have later := @ih remain (by omega) (fun enough component hmem =>
        fits enough component (List.mem_cons_of_mem _ hmem)) t rounds (read ++ [component])
        (names.push name) ht ?_ ?_
      · rw [List.append_assoc, List.singleton_append] at later
        exact later
      · rw [octets_append, begins] at enough
        simp only [List.length_append, List.length_cons] at enough
        omega
      · rw [Array.toList_push]
        exact List.rel_append (stored.imp fun _ _ held => held.extends kept) (.cons held .nil)

/-- Nothing has waited for an argument since the mark. -/
theorem resolved (mark : Nat) (h : Stands symbol base listed rest s) :
    Grants room (resolveSince mark) s fun _ t =>
      Stands symbol base listed rest t ∧ t.work.tree = s.work.tree := by
  have none : s.work.forward.toList.drop mark = [] := by
    rw [h.forward]
    exact List.drop_nil
  refine after run_get (after (t := s) (a := ()) ?_ (known (run_modify _) ⟨?_, rfl⟩))
  · rw [none]
    rfl
  · refine ⟨h.ahead, h.behind, h.intact, h.tree, h.listed, h.places, ?_, h.level, h.facts⟩
    show s.work.forward.take mark = #[]
    rw [h.forward, Array.take_eq_extract, Array.extract_empty]

/-- The parameters of a function, `v` for none. -/
theorem readParams (written : Component.AllWritten listed components code listed')
    (formed : ∀ component ∈ components, component.WellFormed)
    (first : components.head? ≠ some (.builtin 'v'))
    (small : listed.length + (octets code).length < Number.bound)
    (spent : base.level + levels = limit)
    (fits : room → ∀ component ∈ components, base.level + component.height < limit)
    (h : Stands symbol base listed (octets (if components.isEmpty then "v" else code)) s) :
    Grants room (do
        if ← accept "v" then Pure.pure #[]
        else someNodes atEncodingEnd (Rule.parse limit levels .type)) s fun names t =>
      (∃ listed', Stands symbol base listed' [] t) ∧
        List.Forall₂ (fun component name => component.Stored symbol t.work.tree name)
          components names.toList := by
  cases written with
  | nil =>
    refine bind (accepted [118] rfl rfl h fun t ht _ => pure ⟨⟨_, ht⟩, .nil⟩)
  | @cons _ _ _ component others code code' begins written =>
    have begun := formed component (List.mem_cons_self ..)
    have remain : ∀ component ∈ others, component.WellFormed :=
      fun component hmem => formed component (List.mem_cons_of_mem _ hmem)
    have other : component ≠ .builtin 'v' := fun same => first (congrArg some same)
    have shorter := begins.length_le begun
    have opening : Ahead component.openers (octets (code ++ code')) := by
      obtain ⟨byte, more, begins, opens⟩ := begins.opens begun
      rw [octets_append, begins]
      exact Ahead.cons opens _
    rw [octets_append, List.length_append] at small
    refine bind (rejected _ rfl h opening (Component.openers_ne_void begun other) ?_)
    refine bind ((oneOf begins begun (written.ahead remain) (by omega) spent (fun enough =>
      fits enough component (List.mem_cons_self ..)) h).weaken fun name t found => ?_)
    obtain ⟨ht, -, held⟩ := found
    refine after run_get ?_
    refine (paramRounds written remain (by omega) spent (fun enough component hmem =>
      fits enough component (List.mem_cons_of_mem _ hmem)) ht ?_
      (.cons held .nil)).weaken fun names u found => ⟨⟨_, found.1⟩, found.2⟩
    rw [ht.ahead]
    exact Nat.lt_succ_self _

end Parse.Grants
end Unmangle
