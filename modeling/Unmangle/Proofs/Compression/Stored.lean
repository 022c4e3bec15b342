import Mathlib.Data.List.Forall2
import Unmangle.Grammar.State
import Unmangle.Proofs.Compression.Component
import Unmangle.Proofs.Store.Lookup

/-!
# Components in a tree

What a name must hold to stand for a component. Nothing of it is lost when more is stored.
-/
namespace Unmangle

variable {symbol : ByteArray} {tree tree' : Tree}

theorem Tree.node_of_get? {id : NodeId} {node : Node} (h : tree.get? id = some node) :
    tree.node id = node := by
  rw [Tree.node, h, Option.getD_some]

def Identifier.Stored (symbol : ByteArray) (tree : Tree) (id : Identifier) (name : NodeId) : Prop :=
  ∃ text, tree.get? name = some (.name text) ∧ text.resolve symbol = id.text.toUTF8

def ClassPath.Stored (symbol : ByteArray) (tree : Tree) : ClassPath → NodeId → Prop
  | top id, name => id.Stored symbol tree name
  | inside scope id, name =>
    ∃ outer last, tree.get? name = some (.nestedName outer last) ∧
      scope.Stored symbol tree outer ∧ id.Stored symbol tree last

def Component.Stored (symbol : ByteArray) (tree : Tree) : Component → NodeId → Prop
  | builtin letter, name =>
    ∃ words, Builtin.spelling? letter = some words ∧ tree.get? name = some (.name (.literal words))
  | named path, name => path.Stored symbol tree name
  | pointer target, name =>
    ∃ pointee, tree.get? name = some (.pointer pointee) ∧ target.Stored symbol tree pointee
  | reference kind target, name =>
    ∃ pointee, tree.get? name = some (.reference kind pointee) ∧ target.Stored symbol tree pointee
  | qualified quals target, name =>
    ∃ type, tree.get? name = some (.qualified type quals) ∧ target.Stored symbol tree type

theorem Identifier.Stored.extends {id : Identifier} {name : NodeId}
    (h : id.Stored symbol tree name) (later : tree.Extends tree') :
    id.Stored symbol tree' name := by
  obtain ⟨text, held, bytes⟩ := h
  exact ⟨text, later _ _ held, bytes⟩

theorem ClassPath.Stored.extends {path : ClassPath} {name : NodeId}
    (h : path.Stored symbol tree name) (later : tree.Extends tree') :
    path.Stored symbol tree' name := by
  induction path generalizing name with
  | top id => exact Identifier.Stored.extends h later
  | inside scope id ih =>
    obtain ⟨outer, last, held, hscope, hid⟩ := h
    exact ⟨outer, last, later _ _ held, ih hscope, hid.extends later⟩

/-- What is stored stays stored as the tree grows. -/
theorem Component.Stored.extends {component : Component} {name : NodeId}
    (h : component.Stored symbol tree name) (later : tree.Extends tree') :
    component.Stored symbol tree' name := by
  induction component generalizing name with
  | builtin letter =>
    obtain ⟨words, spelled, held⟩ := h
    exact ⟨words, spelled, later _ _ held⟩
  | named path => exact ClassPath.Stored.extends h later
  | pointer target ih | reference kind target ih | qualified quals target ih =>
    obtain ⟨inner, held, stored⟩ := h
    exact ⟨inner, later _ _ held, ih stored⟩

theorem Component.Stored.lt_size {component : Component} {name : NodeId}
    (h : component.Stored symbol tree name) (intact : tree.Intact) :
    name.index < tree.size := by
  have held : (tree.get? name).isSome := by
    cases component with
    | named path =>
      cases path with
      | top id =>
        obtain ⟨text, held, -⟩ := h
        simp [held]
      | inside scope id =>
        obtain ⟨outer, last, held, -⟩ := h
        simp [held]
    | builtin letter =>
      obtain ⟨words, -, held⟩ := h
      simp [held]
    | pointer target | reference kind target | qualified quals target =>
      obtain ⟨inner, held, -⟩ := h
      simp [held]
  exact ((intact.get?_isSome_iff name).mp held).2

/-- A parse that began in `base` stands in front of `rest`, and these components are
listed. The nesting level and what is known of the encoding are as in the beginning. -/
structure Stands (symbol : ByteArray) (base : ParseState) (listed : List Component)
    (rest : List UInt8) (s : ParseState) : Prop where
  ahead : s.cursor.rest = rest
  behind : symbol.data.toList.drop s.cursor.offset = rest
  intact : s.work.tree.Intact
  tree : base.work.tree.Extends s.work.tree
  listed : List.Forall₂ (fun component name => component.Stored symbol s.work.tree name) listed
    s.work.substitutions.entries.toList
  places : ∀ place, s.work.substitutions.places.contains place = true → place < s.work.tree.size
  forward : s.work.forward = #[]
  level : s.level = base.level
  facts : s.facts = base.facts

namespace Stands

variable {base s t : ParseState} {listed listed' : List Component} {rest rest' : List UInt8}

/-- A parse that begins where it stands. -/
theorem self (h : Stands symbol base listed rest s) : Stands symbol s listed rest s :=
  { h with tree := .refl _, level := rfl, facts := rfl }

theorem trans (h : Stands symbol base listed rest s) (later : Stands symbol s listed' rest' t) :
    Stands symbol base listed' rest' t :=
  { later with
    tree := h.tree.trans later.tree
    level := later.level.trans h.level
    facts := later.facts.trans h.facts }

theorem deeper (h : Stands symbol base listed rest s) :
    Stands symbol { base with level := base.level + 1 } listed rest
      { s with level := s.level + 1 } :=
  ⟨h.ahead, h.behind, h.intact, h.tree, h.listed, h.places, h.forward,
    congrArg (· + 1) h.level, h.facts⟩

theorem up (h : Stands symbol { base with level := base.level + 1 } listed rest s) :
    Stands symbol base listed rest { s with level := s.level - 1 } :=
  ⟨h.ahead, h.behind, h.intact, h.tree, h.listed, h.places, h.forward,
    congrArg (· - 1) h.level, h.facts⟩

theorem passed (bytes : List UInt8) (h : Stands symbol base listed (bytes ++ rest) s) :
    Stands symbol base listed rest
      { s with cursor := ⟨s.cursor.offset + bytes.length, rest⟩ } := by
  have behind : symbol.data.toList.drop (s.cursor.offset + bytes.length) = rest := by
    rw [← List.drop_drop, h.behind, List.drop_left]
  exact ⟨rfl, behind, h.intact, h.tree, h.listed, h.places, h.forward, h.level, h.facts⟩

/-- More is stored, and nothing else changes. -/
theorem stored (h : Stands symbol base listed rest s) {tree : Tree} (intact : tree.Intact)
    (later : s.work.tree.Extends tree) (size : s.work.tree.size ≤ tree.size) :
    Stands symbol base listed rest { s with work := { s.work with tree := tree } } := by
  refine ⟨h.ahead, h.behind, intact, h.tree.trans later, ?_, ?_, h.forward, h.level, h.facts⟩
  · exact h.listed.imp fun _ _ held => held.extends later
  · exact fun place hplace => Nat.lt_of_lt_of_le (h.places place hplace) size

end Stands
end Unmangle
