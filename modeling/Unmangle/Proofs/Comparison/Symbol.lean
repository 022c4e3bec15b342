import Unmangle.Proofs.Comparison.Pairing
import Unmangle.Proofs.Spelling.Follow

/-!
# A symbol read and spelled twice

A symbol that is begun in two empty stores is read alike to its end. The trees that
come of it mirror each other, so they are spelled the same.
-/
namespace Unmangle

/-- The state in which a symbol is begun, in an empty workspace of some generation. -/
def ParseState.start (generation : UInt32) (symbol : ByteArray) : ParseState :=
  { cursor := Cursor.start symbol, work := { tree := { generation := generation } } }

namespace Sides

def both (symbol : ByteArray) (generation generation' : UInt32) : Sides :=
  ⟨symbol, symbol, generation, generation'⟩

/-- Two new states in front of the same symbol are alike. -/
theorem start (symbol : ByteArray) (generation generation' : UInt32) :
    (both symbol generation generation').comparison.State (0, 0)
      (ParseState.start generation symbol) (ParseState.start generation' symbol) where
  cursor := ⟨Nat.zero_le _, Nat.zero_le _, rfl, rfl, rfl⟩
  level := rfl
  tree := SameTree.empty generation generation' symbol symbol
  table := ⟨.nil, Tabled.empty, Tabled.empty⟩
  forward := .nil
  levels := rfl
  outer := .nil
  facts := rfl
  templateArgsAllowed := rfl
  forwardAllowed := rfl
  lambdaLevel := rfl

/-- Every rule is read alike in two stores. -/
theorem reads (sides : Sides) (limit levels : Nat) :
    sides.comparison.Reads (Rule.parse limit levels) (Rule.parse limit levels) :=
  sides.lawful.reads_parse (Comparison.NestedNames.of_pops sides.lawful Sides.pops) (.refl limit)
    (.refl levels)

/-- All that happens in a parse is sound. -/
theorem event_sound {limit levels : Nat} {generation : UInt32} {symbol : ByteArray} {e : Event}
    (h : (Rule.parse limit levels .symbol).happens (.start generation symbol) e) :
    e.Sound symbol :=
  ((both symbol generation generation).reads limit levels .symbol (0, 0) _ _
    (start symbol generation generation) fun _ _ lost => lost.elim).1 e h

/-- Two stores filled side by side, as trees to be spelled. -/
def mirror (sides : Sides) (w : Nat × Nat) (t t' : Tree) : Mirror where
  symbol := sides.symbol
  symbol' := sides.symbol'
  tree := t
  tree' := t'
  name := sides.SameName w.1
  target := Option.Rel (sides.SameName w.1)
  list run run' := run = run' ∧ run.Within t
  text := sides.SameText
  bits _ := sides.SameText
  access := Access.InRange sides.symbol t
  fault _ := True
  growth := .any

variable {sides : Sides} {w : Nat × Nat} {t t' : Tree}

theorem SameTree.elements (h : sides.SameTree w t t') (run : NodeList) :
    List.Forall₂ (sides.SameName w.1) (t.list run).toList (t'.list run).toList := by
  rw [Store.list_eq, Store.list_eq]
  exact List.forall₂_take _ (List.forall₂_drop _ h.lists)

/-- Trees that are alike mirror each other. -/
theorem SameTree.mirror (h : sides.SameTree w t t') : (sides.mirror w t t').Lawful where
  node hid := by
    refine (h.node hid).mono (fun _ _ hc => hc.mono hid.below.le) (fun _ _ ho => ho) ?_
      (fun _ _ htext => htext) fun _ _ _ htext => htext
    rintro run _ ⟨rfl, within, -⟩
    exact ⟨rfl, within⟩
  target h := h
  waits _ _ := trivial
  length h := congrArg NodeList.length h.1
  elements := by
    rintro run _ ⟨rfl, -⟩
    exact h.elements run
  element index := by
    rintro ⟨rfl, -⟩
    rw [Store.element?_eq, Store.element?_eq]
    exact rel_getElem? (h.elements _) index
  bytes h := SameText.same h
  written _ _ := trivial
  digits _ _ _ := trivial
  words := sameText_literal
  bits h := h
  float _ _ := trivial
  looksAtNode hid := h.heldIn hid le_rfl
  looksAtList h := h.2
  looksAtText h := h.within
  tooLong := trivial
  tooMuchRecursion := trivial

end Sides

end Unmangle
