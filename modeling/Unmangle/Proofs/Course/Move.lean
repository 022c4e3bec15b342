import Mathlib.Logic.Relation
import Unmangle.Grammar.State
import Unmangle.Proofs.Course.Boundary
import Unmangle.Proofs.Grammar.Cursor
import Unmangle.Proofs.Store.Lookup
import Unmangle.Proofs.Tree.Likeness
import Unmangle.Spelling.HexFloat

/-!
# The course of a parse

A parse that goes well is a sequence of few kinds of moves. Bytes are read one by one if
they are ASCII, or counted from between two characters. Nodes are stored and stay, but for
the template parameters that wait: each is on a list until it has got its argument.
-/
namespace Unmangle

/-- The text is cut between characters, provided the parse goes on from between characters. -/
def Text.Whole (symbol : ByteArray) (offset : Nat) : Text → Prop
  | .literal _ => True
  | .span start stop =>
    start ≤ stop ∧ Boundary symbol start ∧ (Boundary symbol offset → Boundary symbol stop)

def Text.Spelled (symbol : ByteArray) (format : FloatFormat) (bits : Text) : Prop :=
  (HexFloat.spelling? format (bits.resolve symbol).data.toList).isSome

structure Node.Whole (symbol : ByteArray) (offset : Nat) (node : Node) : Prop where
  texts : ∀ t ∈ node.texts, t.Whole symbol offset
  bits : ∀ format t, node = .float format t → t.Spelled symbol format

/-- A template parameter waits under the name for its argument. -/
def Tree.Waits (tree : Tree) (id : NodeId) : Prop :=
  ∃ index, tree.get? id = some (.forwardParam index none)

/-- A template parameter that waited has got its argument. -/
def Tree.Answered (tree : Tree) (id : NodeId) : Prop :=
  ∃ index target, tree.get? id = some (.forwardParam index (some target))

/-- One move of a parse of a symbol. -/
inductive Move (symbol : ByteArray) (s : ParseState) : ParseState → Prop
  | read (count : Nat) (fits : count ≤ s.cursor.rest.length)
      (ascii : ∀ byte ∈ s.cursor.rest.take count, Ascii byte) :
      Move symbol s { s with cursor := s.cursor.skip count }
  | take (count : Nat) (fits : count ≤ s.cursor.rest.length)
      (start : Boundary symbol s.cursor.offset) :
      Move symbol s { s with cursor := s.cursor.skip count }
  /-- From between two characters the cursor may be put back. -/
  | back (cursor : Cursor) (rest : cursor.rest = symbol.data.toList.drop cursor.offset)
      (stop : cursor.offset + cursor.rest.length = symbol.size)
      (here : Boundary symbol s.cursor.offset) : Move symbol s { s with cursor := cursor }
  /-- Everything else in the state may change as it likes. -/
  | aside {t : ParseState} (cursor : t.cursor = s.cursor) (tree : t.work.tree = s.work.tree)
      (forward : t.work.forward = s.work.forward) : Move symbol s t
  | make (node : Node) (whole : node.Whole symbol s.cursor.offset)
      (ready : ∀ index, node ≠ .forwardParam index none) :
      Move symbol s { s with work := { s.work with tree := (s.work.tree.alloc node).2 } }
  | makeList (ids : Array NodeId) :
      Move symbol s { s with work := { s.work with tree := (s.work.tree.allocList ids).2 } }
  | wait (index : Nat) :
      Move symbol s
        { s with work := { s.work with
            tree := (s.work.tree.alloc (.forwardParam index none)).2
            forward := s.work.forward.push (s.work.tree.alloc (.forwardParam index none)).1 } }
  | answer (id : NodeId) (index : Nat) (old : Option NodeId) (target : NodeId)
      (found : s.work.tree.get? id = some (.forwardParam index old)) :
      Move symbol s
        { s with work := { s.work with
            tree := s.work.tree.set id (.forwardParam index (some target)) } }
  | settle (mark : Nat)
      (answered : ∀ id ∈ s.work.forward.toList.drop mark, Tree.Answered s.work.tree id) :
      Move symbol s { s with work := { s.work with forward := s.work.forward.take mark } }

def Course (symbol : ByteArray) : ParseState → ParseState → Prop :=
  Relation.ReflTransGen (Move symbol)

/-- The cursor stands in the symbol, and the store is intact. -/
structure ParseState.Grounded (symbol : ByteArray) (s : ParseState) : Prop where
  rest : s.cursor.rest = symbol.data.toList.drop s.cursor.offset
  stop : s.cursor.offset + s.cursor.rest.length = symbol.size
  intact : s.work.tree.Intact

def ParseState.Awaited (s : ParseState) : Prop :=
  ∀ id, Tree.Waits s.work.tree id → id ∈ s.work.forward

/-- What is stored can be spelled once the symbol ends. -/
def ParseState.Whole (symbol : ByteArray) (s : ParseState) : Prop :=
  ∀ id node, s.work.tree.get? id = some node → node.Whole symbol s.cursor.offset

variable {symbol : ByteArray} {s t u : ParseState}

theorem Node.Whole.of_texts_eq_nil {offset : Nat} {node : Node} (none : node.texts = []) :
    node.Whole symbol offset := by
  constructor
  · intro t ht
    rw [none] at ht
    cases ht
  · rintro format t rfl
    cases none

theorem Node.Whole.of_text {offset : Nat} {node : Node} {t : Text} (one : node.texts = [t])
    (integral : ∀ format, node ≠ .float format t) (whole : t.Whole symbol offset) :
    node.Whole symbol offset := by
  constructor
  · intro t' ht
    rw [one, List.mem_singleton] at ht
    rwa [ht]
  · rintro format t' rfl
    cases one
    exact absurd rfl (integral format)

theorem Text.Whole.mono {offset later : Nat} {t : Text} (whole : t.Whole symbol offset)
    (back : Boundary symbol later → Boundary symbol offset) : t.Whole symbol later := by
  cases t with
  | literal words => trivial
  | span start stop =>
    obtain ⟨le, first, last⟩ := whole
    exact ⟨le, first, fun h => last (back h)⟩

theorem Node.Whole.mono {offset later : Nat} {node : Node} (whole : node.Whole symbol offset)
    (back : Boundary symbol later → Boundary symbol offset) : node.Whole symbol later :=
  ⟨fun t ht => (whole.texts t ht).mono back, whole.bits⟩

namespace ParseState.Grounded

theorem getElem? (h : s.Grounded symbol) (distance : Nat) :
    s.cursor.rest[distance]? = symbol.data.toList[s.cursor.offset + distance]? := by
  rw [h.rest, List.getElem?_drop]

/-- A state stays grounded as its cursor moves on within the input. -/
theorem skip (h : s.Grounded symbol) {count : Nat} (fits : count ≤ s.cursor.rest.length) :
    ParseState.Grounded symbol { s with cursor := s.cursor.skip count } := by
  constructor
  · change s.cursor.rest.drop count = symbol.data.toList.drop (s.cursor.offset + count)
    rw [h.rest, List.drop_drop]
  · change s.cursor.offset + count + (s.cursor.rest.drop count).length = symbol.size
    have := h.stop
    rw [List.length_drop]
    omega
  · exact h.intact

/-- An ASCII byte comes next. -/
theorem boundary (h : s.Grounded symbol) {byte : UInt8} (next : s.cursor.rest[0]? = some byte)
    (ascii : Ascii byte) : Boundary symbol s.cursor.offset := by
  rw [h.getElem?] at next
  exact .of_ascii next ascii

/-- ASCII bytes were read, and the last of them ends between two characters. -/
theorem boundary_skip (h : s.Grounded symbol) {count : Nat} (pos : 0 < count)
    (fits : count ≤ s.cursor.rest.length)
    (ascii : ∀ byte ∈ s.cursor.rest.take count, Ascii byte) :
    Boundary symbol (s.cursor.offset + count) := by
  obtain ⟨last, rfl⟩ : ∃ last, count = last + 1 := ⟨count - 1, by omega⟩
  have hlast : s.cursor.rest[last]? = some s.cursor.rest[last] := List.getElem?_eq_getElem fits
  have hascii := ascii _ (List.mem_of_getElem? (l := s.cursor.rest.take (last + 1))
    ((List.getElem?_take_of_lt (Nat.lt_succ_self last)).trans hlast))
  rw [h.getElem?] at hlast
  exact .succ_of_ascii hlast hascii

end ParseState.Grounded

namespace Move

/-- Every move keeps a state grounded. -/
theorem grounded (h : s.Grounded symbol) (move : Move symbol s t) : t.Grounded symbol := by
  cases move with
  | read count fits ascii => exact h.skip fits
  | take count fits start => exact h.skip fits
  | back cursor rest stop here => exact ⟨rest, stop, h.intact⟩
  | aside cursor tree forward => exact ⟨by rw [cursor]; exact h.rest, by rw [cursor]; exact h.stop,
      by rw [tree]; exact h.intact⟩
  | make node whole ready => exact ⟨h.rest, h.stop, h.intact.alloc node⟩
  | makeList ids => exact ⟨h.rest, h.stop, h.intact.allocList ids⟩
  | wait index => exact ⟨h.rest, h.stop, h.intact.alloc _⟩
  | answer id index old target found => exact ⟨h.rest, h.stop, h.intact.set id _⟩
  | settle mark answered => exact ⟨h.rest, h.stop, h.intact⟩

/-- A boundary of characters behind a move was one before it. -/
theorem boundary (h : s.Grounded symbol) (move : Move symbol s t)
    (behind : Boundary symbol t.cursor.offset) : Boundary symbol s.cursor.offset := by
  cases move with
  | read count fits ascii =>
    cases hrest : s.cursor.rest with
    | nil =>
      rw [hrest] at fits
      obtain rfl := Nat.le_zero.mp fits
      exact behind
    | cons byte rest =>
      cases count with
      | zero => exact behind
      | succ count =>
        have next : s.cursor.rest[0]? = some byte := by
          rw [hrest]
          rfl
        refine h.boundary next (ascii byte ?_)
        rw [hrest]
        exact List.mem_cons_self ..
  | take count fits start => exact start
  | back cursor rest stop here => exact here
  | aside cursor tree forward => rwa [cursor] at behind
  | _ => exact behind

/-- What is found behind a move was found before it, or can be spelled and does not wait off
the list. -/
theorem found (h : s.Grounded symbol) (move : Move symbol s t) {id : NodeId} {node : Node}
    (hid : t.work.tree.get? id = some node) :
    s.work.tree.get? id = some node ∨ node.Whole symbol s.cursor.offset ∧
      ∀ index, node = .forwardParam index none → id ∈ t.work.forward := by
  cases move with
  | read | take | back | settle => exact .inl hid
  | aside cursor tree forward =>
    rw [tree] at hid
    exact .inl hid
  | make node' whole ready =>
    obtain old | ⟨-, rfl⟩ := h.intact.of_get?_alloc hid
    · exact .inl old
    · exact .inr ⟨whole, fun index same => absurd same (ready index)⟩
  | makeList ids =>
    rw [h.intact.get?_allocList] at hid
    exact .inl hid
  | wait index =>
    obtain old | ⟨rfl, rfl⟩ := h.intact.of_get?_alloc hid
    · exact .inl old
    · exact .inr ⟨.of_texts_eq_nil rfl, fun _ _ => Array.mem_push_self⟩
  | answer id' index old target found =>
    by_cases same : id = id'
    · subst same
      rw [h.intact.get?_set_self (by rw [found]; rfl)] at hid
      cases hid
      exact .inr ⟨.of_texts_eq_nil rfl, nofun⟩
    · rw [h.intact.get?_set_of_ne same] at hid
      exact .inl hid

/-- What is found before a move is found behind it, unless it got its argument. -/
theorem kept (h : s.Grounded symbol) (move : Move symbol s t) {id : NodeId} {node : Node}
    (hid : s.work.tree.get? id = some node) :
    t.work.tree.get? id = some node ∨ ∃ index old target, node = .forwardParam index old ∧
      t.work.tree.get? id = some (.forwardParam index (some target)) := by
  cases move with
  | read | take | back | settle => exact .inl hid
  | aside cursor tree forward =>
    rw [tree]
    exact .inl hid
  | make node' whole ready => exact .inl (h.intact.extends_alloc node' id node hid)
  | makeList ids => exact .inl (h.intact.extends_allocList ids id node hid)
  | wait index => exact .inl (h.intact.extends_alloc _ id node hid)
  | answer id' index old target found =>
    by_cases same : id = id'
    · subst same
      rw [found] at hid
      cases hid
      exact .inr ⟨index, old, target, rfl, h.intact.get?_set_self (by rw [found]; rfl) _⟩
    · rw [← h.intact.get?_set_of_ne same] at hid
      exact .inl hid

theorem whole (h : s.Grounded symbol) (move : Move symbol s t) (hs : s.Whole symbol) :
    t.Whole symbol := by
  intro id node hid
  obtain old | ⟨whole, -⟩ := move.found h hid
  · exact (hs id node old).mono (move.boundary h)
  · exact whole.mono (move.boundary h)

/-- Every parameter without a target is still in the list of those that wait. -/
theorem awaited (h : s.Grounded symbol) (move : Move symbol s t) (hs : s.Awaited) :
    t.Awaited := by
  rintro id ⟨index, hid⟩
  obtain old | ⟨-, listed⟩ := move.found h hid
  · have before := hs id ⟨index, old⟩
    cases move with
    | aside cursor tree forward => rwa [forward]
    | wait => exact Array.mem_push_of_mem _ before
    | settle mark answered =>
      rw [← Array.mem_toList_iff, ← List.take_append_drop mark s.work.forward.toList,
        List.mem_append] at before
      obtain before | dropped := before
      · rw [← Array.mem_toList_iff]
        simpa using before
      · obtain ⟨index', target, hanswer⟩ := answered id dropped
        rw [old] at hanswer
        cases hanswer
    | _ => exact before
  · exact listed index rfl

end Move

namespace Course

theorem refl (s : ParseState) : Course symbol s s :=
  Relation.ReflTransGen.refl

theorem one (move : Move symbol s t) : Course symbol s t :=
  Relation.ReflTransGen.single move

theorem trans (h : Course symbol s t) (h' : Course symbol t u) : Course symbol s u :=
  Relation.ReflTransGen.trans h h'

theorem grounded (course : Course symbol s t) (h : s.Grounded symbol) : t.Grounded symbol := by
  induction course with
  | refl => exact h
  | tail _ move ih => exact move.grounded ih

/-- A course that leads between two characters began between two. -/
theorem boundary (course : Course symbol s t) (h : s.Grounded symbol)
    (behind : Boundary symbol t.cursor.offset) : Boundary symbol s.cursor.offset := by
  induction course with
  | refl => exact behind
  | tail course move ih => exact ih (move.boundary (Course.grounded course h) behind)

theorem whole (course : Course symbol s t) (h : s.Grounded symbol) (hs : s.Whole symbol) :
    t.Whole symbol := by
  induction course with
  | refl => exact hs
  | tail course move ih => exact move.whole (Course.grounded course h) ih

theorem awaited (course : Course symbol s t) (h : s.Grounded symbol) (hs : s.Awaited) :
    t.Awaited := by
  induction course with
  | refl => exact hs
  | tail course move ih => exact move.awaited (Course.grounded course h) ih

/-- A template parameter that was used ahead of its argument stays one. -/
theorem forwardParam (course : Course symbol s t) (h : s.Grounded symbol) {id : NodeId}
    {index : Nat} {old : Option NodeId}
    (hid : s.work.tree.get? id = some (.forwardParam index old)) :
    ∃ new, t.work.tree.get? id = some (.forwardParam index new) := by
  induction course with
  | refl => exact ⟨old, hid⟩
  | tail course move ih =>
    obtain ⟨new, hnew⟩ := ih
    obtain kept | ⟨index', _, target, same, answered⟩ := move.kept (Course.grounded course h) hnew
    · exact ⟨new, kept⟩
    · cases same
      exact ⟨some target, answered⟩

/-- An answer is not taken back. -/
theorem answered (course : Course symbol s t) (h : s.Grounded symbol) {id : NodeId}
    (hid : Tree.Answered s.work.tree id) : Tree.Answered t.work.tree id := by
  induction course with
  | refl => exact hid
  | tail course move ih =>
    obtain ⟨index, target, hnew⟩ := ih
    obtain kept | ⟨index', _, target', same, answered⟩ := move.kept (Course.grounded course h) hnew
    · exact ⟨index, target, kept⟩
    · exact ⟨index', target', answered⟩

theorem text (course : Course symbol s t) (h : s.Grounded symbol) {words : Text}
    (whole : words.Whole symbol s.cursor.offset) : words.Whole symbol t.cursor.offset :=
  whole.mono (course.boundary h)

end Course
end Unmangle
