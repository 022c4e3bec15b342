import Unmangle.Proofs.Limits
import Unmangle.Proofs.Spelling.Follow
import Unmangle.Proofs.Spelling.Run

/-!
# A node around a whole spelling

A node may write something before or behind one other node and add nothing else. What is
between is then spelled as it would be alone, unless the wrapping uses up a limit.
-/
namespace Unmangle

namespace Mirror

variable {M : Mirror} {symbol : ByteArray} {tree : Tree} {around : Surroundings}

variable (M) in
/-- The first symbol with more bytes and its tree with more nodes. Spelling it may be given up
at a limit. -/
def wrapped (symbol : ByteArray) (tree : Tree) (around : Surroundings) : Mirror :=
  { M with symbol := symbol, tree := tree, around := around, withheld := Fault.IsLimit }

/-- A mirror stays lawful with something around what is written. -/
theorem Lawful.wrapped (law : M.Lawful) (nodes : ∀ a b, M.name a b → tree.node a = M.tree.node a)
    (lists : tree.lists = M.tree.lists)
    (texts : ∀ t t', M.text t t' → t.resolve symbol = t.resolve M.symbol) :
    (M.wrapped symbol tree around).Lawful where
  node {a b} h := by
    have alike := law.node h
    rw [← nodes a b h] at alike
    exact alike
  target := law.target
  waits := law.waits
  length := law.length
  elements {run run'} h := by
    have alike := law.elements h
    simp only [Store.list, ← lists] at alike
    exact alike
  element {run run'} index h := by
    have alike := law.element index h
    simp only [Store.element?, ← lists] at alike
    exact alike
  bytes {t t'} h := (texts t t' h).trans (law.bytes h)
  written {t t'} out h := by
    have grown := law.written out h
    rw [← texts t t' h] at grown
    exact grown
  digits {t t'} out h := by
    have grown := law.digits out h
    rw [← texts t t' h] at grown
    exact grown
  words := law.words
  bits := law.bits
  float {format t t'} h := by
    have allowed := law.float h
    rw [← texts t t' (law.bits h)] at allowed
    exact allowed
  looksAtNode := law.looksAtNode
  looksAtList := law.looksAtList
  looksAtText := law.looksAtText
  tooLong := law.tooLong
  tooMuchRecursion := law.tooMuchRecursion

/-- What comes out alone comes out in its surroundings, unless that is too deep or too long. -/
theorem Lawful.run_spell (law : M.Lawful) (limited : M.withheld = Fault.IsLimit)
    {limits : SpellingLimits} {levels : Nat} (fewer : levels ≤ limits.maxDepth) {a b : NodeId}
    (h : M.name a b) {out : ByteArray}
    (alone : Unmangle.render limits M.symbol' M.tree' b = .ok out) :
    (∃ pack, ((M.first (renderHalf limits M.symbol M.tree levels)).spell a).run (M.around.put {}) =
      .ok () (M.around.put ⟨out, pack, 0⟩)) ∨
    ∃ fault canvas, ((M.first (renderHalf limits M.symbol M.tree levels)).spell a).run
      (M.around.put {}) = .error fault canvas ∧ fault.IsLimit := by
  have limited' : M.withheld .tooLong ∧ M.withheld .tooMuchRecursion := by
    rw [limited]
    exact ⟨.inr rfl, .inl rfl⟩
  -- the first spelling has fewer levels to spend, which only its limit can show
  have halves : M.Halves (renderHalf limits M.symbol M.tree levels)
      (renderHalf limits M.symbol' M.tree' limits.maxDepth) :=
    law.halves ⟨Nat.le_refl _, Nat.le_refl _, .inl limited'⟩ fewer (.inl limited')
  unfold Unmangle.render at alone
  obtain ⟨_, _, ⟨written, pack, depth⟩, hr, hr', later, -⟩ | ⟨fault, _, _, -, hr', -⟩ |
    ⟨fault, canvas, hr, -, gone⟩ := (Follows.spell halves h {}).2.elim
  · rw [show (Unmangle.rendering limits M.symbol' M.tree' b).run {} = _ from hr'] at alone
    cases alone
    obtain rfl : depth = 0 := later.depth
    exact .inl ⟨pack, hr⟩
  · rw [show (Unmangle.rendering limits M.symbol' M.tree' b).run {} = _ from hr'] at alone
    cases alone
  · rw [limited] at gone
    exact .inr ⟨fault, canvas, hr, gone⟩

end Mirror

theorem Print.run_deeper {limits : SpellingLimits} {step : Print Unit} {canvas : Canvas}
    (shallow : canvas.depth + 1 < limits.maxDepth) :
    (Print.deeper limits step).run canvas =
      if limits.maxLength < canvas.out.size then .error .tooLong canvas
      else (Print.nested step).run canvas := by
  rw [run_deeper_eq, if_neg (Nat.not_le.mpr shallow)]

section Root

variable {limits : SpellingLimits} {symbol : ByteArray} {tree : Tree} {root : NodeId} {levels : Nat}
  (deep : limits.maxDepth = levels + 1) (room : 0 < levels)
include deep room

theorem run_leftHalf :
    (renderHalf limits symbol tree limits.maxDepth .left root).run {} =
      (Print.nested (Speller.left ⟨symbol, tree, renderHalf limits symbol tree levels⟩
        (tree.node root))).run {} := by
  have shallow : ({} : Canvas).depth + 1 < limits.maxDepth := by
    rw [deep]
    exact Nat.succ_lt_succ room
  have short : ¬limits.maxLength < ({} : Canvas).out.size := Nat.not_lt_zero _
  rw [deep, renderHalf, Print.run_deeper shallow, if_neg short]
  rfl

/-- A root whose left half fails fails in the same way. -/
theorem render_of_left_error {fault : Fault} {canvas : Canvas}
    (left : (Speller.left ⟨symbol, tree, renderHalf limits symbol tree levels⟩
      (tree.node root)).run { depth := 1 } = .error fault canvas) :
    render limits symbol tree root = .error fault := by
  have first : (renderHalf limits symbol tree limits.maxDepth .left root).run {} =
      .error fault { canvas with depth := canvas.depth - 1 } := by
    rw [run_leftHalf deep room]
    simp only [Print.nested, Nat.zero_add, left]
  simp only [render, rendering, Speller.spell, Bind.bind, first]

/-- A root with nothing in its right half comes out as its left half does, unless that is too
long. -/
theorem render_of_left (empty : ∀ speller : Speller, speller.right (tree.node root) = pure ())
    {canvas : Canvas} (level : canvas.depth = 1)
    (left : (Speller.left ⟨symbol, tree, renderHalf limits symbol tree levels⟩
      (tree.node root)).run { depth := 1 } = .ok () canvas) :
    render limits symbol tree root =
      if limits.maxLength < canvas.out.size then .error .tooLong else .ok canvas.out := by
  have first : (renderHalf limits symbol tree limits.maxDepth .left root).run {} =
      .ok () { canvas with depth := 0 } := by
    rw [run_leftHalf deep room]
    simp only [Print.nested, Nat.zero_add, left, level, Nat.sub_self]
  have second : (renderHalf limits symbol tree limits.maxDepth .right root).run
      { canvas with depth := 0 } =
      if limits.maxLength < canvas.out.size then .error .tooLong { canvas with depth := 0 }
      else .ok () { canvas with depth := 0 } := by
    have shallow : ({ canvas with depth := 0 } : Canvas).depth + 1 < limits.maxDepth := by
      rw [deep]
      exact Nat.succ_lt_succ room
    have nothing : (Print.nested (Speller.side
        ⟨symbol, tree, renderHalf limits symbol tree levels⟩ .right root)).run
        { canvas with depth := 0 } = .ok () { canvas with depth := 0 } := by
      simp only [Print.nested, Speller.side, Print.node, Bind.bind, empty]
      rfl
    rw [deep, renderHalf, Print.run_deeper shallow, nothing]
  simp only [render, rendering, Speller.spell, Bind.bind, first, second]
  by_cases long : limits.maxLength < canvas.out.size
  · simp only [if_pos long]
  · simp only [if_neg long]

end Root

/-- A root that only writes something before and behind one other node comes out as that node
does, with what it writes around it, unless that is too deep or too long. -/
theorem Mirror.Lawful.render_around {M : Mirror} (law : M.Lawful)
    (limited : M.withheld = Fault.IsLimit) {limits : SpellingLimits} {levels : Nat}
    (deep : limits.maxDepth = levels + 1) (room : 0 < levels) (nested : M.around.nesting = 1)
    {root a b : NodeId} (h : M.name a b) {out behind : ByteArray}
    (alone : Unmangle.render limits M.symbol' M.tree' b = .ok out)
    (empty : ∀ speller : Speller, speller.right (M.tree.node root) = pure ()) {rest : Print Unit}
    (written : ∀ canvas, rest.run canvas = .ok () { canvas with out := canvas.out ++ behind })
    (left : ∀ speller : Speller, speller.symbol = M.symbol →
      (speller.left (M.tree.node root)).run { depth := 1 } =
        (speller.spell a >>= fun _ => rest).run (M.around.put {})) :
    Unmangle.render limits M.symbol M.tree root = .ok (M.around.before ++ out ++ behind) ∨
      ∃ fault, Unmangle.render limits M.symbol M.tree root = .error fault ∧ fault.IsLimit := by
  have begun := left ⟨M.symbol, M.tree, renderHalf limits M.symbol M.tree levels⟩ rfl
  have fewer : levels ≤ limits.maxDepth := by omega
  obtain ⟨pack, spelled⟩ | ⟨fault, canvas, spelled, limit⟩ :=
    law.run_spell limited fewer h alone
  · simp only [Bind.bind, spelled, written] at begun
    have level : 0 + M.around.nesting = 1 := by omega
    rw [render_of_left deep room empty level begun]
    split
    · exact .inr ⟨.tooLong, rfl, .inr rfl⟩
    · exact .inl rfl
  · simp only [Bind.bind, spelled] at begun
    exact .inr ⟨fault, render_of_left_error deep room begun, limit⟩

end Unmangle
