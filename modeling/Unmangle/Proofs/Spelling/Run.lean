import Unmangle.Spelling.Render

/-!
# Running a spelling

What a step of spelling makes of a canvas, from what its parts do. A template parameter is spelled as
what it stands for, one level deeper. One that came ahead of its argument is no different once it
has got it.
-/
namespace Unmangle

namespace Print

variable {α β γ : Type} {p p' : Print α}

theorem run_node {tree : Tree} {id : NodeId} {canvas : Canvas} :
    (node tree id).run canvas = .ok (tree.node id) canvas := rfl

/-- Steps that do the same on one canvas do the same with what follows there. -/
theorem run_bind_congr {f f' : α → Print β} {canvas : Canvas}
    (first : p.run canvas = p'.run canvas)
    (next : ∀ a after, p.run canvas = .ok a after → (f a).run after = (f' a).run after) :
    (p >>= f).run canvas = (p' >>= f').run canvas := by
  simp only [Bind.bind, ← first]
  cases run : p.run canvas with
  | ok a after => exact next a after run
  | error fault after => rfl

theorem run_bind_assoc (p : Print α) (f : α → Print β) (g : β → Print γ)
    (canvas : Canvas) :
    ((p >>= f) >>= g).run canvas = (p >>= fun a => f a >>= g).run canvas := by
  simp only [Bind.bind]
  cases p.run canvas <;> rfl

/-- A step one level deeper looks at how much is written first, and then at how deep it is. -/
theorem run_deeper_eq (limits : SpellingLimits) (step : Print Unit) (canvas : Canvas) :
    (deeper limits step).run canvas =
      if limits.maxLength < canvas.out.size then .error .tooLong canvas
      else if limits.maxDepth ≤ canvas.depth + 1 then .error .tooMuchRecursion canvas
      else (nested step).run canvas := by
  show Print.run (if limits.maxLength < canvas.out.size then throw .tooLong
    else if limits.maxDepth ≤ canvas.depth + 1 then throw .tooMuchRecursion
    else nested step) canvas = _
  by_cases long : limits.maxLength < canvas.out.size
  · rw [if_pos long, if_pos long]
    rfl
  · by_cases deep : limits.maxDepth ≤ canvas.depth + 1
    · rw [if_neg long, if_neg long, if_pos deep, if_pos deep]
      rfl
    · rw [if_neg long, if_neg long, if_neg deep, if_neg deep]

theorem run_deeper_congr {limits : SpellingLimits} {p p' : Print Unit} {canvas : Canvas}
    (same : p.run { canvas with depth := canvas.depth + 1 } =
      p'.run { canvas with depth := canvas.depth + 1 }) :
    (deeper limits p).run canvas = (deeper limits p').run canvas := by
  rw [run_deeper_eq, run_deeper_eq]
  simp only [nested, same]

/-- What follows a step goes on from where the step left off. -/
theorem run_bind_of {p : Print α} {a : α} {canvas between : Canvas}
    (first : p.run canvas = .ok a between) (f : α → Print β) :
    (p >>= f).run canvas = (f a).run between := by
  simp only [Bind.bind, first]

/-- What comes out of a step went through its first part. -/
theorem of_run_bind {f : α → Print β} {canvas after : Canvas} {b : β}
    (run : (p >>= f).run canvas = .ok b after) :
    ∃ a between, p.run canvas = .ok a between ∧ (f a).run between = .ok b after := by
  simp only [Bind.bind] at run
  cases first : p.run canvas with
  | ok a between =>
    rw [first] at run
    exact ⟨a, between, rfl, run⟩
  | error fault between =>
    rw [first] at run
    cases run

/-- What comes out of a step one level deeper came out of the step. -/
theorem of_run_deeper {limits : SpellingLimits} {p : Print Unit} {canvas after : Canvas}
    (run : (deeper limits p).run canvas = .ok () after) :
    ∃ inner, p.run { canvas with depth := canvas.depth + 1 } = .ok () inner ∧
      after = { inner with depth := inner.depth - 1 } := by
  rw [run_deeper_eq] at run
  by_cases long : limits.maxLength < canvas.out.size
  · rw [if_pos long] at run
    cases run
  · by_cases deep : limits.maxDepth ≤ canvas.depth + 1
    · rw [if_neg long, if_pos deep] at run
      cases run
    · rw [if_neg long, if_neg deep] at run
      simp only [nested] at run
      cases inner : p.run { canvas with depth := canvas.depth + 1 } with
      | ok _ after' =>
        rw [inner] at run
        cases run
        exact ⟨after', rfl, rfl⟩
      | error fault after' =>
        rw [inner] at run
        cases run

end Print

namespace Tree

/-- A template parameter, and what it stands for. -/
def Alias (tree : Tree) (id target : NodeId) : Prop :=
  tree.node id = .templateParam target ∨ ∃ index, tree.node id = .forwardParam index (some target)

theorem Alias.node_ne {tree : Tree} {id target : NodeId} (first : tree.Alias id target)
    (kind : Reference) (pointee : NodeId) : tree.node id ≠ .reference kind pointee := by
  intro reference
  obtain held | ⟨index, held⟩ := first
  · cases held.symm.trans reference
  · cases held.symm.trans reference

end Tree

namespace Print

variable {tree : Tree} {id target : NodeId} {steps : Nat} {canvas : Canvas}

theorem run_behind_alias (first : tree.Alias id target) :
    (behindWithin tree (steps + 1) id).run canvas = (behindWithin tree steps target).run canvas := by
  obtain held | ⟨index, held⟩ := first
  all_goals simp only [behindWithin, Bind.bind, run_node, held]

theorem run_hasTail_alias (tail : Tail) (first : tree.Alias id target) :
    (hasTailWithin tree tail (steps + 1) id).run canvas =
      (hasTailWithin tree tail steps target).run canvas := by
  obtain held | ⟨index, held⟩ := first
  all_goals simp only [hasTailWithin, Bind.bind, run_node, held]

/-- A half of a template parameter is that half of what it stands for. -/
theorem run_side_alias {speller : Speller} (side : Half) (first : speller.tree.Alias id target) :
    (speller.side side id).run canvas = (speller.half side target).run canvas := by
  obtain held | ⟨index, held⟩ := first
  all_goals
    cases side with
    | left => simp only [Speller.side, Bind.bind, run_node, held, Speller.left]
    | right => simp only [Speller.side, Bind.bind, run_node, held, Speller.right]

end Print
end Unmangle
