import Unmangle.Proofs.Declarator.Stored

/-!
# Spelling function templates

The name stands with its arguments between the halves of the result, with the parameters behind
it.
-/
namespace Unmangle

open Print

def endsInAngle (words : String) : Bool :=
  endsIn 62 words

/-- Template arguments. Two closing brackets are kept apart. -/
def angled (args : String) : String :=
  ("<" ++ args) ++ ((if endsInAngle ("<" ++ args) then " " else "") ++ ">")

/-- A function template with its arguments and parameters, around the halves of its result. -/
def Halves.template (result : Halves) (name args params : String) : String :=
  ((result.left ++ (if !result.tail .any then " " else "")) ++ (name ++ angled args)) ++
    (("(" ++ (params ++ ")")) ++ result.right false)

section

variable {symbol : ByteArray} {tree : Tree} {tails need need' : Nat} {halves : Halves}
  {room : Prop} {limits : SpellingLimits} {levels : Nat} {canvas : Canvas}
  {args params words : String} {root result name named list : NodeId} {run run' : NodeList}

/-- A list writes this, wherever it is spelled with no pack being expanded. -/
def ListWrites (symbol : ByteArray) (tree : Tree) (limits : SpellingLimits) (room : Prop)
    (need : Nat) (words : String) (run : NodeList) : Prop :=
  ∀ ⦃levels : Nat⦄ ⦃canvas : Canvas⦄, canvas.pack = none → canvas.depth + levels = limits.maxDepth →
    (room → canvas.Fits limits need words) →
    Writes room words
      ((Speller.within limits symbol tree levels).separated true (tree.list run).toList) canvas

/-- The arguments of a template, in brackets. -/
theorem writes_angled (held : tree.get? list = some (.templateArgs run))
    (written : ListWrites symbol tree limits room need args run) (packed : canvas.pack = none)
    (spent : canvas.depth + levels = limits.maxDepth) (deep : 1 ≤ need)
    (fits : room → canvas.Fits limits (need + 1) (angled args)) :
    Writes room (angled args) ((Speller.within limits symbol tree levels).spell list) canvas := by
  refine Writes.spellLeft held (fun _ => rfl) spent deep fits ?_
  intro levels spent
  have opened (canvas : Canvas) : ((canvas.add "<").add args).out[((canvas.add "<").add args).out.size - 1]? =
      (octets ("<" ++ args)).getLast? := by
    rw [← Canvas.add_append, Canvas.lastByte_add _ fun none =>
      absurd (String.append_eq_empty_iff.mp none).1 (by decide)]
  unfold angled at fits ⊢
  rw [String.append_assoc] at fits ⊢
  have within (enough : _) := (fits enough).deeper
  refine Writes.andThen (Writes.wording "<") (Writes.andThen ?_ ?_)
  · exact Writes.after rfl (written packed spent fun enough => (within enough).second.first)
  · refine Writes.after (a := (octets ("<" ++ args)).getLast?) ?_ ?_
    · rw [← opened]
      rfl
    · exact Writes.andThen (Writes.whenever _ " ") (Writes.wording ">")

/-- The name of a template stands in front of its arguments. -/
theorem writes_instantiation (held : tree.get? name = some (.instantiation named list))
    (called : tree.Words symbol words named) (listed : tree.get? list = some (.templateArgs run))
    (written : ListWrites symbol tree limits room need args run) (packed : canvas.pack = none)
    (spent : canvas.depth + levels = limits.maxDepth) (deep : 1 ≤ need)
    (fits : room → canvas.Fits limits (need + 2) (words ++ angled args)) :
    Writes room (words ++ angled args) ((Speller.within limits symbol tree levels).spell name)
      canvas := by
  obtain ⟨text, held', resolved⟩ := called
  have leaf : Shows symbol tree none 1 2 (.leaf words) named := .leaf held' resolved
  have deep' : 1 ≤ need + 1 := Nat.le_add_left 1 need
  refine Writes.spellLeft held (fun _ => rfl) spent deep' fits ?_
  intro levels spent
  have within (enough : _) := (fits enough).deeper
  refine Writes.andThen (Writes.spell ?_ ?_)
    (writes_angled listed written packed spent deep fun enough => (within enough).second)
  · exact leaf.left packed spent fun enough => (within enough).first.fewer (Nat.succ_le_succ deep)
  · exact leaf.right packed spent fun enough =>
      ((within enough).first.fewer (Nat.succ_le_succ deep)).behind

/-- A function template is spelled around its result. -/
theorem writes_template (held : tree.get? root = some (.function (some result) name run' {} none))
    (instantiated : tree.get? name = some (.instantiation named list))
    (called : tree.Words symbol words named) (listed : tree.get? list = some (.templateArgs run))
    (shows : Shows symbol tree none tails need' halves result) (near : need' ≤ chainLimit + 1)
    (within : need' ≤ need)
    (written : ListWrites symbol tree limits room need args run)
    (written' : ListWrites symbol tree limits room need params run') (deep : 1 ≤ need)
    (fits : room → Canvas.Fits limits {} (need + 3) (halves.template words args params)) :
    Writes room (halves.template words args params) (rendering limits symbol tree root) {} := by
  have deep' : 1 ≤ need + 2 := Nat.le_add_left 1 _
  unfold Halves.template at fits ⊢
  refine Writes.andThen (Writes.left held (Nat.zero_add _) deep' ?_ fun levels spent => ?_)
    (Writes.right held (Nat.zero_add _) deep' ?_ fun levels spent => ?_)
  · exact fun enough => (fits enough).first
  · have inside (enough : _) := (fits enough).first.deeper
    refine Writes.andThen (Writes.andThen ?_ (Writes.after (shows.any rfl near)
      (Writes.whenever _ " "))) ?_
    · exact shows.left rfl spent fun enough =>
        (inside enough).first.first.fewer (Nat.le_add_right_of_le within)
    · exact writes_instantiation instantiated called listed written rfl spent deep
        fun enough => (inside enough).second
  · exact fun enough => (fits enough).second
  · have inside (enough : _) := ((fits enough).second.deeper).fewer (Nat.le_add_right need 2)
    refine Writes.andThen ?_ (Writes.before ?_ (Writes.before (Writes.quals {}) Writes.nothing))
    · refine Writes.andThen (Writes.wording "(") (Writes.andThen ?_ (Writes.wording ")"))
      exact Writes.after rfl (written' rfl spent fun enough => (inside enough).first.second.first)
    · refine shows.rightBehind ?_ rfl spent fun enough => (inside enough).second.fewer within
      rw [Canvas.bracketed_add _ fun none => absurd (String.append_eq_empty_iff.mp none).1 (by decide),
        ← String.append_assoc, endsInBracket_closing]

end

end Unmangle
