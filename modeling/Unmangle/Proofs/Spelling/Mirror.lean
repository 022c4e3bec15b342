import Mathlib.Data.List.Forall2
import Unmangle.Proofs.Tree.Likeness
import Unmangle.Spelling.Render

/-!
# Trees that mirror each other

Two trees are spelled the same when their roots correspond, and corresponding names hold
nodes alike. Neither tree need be free of circles: what carries from node to node is the
correspondence, and the nesting limit ends the spelling of both at one point.
-/
namespace Unmangle

/-- How what is written may go on. -/
structure Growth where
  rel : ByteArray → ByteArray → Prop
  refl (out : ByteArray) : rel out out
  trans {out next last : ByteArray} : rel out next → rel next last → rel out last
  words (out : ByteArray) (words : String) : rel out (out ++ words.toUTF8)
  /-- All of the later bytes may be taken back. -/
  shortened {out next : ByteArray} : rel out next → rel out (next.extract 0 out.size)

def Growth.any : Growth :=
  ⟨fun _ _ => True, fun _ => trivial, fun _ _ => trivial, fun _ _ => trivial, fun _ => trivial⟩

/-- What a spelling stands in: the bytes before it and the number of nodes around it. -/
structure Surroundings where
  before : ByteArray
  nesting : Nat
  /-- The bytes do not end in a bracket, which what follows might be set apart from. -/
  plain : (before[before.size - 1]?.all fun byte => byte != 62 && byte != 93) = true

namespace Surroundings

def none : Surroundings :=
  ⟨.empty, 0, by decide⟩

def put (around : Surroundings) (canvas : Canvas) : Canvas :=
  { canvas with
    out := around.before ++ canvas.out, depth := canvas.depth + around.nesting }

@[simp]
theorem put_none (canvas : Canvas) : none.put canvas = canvas := by
  simp only [put, none, ByteArray.empty_append, Nat.add_zero]

/-- Nothing before the canvas is taken for a bracket of its own. -/
theorem lastByte_put (around : Surroundings) (canvas : Canvas) {bracket : UInt8}
    (known : bracket ∈ [62, 93]) :
    (around.put canvas).out[(around.put canvas).out.size - 1]? = some bracket ↔
      canvas.out[canvas.out.size - 1]? = some bracket := by
  have size : (around.before ++ canvas.out).size = around.before.size + canvas.out.size :=
    ByteArray.size_append
  show (around.before ++ canvas.out)[(around.before ++ canvas.out).size - 1]? = _ ↔ _
  by_cases empty : canvas.out.size = 0
  · have none : canvas.out = .empty := ByteArray.size_eq_zero_iff.mp empty
    rw [none, ByteArray.append_empty]
    have plain : around.before[around.before.size - 1]? ≠ some bracket := by
      intro last
      have other := around.plain
      rw [last] at other
      simp only [List.mem_cons, List.not_mem_nil, or_false] at known
      obtain rfl | rfl := known
      · cases other
      · cases other
    exact iff_of_false plain nofun
  · have last : (around.before ++ canvas.out)[(around.before ++ canvas.out).size - 1]? =
        canvas.out[canvas.out.size - 1]? := by
      rw [getElem?_pos (around.before ++ canvas.out) _ (by omega),
        getElem?_pos canvas.out _ (by omega), ByteArray.getElem_append_right (by omega)]
      simp only [size]
      congr 2
      omega
    rw [last]

/-- Taking back what was written leaves the surroundings alone. -/
theorem extract_put (around : Surroundings) (canvas : Canvas) (size : Nat) :
    (around.put canvas).out.extract 0 (around.before.size + size) =
      around.before ++ canvas.out.extract 0 size := by
  have whole : around.before.extract 0 (around.before.size + size) = around.before := by
    apply ByteArray.ext
    rw [ByteArray.data_extract]
    exact Array.extract_eq_self_of_le (Nat.le_add_right _ _)
  simp [put, ByteArray.extract_append, whole]

end Surroundings

/-- Two symbols with their trees, and what corresponds in them. -/
structure Mirror where
  symbol : ByteArray
  symbol' : ByteArray
  tree : Tree
  tree' : Tree
  name : NodeId → NodeId → Prop
  target : Option NodeId → Option NodeId → Prop
  list : NodeList → NodeList → Prop
  text : Text → Text → Prop
  bits : FloatFormat → Text → Text → Prop
  /-- What spelling the first tree may look at. -/
  access : Access → Prop
  /-- How spelling may fail. -/
  fault : Fault → Prop
  /-- Faults of the first spelling behind which nothing is claimed of the second. -/
  withheld : Fault → Prop := fun _ => False
  /-- What the first spelling stands in, where the second stands alone. -/
  around : Surroundings := .none
  growth : Growth

namespace Mirror

variable (M : Mirror) {α β γ δ : Type}

def likeness : Likeness where
  child := M.name
  target := M.target
  list := M.list
  text := M.text
  bits := M.bits

/-- What corresponds holds alike nodes, alike names and the same words. -/
structure Lawful : Prop where
  node {a b} : M.name a b → Node.Alike M.likeness (M.tree.node a) (M.tree'.node b)
  target {o o'} : M.target o o' → Option.Rel M.name o o'
  waits {o o'} : M.target o o' → o = none → M.fault .unresolvedForwardReference
  length {run run'} : M.list run run' → run.length = run'.length
  elements {run run'} : M.list run run' →
    List.Forall₂ M.name (M.tree.list run).toList (M.tree'.list run').toList
  element {run run'} (index : Nat) : M.list run run' →
    Option.Rel M.name (M.tree.element? run index) (M.tree'.element? run' index)
  bytes {t t'} : M.text t t' → t.resolve M.symbol = t'.resolve M.symbol'
  written {t t'} (out : ByteArray) : M.text t t' → M.growth.rel out (out ++ t.resolve M.symbol)
  /-- A number may be written without the letter of its sign. -/
  digits {t t'} (out : ByteArray) : M.text t t' → (t.resolve M.symbol)[0]? = some 110 →
    M.growth.rel out (out ++ (t.resolve M.symbol).extract 1 (t.resolve M.symbol).size)
  words (words : String) : M.text (.literal words) (.literal words)
  bits {format t t'} : M.bits format t t' → M.text t t'
  float {format t t'} : M.bits format t t' →
    HexFloat.spelling? format (t.resolve M.symbol).data.toList = none → M.fault .unexpectedText
  looksAtNode {a b} : M.name a b → M.access (.node a)
  looksAtList {run run'} : M.list run run' → M.access (.list run)
  looksAtText {t t'} : M.text t t' → M.access (.text t)
  tooLong : M.fault .tooLong
  tooMuchRecursion : M.fault .tooMuchRecursion

/-- What a step leaves: what was written has grown, as many nodes are being spelled, and a pack that
was met stays met. -/
structure Later (before after : Canvas) : Prop where
  grown : M.growth.rel before.out after.out
  depth : after.depth = before.depth
  met : before.pack ≠ none → after.pack ≠ none

/-- Both steps leave one canvas, the first in its surroundings, and alike values, or both fail
with one fault. What is written goes on from some earlier canvas. -/
inductive Outcome (before : Canvas) (Q : α → β → Prop) :
    EStateM.Result Fault Canvas α → EStateM.Result Fault Canvas β → Prop
  | ok {a b canvas} (later : M.Later before canvas) (value : Q a b) :
      Outcome before Q (.ok a (M.around.put canvas)) (.ok b canvas)
  | error {fault canvas canvas'} (allowed : M.fault fault) :
      Outcome before Q (.error fault canvas) (.error fault canvas')
  | withheld {fault canvas r'} (allowed : M.fault fault) (gone : M.withheld fault) :
      Outcome before Q (.error fault canvas) r'

/-- One step of spelling in its surroundings follows another on a canvas, which comes after
some earlier one. -/
def FollowsFrom (before canvas : Canvas) (p : Print α) (p' : Print β) (Q : α → β → Prop) : Prop :=
  (∀ access, p.looksAt (M.around.put canvas) access → M.access access) ∧
    M.Outcome before Q (p.run (M.around.put canvas)) (p'.run canvas)

def Follows (p : Print α) (p' : Print β) (Q : α → β → Prop) : Prop :=
  ∀ canvas, M.FollowsFrom canvas canvas p p' Q

abbrev Writes (p p' : Print Unit) : Prop :=
  M.Follows p p' fun _ _ => True

/-- Limits for both spellings. They are the same, and both stand alone, unless the first may be
withheld at its own. -/
structure Limits (limits limits' : SpellingLimits) : Prop where
  depth : limits.maxDepth ≤ limits'.maxDepth
  length : limits.maxLength ≤ limits'.maxLength
  same : M.withheld .tooLong ∧ M.withheld .tooMuchRecursion ∨ limits' = limits ∧ M.around = .none

variable {M}

theorem Later.refl (canvas : Canvas) : M.Later canvas canvas :=
  ⟨M.growth.refl _, rfl, id⟩

theorem Later.trans {before canvas after : Canvas} (h : M.Later before canvas)
    (h' : M.Later canvas after) : M.Later before after :=
  ⟨M.growth.trans h.grown h'.grown, h'.depth.trans h.depth, h'.met ∘ h.met⟩

/-- Two outcomes that are alike are both a success or both the same fault, or the first is withheld. -/
theorem Outcome.elim {before : Canvas} {Q : α → β → Prop} {r r'} (h : M.Outcome before Q r r') :
    (∃ a b canvas, r = .ok a (M.around.put canvas) ∧ r' = .ok b canvas ∧ M.Later before canvas ∧
      Q a b) ∨
    (∃ fault canvas canvas', r = .error fault canvas ∧ r' = .error fault canvas' ∧
      M.fault fault) ∨
    ∃ fault canvas, r = .error fault canvas ∧ M.fault fault ∧ M.withheld fault := by
  cases h with
  | ok later value => exact .inl ⟨_, _, _, rfl, rfl, later, value⟩
  | error allowed => exact .inr (.inl ⟨_, _, _, rfl, rfl, allowed⟩)
  | withheld allowed gone => exact .inr (.inr ⟨_, _, rfl, allowed, gone⟩)

namespace FollowsFrom

variable {p : Print α} {p' : Print β} {Q : α → β → Prop} {R : γ → δ → Prop}
  {before canvas : Canvas}

/-- Two steps in a row follow where each of them does. -/
theorem bind {f : α → Print γ} {f' : β → Print δ} (h : M.FollowsFrom before canvas p p' Q)
    (hf : ∀ a b after, M.Later before after → Q a b →
      M.FollowsFrom before after (f a) (f' b) R) :
    M.FollowsFrom before canvas (p >>= f) (p' >>= f') R := by
  obtain ⟨looks, outcome⟩ := h
  obtain ⟨a, b, after, hr, hr', later, value⟩ | ⟨fault, _, _, hr, hr', allowed⟩ |
    ⟨fault, _, hr, allowed, gone⟩ := outcome.elim
  · obtain ⟨looks', outcome'⟩ := hf a b after later value
    refine ⟨?_, ?_⟩
    · rintro access (h | ⟨a', after', ha, h⟩)
      · exact looks access h
      · obtain ⟨rfl, rfl⟩ := EStateM.Result.ok.inj (hr.symm.trans ha)
        exact looks' access h
    · simp only [Bind.bind, hr, hr']
      exact outcome'
  · refine ⟨?_, ?_⟩
    · rintro access (h | ⟨a', after', ha, -⟩)
      · exact looks access h
      · cases hr.symm.trans ha
    · simp only [Bind.bind, hr, hr']
      exact .error allowed
  · refine ⟨?_, ?_⟩
    · rintro access (h | ⟨a', after', ha, -⟩)
      · exact looks access h
      · cases hr.symm.trans ha
    · simp only [Bind.bind, hr]
      exact .withheld allowed gone

/-- A step does the same whatever was written before. -/
theorem of (h : M.Follows p p' Q) (later : M.Later before canvas) :
    M.FollowsFrom before canvas p p' Q := by
  obtain ⟨looks, outcome⟩ := h canvas
  refine ⟨looks, ?_⟩
  obtain ⟨a, b, after, hr, hr', more, value⟩ | ⟨fault, _, _, hr, hr', allowed⟩ |
    ⟨fault, _, hr, allowed, gone⟩ := outcome.elim
  · rw [hr, hr']
    exact .ok (later.trans more) value
  · rw [hr, hr']
    exact .error allowed
  · rw [hr]
    exact .withheld allowed gone

theorem ite {c : Prop} [Decidable c] {q : Print α} {q' : Print β}
    (yes : M.FollowsFrom before canvas p p' Q) (no : M.FollowsFrom before canvas q q' Q) :
    M.FollowsFrom before canvas (if c then p else q) (if c then p' else q') Q := by
  split
  · exact yes
  · exact no

/-- Both steps know how much was written. -/
theorem written {f : Nat → Print γ} {f' : Nat → Print δ}
    (h : M.FollowsFrom before canvas (f (M.around.before.size + canvas.out.size))
      (f' canvas.out.size) R) :
    M.FollowsFrom before canvas (Print.written >>= f) (Print.written >>= f') R := by
  have size : (M.around.put canvas).out.size = M.around.before.size + canvas.out.size :=
    ByteArray.size_append
  rw [← size] at h
  refine ⟨?_, h.2⟩
  rintro access ((h | ⟨_, _, -, h⟩) | ⟨_, _, ⟨⟩, looks⟩)
  · exact h.elim
  · exact h.elim
  · exact h.1 access looks

/-- What was written before stays when the rest is taken back. -/
theorem truncate (later : M.Later before canvas) :
    M.FollowsFrom before canvas (Print.truncate (M.around.before.size + before.out.size))
      (Print.truncate before.out.size) fun _ _ => True := by
  refine ⟨fun _ h => h.elim, ?_⟩
  have shortened : M.Later before { canvas with out := canvas.out.extract 0 before.out.size } :=
    ⟨M.growth.shortened later.grown, later.depth, later.met⟩
  have outcome := Outcome.ok (a := ()) (b := ()) (Q := fun _ _ => True) shortened trivial
  simp only [Surroundings.put, ← Surroundings.extract_put] at outcome
  exact outcome

end FollowsFrom

namespace Follows

variable {p : Print α} {p' : Print β} {Q Q' : α → β → Prop} {R : γ → δ → Prop}

theorem pure {a : α} {b : β} (h : Q a b) : M.Follows (Pure.pure a) (Pure.pure b) Q :=
  fun _ => ⟨fun _ h => h.elim, .ok (.refl _) h⟩

theorem throw {fault : Fault} (allowed : M.fault fault) :
    M.Follows (Print.throw fault) (Print.throw fault) Q :=
  fun _ => ⟨fun _ h => h.elim, .error allowed⟩

theorem get : M.Follows (MonadState.get : Print Canvas) MonadState.get
    fun canvas canvas' => canvas = M.around.put canvas' :=
  fun _ => ⟨fun _ h => h.elim, .ok (.refl _) rfl⟩

theorem modified (f : Canvas → Canvas)
    (apart : ∀ canvas, f (M.around.put canvas) = M.around.put (f canvas))
    (later : ∀ canvas, M.Later canvas (f canvas)) : M.Writes (modify f) (modify f) := by
  refine fun canvas => ⟨fun _ h => h.elim, ?_⟩
  show M.Outcome canvas _ (.ok () (f (M.around.put canvas))) (.ok () (f canvas))
  rw [apart]
  exact .ok (later canvas) trivial

theorem bind {f : α → Print γ} {f' : β → Print δ} (h : M.Follows p p' Q)
    (hf : ∀ a b, Q a b → M.Follows (f a) (f' b) R) : M.Follows (p >>= f) (p' >>= f') R :=
  fun canvas => (h canvas).bind fun a b _ later value => .of (hf a b value) later

/-- What the first step comes to is not needed behind it. -/
theorem seq {q : Print γ} {q' : Print δ} (h : M.Follows p p' Q) (next : M.Follows q q' R) :
    M.Follows (do let _ ← p; q) (do let _ ← p'; q') R :=
  h.bind fun _ _ _ => next

theorem ite {c : Prop} [Decidable c] {q : Print α} {q' : Print β} (yes : M.Follows p p' Q)
    (no : M.Follows q q' Q) : M.Follows (if c then p else q) (if c then p' else q') Q := by
  split
  · exact yes
  · exact no

theorem whenever (holds : Bool) {p p' : Print Unit} (h : M.Writes p p') :
    M.Writes (Print.whenever holds p) (Print.whenever holds p') :=
  ite h (pure trivial)

theorem ifAny {o o' : Option NodeId} {p p' : NodeId → Print Unit} (h : Option.Rel M.name o o')
    (hp : ∀ a b, M.name a b → M.Writes (p a) (p' b)) :
    M.Writes (Print.ifAny o p) (Print.ifAny o' p') := by
  cases h with
  | some h => exact hp _ _ h
  | none => exact pure trivial

end Follows
end Mirror
end Unmangle
