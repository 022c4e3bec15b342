import Unmangle.Proofs.Output.Qualified
import Unmangle.Proofs.Spelling.Alone

/-!
# Chains of references

A reference may lead to another, directly or through template parameters and packs, and all of a
chain is spelled as one reference to what the chain ends in. A chain is followed over a fixed number
of references. One that goes on is spelled as nothing, so a parameter of its type is not listed.
-/
namespace Unmangle

/-- A chain ends in anything but a reference or what is spelled as another node. -/
def Node.EndsChain : Node → Prop
  | .reference _ _ | .templateParam _ | .forwardParam _ (some _) | .parameterPack _ => False
  | _ => True

/-- What stands around a reference to a node, if that is not a matter of another node. -/
def Node.brackets? : Node → Option (String × String)
  | .qualified _ _ | .templateParam _ | .forwardParam _ (some _) | .parameterPack _ => none
  | .array _ _ => some (" (", ")")
  | .functionType .. | .function .. => some ("(", ")")
  | _ => some ("", "")

namespace Canvas

/-- A canvas on which packs of some sizes are met. The first of them is expanded, unless one is
being expanded already. -/
def met (canvas : Canvas) : List Nat → Canvas
  | [] => canvas
  | size :: _ => { canvas with pack := some (canvas.pack.getD ⟨0, size⟩) }

variable {canvas after : Canvas} {index : Nat} {packs packs' : List Nat}

theorem met_of_pack (packed : canvas.pack ≠ none) (packs : List Nat) : canvas.met packs = canvas := by
  obtain ⟨out, _ | pack, depth⟩ := canvas
  · exact absurd rfl packed
  · cases packs <;> rfl

theorem pack_met (some : packs ≠ []) : (canvas.met packs).pack ≠ none := by
  obtain ⟨size, rest, rfl⟩ := List.exists_cons_of_ne_nil some
  exact Option.some_ne_none _

theorem met_met (canvas : Canvas) (packs packs' : List Nat) :
    (canvas.met packs).met packs' = canvas.met (packs ++ packs') := by
  cases packs with
  | nil => rfl
  | cons => exact met_of_pack (pack_met (List.cons_ne_nil _ _)) packs'

theorem met_self (canvas : Canvas) (packs : List Nat) :
    (canvas.met packs).met packs = canvas.met packs := by
  cases packs with
  | nil => rfl
  | cons => exact met_of_pack (pack_met (List.cons_ne_nil _ _)) _

@[simp]
theorem index_met (canvas : Canvas) (packs : List Nat) : (canvas.met packs).index = canvas.index := by
  obtain ⟨out, _ | pack, depth⟩ := canvas <;> cases packs <;> rfl

@[simp]
theorem out_met (canvas : Canvas) (packs : List Nat) : (canvas.met packs).out = canvas.out := by
  cases packs <;> rfl

/-- The canvas is at some place in a pack, and packs of some sizes are not met again on it. -/
structure At (canvas : Canvas) (index : Nat) (packs : List Nat) : Prop where
  index : canvas.index = index
  met : packs = [] ∨ canvas.pack ≠ none

namespace At

theorem met_eq (here : canvas.At index packs) : canvas.met packs = canvas := by
  obtain rfl | packed := here.met
  · rfl
  · exact met_of_pack packed packs

theorem of_met (here : canvas.index = index) (packs : List Nat) :
    (canvas.met packs).At index packs where
  index := (index_met canvas packs).trans here
  met := (eq_or_ne packs []).imp_right pack_met

theorem fewer (here : canvas.At index packs) (none : packs = [] → packs' = []) :
    canvas.At index packs' :=
  ⟨here.index, here.met.imp_left none⟩

theorem later (here : canvas.At index packs) (place : after.index = canvas.index)
    (met : canvas.pack ≠ none → after.pack ≠ none) : after.At index packs :=
  ⟨place.trans here.index, here.met.imp_right met⟩

end At
end Canvas

namespace Tree

theorem Alias.not_endsChain {tree : Tree} {id target : NodeId} (first : tree.Alias id target) :
    ¬(tree.node id).EndsChain := by
  intro ends
  obtain held | ⟨index, held⟩ := first
  · rw [held] at ends
    exact ends
  · rw [held] at ends
    exact ends

/-- What a node is spelled as at some place in a pack, with the size of the pack that it is. -/
inductive Stands (tree : Tree) (index : Nat) (id : NodeId) : List Nat → NodeId → Prop
  | param {target} (first : tree.Alias id target) : Stands tree index id [] target
  | element {run target} (held : tree.node id = .parameterPack run)
      (found : tree.element? run index = some target) : Stands tree index id [run.length] target

theorem Stands.node_ne {tree : Tree} {index : Nat} {id target : NodeId} {packs : List Nat}
    (first : tree.Stands index id packs target) (kind : Reference) (pointee : NodeId) :
    tree.node id ≠ .reference kind pointee := by
  cases first with
  | param first => exact first.node_ne kind pointee
  | element held => exact fun reference => by cases held.symm.trans reference

/-- So many nodes one after another that are spelled as the next, with the sizes of their packs. -/
inductive Aliases (tree : Tree) (index : Nat) : Nat → List Nat → NodeId → NodeId → Prop
  | none (id : NodeId) : Aliases tree index 0 [] id id
  | next {count id packs target packs' last} (first : tree.Stands index id packs target)
      (rest : Aliases tree index count packs' target last) :
      Aliases tree index (count + 1) (packs ++ packs') id last

/-- A node that a chain ends in. A pack is one if it has no element at the place. -/
inductive Ends (tree : Tree) (index : Nat) (id : NodeId) : List Nat → Prop
  | node (ends : (tree.node id).EndsChain) : Ends tree index id []
  | absent {run} (held : tree.node id = .parameterPack run)
      (absent : tree.element? run index = none) : Ends tree index id [run.length]

/-- What a reference leads to: the references on the way with the sizes of the packs that are met,
the node that the last of them refers to, and the node that this is spelled as, with the number of
nodes before it. -/
inductive Refers (tree : Tree) (index : Nat) :
    List Reference → List Nat → NodeId → NodeId → Nat → NodeId → Prop
  | ends {id aliases packs target packs'} (last : tree.Aliases index aliases packs id target)
      (end' : tree.Ends index target packs')
      (near : aliases < Print.chainLimit ∨ packs ++ packs' = []) :
      Refers tree index [] (packs ++ packs') id id aliases target
  /-- Behind too many nodes a chain is not followed, whatever stands there. -/
  | beyond {id aliases target} (last : tree.Aliases index aliases [] id target)
      (far : Print.chainLimit < aliases) : Refers tree index [] [] id id aliases target
  | through {kind kinds id count packs reference pointee packs' last aliases target}
      (first : tree.Aliases index count packs id reference) (few : count ≤ Print.chainLimit)
      (held : tree.node reference = .reference kind pointee)
      (rest : Refers tree index kinds packs' pointee last aliases target) :
      Refers tree index (kind :: kinds) (packs ++ packs') id last aliases target

/-- What stands around a reference to a node, as far as a number of steps leads to it, with the sizes
of the packs that are met. -/
inductive Brackets (tree : Tree) (index : Nat) : Nat → List Nat → NodeId → String → String → Prop
  | far (id : NodeId) : Brackets tree index 0 [] id "" ""
  | node {steps id before behind} (known : (tree.node id).brackets? = some (before, behind)) :
      Brackets tree index (steps + 1) [] id before behind
  | absent {steps id run} (held : tree.node id = .parameterPack run)
      (absent : tree.element? run index = none) :
      Brackets tree index (steps + 1) [run.length] id "" ""
  | qualified {steps packs id target quals before behind} (held : tree.node id = .qualified target quals)
      (inner : Brackets tree index steps packs target before behind) :
      Brackets tree index (steps + 1) packs id before behind
  | stands {steps packs packs' id target before behind} (first : tree.Stands index id packs target)
      (inner : Brackets tree index steps packs' target before behind) :
      Brackets tree index (steps + 1) (packs ++ packs') id before behind

end Tree

/-- One lvalue reference makes all of a chain one. -/
theorem Reference.foldl_collapse (kinds : List Reference) (kind : Reference) :
    kinds.foldl Reference.collapse kind = if .lvalue ∈ kind :: kinds then .lvalue else .rvalue := by
  induction kinds generalizing kind with
  | nil => cases kind <;> rfl
  | cons inner kinds ih =>
    rw [List.foldl_cons, ih]
    cases kind <;> cases inner <;> simp [Reference.collapse]

namespace Print

variable {tree : Tree} {id target last : NodeId} {index count steps : Nat} {packs packs' : List Nat}
  {canvas after : Canvas}

theorem run_currentElement_met (run : NodeList) (canvas : Canvas) :
    (currentElement tree run).run canvas =
      .ok (tree.element? run canvas.index) (canvas.met [run.length]) := by
  obtain ⟨out, _ | pack, depth⟩ := canvas <;> rfl

/-- Behind what is no template parameter, and no pack, is the node itself. -/
theorem run_behind_itself (other : ∀ target, ¬tree.Alias id target)
    (single : ∀ run, tree.node id ≠ .parameterPack run) :
    (behindWithin tree steps id).run canvas = .ok id canvas := by
  cases steps with
  | zero => rfl
  | succ steps =>
    cases held : tree.node id with
    | templateParam target => exact absurd (.inl held) (other target)
    | parameterPack run => exact absurd held (single run)
    | forwardParam index target =>
      cases target with
      | some target => exact absurd (.inr ⟨index, held⟩) (other target)
      | none => simp only [behindWithin, Bind.bind, run_node, held, Pure.pure]
    | _ => simp only [behindWithin, Bind.bind, run_node, held, Pure.pure]

/-- A node that stands for another leaves the search to it. -/
theorem run_behind_stands (first : tree.Stands index id packs target) (here : canvas.index = index) :
    (behindWithin tree (steps + 1) id).run canvas =
      (behindWithin tree steps target).run (canvas.met packs) := by
  cases first with
  | param first => exact run_behind_alias first
  | element held found =>
    simp only [behindWithin, Bind.bind, run_node, held, run_currentElement_met, here, found]

/-- A chain of aliases leaves the search to its last node. -/
theorem run_behind_aliases (aliases : tree.Aliases index count packs id last) (few : count ≤ steps)
    (here : canvas.index = index) :
    (behindWithin tree steps id).run canvas =
      (behindWithin tree (steps - count) last).run (canvas.met packs) := by
  induction aliases generalizing steps canvas with
  | none => rfl
  | @next count id packs target packs' last first rest ih =>
    obtain ⟨steps, rfl⟩ := Nat.exists_eq_add_one_of_ne_zero (Nat.ne_zero_of_lt few)
    rw [run_behind_stands first here, ih (Nat.le_of_succ_le_succ few) (by simpa using here),
      Nat.add_sub_add_right, Canvas.met_met]

/-- Behind too many nodes no reference is found. -/
theorem run_behind_far (aliases : tree.Aliases index count packs id last) (far : steps < count)
    (none : packs = []) (here : canvas.index = index) :
    ∃ between, (behindWithin tree steps id).run canvas = .ok between canvas ∧
      ∀ kind pointee, tree.node between ≠ .reference kind pointee := by
  induction aliases generalizing steps with
  | none => exact absurd far (Nat.not_lt_zero steps)
  | next first rest ih =>
    obtain ⟨rfl, rfl⟩ := List.append_eq_nil_iff.mp none
    cases steps with
    | zero => exact ⟨_, rfl, first.node_ne⟩
    | succ steps =>
      rw [run_behind_stands first here]
      exact ih (Nat.lt_of_succ_lt_succ far) rfl

/-- The search ends at the node that ends the chain. -/
theorem run_behind_end (ends : tree.Ends index id packs) (some : 0 < steps ∨ packs = [])
    (here : canvas.index = index) :
    (behindWithin tree steps id).run canvas = .ok id (canvas.met packs) ∧
      ∀ kind pointee, tree.node id ≠ .reference kind pointee := by
  cases ends with
  | node ends =>
    refine ⟨run_behind_itself (fun _ more => more.not_endsChain ends) (fun run held => ?_),
      fun kind pointee held => ?_⟩
    · rw [held] at ends
      exact ends
    · rw [held] at ends
      exact ends
  | absent held absent =>
    obtain ⟨steps, rfl⟩ := Nat.exists_eq_add_one_of_ne_zero
      (Nat.ne_of_gt (some.resolve_right (List.cons_ne_nil _ _)))
    refine ⟨?_, fun kind pointee reference => by cases held.symm.trans reference⟩
    simp only [behindWithin, Bind.bind, run_node, held, run_currentElement_met, here, absent]
    rfl

/-- What is found at the end of a chain is no reference. -/
theorem run_behind_last (aliases : tree.Aliases index count packs id last)
    (ends : tree.Ends index last packs') (near : count < steps ∨ packs ++ packs' = [])
    (here : canvas.index = index) :
    ∃ between, (behindWithin tree steps id).run canvas = .ok between (canvas.met (packs ++ packs')) ∧
      ∀ kind pointee, tree.node between ≠ .reference kind pointee := by
  by_cases few : count ≤ steps
  · have some : 0 < steps - count ∨ packs' = [] :=
      near.imp Nat.sub_pos_of_lt fun none => (List.append_eq_nil_iff.mp none).2
    obtain ⟨found, other⟩ := run_behind_end ends some ((Canvas.index_met canvas packs).trans here)
    refine ⟨last, ?_, other⟩
    rw [run_behind_aliases aliases few here, found, Canvas.met_met]
  · have none := near.resolve_left fun more => few (Nat.le_of_lt more)
    rw [none]
    exact run_behind_far aliases (Nat.lt_of_not_le few) (List.append_eq_nil_iff.mp none).1 here

variable {kinds : List Reference} {pointee : NodeId}

/-- No more of a chain is followed once no reference is found. -/
theorem run_collapse_end (kind : Reference) {between : NodeId} {canvas after : Canvas}
    (found : (behind tree pointee).run canvas = .ok between after)
    (other : ∀ kind pointee, tree.node between ≠ .reference kind pointee) :
    (collapseWithin tree (steps + 1) kind pointee).run canvas = .ok (some (kind, pointee)) after := by
  simp only [collapseWithin, Bind.bind, found, run_node]
  rfl

/-- The reference behind another is followed next. -/
theorem run_collapse_next (kind inner : Reference) {reference : NodeId}
    (first : tree.Aliases index count packs id reference) (few : count ≤ chainLimit)
    (held : tree.node reference = .reference inner pointee) (here : canvas.index = index) :
    (collapseWithin tree (steps + 1) kind id).run canvas =
      (collapseWithin tree steps (kind.collapse inner) pointee).run (canvas.met packs) := by
  have found := run_behind_aliases first few here
  rw [run_behind_itself (fun _ more => more.node_ne _ _ held) fun run other => by
    cases held.symm.trans other] at found
  simp only [collapseWithin, Bind.bind, behind, found, run_node, held]

/-- The reference that a chain behind another comes to, if the chain is not too long. -/
theorem run_collapse (kind : Reference)
    (chain : tree.Refers index kinds packs pointee last count target) (short : kinds.length < steps)
    (here : canvas.index = index) :
    (collapseWithin tree steps kind pointee).run canvas =
      .ok (some (kinds.foldl Reference.collapse kind, last)) (canvas.met packs) := by
  induction chain generalizing steps kind canvas with
  | ends aliases ends near =>
    obtain ⟨steps, rfl⟩ := Nat.exists_eq_add_one_of_ne_zero (Nat.ne_zero_of_lt short)
    obtain ⟨between, found, other⟩ := run_behind_last aliases ends near here
    exact run_collapse_end kind found other
  | beyond aliases far =>
    obtain ⟨steps, rfl⟩ := Nat.exists_eq_add_one_of_ne_zero (Nat.ne_zero_of_lt short)
    obtain ⟨between, found, other⟩ := run_behind_far aliases far rfl here
    exact run_collapse_end kind found other
  | through first few held rest ih =>
    obtain ⟨steps, rfl⟩ := Nat.exists_eq_add_one_of_ne_zero (Nat.ne_zero_of_lt short)
    rw [run_collapse_next kind _ first few held here,
      ih _ (Nat.lt_of_succ_lt_succ short) ((Canvas.index_met _ _).trans here), Canvas.met_met]
    rfl

/-- A chain that is too long comes to nothing, with some of its packs met. -/
theorem run_collapse_long (kind : Reference)
    (chain : tree.Refers index kinds packs pointee last count target) (long : steps ≤ kinds.length) :
    ∃ near, near <+: packs ∧ ∀ canvas : Canvas, canvas.index = index →
      (collapseWithin tree steps kind pointee).run canvas = .ok none (canvas.met near) := by
  induction chain generalizing steps kind with
  | ends | beyond =>
    obtain rfl := Nat.le_zero.mp long
    exact ⟨[], List.nil_prefix, fun _ _ => rfl⟩
  | @through _ _ _ _ packs _ _ _ _ _ _ first few held rest ih =>
    cases steps with
    | zero => exact ⟨[], List.nil_prefix, fun _ _ => rfl⟩
    | succ steps =>
      obtain ⟨near, prefix', none⟩ := ih (kind.collapse _) (Nat.le_of_succ_le_succ long)
      refine ⟨packs ++ near, (List.prefix_append_right_inj packs).mpr prefix', fun canvas here => ?_⟩
      rw [run_collapse_next kind _ first few held here, none _ ((Canvas.index_met _ _).trans here),
        Canvas.met_met]

/-- A node that stands for another has the tail of that one. -/
theorem run_hasTail_stands (tail : Tail) (first : tree.Stands index id packs target)
    (here : canvas.index = index) :
    (hasTailWithin tree tail (steps + 1) id).run canvas =
      (hasTailWithin tree tail steps target).run (canvas.met packs) := by
  cases first with
  | param first => exact run_hasTail_alias tail first
  | element held found =>
    simp only [hasTailWithin, Bind.bind, run_node, held, run_currentElement_met, here, found]

/-- What stands for another node has the tail of it, as far as steps are left. -/
theorem run_hasTail_aliases (tail : Tail) (aliases : tree.Aliases index count packs id last)
    (few : count ≤ steps ∨ packs = []) (here : canvas.index = index) :
    (hasTailWithin tree tail steps id).run canvas =
      (hasTailWithin tree tail (steps - count) last).run (canvas.met packs) := by
  induction aliases generalizing steps canvas with
  | none => rfl
  | @next count id packs target packs' last first rest ih =>
    cases steps with
    | zero =>
      rw [few.resolve_left (Nat.not_succ_le_zero count), Nat.zero_sub]
      rfl
    | succ steps =>
      have few : count ≤ steps ∨ packs' = [] :=
        few.imp Nat.le_of_succ_le_succ fun none => (List.append_eq_nil_iff.mp none).2
      rw [run_hasTail_stands tail first here, ih few ((Canvas.index_met _ _).trans here),
        Nat.add_sub_add_right, Canvas.met_met]

/-- Whether a node has brackets or parameters behind it, with so many steps to look for them. -/
def hasArrayOrFunctionWithin (tree : Tree) (steps : Nat) (id : NodeId) : Print Bool := do
  if ← hasTailWithin tree .array steps id then return true else hasTailWithin tree .function steps id

def openWithin (tree : Tree) (steps : Nat) (id : NodeId) : Print Unit := do
  whenever (← hasTailWithin tree .array steps id) (write " ")
  whenever (← hasArrayOrFunctionWithin tree steps id) (write "(")

def closeWithin (tree : Tree) (steps : Nat) (id : NodeId) : Print Unit := do
  whenever (← hasArrayOrFunctionWithin tree steps id) (write ")")

def meet (packs : List Nat) : Print Unit :=
  modify (·.met packs)

def sunk (limits : SpellingLimits) : Nat → Print Unit → Print Unit
  | 0, step => step
  | levels + 1, step => deeper limits (sunk limits levels step)

end Print

section Half

open Print

variable {limits : SpellingLimits} {symbol : ByteArray} {tree : Tree} {id target last : NodeId}
  {index count levels : Nat} {packs : List Nat} {canvas after : Canvas}

/-- A half of what stands for another node is that half of the other, one level deeper. -/
theorem run_half_stands (side : Half) (first : tree.Stands index id packs target)
    (here : canvas.At index packs) :
    (renderHalf limits symbol tree (levels + 1) side id).run canvas =
      (deeper limits (renderHalf limits symbol tree levels side target)).run canvas := by
  refine run_deeper_congr ?_
  cases first with
  | param first => exact run_side_alias side first
  | @element run _ held found =>
    have element : (currentElement tree run).run { canvas with depth := canvas.depth + 1 } =
        .ok (some target) { canvas with depth := canvas.depth + 1 } := by
      have there : Canvas.At { canvas with depth := canvas.depth + 1 } index [run.length] :=
        ⟨here.index, here.met⟩
      rw [run_currentElement_met, there.index, there.met_eq, found]
    cases side with
    | left => simp only [Speller.side, Bind.bind, run_node, held, Speller.left, element, ifAny]
    | right => simp only [Speller.side, Bind.bind, run_node, held, Speller.right, element, ifAny]

/-- A half of a chain of aliases is the half of its last node, so many levels deeper. -/
theorem run_half_aliases (side : Half) (aliases : tree.Aliases index count packs id last)
    (here : canvas.At index packs) :
    (renderHalf limits symbol tree (levels + count) side id).run canvas =
      (sunk limits count (renderHalf limits symbol tree levels side last)).run canvas := by
  induction aliases generalizing canvas with
  | none => rfl
  | next first rest ih =>
    rw [← Nat.add_assoc,
      run_half_stands side first (here.fewer fun none => (List.append_eq_nil_iff.mp none).1)]
    refine run_deeper_congr (ih ?_)
    exact ⟨here.index, here.met.imp_left fun none => (List.append_eq_nil_iff.mp none).2⟩

/-! ## What a half leaves -/

/-- What was written before is never taken back. -/
def Growth.size : Growth where
  rel out next := out.size ≤ next.size
  refl _ := Nat.le_refl _
  trans := Nat.le_trans
  words out words := by
    rw [ByteArray.size_append]
    exact Nat.le_add_right _ _
  shortened := by
    intro out next grown
    rw [ByteArray.size_extract]
    omega

/-- Nothing is known of a tree, and nothing is asked of its spelling. -/
def Terms.unknown (symbol : ByteArray) : Terms symbol where
  text _ := True
  bits _ _ := True
  target _ := True
  fault _ := True
  withheld _ := False
  growth := .size
  words _ := trivial
  text_of_bits _ := trivial
  written out _ := by
    show out.size ≤ _
    rw [ByteArray.size_append]
    exact Nat.le_add_right _ _
  digits out _ _ := by
    show out.size ≤ _
    rw [ByteArray.size_append]
    exact Nat.le_add_right _ _
  waits _ := trivial
  float _ _ := trivial
  tooLong := trivial
  tooMuchRecursion := trivial

theorem Terms.lawful_unknown (symbol : ByteArray) (tree : Tree) :
    ((Terms.unknown symbol).mirror tree).Lawful :=
  Terms.lawful fun _ => ⟨fun _ _ => trivial, fun _ _ _ => trivial, fun _ _ _ => trivial⟩

/-- A step that follows itself takes back nothing, and leaves a pack that was met. -/
theorem later_of_follows {α : Type} {p : Print α} {Q : α → α → Prop}
    (follows : ((Terms.unknown symbol).mirror tree).Follows p p Q) {value : α}
    (run : p.run canvas = .ok value after) : ((Terms.unknown symbol).mirror tree).Later canvas after := by
  have outcome := (follows canvas).2
  obtain ⟨_, _, after', -, run', later, -⟩ | ⟨_, _, _, -, run', -⟩ | ⟨_, _, _, -, gone⟩ := outcome.elim
  · obtain rfl : after' = after := by
      rw [run] at run'
      cases run'
      rfl
    exact later
  · rw [run] at run'
    cases run'
  · exact gone.elim

theorem later_of_half {side : Half}
    (run : (renderHalf limits symbol tree levels side id).run canvas = .ok () after) :
    ((Terms.unknown symbol).mirror tree).Later canvas after :=
  later_of_follows ((Terms.lawful_unknown symbol tree).halves (.refl rfl limits) (Nat.le_refl _)
    (.inr rfl) side id id rfl) run

/-- A half is at the same place in a pack behind it as before it. -/
theorem Canvas.At.half {side : Half} (here : canvas.At index packs)
    (run : (renderHalf limits symbol tree levels side id).run canvas = .ok () after) :
    after.At index packs :=
  here.later (lenient_adds side _ id rfl run).1 (later_of_half run).met

theorem Canvas.At.hasTail {tail : Tail} {steps : Nat} {value : Bool} (here : canvas.At index packs)
    (run : (hasTailWithin tree tail steps id).run canvas = .ok value after) : after.At index packs := by
  obtain ⟨_, finds, -⟩ := looks_hasTailWithin canvas.index tree tail steps id
  refine here.later (finds.unique rfl run).2.index ?_
  exact (later_of_follows (.hasTailWithin (Terms.lawful_unknown .empty tree) tail steps rfl) run).met

theorem Canvas.At.whenever {holds : Bool} {words : String} (here : canvas.At index packs)
    (run : (Print.whenever holds (write words)).run canvas = .ok () after) : after.At index packs := by
  obtain rfl | rfl := of_run_whenever_write run
  · exact here
  · exact ⟨here.index, here.met⟩

/-- Closing a parenthesis leaves the packs that were met. -/
theorem Canvas.At.close {steps : Nat} (here : canvas.At index packs)
    (run : (closeWithin tree steps id).run canvas = .ok () after) : after.At index packs := by
  obtain ⟨either, between, looked, written⟩ := of_run_bind run
  refine Canvas.At.whenever ?_ written
  obtain ⟨isArray, array, first, second⟩ := of_run_bind looked
  cases isArray with
  | true =>
    cases second
    exact here.hasTail first
  | false => exact (here.hasTail first).hasTail second

/-! ## Halves of a reference -/

variable {kind : Reference} {kinds : List Reference} {pointee : NodeId} {aliases steps : Nat}

theorem run_hasArrayOrFunction_aliases (last' : tree.Aliases index count packs id last)
    (few : count ≤ steps ∨ packs = []) (here : canvas.At index packs) :
    (hasArrayOrFunctionWithin tree steps id).run canvas =
      (hasArrayOrFunctionWithin tree (steps - count) last).run canvas := by
  have tail (tail : Tail) {canvas : Canvas} (here : canvas.At index packs) :
      (hasTailWithin tree tail steps id).run canvas =
        (hasTailWithin tree tail (steps - count) last).run canvas := by
    rw [run_hasTail_aliases tail last' few here.index, here.met_eq]
  refine run_bind_congr (tail .array here) ?_
  intro isArray after run
  cases isArray with
  | true => rfl
  | false => exact tail .function (here.hasTail run)

/-- What stands before a reference to a node is what stands before one to what it is spelled as. -/
theorem run_open_aliases (last' : tree.Aliases index count packs id last)
    (few : count ≤ steps ∨ packs = []) (here : canvas.At index packs) :
    (openWithin tree steps id).run canvas = (openWithin tree (steps - count) last).run canvas := by
  refine run_bind_congr ?_ fun isArray after run => ?_
  · rw [run_hasTail_aliases .array last' few here.index, here.met_eq]
  · refine run_bind_congr rfl ?_
    intro _ after' run'
    refine run_bind_congr ?_ fun _ _ _ => rfl
    exact run_hasArrayOrFunction_aliases last' few ((here.hasTail run).whenever run')

theorem run_close_aliases (last' : tree.Aliases index count packs id last)
    (few : count ≤ steps ∨ packs = []) (here : canvas.At index packs) :
    (closeWithin tree steps id).run canvas = (closeWithin tree (steps - count) last).run canvas :=
  run_bind_congr (run_hasArrayOrFunction_aliases last' few here) fun _ _ _ => rfl

/-- The aliases before the target are few, or no pack was met. -/
theorem Tree.Refers.near (chain : tree.Refers index kinds packs id last aliases target) :
    ∃ packs', tree.Aliases index aliases packs' last target ∧ (packs = [] → packs' = []) ∧
      (aliases ≤ chainLimit ∨ packs' = []) := by
  induction chain with
  | ends last _ near =>
    refine ⟨_, last, fun none => (List.append_eq_nil_iff.mp none).1, ?_⟩
    exact near.imp Nat.le_of_lt fun none => (List.append_eq_nil_iff.mp none).1
  | beyond last far => exact ⟨_, last, fun _ => rfl, .inr rfl⟩
  | through _ _ _ _ ih =>
    obtain ⟨packs', last, none, near⟩ := ih
    exact ⟨packs', last, fun both => none (List.append_eq_nil_iff.mp both).2, near⟩

def Reference.sign (kinds : List Reference) : String :=
  if .lvalue ∈ kinds then "&" else "&&"

variable {half : Half → NodeId → Print Unit}

/-- The left half of references that collapse is the last one's with the sign of one reference. -/
theorem run_left_collapsed (held : tree.node id = .reference kind pointee)
    (chain : tree.Refers index kinds packs pointee last aliases target)
    (short : kinds.length < chainLimit) (here : canvas.index = index) :
    (Speller.side ⟨symbol, tree, half⟩ .left id).run canvas = (do
      half .left last
      Speller.openDeclarator ⟨symbol, tree, half⟩ last
      write (Reference.sign (kind :: kinds))).run (canvas.met packs) := by
  simp only [Speller.side, Bind.bind, run_node, held, Speller.left, collapse,
    run_collapse kind chain short here, Reference.foldl_collapse, Reference.sign]
  by_cases lvalue : .lvalue ∈ kind :: kinds
  · rw [if_pos lvalue, if_pos lvalue]
  · rw [if_neg lvalue, if_neg lvalue]

/-- The right half of references that collapse is the last one's behind the closing parenthesis. -/
theorem run_right_collapsed (held : tree.node id = .reference kind pointee)
    (chain : tree.Refers index kinds packs pointee last aliases target)
    (short : kinds.length < chainLimit) (here : canvas.index = index) :
    (Speller.side ⟨symbol, tree, half⟩ .right id).run canvas = (do
      closeWithin tree chainLimit last
      half .right last).run (canvas.met packs) := by
  simp only [Speller.side, Bind.bind, run_node, held, Speller.right, collapse,
    run_collapse kind chain short here]
  exact (run_bind_assoc _ _ _ _).symm

/-- The left half of a chain is that of its end, with one reference behind it. -/
theorem run_left_reference (held : tree.node id = .reference kind pointee)
    (chain : tree.Refers index kinds packs pointee last aliases target)
    (short : kinds.length < chainLimit) (here : canvas.index = index) :
    (renderHalf limits symbol tree (levels + aliases + 1) .left id).run canvas =
      (deeper limits do
        meet packs
        sunk limits aliases (renderHalf limits symbol tree levels .left target)
        openWithin tree (chainLimit - aliases) target
        write (Reference.sign (kind :: kinds))).run canvas := by
  obtain ⟨packs', more, none, few⟩ := chain.near
  have inner : Canvas.index { canvas with depth := canvas.depth + 1 } = index := here
  refine run_deeper_congr ?_
  refine (run_left_collapsed held chain short inner).trans ?_
  -- the packs of the chain are met now, and they stay met behind what the end is spelled as
  have there := Canvas.At.of_met inner packs
  refine run_bind_congr (run_half_aliases .left more (there.fewer none)) ?_
  intro _ after run
  refine run_bind_congr ?_ fun _ _ _ => rfl
  exact run_open_aliases more few ((there.half run).fewer none)

/-- The right half of a chain is that of its end. -/
theorem run_right_reference (held : tree.node id = .reference kind pointee)
    (chain : tree.Refers index kinds packs pointee last aliases target)
    (short : kinds.length < chainLimit) (here : canvas.index = index) :
    (renderHalf limits symbol tree (levels + aliases + 1) .right id).run canvas =
      (deeper limits do
        meet packs
        closeWithin tree (chainLimit - aliases) target
        sunk limits aliases (renderHalf limits symbol tree levels .right target)).run canvas := by
  obtain ⟨packs', more, none, few⟩ := chain.near
  have inner : Canvas.index { canvas with depth := canvas.depth + 1 } = index := here
  refine run_deeper_congr ?_
  refine (run_right_collapsed held chain short inner).trans ?_
  have there := Canvas.At.of_met inner packs
  refine run_bind_congr (run_close_aliases more few (there.fewer none)) ?_
  intro _ after run
  exact run_half_aliases .right more ((there.close run).fewer none)

/-- A chain that is too long is spelled as nothing, and meets some of its packs. -/
theorem run_half_long (held : tree.node id = .reference kind pointee)
    (chain : tree.Refers index kinds packs pointee last aliases target)
    (long : chainLimit ≤ kinds.length) :
    ∃ near, near <+: packs ∧ ∀ (side : Half) (canvas : Canvas), canvas.index = index →
      (renderHalf limits symbol tree (levels + 1) side id).run canvas =
        (deeper limits (meet near)).run canvas := by
  obtain ⟨near, start, none⟩ := run_collapse_long kind chain long
  refine ⟨near, start, fun side canvas here => run_deeper_congr ?_⟩
  have none := none { canvas with depth := canvas.depth + 1 } here
  cases side with
  | left => simp only [Speller.side, Bind.bind, run_node, held, Speller.left, collapse, none]; rfl
  | right => simp only [Speller.side, Bind.bind, run_node, held, Speller.right, collapse, none]; rfl

/-! ## What is written -/

/-- A chain that is not too long is spelled as something. -/
theorem size_lt_of_spell (held : tree.node id = .reference kind pointee)
    (chain : tree.Refers index kinds packs pointee last aliases target)
    (short : kinds.length < chainLimit) (here : canvas.index = index)
    (run : (Speller.spell ⟨symbol, tree, renderHalf limits symbol tree (levels + 1)⟩ id).run canvas =
      .ok () after) : canvas.out.size < after.out.size := by
  obtain ⟨_, between, left, right⟩ := of_run_bind run
  obtain ⟨inner, written, rfl⟩ := of_run_deeper left
  have nested : Canvas.index { canvas with depth := canvas.depth + 1 } = index := here
  rw [run_left_collapsed held chain short nested] at written
  obtain ⟨_, first, target, written⟩ := of_run_bind written
  obtain ⟨_, second, opened, signed⟩ := of_run_bind written
  have grows := (later_of_half target).grown
  have opens := (later_of_follows (.openDeclarator (Terms.lawful_unknown symbol tree) rfl) opened).grown
  have ends := (later_of_half right).grown
  have sign : inner.out = second.out ++ (Reference.sign (kind :: kinds)).toUTF8 := by
    cases signed
    rfl
  have some : 0 < (Reference.sign (kind :: kinds)).toUTF8.size := by
    unfold Reference.sign
    split <;> decide
  have size := congrArg ByteArray.size sign
  rw [ByteArray.size_append] at size
  simp only [Terms.mirror, Terms.unknown, Growth.size, Canvas.out_met] at grows opens ends
  omega

/-- Nothing is written for a chain that is too long. -/
theorem eq_of_spell_long (held : tree.node id = .reference kind pointee)
    (chain : tree.Refers index kinds packs pointee last aliases target)
    (long : chainLimit ≤ kinds.length) :
    ∃ near, near <+: packs ∧ ∀ canvas after : Canvas, canvas.index = index →
      (Speller.spell ⟨symbol, tree, renderHalf limits symbol tree (levels + 1)⟩ id).run canvas =
        .ok () after → after = canvas.met near := by
  obtain ⟨near, start, same⟩ := run_half_long held chain long
  have nothing {canvas after : Canvas} (side : Half) (here : canvas.index = index)
      (run : (renderHalf limits symbol tree (levels + 1) side id).run canvas = .ok () after) :
      after = canvas.met near := by
    rw [same side canvas here] at run
    obtain ⟨inner, met, rfl⟩ := of_run_deeper run
    cases met
    cases near <;> rfl
  refine ⟨near, start, fun canvas after here run => ?_⟩
  obtain ⟨_, between, left, right⟩ := of_run_bind run
  obtain rfl := nothing .left here left
  rw [nothing .right ((Canvas.index_met canvas near).trans here) right, Canvas.met_self]

/-! ## Brackets and parameters -/

theorem run_whenever_write (holds : Bool) (words : String) (canvas : Canvas) :
    (whenever holds (write words)).run canvas =
      .ok () { canvas with out := canvas.out ++ (if holds then words else "").toUTF8 } := by
  cases holds with
  | true => rfl
  | false =>
    show EStateM.Result.ok () canvas = _
    rw [show canvas.out ++ (if false = true then words else "").toUTF8 = canvas.out from
      ByteArray.append_empty]

theorem Node.brackets?_eq {node : Node} {before behind : String}
    (known : node.brackets? = some (before, behind)) :
    before = " (" ∧ behind = ")" ∨ before = "(" ∧ behind = ")" ∨ before = "" ∧ behind = "" := by
  unfold brackets? at known
  split at known
  all_goals cases known
  · exact .inl ⟨rfl, rfl⟩
  · exact .inr (.inl ⟨rfl, rfl⟩)
  · exact .inr (.inl ⟨rfl, rfl⟩)
  · exact .inr (.inr ⟨rfl, rfl⟩)

theorem Tree.Brackets.eq {before behind : String}
    (around : tree.Brackets index steps packs id before behind) :
    before = " (" ∧ behind = ")" ∨ before = "(" ∧ behind = ")" ∨ before = "" ∧ behind = "" := by
  induction around with
  | far | absent => exact .inr (.inr ⟨rfl, rfl⟩)
  | node known => exact Node.brackets?_eq known
  | qualified _ _ ih | stands _ _ ih => exact ih

/-- Which tail a node has that is itself what stands around a reference to it. -/
theorem run_hasTail_node {before behind : String}
    (known : (tree.node id).brackets? = some (before, behind)) (canvas : Canvas) :
    (hasTailWithin tree .array (steps + 1) id).run canvas = .ok (before == " (") canvas ∧
      (hasTailWithin tree .function (steps + 1) id).run canvas = .ok (before == "(") canvas := by
  cases held : tree.node id with
  | qualified _ _ | templateParam _ | parameterPack _ =>
    rw [held] at known
    cases known
  | forwardParam index target =>
    cases target with
    | some target =>
      rw [held] at known
      cases known
    | none =>
      rw [held] at known
      cases known
      simp only [hasTailWithin, Bind.bind, run_node, held]
      exact ⟨rfl, rfl⟩
  | _ =>
    rw [held] at known
    cases known
    simp only [hasTailWithin, Bind.bind, run_node, held]
    exact ⟨rfl, rfl⟩

/-- Which tail a node has, from what stands around a reference to it. -/
theorem run_hasTail_of_brackets {before behind : String}
    (around : tree.Brackets index steps packs id before behind) (here : canvas.index = index) :
    (hasTailWithin tree .array steps id).run canvas = .ok (before == " (") (canvas.met packs) ∧
      (hasTailWithin tree .function steps id).run canvas =
        .ok (before == "(") (canvas.met packs) := by
  induction around generalizing canvas with
  | far => exact ⟨rfl, rfl⟩
  | node known => exact run_hasTail_node known canvas
  | absent held absent =>
    simp only [hasTailWithin, Bind.bind, run_node, held, run_currentElement_met, here, absent]
    exact ⟨rfl, rfl⟩
  | qualified held inner ih =>
    simp only [hasTailWithin, Bind.bind, run_node, held]
    exact ih here
  | stands first inner ih =>
    rw [run_hasTail_stands .array first here, run_hasTail_stands .function first here,
      ← Canvas.met_met]
    exact ih ((Canvas.index_met _ _).trans here)

theorem run_hasArrayOrFunction_of_brackets {before behind : String}
    (around : tree.Brackets index steps packs id before behind) (here : canvas.index = index) :
    (hasArrayOrFunctionWithin tree steps id).run canvas =
      .ok (before == " (" || before == "(") (canvas.met packs) := by
  have there := (Canvas.index_met canvas packs).trans here
  refine (run_bind_of (run_hasTail_of_brackets around here).1 _).trans ?_
  cases before == " (" with
  | true => rfl
  | false =>
    have function := (run_hasTail_of_brackets around there).2
    rw [Canvas.met_self] at function
    exact function

/-- What stands around a reference to a node is written where steps are left to find it. -/
theorem run_openWithin {before behind : String}
    (around : tree.Brackets index steps packs id before behind) (here : canvas.index = index) :
    (openWithin tree steps id).run canvas =
        .ok () { canvas.met packs with out := canvas.out ++ before.toUTF8 } ∧
      (closeWithin tree steps id).run canvas =
        .ok () { canvas.met packs with out := canvas.out ++ behind.toUTF8 } := by
  have there := Canvas.At.of_met here packs
  have opened : (openWithin tree steps id).run canvas =
      .ok () { canvas.met packs with
        out := canvas.out ++ (if before == " (" then " " else "").toUTF8 ++
          (if before == " (" || before == "(" then "(" else "").toUTF8 } := by
    have spaced : (Canvas.At { canvas.met packs with
        out := canvas.out ++ (if before == " (" then " " else "").toUTF8 } index packs) :=
      ⟨there.index, there.met⟩
    refine (run_bind_of (run_hasTail_of_brackets around here).1 _).trans ?_
    refine (run_bind_of (run_whenever_write _ _ _) _).trans ?_
    rw [Canvas.out_met]
    refine (run_bind_of (run_hasArrayOrFunction_of_brackets around spaced.index) _).trans ?_
    rw [spaced.met_eq]
    exact run_whenever_write _ _ _
  have closed : (closeWithin tree steps id).run canvas =
      .ok () { canvas.met packs with
        out := canvas.out ++ (if before == " (" || before == "(" then ")" else "").toUTF8 } := by
    refine (run_bind_of (run_hasArrayOrFunction_of_brackets around here) _).trans ?_
    rw [run_whenever_write, Canvas.out_met]
  rw [opened, closed, ByteArray.append_assoc]
  obtain ⟨rfl, rfl⟩ | ⟨rfl, rfl⟩ | ⟨rfl, rfl⟩ := around.eq
  · exact ⟨rfl, rfl⟩
  · exact ⟨rfl, rfl⟩
  · exact ⟨rfl, rfl⟩

/-! ## All of a chain -/

/-- A chain of references that is not too long is spelled as its end, with the parenthesis that an
array or a function needs, and one reference, which is an lvalue reference if any of the chain is.
It is never spelled as nothing. A chain that is too long is. -/
theorem renderHalf_reference (limits : SpellingLimits) (symbol : ByteArray) (levels : Nat)
    (held : tree.node id = .reference kind pointee)
    (chain : tree.Refers index kinds packs pointee last aliases target) :
    (kinds.length < chainLimit → ∀ canvas : Canvas, canvas.index = index →
      (renderHalf limits symbol tree (levels + aliases + 1) .left id).run canvas =
        (deeper limits do
          meet packs
          sunk limits aliases (renderHalf limits symbol tree levels .left target)
          openWithin tree (chainLimit - aliases) target
          write (if .lvalue ∈ kind :: kinds then "&" else "&&")).run canvas ∧
      (renderHalf limits symbol tree (levels + aliases + 1) .right id).run canvas =
        (deeper limits do
          meet packs
          closeWithin tree (chainLimit - aliases) target
          sunk limits aliases (renderHalf limits symbol tree levels .right target)).run canvas ∧
      (∀ packs before behind, tree.Brackets index (chainLimit - aliases) packs target before behind →
        (openWithin tree (chainLimit - aliases) target).run canvas =
            .ok () { canvas.met packs with out := canvas.out ++ before.toUTF8 } ∧
          (closeWithin tree (chainLimit - aliases) target).run canvas =
            .ok () { canvas.met packs with out := canvas.out ++ behind.toUTF8 }) ∧
      ∀ after, (Speller.spell ⟨symbol, tree, renderHalf limits symbol tree (levels + 1)⟩ id).run canvas =
        .ok () after → canvas.out.size < after.out.size) ∧
    (chainLimit ≤ kinds.length → ∃ near, near <+: packs ∧
      ∀ canvas after : Canvas, canvas.index = index →
        (Speller.spell ⟨symbol, tree, renderHalf limits symbol tree (levels + 1)⟩ id).run canvas =
          .ok () after → after = canvas.met near) := by
  refine ⟨fun short canvas here => ⟨?_, ?_, ?_, ?_⟩, fun long => ?_⟩
  · exact run_left_reference held chain short here
  · exact run_right_reference held chain short here
  · intro packs before behind around
    exact run_openWithin around here
  · intro after run
    exact size_lt_of_spell held chain short here run
  · exact eq_of_spell_long held chain long

/-- A reference to an element of a pack, which is an lvalue reference, is spelled as that. -/
theorem renderHalf_reference_to_int :
    let tree : Tree := { last := #[.name (.literal "int"), .reference .lvalue ⟨0, 0⟩,
      .parameterPack ⟨0, 1⟩, .reference .rvalue ⟨2, 0⟩], lists := #[⟨1, 0⟩], size := 4 }
    (renderHalf ⟨8, 8⟩ .empty tree 3 .left ⟨3, 0⟩).run {} =
      (deeper ⟨8, 8⟩ do
        meet [1]
        sunk ⟨8, 8⟩ 0 (renderHalf ⟨8, 8⟩ .empty tree 2 .left ⟨0, 0⟩)
        openWithin tree (chainLimit - 0) ⟨0, 0⟩
        write "&").run {} := by
  intro tree
  have pack : tree.node ⟨2, 0⟩ = .parameterPack ⟨0, 1⟩ := rfl
  have inner : tree.node ⟨1, 0⟩ = .reference .lvalue ⟨0, 0⟩ := rfl
  have element : tree.Aliases 0 1 ([1] ++ []) ⟨2, 0⟩ ⟨1, 0⟩ := .next (.element pack rfl) (.none _)
  have chain : tree.Refers 0 [.lvalue] ([1] ++ [] ++ ([] ++ [])) ⟨2, 0⟩ ⟨0, 0⟩ 0 ⟨0, 0⟩ :=
    .through element (by decide) inner (.ends (.none _) (.node trivial) (.inl (by decide)))
  have outer : tree.node ⟨3, 0⟩ = .reference .rvalue ⟨2, 0⟩ := rfl
  exact ((renderHalf_reference ⟨8, 8⟩ .empty 2 outer chain).1 (by decide) {} rfl).1

end Half

/-- A reference to a chain of a hundred and twenty-eight is spelled as nothing, and its parameter
is not listed. -/
theorem Engine.demangle_long_chain :
    (Engine.demangle {} ("_Z1f" ++ String.ofList (List.replicate 100 'R') ++ "i" ++
        String.ofList (List.replicate 28 'R') ++ "S2Q_")).1.toOption = some "f(int&, int&)" ∧
      (Engine.demangle {} ("_Z1f" ++ String.ofList (List.replicate 100 'R') ++ "i" ++
        String.ofList (List.replicate 29 'R') ++ "S2Q_")).1.toOption = some "f(int&)" := by
  decide +kernel

end Unmangle
