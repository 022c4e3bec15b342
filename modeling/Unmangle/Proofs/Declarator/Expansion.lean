import Unmangle.Proofs.Declarator.Signature
import Unmangle.Proofs.Store.Contents

/-!
# Spelling the expansion of a pattern

The first element is met while no pack is being expanded, and what meets it goes on as if its pack
had been expanded before. Every later element is set before the pattern is spelled again.
-/
namespace Unmangle

open Print

/-- What is expanded for each element of a pack: its parameter, behind pointers and references. -/
inductive Pattern
  | param
  | pointer (target : Pattern)
  | reference (kind : Reference) (target : Pattern)
  deriving Repr

def Pattern.form : Pattern → TypeForm
  | param => .param 0
  | pointer target => .pointer target.form
  | reference kind target => .reference kind target.form

/-- The name stands for a pattern over the name of its parameter. -/
inductive Pattern.Leads (tree : Tree) (param : NodeId) : Pattern → NodeId → Prop
  | param : Leads tree param .param param
  | pointer {target id inner} (held : tree.get? id = some (.pointer inner))
      (leads : Leads tree param target inner) : Leads tree param (.pointer target) id
  | reference {kind target id inner} (held : tree.get? id = some (.reference kind inner))
      (leads : Leads tree param target inner) : Leads tree param (.reference kind target) id

/-- A pattern that refers to an argument stands over a parameter that leads to it. -/
theorem Pattern.leads {symbol : ByteArray} {tree : Tree} {scope : Nat → Option NodeId}
    {pattern : Pattern} {id entry : NodeId} (stored : pattern.form.Stored symbol tree scope id)
    (found : scope 0 = some entry) :
    ∃ param, tree.get? param = some (.templateParam entry) ∧ pattern.Leads tree param id := by
  induction pattern generalizing id with
  | param =>
    cases stored with
    | param held found' =>
      cases found.symm.trans found'
      exact ⟨id, held, .param⟩
  | pointer target ih =>
    cases stored with
    | pointer held stored =>
      obtain ⟨param, held', leads⟩ := ih stored
      exact ⟨param, held', .pointer held leads⟩
  | reference kind target ih =>
    cases stored with
    | reference held stored =>
      obtain ⟨param, held', leads⟩ := ih stored
      exact ⟨param, held', .reference held leads⟩

theorem Tree.Lists.length {tree : Tree} {run : NodeList} {ids : List NodeId}
    (h : tree.Lists run ids) : run.length = ids.length := by
  have kept := h.kept
  rw [← h.listed, Array.length_toList, Store.list, Array.size_extract]
  omega

namespace Print

section Settles

variable {α β : Type}

/-- Two runs end in the same way, or fail for the same reason. -/
inductive Alike : EStateM.Result Fault Canvas α → EStateM.Result Fault Canvas α → Prop
  | same (result) : Alike result result
  | failed (fault canvas canvas') : Alike (.error fault canvas) (.error fault canvas')

/-- A step that finds no pack being expanded and meets this one first goes on as if it had been
expanded before. -/
def Settles (pack : Pack) (p : Print α) : Prop :=
  ∀ canvas : Canvas, canvas.pack = none →
    Alike (p.run canvas) (p.run { canvas with pack := some pack })

namespace Settles

variable {pack : Pack} {p : Print α}

theorem grants (h : Settles pack p) {room : Prop} {canvas : Canvas} {Q : α → Canvas → Prop}
    (none : canvas.pack = none) (granted : Grants room p { canvas with pack := some pack } Q) :
    Grants room p canvas Q := by
  have alike := h canvas none
  unfold Grants at granted ⊢
  generalize p.run canvas = result at alike
  generalize p.run { canvas with pack := some pack } = result' at alike granted
  cases alike with
  | same => exact granted
  | failed fault canvas canvas' =>
    cases granted with
    | withheld full limit => exact .withheld full limit

/-- The first step settles the pack for those behind it. -/
theorem bind (h : Settles pack p) (f : α → Print β) : Settles pack (p >>= f) := by
  intro canvas none
  have alike := h canvas none
  simp only [Bind.bind]
  generalize p.run canvas = result at alike
  generalize p.run { canvas with pack := some pack } = result' at alike
  cases alike with
  | same => exact .same _
  | failed fault canvas canvas' => exact .failed fault canvas canvas'

/-- A step that only looks does not meet the pack. -/
theorem after {look : Print α} {f : α → Print β} {a : α}
    (run : ∀ canvas : Canvas, look.run canvas = .ok a canvas) (h : Settles pack (f a)) :
    Settles pack (look >>= f) := by
  intro canvas none
  simp only [Bind.bind, run]
  exact h canvas none

theorem nested {p : Print Unit} (h : Settles pack p) : Settles pack (Print.nested p) := by
  intro canvas none
  have alike := h { canvas with depth := canvas.depth + 1 } none
  simp only [Print.nested]
  generalize p.run { canvas with depth := canvas.depth + 1 } = result at alike
  generalize p.run { canvas with pack := some pack, depth := canvas.depth + 1 } = result' at alike
  cases alike with
  | same => exact .same _
  | failed fault canvas canvas' => exact .failed fault _ _

theorem deeper {limits : SpellingLimits} {p : Print Unit} (h : Settles pack p) :
    Settles pack (p.deeper limits) := by
  intro canvas none
  rw [run_deeper_eq, run_deeper_eq]
  split
  · exact .failed _ _ _
  · split
    · exact .failed _ _ _
    · exact h.nested canvas none

/-- The first pack decides how many elements an expansion has. -/
theorem currentElement (tree : Tree) (run : NodeList) :
    Settles ⟨0, run.length⟩ (Print.currentElement tree run) := by
  refine bind (fun canvas none => ?_) _
  obtain ⟨out, pack, depth⟩ := canvas
  cases none
  exact .same _

end Settles

end Settles

section Elements

variable {symbol : ByteArray} {tree : Tree} {limits : SpellingLimits} {levels : Nat}
  {scope : Nat → Option NodeId} {entry id : NodeId} {run : NodeList} {pattern : Pattern}

/-- What is behind a parameter is an element of its pack. -/
theorem settles_behind {param : NodeId} (held : tree.get? param = some (.templateParam entry))
    (held' : tree.get? entry = some (.parameterPack run)) :
    Settles ⟨0, run.length⟩ (Print.behind tree param) := by
  have inner (steps : Nat) : Settles ⟨0, run.length⟩ (behindWithin tree (steps + 1) entry) := by
    refine .after (a := .parameterPack run) (fun canvas => ?_)
      ((Settles.currentElement tree run).bind _)
    rw [← Tree.node_of_get? held']
    rfl
  refine .after (a := .templateParam entry) (fun canvas => ?_) (inner _)
  rw [← Tree.node_of_get? held]
  rfl

/-- The left half of a pattern meets the pack before anything depends on it. -/
theorem settles_left (stored : pattern.form.Stored symbol tree scope id)
    (flat : pattern.form.Every TypeForm.Flat) (found : scope 0 = some entry)
    (held : tree.get? entry = some (.parameterPack run)) (levels : Nat) :
    Settles ⟨0, run.length⟩ (renderHalf limits symbol tree levels .left id) := by
  have half {id : NodeId} {node : Node} (held : tree.get? id = some node) (levels : Nat)
      (h : ∀ levels, Settles ⟨0, run.length⟩ ((Speller.within limits symbol tree levels).left node)) :
      Settles ⟨0, run.length⟩ (renderHalf limits symbol tree levels .left id) := by
    cases levels with
    | zero => exact .deeper fun canvas _ => .failed _ _ _
    | succ levels =>
      refine .deeper (.after (a := node) (fun canvas => ?_) (h levels))
      rw [← Tree.node_of_get? held]
      rfl
  have opened (levels : Nat) :
      Settles ⟨0, run.length⟩ (renderHalf limits symbol tree levels .left entry) :=
    half held levels fun levels => (Settles.currentElement tree run).bind _
  induction pattern generalizing id levels with
  | param =>
    cases stored with
    | param held' found' =>
      cases found.symm.trans found'
      exact half held' levels fun levels => opened levels
  | pointer target ih =>
    cases stored with
    | pointer held' stored =>
      exact half held' levels fun levels =>
        (ih stored (TypeForm.every_pointer.mp flat).2 levels).bind _
  | reference kind target ih =>
    cases stored with
    | reference held' stored =>
      obtain ⟨apart, flat⟩ := TypeForm.every_reference.mp flat
      refine half held' levels ?_
      intro levels
      cases target with
      | param =>
        cases stored with
        | param held'' found' =>
          cases found.symm.trans found'
          exact ((settles_behind held'' held).bind _).bind _
      | pointer target =>
        cases stored with
        | pointer held'' stored =>
          refine .after (a := some (kind, _)) (fun canvas => ?_)
            ((ih (.pointer held'' stored) flat levels).bind _)
          refine collapse_other kind (behind_itself held'' trivial _) ?_
          rw [Tree.node_of_get? held'']
          rfl
      | reference kind target => cases apart

end Elements

end Print

section Packs

variable {symbol : ByteArray} {tree : Tree} {limits : SpellingLimits} {levels : Nat} {room : Prop}
  {scope : Nat → Option NodeId} {entry id element : NodeId} {run : NodeList} {pattern : Pattern}
  {pack : Pack} {canvas : Canvas} {tails links need : Nat} {spelling : Spelling}

theorem run_currentElement (packed : canvas.pack = some pack) :
    (currentElement tree run).run canvas = .ok (tree.element? run pack.index) canvas := by
  simp only [currentElement, currentIndex, Bind.bind, MonadState.get, getThe, MonadStateOf.get,
    packed]
  rfl

/-- A pack shows its element. -/
theorem Shows.parameterPack {halves : Halves} (held : tree.get? id = some (.parameterPack run))
    (found : tree.element? run pack.index = some element)
    (h : Shows symbol tree (some pack) tails need halves element) (deep : 1 ≤ need) :
    Shows symbol tree (some pack) (tails + 1) (need + 1) halves id where
  left := by
    intro room limits levels canvas packed spent fits
    refine Writes.left held spent deep fits ?_
    intro levels spent
    refine Writes.after (run_currentElement packed) ?_
    rw [found]
    exact h.left packed spent fun enough => (fits enough).deeper
  right := by
    intro room limits levels canvas packed spent fits
    refine Writes.right held spent deep fits ?_
    intro levels spent
    refine Writes.after (run_currentElement packed) ?_
    rw [found]
    exact h.right packed spent fun enough => (fits enough).deeper
  tail := by
    intro tail steps canvas packed other near
    obtain ⟨steps, rfl⟩ := Nat.exists_eq_add_of_le' (Nat.le_trans (Nat.le_add_left 1 _) near)
    simp only [hasTailWithin, Bind.bind, Print.node, Tree.node_of_get? held,
      run_currentElement packed, found]
    exact h.tail packed other (Nat.le_of_succ_le_succ near)
  any := by
    intro steps canvas packed near
    obtain ⟨steps, rfl⟩ := Nat.exists_eq_add_of_le' (Nat.le_trans deep (Nat.le_of_succ_le_succ near))
    simp only [hasTailWithin, Bind.bind, Print.node, Tree.node_of_get? held,
      run_currentElement packed, found]
    exact h.any packed (Nat.le_of_succ_le_succ near)

/-- A pack is shown as the element that stands for it. -/
theorem Shown.parameterPack (held : tree.get? id = some (.parameterPack run))
    (found : tree.element? run pack.index = some element)
    (h : Shown symbol tree (some pack) tails links need spelling element)
    (near : tails + 1 ≤ chainLimit) (near' : links + 1 ≤ chainLimit) (deep : 1 ≤ need) :
    Shown symbol tree (some pack) (tails + 1) (links + 1) (need + 1) spelling id := by
  refine h.led (.parameterPack held found h.shows deep) near near' ?_
  intro steps canvas packed
  simp only [behindWithin, Bind.bind, Print.node, Tree.node_of_get? held,
    run_currentElement packed, found]

/-- A pack shows nothing where it has no element. -/
theorem Shows.absent (held : tree.get? id = some (.parameterPack run))
    (absent : tree.element? run pack.index = none) :
    Shows symbol tree (some pack) 1 2 (.leaf "") id where
  left := by
    intro room limits levels canvas packed spent fits
    refine Writes.left held spent (Nat.le_refl 1) fits ?_
    intro levels spent
    refine Writes.after (run_currentElement packed) ?_
    rw [absent]
    exact Writes.nothing
  right := by
    intro room limits levels canvas packed spent fits
    refine Writes.right held spent (Nat.le_refl 1) fits ?_
    intro levels spent
    refine Writes.after (run_currentElement packed) ?_
    rw [absent]
    exact Writes.nothing
  tail := by
    intro tail steps canvas packed other near
    obtain ⟨steps, rfl⟩ := Nat.exists_eq_add_of_le' near
    simp only [hasTailWithin, Bind.bind, Print.node, Tree.node_of_get? held,
      run_currentElement packed, absent]
    rfl
  any := by
    intro steps canvas packed near
    obtain ⟨steps, rfl⟩ := Nat.exists_eq_add_of_le' (Nat.le_of_succ_le_succ near)
    simp only [hasTailWithin, Bind.bind, Print.node, Tree.node_of_get? held,
      run_currentElement packed, absent]
    rfl

/-- A pack without the element that is asked for shows nothing. -/
theorem Shown.absent (held : tree.get? id = some (.parameterPack run))
    (absent : tree.element? run pack.index = none) :
    Shown symbol tree (some pack) 1 1 2 (.plain (.leaf "")) id := by
  have other : (tree.node id).isReference = false := by
    rw [Tree.node_of_get? held]
    rfl
  have itself {steps : Nat} {canvas : Canvas} (packed : canvas.pack = some pack) :
      (behindWithin tree (steps + 1) id).run canvas = .ok id canvas := by
    simp only [behindWithin, Bind.bind, Print.node, Tree.node_of_get? held,
      run_currentElement packed, absent]
    rfl
  refine ⟨.absent held absent, by decide, ⟨id, other, fun {steps canvas} packed one => ?_⟩,
    fun kind {steps canvas} packed one => ⟨id, ?_, (Shows.absent held absent).weaken (by decide)
      (Nat.le_refl 2)⟩⟩
  · obtain ⟨steps, rfl⟩ := Nat.exists_eq_add_of_le' one
    exact itself packed
  · obtain ⟨steps, rfl⟩ := Nat.exists_eq_add_of_le' one
    exact collapse_other kind (itself packed) other

/-- A pattern shows what its parameter shows behind its pointers and references. -/
theorem Pattern.Leads.shown {pack : Option Pack} {param : NodeId} (leads : pattern.Leads tree param id)
    (flat : pattern.form.Every TypeForm.Flat)
    (h : Shown symbol tree pack tails links need spelling param) (near : links ≤ chainLimit)
    (deep : 1 ≤ need) :
    ∃ tails' links' need', 1 ≤ need' ∧
      (pattern.form.isReference = false → links' ≤ chainLimit) ∧
      Shown symbol tree pack tails' links' need' (pattern.form.spelling fun _ => spelling) id := by
  induction leads with
  | param =>
    rw [Pattern.form, TypeForm.spelling]
    exact ⟨_, _, _, deep, fun _ => near, h⟩
  | pointer held leads ih =>
    obtain ⟨tails', links', need', deep', -, shown⟩ := ih (TypeForm.every_pointer.mp flat).2
    rw [Pattern.form, TypeForm.spelling]
    exact ⟨1, 1, _, Nat.le_add_left 1 need', fun _ => by decide,
      .plain held trivial rfl (.pointer held shown.shows shown.near deep') (by decide)⟩
  | reference held leads ih =>
    obtain ⟨apart, flat⟩ := TypeForm.every_reference.mp flat
    obtain ⟨tails', links', need', deep', short, shown⟩ := ih flat
    rw [Pattern.form, TypeForm.spelling]
    exact ⟨_, _, _, Nat.le_add_left 1 need', fun other => (Bool.false_ne_true other.symm).elim,
      .reference held shown (short apart) deep'⟩

/-- A pattern shows what its argument comes to behind its pointers and references. -/
theorem Pattern.shown {pack : Option Pack} (stored : pattern.form.Stored symbol tree scope id)
    (flat : pattern.form.Every TypeForm.Flat) (found : scope 0 = some entry)
    (h : Shown symbol tree pack tails links need spelling entry) (near : tails + 1 ≤ chainLimit)
    (near' : links + 1 ≤ chainLimit) (deep : 1 ≤ need) :
    ∃ tails' links' need', 1 ≤ need' ∧
      (pattern.form.isReference = false → links' ≤ chainLimit) ∧
      Shown symbol tree pack tails' links' need' (pattern.form.spelling fun _ => spelling) id := by
  obtain ⟨param, held, leads⟩ := Pattern.leads stored found
  exact leads.shown flat (.aliased (.inl (Tree.node_of_get? held)) h near near' deep) near'
    (Nat.le_add_left 1 need)

section Expand

variable {size : Nat} {words : Nat → String}

/-- A speller writes the words of an element whenever that is the one being expanded. -/
def WritesElement (room : Prop) (limits : SpellingLimits) (symbol : ByteArray) (tree : Tree)
    (id : NodeId) (pack : Pack) (words : String) : Prop :=
  ∀ ⦃levels : Nat⦄ ⦃canvas : Canvas⦄, canvas.pack = some pack →
    canvas.depth + levels = limits.maxDepth →
    Writes room words ((Speller.within limits symbol tree levels).spell id) canvas

/-- The elements behind the first, each with a comma in front. -/
theorem grants_laterElements (words : Nat → String) {indices : List Nat}
    (each : ∀ index ∈ indices,
      WritesElement room limits symbol tree id ⟨index, size⟩ (words index))
    (spent : canvas.depth + levels = limits.maxDepth) :
    Grants room ((Speller.within limits symbol tree levels).laterElements id size indices) canvas
      fun _ after => ∃ pack, after = { canvas.add (commas (indices.map words)) with pack := pack } := by
  induction indices generalizing canvas with
  | nil =>
    rw [List.map_nil, commas, Canvas.add_empty]
    exact Grants.pure ⟨canvas.pack, rfl⟩
  | cons index indices ih =>
    apply Grants.bind
    apply Grants.weaken (Writes.wording ", ")
    intro _ _ same
    rw [same]
    apply Grants.bind
    refine Grants.known rfl ?_
    apply Grants.bind
    refine Grants.weaken (each index List.mem_cons_self rfl spent) ?_
    intro _ _ same
    rw [same]
    refine Grants.weaken
      (ih (fun index member => each index (List.mem_cons_of_mem _ member)) spent) ?_
    intro _ after found
    obtain ⟨pack, rfl⟩ := found
    refine ⟨pack, ?_⟩
    rw [List.map_cons, commas, Canvas.add_append, Canvas.add_append]
    rfl

/-- An expansion is written as its elements with commas between them, and an empty one as
nothing. -/
theorem writes_expand (settles : ∀ levels,
      Settles ⟨0, size⟩ (renderHalf limits symbol tree levels .left id))
    (each : ∀ index < size, WritesElement room limits symbol tree id ⟨index, size⟩ (words index))
    (absent : size = 0 → ∀ canvas : Canvas, canvas.pack = some ⟨0, size⟩ →
      canvas.depth + levels = limits.maxDepth → ∃ words,
        Writes room words ((Speller.within limits symbol tree levels).spell id) canvas)
    (packed : canvas.pack = none) (spent : canvas.depth + levels = limits.maxDepth) :
    Writes room (", ".intercalate ((List.range size).map words))
      ((Speller.within limits symbol tree levels).expand id) canvas := by
  have once : Grants room ((Speller.within limits symbol tree levels).expandOnce id) canvas
      fun _ after => ∃ pack, after =
        { canvas.add (", ".intercalate ((List.range size).map words)) with pack := pack } := by
    apply Grants.bind
    refine Grants.known rfl ?_
    apply Grants.bind
    refine ((settles levels).bind _).grants packed ?_
    cases size with
    | zero =>
      obtain ⟨words', written⟩ := absent rfl { canvas with pack := some ⟨0, 0⟩ } rfl spent
      refine Grants.weaken written ?_
      intro _ after same
      rw [same]
      refine Grants.bind (Grants.known rfl ?_)
      refine Grants.known rfl ⟨some ⟨0, 0⟩, ?_⟩
      have back : (canvas.out ++ words'.toUTF8).extract 0 canvas.out.size = canvas.out :=
        ByteArray.extract_append_eq_left rfl
      show { canvas with
          pack := some ⟨0, 0⟩
          out := (canvas.out ++ words'.toUTF8).extract 0 canvas.out.size } =
        Canvas.add { canvas with pack := some ⟨0, 0⟩ } ""
      rw [back, Canvas.add_empty]
    | succ size =>
      refine Grants.weaken (each 0 (Nat.succ_pos size) rfl spent) ?_
      intro _ after same
      rw [same]
      refine Grants.bind (Grants.known rfl ?_)
      refine Grants.weaken (grants_laterElements words (fun index member => ?_) spent)
        fun _ after found => ?_
      · rw [List.mem_range'_1] at member
        have below : index < 1 + size := member.2
        exact each index (by omega)
      · obtain ⟨pack, rfl⟩ := found
        refine ⟨pack, ?_⟩
        rw [List.range_eq_range', List.range'_succ, List.map_cons, intercalate_commas,
          Canvas.add_append]
        rfl
  have same : { canvas with pack := none } = canvas := by
    obtain ⟨out, pack, depth⟩ := canvas
    cases packed
    rfl
  unfold Writes Grants
  simp only [Speller.expand, same]
  obtain ⟨_, after, run, pack, rfl⟩ | ⟨fault, after, run, full, limit⟩ := once.elim
  · simp only [run]
    refine .given ?_
    simp only [Canvas.add, packed]
  · simp only [run]
    exact .withheld full limit

end Expand

section Lists

variable {speller : Speller} {rest : List NodeId} {isFirst : Bool} {comma tail : String}

theorem commas_append (texts texts' : List String) :
    commas (texts ++ texts') = commas texts ++ commas texts' := by
  induction texts with
  | nil => rw [List.nil_append, commas, String.empty_append]
  | cons words texts ih =>
    rw [List.cons_append, commas, commas, ih]
    simp only [String.append_assoc]

/-- A name that writes nothing leaves no comma behind. -/
theorem separated_skipped (apart : comma = if !isFirst then ", " else "")
    (spelled : Writes room "" (speller.spell id) (canvas.add comma))
    (next : Writes room tail (speller.separated isFirst rest) canvas) :
    Writes room tail (speller.separated isFirst (id :: rest)) canvas := by
  rw [apart] at spelled
  refine Writes.after (a := canvas.out.size) rfl ?_
  apply Grants.bind
  apply Grants.weaken (Writes.whenever _ ", ")
  intro _ after same
  subst same
  apply Grants.bind
  refine Grants.known rfl ?_
  apply Grants.bind
  apply Grants.weaken spelled
  intro _ after same
  rw [Canvas.add_empty] at same
  subst same
  refine Grants.bind (Grants.known rfl ?_)
  rw [if_pos rfl]
  have back : (canvas.out ++ (if !isFirst then ", " else "").toUTF8).extract 0 canvas.out.size =
      canvas.out := ByteArray.extract_append_eq_left rfl
  have cut : (truncate canvas.out.size).run (canvas.add (if !isFirst then ", " else "")) =
      .ok () canvas := by
    show EStateM.Result.ok () { canvas with out := _ } = _
    simp only [Canvas.add, back]
  exact Grants.bind (Grants.known cut next)

/-- A name writes some texts with commas between them. -/
def WritesTexts (room : Prop) (limits : SpellingLimits) (symbol : ByteArray) (tree : Tree)
    (texts : List String) (id : NodeId) : Prop :=
  ∀ ⦃levels : Nat⦄ ⦃canvas : Canvas⦄, canvas.pack = none →
    canvas.depth + levels = limits.maxDepth →
    Writes room (", ".intercalate texts) ((Speller.within limits symbol tree levels).spell id) canvas

/-- A list of names writes all their texts, with commas between them. -/
theorem writes_texts {texts : List (List String)} {ids : List NodeId}
    (each : List.Forall₂ (fun texts id => (∀ words ∈ texts, words ≠ "") ∧
      WritesTexts room limits symbol tree texts id) texts ids) (isFirst : Bool)
    (packed : canvas.pack = none) (spent : canvas.depth + levels = limits.maxDepth) :
    Writes room (if isFirst then ", ".intercalate texts.flatten else commas texts.flatten)
      ((Speller.within limits symbol tree levels).separated isFirst ids) canvas := by
  induction each generalizing isFirst canvas with
  | nil => cases isFirst <;> exact Writes.nothing
  | @cons texts id others ids first rest ih =>
    obtain ⟨some, written⟩ := first
    cases texts with
    | nil =>
      rw [List.flatten_cons, List.nil_append]
      exact separated_skipped rfl (written packed spent) (ih isFirst packed spent)
    | cons words texts =>
      have shows : ", ".intercalate (words :: texts) ≠ "" := by
        rw [intercalate_commas]
        exact fun nothing =>
          some words List.mem_cons_self (String.append_eq_empty_iff.mp nothing).1
      have later : Writes room ((if !isFirst then ", " else "") ++
          (", ".intercalate (words :: texts) ++ commas others.flatten))
          ((Speller.within limits symbol tree levels).separated isFirst (id :: ids)) canvas :=
        Component.separated rfl shows (written packed spent) (ih false packed spent)
      rw [intercalate_commas, String.append_assoc, ← commas_append] at later
      rw [List.flatten_cons, List.cons_append, intercalate_commas, commas]
      cases isFirst with
      | true =>
        rwa [Bool.not_true, if_neg Bool.false_ne_true, String.empty_append] at later
      | false => exact later

end Lists

end Packs
end Unmangle
