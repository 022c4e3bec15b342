import Unmangle.Proofs.Declarator.Shown

/-!
# Forms in a tree

What a name must hold to stand for a form whose parameters have arguments in scope. Nothing of
it is lost when the tree grows, and a name that stands for a form shows what the form is
spelled as.
-/
namespace Unmangle

/-- Whatever is stored in one tree is stored in the other, and lists are only added. -/
structure Tree.Grows (tree tree' : Tree) : Prop where
  extend : tree.Extends tree'
  lists : ∃ more, tree'.lists = tree.lists ++ more

namespace Tree.Grows

variable {tree tree' tree'' : Tree}

theorem refl (tree : Tree) : tree.Grows tree :=
  ⟨.refl _, #[], Array.append_empty.symm⟩

theorem trans (h : tree.Grows tree') (h' : tree'.Grows tree'') : tree.Grows tree'' := by
  obtain ⟨more, lists⟩ := h.lists
  obtain ⟨more', lists'⟩ := h'.lists
  refine ⟨h.extend.trans h'.extend, more ++ more', ?_⟩
  rw [lists', lists, Array.append_assoc]

end Tree.Grows

/-- A template parameter that came ahead of its argument and has not got it. -/
def Node.isWaiting : Node → Bool
  | .forwardParam _ none => true
  | _ => false

/-- Whatever does not wait stays when those that wait get their arguments. -/
structure Tree.Keeps (tree tree' : Tree) : Prop where
  node : ∀ id node, tree.get? id = some node → node.isWaiting = false → tree'.get? id = some node
  lists : ∃ more, tree'.lists = tree.lists ++ more

theorem Tree.Grows.keeps {tree tree' : Tree} (h : tree.Grows tree') : tree.Keeps tree' :=
  ⟨fun id node held _ => h.extend id node held, h.lists⟩

/-- The names of a list, which is all there. -/
structure Tree.Lists (tree : Tree) (run : NodeList) (ids : List NodeId) : Prop where
  kept : run.start + run.length ≤ tree.lists.size
  listed : (tree.list run).toList = ids

/-- A stored list keeps its names. -/
theorem Tree.Lists.stays {tree tree' : Tree} {run : NodeList} {ids : List NodeId}
    (h : tree.Lists run ids) (later : tree.Keeps tree') : tree'.Lists run ids := by
  obtain ⟨more, lists⟩ := later.lists
  have kept := h.kept
  have none : run.start + run.length - tree.lists.size = 0 := by omega
  refine ⟨?_, ?_⟩
  · rw [lists, Array.size_append]
    exact Nat.le_add_right_of_le kept
  · rw [← h.listed, Store.list, Store.list, lists, Array.extract_append, none, Array.extract_zero,
      Array.append_empty]

theorem Tree.Lists.grows {tree tree' : Tree} {run : NodeList} {ids : List NodeId}
    (h : tree.Lists run ids) (later : tree.Grows tree') : tree'.Lists run ids :=
  h.stays later.keeps

def Tree.Words (symbol : ByteArray) (tree : Tree) (words : String) (id : NodeId) : Prop :=
  ∃ text, tree.get? id = some (.name text) ∧ text.resolve symbol = words.toUTF8

theorem Tree.Words.stays {symbol : ByteArray} {tree tree' : Tree} {words : String} {id : NodeId}
    (h : tree.Words symbol words id) (later : tree.Keeps tree') : tree'.Words symbol words id := by
  obtain ⟨text, held, resolved⟩ := h
  exact ⟨text, later.node _ _ held rfl, resolved⟩

/-- The name stands for a form. A parameter leads to the argument in scope. -/
inductive TypeForm.Stored (symbol : ByteArray) (tree : Tree) (scope : Nat → Option NodeId) :
    TypeForm → NodeId → Prop
  | builtin {letter id} (held : tree.Words symbol ((Builtin.spelling? letter).getD "") id) :
      Stored symbol tree scope (.builtin letter) id
  | rare {letter id} (held : tree.Words symbol ((Builtin.extendedSpelling? letter).getD "") id) :
      Stored symbol tree scope (.rare letter) id
  | named {ident : Identifier} {id} (held : tree.Words symbol ident.text id) :
      Stored symbol tree scope (.named ident) id
  | pointer {target id inner} (held : tree.get? id = some (.pointer inner))
      (stored : Stored symbol tree scope target inner) : Stored symbol tree scope (.pointer target) id
  | reference {kind target id inner} (held : tree.get? id = some (.reference kind inner))
      (stored : Stored symbol tree scope target inner) :
      Stored symbol tree scope (.reference kind target) id
  | memberPointer {outer member id inner inner'}
      (held : tree.get? id = some (.memberPointer inner inner'))
      (stored : Stored symbol tree scope outer inner)
      (stored' : Stored symbol tree scope member inner') :
      Stored symbol tree scope (.memberPointer outer member) id
  | array {length element id inner dimension}
      (held : tree.get? id = some (.array inner (some dimension)))
      (sized : tree.Words symbol (Number.numeral 10 length) dimension)
      (stored : Stored symbol tree scope element inner) :
      Stored symbol tree scope (.array length element) id
  | function {quals result params id inner run ids}
      (held : tree.get? id = some (.functionType inner run quals none none))
      (stored : Stored symbol tree scope result inner) (lists : tree.Lists run ids)
      (stored' : List.Forall₂ (Stored symbol tree scope) params ids) :
      Stored symbol tree scope (.function quals result params) id
  | qualified {quals target id inner} (held : tree.get? id = some (.qualified inner quals))
      (stored : Stored symbol tree scope target inner) :
      Stored symbol tree scope (.qualified quals target) id
  | param {index id target} (held : tree.get? id = some (.templateParam target))
      (found : scope index = some target) : Stored symbol tree scope (.param index) id

namespace TypeForm

open Print

section Measures

variable (argument : Nat → Nat)

/-- Levels that are enough to spell a form, from those for the arguments. -/
def needs : TypeForm → Nat
  | builtin _ | rare _ | named _ => 2
  | pointer target | reference _ target | array _ target | qualified _ target => target.needs + 1
  | memberPointer scope member => max scope.needs member.needs + 1
  | function _ result params => (params.map needs).foldr max result.needs + 1
  | param index => argument index + 1

/-- How many names are looked at for the tail of a form, unless it is a pointer's. -/
def tails : TypeForm → Nat
  | builtin _ | rare _ | named _ | pointer _ | reference .. | memberPointer .. | array ..
  | function .. => 1
  | qualified _ target => target.tails + 1
  | param index => argument index + 1

/-- How many names a chain of references goes over. -/
def links : TypeForm → Nat
  | builtin _ | rare _ | named _ | pointer _ | memberPointer .. | array .. | function ..
  | qualified .. => 1
  | reference _ target => target.links + 1
  | param index => argument index + 1

end Measures

theorem le_foldr_max {numbers : List Nat} {start number : Nat} (h : number ∈ numbers) :
    number ≤ numbers.foldr max start := by
  induction numbers with
  | nil => cases h
  | cons first others ih =>
    rcases List.mem_cons.mp h with rfl | h
    · exact Nat.le_max_left _ _
    · exact Nat.le_trans (ih h) (Nat.le_max_right _ _)

theorem start_le_foldr_max (numbers : List Nat) (start : Nat) : start ≤ numbers.foldr max start := by
  induction numbers with
  | nil => exact Nat.le_refl _
  | cons first others ih => exact Nat.le_trans ih (Nat.le_max_right _ _)

theorem foldr_max_le {numbers : List Nat} {start bound : Nat} (h : start ≤ bound)
    (each : ∀ number ∈ numbers, number ≤ bound) : numbers.foldr max start ≤ bound := by
  induction numbers with
  | nil => exact h
  | cons first others ih =>
    exact Nat.max_le.mpr ⟨each first List.mem_cons_self,
      ih fun number member => each number (List.mem_cons_of_mem _ member)⟩

/-- Every form needs two levels at least. -/
theorem two_le_needs {argument : Nat → Nat} (least : ∀ index, 1 ≤ argument index) (form : TypeForm) :
    2 ≤ form.needs argument := by
  induction form with
  | param index =>
    rw [needs]
    exact Nat.succ_le_succ (least index)
  | pointer target ih | reference kind target ih | array length target ih
  | qualified quals target ih =>
    rw [needs]
    exact Nat.le_succ_of_le ih
  | memberPointer scope member ih ih' =>
    rw [needs]
    exact Nat.le_succ_of_le (Nat.le_trans ih (Nat.le_max_left _ _))
  | function quals result params ih ihs =>
    rw [needs]
    exact Nat.le_succ_of_le (Nat.le_trans ih (start_le_foldr_max _ _))
  | builtin letter | rare letter | named id => simp only [needs, Nat.le_refl]

section Grows

variable {symbol : ByteArray} {tree tree' : Tree} {scope : Nat → Option NodeId} {form : TypeForm}
  {id : NodeId}

/-- No part of a form waits. -/
theorem Stored.stays (h : form.Stored symbol tree scope id) (later : tree.Keeps tree') :
    form.Stored symbol tree' scope id := by
  induction form generalizing id with
  | builtin letter => cases h with | builtin held => exact .builtin (held.stays later)
  | rare letter => cases h with | rare held => exact .rare (held.stays later)
  | named ident => cases h with | named held => exact .named (held.stays later)
  | pointer target ih =>
    cases h with | pointer held stored => exact .pointer (later.node _ _ held rfl) (ih stored)
  | reference kind target ih =>
    cases h with | reference held stored => exact .reference (later.node _ _ held rfl) (ih stored)
  | memberPointer outer member ih ih' =>
    cases h with
    | memberPointer held stored stored' =>
      exact .memberPointer (later.node _ _ held rfl) (ih stored) (ih' stored')
  | array length element ih =>
    cases h with
    | array held sized stored =>
      exact .array (later.node _ _ held rfl) (sized.stays later) (ih stored)
  | function quals result params ih ihs =>
    cases h with
    | function held stored lists stored' =>
      refine .function (later.node _ _ held rfl) (ih stored) (lists.stays later) ?_
      have all : ∀ param ∈ params, ∀ id, param.Stored symbol tree scope id →
          param.Stored symbol tree' scope id := fun param member id => ihs param member
      exact ((List.forall₂_and_left _ _).mpr ⟨all, stored'⟩).imp fun _ id held => held.1 id held.2
  | qualified quals target ih =>
    cases h with | qualified held stored => exact .qualified (later.node _ _ held rfl) (ih stored)
  | param index => cases h with | param held found => exact .param (later.node _ _ held rfl) found

theorem Stored.grows (h : form.Stored symbol tree scope id) (later : tree.Grows tree') :
    form.Stored symbol tree' scope id :=
  h.stays later.keeps

end Grows

/-- Only the arguments of parameters that a form has matter to it. -/
theorem Stored.rescope {symbol : ByteArray} {tree : Tree} {scope scope' : Nat → Option NodeId}
    {form : TypeForm} {id : NodeId} (h : form.Stored symbol tree scope id)
    (same : ∀ index ∈ form.indices, scope' index = scope index) :
    form.Stored symbol tree scope' id := by
  induction form generalizing id with
  | builtin letter => cases h with | builtin held => exact .builtin held
  | rare letter => cases h with | rare held => exact .rare held
  | named ident => cases h with | named held => exact .named held
  | pointer target ih =>
    rw [indices] at same
    cases h with | pointer held stored => exact .pointer held (ih stored same)
  | reference kind target ih =>
    rw [indices] at same
    cases h with | reference held stored => exact .reference held (ih stored same)
  | array length element ih =>
    rw [indices] at same
    cases h with | array held sized stored => exact .array held sized (ih stored same)
  | qualified quals target ih =>
    rw [indices] at same
    cases h with | qualified held stored => exact .qualified held (ih stored same)
  | memberPointer outer member ih ih' =>
    rw [indices, List.forall_mem_append] at same
    cases h with
    | memberPointer held stored stored' =>
      exact .memberPointer held (ih stored same.1) (ih' stored' same.2)
  | function quals result params ih ihs =>
    rw [indices, List.forall_mem_append] at same
    cases h with
    | function held stored lists stored' =>
      refine .function held (ih stored same.1) lists ?_
      have all : ∀ param ∈ params, ∀ id, param.Stored symbol tree scope id →
          param.Stored symbol tree scope' id := fun param member id stored =>
        ihs param member stored fun index inside =>
          same.2 index (List.mem_flatten_of_mem (List.mem_map_of_mem member) inside)
      exact ((List.forall₂_and_left _ _).mpr ⟨all, stored'⟩).imp fun _ id held => held.1 id held.2
  | param index =>
    cases h with
    | param held found =>
      refine .param held ((same index ?_).trans found)
      rw [indices]
      exact List.mem_singleton_self _

section Solid

variable {argument : Nat → Spelling}

theorem solid_leaf {words : String} (some : words ≠ "") (other : endsInBracket words = false) :
    (Halves.leaf words).Solid :=
  ⟨some, other⟩

theorem solid_builtin {letter : Char} {words : String}
    (spelled : Builtin.spelling? letter = some words) : (Halves.leaf words).Solid := by
  unfold Builtin.spelling? at spelled
  split at spelled <;> cases spelled <;> exact solid_leaf (by decide) (by decide)

theorem solid_rare {letter : Char} {words : String}
    (spelled : Builtin.extendedSpelling? letter = some words) : (Halves.leaf words).Solid := by
  unfold Builtin.extendedSpelling? at spelled
  split at spelled <;> cases spelled <;> exact solid_leaf (by decide) (by decide)

theorem solid_named {ident : Identifier} (open_ : endsInBracket ident.words = false) :
    (Halves.leaf ident.text).Solid := by
  refine solid_leaf ident.text_ne_empty ?_
  unfold Identifier.text
  split
  · decide
  · exact open_

/-- Every form shows something before the declared name. -/
theorem solid_spelling {form : TypeForm} (proper : form.Every Proper)
    (solid : ∀ index ∈ form.indices, (argument index).halves.Solid) :
    (form.spelling argument).halves.Solid := by
  induction form with
  | builtin letter =>
    obtain ⟨words, spelled⟩ := Option.isSome_iff_exists.mp (every_builtin.mp proper)
    rw [spelling, spelled]
    exact solid_builtin spelled
  | rare letter =>
    obtain ⟨words, spelled⟩ := Option.isSome_iff_exists.mp (every_rare.mp proper)
    rw [spelling, spelled]
    exact solid_rare spelled
  | named ident =>
    rw [spelling]
    exact solid_named (every_named.mp proper)
  | pointer target ih =>
    rw [spelling]
    exact Halves.solid_wrap (by decide) (by decide)
  | reference kind target ih =>
    rw [spelling]
    refine Halves.solid_wrap ?_ ?_
    · cases (target.spelling argument).under kind <;> decide
    · cases (target.spelling argument).under kind <;> decide
  | memberPointer scope member ih ih' =>
    rw [spelling]
    exact Halves.solid_member _
  | array length element ih =>
    rw [indices] at solid
    rw [spelling]
    exact ih (every_array.mp proper).2 solid
  | function quals result params ih ihs =>
    rw [spelling]
    exact Halves.solid_function _ _
  | qualified quals target ih =>
    rw [spelling]
    exact Halves.solid_qualified (every_qualified.mp proper).1.1
  | param index =>
    rw [indices] at solid
    rw [spelling]
    exact solid index (List.mem_singleton_self _)

end Solid

/-- What is known of the arguments in scope. -/
structure Arguments (symbol : ByteArray) (tree : Tree) (pack : Option Pack)
    (scope : Nat → Option NodeId) (tails links needs : Nat → Nat) (argument : Nat → Spelling) :
    Prop where
  shown : ∀ index target, scope index = some target →
    Shown symbol tree pack (tails index) (links index) (needs index) (argument index) target
  least : ∀ index, 1 ≤ needs index

section Shown

variable {symbol : ByteArray} {tree : Tree} {pack : Option Pack} {scope : Nat → Option NodeId}
  {tails links needs : Nat → Nat} {argument : Nat → Spelling}

/-- A name that stands for a form shows what the form is spelled as, where chains are short
enough to be followed. -/
theorem Stored.shown (arguments : Arguments symbol tree pack scope tails links needs argument)
    {form : TypeForm} (proper : form.Every Proper)
    (near : form.Every fun part => part.tails tails ≤ chainLimit ∧ part.links links ≤ chainLimit)
    (solid : ∀ index ∈ form.indices, (argument index).halves.Solid) {id : NodeId}
    (stored : form.Stored symbol tree scope id) :
    Shown symbol tree pack (form.tails tails) (form.links links) (form.needs needs)
      (form.spelling argument) id := by
  have deep (form : TypeForm) : 1 ≤ form.needs needs :=
    Nat.le_of_succ_le (two_le_needs arguments.least form)
  induction form generalizing id with
  | builtin letter =>
    cases stored with
    | builtin held =>
      obtain ⟨text, held, resolved⟩ := held
      rw [spelling, TypeForm.needs, TypeForm.tails, TypeForm.links]
      exact .plain held trivial rfl (.leaf held resolved) (by decide)
  | rare letter =>
    cases stored with
    | rare held =>
      obtain ⟨text, held, resolved⟩ := held
      rw [spelling, TypeForm.needs, TypeForm.tails, TypeForm.links]
      exact .plain held trivial rfl (.leaf held resolved) (by decide)
  | named ident =>
    cases stored with
    | named held =>
      obtain ⟨text, held, resolved⟩ := held
      rw [spelling, TypeForm.needs, TypeForm.tails, TypeForm.links]
      exact .plain held trivial rfl (.leaf held resolved) (by decide)
  | pointer target ih =>
    cases stored with
    | pointer held stored =>
      rw [every_pointer] at proper near
      rw [indices] at solid
      have inner := ih proper.2 near.2 solid stored
      rw [spelling, TypeForm.needs, TypeForm.tails, TypeForm.links]
      exact .plain held trivial rfl (.pointer held inner.shows inner.near (deep target)) (by decide)
  | reference kind target ih =>
    cases stored with
    | reference held stored =>
      rw [every_reference] at proper near
      rw [indices] at solid
      have inner := ih proper.2 near.2 solid stored
      rw [spelling, TypeForm.needs, TypeForm.tails, TypeForm.links]
      exact .reference held inner near.2.self.2 (deep target)
  | memberPointer outer member ih ih' =>
    cases stored with
    | memberPointer held stored stored' =>
      rw [every_memberPointer] at proper near
      rw [indices] at solid
      rw [List.forall_mem_append] at solid
      have inner := ih proper.2.1 near.2.1 solid.1 stored
      have inner' := ih' proper.2.2 near.2.2 solid.2 stored'
      rw [spelling, TypeForm.needs, TypeForm.tails, TypeForm.links]
      refine .plain held trivial rfl ?_ (by decide)
      refine .memberPointer held (inner'.shows.weaken (Nat.le_refl _) (Nat.le_max_right _ _))
        inner'.near (inner.shows.weaken (Nat.le_refl _) (Nat.le_max_left _ _))
        (solid_spelling proper.2.1 solid.1) (Nat.le_trans (deep outer) (Nat.le_max_left _ _))
  | array length element ih =>
    cases stored with
    | array held sized stored =>
      obtain ⟨text, sized, resolved⟩ := sized
      rw [every_array] at proper near
      rw [indices] at solid
      have inner := ih proper.2 near.2 solid stored
      rw [spelling, TypeForm.needs, TypeForm.tails, TypeForm.links]
      exact .plain held trivial rfl (.array held sized resolved inner.shows
        (two_le_needs arguments.least element)) (by decide)
  | function quals result params ih ihs =>
    cases stored with
    | @function _ _ _ _ _ run ids held stored lists stored' =>
      rw [every_function] at proper near
      rw [indices] at solid
      rw [List.forall_mem_append] at solid
      have inner := ih proper.2.1 near.2.1 solid.1 stored
      have deepest (param : TypeForm) (member : param ∈ params) :
          param.needs needs ≤ (params.map (TypeForm.needs needs)).foldr max (result.needs needs) :=
        le_foldr_max (List.mem_map_of_mem member)
      have each : ∀ param ∈ params, ∀ id, param.Stored symbol tree scope id →
          (param.spelling argument).halves.Solid ∧ Shows symbol tree pack chainLimit
            ((params.map (TypeForm.needs needs)).foldr max (result.needs needs))
            (param.spelling argument).halves id := by
        intro param member id stored
        have inside (index : Nat) (h : index ∈ param.indices) : (argument index).halves.Solid :=
          solid.2 index (List.mem_flatten_of_mem (List.mem_map_of_mem member) h)
        have inner := ihs param member (proper.2.2 param member) (near.2.2 param member) inside stored
        exact ⟨solid_spelling (proper.2.2 param member) inside,
          inner.shows.weaken inner.near (deepest param member)⟩
      have items : AllShow symbol tree pack
          ((params.map (TypeForm.needs needs)).foldr max (result.needs needs))
          (params.map fun param => (param.spelling argument).halves) ids := by
        rw [AllShow, List.forall₂_map_left_iff]
        exact ((List.forall₂_and_left _ _).mpr ⟨each, stored'⟩).imp fun _ id held =>
          held.1 id held.2
      rw [← lists.listed] at items
      have shows := inner.shows.weaken (Nat.le_refl _)
        (start_le_foldr_max (params.map (TypeForm.needs needs)) _)
      have function := shows.function held items
        (Nat.le_trans (deep result) (start_le_foldr_max _ _))
      rw [List.map_map] at function
      rw [spelling, TypeForm.needs, TypeForm.tails, TypeForm.links]
      exact .plain held trivial rfl function (by decide)
  | qualified quals target ih =>
    cases stored with
    | qualified held stored =>
      rw [every_qualified] at proper near
      rw [indices] at solid
      have inner := ih proper.2 near.2 solid stored
      have short := near.1.1
      rw [TypeForm.tails] at short
      rw [spelling, TypeForm.needs, TypeForm.tails, TypeForm.links]
      exact .plain held trivial rfl (.qualified held inner.shows (deep target)) short
  | param index =>
    cases stored with
    | param held found =>
      obtain ⟨short, short'⟩ := every_param.mp near
      rw [TypeForm.tails] at short
      rw [TypeForm.links] at short'
      rw [spelling, TypeForm.needs, TypeForm.tails, TypeForm.links]
      exact .aliased (.inl (Tree.node_of_get? held)) (arguments.shown index _ found) short short'
        (arguments.least index)

/-- A closed form shows its spelling in any scope. -/
theorem Stored.shown_closed {form : TypeForm} (closed : form.indices = [])
    (proper : form.Every Proper)
    (near : form.Every fun part =>
      (part.tails fun _ => 0) ≤ chainLimit ∧ (part.links fun _ => 0) ≤ chainLimit) {id : NodeId}
    (stored : form.Stored symbol tree scope id) :
    Shown symbol tree pack (form.tails fun _ => 0) (form.links fun _ => 0) (form.needs fun _ => 1)
      form.closedSpelling id := by
  have none (P : Nat → Prop) : ∀ index ∈ form.indices, P index := by
    rw [closed]
    exact fun _ member => nomatch member
  have stored' : form.Stored symbol tree (fun _ => .none) id := stored.rescope (none _)
  exact stored'.shown ⟨fun _ _ found => (Option.some_ne_none _ found.symm).elim,
    fun _ => Nat.le_refl 1⟩ proper near (none _)

theorem solid_closed {form : TypeForm} (closed : form.indices = []) (proper : form.Every Proper) :
    form.closedSpelling.halves.Solid := by
  refine solid_spelling proper ?_
  rw [closed]
  exact fun _ member => nomatch member

end Shown

end TypeForm
end Unmangle
