import Mathlib.Data.List.Nodup
import Mathlib.Order.Nat
import Unmangle.Proofs.Comparison.Rule
import Unmangle.Proofs.Safety.Sound
import Unmangle.Proofs.Store.Contents

/-!
# Two parses in two stores

The same bytes are read into two stores, which may be of different generations. Names
correspond by their place, spans by the bytes they stand for. Every state of such a pair
of parses is sound, and with one parse on both sides this is the soundness of a parse.
-/
namespace Unmangle

/-- Two symbols, and the generations of the stores that they are read into. -/
structure Sides where
  symbol : ByteArray
  symbol' : ByteArray
  generation : UInt32
  generation' : UInt32

namespace Sides

variable (sides : Sides)

/-- Names of one place below a bound. -/
structure SameName (bound : Nat) (a b : NodeId) : Prop where
  index : a.index = b.index
  below : a.index < bound
  generation : a.generation = sides.generation
  generation' : b.generation = sides.generation'

/-- Texts that lie in their symbols and say the same. -/
structure SameText (t t' : Text) : Prop where
  within : t.Within sides.symbol.size
  within' : t'.Within sides.symbol'.size
  same : t.resolve sides.symbol = t'.resolve sides.symbol'

/-- Cursors with the same bytes left. -/
structure SameCursor (c c' : Cursor) : Prop where
  offset : c.offset ≤ sides.symbol.size
  offset' : c'.offset ≤ sides.symbol'.size
  rest : c.rest = sides.symbol.data.toList.drop c.offset
  rest' : c'.rest = sides.symbol'.data.toList.drop c'.offset
  same : c.rest = c'.rest

/-- What the nodes under a name of both stores have in common. Their parts are older. -/
def part (size : Nat) (tree : Tree) (index : Nat) : Likeness where
  child := sides.SameName index
  target := Option.Rel (sides.SameName size)
  list run run' := run = run' ∧ run.Within tree ∧ ∀ element ∈ tree.list run, element.index < index
  text := sides.SameText
  bits _ := sides.SameText

/-- Stores with so many nodes and so many names in lists. -/
structure SameTree (w : Nat × Nat) (t t' : Tree) : Prop where
  intact : t.Intact
  intact' : t'.Intact
  generation : t.generation = sides.generation
  generation' : t'.generation = sides.generation'
  size : t.size = w.1
  size' : t'.size = w.1
  listed : t.lists.size = w.2
  lists : List.Forall₂ (sides.SameName w.1) t.lists.toList t'.lists.toList
  nodes : ∀ index node node', t.contents[index]? = some node → t'.contents[index]? = some node' →
    Node.Alike (sides.part w.1 t index) node node'

/-- The table holds each of its components once, and knows their places. -/
structure Tabled (table : Substitutions) : Prop where
  nodup : (table.entries.toList.map NodeId.index).Nodup
  places : ∀ place, place ∈ table.places ↔ place ∈ table.entries.toList.map NodeId.index

structure SameTable (w : Nat × Nat) (u u' : Substitutions) : Prop where
  entries : List.Forall₂ (sides.SameName w.1) u.entries.toList u'.entries.toList
  tabled : Tabled u
  tabled' : Tabled u'

/-- The comparison of two parses in two stores. -/
def comparison : Comparison where
  World := Nat × Nat
  cursor := sides.SameCursor
  text := sides.SameText
  bits _ := sides.SameText
  name w := sides.SameName w.1
  list w run run' := run = run' ∧ run.start + run.length ≤ w.2
  tree := sides.SameTree
  table := sides.SameTable
  event := Event.Sound sides.symbol
  lost _ := False

variable {sides}

section Names

theorem SameName.mono {n m : Nat} (h : n ≤ m) {a b : NodeId} (hab : sides.SameName n a b) :
    sides.SameName m a b :=
  ⟨hab.index, hab.below.trans_le h, hab.generation, hab.generation'⟩

/-- Names are paired one to one. -/
theorem SameName.eq_iff {n m : Nat} {a a' b b' : NodeId} (ha : sides.SameName n a a')
    (hb : sides.SameName m b b') : a = b ↔ a' = b' := by
  have hg := ha.generation.trans hb.generation.symm
  have hg' := ha.generation'.trans hb.generation'.symm
  have hi := ha.index
  have hj := hb.index
  cases a; cases a'; cases b; cases b'
  simp_all

theorem map_index {n : Nat} {ids ids' : List NodeId}
    (h : List.Forall₂ (sides.SameName n) ids ids') :
    ids.map NodeId.index = ids'.map NodeId.index := by
  induction h with
  | nil => rfl
  | cons hid _ ih => rw [List.map_cons, List.map_cons, hid.index, ih]

end Names

section Texts

theorem sameText_literal (words : String) :
    sides.SameText (.literal words) (.literal words) :=
  ⟨trivial, trivial, rfl⟩

theorem size_eq_length (symbol : ByteArray) : symbol.size = symbol.data.toList.length := by
  rw [Array.length_toList]
  rfl

namespace SameCursor

variable {c c' : Cursor} (h : sides.SameCursor c c') {n : Nat} (fits : n ≤ c.rest.length)
include h

theorem stop : c.offset + c.rest.length = sides.symbol.size := by
  have hsize := size_eq_length sides.symbol
  have hoffset := h.offset
  rw [h.rest, List.length_drop]
  omega

theorem stop' : c'.offset + c'.rest.length = sides.symbol'.size := by
  have hsize := size_eq_length sides.symbol'
  have hoffset := h.offset'
  rw [h.rest', List.length_drop]
  omega

include fits

/-- Cursors that are alike stay alike as they move on together. -/
theorem moved : sides.SameCursor ⟨c.offset + n, c.rest.drop n⟩ ⟨c'.offset + n, c'.rest.drop n⟩ := by
  have hstop := h.stop
  have hstop' := h.stop'
  have hlen := congrArg List.length h.same
  refine ⟨?_, ?_, ?_, ?_, congrArg (List.drop n) h.same⟩
  · dsimp only
    omega
  · dsimp only
    omega
  · rw [← List.drop_drop, ← h.rest]
  · rw [← List.drop_drop, ← h.rest']

theorem span : sides.SameText (.span c.offset (c.offset + n)) (.span c'.offset (c'.offset + n)) := by
  have hstop := h.stop
  have hstop' := h.stop'
  have hlen := congrArg List.length h.same
  refine ⟨⟨by omega, by omega⟩, ⟨by omega, by omega⟩, ?_⟩
  apply ByteArray.ext
  apply Array.toList_inj.mp
  change (sides.symbol.extract c.offset (c.offset + n)).data.toList =
    (sides.symbol'.extract c'.offset (c'.offset + n)).data.toList
  rw [toList_extract, toList_extract, ← h.rest, ← h.rest', h.same]

end SameCursor

/-- Texts that say the same are both empty or neither is. -/
theorem SameText.isEmpty {t t' : Text} (h : sides.SameText t t') : t.isEmpty = t'.isEmpty := by
  have empty_iff (symbol : ByteArray) : ∀ text : Text, text.Within symbol.size →
      (text.isEmpty = true ↔ (text.resolve symbol).size = 0) := by
    rintro (words | ⟨start, stop⟩) within
    · simp [Text.isEmpty, Text.resolve, String.isEmpty]
    · obtain ⟨hstart, hstop⟩ := within
      simp only [Text.isEmpty, Text.resolve, beq_iff_eq, ByteArray.size_extract]
      omega
  rw [Bool.eq_iff_iff, empty_iff _ t h.within, empty_iff _ t' h.within', h.same]

end Texts

section Tables

theorem Tabled.empty : Tabled {} :=
  ⟨by simp, fun place => by simp⟩

theorem Tabled.contains_iff {u : Substitutions} (h : Tabled u) (id : NodeId) :
    u.contains id = true ↔ id.index ∈ u.entries.toList.map NodeId.index := by
  rw [Substitutions.contains, Std.TreeSet.contains_iff_mem, h.places]

/-- A table stays consistent when a new component is listed. -/
theorem Tabled.insert {u : Substitutions} (h : Tabled u) {id : NodeId}
    (unlisted : u.contains id = false) : Tabled (u.insert id) := by
  have hnew : id.index ∉ u.entries.toList.map NodeId.index := by
    rw [← h.contains_iff, unlisted]
    exact Bool.false_ne_true
  refine ⟨?_, fun place => ?_⟩
  · simp only [Substitutions.insert, Array.toList_push, List.map_append, List.map_cons,
      List.map_nil]
    exact List.nodup_append.mpr ⟨h.nodup, by simp, by simpa using hnew⟩
  · simp only [Substitutions.insert, Array.toList_push, List.map_append, List.mem_append,
      List.map_cons, List.map_nil, List.mem_singleton, ← h.places, Std.TreeSet.mem_insert,
      Nat.compare_eq_eq]
    tauto

/-- A table stays consistent when its newest component is taken off. -/
theorem Tabled.erase {u : Substitutions} (h : Tabled u) {id : NodeId} {rest : List NodeId}
    (hentries : u.entries.toList = rest ++ [id]) :
    Tabled ⟨u.entries.pop, u.places.erase id.index⟩ := by
  have hnodup := h.nodup
  rw [hentries, List.map_append] at hnodup
  obtain ⟨hrest, -, hdisjoint⟩ := List.nodup_append.mp hnodup
  have hpop : u.entries.pop.toList = rest := by
    rw [Array.toList_pop, hentries, List.dropLast_concat]
  refine ⟨by rw [hpop]; exact hrest, fun place => ?_⟩
  have hplace := h.places place
  rw [hentries, List.map_append, List.mem_append] at hplace
  rw [hpop, Std.TreeSet.mem_erase, hplace, ne_eq, Nat.compare_eq_eq]
  constructor
  · rintro ⟨hne, hin | hid⟩
    · exact hin
    · exact absurd (List.mem_singleton.mp hid).symm hne
  · exact fun hin => ⟨fun heq => hdisjoint place hin place (by simp [heq]) rfl, .inl hin⟩

namespace SameTable

variable {w v : Nat × Nat} {u u' : Substitutions} (h : sides.SameTable w u u')
include h

theorem mono (later : w ≤ v) : sides.SameTable v u u' :=
  ⟨h.entries.imp fun _ _ hid => hid.mono later.1, h.tabled, h.tabled'⟩

theorem contains {a b : NodeId} (hid : sides.SameName w.1 a b) : u.contains a = u'.contains b := by
  rw [Bool.eq_iff_iff, h.tabled.contains_iff, h.tabled'.contains_iff, map_index h.entries,
    hid.index]

theorem insert {a b : NodeId} (hid : sides.SameName w.1 a b) (unlisted : u.contains a = false) :
    sides.SameTable w (u.insert a) (u'.insert b) := by
  refine ⟨?_, h.tabled.insert unlisted, h.tabled'.insert (h.contains hid ▸ unlisted)⟩
  simpa [Substitutions.insert] using List.rel_append h.entries (.cons hid .nil)

theorem get? (index : Nat) :
    Option.Rel (sides.SameName w.1) (u.get? index) (u'.get? index) :=
  Comparison.Names.get? (C := sides.comparison) (w := w) h.entries index

/-- The newest components of tables that are alike are taken off together. -/
theorem pop? : Option.Rel (sides.SameTable w) u.pop? u'.pop? := by
  have hsize : u.entries.size = u'.entries.size := by simpa using h.entries.length_eq
  have hback : Option.Rel (sides.SameName w.1) u.entries.back? u'.entries.back? := by
    rw [Array.back?, Array.back?, ← hsize]
    exact h.get? _
  have last {u : Substitutions} {id : NodeId} (hid : u.entries.back? = some id) :
      ∃ rest, u.entries.toList = rest ++ [id] := by
    rw [← Array.getLast?_toList] at hid
    exact List.getLast?_eq_some_iff.mp hid
  simp only [Substitutions.pop?]
  cases hid : u.entries.back? with
  | none =>
    rw [hid] at hback
    generalize u'.entries.back? = o' at hback ⊢
    cases hback
    exact .none
  | some id =>
    cases hid' : u'.entries.back? with
    | none => rw [hid, hid'] at hback; cases hback
    | some id' =>
      obtain ⟨rest, hentries⟩ := last hid
      obtain ⟨rest', hentries'⟩ := last hid'
      refine .some ⟨?_, h.tabled.erase hentries, h.tabled'.erase hentries'⟩
      simpa [List.dropLast_eq_take, hsize] using List.forall₂_take (u.entries.size - 1) h.entries

end SameTable

end Tables

section Trees

namespace SameTree

variable {w v : Nat × Nat} {t t' : Tree}

theorem empty (generation generation' : UInt32) (symbol symbol' : ByteArray) :
    SameTree ⟨symbol, symbol', generation, generation'⟩ (0, 0)
      { generation := generation } { generation := generation' } :=
  ⟨Store.Intact.empty _, Store.Intact.empty _, rfl, rfl, rfl, rfl, rfl, .nil,
    fun index _ _ hnode => by simp at hnode⟩

/-- Parts stay what they are when the store and its list sequence grow. -/
theorem part_mono {size size' index : Nat} (hsize : size ≤ size') {t u : Tree}
    (hlist : ∀ run : NodeList, run.Within t → run.Within u ∧ u.list run = t.list run)
    {node node' : Node} (h : Node.Alike (sides.part size t index) node node') :
    Node.Alike (sides.part size' u index) node node' := by
  refine h.mono (fun _ _ hid => hid) ?_ ?_ (fun _ _ htext => htext) fun _ _ _ htext => htext
  · intro o o' ho
    cases ho with
    | none => exact .none
    | some hid => exact .some (hid.mono hsize)
  · rintro run _ ⟨rfl, within, older⟩
    obtain ⟨within', same⟩ := hlist run within
    exact ⟨rfl, within', by rwa [same]⟩

theorem mem_lists_of_mem_list {t : Tree} {run : NodeList} {id : NodeId} (h : id ∈ t.list run) :
    id ∈ t.lists := by
  rw [← Array.mem_toList_iff, Store.list_eq] at h
  exact Array.mem_toList_iff.mp (List.mem_of_mem_drop (List.mem_of_mem_take h))

variable (h : sides.SameTree w t t')
include h

theorem below_of_mem_lists {id : NodeId} (hid : id ∈ t.lists) :
    id.index < w.1 ∧ id.generation = sides.generation := by
  obtain ⟨place, hplace⟩ := List.mem_iff_getElem?.mp (Array.mem_toList_iff.mpr hid)
  have hrel := Comparison.Names.get? (C := sides.comparison) (w := w) h.lists place
  rw [← Array.getElem?_toList, hplace] at hrel
  generalize t'.lists[place]? = o' at hrel
  cases hrel with
  | some hname => exact ⟨hname.below, hname.generation⟩

/-- Nodes that are alike can be stored on both sides. -/
theorem alloc {node node' : Node}
    (hnode : Node.Alike (sides.comparison.likeness w) node node') :
    sides.SameTree (w.1 + 1, w.2) (t.alloc node).2 (t'.alloc node').2 := by
  have hlists : (t.alloc node).2.lists = t.lists := Store.lists_alloc t node
  have hlist (run : NodeList) : (t.alloc node).2.list run = t.list run := by
    rw [Store.list, Store.list, hlists]
  have hwithin (run : NodeList) : run.Within (t.alloc node).2 ↔ run.Within t := by
    rw [NodeList.Within, NodeList.Within, hlists]
  refine ⟨h.intact.alloc node, h.intact'.alloc node', ?_, ?_, ?_, ?_, ?_, ?_, ?_⟩
  · rw [Store.generation_alloc, h.generation]
  · rw [Store.generation_alloc, h.generation']
  · rw [Store.size_alloc, h.size]
  · rw [Store.size_alloc, h.size']
  · rw [hlists, h.listed]
  · rw [hlists, Store.lists_alloc]
    exact h.lists.imp fun _ _ hid => hid.mono (Nat.le_succ _)
  · intro index n n' hn hn'
    have hlen : t.contents.length = w.1 := h.intact.length_contents.trans h.size
    have hlen' : t'.contents.length = w.1 := h.intact'.length_contents.trans h.size'
    rw [Store.contents_alloc, List.getElem?_append] at hn hn'
    rw [hlen] at hn
    rw [hlen'] at hn'
    by_cases hold : index < w.1
    · rw [if_pos hold] at hn hn'
      refine part_mono (Nat.le_succ _) (fun run within => ?_) (h.nodes index n n' hn hn')
      exact ⟨(hwithin run).mpr within, hlist run⟩
    · rw [if_neg hold] at hn hn'
      obtain ⟨rfl, hindex⟩ : n = node ∧ index = w.1 := by
        rw [List.getElem?_singleton] at hn
        split at hn
        · exact ⟨(Option.some.inj hn).symm, by omega⟩
        · cases hn
      obtain rfl : n' = node' := by
        rw [hindex, Nat.sub_self] at hn'
        exact (Option.some.inj hn').symm
      subst hindex
      refine hnode.mono (fun _ _ hid => hid) ?_ ?_ (fun _ _ htext => htext)
        fun _ _ _ htext => htext
      · intro o o' ho
        cases ho with
        | none => exact .none
        | some hid => exact .some (hid.mono (Nat.le_succ _))
      · rintro run _ ⟨rfl, within⟩
        refine ⟨rfl, (hwithin run).mpr (within.trans h.listed.ge), fun element hmem => ?_⟩
        rw [hlist] at hmem
        exact (h.below_of_mem_lists (mem_lists_of_mem_list hmem)).1

/-- Lists that are alike can be stored on both sides. -/
theorem allocList {ids ids' : Array NodeId} (hids : sides.comparison.Names w ids ids') :
    sides.SameTree (w.1, w.2 + ids.size) (t.allocList ids).2 (t'.allocList ids').2 := by
  have hlist (run : NodeList) (within : run.Within t) :
      run.Within (t.allocList ids).2 ∧ (t.allocList ids).2.list run = t.list run := by
    refine ⟨?_, ?_⟩
    · simp only [NodeList.Within, Store.allocList, Array.size_append]
      exact Nat.le_add_right_of_le within
    · exact Store.list_allocList_of_le t ids within
  refine ⟨h.intact.allocList ids, h.intact'.allocList ids', h.generation, h.generation', h.size, h.size', ?_, ?_, ?_⟩
  · simp [Store.allocList, h.listed]
  · simpa [Store.allocList] using List.rel_append h.lists hids
  · exact fun index n n' hn hn' => part_mono le_rfl hlist (h.nodes index n n' hn hn')

/-- Under names of one place both stores hold nodes of one kind with parts alike. -/
theorem node {a b : NodeId} (hid : sides.SameName w.1 a b) :
    Node.Alike (sides.part w.1 t a.index) (t.node a) (t'.node b) := by
  have hlen : t.contents.length = w.1 := h.intact.length_contents.trans h.size
  have hlen' : t'.contents.length = w.1 := h.intact'.length_contents.trans h.size'
  have hbelow := hid.below
  obtain ⟨node, hnode⟩ : ∃ node, t.contents[a.index]? = some node :=
    ⟨_, List.getElem?_eq_getElem (by omega)⟩
  obtain ⟨node', hnode'⟩ : ∃ node, t'.contents[a.index]? = some node :=
    ⟨_, List.getElem?_eq_getElem (by omega)⟩
  have hget := h.intact.get?_eq (hid.generation.trans h.generation.symm)
  have hget' := h.intact'.get?_eq (hid.generation'.trans h.generation'.symm)
  rw [Tree.node, Tree.node, hget, hget', ← hid.index, hnode, hnode']
  exact h.nodes _ _ _ hnode hnode'

/-- A waiting parameter can be given a target on both sides. -/
theorem patch (index : Nat) {a b x y : NodeId} (hid : sides.SameName w.1 a b)
    (hx : sides.SameName w.1 x y) :
    sides.SameTree w (t.set a (.forwardParam index (some x)))
      (t'.set b (.forwardParam index (some y))) := by
  have hcurrent := hid.generation.trans h.generation.symm
  have hcurrent' := hid.generation'.trans h.generation'.symm
  refine ⟨h.intact.set _ _, h.intact'.set _ _, ?_, ?_, ?_, ?_, ?_, ?_, ?_⟩
  · rw [Store.generation_set, h.generation]
  · rw [Store.generation_set, h.generation']
  · rw [Store.size_set, h.size]
  · rw [Store.size_set, h.size']
  · rw [Store.lists_set, h.listed]
  · rw [Store.lists_set, Store.lists_set]
    exact h.lists
  · intro place n n' hn hn'
    rw [Store.contents_set h.intact hcurrent, List.getElem?_set] at hn
    rw [Store.contents_set h.intact' hcurrent', ← hid.index, List.getElem?_set] at hn'
    by_cases hplace : a.index = place
    · rw [if_pos hplace] at hn hn'
      split at hn <;> split at hn' <;> cases hn <;> cases hn'
      exact .forwardParam index (.some hx)
    · rw [if_neg hplace] at hn hn'
      refine part_mono le_rfl (fun run within => ?_) (h.nodes place n n' hn hn')
      rw [NodeList.Within, Store.list, Store.lists_set]
      exact ⟨within, rfl⟩

end SameTree

end Trees

section States

variable {w : Nat × Nat}

theorem exists_of_mem_left {α β : Type} {r : α → β → Prop} {l : List α} {l' : List β}
    (h : List.Forall₂ r l l') {a : α} (ha : a ∈ l) : ∃ b, r a b := by
  induction h with
  | nil => cases ha
  | cons hab _ ih =>
    cases ha with
    | head => exact ⟨_, hab⟩
    | tail _ ha => exact ih ha

theorem SameTree.heldIn {t t' : Tree} (h : sides.SameTree w t t') {a b : NodeId} {n : Nat}
    (hid : sides.SameName n a b) (below : n ≤ w.1) : a.HeldIn t :=
  ⟨hid.generation.trans h.generation.symm, (hid.below.trans_le below).trans_eq h.size.symm⟩

theorem SameTree.heldIn_of_mem {t t' : Tree} (h : sides.SameTree w t t') {ids ids' : Array NodeId}
    (hids : sides.comparison.Names w ids ids') : ∀ id ∈ ids, id.HeldIn t := by
  intro id hid
  obtain ⟨id', hname⟩ := exists_of_mem_left hids (Array.mem_toList_iff.mpr hid)
  exact h.heldIn hname le_rfl

/-- Each tree of a pair is sound. -/
theorem SameTree.sound {t t' : Tree} (h : sides.SameTree w t t') : t.Sound sides.symbol := by
  refine ⟨fun id => ?_, fun id node hnode => ?_, h.heldIn_of_mem h.lists⟩
  · rw [h.intact.get?_isSome_iff]
    exact ⟨fun hid => ⟨hid.1, hid.2⟩, fun hid => ⟨hid.1, hid.2⟩⟩
  · obtain ⟨current, below⟩ := (h.intact.get?_isSome_iff id).mp (Option.isSome_of_eq_some hnode)
    have hname : sides.SameName w.1 id ⟨id.index, sides.generation'⟩ :=
      ⟨rfl, below.trans_eq h.size, current.trans h.generation, rfl⟩
    have alike := h.node hname
    rw [Tree.node, hnode, Option.getD_some] at alike
    refine ⟨fun text htext => ?_, fun child hchild => ?_, fun run hrun => ?_, fun target ht => ?_⟩
    · obtain ⟨text', same⟩ := exists_of_mem_left (alike.texts fun _ _ _ h => h) htext
      exact same.within
    · obtain ⟨child', same⟩ := exists_of_mem_left alike.children hchild
      exact ⟨h.heldIn same hname.below.le, same.below⟩
    · obtain ⟨run', -, within, older⟩ := exists_of_mem_left alike.lists hrun
      exact ⟨within, older⟩
    · rcases alike.target? with ⟨hnone, -⟩ | hrel
      · rw [hnone] at ht
        cases ht
      · rw [Option.mem_def.mp ht] at hrel
        generalize Node.target? _ = o' at hrel
        cases hrel with
        | some htarget => exact h.heldIn htarget le_rfl

theorem sound {s s' : ParseState} (h : sides.comparison.State w s s') :
    s.Sound sides.symbol where
  rest := SameCursor.rest h.cursor
  stop := SameCursor.stop h.cursor
  work :=
    { tree := SameTree.sound h.tree
      entries := SameTree.heldIn_of_mem h.tree h.table.entries
      nodup := List.Nodup.of_map _ h.table.tabled.nodup
      places := fun place => by
        rw [h.table.tabled.places]
        simp
      forward := SameTree.heldIn_of_mem h.tree h.forward
      outer := SameTree.heldIn_of_mem h.tree h.outer }

theorem mayRead (rule : Rule) : sides.comparison.MayRead rule := by
  rintro s s' a b t t' ⟨w, before⟩ after
  obtain ⟨v, -, state, hid⟩ := after w before
  exact ⟨sound before, sound state, SameTree.heldIn state.tree hid le_rfl⟩

variable (sides) in
/-- Pairing two symbols is a lawful comparison. -/
theorem lawful : sides.comparison.Lawful where
  name_mono later h := SameName.mono later.1 h
  list_mono later h := ⟨h.1, h.2.trans later.2⟩
  table_mono later h := SameTable.mono h later
  name_eq_iff h h' := SameName.eq_iff h h'
  rest h := SameCursor.same h
  moved _ h fits := SameCursor.moved h fits
  span _ h fits := SameCursor.span h fits
  literal := sameText_literal
  isEmpty h := SameText.isEmpty h
  bits _ h fits _ := SameCursor.span h fits
  alloc {w t t' node node'} h hnode := by
    refine ⟨(w.1 + 1, w.2), ⟨Nat.le_succ _, le_rfl⟩, SameTree.alloc h hnode, ?_⟩
    rw [Store.alloc_name, Store.alloc_name]
    exact ⟨h.size.trans h.size'.symm, h.size.trans_lt (Nat.lt_succ_self _), h.generation,
      h.generation'⟩
  allocList {w t t' ids ids'} h hids := by
    have hsize : ids.size = ids'.size := by simpa using List.Forall₂.length_eq hids
    refine ⟨(w.1, w.2 + ids.size), ⟨le_rfl, Nat.le_add_right _ _⟩, SameTree.allocList h hids, ?_, ?_⟩
    · have hlisted : t.lists.size = t'.lists.size := by simpa using h.lists.length_eq
      simp only [Store.allocList, hlisted, hsize]
    · simp only [Store.allocList, h.listed]
      exact le_rfl
  node h hid := by
    refine (SameTree.node h hid).mono (fun _ _ hc => hc.mono hid.below.le) (fun _ _ ho => ho) ?_
      (fun _ _ htext => htext) fun _ _ _ htext => htext
    rintro run _ ⟨rfl, within, -⟩
    exact ⟨rfl, within.trans_eq h.listed⟩
  patch index h hid hx := SameTree.patch h index hid hx
  contains h hid := SameTable.contains h hid
  insert h hid unlisted := SameTable.insert h hid unlisted
  get? index h := SameTable.get? h index
  visits h := sound h
  opens h hid := ⟨sound h, SameTree.heldIn h.tree hid le_rfl⟩
  reads _ := mayRead _
  events gone := gone.elim

theorem pops : sides.comparison.Pops where
  pop? h := SameTable.pop? h
  reads _ := mayRead _

end States

end Sides
end Unmangle
