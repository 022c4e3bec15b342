import Mathlib
import Unmangle.Proofs.Output.Qualified

/-!
# Lists with commas

What is spelled stands behind what was written before, and ends as deep as it began. So the nodes of
a list are spelled in turn, and each has a text of its own. The list has the texts that are not
empty, with commas between them: a node that spells nothing leaves no comma behind, though it was
spelled behind one.
-/
namespace Unmangle

def joined : List ByteArray → ByteArray
  | [] => .empty
  | [text] => text
  | text :: text' :: rest => text ++ ", ".toUTF8 ++ joined (text' :: rest)

def led (shown : List ByteArray) : ByteArray :=
  if shown.isEmpty then .empty else joined shown ++ ", ".toUTF8

/-- One more text comes behind a comma, if there are others. -/
theorem joined_concat (shown : List ByteArray) (text : ByteArray) :
    joined (shown ++ [text]) = led shown ++ text := by
  induction shown with
  | nil => exact ByteArray.empty_append.symm
  | cons first rest ih =>
    cases rest with
    | nil => rfl
    | cons second rest =>
      show first ++ ", ".toUTF8 ++ joined (second :: rest ++ [text]) =
        first ++ ", ".toUTF8 ++ joined (second :: rest) ++ ", ".toUTF8 ++ text
      rw [ih]
      show _ ++ (joined (second :: rest) ++ ", ".toUTF8 ++ text) = _
      simp only [ByteArray.append_assoc]

theorem led_eq_joined_append (shown : List ByteArray) : ∃ comma, led shown = joined shown ++ comma := by
  unfold led
  split
  · obtain rfl := List.isEmpty_iff.mp ‹_›
    exact ⟨.empty, ByteArray.append_empty.symm⟩
  · exact ⟨_, rfl⟩

abbrev visible (texts : List ByteArray) : List ByteArray :=
  texts.filter (· ≠ .empty)

namespace Canvas

/-- The canvas behind the texts of a list, at some place in a pack. -/
def showing (front : Canvas) (shown : List ByteArray) (pack : Option Pack) : Canvas :=
  { front with out := front.out ++ joined shown, pack := pack }

def awaiting (front : Canvas) (shown : List ByteArray) (pack : Option Pack) : Canvas :=
  { front with out := front.out ++ led shown, pack := pack }

theorem showing_nil (front : Canvas) : front.showing [] front.pack = front := by
  rw [showing, joined, ByteArray.append_empty]

end Canvas

namespace Speller

/-- Nodes are spelled in turn behind texts of the same list, and have the texts. Each is spelled
behind the texts so far, at the place in a pack to which the node before it came. -/
inductive InTurn (speller : Speller) (front : Canvas) :
    List ByteArray → Option Pack → List NodeId → List ByteArray → Option Pack → Prop
  | nil {shown : List ByteArray} {pack : Option Pack} : InTurn speller front shown pack [] [] pack
  | cons {shown texts : List ByteArray} {pack pack' : Option Pack} {id : NodeId}
      {rest : List NodeId} {text : ByteArray} {behind : Canvas} :
      (speller.spell id).run (front.awaiting shown pack) = .ok () behind →
      behind.out = (front.awaiting shown pack).out ++ text →
      InTurn speller front (shown ++ visible [text]) behind.pack rest texts pack' →
      InTurn speller front shown pack (id :: rest) (text :: texts) pack'

open Print

variable {speller : Speller} {front : Canvas} {shown texts : List ByteArray}
  {pack pack' : Option Pack} {after : Canvas}

theorem run_comma (shown : List ByteArray) (pack : Option Pack) :
    (whenever (!shown.isEmpty) (write ", ")).run (front.showing shown pack) =
      .ok () (front.awaiting shown pack) := by
  cases shown with
  | nil => rfl
  | cons text rest =>
    show EStateM.Result.ok () { front with out := front.out ++ _ ++ ", ".toUTF8, pack := pack } =
      .ok () { front with out := front.out ++ (_ ++ ", ".toUTF8), pack := pack }
    rw [ByteArray.append_assoc]

/-- A list is written element by element, and an empty one takes its comma back. -/
theorem run_separated_cons {id : NodeId} {behind : Canvas} (rest : List NodeId)
    (run : (speller.spell id).run (front.awaiting shown pack) = .ok () behind) :
    (speller.separated shown.isEmpty (id :: rest)).run (front.showing shown pack) =
      if behind.out.size = (front.awaiting shown pack).out.size then
        (speller.separated shown.isEmpty rest).run
          { behind with out := behind.out.extract 0 (front.showing shown pack).out.size }
      else (speller.separated false rest).run behind := by
  refine (run_bind_of rfl _).trans ((run_bind_of (run_comma shown pack) _).trans ?_)
  refine (run_bind_of rfl _).trans ((run_bind_of run _).trans ((run_bind_of rfl _).trans ?_))
  split
  · rfl
  · rfl

/-- Where the list is behind a node: it has the node's text, unless that is empty. -/
theorem run_separated_step {id : NodeId} {behind : Canvas} {text : ByteArray} (rest : List NodeId)
    (run : (speller.spell id).run (front.awaiting shown pack) = .ok () behind)
    (out : behind.out = (front.awaiting shown pack).out ++ text)
    (depth : behind.depth = front.depth) :
    (speller.separated shown.isEmpty (id :: rest)).run (front.showing shown pack) =
      (speller.separated (shown ++ visible [text]).isEmpty rest).run
        (front.showing (shown ++ visible [text]) behind.pack) := by
  rw [run_separated_cons rest run]
  by_cases empty : text = .empty
  · have none : visible [text] = [] := by simp [visible, empty]
    have still : behind.out = (front.awaiting shown pack).out := by
      rw [out, empty, ByteArray.append_empty]
    have cut : behind.out.extract 0 (front.showing shown pack).out.size =
        front.out ++ joined shown := by
      obtain ⟨comma, more⟩ := led_eq_joined_append shown
      rw [still, Canvas.awaiting, more, ← ByteArray.append_assoc]
      exact ByteArray.extract_append_eq_left rfl
    rw [if_pos (congrArg ByteArray.size still), cut, none, List.append_nil, depth]
    rfl
  · have some : visible [text] = [text] := by simp [visible, empty]
    have grown : behind.out.size ≠ (front.awaiting shown pack).out.size := by
      rw [out, ByteArray.size_append]
      exact fun same => empty (ByteArray.size_eq_zero_iff.mp (Nat.add_eq_left.mp same))
    have same : front.showing (shown ++ [text]) behind.pack = behind := by
      rw [Canvas.showing, joined_concat, ← ByteArray.append_assoc, ← depth]
      exact congrArg (fun out => { behind with out := out }) out.symm
    have later : (shown ++ [text]).isEmpty = false := by simp
    rw [if_neg grown, some, same, later]

/-- The nodes of a list are spelled in turn, and behind them stand their texts. -/
theorem run_separated_iff
    (adds : ∀ {canvas after : Canvas} (id : NodeId), (speller.spell id).run canvas = .ok () after →
      (∃ text, after.out = canvas.out ++ text) ∧ after.depth = canvas.depth)
    (ids : List NodeId) (shown : List ByteArray) (pack : Option Pack) :
    (speller.separated shown.isEmpty ids).run (front.showing shown pack) = .ok () after ↔
      ∃ texts pack', speller.InTurn front shown pack ids texts pack' ∧
        after = front.showing (shown ++ visible texts) pack' := by
  induction ids generalizing shown pack with
  | nil =>
    constructor
    · rintro ⟨⟩
      exact ⟨[], pack, .nil, by rw [visible, List.filter_nil, List.append_nil]⟩
    · rintro ⟨_, _, ⟨⟩, rfl⟩
      rw [visible, List.filter_nil, List.append_nil]
      rfl
  | cons id rest ih =>
    constructor
    · intro run
      obtain ⟨between, behind, comma, spelled, -⟩ := Script.of_run_separated run
      cases (run_comma shown pack).symm.trans comma
      obtain ⟨⟨text, out⟩, depth⟩ := adds id spelled
      rw [run_separated_step rest spelled out depth, ih] at run
      obtain ⟨texts, pack', turns, rfl⟩ := run
      refine ⟨text :: texts, pack', .cons spelled out turns, ?_⟩
      rw [List.append_assoc, visible, visible, ← List.filter_append]
      rfl
    · rintro ⟨_, _, turns, rfl⟩
      cases turns with
      | cons spelled out turns =>
        rename_i texts text behind
        rw [run_separated_step rest spelled out (adds id spelled).2, ih]
        refine ⟨texts, _, turns, ?_⟩
        rw [List.append_assoc, visible, visible, ← List.filter_append]
        rfl

/-- The place in a pack is the same behind an expansion as before it, whatever comes of it. -/
theorem pack_of_expand {pattern : NodeId} {canvas after : Canvas}
    (run : (speller.expand pattern).run canvas = .ok () after ∨
      ∃ fault, (speller.expand pattern).run canvas = .error fault after) :
    after.pack = canvas.pack := by
  obtain run | ⟨fault, run⟩ := run <;>
  · simp only [expand] at run
    split at run <;> cases run
    rfl

variable (limits : SpellingLimits) (symbol : ByteArray) (tree : Tree) (levels : Nat)

/-- Whatever is spelled stands behind what was written before, and ends as deep as it began. A list
is spelled if and only if its nodes can be spelled in turn, and then their texts are added that are
not empty, with commas between them. -/
theorem spelled_behind (canvas : Canvas) :
    let speller := Speller.within limits symbol tree levels
    (∀ after, (∀ half id, (speller.half half id).run canvas = .ok () after →
        (∃ text, after.out = canvas.out ++ text) ∧ after.depth = canvas.depth) ∧
      (∀ id, (speller.spell id).run canvas = .ok () after →
        (∃ text, after.out = canvas.out ++ text) ∧ after.depth = canvas.depth) ∧
      (∀ id, ((speller.expand id).run canvas = .ok () after ∨
        ∃ fault, (speller.expand id).run canvas = .error fault after) →
        after.pack = canvas.pack)) ∧
    ∀ nodes after, (speller.list nodes).run canvas = .ok () after ↔
      ∃ texts pack, speller.InTurn canvas [] canvas.pack (tree.list nodes).toList texts pack ∧
        after = { canvas with out := canvas.out ++ joined (visible texts), pack := pack } := by
  intro speller
  have adds {canvas after : Canvas} (id : NodeId) (run : (speller.spell id).run canvas = .ok () after) :
      (∃ text, after.out = canvas.out ++ text) ∧ after.depth = canvas.depth := by
    obtain ⟨-, text, added⟩ := Script.adds_spell (lenient_pairs limits symbol tree levels) [] id rfl run
    exact ⟨⟨text, added.out⟩, added.depth⟩
  refine ⟨fun after => ⟨fun half id run => ?_, fun id => adds id, fun id => pack_of_expand⟩,
    fun nodes after => ?_⟩
  · obtain ⟨-, text, added⟩ := lenient_adds half canvas.index id rfl run
    exact ⟨⟨text, added.out⟩, added.depth⟩
  · conv_lhs => rw [← Canvas.showing_nil canvas]
    exact run_separated_iff adds (tree.list nodes).toList [] canvas.pack

/-- A pack without elements leaves no comma, whether or not a node was spelled before it. -/
theorem spelled_behind_empty_pack :
    let tree : Tree :=
      { last := #[.parameterPack ⟨0, 0⟩, .expansion ⟨0, 0⟩, .name (.literal "int"), .pointer ⟨2, 0⟩]
        lists := #[⟨1, 0⟩, ⟨2, 0⟩, ⟨1, 0⟩, ⟨3, 0⟩, ⟨1, 0⟩]
        size := 4 }
    let canvas : Canvas := { out := "f(".toUTF8, depth := 2 }
    ∃ texts pack, (Speller.within ⟨8, 64⟩ .empty tree 6).InTurn canvas [] none
        (tree.list ⟨0, 5⟩).toList texts pack ∧
      canvas.out ++ joined (visible texts) = "f(int, int*".toUTF8 := by
  intro tree canvas
  obtain ⟨-, listed⟩ := spelled_behind ⟨8, 64⟩ .empty tree 6 canvas
  let list := (Speller.within ⟨8, 64⟩ .empty tree 6).list ⟨0, 5⟩
  have ran : EStateM.run' (list >>= fun _ => Canvas.out <$> get).run canvas =
      some "f(int, int*".toUTF8 := by
    decide +kernel
  unfold EStateM.run' EStateM.run at ran
  cases run : list.run canvas with
  | ok _ after =>
    rw [run_bind_of run] at ran
    obtain ⟨texts, pack, turns, rfl⟩ := (listed ⟨0, 5⟩ after).mp run
    exact ⟨texts, pack, turns, Option.some.inj ran⟩
  | error fault after =>
    simp only [Bind.bind, run, reduceCtorEq] at ran

end Speller
end Unmangle
