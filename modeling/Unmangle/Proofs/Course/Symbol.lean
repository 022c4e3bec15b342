import Unmangle.Proofs.Comparison.Symbol
import Unmangle.Proofs.Course.Encoding
import Unmangle.Proofs.Course.Expression
import Unmangle.Proofs.Course.Literal
import Unmangle.Proofs.Course.Type
import Unmangle.Proofs.Grammar.Yields

/-!
# A whole symbol on course

A parse that gets to the end of its symbol has come between characters all the way, and no
template parameter waits any more.
-/
namespace Unmangle

variable {symbol : ByteArray} {call : Calls}

/-- Every rule stays on its course if the rules that it calls do. -/
theorem OnCourse.body (calls : ∀ rule, OnCourse symbol (call rule)) (rule : Rule) :
    OnCourse symbol (rule.body call) := by
  cases rule with
  | symbol => exact wholeSymbol calls
  | encoding => exact encoding calls
  | specialName => exact specialName calls
  | name tracked => exact name calls tracked
  | unqualifiedName tracked => exact unqualifiedName calls tracked
  | nestedName tracked => exact nestedName calls tracked
  | localName tracked => exact localName calls tracked
  | operatorName tracked => exact operatorName calls tracked
  | substitution => exact substitution
  | templateArgs tracked => exact templateArgs calls tracked
  | templateArg => exact templateArg calls
  | type => exact type calls
  | qualifiedType => exact qualifiedType calls
  | functionType => exact functionType calls
  | arrayType => exact arrayType calls
  | memberPointerType => exact memberPointerType calls
  | namedType => exact namedType calls
  | decltype => exact decltype calls
  | vectorType => exact vectorType calls
  | expression => exact expression calls
  | bracedExpression => exact bracedExpression calls
  | literal => exact literal calls
  | unresolvedName isGlobal => exact unresolvedName calls isGlobal
  | unresolvedType => exact unresolvedType calls
  | baseUnresolvedName => exact baseUnresolvedName calls

/-- Every rule keeps on course, by induction on the levels that it may spend. -/
theorem OnCourse.parse (limit levels : Nat) (rule : Rule) :
    OnCourse symbol (Rule.parse limit levels rule) := by
  induction levels generalizing rule with
  | zero => exact throw _
  | succ levels ih => exact reading rule (deeper limit (body ih rule))

namespace Parse.Yields

variable {p : Parse NodeId} {s : ParseState}

theorem anything {α : Type} {p : Parse α} {Q : α → ParseState → Prop} (h : ∀ a t, Q a t) :
    Yields (fun _ => False) p s Q :=
  fun _ a t _ => h a t

/-- Behind the last step of a symbol nothing is left. -/
theorem finish (root : NodeId) :
    Yields (fun _ => False) (Parse.finish root) s fun _ t =>
      t.cursor.rest = [] ∧ t.work.forward = #[] := by
  apply bind
  apply atEnd
  apply bind
  refine ensure (fun ended => ?_) fun _ => throw _
  apply bind
  apply get
  apply bind
  refine ensure (fun settled => ?_) fun _ => throw _
  exact pure ⟨List.isEmpty_iff.mp ended, Array.isEmpty_iff.mp settled⟩

theorem finished {Q : NodeId → ParseState → Prop}
    (h : ∀ root t, t.cursor.rest = [] ∧ t.work.forward = #[] → Q root t) :
    Yields (fun _ => False) (p >>= Parse.finish) s Q :=
  bind (anything fun root _ => (finish root).weaken h)

/-- A symbol that was parsed has nothing left and no parameter waiting. -/
theorem wholeSymbol (limit levels : Nat) :
    Yields (fun _ => False) (Rule.parse limit levels .symbol) s fun _ t =>
      t.cursor.rest = [] ∧ t.work.forward = #[] := by
  cases levels with
  | zero => exact throw _
  | succ levels =>
    refine reading (deeper ?_)
    apply bind
    apply anything
    intro _ _
    refine ite (fun _ => finished fun _ _ h _ => h) fun _ => ?_
    apply bind
    apply anything
    intro _ _
    exact ite (fun _ => finished fun _ _ h _ => h) fun _ => finished fun _ _ h _ => h

end Parse.Yields

theorem ParseState.Grounded.start (generation : UInt32) (symbol : ByteArray) :
    (ParseState.start generation symbol).Grounded symbol := by
  refine ⟨rfl, ?_, .empty generation⟩
  change 0 + symbol.data.toList.length = symbol.size
  rw [Nat.zero_add, Array.length_toList]
  rfl

/-- Nothing is found in an empty store. -/
theorem Tree.get?_start (generation : UInt32) (symbol : ByteArray) (id : NodeId) :
    (ParseState.start generation symbol).work.tree.get? id = none := by
  have intact : Store.Intact (ParseState.start generation symbol).work.tree := .empty generation
  rw [← Option.not_isSome_iff_eq_none, intact.get?_isSome_iff]
  rintro ⟨-, below⟩
  cases below

/-- What a symbol was read into: its texts are cut between characters, its literals can be
spelled, and its template parameters have their arguments. -/
structure Tree.Settled (symbol : ByteArray) (tree : Tree) : Prop where
  whole : ∀ id node, tree.get? id = some node → node.Whole symbol symbol.size
  answered : ∀ id index target, tree.get? id = some (.forwardParam index target) → target.isSome

section Parsed

variable {limit : Nat} {generation : UInt32} {root : NodeId} {state : ParseState}

/-- The tree of a parsed symbol holds a target for every parameter that ever waited. -/
theorem settled_of_parse
    (parsed : (Rule.parse limit limit .symbol).run (.start generation symbol) = .ok root state) :
    Tree.Settled symbol state.work.tree ∧ state.work.forward = #[] ∧
      ∀ before, (Rule.parse limit limit .symbol).happens (.start generation symbol)
        (.visits before) → ∀ id index old,
          before.work.tree.get? id = some (.forwardParam index old) →
            ∃ new, state.work.tree.get? id = some (.forwardParam index new) := by
  have ground := ParseState.Grounded.start generation symbol
  obtain ⟨course, -, built⟩ := OnCourse.parse limit limit .symbol _ ground root state parsed
  obtain ⟨ended, empty⟩ := Parse.Yields.wholeSymbol limit limit (fun _ _ => id) root state parsed
  have ground' := course.grounded ground
  have last : state.cursor.offset = symbol.size := by
    have stop := ground'.stop
    rwa [ended] at stop
  have whole : state.Whole symbol := course.whole ground fun id node hid => by
    rw [Tree.get?_start] at hid
    cases hid
  have awaited : state.Awaited := course.awaited ground fun id waits => by
    obtain ⟨index, hid⟩ := waits
    rw [Tree.get?_start] at hid
    cases hid
  refine ⟨⟨?_, ?_⟩, empty, ?_⟩
  · rw [← last]
    exact whole
  · intro id index target hid
    cases target with
    | some target => rfl
    | none =>
      have listed := awaited id ⟨index, hid⟩
      rw [empty] at listed
      exact absurd listed (Array.not_mem_empty id)
  · intro before visited id index old hid
    obtain ⟨v, reached, same, behind⟩ := built before visited
    rw [← same] at hid
    exact behind.forwardParam (reached.grounded ground) hid

end Parsed
end Unmangle
