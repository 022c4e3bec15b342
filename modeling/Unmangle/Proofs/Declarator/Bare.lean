import Unmangle.Proofs.Declarator.Kinds
import Unmangle.Proofs.Engine.Given

/-!
# Types as whole symbols

A type without parameters is a symbol of its own. It is demangled to the declaration of nothing
with the type.
-/
namespace Unmangle

namespace TypeForm

variable {form : TypeForm} {argument : Nat → Nat}

/-- No part of a closed form has parameters. -/
theorem closed_parts (closed : form.indices = []) : form.Every fun part => part.indices = [] := by
  induction form with
  | builtin letter => exact every_builtin.mpr closed
  | rare letter => exact every_rare.mpr closed
  | named ident => exact every_named.mpr closed
  | pointer target ih => exact every_pointer.mpr ⟨closed, ih (by rwa [indices] at closed)⟩
  | reference kind target ih => exact every_reference.mpr ⟨closed, ih (by rwa [indices] at closed)⟩
  | array length element ih => exact every_array.mpr ⟨closed, ih (by rwa [indices] at closed)⟩
  | qualified quals target ih => exact every_qualified.mpr ⟨closed, ih (by rwa [indices] at closed)⟩
  | memberPointer scope member ih ih' =>
    have both := closed
    rw [indices, List.append_eq_nil_iff] at both
    exact every_memberPointer.mpr ⟨closed, ih both.1, ih' both.2⟩
  | function quals result params ih ihs =>
    have both := closed
    rw [indices, List.append_eq_nil_iff] at both
    exact every_function.mpr ⟨closed, ih both.1, fun param member => ihs param member
      (List.flatten_eq_nil_iff.mp both.2 _ (List.mem_map_of_mem member))⟩
  | param index => exact absurd closed (indices_param_ne_nil index)

/-- Spelling a form takes hardly more levels than reading it. -/
theorem needs_le_nest (argument : Nat → Nat) (closed : form.indices = []) : form.needs argument ≤ form.nest + 1 := by
  induction form with
  | builtin letter | rare letter => rw [needs, nest]
  | named ident =>
    rw [needs, nest]
    decide
  | pointer target ih | reference kind target ih | array length target ih
  | qualified quals target ih =>
    rw [indices] at closed
    have inner := ih closed
    rw [needs, nest]
    omega
  | memberPointer scope member ih ih' =>
    rw [indices, List.append_eq_nil_iff] at closed
    have inner := ih closed.1
    have inner' := ih' closed.2
    rw [needs, nest]
    omega
  | function quals result params ih ihs =>
    rw [indices, List.append_eq_nil_iff] at closed
    have inner := ih closed.1
    have first := start_le_foldr_max (params.map nest) result.nest
    have each : (params.map (needs argument)).foldr max (result.needs argument) ≤
        (params.map nest).foldr max result.nest + 1 := by
      refine foldr_max_le (by omega) ?_
      intro number member
      obtain ⟨param, inside, rfl⟩ := List.mem_map.mp member
      have inner := ihs param inside
        (List.flatten_eq_nil_iff.mp closed.2 _ (List.mem_map_of_mem inside))
      have low : param.nest ≤ (params.map nest).foldr max result.nest :=
        le_foldr_max (List.mem_map_of_mem inside)
      omega
    rw [needs, nest]
    omega
  | param index => exact absurd closed (indices_param_ne_nil index)

/-- Where qualifiers stand together and no reference leads to another, a chain has two names at
most. -/
theorem short_of_flat (argument : Nat → Nat) (closed : form.indices = []) (flat : form.Flat) :
    form.tails argument ≤ 2 ∧ form.links argument ≤ 2 := by
  cases form with
  | qualified quals target =>
    rw [indices] at closed
    rw [tails, links]
    refine ⟨?_, by decide⟩
    cases target with
    | qualified _ _ => cases flat
    | param index => exact absurd closed (indices_param_ne_nil index)
    | _ => rw [tails]
  | reference kind target =>
    rw [indices] at closed
    rw [tails, links]
    refine ⟨by decide, ?_⟩
    cases target with
    | reference _ _ => cases flat
    | param index => exact absurd closed (indices_param_ne_nil index)
    | _ => rw [links]
  | param index => exact absurd closed (indices_param_ne_nil index)
  | _ =>
    rw [tails, links]
    decide

/-- All chains in such a form are short. -/
theorem near_of_flat (closed : form.indices = []) (flat : form.Every Flat) :
    form.Every fun part =>
      part.tails argument ≤ Print.chainLimit ∧ part.links argument ≤ Print.chainLimit := by
  refine ((closed_parts closed).and flat).imp ?_
  intro part both
  have short := short_of_flat argument both.1 both.2
  exact ⟨Nat.le_trans short.1 (by decide), Nat.le_trans short.2 (by decide)⟩

end TypeForm

theorem isEmpty_of_octets {words : String} {byte : UInt8} {more : List UInt8}
    (begins : octets words = byte :: more) : words.isEmpty = false := by
  refine Bool.eq_false_iff.mpr ?_
  intro none
  rw [String.isEmpty_iff.mp none] at begins
  cases begins

/-- A symbol at its beginning. -/
theorem poised_start (generation : UInt32) {words : String} {rest : List UInt8}
    (begins : octets words = rest) :
    Poised words.toUTF8 (.start generation words.toUTF8) rest
      (.start generation words.toUTF8) where
  ahead := begins
  behind := begins
  intact := .empty generation
  grows := .refl _
  places := by
    intro place contained
    have none : (∅ : Std.TreeSet Nat).contains place = false := Std.TreeSet.contains_emptyc
    exact absurd contained (Bool.eq_false_iff.mp none)
  setting := rfl

namespace Parse.Meets

variable {limit : Nat} {symbol : ByteArray} {base s : ParseState} {form : TypeForm}

/-- The end of a symbol in which nothing waits. -/
theorem finished {room : Prop} {root : NodeId} {Q : NodeId → ParseState → Prop}
    (waiting : base.work.forward = #[]) (h : Poised symbol base [] s) (next : Q root s) :
    Meets room none (finish root) s Q := by
  have last : s.cursor.atEnd = true := by
    rw [Cursor.atEnd, h.ahead]
    rfl
  have none : s.work.forward.isEmpty = true := by
    rw [show s.work.forward = base.work.forward from congrArg Setting.forward h.setting, waiting]
    rfl
  refine after (a := s.cursor.atEnd) (t := s) rfl ?_
  rw [last]
  refine after (a := ()) (t := s) rfl (after run_get ?_)
  rw [none]
  exact after (a := ()) (t := s) rfl (pure next)

/-- A closed form is read as a whole symbol. -/
theorem bareSymbol (limit : Nat) (closed : form.indices = [])
    (proper : form.Every TypeForm.Proper) (small : form.code.utf8ByteSize < Number.bound)
    (generation : UInt32) :
    Meets (form.nest + 1 < limit) none (Rule.parse limit limit .symbol)
      (.start generation form.code.toUTF8) fun root t =>
        form.Stored form.code.toUTF8 t.work.tree (fun _ => none) root := by
  have start : Poised form.code.toUTF8 (.start generation form.code.toUTF8)
      (octets form.code ++ []) (.start generation form.code.toUTF8) :=
    poised_start generation (List.append_nil _).symm
  have opening := TypeForm.ahead_code proper []
  refine ruleAt (Nat.zero_add limit) (fun enough => ?_) start fun levels spent below h => ?_
  · show 0 + 1 < limit
    omega
  have unmarked (token : String) (chars : List Char) (spelled : token.toList = '_' :: chars) :
      (accept token).run _ = .ok false _ :=
    run_reject token spelled h opening (by decide)
  refine andThen (after (unmarked "_Z" _ rfl) (known (unmarked "__Z" _ rfl) ?_))
  refine andThen (after (unmarked "___Z" _ rfl) (known (unmarked "____Z" _ rfl) ?_))
  have nowhere : strayAmong (fun _ => none) form.indices = none := by
    rw [closed]
    rfl
  rw [← nowhere]
  refine before ((reads small proper spent (fun enough => ?_) (Ahead.nil _) ?_ h).weaken
    fun root t found => ?_)
  · show 0 + 1 + form.nest < limit
    omega
  · exact ⟨fun _ => rfl, fun _ _ => nofun, rfl, rfl⟩
  · exact finished rfl found.1 found.2.1

end Parse.Meets

namespace Engine

open TypeForm

variable {options : Options} {form : TypeForm}

/-- A type is demangled to the declaration of nothing with it, put together from the name
outwards in one pass. -/
theorem demangle_declared (options : Options) (bounded : options.maxSymbolLen < Number.bound)
    (generation : UInt32) {form : TypeForm} (closed : form.indices = [])
    (proper : form.Every Proper) (flat : form.Every Flat) :
    Gives (form.code.utf8ByteSize ≤ options.maxSymbolLen ∧ form.nest + 1 < options.maxRecursion ∧
        (form.declare "").utf8ByteSize ≤ options.maxOutputLen)
      (form.declare "") ((resting options generation).demangle form.code).1 := by
  have some : form.code.isEmpty = false := by
    obtain ⟨byte, more, begins, -⟩ := code_opens proper
    rw [Bool.eq_false_iff]
    intro nothing
    rw [String.isEmpty_iff.mp nothing] at begins
    cases begins
  rw [declare_nothing closed flat]
  refine gives_demangled some ?_
  intro fits
  have small : form.code.utf8ByteSize < Number.bound := by omega
  have parsed := Parse.Meets.bareSymbol options.maxRecursion closed proper small generation
  rw [parseAndSpell_resting]
  obtain ⟨root, state, run, stored⟩ | ⟨fault, state, run, full, limit⟩ := Granted.elim parsed.grants
  · have depth := needs_le_nest (fun _ => 1) closed
    have shown : Shown _ _ none _ _ _ _ root :=
      stored.shown_closed closed proper (near_of_flat closed flat)
    rw [run]
    refine (gives_fitting
      (shown.shows.spell (solid_closed closed proper) rfl (Nat.zero_add _))).weaken ?_
    intro enough
    refine ⟨?_, enough.2⟩
    omega
  · rw [run]
    exact .inr ⟨fun enough => full enough.1, fault, rfl, limit⟩

/-- A pointer to an array of pointers to members, which are functions. -/
def nestedDeclarator : TypeForm :=
  .pointer (.array 3 (.memberPointer (.named ⟨"C", by decide +kernel⟩)
    (.function {} (.builtin 'v') [.reference .lvalue (.builtin 'i')])))

/-- Every layer goes around the declarator so far, with parentheses where it leads to an array or
a function. -/
theorem demangle_nestedDeclarator :
    ({} : Options).maxSymbolLen < Number.bound ∧ nestedDeclarator.indices = [] ∧
      nestedDeclarator.Every Proper ∧ nestedDeclarator.Every Flat ∧
      nestedDeclarator.code = "PA3_M1CFvRiE" ∧
      ((resting {} 0).demangle "PA3_M1CFvRiE").1 = .ok "void (C::* (*) [3])(int&)" := by
  have bounded : ({} : Options).maxSymbolLen < Number.bound := by decide
  have closed : nestedDeclarator.indices = [] := by simp [nestedDeclarator, indices]
  have proper : nestedDeclarator.Every Proper := by
    simp only [nestedDeclarator, every_pointer, every_array, every_memberPointer, every_named,
      every_function, every_builtin, List.forall_mem_singleton, every_reference, Proper]
    decide +kernel
  have flat : nestedDeclarator.Every Flat := by
    simp [nestedDeclarator, Flat, isReference]
  have code : nestedDeclarator.code = "PA3_M1CFvRiE" := by
    simp only [nestedDeclarator, TypeForm.code, codeWith, List.map, List.isEmpty_cons]
    decide +kernel
  have text : nestedDeclarator.declare "" = "void (C::* (*) [3])(int&)" := by
    simp only [nestedDeclarator, declare, declare.around, isArray, isFunction, List.map]
    decide +kernel
  have given := demangle_declared {} bounded 0 closed proper flat
  rw [code, text] at given
  refine ⟨bounded, closed, proper, flat, code, given.eq ⟨by decide, ?_, by decide⟩⟩
  simp only [nestedDeclarator, nest, List.map]
  decide

end Engine

end Unmangle
