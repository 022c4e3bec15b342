import Unmangle.Proofs.Declarator.ConversionName
import Unmangle.Proofs.Declarator.Spellable

/-!
# Conversion functions

A conversion of a class to a type over a template parameter, with the arguments behind it. It is
demangled with the argument that the parameter stands for, and without one it is no symbol.
-/
namespace Unmangle

/-- A class, what it is converted to, and the arguments of the conversion. -/
structure Conversion where
  ident : Identifier
  pattern : Pattern
  index : Nat
  args : List TypeForm
  small : index < Number.bound
  spellable : ∀ form ∈ args, form.Spellable
  plain : ∀ form ∈ args, form.Every TypeForm.Plain
  flatPattern : pattern.form.Every TypeForm.Flat

namespace Conversion

def code (conv : Conversion) : String :=
  "_ZN" ++ (conv.ident.code ++ ("cv" ++ (conv.pattern.code conv.index ++ ("I" ++
    (String.join (conv.args.map TypeForm.code) ++ "EEv")))))

/-- What a conversion shows where its parameter stands for an argument. -/
def text (conv : Conversion) (argument : TypeForm) : String :=
  conv.ident.text ++ ("::operator " ++ ((conv.pattern.put argument).declare "" ++ ("<" ++
    (", ".intercalate (conv.args.map fun form => form.declare "") ++ ">()"))))

open TypeForm Print

variable {conv : Conversion} {symbol : ByteArray} {tree : Tree} {root : NodeId}
  {limits : SpellingLimits} {levels : Nat} {canvas : Canvas}

theorem octets_code (conv : Conversion) :
    octets conv.code = [95, 90] ++ (78 ::
      Parse.Meets.componentBytes conv.ident conv.pattern conv.index conv.args [118]) := by
  simp only [code, octets_append]
  rfl

theorem isEmpty_code (conv : Conversion) : conv.code.isEmpty = false :=
  isEmpty_of_octets conv.octets_code

/-- A conversion is read, and its parameter gets its argument. -/
theorem read (conv : Conversion) (limit : Nat) (sized : conv.code.utf8ByteSize < Number.bound)
    (generation : UInt32) :
    Parse.Meets False
      (if conv.index < conv.args.length then none else some .unresolvedForwardReference)
      (Rule.parse limit limit .symbol) (.start generation conv.code.toUTF8) fun root t =>
        ConversionFunction conv.code.toUTF8 conv.ident conv.pattern conv.index conv.args
          t.work.tree root :=
  Parse.Meets.conversionSymbol limit sized conv.small
    (fun form member => (conv.spellable form member).proper)
    (fun form member => (conv.spellable form member).closed) conv.octets_code generation

section Written

variable {argument : TypeForm} {param target type id : NodeId} {words : String}

/-- The type of a conversion is written with the argument in the place of the parameter. -/
theorem writes_type {pattern : Pattern} {index : Nat} {scope : Nat → Option NodeId}
    (spellable : argument.Spellable)
    (flat : pattern.form.Every Flat) (leads : pattern.Leads tree param type)
    (answered : tree.get? param = some (.forwardParam index (some target)))
    (stored : argument.Stored symbol tree scope target) (packed : canvas.pack = none)
    (spent : canvas.depth + levels = limits.maxDepth) :
    Writes False ((pattern.put argument).declare "")
      ((Speller.within limits symbol tree levels).spell type) canvas := by
  have first : tree.Alias param target := .inr ⟨index, Tree.node_of_get? answered⟩
  have shown : Shown symbol tree none _ _ _ _ param := .aliased first (spellable.shown stored)
    (by decide) (by decide) (Nat.le_of_succ_le (two_le_needs (fun _ => Nat.le_refl 1) argument))
  obtain ⟨_, _, _, -, -, shown⟩ := leads.shown flat shown (by decide) (Nat.le_add_left 1 _)
  rw [pattern.declare_put spellable]
  exact shown.shows.spell (pattern.solid_put spellable) packed spent False.elim

/-- The name of a conversion is written behind its class. -/
theorem writes_conversion {ident : Identifier} {scope part named : NodeId}
    (inside : tree.get? named = some (.nestedName scope part))
    (called : tree.Words symbol ident.text scope)
    (conversion : tree.get? part = some (.conversionName type)) (packed : canvas.pack = none)
    (spent : canvas.depth + levels = limits.maxDepth)
    (typed : ∀ levels (canvas : Canvas), canvas.pack = none →
      canvas.depth + levels = limits.maxDepth →
      Writes False words ((Speller.within limits symbol tree levels).spell type) canvas) :
    Writes False (ident.text ++ ("::" ++ ("operator " ++ words)))
      ((Speller.within limits symbol tree levels).spell named) canvas := by
  obtain ⟨text, held, resolved⟩ := called
  have leaf : Shows symbol tree none 1 2 (.leaf ident.text) scope := .leaf held resolved
  refine Writes.spellLeft inside (fun _ => rfl) spent (Nat.le_refl 1) False.elim ?_
  intro levels spent
  refine Writes.andThen (Writes.spell (leaf.left packed spent False.elim)
    (leaf.right packed spent False.elim)) (Writes.andThen (Writes.wording "::") ?_)
  exact Writes.spellLeft conversion (fun _ => rfl) spent (Nat.le_refl 1) False.elim
    fun levels spent => Writes.andThen (Writes.wording "operator ") (typed _ _ packed spent)

/-- What an argument is stored as. -/
theorem argument_stored {args : List TypeForm} {outer : Array NodeId} {index : Nat}
    (stored : List.Forall₂ (fun form id => form.Stored symbol tree (fun _ => none) id) args
      outer.toList) (supplied : args[index]? = some argument) (found : outer[index]? = some target) :
    argument.Stored symbol tree (fun _ => none) target := by
  rw [← Array.getElem?_toList] at found
  obtain ⟨inside, rfl⟩ := List.getElem?_eq_some_iff.mp supplied
  obtain ⟨inside', rfl⟩ := List.getElem?_eq_some_iff.mp found
  exact (List.forall₂_iff_get.mp stored).2 index inside inside'

/-- The text of a conversion in the order in which its parts are written. -/
theorem text_parts (conv : Conversion) (argument : TypeForm) :
    (conv.ident.text ++ ("::" ++ ("operator " ++ (conv.pattern.put argument).declare "")) ++
        angled (", ".intercalate (conv.args.map fun form => form.declare ""))) ++
          ("(" ++ ("" ++ ")")) = conv.text argument := by
  have inside : "::operator " = "::" ++ "operator " := by decide
  have nothing : ">()" = ">" ++ ("(" ++ ("" ++ ")")) := by decide
  rw [angled_forms conv.plain, text, inside, nothing]
  simp only [String.append_assoc]

/-- A conversion that is stored is spelled as it reads. -/
theorem written (supplied : conv.args[conv.index]? = some argument)
    (stored : ConversionFunction symbol conv.ident conv.pattern conv.index conv.args tree root) :
    Writes False (conv.text argument) (rendering limits symbol tree root) {} := by
  cases stored with
  | function held lists named answered found =>
    cases named with
    | instantiation held' inside words conversion leads listed lists' stored =>
      have spellable := conv.spellable argument (List.mem_of_getElem? supplied)
      have target := argument_stored stored supplied found
      have args : ListWrites symbol tree limits False 2 _ _ :=
        listWrites_forms conv.spellable lists' stored
      rw [← conv.text_parts]
      refine Writes.andThen (Writes.left held (Nat.zero_add _) (Nat.le_refl 1) False.elim
        fun levels spent => Writes.behind Writes.nothing ?_)
        (Writes.right held (Nat.zero_add _) (Nat.le_refl 1) False.elim fun levels spent => ?_)
      · refine Writes.spellLeft held' (fun _ => rfl) spent (Nat.le_refl 1) False.elim ?_
        intro levels spent
        refine Writes.andThen ?_ ?_
        · exact writes_conversion inside words conversion rfl spent fun levels canvas packed spent =>
            writes_type spellable conv.flatPattern leads answered target packed spent
        · exact writes_angled listed args rfl spent (by decide) False.elim
      · refine Writes.before ?_ (Writes.before Writes.nothing
          (Writes.before (Writes.quals {}) Writes.nothing))
        refine Writes.andThen (Writes.wording "(") (Writes.andThen (Writes.after rfl ?_)
          (Writes.wording ")"))
        rw [lists.listed]
        exact Writes.nothing

end Written

end Conversion

namespace Engine

/-- A parameter in the type of a conversion stands for one of the arguments behind it, and where
there are too few of them it stays unresolved. -/
theorem demangle_conversion (options : Options) (bounded : options.maxSymbolLen < Number.bound)
    (generation : UInt32) (conv : Conversion) :
    (∀ argument, conv.args[conv.index]? = some argument →
      ((resting options generation).demangle conv.code).1 = .ok (conv.text argument) ∨
        Limited ((resting options generation).demangle conv.code).1) ∧
    (conv.args.length ≤ conv.index →
      ((resting options generation).demangle conv.code).1 = .error .unresolvedForwardReference ∨
        Limited ((resting options generation).demangle conv.code).1) := by
  obtain ⟨-, limited⟩ | ⟨fits, same⟩ := demangle_or_limited options generation conv.isEmpty_code
  · exact ⟨fun _ _ => .inr limited, fun _ => .inr limited⟩
  have parsed := conv.read options.maxRecursion (by omega) generation
  rw [same, parseAndSpell_resting]
  refine ⟨fun argument supplied => ?_, fun few => ?_⟩
  · rw [if_pos (List.getElem?_eq_some_iff.mp supplied).1] at parsed
    obtain ⟨root, state, run, stored⟩ | ⟨fault, state, run, -, limit⟩ := Granted.elim parsed.grants
    · rw [run]
      exact (gives_spelled (conv.written supplied stored)).imp id And.right
    · rw [run]
      exact .inr ⟨fault, rfl, limit⟩
  · rw [if_neg (Nat.not_lt.mpr few)] at parsed
    obtain ⟨fault, state, run, unresolved⟩ := parsed.refused
    rw [run]
    exact unresolved.imp (congrArg Except.error) fun limit => ⟨fault, rfl, limit⟩

section Examples

/-- A conversion to a reference to the second argument, which is a reference. -/
def referredConversion : Conversion where
  ident := ⟨"f", Identifier.opens_f⟩
  pattern := .reference .lvalue .param
  index := 1
  args := [.builtin 'i', .reference .rvalue (.builtin 'c')]
  small := by decide
  spellable := by
    simp [TypeForm.spellable_iff, TypeForm.indices, TypeForm.Proper, TypeForm.Flat,
      TypeForm.isReference, Builtin.spelling?]
  plain := by simp [TypeForm.Plain]
  flatPattern := by simp [Pattern.form, TypeForm.Flat, TypeForm.isReference]

/-- The same conversion with only the first argument. -/
def strandedConversion : Conversion :=
  { referredConversion with
    args := [.builtin 'i']
    spellable := by
      simp [TypeForm.spellable_iff, TypeForm.indices, TypeForm.Proper, TypeForm.Flat,
        Builtin.spelling?]
    plain := by simp [TypeForm.Plain] }

theorem code_referredConversion : referredConversion.code = "_ZN1fcvRT0_IiOcEEv" ∧
    referredConversion.text (.reference .rvalue (.builtin 'c')) =
      "f::operator char&<int, char&&>()" := by
  have pattern : referredConversion.pattern = .reference .lvalue .param := rfl
  have args : referredConversion.args = [.builtin 'i', .reference .rvalue (.builtin 'c')] := rfl
  simp only [Conversion.code, Conversion.text, Pattern.code, pattern, args, Pattern.form, Pattern.put,
    TypeForm.refer, TypeForm.code, TypeForm.codeWith, TypeForm.declare, List.map]
  decide +kernel

theorem code_strandedConversion : strandedConversion.code = "_ZN1fcvRT0_IiEEv" := by
  have pattern : strandedConversion.pattern = .reference .lvalue .param := rfl
  have args : strandedConversion.args = [.builtin 'i'] := rfl
  simp only [Conversion.code, Pattern.code, pattern, args, Pattern.form, TypeForm.code,
    TypeForm.codeWith, List.map]
  decide +kernel

/-- The reference to the argument collapses with it, and without the argument nothing is given. -/
theorem demangle_referredConversion :
    ({} : Options).maxSymbolLen < Number.bound ∧
      (referredConversion.args[1]? = some (.reference .rvalue (.builtin 'c')) ∧
        ((resting {} 0).demangle "_ZN1fcvRT0_IiOcEEv").1 = .ok "f::operator char&<int, char&&>()") ∧
      strandedConversion.args.length ≤ strandedConversion.index ∧
        (((resting {} 0).demangle "_ZN1fcvRT0_IiEEv").1 = .error .unresolvedForwardReference ∨
          Limited ((resting {} 0).demangle "_ZN1fcvRT0_IiEEv").1) := by
  have bounded : ({} : Options).maxSymbolLen < Number.bound := by decide
  have second : referredConversion.args[1]? = some (.reference .rvalue (.builtin 'c')) := rfl
  have few : strandedConversion.args.length ≤ strandedConversion.index := Nat.le_refl 1
  have referred := (demangle_conversion {} bounded 0 referredConversion).1 _ second
  have stranded := (demangle_conversion {} bounded 0 strandedConversion).2 few
  rw [code_referredConversion.1, code_referredConversion.2] at referred
  rw [code_strandedConversion] at stranded
  have read : ((resting {} 0).demangle "_ZN1fcvRT0_IiOcEEv").1.isOk = true := by decide +kernel
  obtain referred | limited := referred
  · exact ⟨bounded, ⟨second, referred⟩, few, stranded⟩
  · rw [limited.isOk] at read
    cases read

end Examples

end Engine
end Unmangle
