import Unmangle.Proofs.Compression.Spelled
import Unmangle.Proofs.Declarator.Form

/-!
# The two halves of a type

What stands before a declared name and what stands behind it, put together from the inside
outwards. The halves of a type around a name are the declaration of the name.
-/
namespace Unmangle

/-- What a type is spelled as before a declared name, and behind it. A dimension stands next
to a bracket and apart from all else. -/
structure Halves where
  left : String
  right : Bool → String
  /-- What the type has behind the name. -/
  tail : Tail → Bool

namespace Halves

def leaf (words : String) : Halves where
  left := words
  right _ := ""
  tail _ := false

/-- The declarator of a pointer needs parentheses. -/
def isTailed (halves : Halves) : Bool :=
  halves.tail .array || halves.tail .function

def opening (halves : Halves) : String :=
  (if halves.tail .array then " " else "") ++ (if halves.isTailed then "(" else "")

def closed (halves : Halves) (bracket : Bool) : String :=
  if halves.isTailed then ")" ++ halves.right false else halves.right bracket

def wrap (sign : String) (halves : Halves) : Halves where
  left := halves.left ++ (halves.opening ++ sign)
  right := halves.closed
  tail tail := tail == .any && halves.tail .any

def member (scope : String) (halves : Halves) : Halves where
  left := halves.left ++ ((if halves.isTailed then "(" else " ") ++ (scope ++ "::*"))
  right := halves.closed
  tail tail := tail == .any && halves.tail .any

def array (length : String) (halves : Halves) : Halves where
  left := halves.left
  right bracket :=
    (if !bracket then " " else "") ++ (("[" ++ (length ++ "]")) ++ halves.right true)
  tail tail := tail != .function

/-- A function with these parameters, and qualifiers of its own behind all else. -/
def function (params : String) (quals : Qualifiers) (halves : Halves) : Halves where
  left := halves.left ++ " "
  right _ := ("(" ++ (params ++ ")")) ++ (halves.right false ++ quals.text)
  tail tail := tail != .array

def qualified (quals : Qualifiers) (halves : Halves) : Halves :=
  { halves with left := halves.left ++ quals.text }

def text (halves : Halves) : String :=
  halves.left ++ halves.right false

/-- There is something before the name, and it does not end in a bracket. -/
def Solid (halves : Halves) : Prop :=
  halves.left ≠ "" ∧ endsInBracket halves.left = false

end Halves

/-- A type to be spelled. A reference is kept apart from what it refers to, since another one
may be put on it. -/
structure Spelling where
  ref : Option Reference
  base : Halves

namespace Spelling

def plain (halves : Halves) : Spelling :=
  ⟨none, halves⟩

/-- What a reference on the type comes to. -/
def under (spelling : Spelling) (kind : Reference) : Reference :=
  match spelling.ref with
  | none => kind
  | some inner => kind.collapse inner

def refer (kind : Reference) (spelling : Spelling) : Spelling :=
  ⟨some (spelling.under kind), spelling.base⟩

def halves (spelling : Spelling) : Halves :=
  match spelling.ref with
  | none => spelling.base
  | some kind => spelling.base.wrap kind.text

def text (spelling : Spelling) : String :=
  spelling.halves.text

end Spelling

/-- How a form is spelled where its parameters have arguments. -/
def TypeForm.spelling (argument : Nat → Spelling) : TypeForm → Spelling
  | builtin letter => .plain (.leaf ((Builtin.spelling? letter).getD ""))
  | rare letter => .plain (.leaf ((Builtin.extendedSpelling? letter).getD ""))
  | named id => .plain (.leaf id.text)
  | pointer target => .plain ((target.spelling argument).halves.wrap "*")
  | reference kind target => (target.spelling argument).refer kind
  | memberPointer scope member =>
    .plain ((member.spelling argument).halves.member (scope.spelling argument).text)
  | array length element =>
    .plain ((element.spelling argument).halves.array (Number.numeral 10 length))
  | function quals result params =>
    .plain ((result.spelling argument).halves.function
      (", ".intercalate (params.map fun param => (param.spelling argument).text)) quals)
  | qualified quals target => .plain ((target.spelling argument).halves.qualified quals)
  | param index => argument index

def TypeForm.closedSpelling (form : TypeForm) : Spelling :=
  form.spelling fun _ => .plain (.leaf "")

section Brackets

variable {words words' : String}

theorem octets_ne_nil (some : words ≠ "") : octets words ≠ [] := by
  intro nothing
  have size := length_octets words
  rw [nothing] at size
  exact some (String.utf8ByteSize_eq_zero_iff.mp size.symm)

theorem append_ne_empty (words : String) (some : words' ≠ "") : words ++ words' ≠ "" :=
  fun nothing => some (String.append_eq_empty_iff.mp nothing).2

theorem endsIn_append (byte : UInt8) (some : words' ≠ "") :
    endsIn byte (words ++ words') = endsIn byte words' := by
  unfold endsIn
  rw [octets_append, List.getLast?_append_of_ne_nil _ (octets_ne_nil some)]

/-- Words in front do not matter unless they end in the byte. -/
theorem endsIn_append_of_not {byte : UInt8} (other : endsIn byte words = false) :
    endsIn byte (words ++ words') = endsIn byte words' := by
  by_cases some : words' = ""
  · rw [some, String.append_empty, other]
    rfl
  · exact endsIn_append byte some

theorem endsInBracket_append (some : words' ≠ "") :
    endsInBracket (words ++ words') = endsInBracket words' :=
  endsIn_append 93 some

theorem endsInBracket_append_of_not (other : endsInBracket words = false) :
    endsInBracket (words ++ words') = endsInBracket words' :=
  endsIn_append_of_not other

theorem endsInBracket_closing (words : String) : endsInBracket (words ++ ")") = false := by
  rw [endsInBracket_append (by decide)]
  decide

theorem Qualifiers.endsInBracket_text (quals : Qualifiers) : endsInBracket quals.text = false := by
  rcases quals with ⟨_ | _, _ | _, _ | _⟩ <;> decide

end Brackets

namespace Halves

variable {halves : Halves}

theorem Solid.append (words : String) {words' : String} (some : words' ≠ "")
    (other : endsInBracket words' = false) :
    words ++ words' ≠ "" ∧ endsInBracket (words ++ words') = false := by
  exact ⟨append_ne_empty words some, (endsInBracket_append some).trans other⟩

theorem solid_wrap {sign : String} (some : sign ≠ "") (other : endsInBracket sign = false) :
    (halves.wrap sign).Solid := by
  unfold Solid wrap
  rw [← String.append_assoc]
  exact Solid.append _ some other

theorem solid_member (scope : String) : (halves.member scope).Solid := by
  unfold Solid member
  rw [← String.append_assoc, ← String.append_assoc]
  exact Solid.append _ (by decide) (by decide)

theorem solid_function (params : String) (quals : Qualifiers) :
    (halves.function params quals).Solid :=
  Solid.append _ (by decide) (by decide)

theorem solid_qualified {quals : Qualifiers} (some : quals.isEmpty = false) :
    (halves.qualified quals).Solid := by
  refine Solid.append _ ?_ quals.endsInBracket_text
  rcases quals with ⟨_ | _, _ | _, _ | _⟩
  · cases some
  all_goals decide

theorem Solid.text_ne_empty (h : halves.Solid) : halves.text ≠ "" :=
  fun nothing => h.1 (String.append_eq_empty_iff.mp nothing).1

/-- What a pointer has behind it goes around the declared name. -/
theorem closed_around (words : String) :
    halves.opening ++ (words ++ halves.closed (endsInBracket words)) =
      (if halves.tail .array then " (" ++ (words ++ ")")
        else if halves.tail .function then "(" ++ (words ++ ")") else words) ++
        halves.right (endsInBracket (if halves.tail .array then " (" ++ (words ++ ")")
          else if halves.tail .function then "(" ++ (words ++ ")") else words)) := by
  have ends (opening : String) : endsInBracket (opening ++ (words ++ ")")) = false := by
    rw [← String.append_assoc, endsInBracket_closing]
  have opened (more : String) : " " ++ ("(" ++ more) = " (" ++ more := by
    rw [← String.append_assoc]
    rfl
  unfold opening closed isTailed
  cases array : halves.tail .array <;> cases function : halves.tail .function <;>
    simp only [Bool.or_true, Bool.or_false, Bool.or_self, if_true, if_false, Bool.false_eq_true,
      String.empty_append, ends] <;> simp only [String.append_assoc, opened]

/-- What a pointer to a member has behind it goes around the declared name too. -/
theorem member_around (scope words : String) :
    halves.left ++
        ((if halves.tail .array || halves.tail .function then "(" ++ (scope ++ ("::*" ++ words) ++ ")")
          else " " ++ (scope ++ ("::*" ++ words))) ++
        halves.right (endsInBracket (if halves.tail .array || halves.tail .function
          then "(" ++ (scope ++ ("::*" ++ words) ++ ")") else " " ++ (scope ++ ("::*" ++ words))))) =
      (halves.member scope).left ++ (words ++ (halves.member scope).right (endsInBracket words)) := by
  have closing : endsInBracket ("(" ++ (scope ++ ("::*" ++ words) ++ ")")) = false := by
    rw [← String.append_assoc, endsInBracket_closing]
  have star : endsInBracket (" " ++ (scope ++ "::*")) = false := by
    rw [← String.append_assoc, endsInBracket_append (by decide)]
    decide
  have behind : endsInBracket (" " ++ (scope ++ ("::*" ++ words))) = endsInBracket words := by
    have last : endsInBracket (" " ++ (scope ++ "::*") ++ words) = endsInBracket words :=
      endsInBracket_append_of_not star
    rw [← last]
    simp only [String.append_assoc]
  unfold member closed isTailed
  cases tailed : halves.tail .array || halves.tail .function
  · simp only [Bool.false_eq_true, if_false, behind, String.append_assoc]
  · simp only [if_true, closing]
    simp only [String.append_assoc]

end Halves

namespace TypeForm

variable {form : TypeForm} {argument : Nat → Spelling}

theorem ref_spelling (closed : form.indices = []) (other : form.isReference = false) :
    (form.spelling argument).ref = none := by
  cases form with
  | reference kind target => cases other
  | param index => exact absurd closed (indices_param_ne_nil index)
  | _ =>
    unfold spelling
    rfl

/-- A closed form has the right half of an array or a function just if it is one. -/
theorem tail_spelling (argument : Nat → Spelling) (closed : form.indices = []) :
    (form.spelling argument).halves.tail .array = form.isArray ∧
      (form.spelling argument).halves.tail .function = form.isFunction := by
  induction form with
  | qualified quals target ih =>
    rw [indices] at closed
    rw [spelling, isArray, isFunction, ← (ih closed).1, ← (ih closed).2]
    exact ⟨rfl, rfl⟩
  | param index => exact absurd closed (indices_param_ne_nil index)
  | _ =>
    rw [spelling]
    exact ⟨rfl, rfl⟩

/-- Both halves of a target around a sign are what its declarator makes of the sign. -/
theorem declare_around {target : TypeForm} {halves : Halves} (array : halves.tail .array = target.isArray)
    (function : halves.tail .function = target.isFunction) (sign words : String)
    (some : endsInBracket sign = false) :
    halves.left ++ (declare.around target (sign ++ words) ++
        halves.right (endsInBracket (declare.around target (sign ++ words)))) =
      (halves.wrap sign).left ++ (words ++ (halves.wrap sign).right (endsInBracket words)) := by
  have around := halves.closed_around (sign ++ words)
  rw [array, function, endsInBracket_append_of_not some] at around
  unfold declare.around Halves.wrap
  rw [← around]
  simp only [String.append_assoc]

/-- A name declared with a type stands between the halves of the type. -/
theorem declare_eq (closed : form.indices = []) (flat : form.Every Flat) (words : String) :
    form.declare words = (form.spelling argument).halves.left ++
      (words ++ (form.spelling argument).halves.right (endsInBracket words)) := by
  induction form generalizing words with
  | builtin letter | rare letter | named id =>
    rw [declare, spelling]
    show _ = _ ++ (words ++ "")
    rw [String.append_empty]
    rfl
  | pointer target ih =>
    rw [indices] at closed
    rw [every_pointer] at flat
    obtain ⟨array, function⟩ := tail_spelling argument closed
    rw [declare, ih closed flat.2, spelling]
    exact declare_around array function "*" words (by decide)
  | reference kind target ih =>
    rw [indices] at closed
    rw [every_reference] at flat
    obtain ⟨array, function⟩ := tail_spelling argument closed
    rw [declare, ih closed flat.2, declare_around array function kind.text words
      (by cases kind <;> decide), spelling, Spelling.refer]
    simp only [Spelling.halves, Spelling.under, ref_spelling closed flat.1]
  | memberPointer scope member ihScope ihMember =>
    rw [indices, List.append_eq_nil_iff] at closed
    rw [every_memberPointer] at flat
    obtain ⟨array, function⟩ := tail_spelling argument closed.2
    have shown : scope.declare "" = (scope.spelling argument).text := by
      rw [ihScope closed.1 flat.2.1, String.empty_append]
      rfl
    rw [declare, shown, ihMember closed.2 flat.2.2, spelling]
    simp only [Spelling.halves, Spelling.plain, ← array, ← function]
    exact Halves.member_around _ words
  | array length element ih =>
    rw [indices] at closed
    rw [every_array] at flat
    have ends : endsInBracket (words ++ ((if endsInBracket words then "" else " ") ++
        ("[" ++ (Number.numeral 10 length ++ "]")))) = true := by
      rw [← String.append_assoc, ← String.append_assoc, ← String.append_assoc,
        endsInBracket_append (by decide)]
      decide
    rw [declare, ih closed flat.2, ends, spelling]
    cases endsInBracket words <;>
      simp only [Spelling.halves, Spelling.plain, Halves.array, Bool.not_true, Bool.not_false,
        Bool.false_eq_true, if_true, if_false, String.append_assoc]
  | function quals result params ihResult ihParams =>
    rw [indices, List.append_eq_nil_iff] at closed
    rw [every_function] at flat
    have shown : params.map (fun param => param.declare "") =
        params.map fun param => (param.spelling argument).text := by
      refine List.map_congr_left ?_
      intro param member
      rw [ihParams param member ?_ (flat.2.2 param member), String.empty_append]
      · rfl
      · exact List.flatten_eq_nil_iff.mp closed.2 _ (List.mem_map_of_mem member)
    have ends (inner : String) : endsInBracket (" " ++ (words ++ ("(" ++ (inner ++ ")")))) = false := by
      rw [← String.append_assoc, ← String.append_assoc, ← String.append_assoc, endsInBracket_closing]
    rw [declare, ihResult closed.1 flat.2.1, shown, ends, spelling]
    simp only [Spelling.halves, Spelling.plain, Halves.function, String.append_assoc]
  | qualified quals target ih =>
    rw [indices] at closed
    rw [every_qualified] at flat
    rw [declare, ih closed flat.2, endsInBracket_append_of_not quals.endsInBracket_text, spelling]
    simp only [Spelling.halves, Spelling.plain, Halves.qualified, String.append_assoc]
  | param index => exact absurd closed (indices_param_ne_nil index)

/-- A type that declares nothing is spelled as it is declared. -/
theorem declare_nothing (closed : form.indices = []) (flat : form.Every Flat) :
    form.declare "" = form.closedSpelling.text := by
  rw [declare_eq closed flat, String.empty_append]
  rfl

end TypeForm
end Unmangle
