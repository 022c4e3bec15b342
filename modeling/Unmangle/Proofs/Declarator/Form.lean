import Unmangle.Proofs.Compression.Encoder

/-!
# Forms of types

A type as a symbol writes it without substitutions. A template parameter may stand wherever a
type may, and to fill a form is to put an argument in the place of each.
-/
namespace Unmangle

inductive TypeForm
  /-- A type with a letter of its own. -/
  | builtin (letter : Char)
  /-- A type with a letter behind `D`. -/
  | rare (letter : Char)
  | named (id : Identifier)
  | pointer (target : TypeForm)
  | reference (kind : Reference) (target : TypeForm)
  | memberPointer (scope member : TypeForm)
  | array (length : Nat) (element : TypeForm)
  /-- A function, with qualifiers of its own. -/
  | function (quals : Qualifiers) (result : TypeForm) (params : List TypeForm)
  | qualified (quals : Qualifiers) (target : TypeForm)
  | param (index : Nat)
  deriving Repr

namespace Qualifiers

def union (quals quals' : Qualifiers) : Qualifiers :=
  ⟨quals.isConst || quals'.isConst, quals.isVolatile || quals'.isVolatile,
    quals.isRestrict || quals'.isRestrict⟩

/-- Letters in front of others that are read as one set with them. -/
def runsInto (quals quals' : Qualifiers) : Bool :=
  (quals.union quals').letters == quals.letters ++ quals'.letters

end Qualifiers

def endsIn (byte : UInt8) (words : String) : Bool :=
  (octets words).getLast? == some byte

def endsInBracket (words : String) : Bool :=
  endsIn 93 words

namespace TypeForm

/-- Induction on a form, with a function's parameters as they stand in its list. -/
@[elab_as_elim, induction_eliminator]
theorem induct {motive : TypeForm → Prop} (builtin : ∀ letter, motive (.builtin letter))
    (rare : ∀ letter, motive (.rare letter)) (named : ∀ id, motive (.named id))
    (pointer : ∀ target, motive target → motive (.pointer target))
    (reference : ∀ kind target, motive target → motive (.reference kind target))
    (memberPointer : ∀ scope member, motive scope → motive member →
      motive (.memberPointer scope member))
    (array : ∀ length element, motive element → motive (.array length element))
    (function : ∀ quals result params, motive result → (∀ param ∈ params, motive param) →
      motive (.function quals result params))
    (qualified : ∀ quals target, motive target → motive (.qualified quals target))
    (param : ∀ index, motive (.param index)) (form : TypeForm) : motive form := by
  refine @TypeForm.rec motive (fun params => ∀ param ∈ params, motive param) builtin rare named
    pointer reference memberPointer array function qualified param ?nil ?cons form
  case nil => exact fun _ member => nomatch member
  case cons => exact fun first others ih ihs => List.forall_mem_cons.mpr ⟨ih, ihs⟩

def isReference : TypeForm → Bool
  | reference .. => true
  | _ => false

def isQualified : TypeForm → Bool
  | qualified .. => true
  | _ => false

def isVoid : TypeForm → Bool
  | builtin letter => letter == 'v'
  | _ => false

def isArray : TypeForm → Bool
  | array .. => true
  | qualified _ target => target.isArray
  | _ => false

def isFunction : TypeForm → Bool
  | function .. => true
  | qualified _ target => target.isFunction
  | _ => false

/-- The form itself and all forms inside it. -/
def parts : TypeForm → List TypeForm
  | builtin letter => [builtin letter]
  | rare letter => [rare letter]
  | named id => [named id]
  | pointer target => pointer target :: target.parts
  | reference kind target => reference kind target :: target.parts
  | memberPointer scope member => memberPointer scope member :: (scope.parts ++ member.parts)
  | array length element => array length element :: element.parts
  | function quals result params =>
    function quals result params :: (result.parts ++ (params.map parts).flatten)
  | qualified quals target => qualified quals target :: target.parts
  | param index => [param index]

def Every (P : TypeForm → Prop) (form : TypeForm) : Prop :=
  ∀ part ∈ form.parts, P part

/-- The indices of the parameters, in the order in which they are written. -/
def indices : TypeForm → List Nat
  | builtin _ | rare _ | named _ => []
  | pointer target | reference _ target | array _ target | qualified _ target => target.indices
  | memberPointer scope member => scope.indices ++ member.indices
  | function _ result params => result.indices ++ (params.map indices).flatten
  | param index => [index]

/-- How a form is written, with some text for each parameter. -/
def codeWith (argument : Nat → String) : TypeForm → String
  | builtin letter => String.singleton letter
  | rare letter => "D" ++ String.singleton letter
  | named id => id.code
  | pointer target => "P" ++ target.codeWith argument
  | reference kind target => kind.letter ++ target.codeWith argument
  | memberPointer scope member => "M" ++ (scope.codeWith argument ++ member.codeWith argument)
  | array length element => "A" ++ (Number.numeral 10 length ++ ("_" ++ element.codeWith argument))
  | function quals result params =>
    quals.letters ++ ("F" ++ (result.codeWith argument ++
      ((if params.isEmpty then "v" else String.join (params.map (codeWith argument))) ++ "E")))
  | qualified quals target => quals.letters ++ target.codeWith argument
  | param index => argument index

/-- A template parameter. The first one has no number, and the others are counted on from
zero. -/
def paramCode : Nat → String
  | 0 => "T_"
  | number + 1 => "T" ++ (Number.numeral 10 number ++ "_")

def code (form : TypeForm) : String :=
  form.codeWith paramCode

/-- The letters and the identifiers of a form are ones that show, `void` is no parameter of a
function, and letters that would be read as one set of qualifiers are one, of something else
than a function. -/
def Proper : TypeForm → Prop
  | builtin letter => (Builtin.spelling? letter).isSome
  | rare letter => (Builtin.extendedSpelling? letter).isSome
  | named id => endsInBracket id.words = false
  | function _ _ params => ∀ param ∈ params, param.isVoid = false
  | qualified quals target =>
    quals.isEmpty = false ∧ target.isFunction = false ∧
      ∀ quals' inner, target = qualified quals' inner → quals.runsInto quals' = false
  | _ => True

/-- No reference leads to a reference, and all qualifiers of a type stand together. -/
def Flat : TypeForm → Prop
  | reference _ target => target.isReference = false
  | qualified _ target => target.isQualified = false
  | _ => True

/-- The declaration of a name with a type, from the name outwards: the text is what is
declared so far, and each layer of the type goes around it. -/
def declare : TypeForm → String → String
  | builtin letter, words => (Builtin.spelling? letter).getD "" ++ words
  | rare letter, words => (Builtin.extendedSpelling? letter).getD "" ++ words
  | named id, words => id.text ++ words
  | pointer target, words => target.declare (around target ("*" ++ words))
  | reference kind target, words => target.declare (around target (kind.text ++ words))
  | memberPointer scope member, words =>
    let declarator := scope.declare "" ++ ("::*" ++ words)
    member.declare
      (if member.isArray || member.isFunction then "(" ++ (declarator ++ ")") else " " ++ declarator)
  | array length element, words =>
    element.declare (words ++ ((if endsInBracket words then "" else " ") ++
      ("[" ++ (Number.numeral 10 length ++ "]"))))
  | function quals result params, words =>
    result.declare (" " ++ (words ++ ("(" ++
      (", ".intercalate (params.map fun param => param.declare "") ++ ")")))) ++ quals.text
  | qualified quals target, words => target.declare (quals.text ++ words)
  | param _, words => words
where
  /-- The parentheses of a declarator that leads to an array or a function. -/
  around (target : TypeForm) (declarator : String) : String :=
    if target.isArray then " (" ++ (declarator ++ ")")
    else if target.isFunction then "(" ++ (declarator ++ ")")
    else declarator

theorem indices_param_ne_nil (index : Nat) : (param index).indices ≠ [] := by
  rw [indices]
  exact List.cons_ne_nil _ _

section Every

variable {P Q : TypeForm → Prop} {form : TypeForm}

theorem Every.imp (h : form.Every P) (implies : ∀ part, P part → Q part) : form.Every Q :=
  fun part member => implies part (h part member)

theorem Every.and (h : form.Every P) (h' : form.Every Q) : form.Every fun part => P part ∧ Q part :=
  fun part member => ⟨h part member, h' part member⟩

theorem mem_parts (form : TypeForm) : form ∈ form.parts := by
  cases form <;> simp [parts]

theorem Every.self (h : form.Every P) : P form :=
  h form form.mem_parts

@[simp]
theorem every_pointer : (pointer form).Every P ↔ P (pointer form) ∧ form.Every P := by
  simp [Every, parts]

@[simp]
theorem every_reference {kind : Reference} :
    (reference kind form).Every P ↔ P (reference kind form) ∧ form.Every P := by
  simp [Every, parts]

@[simp]
theorem every_array {length : Nat} :
    (array length form).Every P ↔ P (array length form) ∧ form.Every P := by
  simp [Every, parts]

@[simp]
theorem every_qualified {quals : Qualifiers} :
    (qualified quals form).Every P ↔ P (qualified quals form) ∧ form.Every P := by
  simp [Every, parts]

@[simp]
theorem every_memberPointer {member : TypeForm} :
    (memberPointer form member).Every P ↔
      P (memberPointer form member) ∧ form.Every P ∧ member.Every P := by
  simp only [Every, parts, List.forall_mem_cons, List.forall_mem_append]

@[simp]
theorem every_function {quals : Qualifiers} {params : List TypeForm} :
    (function quals form params).Every P ↔
      P (function quals form params) ∧ form.Every P ∧ ∀ param ∈ params, param.Every P := by
  simp only [Every, parts, List.forall_mem_cons, List.forall_mem_append, List.mem_flatten,
    List.mem_map]
  constructor
  · rintro ⟨self, result, others⟩
    exact ⟨self, result, fun param member part inside =>
      others part ⟨_, ⟨param, member, rfl⟩, inside⟩⟩
  · rintro ⟨self, result, others⟩
    refine ⟨self, result, ?_⟩
    rintro part ⟨_, ⟨param, member, rfl⟩, inside⟩
    exact others param member part inside

@[simp]
theorem every_builtin {letter : Char} : (builtin letter).Every P ↔ P (builtin letter) := by
  simp [Every, parts]

@[simp]
theorem every_rare {letter : Char} : (rare letter).Every P ↔ P (rare letter) := by
  simp [Every, parts]

@[simp]
theorem every_named {id : Identifier} : (named id).Every P ↔ P (named id) := by
  simp [Every, parts]

@[simp]
theorem every_param {index : Nat} : (param index).Every P ↔ P (param index) := by
  simp [Every, parts]

end Every

end TypeForm
end Unmangle
