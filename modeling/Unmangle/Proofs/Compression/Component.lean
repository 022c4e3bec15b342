import Unmangle.Proofs.Compression.Numeral
import Unmangle.Tree.Node

/-!
# Components

The types that have a compressed form: built-in types, classes inside classes, pointers,
references, and types with qualifiers. A class that others are inside is the same
component wherever it stands.
-/
namespace Unmangle

/-- An identifier is not empty and begins with no digit, or its length would not show. -/
structure Identifier where
  words : String
  opens : (octets words).head?.any (fun byte => !Number.isDigit byte) = true
  deriving Repr, DecidableEq

/-- The identifier of the examples. -/
theorem Identifier.opens_f : (octets "f").head?.any (fun byte => !Number.isDigit byte) = true := by
  decide

/-- A class, at the top or inside another. -/
inductive ClassPath
  | top (id : Identifier)
  | inside (scope : ClassPath) (id : Identifier)
  deriving Repr, DecidableEq

inductive Component
  /-- A type with a letter of its own. -/
  | builtin (letter : Char)
  | named (path : ClassPath)
  | pointer (target : Component)
  | reference (kind : Reference) (target : Component)
  | qualified (quals : Qualifiers) (target : Component)
  deriving Repr, DecidableEq

namespace Identifier

/-- What is shown of an identifier. One that begins `_GLOBAL__N` was made up. -/
def text (id : Identifier) : String :=
  if ((⟨0, octets id.words⟩ : Cursor).strip? "_GLOBAL__N".toList).isSome then
    "(anonymous namespace)"
  else id.words

end Identifier

namespace ClassPath

def text : ClassPath → String
  | top id => id.text
  | inside scope id => scope.text ++ "::" ++ id.text

def length : ClassPath → Nat
  | top _ => 1
  | inside scope _ => scope.length + 1

end ClassPath

namespace Reference

def letter : Reference → String
  | lvalue => "R"
  | rvalue => "O"

def text : Reference → String
  | lvalue => "&"
  | rvalue => "&&"

end Reference

namespace Qualifiers

def letters (quals : Qualifiers) : String :=
  (if quals.isRestrict then "r" else "") ++ (if quals.isVolatile then "V" else "") ++
    (if quals.isConst then "K" else "")

def text (quals : Qualifiers) : String :=
  (if quals.isConst then " const" else "") ++ (if quals.isVolatile then " volatile" else "") ++
    (if quals.isRestrict then " restrict" else "")

end Qualifiers

namespace Component

def isReference : Component → Bool
  | reference .. => true
  | _ => false

def isQualified : Component → Bool
  | qualified .. => true
  | _ => false

/-- Letters name types, no reference leads to a reference, and all qualifiers of a type
stand together. -/
def WellFormed : Component → Prop
  | builtin letter => (Builtin.spelling? letter).isSome
  | named _ => True
  | pointer target => target.WellFormed
  | reference _ target => target.isReference = false ∧ target.WellFormed
  | qualified quals target =>
    quals.isEmpty = false ∧ target.isQualified = false ∧ target.WellFormed

/-- What a component is spelled as. -/
def text : Component → String
  | builtin letter => (Builtin.spelling? letter).getD ""
  | named path => path.text
  | pointer target => target.text ++ "*"
  | reference kind target => target.text ++ kind.text
  | qualified quals target => target.text ++ quals.text

/-- Levels that are enough to read a component and to spell it. -/
def height : Component → Nat
  | builtin _ => 2
  | named path => path.length + 4
  | pointer target => target.height + 1
  | reference _ target => target.height + 1
  | qualified _ target => target.height + 2

/-- Every component takes up two levels at least. -/
theorem two_le_height (component : Component) : 2 ≤ component.height := by
  induction component with
  | builtin _ => exact Nat.le_refl 2
  | named path => exact Nat.le_add_left_of_le (by omega)
  | pointer _ ih | reference _ _ ih | qualified _ _ ih =>
    simp only [height]
    omega

end Component

/-- A function and its parameters. The first one is not `void`, which would stand for
no parameters. -/
structure Signature where
  name : Identifier
  params : List Component
  wellFormed : ∀ param ∈ params, param.WellFormed
  first : params.head? ≠ some (.builtin 'v')

namespace Signature

def text (signature : Signature) : String :=
  signature.name.text ++ "(" ++ ", ".intercalate (signature.params.map Component.text) ++ ")"

/-- Levels that are enough to read the symbol of a function and to spell it. -/
def height (signature : Signature) : Nat :=
  (signature.params.map Component.height).foldr max 2 + 2

theorem four_le_height (signature : Signature) : 4 ≤ signature.height := by
  have least : ∀ heights : List Nat, 2 ≤ heights.foldr max 2 := by
    intro heights
    induction heights with
    | nil => exact Nat.le_refl 2
    | cons height heights ih => exact Nat.le_trans ih (Nat.le_max_right _ _)
  exact Nat.add_le_add_right (least _) 2

/-- Every parameter is within the height of its function. -/
theorem height_le {signature : Signature} {param : Component} (h : param ∈ signature.params) :
    param.height + 2 ≤ signature.height := by
  have most : ∀ params : List Component, param ∈ params →
      param.height ≤ (params.map Component.height).foldr max 2 := by
    intro params hmem
    induction params with
    | nil => cases hmem
    | cons first others ih =>
      rcases List.mem_cons.mp hmem with rfl | hmem
      · exact Nat.le_max_left _ _
      · exact Nat.le_trans (ih hmem) (Nat.le_max_right _ _)
  exact Nat.add_le_add_right (most _ h) 2

end Signature
end Unmangle
