import Unmangle.Store
import Unmangle.Tree.Text
import Unmangle.Tree.Builtin
import Unmangle.Tree.Abbreviation

/-!
# The tree of a symbol

A node is one component of the demangled form. Its children are names of other
nodes of the same store.
-/
namespace Unmangle

/-- Which of the three qualifiers a type carries. -/
structure Qualifiers where
  isConst : Bool := false
  isVolatile : Bool := false
  isRestrict : Bool := false
  deriving Repr, DecidableEq, Inhabited

namespace Qualifiers

def isEmpty (quals : Qualifiers) : Bool :=
  !(quals.isConst || quals.isVolatile || quals.isRestrict)

end Qualifiers

/-- The two kinds of reference. -/
inductive Reference
  | lvalue
  | rvalue
  deriving Repr, DecidableEq, Inhabited

namespace Reference

/-- A reference to a reference is an rvalue reference only if both are. -/
def collapse : Reference → Reference → Reference
  | rvalue, rvalue => rvalue
  | _, _ => lvalue

end Reference

/-- Formats of floating-point literals. -/
inductive FloatFormat
  | single
  | double
  /-- Eighty bits with an explicit leading bit. -/
  | extended
  deriving Repr, DecidableEq, Inhabited

namespace FloatFormat

/-- The format of a literal whose type has a one-letter code. -/
def ofCode? : Char → Option FloatFormat
  | 'f' => some single
  | 'd' => some double
  | 'e' => some extended
  | _ => none

/-- The number of hex digits in a literal. -/
def digits : FloatFormat → Nat
  | single => 8
  | double => 16
  | extended => 20

end FloatFormat

/-- One component of a demangled form. Children are names in the same store. -/
inductive Node
  -- names
  | name (text : Text)
  | nestedName (scope name : NodeId)
  | localName (encoding entity : NodeId)
  | stdName (name : NodeId)
  | qualifiedName (scope name : NodeId)
  | globalName (name : NodeId)
  | instantiation (name args : NodeId)
  | templateArgs (args : NodeList)
  | abiTagged (base : NodeId) (tag : Text)
  | constructorName (base : NodeId)
  | destructorName (base : NodeId)
  /-- A destructor named inside an expression. -/
  | destroyed (type : NodeId)
  | conversionName (type : NodeId)
  | literalOperator (name : NodeId)
  | unnamedType (count : Text)
  | closureType (params : NodeList) (count : Text)
  | structuredBinding (names : NodeList)
  | abbreviation (short : Abbreviation)
  | expandedAbbreviation (short : Abbreviation)
  -- references to template arguments, spelled as their target
  | templateParam (target : NodeId)
  | forwardParam (index : Nat) (target : Option NodeId)
  -- encodings
  | function (result : Option NodeId) (name : NodeId) (params : NodeList)
      (quals : Qualifiers) (ref : Option Reference)
  | special (title : String) (child : NodeId)
  | constructionVtable (base derived : NodeId)
  | clone (encoding : NodeId) (suffix : Text)
  -- types
  | qualified (type : NodeId) (quals : Qualifiers)
  | vendorQualified (type : NodeId) (extension : Text)
  | trailingQualified (type : NodeId) (words : String)
  | elaborated (keyword : String) (name : NodeId)
  | pointer (pointee : NodeId)
  | reference (kind : Reference) (pointee : NodeId)
  | memberPointer (scope member : NodeId)
  | array (element : NodeId) (dimension : Option NodeId)
  | functionType (result : NodeId) (params : NodeList) (quals : Qualifiers)
      (ref : Option Reference) (exception : Option NodeId)
  | noexceptSpec (condition : NodeId)
  | throwSpec (types : NodeList)
  | vector (element : NodeId) (dimension : Option NodeId)
  | pixelVector (dimension : NodeId)
  | binaryFloat (width : Text)
  -- packs
  | argumentPack (elements : NodeList)
  | parameterPack (elements : NodeList)
  | expansion (pattern : NodeId)
  -- expressions
  | binary (left : NodeId) (symbol : String) (right : NodeId)
  | leading (symbol : String) (operand : NodeId)
  | trailing (operand : NodeId) (symbol : String)
  | subscript (base index : NodeId)
  | member (left : NodeId) (symbol : String) (right : NodeId)
  | conditional (condition yes no : NodeId)
  | call (callee : NodeId) (args : NodeList)
  | new (placement : NodeList) (type : NodeId) (inits : NodeList) (isGlobal isArray : Bool)
  | delete (operand : NodeId) (isGlobal isArray : Bool)
  | namedCast (keyword : String) (type operand : NodeId)
  | conversion (type : NodeId) (operands : NodeList)
  | enclosing (words : String) (inner : NodeId)
  | initList (type : Option NodeId) (inits : NodeList)
  | fieldInit (field init : NodeId)
  | indexInit (index init : NodeId)
  | rangeInit (first last init : NodeId)
  | throw (operand : NodeId)
  /-- A pack folded over an operator, from the left or from the right. -/
  | fold (fromLeft : Bool) (symbol : String) (pack : NodeId) (init : Option NodeId)
  | functionParam (number : Text)
  | integer (type : Builtin.LiteralType) (value : Text)
  | boolean (value : Bool)
  /-- The hex digits of a bit pattern, highest first. -/
  | float (format : FloatFormat) (bits : Text)
  | enumerator (type : NodeId) (value : Text)
  | stringLiteral (type : NodeId)
  | lambdaLiteral (type : NodeId)
  | packSize (pack : NodeId)
  | elements (nodes : NodeList)
  deriving Repr, DecidableEq, Inhabited

/-- The store of one symbol. -/
abbrev Tree := Store Node

namespace Tree

/-- The node of a name. A name that holds nothing reads as an empty name. -/
def node (tree : Tree) (id : NodeId) : Node :=
  (tree.get? id).getD (.name .empty)

end Tree
end Unmangle
