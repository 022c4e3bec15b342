/-!
# The rules of the grammar

Each rule is one production that counts against the nesting limit.
-/
namespace Unmangle

/-- A production. A tracked one belongs to the name of the encoding being read,
and what it learns decides how that encoding goes on. -/
inductive Rule
  | symbol
  | encoding
  | specialName
  | name (tracked : Bool)
  | unqualifiedName (tracked : Bool)
  | nestedName (tracked : Bool)
  | localName (tracked : Bool)
  | operatorName (tracked : Bool)
  | substitution
  | templateArgs (tracked : Bool)
  | templateArg
  | type
  | qualifiedType
  | functionType
  | arrayType
  | memberPointerType
  | namedType
  | decltype
  | vectorType
  | expression
  | bracedExpression
  | literal
  | unresolvedName (isGlobal : Bool)
  | unresolvedType
  | baseUnresolvedName
  deriving Repr, DecidableEq, Inhabited

end Unmangle
