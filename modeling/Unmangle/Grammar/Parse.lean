import Unmangle.Grammar.Encoding
import Unmangle.Grammar.Expression
import Unmangle.Grammar.Literal
import Unmangle.Grammar.Type

/-!
# Parsing a symbol

The rules are tied together by the nesting limit: a rule that is read inside
another has one level less to spend, so reading always ends.
-/
namespace Unmangle
namespace Rule

/-- What a rule reads, given a way to read every rule. -/
def body (call : Calls) : Rule → Parse NodeId
  | symbol => Parse.symbol call
  | encoding => Parse.encoding call
  | specialName => Parse.specialName call
  | name tracked => Parse.name call tracked
  | unqualifiedName tracked => Parse.unqualifiedName call tracked
  | nestedName tracked => Parse.nestedName call tracked
  | localName tracked => Parse.localName call tracked
  | operatorName tracked => Parse.operatorName call tracked
  | substitution => Parse.substitution
  | templateArgs tracked => Parse.templateArgs call tracked
  | templateArg => Parse.templateArg call
  | type => Parse.type call
  | qualifiedType => Parse.qualifiedType call
  | functionType => Parse.functionType call
  | arrayType => Parse.arrayType call
  | memberPointerType => Parse.memberPointerType call
  | namedType => Parse.namedType call
  | decltype => Parse.decltype call
  | vectorType => Parse.vectorType call
  | expression => Parse.expression call
  | bracedExpression => Parse.bracedExpression call
  | literal => Parse.literal call
  | unresolvedName isGlobal => Parse.unresolvedName call isGlobal
  | unresolvedType => Parse.unresolvedType call
  | baseUnresolvedName => Parse.baseUnresolvedName call

/-- Read a rule under a nesting limit, with a number of levels to spend. -/
def parse (limit : Nat) : Nat → Rule → Parse NodeId
  | 0, _ => Parse.throw .tooMuchRecursion
  | levels + 1, rule => .reading rule (.deeper limit (rule.body (parse limit levels)))

end Rule

/-- Read a whole symbol into a workspace. -/
def parseSymbol (limit : Nat) (level : Nat) (work : Workspace) (symbol : ByteArray) :
    EStateM.Result Fault ParseState NodeId :=
  (Rule.parse limit limit .symbol).run
    { cursor := Cursor.start symbol, level := level, work := work }

end Unmangle
