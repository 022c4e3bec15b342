/-!
# Codes of built-in types

One letter names each common type, and `D` with a letter each rarer one. The
letter also decides how an integer literal of the type is written.
-/
namespace Unmangle.Builtin

/-- The type of a one-letter code. -/
def spelling? : Char → Option String
  | 'v' => some "void"
  | 'w' => some "wchar_t"
  | 'b' => some "bool"
  | 'c' => some "char"
  | 'a' => some "signed char"
  | 'h' => some "unsigned char"
  | 's' => some "short"
  | 't' => some "unsigned short"
  | 'i' => some "int"
  | 'j' => some "unsigned int"
  | 'l' => some "long"
  | 'm' => some "unsigned long"
  | 'x' => some "long long"
  | 'y' => some "unsigned long long"
  | 'n' => some "__int128"
  | 'o' => some "unsigned __int128"
  | 'f' => some "float"
  | 'd' => some "double"
  | 'e' => some "long double"
  | 'g' => some "__float128"
  | 'z' => some "..."
  | _ => none

/-- The type of a code that follows `D`. -/
def extendedSpelling? : Char → Option String
  | 'd' => some "decimal64"
  | 'e' => some "decimal128"
  | 'f' => some "decimal32"
  | 'h' => some "half"
  | 'i' => some "char32_t"
  | 's' => some "char16_t"
  | 'u' => some "char8_t"
  | 'a' => some "auto"
  | 'c' => some "decltype(auto)"
  | 'n' => some "std::nullptr_t"
  | _ => none

/-- How the type of an integer literal shows. -/
inductive LiteralType
  /-- Behind the digits. -/
  | suffix (letters : String)
  /-- In front of the digits, in parentheses. -/
  | cast (type : String)
  deriving Repr, DecidableEq, Inhabited

/-- The literal type of a one-letter code, if it is an integer type. -/
def literalType? : Char → Option LiteralType
  | 'w' => some (.cast "wchar_t")
  | 'c' => some (.cast "char")
  | 'a' => some (.cast "signed char")
  | 'h' => some (.cast "unsigned char")
  | 's' => some (.cast "short")
  | 't' => some (.cast "unsigned short")
  | 'i' => some (.suffix "")
  | 'j' => some (.suffix "u")
  | 'l' => some (.suffix "l")
  | 'm' => some (.suffix "ul")
  | 'x' => some (.suffix "ll")
  | 'y' => some (.suffix "ull")
  | 'n' => some (.cast "__int128")
  | 'o' => some (.cast "unsigned __int128")
  | _ => none

end Unmangle.Builtin
