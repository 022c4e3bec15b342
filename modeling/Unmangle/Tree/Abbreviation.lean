/-!
# Abbreviations of the standard library

Six common names have letters of their own. Each has a short form, a form that
spells the alias out where a constructor or destructor is named after it, and the
last component of that.
-/
namespace Unmangle

/-- A name of the standard library with a letter of its own. -/
inductive Abbreviation
  | allocator
  | basicString
  | string
  | istream
  | ostream
  | iostream
  deriving Repr, DecidableEq, Inhabited

namespace Abbreviation

/-- The abbreviation that a letter behind `S` stands for. -/
def ofCode? : Char → Option Abbreviation
  | 'a' => some allocator
  | 'b' => some basicString
  | 's' => some string
  | 'i' => some istream
  | 'o' => some ostream
  | 'd' => some iostream
  | _ => none

/-- The name in ordinary places, inside `std`. -/
def shortName : Abbreviation → String
  | allocator => "allocator"
  | basicString => "basic_string"
  | string => "string"
  | istream => "istream"
  | ostream => "ostream"
  | iostream => "iostream"

/-- The name in front of a constructor or destructor. -/
def expanded : Abbreviation → String
  | allocator => "std::allocator"
  | basicString => "std::basic_string"
  | string => "std::basic_string<char, std::char_traits<char>, std::allocator<char> >"
  | istream => "std::basic_istream<char, std::char_traits<char> >"
  | ostream => "std::basic_ostream<char, std::char_traits<char> >"
  | iostream => "std::basic_iostream<char, std::char_traits<char> >"

/-- The last component of the expanded name. -/
def baseName : Abbreviation → String
  | allocator => "allocator"
  | basicString | string => "basic_string"
  | istream => "basic_istream"
  | ostream => "basic_ostream"
  | iostream => "basic_iostream"

end Abbreviation
end Unmangle
