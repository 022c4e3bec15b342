import Unmangle.Proofs.Compression.Component

/-!
# Symbols written out and compressed

Written out, every component stands in full wherever it occurs. Compressed, a component
that occurred before is a substitution: the place of the component in the list of those
written so far, each listed behind its own parts.
-/
namespace Unmangle

/-- The substitution for a place of the list. -/
def substitutionCode : Nat → String
  | 0 => "S_"
  | number + 1 => "S" ++ Number.numeral 36 number ++ "_"

abbrev Encoded := String × List Component

/-- The substitution for a listed component. Any other is encoded and then listed. -/
def abbreviate (listed : List Component) (component : Component) (otherwise : Encoded) : Encoded :=
  match listed.idxOf? component with
  | some place => (substitutionCode place, listed)
  | none => (otherwise.1, otherwise.2 ++ [component])

namespace Identifier

def code (id : Identifier) : String :=
  Number.numeral 10 id.words.utf8ByteSize ++ id.words

end Identifier

namespace ClassPath

def plain : ClassPath → String
  | top id => id.code
  | inside scope id => scope.plain ++ id.code

/-- A path in front of more identifiers. -/
def compress (listed : List Component) : ClassPath → Encoded
  | top id => abbreviate listed (.named (top id)) (id.code, listed)
  | inside scope id =>
    abbreviate listed (.named (inside scope id))
      ((scope.compress listed).1 ++ id.code, (scope.compress listed).2)

end ClassPath

namespace Component

/-- A component written out. -/
def plain : Component → String
  | builtin letter => String.singleton letter
  | named (.top id) => id.code
  | named (.inside scope id) => "N" ++ scope.plain ++ id.code ++ "E"
  | pointer target => "P" ++ target.plain
  | reference kind target => kind.letter ++ target.plain
  | qualified quals target => quals.letters ++ target.plain

/-- A component in compressed form. -/
def compress (listed : List Component) : Component → Encoded
  | builtin letter => (String.singleton letter, listed)
  | named (.top id) => abbreviate listed (named (.top id)) (id.code, listed)
  | named (.inside scope id) =>
    abbreviate listed (named (.inside scope id))
      ("N" ++ (scope.compress listed).1 ++ id.code ++ "E", (scope.compress listed).2)
  | pointer target =>
    abbreviate listed (pointer target)
      ("P" ++ (target.compress listed).1, (target.compress listed).2)
  | reference kind target =>
    abbreviate listed (reference kind target)
      (kind.letter ++ (target.compress listed).1, (target.compress listed).2)
  | qualified quals target =>
    abbreviate listed (qualified quals target)
      (quals.letters ++ (target.compress listed).1, (target.compress listed).2)

def compressAll (listed : List Component) : List Component → String
  | [] => ""
  | component :: rest =>
    (component.compress listed).1 ++ compressAll (component.compress listed).2 rest

end Component

namespace Signature

/-- The symbol of a function around its parameters. `v` stands for no parameters. -/
def symbol (signature : Signature) (params : String) : String :=
  "_Z" ++ signature.name.code ++ (if signature.params.isEmpty then "v" else params)

/-- The symbol with every parameter written out. -/
def plain (signature : Signature) : String :=
  signature.symbol (String.join (signature.params.map Component.plain))

/-- The symbol with substitutions wherever there can be one. -/
def compressed (signature : Signature) : String :=
  signature.symbol (Component.compressAll [] signature.params)

end Signature
end Unmangle
