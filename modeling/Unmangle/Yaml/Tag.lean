import Unmangle.Yaml.Source

/-!
# Tags and directives of YAML

A tag is a handle and a suffix. The directives in front of a document say what the
handles stand for, and two handles need no directive.
-/
namespace Unmangle.Yaml

/-- A tag as it is written. One without a handle is complete. -/
structure Tag where
  handle : List Char
  suffix : List Char
  deriving Repr, DecidableEq, Inhabited

/-- What a line that begins with a percent sign says. -/
inductive Directive
  | version (major minor : Nat)
  | tag (handle expansion : List Char)
  deriving Repr, DecidableEq, Inhabited

/-- The characters of a suffix. Punctuation of brackets may stand between `<` and `>`
and in directives. -/
def isUriChar (isVerbatim : Bool) (c : Char) : Bool :=
  isWord c || ";/?:@&=+$.%!~*'()".toList.contains c ||
    (isVerbatim && (c == ',' || c == '[' || c == ']'))

/-- The number of bytes of a character, by its first one. -/
def utf8Length? (byte : Nat) : Option Nat :=
  if byte < 0x80 then some 1
  else if byte < 0xC0 then none
  else if byte < 0xE0 then some 2
  else if byte < 0xF0 then some 3
  else if byte < 0xF8 then some 4
  else none

def uriByte? : List Char → Option Nat
  | '%' :: high :: low :: _ => digits? 16 [high, low]
  | _ => none

/-- Some more bytes of a character. -/
def uriBytes? : Nat → Source → Option (List Char × Source)
  | 0, source => some ([], source)
  | count + 1, source => do
    let byte ← uriByte? source.rest
    guard (0x80 ≤ byte ∧ byte < 0xC0)
    let (more, behind) ← uriBytes? count (source.skip 3)
    return (Char.ofNat byte :: more, behind)

/-- A character written as bytes. -/
def uriEscape? (source : Source) : Option (List Char × Source) := do
  let byte ← uriByte? source.rest
  let length ← utf8Length? byte
  let (more, behind) ← uriBytes? (length - 1) (source.skip 3)
  return (Char.ofNat byte :: more, behind)

/-- The longest run of a suffix. -/
def uriWithin (isVerbatim : Bool) : Nat → Source → Option (List Char × Source)
  | 0, _ => none
  | rounds + 1, source =>
    match source.next? with
    | some c =>
      if c == '%' then do
        let (bytes, behind) ← uriEscape? source
        let (more, behind) ← uriWithin isVerbatim rounds behind
        return (bytes ++ more, behind)
      else if isUriChar isVerbatim c then do
        let (more, behind) ← uriWithin isVerbatim rounds (source.skip 1)
        return (c :: more, behind)
      else some ([], source)
    | none => some ([], source)

def uri? (isVerbatim : Bool) (source : Source) : Option (List Char × Source) :=
  uriWithin isVerbatim (source.rest.length + 1) source

/-- A suffix that is not empty. -/
def someUri? (isVerbatim : Bool) (source : Source) : Option (List Char × Source) := do
  let (text, behind) ← uri? isVerbatim source
  guard !text.isEmpty
  return (text, behind)

/-- What may be a handle: an exclamation mark and a word, and a second mark if there
is one. -/
def handle? (source : Source) : Option (List Char × Source) :=
  match source.next? with
  | some '!' =>
    let (word, behind) := (source.skip 1).span isWord
    if behind.next? = some '!' then some ('!' :: word ++ ['!'], behind.skip 1)
    else some ('!' :: word, behind)
  | _ => none

/-- Whether what was read is a handle and not the beginning of a suffix. -/
def isHandle (text : List Char) : Bool :=
  2 ≤ text.length && text.getLast? == some '!'

/-- A tag, from its exclamation mark. -/
def tag? (inFlow : Bool) (source : Source) : Option (Tag × Source) := do
  let (tag, behind) ← written
  guard (behind.gapAt 0 ∨ (inFlow ∧ behind.next? = some ','))
  return (tag, behind)
where
  written : Option (Tag × Source) :=
    if source.rest.take 2 = ['!', '<'] then do
      let (suffix, behind) ← someUri? true (source.skip 2)
      guard (behind.next? = some '>')
      return (⟨[], suffix⟩, behind.skip 1)
    else do
      let (front, behind) ← handle? source
      if isHandle front then
        let (suffix, behind) ← someUri? false behind
        return (⟨front, suffix⟩, behind)
      else
        let (rest, behind) ← uri? false behind
        match front.drop 1 ++ rest with
        | [] => return (⟨[], ['!']⟩, behind)
        | suffix => return (⟨['!'], suffix⟩, behind)

/-- One part of a version. It has no more than nine digits. -/
def versionNumber? (source : Source) : Option (Nat × Source) := do
  let (digits, behind) := source.span Char.isDigit
  guard (digits.length ≤ 9)
  let number ← digits? 10 digits
  return (number, behind)

def versionDirective? (source : Source) : Option (Directive × Source) := do
  let (major, behind) ← versionNumber? (source.skipWhile isBlank)
  guard (behind.next? = some '.')
  let (minor, behind) ← versionNumber? (behind.skip 1)
  return (.version major minor, behind)

def tagDirective? (source : Source) : Option (Directive × Source) := do
  let (handle, behind) ← handle? (source.skipWhile isBlank)
  guard (isHandle handle ∨ handle = ['!'])
  guard (behind.next?.any isBlank)
  let (expansion, behind) ← someUri? true (behind.skipWhile isBlank)
  guard (behind.gapAt 0)
  return (.tag handle expansion, behind)

/-- A directive, from its percent sign to the end of its line. -/
def directive? (source : Source) : Option (Directive × Source) := do
  let (name, behind) := (source.skip 1).span isWord
  guard (behind.gapAt 0)
  let (directive, behind) ←
    if name = "YAML".toList then versionDirective? behind
    else if name = "TAG".toList then tagDirective? behind
    else none
  let behind ← behind.lineEnd?
  return (directive, behind)

def standardHandles : List (List Char × List Char) :=
  [(['!'], ['!']), (['!', '!'], "tag:yaml.org,2002:".toList)]

/-- A tag in full, if its handle is known. -/
def Tag.resolve? (handles : List (List Char × List Char)) (tag : Tag) : Option (List Char) :=
  if tag.handle.isEmpty then some tag.suffix
  else (handles.lookup tag.handle).map (· ++ tag.suffix)

end Unmangle.Yaml
