import Unmangle.Proofs.Comparison.Symbol
import Unmangle.Proofs.Engine.Withheld
import Unmangle.Proofs.Grammar.Barred
import Unmangle.Proofs.Symbol.Marker

/-!
# Underscores before a symbol

A marker may have one underscore more or less, and the bytes behind it are read and spelled
alike. A name that begins with an underscore but with no marker is not read at all.
-/
namespace Unmangle

/-- The state behind a marker, before anything is read of what it announces. -/
def ParseState.behindMarker (generation : UInt32) (offset : Nat) (rest : List UInt8) : ParseState :=
  { cursor := ⟨offset, rest⟩, level := 1, work := { tree := { generation := generation } } }

namespace Parse

/-- The marker announces a production, which the whole symbol is read with. -/
def Announces (marker : String) (production : Calls → Parse NodeId) : Prop :=
  ∀ call (s : ParseState) rest, s.cursor.rest = octets marker ++ rest →
    (symbol call).run s = (production call >>= finish).run
      { s with cursor := ⟨s.cursor.offset + (octets marker).length, rest⟩ }

/-- One or two underscores and `Z` announce an encoding. -/
theorem announces_encoding {marker : String} (known : marker = "_Z" ∨ marker = "__Z") :
    Announces marker markedEncoding := by
  rintro call ⟨⟨offset, bytes⟩, level, work, facts, args, ahead, lambda⟩ rest h
  obtain rfl : bytes = octets marker ++ rest := h
  rcases known with rfl | rfl
  · rfl
  · rfl

/-- Three or four underscores and `Z` announce a block. -/
theorem announces_block {marker : String} (known : marker = "___Z" ∨ marker = "____Z") :
    Announces marker blockInvocation := by
  rintro call ⟨⟨offset, bytes⟩, level, work, facts, args, ahead, lambda⟩ rest h
  obtain rfl : bytes = octets marker ++ rest := h
  rcases known with rfl | rfl
  · rfl
  · rfl

variable {generation : UInt32} {symbol : ByteArray} {marker : String} {rest : List UInt8}
  {production : Calls → Parse NodeId} {levels : Nat}

/-- With room for the production, a symbol is read as its marker says. -/
theorem run_of_announces (announces : Announces marker production)
    (bytes : symbol.data.toList = octets marker ++ rest) (room : 0 < levels) :
    (Rule.parse (levels + 1) (levels + 1) .symbol).run (.start generation symbol) =
      ((production (Rule.parse (levels + 1) levels) >>= finish).thenAlways up).run
        (.behindMarker generation (octets marker).length rest) := by
  have begun : (Parse.symbol (Rule.parse (levels + 1) levels)).run
      { ParseState.start generation symbol with level := 1 } =
      (production (Rule.parse (levels + 1) levels) >>= finish).run
        (.behindMarker generation (octets marker).length rest) := by
    rw [announces _ _ rest bytes]
    exact congrArg (fun offset => (production (Rule.parse (levels + 1) levels) >>= finish).run
      (.behindMarker generation offset rest)) (Nat.zero_add _)
  change ((Parse.symbol (Rule.parse (levels + 1) levels)).deeper (levels + 1)).run _ = _
  rw [run_deeper_of_lt (by simpa [ParseState.start] using room)]
  simp only [Parse.thenAlways]
  rw [← begun]
  rfl

variable (generation symbol) in
/-- Without room for a production no symbol is read. -/
theorem run_without_room {limit : Nat} (narrow : limit ≤ 1) :
    ∃ t, (Rule.parse limit limit .symbol).run (.start generation symbol) =
      .error .tooMuchRecursion t := by
  cases limit with
  | zero => exact ⟨_, rfl⟩
  | succ levels =>
    refine ⟨.start generation symbol, ?_⟩
    change ((Parse.symbol (Rule.parse (levels + 1) levels)).deeper (levels + 1)).run _ = _
    exact run_deeper_of_le narrow

/-- A symbol that begins with an underscore, but with no marker, is no type either. -/
theorem fails_unmarked {limit : Nat} {s : ParseState} (bar : Barred s.cursor.rest)
    (unmarked : ∀ marker ∈ Symbol.markers, s.cursor.strip? marker.toList = none) :
    Fails (Rule.parse limit levels .symbol) s := by
  cases levels with
  | zero => exact Fails.throw _
  | succ levels =>
    apply Fails.deeper
    have rejected : ∀ marker ∈ Symbol.markers,
        (accept marker).run { s with level := s.level + 1 } =
          .ok false { s with level := s.level + 1 } := by
      intro marker known
      simp only [accept, step, unmarked marker known]
    have neither : ∀ token ∈ Symbol.markers, ∀ other ∈ Symbol.markers,
        (do if ← accept token then return true else accept other).run
          { s with level := s.level + 1 } = .ok false { s with level := s.level + 1 } := by
      intro token known other known'
      rw [run_bind_ok _ (rejected token known)]
      exact rejected other known'
    have inside : Barred ({ s with level := s.level + 1 } : ParseState).cursor.rest := bar
    apply Fails.after (neither "_Z" (by decide) "__Z" (by decide))
    apply Fails.after (neither "___Z" (by decide) "____Z" (by decide))
    exact Fails.bind (Fails.parse (by decide) inside)

end Parse

namespace Sides

variable {symbol symbol' : ByteArray} {generation generation' : UInt32} {marker marker' : String}
  {rest : List UInt8}

/-- Behind different markers the same bytes are left. -/
theorem cursorBehind (bytes : symbol.data.toList = octets marker ++ rest)
    (bytes' : symbol'.data.toList = octets marker' ++ rest) :
    (Sides.mk symbol symbol' generation generation').SameCursor
      ⟨(octets marker).length, rest⟩ ⟨(octets marker').length, rest⟩ where
  offset := by
    rw [size_eq_length, bytes]
    simp
  offset' := by
    rw [size_eq_length, bytes']
    simp
  rest := by simp [bytes]
  rest' := by simp [bytes']
  same := rfl

/-- Behind their markers two symbols with the same bytes left are read from alike states. -/
theorem stateBehind (bytes : symbol.data.toList = octets marker ++ rest)
    (bytes' : symbol'.data.toList = octets marker' ++ rest) :
    (Sides.mk symbol symbol' generation generation').comparison.State (0, 0)
      (.behindMarker generation (octets marker).length rest)
      (.behindMarker generation' (octets marker').length rest) where
  cursor := cursorBehind bytes bytes'
  level := rfl
  tree := SameTree.empty generation generation' symbol symbol'
  table := ⟨.nil, Tabled.empty, Tabled.empty⟩
  forward := .nil
  levels := rfl
  outer := .nil
  facts := rfl
  templateArgsAllowed := rfl
  forwardAllowed := rfl
  lambdaLevel := rfl

/-- Both symbols fail with one fault, or trees come of them that mirror each other. -/
def ReadAlike (sides : Sides) (r r' : EStateM.Result Fault ParseState NodeId) : Prop :=
  (∃ fault t t', r = .error fault t ∧ r' = .error fault t') ∨
    ∃ w root root' t t', r = .ok root t ∧ r' = .ok root' t' ∧
      sides.SameTree w t.work.tree t'.work.tree ∧ sides.SameName w.1 root root'

/-- What a marker announces is read alike behind another marker that announces it. -/
theorem readAlike_of_announces {production : Calls → Parse NodeId}
    (announces : Parse.Announces marker production)
    (announces' : Parse.Announces marker' production)
    (follows : ∀ (sides : Sides) (limit levels : Nat) (w : Nat × Nat),
      sides.comparison.Follows w (production (Rule.parse limit levels))
        (production (Rule.parse limit levels)) sides.comparison.name)
    (bytes : symbol.data.toList = octets marker ++ rest)
    (bytes' : symbol'.data.toList = octets marker' ++ rest) (limit : Nat) :
    (Sides.mk symbol symbol' generation generation').ReadAlike
      ((Rule.parse limit limit .symbol).run (.start generation symbol))
      ((Rule.parse limit limit .symbol).run (.start generation' symbol')) := by
  by_cases narrow : limit ≤ 1
  · obtain ⟨t, failed⟩ := Parse.run_without_room generation symbol narrow
    obtain ⟨t', failed'⟩ := Parse.run_without_room generation' symbol' narrow
    exact .inl ⟨_, t, t', failed, failed'⟩
  · obtain ⟨levels, rfl⟩ : ∃ levels, limit = levels + 1 := ⟨limit - 1, by omega⟩
    have room : 0 < levels := by omega
    let sides : Sides := ⟨symbol, symbol', generation, generation'⟩
    have begun : sides.comparison.State (0, 0) _ _ := stateBehind bytes bytes'
    have whole := (follows sides (levels + 1) levels (0, 0)).bind fun _ _ _ _ same =>
      Comparison.Follows.finish sides.lawful same
    have outcome := (whole _ _ begun fun _ _ lost => lost.elim).2
    rw [Parse.run_of_announces announces bytes room, Parse.run_of_announces announces' bytes' room]
    simp only [Parse.thenAlways]
    obtain ⟨v, root, root', t, t', hr, hr', -, same, -, name⟩ |
      ⟨v, fault, t, t', hr, hr', -⟩ | ⟨_, _, -, gone⟩ := outcome.elim
    · rw [hr, hr']
      exact .inr ⟨v, root, root', _, _, rfl, rfl, same.tree, name⟩
    · rw [hr, hr']
      exact .inl ⟨fault, _, _, rfl, rfl⟩
    · exact gone.elim

end Sides

namespace Engine

variable {options : Options}

/-- What is read alike is spelled the same. -/
theorem parseAndSpell_of_readAlike {symbol symbol' : ByteArray} {generation generation' : UInt32}
    (alike : (Sides.mk symbol symbol' generation generation').ReadAlike
      ((Rule.parse options.maxRecursion options.maxRecursion .symbol).run (.start generation symbol))
      ((Rule.parse options.maxRecursion options.maxRecursion .symbol).run
        (.start generation' symbol'))) :
    ((resting options generation).parseAndSpell symbol).1 =
      ((resting options generation').parseAndSpell symbol').1 := by
  rw [parseAndSpell_resting, parseAndSpell_resting]
  obtain ⟨fault, t, t', hr, hr'⟩ | ⟨w, root, root', t, t', hr, hr', tree, name⟩ := alike
  · rw [hr, hr']
  · have spelled : render ⟨options.maxRecursion, options.maxOutputLen⟩ symbol t.work.tree root =
        render ⟨options.maxRecursion, options.maxOutputLen⟩ symbol' t'.work.tree root' :=
      (tree.mirror.render rfl (.refl rfl _) name).resolve_right fun ⟨_, _, gone⟩ => gone
    rw [hr, hr']
    simp only [spell, spelled]

theorem demangle_of_fits {name : String} (some : name.isEmpty = false)
    (fits : name.utf8ByteSize ≤ options.maxSymbolLen) :
    (demangle { options := options } name).1 = ((resting options 0).parseAndSpell name.toUTF8).1 := by
  have call : ¬(name.isEmpty || (true && false)) = true := by simp [some]
  have short : ¬options.maxSymbolLen < name.utf8ByteSize := by omega
  rw [demangle_eq_answer]
  unfold answer
  dsimp only [Option.isSome, Option.isNone]
  rw [if_neg call, if_neg short]
  rfl

/-- A marker does not show, so neither does an underscore more before it. -/
theorem demangle_of_markers {production : Calls → Parse NodeId} {marker marker' : String}
    (announces : Parse.Announces marker production)
    (announces' : Parse.Announces marker' production)
    (follows : ∀ (sides : Sides) (limit levels : Nat) (w : Nat × Nat),
      sides.comparison.Follows w (production (Rule.parse limit levels))
        (production (Rule.parse limit levels)) sides.comparison.name)
    {behind : String} (some : (marker ++ behind).isEmpty = false)
    (some' : (marker' ++ behind).isEmpty = false)
    (fits : (marker ++ behind).utf8ByteSize ≤ options.maxSymbolLen)
    (fits' : (marker' ++ behind).utf8ByteSize ≤ options.maxSymbolLen) :
    (demangle { options := options } (marker ++ behind)).1 =
      (demangle { options := options } (marker' ++ behind)).1 := by
  rw [demangle_of_fits some fits, demangle_of_fits some' fits']
  apply parseAndSpell_of_readAlike
  exact Sides.readAlike_of_announces announces announces' follows (octets_append marker behind)
    (octets_append marker' behind) _

/-- A name that begins with an underscore but with no marker fails, if at no limit then in the
parse. -/
theorem demangle_unmarked {name : String} (bar : name.toList.head? = some '_')
    (unmarked : Symbol.isEncoding name = false) :
    ∃ fault, (demangle { options := options } name).1 = .error fault := by
  have rest : (octets name).head? = some 95 := by
    obtain ⟨chars, begins⟩ : ∃ chars, name.toList = '_' :: chars := by
      cases listed : name.toList with
      | nil => simp [listed] at bar
      | cons char chars =>
        obtain rfl : char = '_' := by simpa [listed] using bar
        exact ⟨chars, rfl⟩
    rw [octets_eq_flatMap, begins]
    rfl
  have barred : Barred (ParseState.start 0 name.toUTF8).cursor.rest := by
    intro byte hbyte
    exact (Option.some.inj (rest.symm.trans hbyte)).symm
  have none : ∀ marker ∈ Symbol.markers,
      (ParseState.start 0 name.toUTF8).cursor.strip? marker.toList = none := by
    intro marker known
    cases stripped : (ParseState.start 0 name.toUTF8).cursor.strip? marker.toList with
    | none => rfl
    | some cursor =>
      have found := (Symbol.isEncoding_iff_strip? name).mpr
        ⟨marker, known, by rw [show Cursor.start name.toUTF8 = (ParseState.start 0
          name.toUTF8).cursor from rfl, stripped]; rfl⟩
      rw [unmarked] at found
      cases found
  rw [demangle_eq_answer]
  unfold answer
  split
  · exact ⟨_, rfl⟩
  split
  · exact ⟨_, rfl⟩
  change ∃ fault, ((resting options 0).parseAndSpell name.toUTF8).1 = .error fault
  rw [parseAndSpell_resting]
  cases parsed : (Rule.parse options.maxRecursion options.maxRecursion .symbol).run
      (.start 0 name.toUTF8) with
  | ok root state => exact absurd parsed (Parse.fails_unmarked barred none root state)
  | error fault state => exact ⟨fault, rfl⟩

/-- An underscore more or less before a marker changes nothing, within the limit for the
length of a symbol. Of the names that begin with an underscore, those with a marker are those
in which the parse finds one, and all others fail. -/
theorem demangle_underscores (options : Options) :
    (∀ behind : String, ("_Z" ++ behind).utf8ByteSize ≤ options.maxSymbolLen →
      ("__Z" ++ behind).utf8ByteSize ≤ options.maxSymbolLen →
        (demangle { options := options } ("_Z" ++ behind)).1 =
          (demangle { options := options } ("__Z" ++ behind)).1) ∧
      (∀ behind : String, ("___Z" ++ behind).utf8ByteSize ≤ options.maxSymbolLen →
        ("____Z" ++ behind).utf8ByteSize ≤ options.maxSymbolLen →
          (demangle { options := options } ("___Z" ++ behind)).1 =
            (demangle { options := options } ("____Z" ++ behind)).1) ∧
      ∀ name : String, name.toList.head? = some '_' →
        (Symbol.isEncoding name = true ↔ ∃ marker ∈ Symbol.markers,
          ((Cursor.start name.toUTF8).strip? marker.toList).isSome = true) ∧
        (Symbol.isEncoding name = false →
          ∃ fault, (demangle { options := options } name).1 = .error fault) := by
  refine ⟨?_, ?_, ?_⟩
  · intro behind fits fits'
    exact demangle_of_markers (Parse.announces_encoding (.inl rfl))
      (Parse.announces_encoding (.inr rfl))
      (fun sides limit levels w => .markedEncoding sides.lawful (sides.reads limit levels))
      (Symbol.isEmpty_of_marker (by decide) behind)
      (Symbol.isEmpty_of_marker (by decide) behind) fits fits'
  · intro behind fits fits'
    exact demangle_of_markers (Parse.announces_block (.inl rfl)) (Parse.announces_block (.inr rfl))
      (fun sides limit levels w => .blockInvocation sides.lawful (sides.reads limit levels))
      (Symbol.isEmpty_of_marker (by decide) behind)
      (Symbol.isEmpty_of_marker (by decide) behind) fits fits'
  · intro name bar
    exact ⟨Symbol.isEncoding_iff_strip? name, demangle_unmarked bar⟩

/-- One underscore more, and a name with five of them. -/
theorem demangle_underscores_foo :
    (demangle {} "_Z3foov").1 = (demangle {} "__Z3foov").1 ∧
      (demangle {} "___Z3foov_block_invoke").1 = (demangle {} "____Z3foov_block_invoke").1 ∧
      ∃ fault, (demangle {} "_____Z3foov").1 = .error fault := by
  obtain ⟨one, three, unmarked⟩ := demangle_underscores {}
  refine ⟨one "3foov" (by decide) (by decide), three "3foov_block_invoke" (by decide) (by decide), ?_⟩
  exact (unmarked "_____Z3foov" rfl).2 (by decide)

end Engine
end Unmangle
