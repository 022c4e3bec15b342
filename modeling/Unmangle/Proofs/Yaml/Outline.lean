import Unmangle.Proofs.Yaml.Row
import Unmangle.Yaml.Document

/-!
# Outlines

An outline is a mapping of two levels, written in rows. Reading it gives its entries in the order in
which they are written.
-/
namespace Unmangle.Yaml

/-- A key with a scalar. -/
structure Line where
  key : Key
  value : Scalar

/-- A part of an outline: a line, or lines below a key. -/
inductive Part
  | single (line : Line)
  | heading (key : Key) (lines : List Line)

namespace Line

def row (indent : Nat) (line : Line) : Row :=
  ⟨indent, line.key, some line.value⟩

def tokens (line : Line) : List Token :=
  [.key, .scalar .plain line.key.letters, .value, .scalar line.value.style line.value.letters]

def entry (line : Line) : Node × Node :=
  (.scalar .plain none line.key.letters, .scalar line.value.style none line.value.letters)

end Line

namespace Part

def rows : Part → List Row
  | single line => [line.row 0]
  | heading key lines => ⟨0, key, none⟩ :: lines.map (Line.row 2)

/-- The tokens of a mapping, or none if nothing is in it. -/
def mappingTokens (tokens : List Token) : List Token :=
  if tokens.isEmpty then [] else .blockMappingStart :: (tokens ++ [.blockEnd])

def tokens : Part → List Token
  | single line => line.tokens
  | heading key lines =>
    [.key, .scalar .plain key.letters, .value] ++ mappingTokens (lines.flatMap Line.tokens)

def mapping (entries : List (Node × Node)) : Node :=
  if entries.isEmpty then .empty else .mapping entries

def entry : Part → Node × Node
  | single line => line.entry
  | heading key lines => (.scalar .plain none key.letters, mapping (lines.map Line.entry))

theorem length_heading (key : Key) (lines : List Line) :
    4 * lines.length + 3 ≤ (heading key lines).tokens.length := by
  have inside : (lines.flatMap Line.tokens).length = 4 * lines.length := by
    induction lines with
    | nil => rfl
    | cons line lines ih =>
      rw [List.flatMap_cons, List.length_append, ih, List.length_cons, Nat.mul_succ, Nat.add_comm]
      rfl
  have whole : (lines.flatMap Line.tokens).length ≤
      (mappingTokens (lines.flatMap Line.tokens)).length := by
    rw [mappingTokens]
    split
    · rename_i none
      exact Nat.le_of_eq (List.isEmpty_iff_length_eq_zero.mp none)
    · rw [List.length_cons, List.length_append]
      omega
  rw [tokens, List.length_append, ← inside, Nat.add_comm]
  exact Nat.add_le_add_left whole 3

variable {rest : List Row}

/-- The lines of a section are its tokens, and behind them the section ends. -/
theorem tokensOf_lines (outer : Row.column rest = 0) (lines : List Line) :
    Row.tokensOf [2, 0] (lines.map (Line.row 2) ++ rest) =
      lines.flatMap Line.tokens ++ .blockEnd :: Row.tokensOf [0] rest := by
  induction lines with
  | nil =>
    cases rest with
    | nil => rfl
    | cons row rest =>
      have outer : row.indent = 0 := outer
      rw [List.map_nil, List.nil_append, Row.tokensOf, Row.tokensOf, outer]
      rfl
  | cons line lines ih =>
    rw [List.map_cons, List.cons_append, Row.tokensOf, List.flatMap_cons, List.append_assoc, ← ih]
    rfl

theorem tokensOf_rows (outer : Row.column rest = 0) (part : Part) :
    Row.tokensOf [0] (part.rows ++ rest) = part.tokens ++ Row.tokensOf [0] rest := by
  cases part with
  | single line => rfl
  | heading key lines =>
    cases lines with
    | nil => rfl
    | cons line lines =>
      have inner := tokensOf_lines outer (line :: lines)
      calc Row.tokensOf [0] ((heading key (line :: lines)).rows ++ rest)
        _ = [.key, .scalar .plain key.letters, .value] ++ .blockMappingStart ::
            Row.tokensOf [2, 0] ((line :: lines).map (Line.row 2) ++ rest) := rfl
        _ = (heading key (line :: lines)).tokens ++ Row.tokensOf [0] rest := by
            rw [inner]
            simp [tokens, mappingTokens, Line.tokens]

theorem column_rows (parts : List Part) : Row.column (parts.flatMap rows) = 0 := by
  cases parts with
  | nil => rfl
  | cons part parts => cases part <;> rfl

/-- The parts of a sheet are the tokens of one mapping. -/
theorem tokensOf_parts (parts : List Part) :
    Row.tokensOf [] (parts.flatMap rows) = mappingTokens (parts.flatMap tokens) := by
  have inside (parts : List Part) :
      Row.tokensOf [0] (parts.flatMap rows) = parts.flatMap tokens ++ [.blockEnd] := by
    induction parts with
    | nil => rfl
    | cons part parts ih =>
      rw [List.flatMap_cons, tokensOf_rows (column_rows parts), ih, List.flatMap_cons,
        List.append_assoc]
  cases parts with
  | nil => rfl
  | cons part parts =>
    calc Row.tokensOf [] ((part :: parts).flatMap rows)
      _ = .blockMappingStart :: Row.tokensOf [0] ((part :: parts).flatMap rows) := by
          cases part <;> rfl
      _ = mappingTokens ((part :: parts).flatMap tokens) := by
          rw [inside]
          cases part <;> rfl

theorem nested_lines (outer : Row.column rest = 0) (nested : Row.Nested rest) (lines : List Line) :
    Row.Nested (lines.map (Line.row 2) ++ rest) := by
  induction lines with
  | nil => exact nested
  | cons line lines ih =>
    refine ⟨fun _ => ?_, ih⟩
    cases lines with
    | nil =>
      show Row.column rest ≤ 2
      omega
    | cons next lines => exact Nat.le_refl 2

/-- The rows of a sheet are nested as rows must be. -/
theorem nested_rows (parts : List Part) : Row.Nested (parts.flatMap rows) := by
  induction parts with
  | nil => trivial
  | cons part parts ih =>
    have outer := column_rows parts
    cases part with
    | single line => exact ⟨fun _ => Nat.le_of_eq outer, ih⟩
    | heading key lines => exact ⟨nofun, nested_lines outer ih lines⟩

end Part

namespace Read

variable {handles : Handles} {anchors : List (List Char × Nat)} {rest : List Token}

theorem run_valueOr_scalar (rounds : Nat) (style : ScalarStyle) (text : List Char)
    (ends : List Token) (other : Token.scalar style text ∉ ends) (position : Position) :
    (valueOr handles (rounds + 3) position ends).run ⟨.scalar style text :: rest, anchors⟩ =
      some (.scalar style none text, ⟨rest, anchors⟩) := by
  rw [valueOr]
  simp [peek, other, value, content, properties, anchor?, tag?, skip, resolveTag]

theorem run_entries_line (line : Line) (rounds : Nat) (tokens : List Token) :
    (blockEntries handles (rounds + 5)).run ⟨line.tokens ++ tokens, anchors⟩ =
      ((blockEntries handles (rounds + 4)).run ⟨tokens, anchors⟩).map fun given =>
        (line.entry :: given.1, given.2) := by
  rw [blockEntries]
  simp [Line.tokens, Line.entry, peek, skip, run_valueOr_scalar, blockEntryValue]

/-- The lines of a section are read as its entries. -/
theorem run_entries_lines (lines : List Line) (rounds : Nat) (enough : 4 * lines.length < rounds) :
    (blockEntries handles rounds).run ⟨lines.flatMap Line.tokens ++ .blockEnd :: rest, anchors⟩ =
      some (lines.map Line.entry, ⟨rest, anchors⟩) := by
  induction lines generalizing rounds with
  | nil =>
    obtain ⟨rounds, rfl⟩ : ∃ n, rounds = n + 1 := ⟨rounds - 1, by omega⟩
    rw [blockEntries]
    rfl
  | cons line lines ih =>
    rw [List.length_cons] at enough
    obtain ⟨rounds, rfl⟩ : ∃ n, rounds = n + 5 := ⟨rounds - 5, by omega⟩
    rw [List.flatMap_cons, List.append_assoc, run_entries_line, ih (rounds + 4) (by omega)]
    rfl

theorem run_value_mapping (rounds : Nat) (position : Position) (inBlock : position ≠ .flow)
    (tokens : List Token) :
    (value handles (rounds + 2) position).run ⟨.blockMappingStart :: tokens, anchors⟩ =
      ((blockEntries handles rounds).run ⟨tokens, anchors⟩).map fun given =>
        (.mapping given.1, given.2) := by
  rw [value]
  cases position with
  | flow => exact absurd rfl inBlock
  | block | entry => simp [peek, content, properties, anchor?, tag?, skip, resolveTag]

/-- Behind the colon of a key without a scalar stands the mapping of the lines below it. -/
theorem run_valueOr_mapping (lines : List Line) (rounds : Nat) (next : Token)
    (ends : next ∈ [Token.key, .value, .blockEnd]) (enough : 4 * lines.length + 3 < rounds) :
    (valueOr handles rounds .entry [.key, .value, .blockEnd]).run
        ⟨Part.mappingTokens (lines.flatMap Line.tokens) ++ next :: rest, anchors⟩ =
      some (Part.mapping (lines.map Line.entry), ⟨next :: rest, anchors⟩) := by
  obtain ⟨rounds, rfl⟩ : ∃ n, rounds = n + 3 := ⟨rounds - 3, by omega⟩
  cases lines with
  | nil =>
    rw [valueOr]
    show (if next ∈ _ then pure Node.empty
      else value handles (rounds + 2) .entry : Read Node).run _ = _
    rw [if_pos ends]
    rfl
  | cons line lines =>
    have inside : (blockEntries handles rounds).run
        ⟨(line :: lines).flatMap Line.tokens ++ .blockEnd :: next :: rest, anchors⟩ = _ :=
      run_entries_lines (line :: lines) rounds (by omega)
    have start (tokens : List Token) :
        (valueOr handles (rounds + 3) .entry [.key, .value, .blockEnd]).run
          ⟨.blockMappingStart :: tokens, anchors⟩ =
        (value handles (rounds + 2) .entry).run ⟨.blockMappingStart :: tokens, anchors⟩ := by
      rw [valueOr]
      simp [peek]
    have tokens : Part.mappingTokens ((line :: lines).flatMap Line.tokens) ++ next :: rest =
        .blockMappingStart ::
          ((line :: lines).flatMap Line.tokens ++ .blockEnd :: next :: rest) := by
      simp [Part.mappingTokens, Line.tokens]
    rw [tokens, start, run_value_mapping rounds .entry nofun, inside]
    rfl

/-- A heading is read as a key with its section under it. -/
theorem run_entries_heading (key : Key) (lines : List Line) (rounds : Nat) (next : Token)
    (ends : next ∈ [Token.key, .value, .blockEnd]) (enough : 4 * lines.length + 5 ≤ rounds) :
    (blockEntries handles (rounds + 1)).run
        ⟨(Part.heading key lines).tokens ++ next :: rest, anchors⟩ =
      ((blockEntries handles rounds).run ⟨next :: rest, anchors⟩).map fun given =>
        ((Part.heading key lines).entry :: given.1, given.2) := by
  obtain ⟨rounds, rfl⟩ : ∃ n, rounds = n + 3 := ⟨rounds - 3, by omega⟩
  have inside : (valueOr handles (rounds + 2) .entry [.key, .value, .blockEnd]).run
      ⟨Part.mappingTokens (lines.flatMap Line.tokens) ++ next :: rest, anchors⟩ = _ :=
    run_valueOr_mapping lines (rounds + 2) next ends (by omega)
  rw [blockEntries]
  simp [Part.tokens, Part.entry, peek, skip, run_valueOr_scalar, blockEntryValue, inside]

/-- What follows a part is the next key, or the end of the block. -/
theorem next_of_parts (rest : List Token) (parts : List Part) : ∃ next more,
    parts.flatMap Part.tokens ++ .blockEnd :: rest = next :: more ∧
      next ∈ [Token.key, .value, .blockEnd] := by
  cases parts with
  | nil => exact ⟨_, _, rfl, by simp⟩
  | cons part parts => cases part <;> exact ⟨_, _, rfl, by simp⟩

/-- The parts of a sheet are read as its entries. -/
theorem run_entries_parts (parts : List Part) (rounds : Nat)
    (enough : 2 * (parts.flatMap Part.tokens).length < rounds) :
    (blockEntries handles rounds).run ⟨parts.flatMap Part.tokens ++ .blockEnd :: rest, anchors⟩ =
      some (parts.map Part.entry, ⟨rest, anchors⟩) := by
  induction parts generalizing rounds with
  | nil =>
    obtain ⟨rounds, rfl⟩ : ∃ n, rounds = n + 1 := ⟨rounds - 1, by omega⟩
    rw [blockEntries]
    rfl
  | cons part parts ih =>
    rw [List.flatMap_cons, List.length_append] at enough
    rw [List.flatMap_cons, List.append_assoc]
    cases part with
    | single line =>
      have length : (Part.single line).tokens.length = 4 := rfl
      obtain ⟨rounds, rfl⟩ : ∃ n, rounds = n + 5 := ⟨rounds - 5, by omega⟩
      refine (run_entries_line line rounds _).trans ?_
      rw [ih (rounds + 4) (by omega)]
      rfl
    | heading key lines =>
      have length := Part.length_heading key lines
      obtain ⟨rounds, rfl⟩ : ∃ n, rounds = n + 1 := ⟨rounds - 1, by omega⟩
      have behind := ih rounds (by omega)
      obtain ⟨next, more, tokens, ends⟩ := next_of_parts rest parts
      rw [tokens] at behind
      rw [tokens, run_entries_heading key lines rounds next ends (by omega), behind]
      rfl

end Read

/-- What is written in an outline is read. -/
theorem read?_outline (parts : List Part) (some : parts ≠ []) :
    read? ((parts.flatMap Part.rows).flatMap Row.text) =
      .some (.mapping (parts.map Part.entry)) := by
  have printable : ((parts.flatMap Part.rows).flatMap Row.text).all isPrintable = true := by
    rw [List.all_flatMap]
    exact List.all_eq_true.mpr fun row _ => row.printable
  have mapping : Part.mappingTokens (parts.flatMap Part.tokens) =
      .blockMappingStart :: (parts.flatMap Part.tokens ++ [.blockEnd]) := by
    cases parts with
    | nil => exact absurd rfl some
    | cons part parts => cases part <;> rfl
  have tokens : tokens? ((parts.flatMap Part.rows).flatMap Row.text) =
      .some (.blockMappingStart :: (parts.flatMap Part.tokens ++ [.blockEnd])) := by
    rw [tokens?_rows _ (Part.nested_rows parts), Part.tokensOf_parts, mapping]
  have document : document? standardHandles
      (.blockMappingStart :: (parts.flatMap Part.tokens ++ [.blockEnd])) =
        .some (.mapping (parts.map Part.entry), []) := by
    rw [document?, Read.run_value_mapping _ .block nofun, Read.run_entries_parts]
    · rfl
    · rw [List.length_cons, List.length_append]
      omega
  have first : firstDocument? (.blockMappingStart :: (parts.flatMap Part.tokens ++ [.blockEnd])) =
      .some (.mapping (parts.map Part.entry), []) := document
  rw [read?, printable, tokens]
  simp only [Option.bind_eq_bind, Option.bind_some, first]
  rfl

end Unmangle.Yaml
