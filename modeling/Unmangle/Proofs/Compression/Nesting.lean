import Unmangle.Proofs.Compression.Naming

/-!
# Reading nested names

The rounds of a nested name pass over a path from its outermost class inwards. Behind each
round the class that was reached is listed, and it is the scope of the next round.
-/
namespace Unmangle

def ClassPath.within : Option ClassPath → Identifier → ClassPath
  | none, id => .top id
  | some scope, id => .inside scope id

namespace Parse.Grants

variable {symbol : ByteArray} {room : Prop} {limit levels : Nat} {base s : ParseState}
  {listed listed' : List Component} {rest : List UInt8} {code : String}

/-- A class was read, and it is the scope of what follows. -/
def Inside (symbol : ByteArray) (base : ParseState) (listed : List Component)
    (rest : List UInt8) (path : ClassPath) (scope : Option NodeId) (t : ParseState) : Prop :=
  ∃ name, scope = some name ∧ Found symbol base listed rest (.named path) name t

/-- A class was read, and its name is the last on the list. -/
def Reached (symbol : ByteArray) (base : ParseState) (listed : List Component)
    (rest : List UInt8) (path : ClassPath) (scope : Option NodeId) (t : ParseState) : Prop :=
  ∃ name, scope = some name ∧ Found symbol base listed rest (.named path) name t ∧
    t.work.substitutions.entries.back? = some name

theorem Reached.inside {path : ClassPath} {scope : Option NodeId}
    (h : Reached symbol base listed rest path scope s) :
    Inside symbol base listed rest path scope s := by
  obtain ⟨name, same, found, -⟩ := h
  exact ⟨name, same, found⟩

theorem notAtEnd {byte : UInt8} {Q : Bool → ParseState → Prop}
    (h : Stands symbol base listed (byte :: rest) s) (next : Q false s) :
    Grants room atEnd s Q := by
  refine known (a := false) ?_ next
  rw [atEnd, run_bind_ok _ run_get, Cursor.atEnd, h.ahead]
  rfl

/-- A class is stored and listed. -/
theorem reached {path : ClassPath} {name : NodeId} (h : Stands symbol base listed rest s)
    (held : path.Stored symbol s.work.tree name)
    (unlisted : s.work.substitutions.contains name = false) :
    Grants room (do enlist name; return some name) s
      (Reached symbol base (listed ++ [.named path]) rest path) := by
  refine bind (enlisted (.named path) h held unlisted fun t ht same entries => ?_)
  refine pure ⟨name, rfl, ⟨ht, ?_⟩, ?_⟩
  · rw [same]
    exact held
  · rw [entries, Array.back?_push]

/-- A component without a scope is the class itself, and one with a scope is inside it. -/
theorem listedPart {id : Identifier} {outer : Option ClassPath} {scope : Option NodeId}
    {part : NodeId} (h : Stands symbol base listed rest s)
    (hscope : Option.Rel (fun path name => path.Stored symbol s.work.tree name) outer scope)
    (held : id.Stored symbol s.work.tree part)
    (unlisted : s.work.substitutions.contains part = false) :
    Grants room (nestedPart.listedPart false scope part) s
      (Reached symbol base (listed ++ [.named (.within outer id)]) rest (.within outer id)) := by
  cases hscope with
  | none =>
    apply bind
    apply bind
    apply pure
    apply bind
    refine known rfl (pure ?_)
    exact reached h held unlisted
  | some hscope =>
    apply bind
    apply bind
    apply made _ h
    intro node t ht later stored unlisted
    apply bind
    refine known rfl (pure ?_)
    exact reached ht ⟨_, part, stored, hscope.extends later, held.extends later⟩ unlisted

/-- The round of an identifier. -/
theorem identifierPart {id : Identifier} (outer : Option ClassPath) {scope : Option NodeId}
    (spent : base.level + levels = limit) (fits : room → base.level + 1 < limit)
    (small : id.words.utf8ByteSize < Number.bound) (ahead : Ahead Component.followers rest)
    (h : Stands symbol base listed (octets id.code ++ rest) s)
    (hscope : Option.Rel (fun path name => path.Stored symbol s.work.tree name) outer scope) :
    Grants room (nestedPart (Rule.parse limit levels) false scope) s
      (Reached symbol base (listed ++ [.named (.within outer id)]) rest (.within outer id)) := by
  have core : Grants room (do
      nestedPart.listedPart false scope (← Rule.parse limit levels (.unqualifiedName false))) s
      (Reached symbol base (listed ++ [.named (.within outer id)]) rest (.within outer id)) := by
    have level := h.level
    refine bind ((unqualifiedName false (level ▸ spent) (level ▸ fits) small ahead h.self).weaken ?_)
    rintro part t ⟨⟨ht, held⟩, unlisted⟩
    refine listedPart (h.trans ht) ?_ held unlisted
    cases hscope with
    | none => exact .none
    | some hscope => exact .some (hscope.extends ht.tree)
  obtain ⟨byte, more, begins, opens⟩ := id.code_opens
  have opening := id.ahead_code rest
  have peeked := h
  rw [begins] at peeked
  apply bind
  apply notAtEnd peeked
  apply bind
  refine known rfl ?_
  apply bind
  apply bind
  refine rejected "L" rfl h opening (by decide) (pure ?_)
  apply bind
  apply rejected "M" rfl h opening (by decide)
  apply bind
  apply peekPair
  rw [peekAt_cons peeked]
  rcases Identifier.cases_openers opens with rfl | rfl | rfl | rfl | rfl | rfl | rfl | rfl | rfl <;>
    exact core

/-- The round of a substitution, which is the first one. -/
theorem substitutionPart {path : ClassPath} {place : Nat} (spent : base.level + levels = limit)
    (fits : room → base.level + 1 < limit) (found : listed[place]? = some (.named path))
    (small : place < Number.bound)
    (h : Stands symbol base listed (octets (substitutionCode place) ++ rest) s) :
    Grants room (nestedPart (Rule.parse limit levels) false none) s
      (Inside symbol base listed rest path) := by
  obtain ⟨byte, more, begins, -, notStd⟩ := substitutionCode_opens place
  have peeked := h
  rw [begins] at peeked
  have opening : Ahead [83] (83 :: byte :: (more ++ rest)) := Ahead.cons (List.mem_singleton_self _) _
  apply bind
  apply notAtEnd peeked
  apply bind
  refine known rfl ?_
  apply bind
  apply bind
  refine rejected "L" rfl peeked opening (by decide) (pure ?_)
  apply bind
  apply rejected "M" rfl peeked opening (by decide)
  apply bind
  apply peekPair
  have second : s.cursor.peekAt 1 = Char.ofNat byte.toNat := by
    rw [Cursor.peekAt, peeked.ahead]
    rfl
  rw [peekAt_cons peeked, second]
  show Grants room (if (Char.ofNat byte.toNat != 't') = true then _ else _) s _
  rw [if_pos notStd]
  refine bind ((substitution spent fits found small h).weaken fun name t held => ?_)
  apply bind
  apply bind
  apply pure
  apply bind
  refine known rfl (pure ?_)
  rw [if_pos rfl]
  apply bind
  exact pure (pure ⟨name, rfl, held⟩)

section Rounds

variable {Q : Option NodeId → ParseState → Prop} {rounds : List UInt8}

/-- A round in front of a byte that does not close the name. -/
theorem round {scope : Option NodeId} {allowed : List UInt8} (h : Stands symbol base listed rest s)
    (enough : rest.length < rounds.length) (ahead : Ahead allowed rest)
    (other : ∀ byte ∈ allowed, byte.toNat ≠ 'E'.toNat)
    (next : Grants room (nestedPart (Rule.parse limit levels) false scope) s fun scope t =>
      ∀ rounds : List UInt8, rest.length ≤ rounds.length →
        Grants room (repeatUntil (accept "E") (nestedPart (Rule.parse limit levels) false) rounds
          scope) t Q) :
    Grants room (repeatUntil (accept "E") (nestedPart (Rule.parse limit levels) false) rounds scope)
      s Q := by
  cases rounds with
  | nil => cases enough
  | cons byte rounds =>
    refine bind (rejected _ rfl h ahead other (bind (next.weaken fun scope t later => ?_)))
    exact later rounds (Nat.lt_succ_iff.mp enough)

/-- The rounds over a path, and those behind it. -/
theorem scopeRounds {path : ClassPath} {code : String}
    (h : ClassPath.Written listed path code listed') (spent : base.level + levels = limit)
    (fits : room → base.level + 1 < limit)
    (small : listed.length + (octets code).length < Number.bound) :
    ∀ {rest s} {rounds : List UInt8}, Ahead Component.followers rest →
      Stands symbol base listed (octets code ++ rest) s →
      (octets code ++ rest).length < rounds.length →
      (∀ scope t, ∀ rounds : List UInt8, Inside symbol base listed' rest path scope t →
        rest.length < rounds.length →
        Grants room (repeatUntil (accept "E") (nestedPart (Rule.parse limit levels) false) rounds
          scope) t Q) →
      Grants room (repeatUntil (accept "E") (nestedPart (Rule.parse limit levels) false) rounds none)
        s Q := by
  induction h with
  | @listed path place found =>
    intro rest s rounds ahead hs enough next
    obtain ⟨byte, more, begins, -⟩ := substitutionCode_opens place
    have opening : Ahead [83] (octets (substitutionCode place) ++ rest) := by
      rw [begins]
      exact Ahead.cons (List.mem_singleton_self _) _
    have counted : place < listed.length := (List.getElem?_eq_some_iff.mp found).1
    refine round hs enough opening (by decide) ?_
    refine (substitutionPart spent fits found (by omega) hs).weaken ?_
    intro scope t ht rounds more'
    refine next scope t rounds ht ?_
    simp only [begins, List.length_append, List.length_cons] at more'
    omega
  | top id =>
    intro rest s rounds ahead hs enough next
    have sized := id.size_le_code
    have positive := id.code_pos
    refine round hs enough (id.ahead_code rest) (by decide) ?_
    refine (identifierPart none spent fits (by omega) ahead hs .none).weaken ?_
    intro scope t ht rounds more
    refine next scope t rounds ht.inside ?_
    rw [List.length_append] at more
    omega
  | @inside listed' scope code id h ih =>
    intro rest s rounds ahead hs enough next
    have sized := id.size_le_code
    have positive := id.code_pos
    rw [octets_append, List.length_append] at small
    rw [octets_append, List.append_assoc] at hs enough
    have opening := id.ahead_code rest
    refine ih (by omega) (opening.weaken (by decide)) hs enough ?_
    intro outer t rounds inside more
    obtain ⟨name, rfl, ht, held⟩ := inside
    refine round ht more opening (by decide) ?_
    refine (identifierPart (some scope) spent fits (by omega) ahead ht (.some held)).weaken ?_
    intro scope t ht rounds more
    refine next scope t rounds ht.inside ?_
    rw [List.length_append] at more
    omega

end Rounds

/-- The newest component goes off the list again. -/
theorem delisted {component : Component} {name : NodeId} {Q : Unit → ParseState → Prop}
    (h : Stands symbol base (listed ++ [component]) rest s)
    (last : s.work.substitutions.entries.back? = some name)
    (next : ∀ t, Stands symbol base listed rest t → t.work.tree = s.work.tree →
      t.work.substitutions.contains name = false → Q () t) : Grants room delist s Q := by
  have popped : s.work.substitutions.pop? = some ⟨s.work.substitutions.entries.pop,
      s.work.substitutions.places.erase name.index⟩ := by
    rw [Substitutions.pop?, last]
  refine after run_get (after (t := s) (by rw [popped]; rfl) (known (run_modify _) ?_))
  refine next _ ⟨h.ahead, h.behind, h.intact, h.tree, ?_, ?_, h.forward, h.level, h.facts⟩ rfl ?_
  · have shorter := List.forall₂_take listed.length h.listed
    have length := h.listed.length_eq
    rw [List.length_append, List.length_singleton] at length
    rw [List.take_left] at shorter
    rw [Array.toList_pop, List.dropLast_eq_take, ← length]
    exact shorter
  · intro place hplace
    rw [Std.TreeSet.contains_erase, Bool.and_eq_true] at hplace
    exact h.places place hplace.2
  · simp [Substitutions.contains]

section Marks

variable {allowed : List UInt8}

theorem noQualifiers {Q : Qualifiers → ParseState → Prop} (h : Stands symbol base listed rest s)
    (ahead : Ahead allowed rest)
    (other : ∀ byte ∈ allowed, byte.toNat ≠ 'r'.toNat ∧ byte.toNat ≠ 'V'.toNat ∧
      byte.toNat ≠ 'K'.toNat)
    (next : Q {} s) : Grants room qualifiers s Q := by
  refine bind (rejected "r" rfl h ahead (fun byte hbyte => (other byte hbyte).1) ?_)
  refine bind (rejected "V" rfl h ahead (fun byte hbyte => (other byte hbyte).2.1) ?_)
  refine bind (rejected "K" rfl h ahead (fun byte hbyte => (other byte hbyte).2.2) ?_)
  exact pure next

theorem noRefQualifier {Q : Option Reference → ParseState → Prop}
    (h : Stands symbol base listed rest s) (ahead : Ahead allowed rest)
    (other : ∀ byte ∈ allowed, byte.toNat ≠ 'O'.toNat ∧ byte.toNat ≠ 'R'.toNat)
    (next : Q none s) : Grants room refQualifier s Q := by
  refine bind (rejected "O" rfl h ahead (fun byte hbyte => (other byte hbyte).1) ?_)
  refine bind (rejected "R" rfl h ahead (fun byte hbyte => (other byte hbyte).2) ?_)
  exact pure next

end Marks

/-- A path does not begin as a name in `std` does. -/
theorem notStd {path : ClassPath} {code : String} {Q : Bool → ParseState → Prop}
    (written : ClassPath.Written listed path code listed')
    (h : Stands symbol base listed (octets code ++ rest) s) (next : Q false s) :
    Grants room (accept "St") s Q := by
  obtain ⟨byte, more, begins, opens⟩ | ⟨byte, more, begins, notStd⟩ := written.opens
  · have opening : Ahead Identifier.openers (octets code ++ rest) := by
      rw [begins]
      exact Ahead.cons opens _
    exact rejected _ rfl h opening (by decide) next
  · have none : s.cursor.strip? "St".toList = none := by
      have ahead := h.ahead
      rw [begins] at ahead
      generalize s.cursor = cursor at ahead ⊢
      obtain ⟨offset, _⟩ := cursor
      obtain rfl := ahead
      have other : byte.toNat ≠ 't'.toNat := by
        intro same
        rw [same] at notStd
        cases notStd
      show Cursor.strip? ⟨offset + 1, byte :: (more ++ rest)⟩ ['t'] = Option.none
      rw [Cursor.strip?, if_neg other]
    refine known (a := false) ?_ next
    simp only [accept, step, none]

/-- What a path in front of more identifiers may begin with. -/
theorem ahead_path {path : ClassPath} {code : String}
    (written : ClassPath.Written listed path code listed') (rest : List UInt8) :
    Ahead (octets "123456789S") (octets code ++ rest) := by
  obtain ⟨byte, more, begins, opens⟩ | ⟨byte, more, begins, -⟩ := written.opens
  · have every : ∀ byte ∈ Identifier.openers, byte ∈ octets "123456789S" := by decide
    rw [begins]
    exact Ahead.cons (every byte opens) _
  · rw [begins]
    exact Ahead.cons (by decide) _

/-- The parts of a nested name are read one after the other, and each prefix is listed. -/
theorem nestedParts {scope : ClassPath} {id : Identifier} {code : String}
    (written : ClassPath.Written listed scope code listed') (spent : base.level + levels = limit)
    (fits : room → base.level + 1 < limit)
    (small : listed.length + (octets (code ++ id.code)).length < Number.bound)
    (h : Stands symbol base listed ([78] ++ (octets code ++ (octets id.code ++ ([69] ++ rest)))) s) :
    Grants room (Parse.nestedParts (Rule.parse limit levels) false) s fun name t =>
      Found symbol base (listed' ++ [.named (.inside scope id)]) rest (.named (.inside scope id))
        name t ∧ t.work.substitutions.entries.back? = some name := by
  have sized := id.size_le_code
  rw [octets_append, List.length_append] at small
  refine bind (expected rfl rfl h fun s h => ?_)
  have opening := ahead_path written (octets id.code ++ ([69] ++ rest))
  apply bind
  apply noQualifiers h opening (by decide)
  apply bind
  apply noRefQualifier h opening (by decide)
  apply bind
  refine known rfl ?_
  apply bind
  apply notStd written h
  apply bind
  refine known rfl ?_
  apply bind
  refine after run_get ?_
  refine scopeRounds written spent fits (by omega) ((id.ahead_code _).weaken (by decide)) h
    (by rw [h.ahead]; exact Nat.lt_succ_self _) fun outer t rounds inside more => ?_
  obtain ⟨name, rfl, ht, held⟩ := inside
  refine round ht more (id.ahead_code _) (by decide) ?_
  refine (identifierPart (some scope) spent fits (by omega) (Ahead.cons (by decide) _) ht
    (.some held)).weaken ?_
  intro complete t reached rounds more
  obtain ⟨name, rfl, ⟨ht, held⟩, last⟩ := reached
  cases rounds with
  | nil =>
    rw [List.length_append] at more
    have positive := id.code_pos
    simp only [List.length_nil] at more
    omega
  | cons byte rounds =>
    refine bind (accepted _ rfl rfl ht fun u hu same => pure (known rfl ⟨⟨hu, ?_⟩, ?_⟩))
    · rw [same]
      exact held
    · rw [same]
      exact last

/-- A nested name is not listed behind it, and its scopes are. -/
theorem nestedName {scope : ClassPath} {id : Identifier} {code : String}
    (written : ClassPath.Written listed scope code listed') (spent : base.level + levels = limit)
    (fits : room → base.level + 2 < limit)
    (small : listed.length + (octets (code ++ id.code)).length < Number.bound)
    (h : Stands symbol base listed ([78] ++ (octets code ++ (octets id.code ++ ([69] ++ rest)))) s) :
    Grants room (Rule.parse limit levels (.nestedName false)) s
      (Fresh symbol base listed' rest (.named (.inside scope id))) := by
  refine ruleAt spent (fun enough => Nat.lt_of_succ_lt (fits enough)) h ?_
  intro levels spent h
  refine bind ((nestedParts written spent fits small h).weaken fun name t complete => ?_)
  obtain ⟨⟨ht, held⟩, last⟩ := complete
  refine bind (delisted ht last fun u hu same unlisted => pure (Fresh.up ⟨⟨hu, ?_⟩, unlisted⟩))
  rw [same]
  exact held

/-- A nested name is read as its path and its last identifier. -/
theorem nestedInside {scope : ClassPath} {id : Identifier} {code : String}
    (written : ClassPath.Written listed scope code listed') (spent : base.level + levels = limit)
    (fits : room → base.level + 3 < limit)
    (small : listed.length + (octets (code ++ id.code)).length < Number.bound)
    (h : Stands symbol base listed ([78] ++ (octets code ++ (octets id.code ++ ([69] ++ rest)))) s) :
    Grants room (Rule.parse limit levels (.name false)) s
      (Fresh symbol base listed' rest (.named (.inside scope id))) := by
  refine ruleAt spent (fun enough => by have := fits enough; omega) h fun levels spent h => ?_
  refine bind (peekPair ?_)
  rw [peekAt_cons h]
  show Grants room (Rule.parse limit levels (.nestedName false)) _ _
  exact (nestedName written spent (fun enough => by have := fits enough; omega) small h).weaken
    fun _ _ => Fresh.up

end Parse.Grants
end Unmangle
