import Unmangle.Grammar.Parse
import Unmangle.Proofs.Compression.Opening
import Unmangle.Proofs.Compression.Steps

/-!
# Reading names

Identifiers, substitutions and nested names are read as what they were written for. A
nested name lists what it passes in the order in which it is written, and takes its
complete name off the list again.
-/
namespace Unmangle.Parse.Grants

variable {symbol : ByteArray} {room : Prop} {limit levels : Nat} {base s : ParseState}
  {listed listed' : List Component} {rest allowed : List UInt8} {component : Component}

def Found (symbol : ByteArray) (base : ParseState) (listed : List Component) (rest : List UInt8)
    (component : Component) (name : NodeId) (t : ParseState) : Prop :=
  Stands symbol base listed rest t ∧ component.Stored symbol t.work.tree name

/-- A component was read, and its name is not on the list yet. -/
def Fresh (symbol : ByteArray) (base : ParseState) (listed : List Component) (rest : List UInt8)
    (component : Component) (name : NodeId) (t : ParseState) : Prop :=
  Found symbol base listed rest component name t ∧ t.work.substitutions.contains name = false

theorem Found.up {name : NodeId} {t : ParseState}
    (h : Found symbol { base with level := base.level + 1 } listed rest component name t) :
    Found symbol base listed rest component name (Parse.up t) :=
  ⟨h.1.up, h.2⟩

theorem Fresh.up {name : NodeId} {t : ParseState}
    (h : Fresh symbol { base with level := base.level + 1 } listed rest component name t) :
    Fresh symbol base listed rest component name (Parse.up t) :=
  ⟨h.1.up, h.2⟩

/-- A rule is read where its body is, one level deeper. -/
theorem ruleAt {rule : Rule} {Q : NodeId → ParseState → Prop} (spent : base.level + levels = limit)
    (fits : room → base.level + 1 < limit) (h : Stands symbol base listed rest s)
    (body : ∀ levels, base.level + 1 + levels = limit →
      Stands symbol { base with level := base.level + 1 } listed rest
        { s with level := s.level + 1 } →
      Grants room (rule.body (Rule.parse limit levels)) { s with level := s.level + 1 }
        fun id t => Q id (Parse.up t)) :
    Grants room (Rule.parse limit levels rule) s Q := by
  have level := h.level
  refine Grants.rule (level ▸ spent) (fun enough => level ▸ fits enough) ?_
  intro levels spent
  exact body levels (level ▸ spent) h.deeper

/-- The name of a listed component. -/
theorem found_listed {place : Nat} (h : Stands symbol base listed rest s)
    (found : listed[place]? = some component) :
    Grants room (Parse.listed place) s fun name t =>
      t = s ∧ component.Stored symbol s.work.tree name := by
  obtain ⟨below, same⟩ := List.getElem?_eq_some_iff.mp found
  have below' : place < s.work.substitutions.entries.toList.length := h.listed.length_eq ▸ below
  have held := h.listed.get below below'
  refine after run_get (known (a := s.work.substitutions.entries.toList[place]) (t := s) ?_ ⟨rfl, ?_⟩)
  · rw [Substitutions.get?, ← Array.getElem?_toList, List.getElem?_eq_getElem below']
    rfl
  · rw [← same]
    exact held

/-- The code of a place finds the component listed there. -/
theorem substitution {place : Nat} (spent : base.level + levels = limit)
    (fits : room → base.level + 1 < limit) (found : listed[place]? = some component)
    (small : place < Number.bound)
    (h : Stands symbol base listed (octets (substitutionCode place) ++ rest) s) :
    Grants room (Rule.parse limit levels .substitution) s
      (Found symbol base listed rest component) := by
  refine ruleAt spent fits h ?_
  intro levels spent h
  show Grants room Parse.substitution _ _
  have reached : ∀ t, Stands symbol { base with level := base.level + 1 } listed rest t →
      Grants room (Parse.listed place) t fun name t =>
        Found symbol base listed rest component name (Parse.up t) := by
    intro t ht
    refine (found_listed ht found).weaken ?_
    intro name t' held
    obtain ⟨rfl, held⟩ := held
    exact Found.up ⟨ht, held⟩
  cases place with
  | zero =>
    have hs : Stands symbol _ listed ([83] ++ ([95] ++ rest)) _ := h
    refine bind (expected rfl rfl hs fun t ht => bind (peek ?_))
    rw [peekAt_cons ht]
    refine bind (accepted _ rfl rfl ht fun t ht _ => ?_)
    exact reached t ht
  | succ number =>
    rw [substitutionCode, octets_append, octets_append, List.append_assoc, List.append_assoc] at h
    have hs : Stands symbol _ listed
      ([83] ++ (octets (Number.numeral 36 number) ++ ([95] ++ rest))) _ := h
    obtain ⟨value, others, numeral, below, -⟩ :=
      Number.head_numeral (by decide : 2 ≤ 36) (by decide) number
    have digit : ∀ value : Fin 36, (Char.ofNat (Number.digitByte value).toNat).isLower = false ∧
        (Number.digitByte value).toNat ≠ '_'.toNat := by decide
    refine bind (expected rfl rfl hs fun t ht => bind (peek ?_))
    rw [numeral] at ht
    rw [peekAt_cons ht, (digit ⟨value, below⟩).1]
    refine bind (rejected _ rfl ht (Ahead.cons (List.mem_singleton_self _) _)
      (fun byte hbyte => ?_) ?_)
    · rw [List.mem_singleton.mp hbyte]
      exact (digit ⟨value, below⟩).2
    · rw [← numeral] at ht
      refine bind (counted (by decide) (by decide) (fun _ => Number.isSeqDigit_digitByte) ?_
        (Nat.lt_of_succ_lt small) ht fun t ht => ?_)
      · rintro _ ⟨⟩
        rfl
      · have succ : Number.succ? number = some (number + 1) := if_pos small
        refine after (t := t) (a := number + 1) (by rw [succ]; rfl) ?_
        exact bind (expected rfl rfl ht fun t ht => reached t ht)

/-- No template arguments come behind a component. -/
theorem noArgs (ahead : Ahead Component.followers rest) (h : Stands symbol base listed rest s) :
    (s.cursor.peekAt 0 == 'I') = false := by
  have other : ∀ byte ∈ Component.followers, (Char.ofNat byte.toNat == 'I') = false := by
    decide
  rw [Cursor.peekAt, h.ahead]
  cases rest with
  | nil => rfl
  | cons byte rest => exact other byte (ahead byte rfl)

/-- No tag comes next. -/
theorem untagged {name : NodeId} {Q : NodeId → ParseState → Prop}
    (h : Stands symbol base listed rest s) (ahead : Ahead allowed rest)
    (other : ∀ byte ∈ allowed, byte.toNat ≠ 'B'.toNat) (next : Q name s) :
    Grants room (abiTags name) s Q := by
  have none : s.cursor.strip? "B".toList = none := by
    refine Cursor.strip?_of_ne ?_
    intro byte hbyte
    refine other byte (ahead byte ?_)
    rwa [h.ahead] at hbyte
  refine after run_get ?_
  apply bind
  apply bind
  apply bind
  refine after run_get (pure (pure ?_))
  rw [none]
  refine pure ?_
  show Grants room (Pure.pure name) s Q
  exact pure next

/-- An identifier with no tag behind it. -/
theorem unqualifiedName {id : Identifier} (tracked : Bool) (spent : base.level + levels = limit)
    (fits : room → base.level + 1 < limit) (small : id.words.utf8ByteSize < Number.bound)
    (ahead : Ahead Component.followers rest)
    (h : Stands symbol base listed (octets id.code ++ rest) s) :
    Grants room (Rule.parse limit levels (.unqualifiedName tracked)) s
      (Fresh symbol base listed rest (.named (.top id))) := by
  refine ruleAt spent fits h ?_
  intro levels spent h
  show Grants room (Parse.unqualifiedName _ tracked) _ _
  obtain ⟨byte, more, begins, opens⟩ := id.code_opens
  have first : ∀ byte ∈ Identifier.openers, (Char.ofNat byte.toNat == 'U') = false ∧
      '1' ≤ Char.ofNat byte.toNat ∧ Char.ofNat byte.toNat ≤ '9' := by decide
  obtain ⟨notUnnamed, digit⟩ := first byte opens
  have peeked := h
  rw [begins] at peeked
  refine bind (peekPair ?_)
  rw [peekAt_cons peeked]
  dsimp only
  rw [notUnnamed, if_neg Bool.false_ne_true, if_pos digit]
  refine bind (sourceName small h fun name t ht held unlisted => ?_)
  exact untagged ht ahead (by decide) (Fresh.up ⟨⟨ht, held⟩, unlisted⟩)

/-- A name at the top that no arguments follow. -/
theorem topName {id : Identifier} (tracked : Bool) (spent : base.level + levels = limit)
    (fits : room → base.level + 2 < limit) (small : id.words.utf8ByteSize < Number.bound)
    (ahead : Ahead Component.followers rest)
    (h : Stands symbol base listed (octets id.code ++ rest) s) :
    Grants room (Rule.parse limit levels (.name tracked)) s
      (Fresh symbol base listed rest (.named (.top id))) := by
  refine ruleAt spent (fun enough => Nat.lt_of_succ_lt (fits enough)) h ?_
  intro levels spent h
  show Grants room (Parse.name _ tracked) _ _
  obtain ⟨byte, more, begins, opens⟩ := id.code_opens
  have first : ∀ byte ∈ Identifier.openers, (Char.ofNat byte.toNat == 'N') = false ∧
      (Char.ofNat byte.toNat == 'Z') = false ∧ (Char.ofNat byte.toNat == 'S') = false := by
    decide
  obtain ⟨notNested, notLocal, notListed⟩ := first byte opens
  have peeked := h
  rw [begins] at peeked
  refine bind (peekPair ?_)
  rw [peekAt_cons peeked]
  dsimp only
  rw [notNested, notLocal, notListed, if_neg Bool.false_ne_true, if_neg Bool.false_ne_true,
    Bool.false_and, if_neg Bool.false_ne_true]
  have opening := id.ahead_code rest
  apply bind
  apply bind
  apply rejected _ rfl h opening (by decide)
  apply bind
  apply bind
  refine rejected _ rfl h opening (by decide) (pure ?_)
  refine (unqualifiedName tracked spent fits small ahead h).weaken ?_
  intro name t found
  refine bind (peek ?_)
  rw [noArgs ahead found.1.1, if_neg Bool.false_ne_true]
  exact pure found.up

end Unmangle.Parse.Grants
