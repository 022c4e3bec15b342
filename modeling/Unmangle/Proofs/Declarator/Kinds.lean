import Unmangle.Proofs.Declarator.Reading
import Unmangle.Proofs.Extension.Number

/-!
# Reading each kind of form

One lemma for each kind, from what it is made of, and the whole by induction on the form.
-/
namespace Unmangle.Parse.Meets

variable {α : Type} {symbol : ByteArray} {room : Prop} {due : Option Fault} {limit levels : Nat}
  {scope : Nat → Option NodeId} {base s : ParseState} {rest bytes allowed : List UInt8}
  {form target : TypeForm}

/-- The name stands for a form, which was read below the limit. -/
def Standing (symbol : ByteArray) (limit : Nat) (scope : Nat → Option NodeId) (base : ParseState)
    (form : TypeForm) (tree : Tree) (id : NodeId) : Prop :=
  form.Stored symbol tree scope id ∧ base.level + form.nest < limit

/-- A form is read as what it is, wherever something may follow it. -/
def Reads (symbol : ByteArray) (room : Prop) (limit : Nat) (scope : Nat → Option NodeId)
    (form : TypeForm) : Prop :=
  ∀ ⦃base s : ParseState⦄ ⦃levels : Nat⦄ ⦃rest : List UInt8⦄, base.level + levels = limit →
    (room → base.level + form.nest < limit) → Ahead TypeForm.followers rest → InScope base scope →
    Poised symbol base (octets form.code ++ rest) s →
    Meets room (strayAmong scope form.indices) (Rule.parse limit levels .type) s
      (Found symbol base rest (Standing symbol limit scope base form))

/-- Forms behind others are read in a tree that has grown. -/
theorem Reads.next (reads : Reads symbol room limit scope form) (spent : base.level + levels = limit)
    (fits : room → base.level + form.nest < limit) (ahead : Ahead TypeForm.followers rest)
    (inScope : InScope base scope) (h : Poised symbol base (octets form.code ++ rest) s) :
    Meets room (strayAmong scope form.indices) (Rule.parse limit levels .type) s fun id t =>
      Found symbol base rest (Standing symbol limit scope base form) id t ∧
        s.work.tree.Grows t.work.tree := by
  have level := h.level
  refine (reads (level ▸ spent) (level ▸ fits) ahead (inScope.later h) h.self).weaken ?_
  intro id t found
  exact ⟨⟨h.trans found.1, found.2.1, level ▸ found.2.2⟩, found.1.grows⟩

/-- A type that a rule of its own reads, and which is listed when it ends. -/
theorem listedType (rule : Rule) {held : Tree → NodeId → Prop} (spent : base.level + levels = limit)
    (fits : room → base.level + 1 < limit)
    (announced : ∀ (call : Calls) (t : ParseState),
      Poised symbol { base with level := base.level + 1 } bytes t →
      (Parse.type call).run t = (Parse.listing (call rule)).run t)
    (h : Poised symbol base bytes s)
    (read : ∀ levels t, base.level + 1 + levels = limit →
      Poised symbol { base with level := base.level + 1 } bytes t →
      Meets room due (Rule.parse limit levels rule) t
        (Fresh symbol { base with level := base.level + 1 } rest held)) :
    Meets room due (Rule.parse limit levels .type) s (Found symbol base rest held) := by
  refine ruleAt spent fits h ?_
  intro levels spent below h
  show Outcome room _ _ ((Parse.type (Rule.parse limit levels)).run _)
  rw [announced _ _ h]
  exact (listing _ (read levels _ spent h)).weaken fun _ _ => Found.up

section Leaves

/-- A built-in type is read from its letter. -/
theorem builtinType {letter : Char} (proper : (TypeForm.builtin letter).Proper) :
    Reads symbol room limit scope (.builtin letter) := by
  intro base s levels rest spent fits ahead inScope h
  obtain ⟨byte, same, char⟩ := TypeForm.builtin_octets proper
  obtain ⟨words, spelled⟩ := Option.isSome_iff_exists.mp proper
  rw [TypeForm.nest] at fits
  rw [TypeForm.code, TypeForm.codeWith, same] at h
  rw [TypeForm.indices]
  refine ruleAt spent fits h ?_
  intro levels spent below h
  refine peekedPair h ?_
  rw [char]
  dsimp only
  rw [TypeKind.ofLetters_of_spelling? spelled]
  refine advanced [byte] h ?_
  intro t ht
  refine made _ ht ?_
  intro id u hu _ held _
  refine Found.up ⟨hu, ?_, ?_⟩
  · refine .builtin ⟨_, held, ?_⟩
    rw [spelled]
    rfl
  · rw [TypeForm.nest]
    exact below

/-- A rare built-in type is read from `D` and its letter. -/
theorem rareType {letter : Char} (proper : (TypeForm.rare letter).Proper) :
    Reads symbol room limit scope (.rare letter) := by
  intro base s levels rest spent fits ahead inScope h
  obtain ⟨byte, same, char, -⟩ := TypeForm.rare_octets proper
  obtain ⟨words, spelled⟩ := Option.isSome_iff_exists.mp proper
  rw [TypeForm.nest] at fits
  rw [TypeForm.code, TypeForm.codeWith, octets_append, same] at h
  rw [TypeForm.indices]
  have h : Poised symbol base ([68, byte] ++ rest) s := h
  refine ruleAt spent fits h ?_
  intro levels spent below h
  refine peekedPair h ?_
  rw [peekAt_second h, char]
  have kind : TypeKind.ofLetters 'D' letter = .extended words :=
    TypeKind.behindD_of_extendedSpelling? spelled
  dsimp only
  rw [show Char.ofNat (68 : UInt8).toNat = 'D' from rfl, kind]
  refine advanced [68, byte] h ?_
  intro t ht
  refine made _ ht ?_
  intro id u hu _ held _
  refine Found.up ⟨hu, ?_, ?_⟩
  · refine .rare ⟨_, held, ?_⟩
    rw [spelled]
    rfl
  · rw [TypeForm.nest]
    exact below

/-- A class is read from its identifier. -/
theorem namedForm {ident : Identifier} (small : symbol.size < Number.bound) :
    Reads symbol room limit scope (.named ident) := by
  intro base s levels rest spent fits ahead inScope h
  rw [TypeForm.nest] at fits
  rw [TypeForm.code, TypeForm.codeWith] at h
  rw [TypeForm.indices]
  obtain ⟨byte, more, begins, opens⟩ := ident.code_opens
  refine listedType .namedType spent (fun enough => by have := fits enough; omega) ?_ h
    fun levels t spent ht => ?_
  · intro call t ht
    rw [begins] at ht
    rw [Parse.type, run_bind_ok _ Grants.run_peekPair, peekAt_cons ht]
    rcases Identifier.cases_openers opens with
      rfl | rfl | rfl | rfl | rfl | rfl | rfl | rfl | rfl <;> rfl
  · refine (namedType small spent (fun enough => ?_) ahead ht).weaken fun id u fresh => ?_
    · have := fits enough
      show base.level + 1 + 3 < limit
      omega
    · refine fresh.imp ?_
      intro words
      refine ⟨.named words.1, ?_⟩
      have low : base.level + 1 + 3 < limit := words.2
      rw [TypeForm.nest]
      omega

end Leaves

section Wrapped

/-- A form made of one letter and another form. -/
theorem wrappedType (byte : UInt8) (wrap : NodeId → Node)
    (typed : ∀ (call : Calls) (s : ParseState), s.cursor.peekAt 0 = Char.ofNat byte.toNat →
      (Parse.type call).run s = (Parse.listing (Parse.wrappedType call wrap)).run s)
    (nest : form.nest = target.nest + 1) (code : octets form.code = byte :: octets target.code)
    (indices : form.indices = target.indices)
    (wrapped : ∀ tree id inner, tree.get? id = some (wrap inner) →
      target.Stored symbol tree scope inner → form.Stored symbol tree scope id)
    (inner : Reads symbol room limit scope target) : Reads symbol room limit scope form := by
  intro base s levels rest spent fits ahead inScope h
  rw [nest] at fits
  rw [code] at h
  rw [indices]
  refine ruleAt spent (fun enough => by have := fits enough; omega) h fun levels spent below h => ?_
  have core : Meets room (strayAmong scope target.indices)
      (Parse.wrappedType (Rule.parse limit levels) wrap) { s with level := s.level + 1 }
      (Fresh symbol { base with level := base.level + 1 } rest
        (Standing symbol limit scope base form)) := by
    refine advanced [byte] h ?_
    intro t ht
    refine before ?_
    refine (inner spent (fun enough => ?_) ahead inScope.deeper ht).weaken fun target u found => ?_
    · have := fits enough
      show base.level + 1 + _ < limit
      omega
    refine made _ found.1 ?_
    intro id v hv later held unlisted
    refine ⟨⟨hv, ?_, ?_⟩, ?_, unlisted⟩
    · exact wrapped _ id target held (found.2.1.grows later)
    · have low : base.level + 1 + _ < limit := found.2.2
      rw [nest]
      omega
    · rw [held]
      rfl
  show Outcome room _ _ ((Parse.type (Rule.parse limit levels)).run _)
  rw [typed _ _ (peekAt_cons h)]
  exact (listing _ core).weaken fun _ _ => Found.up

theorem run_type_pointer (call : Calls) (s : ParseState) (first : s.cursor.peekAt 0 = 'P') :
    (Parse.type call).run s = (Parse.listing (Parse.wrappedType call .pointer)).run s := by
  rw [Parse.type, run_bind_ok _ Grants.run_peekPair, first]
  rfl

def referenceByte : Reference → UInt8
  | .lvalue => 82
  | .rvalue => 79

theorem run_type_reference (kind : Reference) (call : Calls) (s : ParseState)
    (first : s.cursor.peekAt 0 = Char.ofNat (referenceByte kind).toNat) :
    (Parse.type call).run s = (Parse.listing (Parse.wrappedType call (.reference kind))).run s := by
  rw [Parse.type, run_bind_ok _ Grants.run_peekPair, first]
  cases kind <;> rfl

theorem octets_reference (kind : Reference) (words : String) :
    octets (kind.letter ++ words) = referenceByte kind :: octets words := by
  rw [octets_append]
  cases kind <;> rfl

theorem pointerType (inner : Reads symbol room limit scope target) :
    Reads symbol room limit scope (.pointer target) := by
  refine wrappedType 80 .pointer run_type_pointer (by rw [TypeForm.nest]) ?_
    (by rw [TypeForm.indices]) (fun _ _ _ => .pointer) inner
  rw [TypeForm.code, TypeForm.codeWith, octets_append]
  rfl

theorem referenceType {kind : Reference} (inner : Reads symbol room limit scope target) :
    Reads symbol room limit scope (.reference kind target) := by
  refine wrappedType (referenceByte kind) (.reference kind) (run_type_reference kind)
    (by rw [TypeForm.nest]) ?_ (by rw [TypeForm.indices]) (fun _ _ _ => .reference) inner
  rw [TypeForm.code, TypeForm.codeWith, octets_reference]
  rfl

/-- Any node that holds something is found. -/
theorem isSome_of_held {tree : Tree} {id : NodeId} {node : Node} (held : tree.get? id = some node) :
    (tree.get? id).isSome := by
  rw [held]
  rfl

/-- The letter of a type with a rule of its own. -/
theorem announced (byte : UInt8) (rule : Rule)
    (typed : ∀ (call : Calls) (s : ParseState), s.cursor.peekAt 0 = Char.ofNat byte.toNat →
      (Parse.type call).run s = (Parse.listing (call rule)).run s) (call : Calls) (t : ParseState)
    (h : Poised symbol base (byte :: bytes) t) :
    (Parse.type call).run t = (Parse.listing (call rule)).run t :=
  typed call t (peekAt_cons h)

theorem memberPointerRule {outer member : TypeForm} (proper : member.Every TypeForm.Proper)
    (reads : Reads symbol room limit scope outer) (reads' : Reads symbol room limit scope member)
    (spent : base.level + levels = limit)
    (fits : room → base.level + (max outer.nest member.nest + 1) < limit)
    (ahead : Ahead TypeForm.followers rest) (inScope : InScope base scope)
    (h : Poised symbol base ([77] ++ (octets outer.code ++ (octets member.code ++ rest))) s) :
    Meets room ((strayAmong scope outer.indices).or (strayAmong scope member.indices))
      (Rule.parse limit levels .memberPointerType) s (Fresh symbol base rest fun tree id =>
        (TypeForm.memberPointer outer member).Stored symbol tree scope id ∧
          base.level + (max outer.nest member.nest + 1) < limit) := by
  refine ruleAt spent (fun enough => by have := fits enough; omega) h fun levels spent below h => ?_
  refine expected [77] rfl rfl h ?_
  intro t ht
  refine bind ?_
  have behind : Ahead TypeForm.followers (octets member.code ++ rest) :=
    (TypeForm.ahead_code proper rest).weaken (by decide)
  refine (reads spent (fun enough => ?_) behind inScope.deeper ht).weaken fun id u found => ?_
  · have := fits enough
    show base.level + 1 + _ < limit
    omega
  refine before ?_
  refine (reads'.next spent (fun enough => ?_) ahead inScope.deeper found.1).weaken
    fun id' v found' => ?_
  · have := fits enough
    show base.level + 1 + _ < limit
    omega
  obtain ⟨⟨hv, stored', low'⟩, grown⟩ := found'
  obtain ⟨-, stored, low⟩ := found
  refine made _ hv ?_
  intro made w hw later held unlisted
  refine Fresh.up ⟨⟨hw, ?_, ?_⟩, isSome_of_held held, unlisted⟩
  · exact .memberPointer held (stored.grows (grown.trans later)) (stored'.grows later)
  · have low : base.level + 1 + _ < limit := low
    have low' : base.level + 1 + _ < limit := low'
    omega

/-- A pointer to a member is read from `M`, its class and the type of the member. -/
theorem memberPointerType {outer member : TypeForm} (proper : member.Every TypeForm.Proper)
    (reads : Reads symbol room limit scope outer) (reads' : Reads symbol room limit scope member) :
    Reads symbol room limit scope (.memberPointer outer member) := by
  intro base s levels rest spent fits ahead inScope h
  rw [TypeForm.nest] at fits
  rw [TypeForm.code, TypeForm.codeWith, octets_append, octets_append, List.append_assoc,
    List.append_assoc] at h
  rw [TypeForm.indices, strayAmong_append]
  refine listedType _ spent (fun enough => by have := fits enough; omega)
    (announced 77 .memberPointerType fun call t first => ?_) h fun levels t spent ht => ?_
  · rw [Parse.type, run_bind_ok _ Grants.run_peekPair, first]
    rfl
  · refine (memberPointerRule proper reads reads' spent (fun enough => ?_) ahead inScope.deeper
      ht).weaken fun id u fresh => fresh.imp fun stored => ⟨stored.1, ?_⟩
    · have := fits enough
      show base.level + 1 + _ < limit
      omega
    · have low : base.level + 1 + _ < limit := stored.2
      rw [TypeForm.nest]
      omega

theorem arrayRule {length : Nat} (inner : Reads symbol room limit scope target)
    (spent : base.level + levels = limit) (fits : room → base.level + (target.nest + 1) < limit)
    (ahead : Ahead TypeForm.followers rest) (inScope : InScope base scope)
    (h : Poised symbol base ([65] ++ (octets (Number.numeral 10 length) ++
      ([95] ++ (octets target.code ++ rest)))) s) :
    Meets room (strayAmong scope target.indices) (Rule.parse limit levels .arrayType) s
      (Fresh symbol base rest fun tree id =>
        (TypeForm.array length target).Stored symbol tree scope id ∧
          base.level + (target.nest + 1) < limit) := by
  refine ruleAt spent (fun enough => by have := fits enough; omega) h fun levels spent below h => ?_
  refine expected [65] rfl rfl h ?_
  intro t ht
  obtain ⟨value, more, numeral, below', -⟩ :=
    Number.head_numeral (by decide : 2 ≤ 10) (by decide) length
  have digit : ∀ value : Fin 10, (Char.ofNat (Number.digitByte value).toNat).isDigit = true := by
    decide
  have ahead' := ht
  rw [numeral] at ahead'
  refine andThen (peeked ahead' ?_)
  rw [digit ⟨value, below'⟩, if_pos rfl]
  refine numbered (by rintro _ ⟨⟩; rfl) ht fun text u hu resolved => ?_
  refine expected [95] rfl rfl hu ?_
  intro v hv
  refine before ?_
  refine made _ hv ?_
  intro dimension w hw _ sized _
  refine pure ?_
  refine before ?_
  refine (inner.next spent (fun enough => ?_) ahead inScope.deeper hw).weaken fun id x found => ?_
  · have := fits enough
    show base.level + 1 + _ < limit
    omega
  obtain ⟨⟨hx, stored, low⟩, grown⟩ := found
  refine made _ hx ?_
  intro made y hy later held unlisted
  refine Fresh.up ⟨⟨hy, ?_, ?_⟩, isSome_of_held held, unlisted⟩
  · refine .array held ⟨text, ?_, resolved⟩ (stored.grows later)
    exact (grown.trans later).extend _ _ sized
  · have low : base.level + 1 + _ < limit := low
    omega

/-- An array is read from `A`, its length and its element. -/
theorem arrayType {length : Nat} (inner : Reads symbol room limit scope target) :
    Reads symbol room limit scope (.array length target) := by
  intro base s levels rest spent fits ahead inScope h
  rw [TypeForm.nest] at fits
  rw [TypeForm.code, TypeForm.codeWith, octets_append, octets_append, octets_append,
    List.append_assoc, List.append_assoc, List.append_assoc] at h
  rw [TypeForm.indices]
  refine listedType _ spent (fun enough => by have := fits enough; omega)
    (announced 65 .arrayType fun call t first => ?_) h fun levels t spent ht => ?_
  · rw [Parse.type, run_bind_ok _ Grants.run_peekPair, first]
    rfl
  · refine (arrayRule inner spent (fun enough => ?_) ahead inScope.deeper ht).weaken
      fun id u fresh => fresh.imp fun stored => ⟨stored.1, ?_⟩
    · have := fits enough
      show base.level + 1 + _ < limit
      omega
    · have low : base.level + 1 + _ < limit := stored.2
      rw [TypeForm.nest]
      omega

end Wrapped

section Qualified

variable {quals : Qualifiers}

/-- A letter for a flag comes next, if the flag is set. -/
theorem flagged {token : String} {char : Char} {flag : Bool} {f : Bool → Parse α}
    {Q : α → ParseState → Prop} (spelled : token.toList = [char]) (ascii : char.toNat < 256)
    (single : octets token = [UInt8.ofNat char.toNat])
    (other : flag = false → ∀ byte ∈ rest.head?, byte.toNat ≠ char.toNat)
    (h : Poised symbol base (octets (if flag then token else "") ++ rest) s)
    (next : ∀ t, Poised symbol base rest t → Meets room due (f flag) t Q) :
    Meets room due (accept token >>= f) s Q := by
  cases flag with
  | false =>
    refine rejected token spelled h (fun byte first => ?_ : Ahead rest.head?.toList rest)
      (fun byte first => ?_) (next s h)
    · exact Option.mem_toList.mpr first
    · exact other rfl byte (Option.mem_toList.mp first)
  | true =>
    refine accepted [UInt8.ofNat char.toNat] ?_ ?_ (single ▸ h) fun t ht _ => next t ht
    · rw [spelled]
      rfl
    · rw [spelled]
      simpa using ascii

/-- Qualifiers are read up to the first byte that is none. -/
theorem readQualifiers {f : Qualifiers → Parse α} {Q : α → ParseState → Prop}
    (stops : ∀ byte ∈ rest.head?, quals.takes byte = false)
    (h : Poised symbol base (octets quals.letters ++ rest) s)
    (next : ∀ t, Poised symbol base rest t → Meets room due (f quals) t Q) :
    Meets room due (qualifiers >>= f) s Q := by
  obtain ⟨isConst, isVolatile, isRestrict⟩ := quals
  simp only [Qualifiers.letters, octets_append, List.append_assoc] at h
  have stop (byte : UInt8) (first : byte ∈ rest.head?) :
      (isConst = false → byte.toNat ≠ 75) ∧
      (isVolatile = false → isConst = false → byte.toNat ≠ 86) ∧
      (isRestrict = false → isVolatile = false → isConst = false → byte.toNat ≠ 114) := by
    have every : ∀ c v r : Bool, ∀ byte : UInt8, Qualifiers.takes ⟨c, v, r⟩ byte = false →
        (c = false → byte ≠ 75) ∧ (v = false → c = false → byte ≠ 86) ∧
          (r = false → v = false → c = false → byte ≠ 114) := by
      rintro (_ | _) (_ | _) (_ | _) byte taken <;>
        simp_all [Qualifiers.takes, Qualifiers.isEmpty]
    have numbers (number : Nat) (small : number < 256) (apart : byte ≠ UInt8.ofNat number) :
        byte.toNat ≠ number := by
      intro same
      refine apart (UInt8.toNat_inj.mp ?_)
      rw [same, UInt8.toNat_ofNat_of_lt' small]
    obtain ⟨const, volatile, restrict⟩ := every _ _ _ byte (stops byte first)
    exact ⟨fun c => numbers 75 (by decide) (const c), fun v c => numbers 86 (by decide) (volatile v c),
      fun r v c => numbers 114 (by decide) (restrict r v c)⟩
  have ends : (qualifiers >>= f) = (do
      let isRestrict ← accept "r"
      let isVolatile ← accept "V"
      let isConst ← accept "K"
      Pure.pure ⟨isConst, isVolatile, isRestrict⟩ : Parse Qualifiers) >>= f := rfl
  rw [ends]
  refine andThen (flagged rfl (by decide) rfl ?_ h fun t ht => ?_)
  · rintro rfl byte first
    cases isVolatile with
    | true =>
      cases first
      decide
    | false =>
      cases isConst with
      | true =>
        cases first
        decide
      | false => exact (stop byte first).2.2 rfl rfl rfl
  refine flagged rfl (by decide) rfl ?_ ht fun t ht => ?_
  · rintro rfl byte first
    cases isConst with
    | true =>
      cases first
      decide
    | false => exact (stop byte first).2.1 rfl rfl
  refine flagged rfl (by decide) rfl ?_ ht fun t ht => ?_
  · rintro rfl byte first
    exact (stop byte first).1 rfl
  exact pure (next t ht)

theorem run_qualifiesFunction {byte : UInt8} {more : List UInt8}
    (behind : bytes.dropWhile isQualifier = byte :: more) (notF : byte ≠ 70)
    (notD : byte = 68 → ∃ next rest, more = next :: rest ∧ next ∈ octets "defhisuacn")
    (h : Poised symbol base bytes s) : qualifiesFunction.run s = .ok false s := by
  have first : (s.cursor.spanWhile isQualifier).2.peekAt 0 = Char.ofNat byte.toNat := by
    simp only [Cursor.spanWhile, Cursor.peekAt, h.ahead, behind]
    rfl
  have isByte (char : Char) (small : char.toNat < 256) (same : Char.ofNat byte.toNat = char) :
      byte = UInt8.ofNat char.toNat := by
    refine UInt8.toNat_inj.mp ?_
    rw [UInt8.toNat_ofNat_of_lt' small, ← same, toNat_ofNat]
  refine (run_bind_ok _ run_get).trans ?_
  dsimp only
  rw [first]
  have second (next : UInt8) (rest : List UInt8) (same : more = next :: rest) :
      (s.cursor.spanWhile isQualifier).2.peekAt 1 = Char.ofNat next.toNat := by
    simp only [Cursor.spanWhile, Cursor.peekAt, h.ahead, behind, same]
    rfl
  have every : ∀ next ∈ octets "defhisuacn", Char.ofNat next.toNat ≠ 'o' ∧
      Char.ofNat next.toNat ≠ 'O' ∧ Char.ofNat next.toNat ≠ 'w' ∧ Char.ofNat next.toNat ≠ 'x' := by
    decide
  have apart (isD : Char.ofNat byte.toNat = 'D') :
      (s.cursor.spanWhile isQualifier).2.peekAt 1 ≠ 'o' ∧
      (s.cursor.spanWhile isQualifier).2.peekAt 1 ≠ 'O' ∧
      (s.cursor.spanWhile isQualifier).2.peekAt 1 ≠ 'w' ∧
      (s.cursor.spanWhile isQualifier).2.peekAt 1 ≠ 'x' := by
    obtain ⟨next, rest, same, member⟩ := notD (isByte 'D' (by decide) isD)
    rw [second next rest same]
    exact every next member
  split
  · exact absurd (isByte 'F' (by decide) ‹_›) notF
  · exact absurd ‹_› (apart ‹_›).1
  · exact absurd ‹_› (apart ‹_›).2.1
  · exact absurd ‹_› (apart ‹_›).2.2.1
  · exact absurd ‹_› (apart ‹_›).2.2.2
  · rfl

/-- Qualifiers with `F` behind them belong to a function. -/
theorem run_qualifiesFunction_true (h : Poised symbol base (octets quals.letters ++ (70 :: rest)) s) :
    qualifiesFunction.run s = .ok true s := by
  have first : (s.cursor.spanWhile isQualifier).2.peekAt 0 = 'F' := by
    simp only [Cursor.spanWhile, Cursor.peekAt, h.ahead, TypeForm.dropWhile_letters]
    rfl
  refine (run_bind_ok _ run_get).trans ?_
  dsimp only
  rw [first]
  rfl

/-- Behind qualifiers the rule goes by whether they are those of a function. -/
theorem announced_qualified (some : quals.isEmpty = false) (call : Calls)
    (h : Poised symbol base (octets quals.letters ++ rest) s) (rule : Rule) {isFunction : Bool}
    (run : qualifiesFunction.run s = .ok isFunction s)
    (goes : (if isFunction then Rule.functionType else .qualifiedType) = rule) :
    (Parse.type call).run s = (Parse.listing (call rule)).run s := by
  obtain ⟨letter, more, begins, qualifier⟩ := Qualifiers.opens some
  have listed : (Parse.listing do
      if ← qualifiesFunction then call .functionType else call .qualifiedType).run s =
      (Parse.listing (call rule)).run s := by
    have reached := run_bind_ok (fun qualifies : Bool =>
      if qualifies then call .functionType else call .qualifiedType) run
    unfold Parse.listing
    simp only [Bind.bind] at reached ⊢
    rw [reached, ← goes]
    cases isFunction <;> rfl
  rw [← listed]
  rw [begins] at h
  rw [Parse.type, run_bind_ok _ Grants.run_peekPair, peekAt_cons h]
  have cases : letter = 114 ∨ letter = 86 ∨ letter = 75 := by
    simpa [show octets "rVK" = [114, 86, 75] from rfl] using qualifier
  rcases cases with rfl | rfl | rfl <;> rfl

/-- Qualifiers of something else than a function do not run into what is behind them. -/
theorem stops_code (proper : (TypeForm.qualified quals target).Every TypeForm.Proper)
    (rest : List UInt8) :
    ∀ byte ∈ (octets target.code ++ rest).head?, quals.takes byte = false := by
  rw [TypeForm.every_qualified] at proper
  obtain ⟨⟨some, notFunction, apart⟩, proper⟩ := proper
  obtain ⟨byte, more, begins, opens⟩ := TypeForm.code_opens proper
  rw [begins]
  rintro _ ⟨⟩
  cases target with
  | qualified quals' inner =>
    obtain ⟨letter, more', begins', -⟩ := Qualifiers.opens (TypeForm.every_qualified.mp proper).1.1
    refine Qualifiers.takes_of_runsInto some (TypeForm.every_qualified.mp proper).1.1
      (apart quals' inner rfl) byte ?_
    rw [TypeForm.code, TypeForm.codeWith, octets_append, begins', List.cons_append] at begins
    rw [begins']
    exact congrArg Option.some (List.cons.inj begins).1
  | _ => exact quals.takes_of_other (TypeForm.openers_unqualified proper rfl notFunction byte opens)

theorem qualifiedRule (proper : (TypeForm.qualified quals target).Every TypeForm.Proper)
    (inner : Reads symbol room limit scope target) (spent : base.level + levels = limit)
    (fits : room → base.level + (target.nest + 1) < limit) (ahead : Ahead TypeForm.followers rest)
    (inScope : InScope base scope)
    (h : Poised symbol base (octets quals.letters ++ (octets target.code ++ rest)) s) :
    Meets room (strayAmong scope target.indices) (Rule.parse limit levels .qualifiedType) s
      (Fresh symbol base rest fun tree id =>
        (TypeForm.qualified quals target).Stored symbol tree scope id ∧
          base.level + (target.nest + 1) < limit) := by
  refine ruleAt spent (fun enough => by have := fits enough; omega) h fun levels spent below h => ?_
  have some : quals.isEmpty = false := (TypeForm.every_qualified.mp proper).1.1
  obtain ⟨letter, more, begins, qualifier⟩ := Qualifiers.opens some
  have opening : Ahead (octets "rVK") (octets quals.letters ++ (octets target.code ++ rest)) := by
    rw [begins]
    exact Ahead.cons qualifier _
  refine rejected "U" rfl h opening (by decide) ?_
  refine readQualifiers (stops_code proper rest) h ?_
  intro t ht
  refine before ?_
  refine (inner spent (fun enough => ?_) ahead inScope.deeper ht).weaken fun id u found => ?_
  · have := fits enough
    show base.level + 1 + _ < limit
    omega
  rw [some, if_neg Bool.false_ne_true]
  refine made _ found.1 ?_
  intro made v hv later held unlisted
  refine Fresh.up ⟨⟨hv, .qualified held (found.2.1.grows later), ?_⟩, isSome_of_held held, unlisted⟩
  have low : base.level + 1 + _ < limit := found.2.2
  omega

/-- A qualified type is read from its qualifiers and its target. -/
theorem qualifiedType (proper : (TypeForm.qualified quals target).Every TypeForm.Proper)
    (inner : Reads symbol room limit scope target) :
    Reads symbol room limit scope (.qualified quals target) := by
  intro base s levels rest spent fits ahead inScope h
  obtain ⟨byte, more, behind, notF, notD⟩ :=
    TypeForm.behind_qualifiers proper (TypeForm.every_qualified.mp proper).1.2.1 rest
  have some : quals.isEmpty = false := (TypeForm.every_qualified.mp proper).1.1
  rw [TypeForm.nest] at fits
  rw [TypeForm.code, TypeForm.codeWith, octets_append, List.append_assoc] at h behind
  rw [TypeForm.indices]
  refine listedType .qualifiedType spent (fun enough => by have := fits enough; omega)
    (fun call t ht => ?_) h fun levels t spent ht => ?_
  · exact announced_qualified some call ht .qualifiedType
      (run_qualifiesFunction behind notF notD ht) rfl
  · refine (qualifiedRule proper inner spent (fun enough => ?_) ahead inScope.deeper ht).weaken
      fun id u fresh => fresh.imp fun stored => ⟨stored.1, ?_⟩
    · have := fits enough
      show base.level + 1 + _ < limit
      omega
    · have low : base.level + 1 + _ < limit := stored.2
      rw [TypeForm.nest]
      omega

end Qualified

section Function

variable {params : List TypeForm} {quals : Qualifiers}

def Listed (symbol : ByteArray) (limit : Nat) (scope : Nat → Option NodeId) (base : ParseState)
    (forms : List TypeForm) (tree : Tree) (ids : List NodeId) : Prop :=
  List.Forall₂ (fun form id => Standing symbol limit scope base form tree id) forms ids

theorem Listed.grows {tree tree' : Tree} {forms : List TypeForm} {ids : List NodeId}
    (h : Listed symbol limit scope base forms tree ids) (later : tree.Grows tree') :
    Listed symbol limit scope base forms tree' ids :=
  List.Forall₂.imp (fun _ _ held => ⟨held.1.grows later, held.2⟩) h

theorem Listed.push {tree : Tree} {forms : List TypeForm} {ids : Array NodeId} {id : NodeId}
    (h : Listed symbol limit scope base forms tree ids.toList)
    (last : Standing symbol limit scope base form tree id) :
    Listed symbol limit scope base (forms ++ [form]) tree (ids.push id).toList := by
  rw [Array.toList_push]
  exact List.rel_append h (.cons last .nil)

theorem Listed.low {tree : Tree} {forms : List TypeForm} {ids : List NodeId}
    (h : Listed symbol limit scope base forms tree ids) :
    ∀ form ∈ forms, base.level + form.nest < limit := by
  unfold Listed at h
  induction h with
  | nil => exact fun _ member => nomatch member
  | cons first _ ih => exact List.forall_mem_cons.mpr ⟨first.2, ih⟩

/-- A form that may be one of many. -/
structure Readable (symbol : ByteArray) (room : Prop) (limit : Nat) (scope : Nat → Option NodeId)
    (form : TypeForm) : Prop where
  reads : Reads symbol room limit scope form
  proper : form.Every TypeForm.Proper

/-- Some forms were read, and the others come next. -/
structure Left (symbol : ByteArray) (limit : Nat) (scope : Nat → Option NodeId) (base : ParseState)
    (rest : List UInt8) (forms left : List TypeForm) (ids : Array NodeId) (t : ParseState) : Prop where
  poised : Poised symbol base (octets (String.join (left.map TypeForm.code)) ++ rest) t
  listed : ∃ done, done ++ left = forms ∧ Listed symbol limit scope base done t.work.tree ids.toList

theorem Left.begin {forms : List TypeForm}
    (h : Poised symbol base (octets (String.join (forms.map TypeForm.code)) ++ rest) s) :
    Left symbol limit scope base rest forms forms #[] s :=
  ⟨h, [], rfl, .nil⟩

theorem Left.all {forms : List TypeForm} {ids : Array NodeId}
    (h : Left symbol limit scope base rest forms [] ids s) :
    Poised symbol base rest s ∧ Listed symbol limit scope base forms s.work.tree ids.toList := by
  obtain ⟨poised, done, rfl, listed⟩ := h
  rw [List.append_nil]
  exact ⟨poised, listed⟩

theorem Left.next {forms left : List TypeForm} {ids : Array NodeId}
    (h : Left symbol limit scope base rest forms (form :: left) ids s) :
    Poised symbol base (octets form.code ++
      (octets (String.join (left.map TypeForm.code)) ++ rest)) s := by
  have poised := h.poised
  rwa [List.map_cons, String.join_cons, octets_append, List.append_assoc] at poised

/-- Forms may come behind another. -/
theorem ahead_join {left : List TypeForm} (proper : ∀ form ∈ left, form.Every TypeForm.Proper)
    (ends : Ahead TypeForm.followers rest) :
    Ahead TypeForm.followers (octets (String.join (left.map TypeForm.code)) ++ rest) := by
  cases left with
  | nil => exact ends
  | cons form left =>
    rw [List.map_cons, String.join_cons, octets_append, List.append_assoc]
    exact (TypeForm.ahead_code (proper form List.mem_cons_self) _).weaken (by decide)

theorem Left.mem {forms left : List TypeForm} {ids : Array NodeId}
    (h : Left symbol limit scope base rest forms left ids s) : ∀ form ∈ left, form ∈ forms := by
  obtain ⟨-, done, rfl, -⟩ := h
  exact fun form member => List.mem_append_right _ member

/-- One more form was read. -/
theorem Left.push {forms left : List TypeForm} {ids : Array NodeId} {id : NodeId} {t : ParseState}
    (h : Left symbol limit scope base rest forms (form :: left) ids s)
    (ht : Poised symbol base (octets (String.join (left.map TypeForm.code)) ++ rest) t)
    (grown : s.work.tree.Grows t.work.tree)
    (stands : Standing symbol limit scope base form t.work.tree id) :
    Left symbol limit scope base rest forms left (ids.push id) t := by
  obtain ⟨-, done, rfl, listed⟩ := h
  refine ⟨ht, done ++ [form], ?_, (listed.grows grown).push stands⟩
  rw [List.append_assoc, List.singleton_append]

/-- What is left behind a form may come behind it. -/
theorem Left.ahead {forms left : List TypeForm} {ids : Array NodeId}
    (readable : ∀ form ∈ forms, Readable symbol room limit scope form)
    (ends : Ahead TypeForm.followers rest)
    (h : Left symbol limit scope base rest forms (form :: left) ids s) :
    Ahead TypeForm.followers (octets (String.join (left.map TypeForm.code)) ++ rest) :=
  ahead_join (fun other member => (readable other (h.mem other (List.mem_cons_of_mem _ member))).proper)
    ends

/-- One more form is read. -/
theorem Left.read {forms left : List TypeForm} {ids : Array NodeId}
    (readable : ∀ form ∈ forms, Readable symbol room limit scope form)
    (spent : base.level + levels = limit) (fits : room → ∀ form ∈ forms, base.level + form.nest < limit)
    (ends : Ahead TypeForm.followers rest) (inScope : InScope base scope)
    (h : Left symbol limit scope base rest forms (form :: left) ids s) :
    Meets room (strayAmong scope form.indices) (Rule.parse limit levels .type) s fun id t =>
      Left symbol limit scope base rest forms left (ids.push id) t := by
  have member := h.mem form List.mem_cons_self
  refine ((readable form member).reads.next spent (fun enough => fits enough form member)
    (h.ahead readable ends) inScope h.next).weaken ?_
  intro id t found
  exact h.push found.1.1 found.2 found.1.2

/-- The first stray parameter of some forms is that of the first form with one. -/
theorem strayAmong_flatten (scope : Nat → Option NodeId) (forms : List TypeForm) :
    strayAmong scope (forms.map TypeForm.indices).flatten =
      dueAmong (fun form => strayAmong scope form.indices) forms := by
  induction forms with
  | nil => rfl
  | cons form forms ih =>
    rw [List.map_cons, List.flatten_cons, strayAmong_append, ih, dueAmong]

theorem run_lookingAt (token : String) :
    (lookingAt token).run s = .ok (s.cursor.strip? token.toList).isSome s :=
  rfl

/-- A token whose second letter does not come next. -/
theorem strip?_second {cursor : Cursor} {char char' : Char} {byte : UInt8} {more : List UInt8}
    (begins : cursor.rest = byte :: more)
    (other : byte.toNat = char.toNat → ∃ byte' more', more = byte' :: more' ∧ byte'.toNat ≠ char'.toNat) :
    cursor.strip? [char, char'] = none := by
  obtain ⟨offset, rest⟩ := cursor
  cases begins
  by_cases same : byte.toNat = char.toNat
  · obtain ⟨byte', more', rfl, different⟩ := other same
    simp only [Cursor.strip?, if_pos same, if_neg different]
  · simp only [Cursor.strip?, if_neg same]

/-- Where a form comes next the parameters have not ended. -/
theorem paramsGoOn (proper : form.Every TypeForm.Proper)
    (h : Poised symbol base (octets form.code ++ rest) s) : atParamsEnd.run s = .ok false s := by
  obtain ⟨byte, more, begins, notEnd, closes⟩ := TypeForm.code_goes_on proper rest
  rw [begins] at h
  have apart (byte : UInt8) (notEnd : byte ≠ 69) : byte.toNat ≠ 'E'.toNat :=
    fun same => notEnd (UInt8.toNat_inj.mp same)
  have single : s.cursor.strip? "E".toList = none :=
    Cursor.strip?_of_ne fun first same => by
      rw [h.ahead] at same
      cases same
      exact apart byte notEnd
  have double (char : Char) (either : ∀ byte : UInt8, byte.toNat = char.toNat → byte = 82 ∨ byte = 79) :
      s.cursor.strip? [char, 'E'] = none := by
    refine strip?_second h.ahead ?_
    intro same
    obtain ⟨byte', more', rfl, notEnd'⟩ := closes (either byte same)
    exact ⟨byte', more', rfl, apart byte' notEnd'⟩
  have doubleR : s.cursor.strip? "RE".toList = none :=
    double 'R' fun byte same => .inl (UInt8.toNat_inj.mp same)
  have doubleO : s.cursor.strip? "OE".toList = none :=
    double 'O' fun byte same => .inr (UInt8.toNat_inj.mp same)
  simp only [atParamsEnd, Bind.bind, run_lookingAt, single, doubleR, doubleO, Option.isSome_none,
    Bool.false_eq_true, if_false]

/-- The parameters end at `E`. -/
theorem paramsEnd (h : Poised symbol base (69 :: rest) s) : atParamsEnd.run s = .ok true s := by
  have closed : (s.cursor.strip? "E".toList).isSome = true := by
    have ahead : s.cursor.rest = "E".toList.map (fun char => UInt8.ofNat char.toNat) ++ rest :=
      h.ahead
    rw [Cursor.strip?_of_append (by decide) ahead]
    rfl
  simp only [atParamsEnd, Bind.bind, run_lookingAt, closed, if_true]
  rfl

/-- Parameters are read in their order up to the `E` behind them. -/
theorem readParams (readable : ∀ form ∈ params, Readable symbol room limit scope form)
    (others : ∀ form ∈ params, form.isVoid = false) (spent : base.level + levels = limit)
    (fits : room → ∀ form ∈ params, base.level + form.nest < limit) (inScope : InScope base scope)
    (h : Poised symbol base (octets (if params.isEmpty then "v" else
      String.join (params.map TypeForm.code)) ++ (69 :: rest)) s) :
    Meets room (strayAmong scope (params.map TypeForm.indices).flatten)
      (functionParams (Rule.parse limit levels)) s fun ids t =>
        Poised symbol base (69 :: rest) t ∧
          Listed symbol limit scope base params t.work.tree ids.toList := by
  have ends : Ahead TypeForm.followers (69 :: rest) := Ahead.cons (by decide) _
  refine after run_get ?_
  cases hparams : params with
  | nil =>
    rw [hparams, List.isEmpty_nil, if_pos rfl] at h
    have h : Poised symbol base ([118] ++ (69 :: rest)) s := h
    have notEnd : Ahead [118] ([118] ++ (69 :: rest)) := Ahead.cons (List.mem_singleton_self _) _
    have goesOn : atParamsEnd.run s = .ok false s := by
      have single := strip?_other "E" rfl h notEnd (by decide)
      have doubleR := strip?_other "RE" rfl h notEnd (by decide)
      have doubleO := strip?_other "OE" rfl h notEnd (by decide)
      simp only [atParamsEnd, Bind.bind, run_lookingAt, single, doubleR, doubleO,
        Option.isSome_none, Bool.false_eq_true, if_false]
    rw [h.ahead]
    refine after goesOn (andThen (accepted [118] rfl rfl h fun t ht _ => pure ?_))
    exact after (paramsEnd ht) (pure ⟨ht, .nil⟩)
  | cons form forms =>
    rw [← hparams, strayAmong_flatten]
    rw [hparams, List.isEmpty_cons, if_neg Bool.false_ne_true, ← hparams] at h
    refine rounds _ (Left symbol limit scope base (69 :: rest) params) ?_ ?_ ?_ ?_ (Left.begin h)
    · intro ids t left
      exact known (paramsEnd left.all.1) ⟨rfl, left.all⟩
    · intro form items ids t left
      exact paramsGoOn (readable form (left.mem form List.mem_cons_self)).proper left.next
    · intro form items ids t left
      have member := left.mem form List.mem_cons_self
      obtain ⟨byte, more, begins, opens⟩ := TypeForm.code_opens (readable form member).proper
      have ahead : Ahead form.openers (octets form.code ++
          (octets (String.join (items.map TypeForm.code)) ++ 69 :: rest)) := by
        rw [begins]
        exact Ahead.cons opens _
      refine rejected "v" rfl left.next ahead
        (TypeForm.openers_ne_void (readable form member).proper (others form member)) ?_
      refine before ((left.read readable spent fits ends inScope).weaken fun id u left => ?_)
      exact pure left
    · have size := TypeForm.length_le_join fun form member => (readable form member).proper
      rw [h.ahead]
      simp only [List.length_cons, List.length_append]
      omega

theorem ahead_params (readable : ∀ form ∈ params, Readable symbol room limit scope form) :
    Ahead TypeForm.followers (octets (if params.isEmpty then "v" else
      String.join (params.map TypeForm.code)) ++ (69 :: rest)) := by
  cases params with
  | nil => exact Ahead.cons (by decide) _
  | cons form forms =>
    rw [List.isEmpty_cons, if_neg Bool.false_ne_true]
    exact ahead_join (fun form member => (readable form member).proper) (Ahead.cons (by decide) _)

def functionBytes (result : TypeForm) (params : List TypeForm) (rest : List UInt8) : List UInt8 :=
  octets result.code ++ (octets (if params.isEmpty then "v" else
    String.join (params.map TypeForm.code)) ++ (69 :: rest))

theorem functionRule {result : TypeForm} (reads : Reads symbol room limit scope result)
    (proper : result.Every TypeForm.Proper)
    (readable : ∀ form ∈ params, Readable symbol room limit scope form)
    (others : ∀ form ∈ params, form.isVoid = false) (spent : base.level + levels = limit)
    (fits : room → base.level + 1 + (params.map TypeForm.nest).foldr max result.nest < limit)
    (inScope : InScope base scope)
    (h : Poised symbol base (octets quals.letters ++ (70 :: functionBytes result params rest)) s) :
    Meets room ((strayAmong scope result.indices).or
        (strayAmong scope (params.map TypeForm.indices).flatten))
      (Rule.parse limit levels .functionType) s (Fresh symbol base rest fun tree id =>
        (TypeForm.function quals result params).Stored symbol tree scope id ∧
          base.level + 1 + (params.map TypeForm.nest).foldr max result.nest < limit) := by
  have start := TypeForm.start_le_foldr_max (params.map TypeForm.nest) result.nest
  have each (form : TypeForm) (member : form ∈ params) :
      form.nest ≤ (params.map TypeForm.nest).foldr max result.nest :=
    TypeForm.le_foldr_max (List.mem_map_of_mem member)
  refine ruleAt spent (fun enough => by have := fits enough; omega) h fun levels spent below h => ?_
  refine readQualifiers ?_ h fun t ht => ?_
  · rintro _ ⟨⟩
    exact quals.takes_of_other rfl
  have letter : Ahead [70] (70 :: functionBytes result params rest) :=
    Ahead.cons (List.mem_singleton_self _) _
  refine andThen (rejected "Do" rfl ht letter (by decide) ?_)
  refine rejected "DO" rfl ht letter (by decide) ?_
  refine rejected "Dw" rfl ht letter (by decide) (pure ?_)
  refine andThen (rejected "Dx" rfl ht letter (by decide) (pure ?_))
  refine expected [70] rfl rfl ht ?_
  intro t ht
  have opening : Ahead TypeForm.starters (functionBytes result params rest) :=
    TypeForm.ahead_code proper _
  refine andThen (rejected "Y" rfl ht opening (by decide) (pure ?_))
  refine bind ?_
  refine (reads spent (fun enough => ?_) (ahead_params readable) inScope.deeper ht).weaken
    fun id u found => ?_
  · have := fits enough
    show base.level + 1 + _ < limit
    omega
  have level : u.level = base.level + 1 := found.1.level
  refine before ?_
  refine (readParams readable others (level ▸ spent) (fun enough form member => ?_)
    (inScope.deeper.later found.1) found.1.self).weaken fun ids v read => ?_
  · have := fits enough
    have := each form member
    rw [level]
    omega
  obtain ⟨hv, listed⟩ := read
  have closing : Ahead [69] (69 :: rest) := Ahead.cons (List.mem_singleton_self _) _
  refine andThen (rejected "O" rfl hv closing (by decide) ?_)
  refine rejected "R" rfl hv closing (by decide) (pure ?_)
  refine expected [69] rfl rfl hv.self ?_
  intro w hw
  refine andThen (madeList ids hw fun run x hx grown lists => ?_)
  have behind := found.1.trans (hv.trans hx)
  refine made _ behind ?_
  intro made y hy later held unlisted
  refine Fresh.up ⟨⟨hy, ?_, ?_⟩, isSome_of_held held, unlisted⟩
  · refine .function held (found.2.1.grows (hv.grows.trans (hx.grows.trans later)))
      (lists.grows later) ?_
    exact (listed.grows (hx.grows.trans later)).imp fun _ _ held => held.1
  · have low : base.level + 1 + result.nest < limit := found.2.2
    have least : (params.map TypeForm.nest).foldr max result.nest ≤ limit - (base.level + 2) := by
      refine TypeForm.foldr_max_le (by omega) ?_
      intro number member
      obtain ⟨form, inside, rfl⟩ := List.mem_map.mp member
      have low := listed.low form inside
      omega
    omega

/-- A function is read from its qualifiers, its result and its parameters. -/
theorem functionType {result : TypeForm} (reads : Reads symbol room limit scope result)
    (proper : result.Every TypeForm.Proper)
    (readable : ∀ form ∈ params, Readable symbol room limit scope form)
    (others : ∀ form ∈ params, form.isVoid = false) :
    Reads symbol room limit scope (.function quals result params) := by
  intro base s levels rest spent fits ahead inScope h
  have code : octets (TypeForm.function quals result params).code ++ rest =
      octets quals.letters ++ (70 :: functionBytes result params rest) := by
    rw [TypeForm.code, TypeForm.codeWith]
    simp only [octets_append, List.append_assoc, functionBytes]
    rfl
  rw [TypeForm.nest] at fits
  rw [code] at h
  rw [TypeForm.indices, strayAmong_append]
  refine listedType .functionType spent (fun enough => by have := fits enough; omega)
    (fun call t ht => ?_) h fun levels t spent ht => ?_
  · cases none : quals.isEmpty with
    | true =>
      have nothing : octets quals.letters = [] := by
        revert none
        rcases quals with ⟨_ | _, _ | _, _ | _⟩ <;> decide
      rw [nothing] at ht
      exact announced 70 .functionType (fun call t first => by
        rw [Parse.type, run_bind_ok _ Grants.run_peekPair, first]
        rfl) call t ht
    | false =>
      exact announced_qualified none call ht .functionType (run_qualifiesFunction_true ht)
        rfl
  · refine (functionRule reads proper readable others spent (fun enough => ?_) inScope.deeper
      ht).weaken fun id u fresh => fresh.imp fun stored => ⟨stored.1, ?_⟩
    · have := fits enough
      show base.level + 1 + 1 + _ < limit
      omega
    · have low : base.level + 1 + 1 + _ < limit := stored.2
      rw [TypeForm.nest]
      omega

end Function

section Param

def paramBytes : Nat → List UInt8
  | 0 => [95]
  | number + 1 => octets (Number.numeral 10 number) ++ [95]

theorem octets_paramCode (index : Nat) : octets (TypeForm.paramCode index) = 84 :: paramBytes index := by
  cases index with
  | zero => rfl
  | succ number =>
    rw [TypeForm.paramCode, octets_append, octets_append]
    rfl

/-- The number of a parameter. -/
theorem paramNumber {index : Nat} (h : Poised symbol base (paramBytes index ++ rest) s) :
    Meets room (if index < Number.bound then none else some .overflow)
      (do if ← accept "_" then Pure.pure 0 else ordinal) s fun number t =>
        number = index ∧ Poised symbol base rest t := by
  cases index with
  | zero =>
    rw [if_pos (by decide)]
    exact accepted [95] rfl rfl h fun t ht _ => pure ⟨rfl, ht⟩
  | succ number =>
    rw [paramBytes, List.append_assoc] at h
    obtain ⟨value, more, numeral, below, -⟩ :=
      Number.head_numeral (by decide : 2 ≤ 10) (by decide) number
    have digit : ∀ value : Fin 10, (Number.digitByte value).toNat ≠ '_'.toNat := by decide
    have ahead : Ahead [Number.digitByte value]
        (octets (Number.numeral 10 number) ++ ([95] ++ rest)) := by
      rw [numeral]
      exact Ahead.cons (List.mem_singleton_self _) _
    refine rejected "_" rfl h ahead (fun byte same => ?_) ?_
    · rw [List.mem_singleton.mp same]
      exact digit ⟨value, below⟩
    have ends : ∀ byte ∈ ([95] ++ rest).head?, Number.isDigit byte = false := by
      rintro _ ⟨⟩
      rfl
    by_cases large : Number.bound ≤ number
    · rw [if_neg (by omega)]
      exact overflows ends large h
    · refine counted ends (Nat.lt_of_not_le large) h ?_
      intro t ht
      by_cases fits : number + 1 < Number.bound
      · rw [if_pos fits]
        refine after (t := t) (a := number + 1) ?_ ?_
        · rw [Number.succ?, if_pos fits]
          rfl
        · exact expected [95] rfl rfl ht fun u hu => pure ⟨rfl, hu⟩
      · rw [if_neg fits]
        refine fails (run_bind_error (t := t) _ ?_)
        rw [Number.succ?, if_neg fits]
        rfl

/-- What is wrong with one parameter: its number is too large, or it has no argument. -/
theorem strayAmong_singleton (inScope : InScope base scope) (index : Nat) :
    strayAmong scope [index] = (if index < Number.bound then none else some .overflow).or
      (if (scope index).isNone then some .badTemplateArgReference else none) := by
  unfold strayAmong
  cases found : scope index with
  | some target =>
    have small := inScope.small index target found
    rw [if_pos small, List.find?_cons_of_neg (by rw [found]; exact Bool.false_ne_true)]
    rfl
  | none =>
    rw [List.find?_cons_of_pos (by rw [found]; rfl), Option.map_some, strayFault]
    by_cases small : index < Number.bound
    · rw [if_pos small, if_pos small]
      rfl
    · rw [if_neg small, if_neg small]
      rfl

/-- The letter and the number of a parameter. -/
theorem paramPlace {index : Nat} {f : Nat → Nat → Parse α} {Q : α → ParseState → Prop}
    (h : Poised symbol base (octets (TypeForm.paramCode index) ++ rest) s)
    (next : ∀ t, Poised symbol base rest t → Meets room due (f 0 index) t Q) :
    Meets room ((if index < Number.bound then none else some .overflow).or due) (do
      expect "T"
      let level ← (if (← accept "L") then ordinal else Pure.pure 0)
      let index ← (if (← accept "_") then Pure.pure 0 else ordinal)
      f level index) s Q := by
  rw [octets_paramCode] at h
  have h : Poised symbol base ([84] ++ (paramBytes index ++ rest)) s := h
  refine expected [84] rfl rfl h ?_
  intro t ht
  have digits : Ahead (octets "_0123456789") (paramBytes index ++ rest) := by
    obtain ⟨byte, more, begins, opens⟩ := TypeForm.paramCode_opens index
    rw [octets_paramCode] at begins
    rw [(List.cons.inj begins).2]
    exact Ahead.cons opens _
  refine rejected "L" rfl ht digits (by decide) (after (t := t) (a := 0) rfl (assoc ?_))
  refine bind ((paramNumber ht).weaken fun number u read => ?_)
  obtain ⟨rfl, hu⟩ := read
  exact next u hu

/-- A parameter leads to its argument. -/
theorem templateParam {index : Nat} (inScope : InScope base scope)
    (h : Poised symbol base (octets (TypeForm.paramCode index) ++ rest) s) :
    Meets room (strayAmong scope [index]) Parse.templateParam s
      (Fresh symbol base rest ((TypeForm.param index).Stored symbol · scope)) := by
  rw [strayAmong_singleton inScope]
  refine paramPlace h ?_
  intro u hu
  have later := inScope.later hu
  refine after run_get ?_
  rw [later.bound.ahead, Bool.false_and, if_neg Bool.false_ne_true, later.argument]
  cases found : scope index with
  | some target =>
    refine made _ hu ?_
    intro id v hv _ held unlisted
    refine ⟨⟨hv, ?_⟩, isSome_of_held held, unlisted⟩
    exact .param held found
  | none =>
    rw [later.bound.lambda]
    exact fails (t := u) rfl

/-- A parameter is announced by its letter and what may come behind that. -/
theorem run_type_param {index : Nat} (call : Calls)
    (h : Poised symbol base (octets (TypeForm.paramCode index) ++ rest) s) :
    (Parse.type call).run s = (Parse.listing (parameterType call)).run s := by
  obtain ⟨byte, more, begins, opens⟩ := TypeForm.paramCode_opens index
  rw [begins] at h
  have every : ∀ byte ∈ octets "_0123456789", (Char.ofNat byte.toNat == 's') = false ∧
      (Char.ofNat byte.toNat == 'u') = false ∧ (Char.ofNat byte.toNat == 'e') = false := by
    decide
  obtain ⟨notS, notU, notE⟩ := every byte opens
  have kind : TypeKind.ofLetters 'T' (Char.ofNat byte.toNat) = .parameter := by
    apply if_neg
    rw [notS, notU, notE]
    decide
  rw [Parse.type, run_bind_ok _ Grants.run_peekPair, peekAt_cons h, peekAt_second h]
  dsimp only
  rw [show Char.ofNat (84 : UInt8).toNat = 'T' from rfl, kind]

/-- A parameter is read as the argument in scope at its place. -/
theorem paramType {index : Nat} : Reads symbol room limit scope (.param index) := by
  intro base s levels rest spent fits ahead inScope h
  rw [TypeForm.nest] at fits
  rw [TypeForm.code, TypeForm.codeWith] at h
  rw [TypeForm.indices]
  refine ruleAt spent fits h ?_
  intro levels spent below h
  have core : Meets room (strayAmong scope [index])
      (Parse.listing (parameterType (Rule.parse limit levels))) { s with level := s.level + 1 }
      fun id t => Found symbol base rest (Standing symbol limit scope base (.param index)) id
        (Parse.up t) := by
    refine (listing _ (before ((templateParam inScope.deeper h).weaken fun id t fresh => ?_))).weaken
      fun _ _ => Found.up
    refine after run_get (after (t := t) rfl ?_)
    rw [noArgs ahead fresh.1.1, Bool.and_false, if_neg Bool.false_ne_true]
    refine pure (fresh.imp fun stored => ⟨stored, ?_⟩)
    rw [TypeForm.nest]
    exact below
  show Outcome room _ _ ((Parse.type (Rule.parse limit levels)).run _)
  rw [run_type_param _ h]
  exact core

end Param

/-- Every form is read as what it is, or for its first stray parameter not at all. -/
theorem reads (small : symbol.size < Number.bound) {form : TypeForm}
    (proper : form.Every TypeForm.Proper) : Reads symbol room limit scope form := by
  induction form with
  | builtin letter => exact builtinType (TypeForm.every_builtin.mp proper)
  | rare letter => exact rareType (TypeForm.every_rare.mp proper)
  | named ident => exact namedForm small
  | pointer target ih => exact pointerType (ih (TypeForm.every_pointer.mp proper).2)
  | reference kind target ih => exact referenceType (ih (TypeForm.every_reference.mp proper).2)
  | memberPointer outer member ih ih' =>
    obtain ⟨-, proper, proper'⟩ := TypeForm.every_memberPointer.mp proper
    exact memberPointerType proper' (ih proper) (ih' proper')
  | array length element ih => exact arrayType (ih (TypeForm.every_array.mp proper).2)
  | function quals result params ih ihs =>
    obtain ⟨others, proper, each⟩ := TypeForm.every_function.mp proper
    exact functionType (ih proper) proper
      (fun form member => ⟨ihs form member (each form member), each form member⟩) others
  | qualified quals target ih =>
    exact qualifiedType proper (ih (TypeForm.every_qualified.mp proper).2)
  | param index => exact paramType

end Unmangle.Parse.Meets
