import Unmangle.Proofs.Compression.Nesting

/-!
# Reading components

However a component is written, it is read as what it is, and the list behind it is the
one that its writing leaves.
-/
namespace Unmangle.Parse.Grants

variable {symbol : ByteArray} {room : Prop} {limit levels : Nat} {base s : ParseState}
  {listed listed' : List Component} {rest bytes allowed : List UInt8} {component : Component}
  {code : String}

/-- A type that is listed when it ends. -/
theorem listing {type : Parse NodeId}
    (h : Grants room type s (Fresh symbol base listed rest component)) :
    Grants room (Parse.listing type) s
      (Found symbol base (listed ++ [component]) rest component) := by
  refine bind (h.weaken fun name t fresh => ?_)
  obtain ⟨⟨ht, held⟩, unlisted⟩ := fresh
  refine bind (enlisted _ ht held unlisted fun u hu same _ => pure ⟨hu, ?_⟩)
  rw [same]
  exact held

/-- A type that begins with a digit or with `N` is the name of a class. -/
theorem namedType (spent : base.level + levels = limit) (fits : room → base.level + 1 < limit)
    (ahead : Ahead (octets "123456789N") bytes) (h : Stands symbol base listed bytes s)
    (inner : ∀ {levels s}, base.level + 1 + levels = limit →
      Stands symbol { base with level := base.level + 1 } listed bytes s →
      Grants room (Rule.parse limit levels (.name false)) s
        (Fresh symbol { base with level := base.level + 1 } listed' rest component)) :
    Grants room (Rule.parse limit levels .namedType) s
      (Fresh symbol base listed' rest component) := by
  refine ruleAt spent fits h ?_
  intro levels spent h
  apply bind
  apply bind
  apply rejected "Ts" rfl h ahead (by decide)
  apply bind
  apply rejected "Tu" rfl h ahead (by decide)
  apply bind
  refine rejected "Te" rfl h ahead (by decide) (pure ?_)
  apply bind
  apply (inner spent h).weaken
  exact fun name t fresh => pure fresh.up

/-- A type that begins as a name does. -/
theorem classType (spent : base.level + levels = limit) (fits : room → base.level + 2 < limit)
    (opening : ∃ byte more, bytes = byte :: more ∧ byte ∈ octets "123456789N")
    (h : Stands symbol base listed bytes s)
    (inner : ∀ {base' levels s}, base'.level = base.level + 2 → base'.level + levels = limit →
      Stands symbol base' listed bytes s →
      Grants room (Rule.parse limit levels (.name false)) s
        (Fresh symbol base' listed' rest component)) :
    Grants room (Rule.parse limit levels .type) s
      (Found symbol base (listed' ++ [component]) rest component) := by
  obtain ⟨byte, more, rfl, opens⟩ := opening
  refine ruleAt spent (fun enough => Nat.lt_of_succ_lt (fits enough)) h ?_
  intro levels spent h
  have core : Grants room (Parse.listing (Rule.parse limit levels .namedType))
      { s with level := s.level + 1 } fun name t =>
        Found symbol base (listed' ++ [component]) rest component name (Parse.up t) :=
    (listing (namedType spent fits (Ahead.cons opens more) h
      fun spent h => inner rfl spent h)).weaken fun _ _ => Found.up
  refine bind (peekPair ?_)
  rw [peekAt_cons h]
  have cases : byte = 49 ∨ byte = 50 ∨ byte = 51 ∨ byte = 52 ∨ byte = 53 ∨ byte = 54 ∨
      byte = 55 ∨ byte = 56 ∨ byte = 57 ∨ byte = 78 := by
    simpa [show octets "123456789N" = [49, 50, 51, 52, 53, 54, 55, 56, 57, 78] from rfl]
      using opens
  rcases cases with rfl | rfl | rfl | rfl | rfl | rfl | rfl | rfl | rfl | rfl <;> exact core

/-- A type that is a substitution alone is not listed again. -/
theorem substitutionType {place : Nat} (spent : base.level + levels = limit)
    (fits : room → base.level + 2 < limit) (found : listed[place]? = some component)
    (small : place < Number.bound) (ahead : Ahead Component.followers rest)
    (h : Stands symbol base listed (octets (substitutionCode place) ++ rest) s) :
    Grants room (Rule.parse limit levels .type) s (Found symbol base listed rest component) := by
  refine ruleAt spent (fun enough => Nat.lt_of_succ_lt (fits enough)) h ?_
  intro levels spent h
  obtain ⟨byte, more, begins, -, notStd⟩ := substitutionCode_opens place
  have peeked := h
  rw [begins] at peeked
  have second : s.cursor.peekAt 1 = Char.ofNat byte.toNat := by
    rw [Cursor.peekAt, show s.cursor.rest = 83 :: byte :: more ++ rest from peeked.ahead]
    rfl
  refine bind (peekPair ?_)
  rw [peekAt_cons peeked, second]
  have kind : TypeKind.ofLetters 'S' (Char.ofNat byte.toNat) = .substitution := if_pos notStd
  dsimp only
  rw [show Char.ofNat (83 : UInt8).toNat = 'S' from rfl, kind]
  refine bind ((substitution spent fits found small h).weaken fun name t found => ?_)
  refine after run_get (bind (peek ?_))
  rw [noArgs ahead found.1, Bool.and_false, if_neg Bool.false_ne_true]
  exact pure found.up

/-- The letter of a built-in type is read as that type. -/
theorem builtinType {letter : Char} (formed : (Component.builtin letter).WellFormed)
    (spent : base.level + levels = limit) (fits : room → base.level + 1 < limit)
    (h : Stands symbol base listed (octets (String.singleton letter) ++ rest) s) :
    Grants room (Rule.parse limit levels .type) s
      (Found symbol base listed rest (.builtin letter)) := by
  obtain ⟨byte, same, char⟩ := Component.builtin_octets formed
  obtain ⟨words, spelled⟩ := Option.isSome_iff_exists.mp formed
  rw [same] at h
  refine ruleAt spent fits h ?_
  intro levels spent h
  refine bind (peekPair ?_)
  rw [peekAt_cons h, char]
  dsimp only
  rw [TypeKind.ofLetters_of_spelling? spelled]
  refine bind (advanced h fun t ht => made _ ht fun name u hu _ held _ => ?_)
  exact Found.up ⟨hu, words, spelled, held⟩

/-- A type made of one letter and another type. -/
theorem wrappedType (byte : UInt8) (wrap : NodeId → Node) (target : Component)
    (spent : base.level + levels = limit) (fits : room → base.level + 1 < limit)
    (typed : ∀ (call : Calls) (s : ParseState), s.cursor.peekAt 0 = Char.ofNat byte.toNat →
      (Parse.type call).run s = (Parse.listing (Parse.wrappedType call wrap)).run s)
    (wrapped : ∀ tree name pointee, tree.get? name = some (wrap pointee) →
      target.Stored symbol tree pointee → component.Stored symbol tree name)
    (h : Stands symbol base listed (byte :: bytes) s)
    (inner : ∀ {levels s}, base.level + 1 + levels = limit →
      Stands symbol { base with level := base.level + 1 } listed bytes s →
      Grants room (Rule.parse limit levels .type) s
        (Found symbol { base with level := base.level + 1 } listed' rest target)) :
    Grants room (Rule.parse limit levels .type) s
      (Found symbol base (listed' ++ [component]) rest component) := by
  refine ruleAt spent fits h ?_
  intro levels spent h
  have core : Grants room (Parse.wrappedType (Rule.parse limit levels) wrap)
      { s with level := s.level + 1 }
      (Fresh symbol { base with level := base.level + 1 } listed' rest component) := by
    refine bind (advanced h fun t ht => bind ((inner spent ht).weaken fun pointee u found => ?_))
    refine made _ found.1 ?_
    intro name v hv later held unlisted
    refine ⟨⟨hv, ?_⟩, unlisted⟩
    exact wrapped _ name pointee held (found.2.extends later)
  show Granted room _ ((Parse.type (Rule.parse limit levels)).run _)
  rw [typed _ _ (peekAt_cons h)]
  exact (listing core).weaken fun _ _ => Found.up

section Qualified

/-- A letter for a flag comes next, if the flag is set. -/
theorem flagged {token : String} {char : Char} {flag : Bool} {Q : Bool → ParseState → Prop}
    (spelled : token.toList = [char]) (ascii : char.toNat < 256)
    (bytes : octets token = [UInt8.ofNat char.toNat]) (ahead : Ahead allowed rest)
    (other : ∀ byte ∈ allowed, byte.toNat ≠ char.toNat)
    (h : Stands symbol base listed (octets (if flag then token else "") ++ rest) s)
    (next : ∀ t, Stands symbol base listed rest t → Q flag t) : Grants room (accept token) s Q := by
  cases flag with
  | false => exact rejected _ spelled h ahead other (next s h)
  | true =>
    refine accepted [UInt8.ofNat char.toNat] ?_ ?_ (bytes ▸ h) fun t ht _ => next t ht
    · rw [spelled]
      rfl
    · rw [spelled]
      simpa using ascii

/-- Letters of a flag, if it is set. -/
theorem ahead_flag (token : String) (flag : Bool) {byte : UInt8} (bytes : octets token = [byte]) :
    Ahead [byte] (octets (if flag then token else "")) := by
  cases flag with
  | false => exact Ahead.nil _
  | true =>
    rw [if_pos rfl, bytes]
    exact Ahead.cons (List.mem_singleton_self _) _

/-- The letters of qualifiers are read as those qualifiers. -/
theorem readQualifiers {quals : Qualifiers} {Q : Qualifiers → ParseState → Prop}
    (ahead : Ahead (Component.unqualifiedOpeners) rest)
    (h : Stands symbol base listed (octets quals.letters ++ rest) s)
    (next : ∀ t, Stands symbol base listed rest t → Q quals t) : Grants room qualifiers s Q := by
  obtain ⟨isConst, isVolatile, isRestrict⟩ := quals
  simp only [Qualifiers.letters, octets_append, List.append_assoc] at h
  have behindV := (ahead_flag "K" isConst rfl).append ahead
  have behindR := (ahead_flag "V" isVolatile rfl).append behindV
  refine bind (flagged rfl (by decide) rfl behindR (by decide) h fun t ht => ?_)
  refine bind (flagged rfl (by decide) rfl behindV (by decide) ht fun t ht => ?_)
  refine bind (flagged rfl (by decide) rfl ahead (by decide) ht fun t ht => ?_)
  exact pure (next t ht)

/-- The qualifiers of a component are not those of a function. -/
theorem qualifiesNoFunction {quals : Qualifiers} {byte : UInt8} {Q : Bool → ParseState → Prop}
    (opens : byte ∈ Component.unqualifiedOpeners)
    (h : Stands symbol base listed (octets quals.letters ++ (byte :: rest)) s) (next : Q false s) :
    Grants room qualifiesFunction s Q := by
  have letters : ∀ byte ∈ octets quals.letters, isQualifier byte = true := by
    rcases quals with ⟨_ | _, _ | _, _ | _⟩ <;> decide
  have every : ∀ byte ∈ Component.unqualifiedOpeners, isQualifier byte = false ∧
      Char.ofNat byte.toNat ≠ 'F' ∧ Char.ofNat byte.toNat ≠ 'D' := by decide
  obtain ⟨other, notF, notD⟩ := every byte opens
  have behind : (s.cursor.spanWhile isQualifier).2.peekAt 0 = Char.ofNat byte.toNat := by
    simp only [Cursor.spanWhile, Cursor.peekAt, h.ahead, List.dropWhile_append_of_pos letters,
      List.dropWhile_cons, other, Bool.false_eq_true, if_false]
    rfl
  refine after run_get ?_
  simp only [behind]
  split
  all_goals first
    | exact absurd ‹_› notF
    | exact absurd ‹_› notD
    | exact pure next

/-- A type behind its qualifiers. -/
theorem qualifiedType {quals : Qualifiers} {byte : UInt8} {target : Component}
    (some : quals.isEmpty = false) (spent : base.level + levels = limit)
    (fits : room → base.level + 1 < limit)
    (opens : byte ∈ Component.unqualifiedOpeners)
    (h : Stands symbol base listed (octets quals.letters ++ (byte :: bytes)) s)
    (inner : ∀ {levels s}, base.level + 1 + levels = limit →
      Stands symbol { base with level := base.level + 1 } listed (byte :: bytes) s →
      Grants room (Rule.parse limit levels .type) s
        (Found symbol { base with level := base.level + 1 } listed' rest target)) :
    Grants room (Rule.parse limit levels .qualifiedType) s
      (Fresh symbol base listed' rest (.qualified quals target)) := by
  refine ruleAt spent fits h ?_
  intro levels spent h
  obtain ⟨letter, more, begins, qualifier⟩ := Component.qualifiers_open some
  have opening : Ahead (octets "rVK") (octets quals.letters ++ (byte :: bytes)) := by
    rw [begins]
    exact Ahead.cons qualifier _
  refine bind (rejected "U" rfl h opening (by decide) ?_)
  refine bind (readQualifiers (Ahead.cons opens _) h fun t ht => ?_)
  refine bind ((inner spent ht).weaken fun type u found => ?_)
  rw [some, if_neg Bool.false_ne_true]
  refine made _ found.1 ?_
  intro name v hv later held unlisted
  refine Fresh.up ⟨⟨hv, type, held, ?_⟩, unlisted⟩
  exact found.2.extends later

/-- A qualified component is its qualifiers and then its target, and it is listed last. -/
theorem qualifiedComponent {quals : Qualifiers} {target : Component}
    (some : quals.isEmpty = false) (spent : base.level + levels = limit)
    (fits : room → base.level + 2 < limit)
    (opening : ∃ byte more, bytes = byte :: more ∧ byte ∈ Component.unqualifiedOpeners)
    (h : Stands symbol base listed (octets quals.letters ++ bytes) s)
    (inner : ∀ {levels s}, base.level + 2 + levels = limit →
      Stands symbol { base with level := base.level + 2 } listed bytes s →
      Grants room (Rule.parse limit levels .type) s
        (Found symbol { base with level := base.level + 2 } listed' rest target)) :
    Grants room (Rule.parse limit levels .type) s
      (Found symbol base (listed' ++ [.qualified quals target]) rest (.qualified quals target)) := by
  obtain ⟨byte, more, rfl, opens⟩ := opening
  refine ruleAt spent (fun enough => Nat.lt_of_succ_lt (fits enough)) h ?_
  intro levels spent h
  have core : Grants room (Parse.listing do
      if ← qualifiesFunction then Rule.parse limit levels .functionType
      else Rule.parse limit levels .qualifiedType) { s with level := s.level + 1 } fun name t =>
        Found symbol base (listed' ++ [.qualified quals target]) rest (.qualified quals target)
          name (Parse.up t) := by
    refine (listing (bind (qualifiesNoFunction opens h ?_))).weaken fun _ _ => Found.up
    exact qualifiedType some spent fits opens h fun spent h => inner spent h
  obtain ⟨letter, more, begins, qualifier⟩ := Component.qualifiers_open some
  have peeked := h
  rw [begins] at peeked
  refine bind (peekPair ?_)
  rw [peekAt_cons peeked]
  have cases : letter = 114 ∨ letter = 86 ∨ letter = 75 := by
    simpa [show octets "rVK" = [114, 86, 75] from rfl] using qualifier
  rcases cases with rfl | rfl | rfl <;> exact core

end Qualified

/-- However a component is written, it is read as what it is. -/
theorem reads (written : Component.Written listed component code listed')
    (formed : component.WellFormed) (small : listed.length + (octets code).length < Number.bound) :
    ∀ {base s : ParseState} {levels rest}, base.level + levels = limit →
      (room → base.level + component.height < limit) → Ahead Component.followers rest →
      Stands symbol base listed (octets code ++ rest) s →
      Grants room (Rule.parse limit levels .type) s (Found symbol base listed' rest component) := by
  induction written with
  | @builtin letter =>
    intro base s levels rest spent fits ahead h
    refine builtinType formed spent (fun enough => ?_) h
    exact Nat.lt_of_succ_lt (fits enough)
  | @listed component place found =>
    intro base s levels rest spent fits ahead h
    have counted : place < listed.length := (List.getElem?_eq_some_iff.mp found).1
    have two := component.two_le_height
    refine substitutionType spent (fun enough => ?_) found (by omega) ahead h
    exact Nat.lt_of_le_of_lt (Nat.add_le_add_left two _) (fits enough)
  | top id =>
    intro base s levels rest spent fits ahead h
    have sized := id.size_le_code
    obtain ⟨byte, more, begins, opens⟩ := id.code_opens
    have every : ∀ byte ∈ Identifier.openers, byte ∈ octets "123456789N" := by decide
    refine classType spent (fun enough => ?_)
      ⟨byte, more ++ rest, by rw [begins]; rfl, every byte opens⟩ h fun level spent h => ?_
    · have := fits enough
      simp only [Component.height, ClassPath.length] at this
      omega
    · refine topName false spent (fun enough => ?_) (by omega) ahead h
      have := fits enough
      simp only [Component.height, ClassPath.length] at this
      omega
  | @inside listed' scope code id written =>
    intro base s levels rest spent fits ahead h
    simp only [octets_append, List.length_append] at small
    simp only [octets_append, List.append_assoc] at h
    refine classType spent (fun enough => ?_) ⟨78, _, rfl, by decide⟩ h fun level spent h => ?_
    · have := fits enough
      simp only [Component.height, ClassPath.length] at this
      omega
    · refine nestedInside written spent (fun enough => ?_) ?_ h
      · have := fits enough
        simp only [Component.height, ClassPath.length] at this
        omega
      · rw [octets_append, List.length_append]
        omega
  | @pointer listed' target code written ih =>
    intro base s levels rest spent fits ahead h
    rw [octets_append, List.length_append] at small
    rw [octets_append, List.append_assoc] at h
    have inner : room → base.level + 1 + target.height < limit := fun enough => by
      rw [Nat.add_assoc, Nat.add_comm 1]
      exact fits enough
    refine wrappedType 80 .pointer target spent
      (fun enough => Nat.lt_of_le_of_lt (Nat.le_add_right _ _) (inner enough)) ?_ ?_ h
      fun spent h => ih formed (by omega) spent inner ahead h
    · intro call s first
      rw [Parse.type, run_bind_ok _ run_peekPair, first]
      rfl
    · exact fun tree name pointee held stored => ⟨pointee, held, stored⟩
  | @reference listed' target code kind written ih =>
    intro base s levels rest spent fits ahead h
    rw [octets_append, List.length_append] at small
    rw [octets_append, List.append_assoc] at h
    have inner : room → base.level + 1 + target.height < limit := fun enough => by
      rw [Nat.add_assoc, Nat.add_comm 1]
      exact fits enough
    have here : room → base.level + 1 < limit := fun enough =>
      Nat.lt_of_le_of_lt (Nat.le_add_right _ _) (inner enough)
    have wrapped : ∀ tree name pointee, tree.get? name = some (.reference kind pointee) →
        target.Stored symbol tree pointee → (Component.reference kind target).Stored symbol tree name :=
      fun tree name pointee held stored => ⟨pointee, held, stored⟩
    cases kind with
    | lvalue =>
      refine wrappedType 82 _ _ spent here ?_ wrapped h
        fun spent h => ih formed.2 (by omega) spent inner ahead h
      intro call s first
      rw [Parse.type, run_bind_ok _ run_peekPair, first]
      rfl
    | rvalue =>
      refine wrappedType 79 _ _ spent here ?_ wrapped h
        fun spent h => ih formed.2 (by omega) spent inner ahead h
      intro call s first
      rw [Parse.type, run_bind_ok _ run_peekPair, first]
      rfl
  | @qualified listed' target code quals written ih =>
    intro base s levels rest spent fits ahead h
    rw [octets_append, List.length_append] at small
    rw [octets_append, List.append_assoc] at h
    obtain ⟨some, once, formed⟩ := formed
    have inner : room → base.level + 1 + 1 + target.height < limit := fun enough => by
      rw [Nat.add_assoc, Nat.add_assoc, Nat.add_comm 1, Nat.add_comm 1, Nat.add_assoc]
      exact fits enough
    have here : room → base.level + 1 + 1 < limit := fun enough =>
      Nat.lt_of_le_of_lt (Nat.le_add_right _ _) (inner enough)
    obtain ⟨byte, more, begins, opens⟩ := written.opens formed
    have unqualified := Component.openers_unqualified formed once byte opens
    have opening : octets code ++ rest = byte :: (more ++ rest) := by
      rw [begins, List.cons_append]
    exact qualifiedComponent some spent here ⟨byte, _, opening, unqualified⟩ h
      fun spent h => ih formed (by omega) spent inner ahead h

end Unmangle.Parse.Grants
