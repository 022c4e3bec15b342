import Unmangle.Grammar.Parse
import Unmangle.Proofs.Grammar.Cursor
import Unmangle.Proofs.Grammar.Run

/-!
# Where nothing begins

No name, type or expression begins with an underscore, and none is empty. So no rule but the
whole symbol can be read where nothing is left or an underscore comes next.
-/
namespace Unmangle

/-- Nothing is left, or an underscore comes next. -/
def Barred (rest : List UInt8) : Prop :=
  ∀ byte ∈ rest.head?, byte = 95

def Parse.Fails {α : Type} (p : Parse α) (s : ParseState) : Prop :=
  ∀ a t, p.run s ≠ .ok a t

namespace Barred

variable {s : ParseState}

theorem of_nil {rest : List UInt8} (none : rest = []) : Barred rest := by
  rintro byte hbyte
  rw [none] at hbyte
  cases hbyte

theorem strip? {cursor : Cursor} (h : Barred cursor.rest) {char : Char} (token : List Char)
    (other : char ≠ '_') : cursor.strip? (char :: token) = none := by
  apply Cursor.strip?_of_ne
  intro byte hbyte same
  rw [h byte hbyte] at same
  exact other (Char.toNat_inj.mp same.symm)

theorem peekAt {cursor : Cursor} (h : Barred cursor.rest) :
    cursor.peekAt 0 = '\x00' ∨ cursor.peekAt 0 = '_' := by
  obtain ⟨offset, _ | ⟨byte, rest⟩⟩ := cursor
  · exact .inl rfl
  · obtain rfl : byte = 95 := h byte rfl
    exact .inr rfl

theorem takeWhile {rest : List UInt8} (h : Barred rest) {property : UInt8 → Bool}
    (other : property 95 = false) : rest.takeWhile property = [] := by
  cases rest with
  | nil => rfl
  | cons byte rest =>
    obtain rfl : byte = 95 := h byte rfl
    rw [List.takeWhile_cons, other]
    rfl

end Barred

namespace Parse.Fails

variable {α β : Type} {p : Parse α} {s t : ParseState}

theorem throw (fault : Fault) : Fails (Parse.throw fault : Parse α) s := by
  intro a t h
  cases h

/-- A step fails where its first part does. -/
theorem bind {f : α → Parse β} (h : Fails p s) : Fails (p >>= f) s := by
  intro b u hu
  cases hp : p.run s with
  | ok a t => exact h a t hp
  | error fault t =>
    rw [run_bind_error f hp] at hu
    cases hu

/-- What follows a step whose outcome is known. -/
theorem after {f : α → Parse β} {a : α} (run : p.run s = .ok a t) (h : Fails (f a) t) :
    Fails (p >>= f) s := by
  intro b u hu
  rw [run_bind_ok f run] at hu
  exact h b u hu

theorem thenAlways {change : ParseState → ParseState} (h : Fails p s) :
    Fails (p.thenAlways change) s := by
  intro a t ht
  simp only [Parse.thenAlways] at ht
  cases hp : p.run s with
  | ok a t => exact h a t hp
  | error fault t =>
    rw [hp] at ht
    cases ht

theorem unexpected : Fails (Parse.unexpected : Parse α) s := by
  show Fails (Parse.atEnd >>= fun ended => _) s
  apply after (show Parse.atEnd.run s = .ok s.cursor.atEnd s from rfl)
  split
  · exact throw _
  · exact throw _

/-- A test that may end the parse stands before a step that fails. -/
theorem guarded {held : Bool} {fault : Fault} {f : Unit → Parse β} (h : Fails (f ()) s) :
    Fails (ensure held (Parse.throw fault) >>= f) s := by
  cases held with
  | false => exact bind (throw fault)
  | true => exact after rfl h

theorem deeper {limit : Nat} (h : Fails p { s with level := s.level + 1 }) :
    Fails (p.deeper limit) s := by
  intro a t ht
  by_cases room : s.level + 1 < limit
  · rw [run_deeper_of_lt room] at ht
    exact thenAlways h a t ht
  · rw [run_deeper_of_le (Nat.le_of_not_lt room)] at ht
    cases ht

section Barred

variable (h : Barred s.cursor.rest)
include h

theorem run_accept {token : String} {char : Char} {more : List Char}
    (spelled : token.toList = char :: more) (other : char ≠ '_') :
    (accept token).run s = .ok false s := by
  have none := h.strip? more other
  rw [← spelled] at none
  simp only [accept, step, none]

theorem run_accept_bind {token : String} {char : Char} {more : List Char} {f : Bool → Parse β}
    (spelled : token.toList = char :: more) (other : char ≠ '_') (next : Fails (f false) s) :
    Fails (accept token >>= f) s :=
  after (run_accept h spelled other) next

theorem expect {token : String} {char : Char} {more : List Char}
    (spelled : token.toList = char :: more) (other : char ≠ '_') :
    Fails (Parse.expect token) s :=
  run_accept_bind h spelled other unexpected

theorem peek_bind {f : Char → Parse β} (end? : Fails (f '\x00') s) (bar : Fails (f '_') s) :
    Fails (peek >>= f) s := by
  apply after (show peek.run s = .ok (s.cursor.peekAt 0) s from rfl)
  rcases h.peekAt with here | here
  · rw [here]
    exact end?
  · rw [here]
    exact bar

/-- Barred bytes are at their end or begin with an underscore. -/
theorem peekPair_bind {f : Char × Char → Parse β} (end? : ∀ second, Fails (f ('\x00', second)) s)
    (bar : ∀ second, Fails (f ('_', second)) s) : Fails (peekPair >>= f) s := by
  apply after (show peekPair.run s = .ok (s.cursor.peekAt 0, s.cursor.peekAt 1) s from rfl)
  rcases h.peekAt with here | here
  · rw [here]
    exact end? _
  · rw [here]
    exact bar _

theorem run_qualifiers : qualifiers.run s = .ok ⟨false, false, false⟩ s := by
  unfold qualifiers
  rw [run_bind_ok _ (run_accept h rfl (by decide)), run_bind_ok _ (run_accept h rfl (by decide)),
    run_bind_ok _ (run_accept h rfl (by decide))]
  rfl

end Barred

/-- No code of an operator begins with NUL or an underscore. -/
theorem find?_barred (second : Char) :
    Operator.find? '\x00' second = none ∧ Operator.find? '_' second = none := by
  have first : ∀ operator ∈ Operator.all, (operator.code.1 == '\x00') = false ∧
      (operator.code.1 == '_') = false := by decide
  constructor
  · simp only [Operator.find?, List.find?_eq_none]
    intro operator found
    simp [(first operator found).1]
  · simp only [Operator.find?, List.find?_eq_none]
    intro operator found
    simp [(first operator found).2]

section Productions

variable {call : Calls} (fails : ∀ rule s, rule ≠ .symbol → Barred s.cursor.rest → Fails (call rule) s)
  (h : Barred s.cursor.rest)
include fails h

/-- No encoding begins with an underscore. -/
theorem encoding : Fails (Parse.encoding call) s := by
  apply after run_get
  apply after (run_modify _)
  apply thenAlways
  have inside : Barred ({ s with
      work := { s.work with scopes := {} }, facts := {} } : ParseState).cursor.rest := h
  have name : Fails (plainEncoding call)
      { s with work := { s.work with scopes := {} }, facts := {} } :=
    after run_get (bind (fails _ _ nofun inside))
  exact peek_bind inside name name

omit fails in
theorem specialName : Fails (Parse.specialName call) s :=
  peekPair_bind h (fun _ => unexpected) fun _ => unexpected

theorem name (tracked : Bool) : Fails (Parse.name call tracked) s := by
  have unscoped : Fails (unscopedName call tracked) s := by
    apply run_accept_bind h rfl (by decide)
    apply after (run_bind_ok _ (run_accept h rfl (by decide)))
    exact fails _ _ nofun h
  exact peekPair_bind h (fun _ => bind unscoped) fun _ => bind unscoped

theorem unqualifiedName (tracked : Bool) : Fails (Parse.unqualifiedName call tracked) s :=
  peekPair_bind h (fun _ => bind (fails _ _ nofun h)) fun _ => bind (fails _ _ nofun h)

omit fails in
theorem operatorName (tracked : Bool) : Fails (Parse.operatorName call tracked) s := by
  apply peekPair_bind h
  · intro second
    dsimp only
    rw [(find?_barred second).1]
    exact run_accept_bind h rfl (by decide) unexpected
  · intro second
    dsimp only
    rw [(find?_barred second).2]
    exact run_accept_bind h rfl (by decide) unexpected

theorem templateArg : Fails (Parse.templateArg call) s :=
  peekPair_bind h (fun _ => fails _ _ nofun h) fun _ => fails _ _ nofun h

theorem type : Fails (Parse.type call) s :=
  peekPair_bind h (fun _ => bind (fails _ _ nofun h)) fun _ => bind (fails _ _ nofun h)

theorem qualifiedType : Fails (Parse.qualifiedType call) s := by
  apply run_accept_bind h rfl (by decide)
  apply after (run_qualifiers h)
  exact bind (fails _ _ nofun h)

omit fails in
theorem run_exceptionSpec : (exceptionSpec call).run s = .ok none s := by
  unfold exceptionSpec
  rw [run_bind_ok _ (run_accept h rfl (by decide)), if_neg Bool.false_ne_true,
    run_bind_ok _ (run_accept h rfl (by decide)), if_neg Bool.false_ne_true,
    run_bind_ok _ (run_accept h rfl (by decide))]
  rfl

omit fails in
theorem functionType : Fails (Parse.functionType call) s := by
  apply after (run_qualifiers h)
  apply after (run_exceptionSpec h)
  apply after (run_bind_ok _ (run_accept h rfl (by decide)))
  exact bind (expect h rfl (by decide))

theorem namedType : Fails (Parse.namedType call) s := by
  have keyword : typeKeyword.run s = .ok none s := by
    unfold typeKeyword
    rw [run_bind_ok _ (run_accept h rfl (by decide)), if_neg Bool.false_ne_true,
      run_bind_ok _ (run_accept h rfl (by decide)), if_neg Bool.false_ne_true,
      run_bind_ok _ (run_accept h rfl (by decide))]
    rfl
  apply after keyword
  exact bind (fails _ _ nofun h)

omit fails in
theorem decltype : Fails (Parse.decltype call) s := by
  apply run_accept_bind h rfl (by decide)
  apply run_accept_bind h rfl (by decide)
  exact bind unexpected

theorem wordExpression (isGlobal : Bool) : Fails (Parse.wordExpression call isGlobal) s :=
  peekPair_bind h (fun _ => fails _ _ nofun h) fun _ => fails _ _ nofun h

/-- No expression begins with an underscore. -/
theorem expression : Fails (Parse.expression call) s := by
  apply run_accept_bind h rfl (by decide)
  apply after run_get
  apply guarded
  apply peekPair_bind h
  · intro second
    dsimp only
    rw [(find?_barred second).1]
    exact wordExpression fails h false
  · intro second
    dsimp only
    rw [(find?_barred second).2]
    exact wordExpression fails h false

theorem bracedExpression : Fails (Parse.bracedExpression call) s :=
  peekPair_bind h (fun _ => fails _ _ nofun h) fun _ => fails _ _ nofun h

theorem unresolvedName (isGlobal : Bool) : Fails (Parse.unresolvedName call isGlobal) s := by
  apply run_accept_bind h rfl (by decide)
  apply run_accept_bind h rfl (by decide)
  exact bind (fails _ _ nofun h)

theorem unresolvedType : Fails (Parse.unresolvedType call) s :=
  peek_bind h (fails _ _ nofun h) (fails _ _ nofun h)

theorem baseUnresolvedName : Fails (Parse.baseUnresolvedName call) s := by
  have operator : Fails (do
      if ← accept "dn" then
        let type ← (if (← peek).isDigit then simpleId call else call .unresolvedType)
        make (.destroyed type)
      else
        discard (accept "on")
        instantiateIfArgs call (← call (.operatorName false))) s := by
    apply run_accept_bind h rfl (by decide)
    apply after (run_bind_ok _ (run_accept h rfl (by decide)))
    exact bind (fails _ _ nofun h)
  exact peek_bind h operator operator

/-- No production but the whole symbol reads anything here. -/
theorem body (rule : Rule) (other : rule ≠ .symbol) : Fails (rule.body call) s := by
  cases rule with
  | symbol => exact absurd rfl other
  | encoding => exact encoding fails h
  | specialName => exact specialName h
  | name tracked => exact name fails h tracked
  | unqualifiedName tracked => exact unqualifiedName fails h tracked
  | nestedName tracked => exact bind (bind (expect h rfl (by decide)))
  | localName tracked => exact bind (expect h rfl (by decide))
  | operatorName tracked => exact operatorName h tracked
  | substitution => exact bind (expect h rfl (by decide))
  | templateArgs tracked => exact bind (expect h rfl (by decide))
  | templateArg => exact templateArg fails h
  | type => exact type fails h
  | qualifiedType => exact qualifiedType fails h
  | functionType => exact functionType h
  | arrayType => exact bind (expect h rfl (by decide))
  | memberPointerType => exact bind (expect h rfl (by decide))
  | namedType => exact namedType fails h
  | decltype => exact decltype h
  | vectorType => exact bind (expect h rfl (by decide))
  | expression => exact expression fails h
  | bracedExpression => exact bracedExpression fails h
  | literal => exact bind (expect h rfl (by decide))
  | unresolvedName isGlobal => exact unresolvedName fails h isGlobal
  | unresolvedType => exact unresolvedType fails h
  | baseUnresolvedName => exact baseUnresolvedName fails h

end Productions

/-- No rule but the whole symbol begins where nothing is left or an underscore comes next. -/
theorem parse {limit levels : Nat} {rule : Rule} (other : rule ≠ .symbol)
    (h : Barred s.cursor.rest) : Fails (Rule.parse limit levels rule) s := by
  induction levels generalizing rule s with
  | zero => exact throw _
  | succ levels ih =>
    apply deeper
    have inside : Barred ({ s with level := s.level + 1 } : ParseState).cursor.rest := h
    exact body (fun _ _ other h => ih other h) inside rule other

end Parse.Fails
end Unmangle
