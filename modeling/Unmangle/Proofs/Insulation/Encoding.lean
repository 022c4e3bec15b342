import Unmangle.Engine
import Unmangle.Grammar.Parse
import Unmangle.Proofs.Comparison.Symbol
import Unmangle.Proofs.Grammar.Yields
import Unmangle.Proofs.Insulation.Expression
import Unmangle.Proofs.Insulation.Type

/-!
# An encoding inside another

An encoding puts aside the template arguments around it, so it never sees them. What is allowed
around it is not put aside: whether arguments belong to a template parameter, whether one may
come ahead of its argument, and which lambda invents one. Two parses of one encoding come out alike
unless that differs and the encoding asks for it.
-/
namespace Unmangle

namespace Parse.Blind

open ParseState

variable {outer inner : ParseState} {call : Calls}

theorem resolve (id : NodeId) : Blind outer inner (Parse.resolve id) := by
  apply (node id).bind
  intro found
  split
  · apply look fun _ _ => rfl
    intro _
    apply (orFault _ _).bind
    intro value
    exact patch _ _
  · exact throw _

theorem forM_resolve (ids : List NodeId) : Blind outer inner (ids.forM Parse.resolve) := by
  induction ids with
  | nil => exact pure ()
  | cons id ids ih => exact (resolve id).seq ih

theorem resolveSince (mark : Nat) : Blind outer inner (Parse.resolveSince mark) := by
  apply look fun _ _ => rfl
  intro _
  apply (forM_resolve _).seq
  exact modified fun _ _ => rfl

theorem skipOffset : Blind outer inner Parse.skipOffset := by
  apply (number true).bind
  intro digits
  exact ensure unexpected

theorem callOffset : Blind outer inner Parse.callOffset := by
  apply (accept "h").bind
  intro held
  apply ite
  · apply skipOffset.seq
    exact expect "_"
  · apply (accept "v").bind
    intro held
    refine ite ?_ unexpected
    apply skipOffset.seq
    apply (expect "_").seq
    apply skipOffset.seq
    exact expect "_"

theorem finish (root : NodeId) : Blind outer inner (Parse.finish root) := by
  apply atEnd.bind
  intro ended
  apply (ensure (throw _)).seq
  apply look fun _ _ => rfl
  intro _
  apply (ensure (throw _)).seq
  exact pure root

theorem acceptEither (token other : String) :
    Blind outer inner (do if ← Parse.accept token then return true else Parse.accept other) := by
  apply (accept token).bind
  intro held
  exact ite (pure true) (accept other)

variable (calls : ∀ rule, Blind outer inner (call rule))
include calls

theorem plainEncoding : Blind outer inner (Parse.plainEncoding call) := by
  apply look fun _ _ => rfl
  intro before
  apply (calls (.name true)).bind
  intro name
  apply (resolveSince _).seq
  apply atEncodingEnd.bind
  intro ended
  refine ite (pure name) ?_
  apply look fun _ _ => rfl
  intro after
  apply (ite (map (calls .type)) (pure none)).bind
  intro result
  apply (accept "v").bind
  intro held
  apply bind
  · exact ite (pure #[]) (someNodes atEncodingEnd (calls .type))
  intro params
  apply (makeList params).bind
  intro list
  exact make _

/-- What an encoding reads once it has put aside the scopes around it. -/
theorem insideEncoding : Blind outer inner (do
    match ← Parse.peek with
    | 'G' | 'T' => call .specialName
    | _ => Parse.plainEncoding call) := by
  apply peek.bind
  intro letter
  split
  · exact calls .specialName
  · exact calls .specialName
  · exact plainEncoding calls

theorem encoding : Blind outer inner (Parse.encoding call) := by
  apply look fun _ _ => rfl
  intro before
  apply (modified fun _ _ => rfl).bind
  intro _
  exact thenAlways (insideEncoding calls) fun _ _ => rfl

theorem specialName : Blind outer inner (Parse.specialName call) := by
  apply peekPair.bind
  intro letters
  dsimp only
  cases SpecialForm.ofLetters? letters.1 letters.2 with
  | none => exact unexpected
  | some form =>
    cases form with
    | titled title rule =>
      apply (advance 2).seq
      apply (calls rule).bind
      intro child
      exact make _
    | covariantThunk =>
      apply (advance 2).seq
      apply callOffset.seq
      apply callOffset.seq
      apply (calls .encoding).bind
      intro encoding
      exact make _
    | constructionVtable =>
      apply (advance 2).seq
      apply (calls .type).bind
      intro derived
      apply skipOffset.seq
      apply (expect "_").seq
      apply (calls .type).bind
      intro base
      exact make _
    | referenceTemporary =>
      apply (advance 2).seq
      apply (calls (.name false)).bind
      intro child
      apply (accept "_").bind
      intro isFirst
      apply bind
      · apply ensure
        apply (discard seqId).seq
        exact expect "_"
      intro _
      exact make _
    | thunk title =>
      apply (advance 1).seq
      apply callOffset.seq
      apply (calls .encoding).bind
      intro encoding
      exact make _

theorem markedEncoding : Blind outer inner (Parse.markedEncoding call) := by
  apply peek.bind
  intro letter
  apply (calls .encoding).bind
  intro encoding
  apply (node encoding).bind
  intro found
  apply bind
  · split
    · exact ensure (throw _)
    · exact pure ()
  intro _
  apply peek.bind
  intro letter
  refine ite ?_ (pure encoding)
  apply remainder.bind
  intro suffix
  exact make _

theorem blockInvocation : Blind outer inner (Parse.blockInvocation call) := by
  apply (calls .encoding).bind
  intro encoding
  apply (expect "_block_invoke").seq
  apply (accept "_").bind
  intro held
  apply (number false).bind
  intro digits
  apply (ensure unexpected).seq
  apply peek.bind
  intro letter
  apply (ite (discard remainder) (pure ())).seq
  exact make _

theorem wholeSymbol : Blind outer inner (Parse.symbol call) := by
  apply (acceptEither "_Z" "__Z").bind
  intro marked
  apply ite
  · exact (markedEncoding calls).bind finish
  · apply (acceptEither "___Z" "____Z").bind
    intro marked
    apply ite
    · exact (blockInvocation calls).bind finish
    · exact (calls .type).bind finish

/-- Every rule is blind to what is around, if the rules that it calls are. -/
theorem body (substitutes : Substitutes call) (rule : Rule) : Blind outer inner (rule.body call) := by
  cases rule with
  | symbol => exact wholeSymbol calls
  | encoding => exact encoding calls
  | specialName => exact specialName calls
  | name tracked => exact name calls tracked
  | unqualifiedName tracked => exact unqualifiedName calls tracked
  | nestedName tracked => exact nestedName calls tracked
  | localName tracked => exact localName calls tracked
  | operatorName tracked => exact operatorName calls tracked
  | substitution => exact substitution
  | templateArgs tracked => exact templateArgs calls tracked
  | templateArg => exact templateArg calls
  | type => exact type calls substitutes
  | qualifiedType => exact qualifiedType calls
  | functionType => exact functionType calls
  | arrayType => exact arrayType calls
  | memberPointerType => exact memberPointerType calls
  | namedType => exact namedType calls
  | decltype => exact decltype calls
  | vectorType => exact vectorType calls
  | expression => exact expression calls
  | bracedExpression => exact bracedExpression calls
  | literal => exact literal calls
  | unresolvedName isGlobal => exact unresolvedName calls isGlobal
  | unresolvedType => exact unresolvedType calls
  | baseUnresolvedName => exact baseUnresolvedName calls

end Parse.Blind

theorem Rule.substitutes (limit levels : Nat) : Parse.Substitutes (Rule.parse limit levels) := by
  intro s id t read
  cases levels with
  | zero => cases read
  | succ levels =>
    change (Parse.substitution.deeper limit).run s = _ at read
    by_cases room : s.level + 1 < limit
    · refine ⟨{ s with level := s.level + 1 }, ?_⟩
      have visited := (Parse.happens_deeper_of_lt (p := Parse.substitution) room _).mpr (.inl rfl)
      rw [Parse.run_deeper_of_lt room, Parse.thenAlways] at read
      cases here : Parse.substitution.run { s with level := s.level + 1 } with
      | error fault u =>
        simp only [here] at read
        cases read
      | ok id' u =>
        simp only [here] at read
        cases read
        exact ⟨u, .inl visited, rfl, rfl⟩
    · rw [Parse.run_deeper_of_le (Nat.le_of_not_lt room)] at read
      cases read

/-- Every rule, by induction on the levels that it may spend. -/
theorem Parse.Blind.parse {outer inner : ParseState} (limit levels : Nat) (rule : Rule) :
    Blind outer inner (Rule.parse limit levels rule) := by
  induction levels generalizing rule with
  | zero => exact throw _
  | succ levels ih => exact reading rule (deeper limit (body ih (Rule.substitutes limit levels) rule))

/-! ## One encoding read in two places -/

/-- Two states at one place of a symbol with the same tree and the same lists. The scopes around
them, what is known of a name and what is allowed may differ. -/
structure ParseState.Alike (s t : ParseState) : Prop where
  cursor : s.cursor = t.cursor
  level : s.level = t.level
  tree : s.work.tree = t.work.tree
  substitutions : s.work.substitutions = t.work.substitutions
  forward : s.work.forward = t.work.forward

namespace Parse

/-- Both reads fail with one fault, or give one node in like states. -/
inductive SameReading : EStateM.Result Fault ParseState NodeId →
    EStateM.Result Fault ParseState NodeId → Prop
  | ok {id s t} (alike : s.Alike t) : SameReading (.ok id s) (.ok id t)
  | error {fault s t} : SameReading (.error fault s) (.error fault t)

abbrev inside (s : ParseState) : ParseState :=
  { s with level := s.level + 1, work := { s.work with scopes := {} }, facts := {} }

abbrev outside (s after : ParseState) : ParseState :=
  up { after with work := { after.work with scopes := s.work.scopes }, facts := s.facts }

/-- What an encoding reads behind the scopes that it opens. -/
abbrev insideEncoding (call : Calls) : Parse NodeId := do
  match ← peek with
  | 'G' | 'T' => call .specialName
  | _ => plainEncoding call

variable {limit levels : Nat} {outer inner s t : ParseState}

/-- An encoding is its inside, read between two changes of the state. -/
theorem run_encoding (room : s.level + 1 < limit) :
    (Rule.parse limit (levels + 1) .encoding).run s =
      ((insideEncoding (Rule.parse limit levels)).thenAlways (outside s)).run (inside s) := by
  change ((encoding (Rule.parse limit levels)).deeper limit).run s = _
  rw [run_deeper_of_lt room]
  simp only [thenAlways, encoding, run_bind_ok _ run_get, run_bind_ok _ (run_modify _)]
  cases (insideEncoding (Rule.parse limit levels)).run (inside s) <;> rfl

theorem happens_encoding (room : s.level + 1 < limit) {e : Event}
    (h : e = .visits (inside s) ∨ (insideEncoding (Rule.parse limit levels)).happens (inside s) e) :
    (Rule.parse limit (levels + 1) .encoding).happens s e := by
  refine .inl ((happens_deeper_of_lt room e).mpr (.inr (.inl ?_)))
  refine (happens_bind_ok _ run_get e).mpr (.inr ((happens_bind_ok _ (run_modify _) e).mpr ?_))
  exact h.imp id .inl

/-- The insides of two encodings match, so what is left of them behind is alike. -/
theorem SameReading.of_matches {p : Parse NodeId} {s' t' : ParseState}
    (h : Matches outer inner (p.run s') (p.run t')) :
    SameReading ((p.thenAlways (outside s)).run s') ((p.thenAlways (outside t)).run t') := by
  simp only [thenAlways]
  generalize p.run s' = r, p.run t' = r' at h
  cases h with
  | error => exact .error
  | ok same =>
    refine .ok ?_
    rw [same.same]
    exact ⟨rfl, rfl, rfl, rfl, rfl⟩

/-- What is left of the scopes around two encodings is alike inside. -/
theorem sheltered_inside (alike : outer.Alike inner) (still : ¬Leak outer inner (inside inner)) :
    ParseState.Sheltered outer inner (inside outer) (inside inner) := by
  refine ⟨?_, .inr ⟨rfl, rfl⟩, .inr ⟨rfl, rfl⟩, .inr ⟨rfl, rfl⟩, still⟩
  simp only [inside, ParseState.allowing, alike.cursor, alike.level, alike.tree,
    alike.substitutions, alike.forward]

/-- An encoding is read alike at one place of a symbol, whatever template arguments are in scope
around it and whatever is allowed there, unless what is allowed differs and leaks into it. -/
theorem encoding_insulated (limit levels : Nat) (outer inner : ParseState)
    (alike : outer.Alike inner)
    (quiet : ∀ t, (Rule.parse limit levels .encoding).happens inner (.visits t) →
      ¬Leak outer inner t) :
    SameReading ((Rule.parse limit levels .encoding).run outer)
      ((Rule.parse limit levels .encoding).run inner) := by
  cases levels with
  | zero => exact .error
  | succ levels =>
    by_cases room : outer.level + 1 < limit
    · have room' : inner.level + 1 < limit := alike.level ▸ room
      rw [run_encoding room, run_encoding room']
      have sheltered := sheltered_inside alike (quiet _ (happens_encoding room' (.inl rfl)))
      exact .of_matches (Blind.insideEncoding (Blind.parse limit levels) _ _ sheltered fun t visited =>
        quiet t (happens_encoding room' (.inr visited)))
    · -- both are as deep, so the limit stops both
      have full : limit ≤ outer.level + 1 := Nat.le_of_not_lt room
      change SameReading ((Parse.deeper limit _).run outer) ((Parse.deeper limit _).run inner)
      rw [run_deeper_of_le full, run_deeper_of_le (alike.level ▸ full)]
      exact .error

/-- A step that expects a letter first succeeds only in front of it. -/
theorem head?_of_expect {α : Type} {token : String} (letter : Char) {f : Unit → Parse α} {a : α}
    {t' : ParseState} (one : token.toList = [letter])
    (run : (expect token >>= f).run t = .ok a t') :
    t.cursor.rest.head? = some (UInt8.ofNat letter.toNat) := by
  have reads : Yields (fun _ => False) (expect token >>= f) t fun _ _ =>
      t.cursor.rest.head? = some (UInt8.ofNat letter.toNat) := by
    refine .bind (.expect fun cursor hstrip _ _ _ _ => ?_)
    rcases hc : t.cursor with ⟨offset, _ | ⟨byte, rest⟩⟩
    · rw [hc, one] at hstrip
      cases hstrip
    · rw [hc, one, Cursor.strip?] at hstrip
      split at hstrip
      · rename_i same
        rw [List.head?_cons, ← same, UInt8.ofNat_toNat]
      · cases hstrip
  exact reads (fun _ _ => id) a t' run

/-- What leaks begins with the letter of a template parameter or of a substitution. -/
theorem Leak.head? (h : Leak outer inner t) :
    t.cursor.rest.head? = some 84 ∨ t.cursor.rest.head? = some 83 := by
  cases h with
  | ahead param => exact .inl (head?_of_expect 'T' rfl param)
  | invented param => exact .inl (head?_of_expect 'T' rfl param)
  | paramArgs param => exact .inl (head?_of_expect 'T' rfl param)
  | listedArgs listed => exact .inr (head?_of_expect 'S' rfl listed)

/-- Inside a generic lambda in a conversion, and anywhere else. -/
theorem encoding_insulated_of_builtin :
    SameReading
      ((Rule.parse 8 8 .encoding).run
        { ParseState.start 0 "1fIiEvi".toUTF8 with
          work := { tree := { generation := 0 }, scopes := ⟨#[.outer, .unbound], #[⟨0, 0⟩]⟩ }
          facts := { isResultless := true }
          templateArgsAllowed := false
          forwardAllowed := true
          lambdaLevel := some 0 })
      ((Rule.parse 8 8 .encoding).run (ParseState.start 0 "1fIiEvi".toUTF8)) := by
  refine encoding_insulated 8 8 _ _ ⟨rfl, rfl, rfl, rfl, rfl⟩ ?_
  intro t visited leak
  have sound : t.Sound "1fIiEvi".toUTF8 :=
    ((Sides.both _ 0 0).reads 8 8 .encoding (0, 0) _ _ (Sides.start _ 0 0)
      fun _ _ lost => lost.elim).1 _ visited
  have within (byte : UInt8) (begins : t.cursor.rest.head? = some byte) :
      byte ∈ "1fIiEvi".toUTF8.data.toList := by
    rw [sound.rest] at begins
    exact List.mem_of_mem_drop (List.mem_of_mem_head? begins)
  obtain begins | begins := leak.head?
  · exact absurd (within 84 begins) (by decide)
  · exact absurd (within 83 begins) (by decide)

def waiting : EStateM.Result Fault ParseState NodeId → Nat
  | .ok _ after => after.work.forward.size
  | .error _ _ => 0

end Parse

/-- Where a template parameter may come ahead of its argument, one in a nested encoding waits too
and stands for an argument of the enclosing name. Arguments in a nested encoding and the invented
parameters of a lambda leak likewise. -/
theorem Engine.demangle_nested_forward :
    (∃ outer inner : ParseState, outer.Alike inner ∧
      ¬Parse.SameReading ((Rule.parse 8 8 .encoding).run outer)
        ((Rule.parse 8 8 .encoding).run inner)) ∧
      (Engine.demangle {} "_Z1fDTL_Z1fIiEvT_EE").1.toOption =
        some "f(decltype(void f<int>(int)))" ∧
      (Engine.demangle {} "_ZN1AcvDTL_Z1fIiEvT_EEIdEEv").1.toOption =
        some "A::operator decltype(void f<int>(double))<double>()" ∧
      (Engine.demangle {} "_Z1fDTL_Z1fISaIiEEvvEE").1.isOk = true ∧
      (Engine.demangle {} "_ZN1AcvDTL_Z1fISaIiEEvvEEEv").1.isOk = false ∧
      (Engine.demangle {} "_Z1fDTL_Z1gT_EE").1.isOk = false ∧
      (Engine.demangle {} "_ZN1fUlDTL_Z1gT_EEE_E").1.toOption =
        some "f::'lambda'(decltype(g(auto)))" := by
  refine ⟨⟨{ ParseState.start 0 "1fIiEvT_".toUTF8 with forwardAllowed := true },
    ParseState.start 0 "1fIiEvT_".toUTF8, ⟨rfl, rfl, rfl, rfl, rfl⟩, fun same => ?_⟩, ?_⟩
  · have waits : Parse.waiting ((Rule.parse 8 8 .encoding).run
        { ParseState.start 0 "1fIiEvT_".toUTF8 with forwardAllowed := true }) = 1 := by
      decide +kernel
    have settled : Parse.waiting ((Rule.parse 8 8 .encoding).run
        (ParseState.start 0 "1fIiEvT_".toUTF8)) = 0 := by
      decide +kernel
    generalize (Rule.parse 8 8 .encoding).run _ = r, (Rule.parse 8 8 .encoding).run _ = r' at *
    cases same with
    | ok alike =>
      dsimp only [Parse.waiting] at waits settled
      rw [alike.forward, settled] at waits
      cases waits
    | error => cases waits
  · decide +kernel

end Unmangle
