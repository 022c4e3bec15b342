import Unmangle.Grammar.Parse
import Unmangle.Proofs.Course.Symbol
import Unmangle.Proofs.Formation.Expression
import Unmangle.Proofs.Formation.Type
import Unmangle.Proofs.Output.Halves

/-!
# What a symbol was read into

Every rule stores well-formed nodes, and a symbol is begun with nothing stored, so all that it was
read into is well-formed. With the marker of an encoding it is read as a node that is never spelled as
nothing. A script that allows what well-formed nodes have in them allows all of it.
-/
namespace Unmangle

/-- Every title is one that may stand before any component. -/
theorem SpecialForm.plain_titled {first second : Char} {title : String} {rule : Rule}
    (announced : ofLetters? first second = some (.titled title rule)) :
    Plain title ∧ title ≠ "" := by
  unfold ofLetters? at announced
  split at announced <;> cases announced <;> exact ⟨by decide, by decide⟩

theorem SpecialForm.plain_thunk {first second : Char} {title : String}
    (announced : ofLetters? first second = some (.thunk title)) : Plain title ∧ title ≠ "" := by
  unfold ofLetters? at announced
  split at announced <;> cases announced <;> exact ⟨by decide, by decide⟩

variable {symbol : ByteArray} {regular : Prop} {call : Calls} {s : ParseState}

namespace KeepsForm

theorem resolve (id : NodeId) : KeepsForm symbol regular (Parse.resolve id) := by
  refine fun s => .node_bind ?_
  split
  · rename_i index old waits
    refine .get_bind (.orFault_bind fun target _ formed => ?_)
    have found : s.work.tree.get? id = some (.forwardParam index old) := by
      rw [Tree.node] at waits
      cases hget : s.work.tree.get? id with
      | none =>
        rw [hget] at waits
        cases waits
      | some node =>
        rw [hget] at waits
        exact congrArg some waits
    obtain ⟨stays, nodes⟩ := formed.set found target
    rintro - _ _ ⟨⟩
    exact ⟨⟨⟨formed.ground.rest, formed.ground.stop, formed.ground.intact.set id _⟩, nodes⟩, stays,
      trivial⟩
  · exact .throw _

theorem forM_resolve (ids : List NodeId) : KeepsForm symbol regular (ids.forM Parse.resolve) := by
  induction ids with
  | nil => exact pure ()
  | cons id ids ih => exact (resolve id).seq ih

theorem resolveSince (mark : Nat) : KeepsForm symbol regular (Parse.resolveSince mark) := by
  apply get_bind
  intro _
  apply (forM_resolve _).seq
  exact modified ⟨fun _ => rfl, fun _ => rfl⟩

theorem skipOffset : KeepsForm symbol regular Parse.skipOffset := by
  apply (number true).bind
  intro digits
  exact ensure unexpected

theorem callOffset : KeepsForm symbol regular Parse.callOffset := by
  apply (accept "h").bind
  intro held
  apply ite
  · apply skipOffset.seq
    exact expect "_"
  · apply (accept "v").bind
    intro held
    refine ite ?_ unexpected
    apply skipOffset.seq
    apply (expect "_").seq
    apply skipOffset.seq
    exact expect "_"

end KeepsForm

namespace Forms

theorem finish (root : NodeId) :
    Forms symbol regular (Parse.finish root) s fun id _ => id = root := by
  apply bind (KeepsForm.atEnd s)
  intro _ t _ _
  refine .ensure_bind (.throw _) ?_
  intro _
  refine .get_bind ?_
  refine .ensure_bind (.throw _) ?_
  intro _
  exact .pure rfl

/-- One of two marks is moved over, or neither comes next. -/
theorem acceptEither (token other : String) :
    Forms symbol regular (do if ← Parse.accept token then return true else Parse.accept other) s
      fun taken t => s.Moved t ∧ (taken = false → t = s ∧ s.cursor.strip? token.toList = none ∧
        s.cursor.strip? other.toList = none) := by
  apply (accept token).bind
  intro taken t _ first
  refine .ite (fun _ => .pure ⟨first.1, nofun⟩) fun missed => ?_
  obtain ⟨rfl, none⟩ := first.2.2 (Bool.eq_false_iff.mpr missed)
  exact weaken (accept other) fun _ _ _ second =>
    ⟨second.1, fun missed => ⟨(second.2.2 missed).1, none, (second.2.2 missed).2⟩⟩

/-- A title is never spelled as nothing, whatever it stands before. -/
theorem special {title : String} (plain : Plain title ∧ title ≠ "") {p : Parse NodeId}
    (keeps : KeepsForm symbol regular p) :
    Forms symbol regular (do Parse.make (.special title (← p))) s fun id t =>
      t.work.tree.Holds .printed id := by
  apply (keeps s).bind
  intro _ _ _ _
  exact make_shape .printed rfl plain

section Calls

variable (calls : FormsAll symbol regular call)
include calls

/-- An encoding that begins a symbol is never spelled as nothing. -/
theorem plainEncoding :
    Forms symbol regular (Parse.plainEncoding call) s fun id t =>
      s.Fresh → t.work.tree.Holds .printed id := by
  apply Forms.get_bind
  apply (calls (.name true) s).bind
  intro name t _ printed
  apply bind (KeepsForm.resolveSince _ t)
  intro _ u stays _
  apply bind (KeepsForm.atEncodingEnd u)
  intro _ v stays' _
  refine .ite (fun _ => ?_) fun _ => .get_bind ?_
  · exact .pure fun fresh => ((printed fresh).stays stays).stays stays'
  · refine bind (Q := fun _ _ => True) ?_ fun result w _ _ => ?_
    · exact .ite (fun _ => KeepsForm.map (.of_all calls .type) v) fun _ => .pure trivial
    apply (accept "v").bind
    intro _ x _ _
    refine bind (Q := fun _ _ => True) ?_ fun params y _ _ => ?_
    · exact .ite (fun _ => .pure trivial) fun _ =>
        KeepsForm.someNodes .atEncodingEnd (.of_all calls .type) x
    · apply bind (KeepsForm.makeList params y)
      intro _ _ _ _
      exact weaken (make_shape .printed rfl trivial) fun _ _ _ printed _ => printed

theorem encoding :
    Forms symbol regular (Parse.encoding call) s fun id t =>
      s.Fresh → t.work.tree.Holds .printed id := by
  refine .get_bind (bind (Q := fun _ t => s.Fresh → t.Fresh)
    (modified ⟨fun _ => rfl, fun _ => rfl⟩ ?_) fun _ t _ fresh => ?_)
  · exact fun fresh => ⟨fresh.entries, rfl, fresh.forwardAllowed, fresh.lambdaLevel⟩
  · refine thenAlways ⟨fun _ => rfl, fun _ => rfl⟩ (.peek_bind ?_)
    split
    · exact weaken (calls .specialName t) fun _ _ _ printed _ => printed
    · exact weaken (calls .specialName t) fun _ _ _ printed _ => printed
    · exact weaken (plainEncoding calls) fun _ _ _ printed h => printed (fresh h)

/-- A special name is never spelled as nothing. -/
theorem specialName :
    Forms symbol regular (Parse.specialName call) s fun id t =>
      t.work.tree.Holds .printed id := by
  apply Forms.peekPair_bind
  dsimp only
  cases announced : SpecialForm.ofLetters? (s.cursor.peekAt 0) (s.cursor.peekAt 1) with
  | none => exact unexpected
  | some form =>
    cases form with
    | titled title rule =>
      apply (advance 2).bind
      intro _ _ _ _
      exact special (SpecialForm.plain_titled announced) (.of_all calls rule)
    | covariantThunk =>
      apply (advance 2).bind
      intro _ t _ _
      apply bind (KeepsForm.callOffset t)
      intro _ u _ _
      apply bind (KeepsForm.callOffset u)
      intro _ _ _ _
      exact special (by decide) (.of_all calls .encoding)
    | constructionVtable =>
      apply (advance 2).bind
      intro _ t _ _
      apply (calls .type t).bind
      intro derived u _ _
      apply bind (KeepsForm.skipOffset u)
      intro _ v _ _
      apply (expect "_").bind
      intro _ w _ _
      apply (calls .type w).bind
      intro base _ _ _
      exact make_shape .printed rfl trivial
    | referenceTemporary =>
      apply (advance 2).bind
      intro _ t _ _
      apply (calls (.name false) t).bind
      intro child u _ _
      apply (accept "_").bind
      intro isFirst v _ _
      have numbered : KeepsForm symbol regular (Parse.ensure isFirst do
          discard Parse.seqId
          Parse.expect "_") :=
        .ensure ((KeepsForm.discard .seqId).seq (.expect "_"))
      apply bind (numbered v)
      intro _ _ _ _
      exact make_shape .printed rfl (by decide : Plain _ ∧ "reference temporary for " ≠ "")
    | thunk title =>
      apply (advance 1).bind
      intro _ t _ _
      apply bind (KeepsForm.callOffset t)
      intro _ _ _ _
      exact special (SpecialForm.plain_thunk announced) (.of_all calls .encoding)

theorem markedEncoding :
    Forms symbol regular (Parse.markedEncoding call) s fun id t =>
      s.Fresh → t.work.tree.Holds .printed id := by
  apply Forms.peek_bind
  apply (calls .encoding s).bind
  intro encoding t _ printed
  apply Forms.node_bind
  refine bind (Q := fun _ u => s.Fresh → u.work.tree.Holds .printed encoding) ?_ ?_
  · split
    · exact fun formed => .ensure (fun _ => ⟨formed, .refl _, printed⟩) fun _ => .throw _
    · exact .pure printed
  · intro _ u _ printed
    refine .peek_bind (.ite (fun _ => ?_) fun _ => .pure printed)
    apply remainder.bind
    intro suffix v _ aside
    exact weaken (make_shape .printed rfl aside) fun _ _ _ printed _ => printed

theorem blockInvocation :
    Forms symbol regular (Parse.blockInvocation call) s fun id t =>
      t.work.tree.Holds .printed id := by
  apply (calls .encoding s).bind
  intro encoding t _ _
  apply (expect "_block_invoke").bind
  intro _ u _ _
  apply (accept "_").bind
  intro _ v _ _
  apply (number false).bind
  intro _ w _ _
  refine .ensure_bind unexpected ?_
  intro _
  refine .peek_bind ?_
  refine bind (Q := fun _ _ => True) ?_ fun _ _ _ _ => ?_
  · exact .ite (fun _ => KeepsForm.discard (fun _ => remainder.keeps) w) fun _ => .pure trivial
  · exact make_shape .printed rfl (by decide : Plain _ ∧ "invocation function for block in " ≠ "")

/-- A symbol that begins with a marker is never spelled as nothing. -/
theorem wholeSymbol :
    Forms symbol regular (Parse.symbol call) s fun id t =>
      s.Fresh → s.cursor.atMarker = true → t.work.tree.Holds .printed id := by
  have finishing {p : Parse NodeId} (known : Prop) {t : ParseState}
      (h : Forms symbol regular p t fun id u => known → u.work.tree.Holds .printed id) :
      Forms symbol regular (p >>= Parse.finish) t fun id u =>
        known → u.work.tree.Holds .printed id := by
    apply h.bind
    intro root u _ printed
    apply weaken (finish root)
    intro id v stays same here
    rw [same]
    exact (printed here).stays stays
  apply (acceptEither "_Z" "__Z").bind
  intro _ t _ first
  refine .ite (fun _ => ?_) fun missed => ?_
  · exact weaken (finishing t.Fresh (markedEncoding calls)) fun _ _ _ printed fresh _ =>
      printed (first.1.fresh fresh)
  obtain ⟨rfl, none, none'⟩ := first.2 (Bool.eq_false_iff.mpr missed)
  apply (acceptEither "___Z" "____Z").bind
  intro _ u _ second
  refine .ite (fun _ => ?_) fun missed => ?_
  · refine weaken (finishing True ?_) fun _ _ _ printed _ _ => printed trivial
    exact weaken (blockInvocation calls) fun _ _ _ printed _ => printed
  · obtain ⟨rfl, none'', none'''⟩ := second.2 (Bool.eq_false_iff.mpr missed)
    refine weaken (finishing False ?_) fun _ _ _ _ _ marked => ?_
    · exact weaken (calls .type u) fun _ _ _ _ never => never.elim
    · simp only [Cursor.atMarker, List.any_cons, List.any_nil, none, none', none'', none''',
        Option.isSome_none, Bool.or_self] at marked
      cases marked

/-- What a rule returns is as told, if it is regular where that is asked. -/
theorem body (rule : Rule) (reg : regular → ¬rule.Irregular s.cursor) :
    Forms symbol regular (rule.body call) s fun id t => rule.Gives s t.work.tree id := by
  cases rule with
  | symbol => exact wholeSymbol calls
  | encoding => exact encoding calls
  | specialName => exact specialName calls
  | name tracked => exact name calls tracked
  | unqualifiedName tracked => exact unqualifiedName calls tracked
  | nestedName tracked => exact nestedName calls tracked
  | localName tracked => exact localName calls tracked
  | operatorName tracked => exact operatorName calls tracked
  | substitution => exact substitution
  | templateArgs tracked => exact templateArgs calls tracked
  | templateArg => exact KeepsForm.templateArg calls s
  | type => exact type calls reg
  | qualifiedType => exact KeepsForm.qualifiedType calls s
  | functionType => exact KeepsForm.functionType calls s
  | arrayType => exact KeepsForm.arrayType calls s
  | memberPointerType => exact KeepsForm.memberPointerType calls s
  | namedType => exact KeepsForm.namedType calls s
  | decltype => exact decltype calls
  | vectorType => exact KeepsForm.vectorType calls s
  | expression => exact KeepsForm.expression calls s
  | bracedExpression => exact KeepsForm.bracedExpression calls s
  | literal => exact KeepsForm.literal calls s
  | unresolvedName isGlobal => exact KeepsForm.unresolvedName calls isGlobal s
  | unresolvedType => exact KeepsForm.unresolvedType calls s
  | baseUnresolvedName => exact baseUnresolvedName calls reg

end Calls

/-- The level does not matter to what is known of a node. -/
theorem gives_level {rule : Rule} {tree : Tree} {id : NodeId} {level : Nat}
    (h : rule.Gives { s with level := level } tree id) : rule.Gives s tree id := by
  have same (fresh : s.Fresh) : ParseState.Fresh { s with level := level } :=
    ⟨fresh.entries, fresh.scopes, fresh.forwardAllowed, fresh.lambdaLevel⟩
  cases rule with
  | name | nestedName | encoding | substitution => exact fun fresh => h (same fresh)
  | symbol => exact fun fresh => h (same fresh)
  | _ => exact h

theorem deeper (limit : Nat) {rule : Rule} {p : Parse NodeId}
    (h : ∀ level, Forms symbol regular p { s with level := level } fun id t =>
      rule.Gives { s with level := level } t.work.tree id) :
    Forms symbol regular (p.deeper limit) s fun id t => rule.Gives s t.work.tree id := by
  intro formed
  have level : Apart fun t : ParseState => { t with level := s.level + 1 } :=
    ⟨fun _ => rfl, fun _ => rfl⟩
  have back : Apart Parse.up := ⟨fun _ => rfl, fun _ => rfl⟩
  refine .deeper ((h _ (level.formed formed)).weaken fun id t told => ?_)
  exact ⟨back.formed told.1, told.2.1, gives_level told.2.2⟩

end Forms

/-- Every rule stores well-formed nodes, by induction on the levels that it may spend. -/
theorem FormsAll.parse (limit levels : Nat) : FormsAll symbol regular (Rule.parse limit levels) := by
  induction levels with
  | zero => exact fun rule s => .throw _
  | succ levels ih =>
    intro rule s
    refine .reading ?_
    intro reg
    exact .deeper limit fun level => .body ih rule reg

/-! ## From the beginning of a symbol -/

/-- A name that is marked as an encoding is read as one. -/
theorem Symbol.atMarker_start {name : String} (marked : Symbol.isEncoding name = true) :
    (Cursor.start name.toUTF8).atMarker = true := by
  obtain ⟨marker, known, found⟩ := (Symbol.isEncoding_iff_strip? name).mp marked
  exact List.any_eq_true.mpr ⟨marker, known, found⟩

theorem ParseState.Formed.start (generation : UInt32) (symbol : ByteArray) :
    (ParseState.start generation symbol).Formed symbol regular := by
  refine ⟨.start generation symbol, fun id node held => ?_⟩
  rw [Tree.get?_start] at held
  cases held

theorem ParseState.Fresh.start (generation : UInt32) (symbol : ByteArray) :
    (ParseState.start generation symbol).Fresh :=
  ⟨rfl, rfl, rfl, rfl⟩

/-- A symbol is read into well-formed nodes. If it begins with a marker, they are spelled as
something. -/
theorem formed_of_parse (regular : Prop) {limit : Nat} {generation : UInt32} {root : NodeId}
    {state : ParseState}
    (parsed : (Rule.parse limit limit .symbol).run (.start generation symbol) = .ok root state)
    (regularly : regular → ∀ e, (Rule.parse limit limit .symbol).happens
      (.start generation symbol) e → ¬e.Irregular) :
    state.Formed symbol regular ∧
      ((Cursor.start symbol).atMarker = true → state.work.tree.Holds .printed root) := by
  obtain ⟨formed, -, printed⟩ := FormsAll.parse limit limit .symbol _ (.start generation symbol)
    (fun e happens irregular => regularly irregular.1 e happens irregular.2) root state parsed
  exact ⟨formed, printed (.start generation symbol)⟩

/-- What well-formed nodes have in them may be written, but for the names of the symbol. -/
structure Script.Allows (script : Script) (symbol : ByteArray) (regular : Prop) : Prop where
  word {words : String} : Plain words → script.word words
  literal {words : String} : Plain words → script.name words.toUTF8
  aside {text : Text} : text.Aside → script.inert (text.resolve symbol)
  number {text : Text} : text.Numeral symbol → script.number (text.resolve symbol)
  alone : script.Blind ∨ regular

namespace Script.Allows

variable {script : Script} {tree : Tree} {s : ParseState}

theorem single (allows : script.Allows symbol regular) {id : NodeId}
    (single : regular → tree.Holds .single id) : script.Alone tree id := by
  refine allows.alone.imp_right ?_
  intro known
  obtain ⟨node, held, admitted⟩ := single known
  rw [Tree.node, held, Option.getD_some]
  simpa only [Shape.admits, Bool.not_eq_eq_eq_not, Bool.not_true] using admitted

/-- A formed node fits a script that allows its words. -/
theorem fits_node (allows : script.Allows symbol regular) {node : Node}
    (formed : node.Formed symbol regular tree)
    (named : ∀ start stop, node = .name (.span start stop) → script.name (symbol.extract start stop)) :
    script.Fits symbol tree node := by
  cases node with
  | name text =>
    cases text with
    | literal words => exact allows.literal formed.1
    | span start stop => exact named start stop rfl
  | abiTagged base tag => exact ⟨allows.single fun _ => formed.1.single, allows.aside formed.2⟩
  | destroyed type => exact allows.single formed
  | trailingQualified type words => exact ⟨allows.single formed.1, allows.word formed.2⟩
  | unnamedType | closureType | functionParam | binaryFloat | clone | vendorQualified =>
    exact allows.aside formed
  | special => exact allows.word formed.1
  | elaborated | binary | leading | trailing | member | fold | enclosing | namedCast =>
    exact allows.word formed
  | integer type value =>
    cases type <;> exact ⟨allows.word formed.1, allows.number formed.2⟩
  | enumerator => exact allows.number formed
  | _ => trivial

/-- The script allows all nodes if it allows their names. What is missing is spelled as nothing. -/
theorem fits (allows : script.Allows symbol regular) (formed : s.Formed symbol regular)
    (named : ∀ id start stop, s.work.tree.get? id = some (.name (.span start stop)) →
      script.name (symbol.extract start stop)) (id : NodeId) :
    script.Fits symbol s.work.tree (s.work.tree.node id) := by
  rw [Tree.node]
  cases held : s.work.tree.get? id with
  | none => exact allows.literal (by decide)
  | some node =>
    refine allows.fits_node (formed.nodes id node held) ?_
    intro start stop same
    exact named id start stop (held.trans (congrArg _ same))

end Script.Allows
end Unmangle
