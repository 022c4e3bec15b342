import Unmangle.Proofs.Spelling.Run
import Unmangle.Spelling.Render

/-!
# How much is written on the way

The limit for what is written is looked at whenever a half is begun. What is written later may be
taken back, so more may stand on the canvas then than in the end. A gauged spelling has no such
limit, and notes the most that it would have been looked at for. The two go side by side until that
is more than the limit.
-/
namespace Unmangle

namespace Print

/-- Note how much is written. The canvas of a gauged spelling has the most that was noted in place
of the nesting. -/
def note : Print Unit :=
  modify fun canvas => { canvas with depth := max canvas.depth canvas.out.size }

/-- A step that has nothing to do with nesting. -/
def Level {α : Type} (p : Print α) : Prop :=
  ∀ canvas depth, p.run { canvas with depth := depth } =
    match p.run canvas with
    | .ok a after => .ok a { after with depth := depth }
    | .error fault after => .error fault { after with depth := depth }

end Print

theorem Print.Level.depth_eq {α : Type} {p : Print α} (level : p.Level) {canvas after : Canvas} {a : α}
    (run : p.run canvas = .ok a after) : after.depth = canvas.depth := by
  have same := level canvas canvas.depth
  change p.run canvas = _ at same
  rw [run] at same
  injection same with _ same
  rw [same]

/-- Spell a half without a limit for what is written, and note how much that is as it is begun. -/
def gaugedHalf (symbol : ByteArray) (tree : Tree) : Nat → Half → NodeId → Print Unit
  | levels + 2, half, id => do
    Print.note
    Speller.side ⟨symbol, tree, gaugedHalf symbol tree (levels + 1)⟩ half id
  | _, _, _ => do
    Print.note
    Print.throw .tooMuchRecursion

/-- The canvas on which a node was spelled in full, gauged. -/
def gauged (maxDepth : Nat) (symbol : ByteArray) (tree : Tree) (root : NodeId) :
    EStateM.Result Fault Canvas Unit :=
  (Speller.spell ⟨symbol, tree, gaugedHalf symbol tree maxDepth⟩ root).run {}

/-- The most that is written as a half is begun. -/
def crest (maxDepth : Nat) (symbol : ByteArray) (tree : Tree) (root : NodeId) : Nat :=
  match gauged maxDepth symbol tree root with
  | .ok _ canvas | .error _ canvas => canvas.depth

/-- A canvas under a limit and one that is gauged have the same on them. -/
structure Abreast (nesting : Nat) (canvas canvas' : Canvas) : Prop where
  out : canvas.out = canvas'.out
  pack : canvas.pack = canvas'.pack
  nesting : canvas.depth = nesting

/-- What comes of a step under a limit and of the same step gauged. The gauged step goes on where
the other ends at the limit, and then it has noted more than that. -/
inductive Gauged {α : Type} (limit nesting : Nat) (before : Canvas) :
    EStateM.Result Fault Canvas α → EStateM.Result Fault Canvas α → Prop
  | ok {a after after'} (abreast : Abreast nesting after after') (rises : before.depth ≤ after'.depth)
      (below : after'.depth ≤ limit) : Gauged limit nesting before (.ok a after) (.ok a after')
  | error {fault after after'} : Gauged limit nesting before (.error fault after) (.error fault after')
  | beyond {after r'} (above : ∀ a after', r' = .ok a after' → limit < after'.depth) :
      Gauged limit nesting before (.error .tooLong after) r'

/-- A step under a limit, at some nesting, and the same step gauged. -/
structure Gauges {α : Type} (limit nesting : Nat) (p p' : Print α) : Prop where
  rises : ∀ {canvas a after}, p'.run canvas = .ok a after → canvas.depth ≤ after.depth
  meets : ∀ {canvas canvas'}, Abreast nesting canvas canvas' → canvas'.depth ≤ limit →
    Gauged limit nesting canvas' (p.run canvas) (p'.run canvas')

namespace Gauges

variable {α β : Type} {limit nesting : Nat} {p p' : Print α}

theorem bind {f f' : α → Print β} (first : Gauges limit nesting p p')
    (next : ∀ a, Gauges limit nesting (f a) (f' a)) : Gauges limit nesting (p >>= f) (p' >>= f') where
  rises run := by
    obtain ⟨a, between, run, run'⟩ := Print.of_run_bind run
    exact Nat.le_trans (first.rises run) ((next a).rises run')
  meets := by
    intro canvas canvas' abreast below
    have both := first.meets abreast below
    simp only [Bind.bind]
    generalize p.run canvas = r, run' : p'.run canvas' = r' at both ⊢
    cases both with
    | @ok a after after' abreast rises below =>
      have rest := (next a).meets abreast below
      show Gauged limit nesting canvas' ((f a).run after) ((f' a).run after')
      generalize (f a).run after = r, (f' a).run after' = r' at rest ⊢
      cases rest with
      | ok abreast' rises' below' => exact .ok abreast' (Nat.le_trans rises rises') below'
      | error => exact .error
      | beyond above => exact .beyond above
    | error => exact .error
    | beyond above =>
      refine .beyond ?_
      intro b after' run
      cases r' with
      | ok a between => exact Nat.lt_of_lt_of_le (above a between rfl) ((next a).rises run)
      | error fault between => cases run

/-- What the first step comes to is not needed behind it. -/
theorem seq {q q' : Print β} (first : Gauges limit nesting p p') (next : Gauges limit nesting q q') :
    Gauges limit nesting (do let _ ← p; q) (do let _ ← p'; q') :=
  first.bind fun _ => next

/-- A step that has nothing to do with nesting does the same on both canvases. -/
theorem level (level : p.Level) : Gauges limit nesting p p where
  rises run := Nat.le_of_eq (level.depth_eq run).symm
  meets {canvas canvas'} abreast below := by
    obtain ⟨out, pack, depth⟩ := canvas
    obtain ⟨rfl, rfl, rfl⟩ := abreast
    rw [level canvas' depth]
    cases run : p.run canvas' with
    | ok a after =>
      have same := level.depth_eq run
      exact .ok ⟨rfl, rfl, rfl⟩ (Nat.le_of_eq same.symm) (same ▸ below)
    | error fault after => exact .error

end Gauges

namespace Print.Level

variable {α β : Type} {p q : Print α}

theorem bind {f : α → Print β} (first : p.Level) (next : ∀ a, (f a).Level) : (p >>= f).Level := by
  intro canvas depth
  simp only [Bind.bind, first canvas depth]
  cases p.run canvas with
  | ok a after => exact next a after depth
  | error fault after => rfl

theorem seq {q : Print β} (first : p.Level) (next : q.Level) : (do let _ ← p; q).Level :=
  first.bind fun _ => next

theorem ite {c : Prop} [Decidable c] (yes : p.Level) (no : q.Level) : (if c then p else q).Level := by
  split
  · exact yes
  · exact no

theorem pure (a : α) : (Pure.pure a : Print α).Level := fun _ _ => rfl

theorem throw (fault : Fault) : (Print.throw fault : Print α).Level := fun _ _ => rfl

theorem write (words : String) : (Print.write words).Level := fun _ _ => rfl

theorem whenever (holds : Bool) {p : Print Unit} (level : p.Level) : (Print.whenever holds p).Level :=
  ite level (pure ())

theorem written : Print.written.Level := fun _ _ => rfl

theorem lastByte : Print.lastByte.Level := fun _ _ => rfl

theorem truncate (size : Nat) : (Print.truncate size).Level := fun _ _ => rfl

theorem bytes (symbol : ByteArray) (text : Text) : (Print.bytes symbol text).Level := fun _ _ => rfl

theorem node (tree : Tree) (id : NodeId) : (Print.node tree id).Level := fun _ _ => rfl

theorem quals (quals : Qualifiers) : (Print.quals quals).Level := by
  apply (whenever _ (write _)).seq
  apply (whenever _ (write _)).seq
  exact whenever _ (write _)

theorem refQualifier (ref : Option Reference) : (Print.refQualifier ref).Level := by
  rcases ref with _ | (_ | _)
  · exact pure ()
  · exact write _
  · exact write _

theorem currentElement (tree : Tree) (run : NodeList) : (Print.currentElement tree run).Level := by
  rintro ⟨out, pack, nesting⟩ depth
  cases pack <;> rfl

theorem hasTailWithin (tree : Tree) (tail : Tail) (steps : Nat) (id : NodeId) :
    (Print.hasTailWithin tree tail steps id).Level := by
  induction steps generalizing id with
  | zero => exact pure false
  | succ steps ih =>
    apply (node tree id).bind
    intro node
    split
    · exact ih _
    · exact ih _
    · exact ih _
    · apply (currentElement tree _).bind
      intro element
      cases element with
      | some element => exact ih element
      | none => exact pure false
    · exact ite (ih _) (pure false)
    · exact ite (ih _) (pure false)
    · exact ite (ih _) (pure false)
    · exact pure _
    · exact pure _
    · exact pure _
    · exact pure false

theorem hasArrayOrFunction (tree : Tree) (id : NodeId) : (Print.hasArrayOrFunction tree id).Level := by
  apply (hasTailWithin tree _ _ id).bind
  intro has
  exact ite (pure true) (hasTailWithin tree _ _ id)

theorem behindWithin (tree : Tree) (steps : Nat) (id : NodeId) :
    (Print.behindWithin tree steps id).Level := by
  induction steps generalizing id with
  | zero => exact pure id
  | succ steps ih =>
    apply (node tree id).bind
    intro node
    split
    · exact ih _
    · exact ih _
    · apply (currentElement tree _).bind
      intro element
      cases element with
      | some element => exact ih element
      | none => exact pure id
    · exact pure id

theorem collapseWithin (tree : Tree) (steps : Nat) (kind : Reference) (pointee : NodeId) :
    (Print.collapseWithin tree steps kind pointee).Level := by
  induction steps generalizing kind pointee with
  | zero => exact pure none
  | succ steps ih =>
    apply (behindWithin tree _ pointee).bind
    intro last
    apply (node tree last).bind
    intro node
    split
    · exact ih _ _
    · exact pure _

theorem baseNameWithin (tree : Tree) (steps : Nat) (id : NodeId) :
    (Print.baseNameWithin tree steps id).Level := by
  induction steps generalizing id with
  | zero => exact pure Text.empty
  | succ steps ih =>
    apply (node tree id).bind
    intro node
    split
    all_goals first | exact ih _ | exact pure _

end Print.Level

/-! ## Steps of a speller -/

/-- Ways to spell halves, under a limit and gauged. -/
def GaugesHalves (limit nesting : Nat) (half half' : Half → NodeId → Print Unit) : Prop :=
  ∀ side id, Gauges limit nesting (half side id) (half' side id)

namespace Gauges

variable {limit nesting : Nat} {symbol : ByteArray} {tree : Tree}
  {half half' : Half → NodeId → Print Unit} (halves : GaugesHalves limit nesting half half')

theorem write (words : String) : Gauges limit nesting (Print.write words) (Print.write words) :=
  level (Print.Level.write words)

theorem whenever (holds : Bool) {p p' : Print Unit} (h : Gauges limit nesting p p') :
    Gauges limit nesting (Print.whenever holds p) (Print.whenever holds p') := by
  cases holds with
  | true => exact h
  | false => exact level (.pure ())

theorem ifAny (id : Option NodeId) {p p' : NodeId → Print Unit}
    (h : ∀ id, Gauges limit nesting (p id) (p' id)) :
    Gauges limit nesting (Print.ifAny id p) (Print.ifAny id p') := by
  cases id with
  | some id => exact h id
  | none => exact level (.pure ())

/-- What follows depends on the pack alone. -/
theorem bindPack {f f' : Canvas → Print Unit}
    (next : ∀ canvas canvas', canvas.pack = canvas'.pack →
      Gauges limit nesting (f canvas) (f' canvas')) :
    Gauges limit nesting (do f (← get)) (do f' (← get)) where
  rises {canvas _ _} run := (next canvas canvas rfl).rises run
  meets {canvas canvas'} abreast below := (next canvas canvas' abreast.pack).meets abreast below

include halves

theorem spell (id : NodeId) :
    Gauges limit nesting (Speller.spell ⟨symbol, tree, half⟩ id) (Speller.spell ⟨symbol, tree, half'⟩ id) := by
  apply (halves .left id).seq
  exact halves .right id

theorem parenthesized (id : NodeId) :
    Gauges limit nesting (Speller.parenthesized ⟨symbol, tree, half⟩ id)
      (Speller.parenthesized ⟨symbol, tree, half'⟩ id) := by
  apply (write _).seq
  apply (spell halves id).seq
  exact write _

theorem inBrackets (id : Option NodeId) :
    Gauges limit nesting (Speller.inBrackets ⟨symbol, tree, half⟩ id)
      (Speller.inBrackets ⟨symbol, tree, half'⟩ id) := by
  apply (write _).seq
  apply (ifAny id (spell halves)).seq
  exact write _

theorem separated (isFirst : Bool) (ids : List NodeId) :
    Gauges limit nesting (Speller.separated ⟨symbol, tree, half⟩ isFirst ids)
      (Speller.separated ⟨symbol, tree, half'⟩ isFirst ids) := by
  induction ids generalizing isFirst with
  | nil => exact level (.pure ())
  | cons id rest ih =>
    apply (level .written).bind
    intro before
    apply (whenever _ (write _)).seq
    apply (level .written).bind
    intro start
    apply (spell halves id).seq
    apply (level .written).bind
    intro stop
    split
    · apply (level (.truncate before)).seq
      exact ih isFirst
    · exact ih false

theorem list (run : NodeList) :
    Gauges limit nesting (Speller.list ⟨symbol, tree, half⟩ run)
      (Speller.list ⟨symbol, tree, half'⟩ run) := by
  apply (level fun _ _ => rfl).bind
  intro ids
  exact separated halves true ids

theorem parenthesizedList (run : NodeList) :
    Gauges limit nesting (Speller.parenthesizedList ⟨symbol, tree, half⟩ run)
      (Speller.parenthesizedList ⟨symbol, tree, half'⟩ run) := by
  apply (write _).seq
  apply (list halves run).seq
  exact write _

theorem closureParams (id : NodeId) :
    Gauges limit nesting (Speller.closureParams ⟨symbol, tree, half⟩ id)
      (Speller.closureParams ⟨symbol, tree, half'⟩ id) := by
  apply (level (.node tree id)).bind
  intro node
  split
  · exact parenthesizedList halves _
  · exact level (.pure ())

theorem initializer (id : NodeId) :
    Gauges limit nesting (Speller.initializer ⟨symbol, tree, half⟩ id)
      (Speller.initializer ⟨symbol, tree, half'⟩ id) := by
  apply (level (.node tree id)).bind
  intro node
  apply Gauges.bind
  · split
    all_goals first | exact write _ | exact level (.pure ())
  intro _
  exact spell halves id

theorem laterElements (pattern : NodeId) (size : Nat) (indices : List Nat) :
    Gauges limit nesting (Speller.laterElements ⟨symbol, tree, half⟩ pattern size indices)
      (Speller.laterElements ⟨symbol, tree, half'⟩ pattern size indices) := by
  induction indices with
  | nil => exact level (.pure ())
  | cons index rest ih =>
    apply (write _).seq
    apply (level fun _ _ => rfl).seq
    apply (spell halves pattern).seq
    exact ih

theorem expandOnce (pattern : NodeId) :
    Gauges limit nesting (Speller.expandOnce ⟨symbol, tree, half⟩ pattern)
      (Speller.expandOnce ⟨symbol, tree, half'⟩ pattern) := by
  apply (level .written).bind
  intro start
  apply (spell halves pattern).seq
  refine bindPack ?_
  intro canvas canvas' same
  rw [same]
  cases canvas'.pack with
  | none => exact write _
  | some pack =>
    show Gauges _ _ (if pack.size = 0 then _ else _) (if pack.size = 0 then _ else _)
    split
    · exact level (.truncate start)
    · exact laterElements halves pattern _ _

theorem expand (pattern : NodeId) :
    Gauges limit nesting (Speller.expand ⟨symbol, tree, half⟩ pattern)
      (Speller.expand ⟨symbol, tree, half'⟩ pattern) := by
  have once : Gauges limit nesting (Speller.expandOnce ⟨symbol, tree, half⟩ pattern)
      (Speller.expandOnce ⟨symbol, tree, half'⟩ pattern) := expandOnce halves pattern
  refine ⟨fun {canvas _ after} run => ?_, fun {canvas canvas'} abreast below => ?_⟩
  · simp only [Speller.expand] at run
    cases inner : (Speller.expandOnce ⟨symbol, tree, half'⟩ pattern).run { canvas with pack := none } with
    | ok _ between =>
      rw [inner] at run
      cases run
      have rises := once.rises inner
      exact rises
    | error fault between =>
      rw [inner] at run
      cases run
  · have both := @once.meets { canvas with pack := none } { canvas' with pack := none }
      ⟨abreast.out, rfl, abreast.nesting⟩ below
    simp only [Speller.expand]
    generalize (Speller.expandOnce ⟨symbol, tree, half⟩ pattern).run { canvas with pack := none } = r,
      (Speller.expandOnce ⟨symbol, tree, half'⟩ pattern).run { canvas' with pack := none } = r' at both ⊢
    cases both with
    | ok abreast' rises below' => exact .ok ⟨abreast'.out, abreast.pack, abreast'.nesting⟩ rises below'
    | error => exact .error
    | beyond above =>
      refine .beyond ?_
      intro a after' run
      cases r' with
      | ok a between =>
        cases run
        exact above a between rfl
      | error fault between => cases run

omit halves in
theorem text (text : Text) :
    Gauges limit nesting (Speller.text ⟨symbol, tree, half⟩ text)
      (Speller.text ⟨symbol, tree, half'⟩ text) :=
  level ((Print.Level.bytes symbol text).bind fun _ _ _ => rfl)

omit halves in
theorem number (value : Text) :
    Gauges limit nesting (Speller.number ⟨symbol, tree, half⟩ value)
      (Speller.number ⟨symbol, tree, half'⟩ value) := by
  apply (level (.bytes symbol value)).bind
  intro digits
  split
  · apply (write _).seq
    exact level fun _ _ => rfl
  · exact level fun _ _ => rfl

omit halves in
theorem float (format : FloatFormat) (bits : Text) :
    Gauges limit nesting (Speller.float ⟨symbol, tree, half⟩ format bits)
      (Speller.float ⟨symbol, tree, half'⟩ format bits) := by
  apply (level (.bytes symbol bits)).bind
  intro digits
  split
  · exact write _
  · exact level (.throw _)

omit halves in
theorem openDeclarator (pointee : NodeId) :
    Gauges limit nesting (Speller.openDeclarator ⟨symbol, tree, half⟩ pointee)
      (Speller.openDeclarator ⟨symbol, tree, half'⟩ pointee) := by
  apply (level (.hasTailWithin tree _ _ _)).bind
  intro has
  apply (whenever _ (write _)).seq
  apply (level (.hasArrayOrFunction tree _)).bind
  intro isTail
  exact whenever _ (write _)

theorem closeDeclarator (pointee : NodeId) :
    Gauges limit nesting (Speller.closeDeclarator ⟨symbol, tree, half⟩ pointee)
      (Speller.closeDeclarator ⟨symbol, tree, half'⟩ pointee) := by
  apply (level (.hasArrayOrFunction tree _)).bind
  intro isTail
  apply (whenever _ (write _)).seq
  exact halves .right _

/-! ## Halves -/

theorem binary (left : NodeId) (operator : String) (right : NodeId) :
    Gauges limit nesting (Speller.binary ⟨symbol, tree, half⟩ left operator right)
      (Speller.binary ⟨symbol, tree, half'⟩ left operator right) := by
  apply (whenever _ (write _)).seq
  apply (parenthesized halves left).seq
  apply (write _).seq
  apply (write _).seq
  apply (write _).seq
  apply (parenthesized halves right).seq
  exact whenever _ (write _)

omit halves in
theorem foldOperator (operator : String) :
    Gauges limit nesting (Speller.foldOperator operator) (Speller.foldOperator operator) := by
  apply (write _).seq
  apply (write _).seq
  exact write _

theorem packInParentheses (pack : NodeId) :
    Gauges limit nesting (Speller.fold.packInParentheses ⟨symbol, tree, half⟩ pack)
      (Speller.fold.packInParentheses ⟨symbol, tree, half'⟩ pack) := by
  apply (write _).seq
  apply (expand halves pack).seq
  exact write _

theorem fold (fromLeft : Bool) (operator : String) (pack : NodeId) (init : Option NodeId) :
    Gauges limit nesting (Speller.fold ⟨symbol, tree, half⟩ fromLeft operator pack init)
      (Speller.fold ⟨symbol, tree, half'⟩ fromLeft operator pack init) := by
  apply (write _).seq
  apply Gauges.bind
  · cases fromLeft with
    | true =>
      apply Gauges.seq
      · apply ifAny init
        intro init
        apply (spell halves init).seq
        exact foldOperator operator
      apply (write _).seq
      apply (foldOperator operator).seq
      exact packInParentheses halves pack
    | false =>
      apply (packInParentheses halves pack).seq
      apply (foldOperator operator).seq
      apply (write _).seq
      apply ifAny init
      intro init
      apply (foldOperator operator).seq
      exact spell halves init
  intro _
  exact write _

theorem newExpression (placement : NodeList) (type : NodeId) (inits : NodeList)
    (isGlobal isArray : Bool) :
    Gauges limit nesting
      (Speller.newExpression ⟨symbol, tree, half⟩ placement type inits isGlobal isArray)
      (Speller.newExpression ⟨symbol, tree, half'⟩ placement type inits isGlobal isArray) := by
  apply (whenever _ (write _)).seq
  apply (write _).seq
  apply (whenever _ (write _)).seq
  apply (write _).seq
  refine Gauges.bind (whenever _ ?_) fun _ => ?_
  · apply (parenthesizedList halves placement).seq
    exact write _
  · apply (spell halves type).seq
    exact whenever _ (parenthesizedList halves inits)

theorem behindFunction (result : Option NodeId) (params : NodeList) (quals : Qualifiers)
    (ref : Option Reference) :
    Gauges limit nesting (Speller.behindFunction ⟨symbol, tree, half⟩ result params quals ref)
      (Speller.behindFunction ⟨symbol, tree, half'⟩ result params quals ref) := by
  apply (parenthesizedList halves params).seq
  apply (ifAny result (halves .right)).seq
  apply (level (.quals quals)).seq
  exact level (.refQualifier ref)

theorem left (node : Node) :
    Gauges limit nesting (Speller.left ⟨symbol, tree, half⟩ node)
      (Speller.left ⟨symbol, tree, half'⟩ node) := by
  cases node with
  | name t => exact text t
  | nestedName a b | localName a b | qualifiedName a b =>
    apply (spell halves a).seq
    apply (write _).seq
    exact spell halves b
  | stdName a | globalName a | conversionName a | literalOperator a | special _ a | throw a =>
    apply (write _).seq
    exact spell halves a
  | instantiation a b => exact (spell halves a).seq (spell halves b)
  | templateArgs run =>
    apply (write _).seq
    apply (list halves run).seq
    apply (level .lastByte).bind
    intro last
    apply (whenever _ (write _)).seq
    exact write _
  | abiTagged a t =>
    apply (halves .left a).seq
    apply (write _).seq
    apply (text t).seq
    exact write _
  | constructorName a =>
    apply (level (.baseNameWithin tree _ a)).bind
    intro words
    exact text words
  | destructorName a =>
    apply (write _).seq
    apply (level (.baseNameWithin tree _ a)).bind
    intro words
    exact text _
  | destroyed a => exact (write _).seq (halves .left a)
  | unnamedType t =>
    apply (write _).seq
    apply (text t).seq
    exact write _
  | closureType run t =>
    apply (write _).seq
    apply (text t).seq
    apply (write _).seq
    exact parenthesizedList halves run
  | structuredBinding run =>
    apply (write _).seq
    apply (list halves run).seq
    exact write _
  | abbreviation _ => exact (write _).seq (write _)
  | expandedAbbreviation _ | boolean _ => exact write _
  | function result a _ _ _ =>
    refine Gauges.bind (ifAny result fun result => ?_) fun _ => spell halves a
    apply (halves .left result).seq
    apply (level (.hasTailWithin tree _ _ result)).bind
    intro has
    exact whenever _ (write _)
  | constructionVtable a b =>
    apply (write _).seq
    apply (spell halves a).seq
    apply (write _).seq
    exact spell halves b
  | clone a t =>
    apply (spell halves a).seq
    apply (write _).seq
    apply (text t).seq
    exact write _
  | templateParam a => exact halves .left a
  | forwardParam _ target =>
    cases target with
    | none => exact level (.throw _)
    | some target => exact halves .left target
  | qualified a quals => exact (halves .left a).seq (level (.quals quals))
  | vendorQualified a t =>
    apply (spell halves a).seq
    apply (write _).seq
    exact text t
  | trailingQualified a _ => exact (halves .left a).seq (write _)
  | elaborated _ a =>
    apply (write _).seq
    apply (write _).seq
    exact spell halves a
  | pointer a =>
    apply (halves .left a).seq
    apply (openDeclarator a).seq
    exact write _
  | reference kind a =>
    apply (level (.collapseWithin tree _ kind a)).bind
    intro found
    cases found with
    | none => exact level (.pure ())
    | some found =>
      apply (halves .left found.2).seq
      apply (openDeclarator found.2).seq
      exact write _
  | memberPointer a b =>
    apply (halves .left b).seq
    apply (level (.hasArrayOrFunction tree b)).bind
    intro isTail
    apply (write _).seq
    apply (spell halves a).seq
    exact write _
  | array a _ => exact halves .left a
  | functionType a _ _ _ _ => exact (halves .left a).seq (write _)
  | noexceptSpec a | leading _ a | enclosing _ a =>
    apply (write _).seq
    exact parenthesized halves a
  | throwSpec run => exact (write _).seq (parenthesizedList halves run)
  | vector a dimension =>
    apply (spell halves a).seq
    apply (write _).seq
    exact inBrackets halves dimension
  | pixelVector a => exact (write _).seq (inBrackets halves (some a))
  | binaryFloat t | functionParam t => exact (write _).seq (text t)
  | argumentPack run | elements run => exact list halves run
  | parameterPack run =>
    apply (level (.currentElement tree run)).bind
    intro element
    exact ifAny element (halves .left)
  | expansion a => exact expand halves a
  | binary a operator b => exact binary halves a operator b
  | trailing a _ => exact (parenthesized halves a).seq (write _)
  | subscript a b => exact (parenthesized halves a).seq (inBrackets halves (some b))
  | member a _ b =>
    apply (spell halves a).seq
    apply (write _).seq
    exact spell halves b
  | conditional a b c =>
    apply (parenthesized halves a).seq
    apply (write _).seq
    apply (parenthesized halves b).seq
    apply (write _).seq
    exact parenthesized halves c
  | call a run => exact (spell halves a).seq (parenthesizedList halves run)
  | new placement a inits isGlobal isArray =>
    exact newExpression halves placement a inits isGlobal isArray
  | delete a _ _ =>
    apply (whenever _ (write _)).seq
    apply (write _).seq
    apply (whenever _ (write _)).seq
    apply (write _).seq
    exact spell halves a
  | namedCast _ a b =>
    apply (write _).seq
    apply (write _).seq
    apply (spell halves a).seq
    apply (write _).seq
    exact parenthesized halves b
  | conversion a run => exact (parenthesized halves a).seq (parenthesizedList halves run)
  | initList type run =>
    apply (ifAny type (spell halves)).seq
    apply (write _).seq
    apply (list halves run).seq
    exact write _
  | fieldInit a b =>
    apply (write _).seq
    apply (spell halves a).seq
    exact initializer halves b
  | indexInit a b => exact (inBrackets halves (some a)).seq (initializer halves b)
  | rangeInit a b c =>
    apply (write _).seq
    apply (spell halves a).seq
    apply (write _).seq
    apply (spell halves b).seq
    apply (write _).seq
    exact initializer halves c
  | fold fromLeft operator pack init => exact fold halves fromLeft operator pack init
  | integer type t =>
    cases type with
    | cast _ =>
      apply (write _).seq
      apply (write _).seq
      apply (write _).seq
      exact number t
    | suffix _ => exact (number t).seq (write _)
  | float format t => exact float format t
  | enumerator a t => exact (parenthesized halves a).seq (number t)
  | stringLiteral a =>
    apply (write _).seq
    apply (spell halves a).seq
    exact write _
  | lambdaLiteral a =>
    apply (write _).seq
    apply (closureParams halves a).seq
    exact write _
  | packSize a =>
    apply (write _).seq
    apply (expand halves a).seq
    exact write _

theorem right (node : Node) :
    Gauges limit nesting (Speller.right ⟨symbol, tree, half⟩ node)
      (Speller.right ⟨symbol, tree, half'⟩ node) := by
  cases node with
  | qualified a _ | templateParam a => exact halves .right a
  | forwardParam _ target =>
    cases target with
    | none => exact level (.throw _)
    | some target => exact halves .right target
  | function result _ params quals ref => exact behindFunction halves result params quals ref
  | pointer a | memberPointer _ a => exact closeDeclarator halves a
  | reference kind a =>
    apply (level (.collapseWithin tree _ kind a)).bind
    intro found
    cases found with
    | none => exact level (.pure ())
    | some found => exact closeDeclarator halves found.2
  | array a dimension =>
    apply (level .lastByte).bind
    intro last
    apply (whenever _ (write _)).seq
    apply (inBrackets halves dimension).seq
    exact halves .right a
  | functionType result params quals ref exception =>
    apply (behindFunction halves (some result) params quals ref).seq
    refine ifAny exception ?_
    intro exception
    apply (write _).seq
    exact spell halves exception
  | parameterPack run =>
    apply (level (.currentElement tree run)).bind
    intro element
    exact ifAny element (halves .right)
  | _ => exact level (.pure ())

theorem side (half₀ : Half) (id : NodeId) :
    Gauges limit nesting (Speller.side ⟨symbol, tree, half⟩ half₀ id)
      (Speller.side ⟨symbol, tree, half'⟩ half₀ id) := by
  cases half₀ with
  | left =>
    apply (level (.node tree id)).bind
    intro node
    exact left halves node
  | right =>
    apply (level (.node tree id)).bind
    intro node
    exact right halves node

omit halves
variable {limits : SpellingLimits}

theorem run_note (canvas : Canvas) :
    Print.note.run canvas = .ok () { canvas with depth := max canvas.depth canvas.out.size } := rfl

/-- Behind its note a gauged step has noted what was written. -/
theorem noted {p' : Print Unit} (rises : ∀ {canvas a after}, p'.run canvas = .ok a after →
      canvas.depth ≤ after.depth) {canvas after : Canvas}
    (run : (Print.note >>= fun _ => p').run canvas = .ok () after) :
    max canvas.depth canvas.out.size ≤ after.depth := by
  obtain ⟨_, _, ⟨⟩, run⟩ := Print.of_run_bind run
  have rises := rises run
  exact rises

/-- One level deeper what is written is looked at, or noted. -/
theorem deeper {p p' : Print Unit} (shallow : nesting + 1 < limits.maxDepth)
    (h : Gauges limits.maxLength (nesting + 1) p p') :
    Gauges limits.maxLength nesting (Print.deeper limits p) (do Print.note; p') where
  rises run := Nat.le_trans (Nat.le_max_left _ _) (noted h.rises run)
  meets {canvas canvas'} abreast below := by
    rw [Print.run_deeper_eq, abreast.out, abreast.nesting, if_neg (Nat.not_le.mpr shallow)]
    by_cases long : limits.maxLength < canvas'.out.size
    · rw [if_pos long]
      refine .beyond ?_
      intro _ after run
      have noted := noted h.rises run
      omega
    · rw [if_neg long]
      have both := @h.meets { canvas with depth := canvas.depth + 1 }
        { canvas' with depth := max canvas'.depth canvas'.out.size }
        ⟨abreast.out, abreast.pack, congrArg (· + 1) abreast.nesting⟩ (by simp only; omega)
      simp only [Print.nested, Bind.bind, run_note]
      generalize p.run { canvas with depth := canvas.depth + 1 } = r,
        p'.run { canvas' with depth := max canvas'.depth canvas'.out.size } = r' at both ⊢
      cases both with
      | ok abreast' rises below' =>
        have deeper := abreast'.nesting
        refine .ok ⟨abreast'.out, abreast'.pack, ?_⟩ (Nat.le_trans (Nat.le_max_left _ _) rises) below'
        simp only
        omega
      | error => exact .error
      | beyond above => exact .beyond above

/-- At the end of the levels both give up, unless too much is written. -/
theorem exhausted {p : Print Unit} (deep : limits.maxDepth ≤ nesting + 1) :
    Gauges limits.maxLength nesting (Print.deeper limits p)
      (do Print.note; Print.throw .tooMuchRecursion : Print Unit) where
  rises run := by cases run
  meets {canvas canvas'} abreast below := by
    rw [Print.run_deeper_eq, abreast.out, abreast.nesting, if_pos deep]
    by_cases long : limits.maxLength < canvas'.out.size
    · rw [if_pos long]
      exact .beyond fun _ _ run => by cases run
    · rw [if_neg long]
      exact .error

end Gauges

/-- All halves, with as many levels left as the limit for nesting leaves. -/
theorem gaugesHalves {limits : SpellingLimits} (symbol : ByteArray) (tree : Tree) {levels nesting : Nat}
    (left : nesting + levels = limits.maxDepth) :
    GaugesHalves limits.maxLength nesting (renderHalf limits symbol tree levels)
      (gaugedHalf symbol tree levels) := by
  induction levels generalizing nesting with
  | zero => exact fun side id => Gauges.exhausted (by omega)
  | succ levels ih =>
    cases levels with
    | zero => exact fun side id => Gauges.exhausted (by omega)
    | succ levels =>
      intro side id
      exact Gauges.deeper (by omega) (Gauges.side (ih (by omega)) side id)

/-- What comes out at all comes out under every limit that is not below the crest, and under no
other. -/
theorem render_eq_of_ok {maxDepth top : Nat} {symbol : ByteArray} {tree : Tree} {root : NodeId}
    {out : ByteArray} (unlimited : render ⟨maxDepth, top⟩ symbol tree root = .ok out) (limit : Nat) :
    render ⟨maxDepth, limit⟩ symbol tree root =
      if crest maxDepth symbol tree root ≤ limit then .ok out else .error .tooLong := by
  have meets (limit : Nat) : Gauged limit 0 {} ((rendering ⟨maxDepth, limit⟩ symbol tree root).run {})
      (gauged maxDepth symbol tree root) :=
    have halves : GaugesHalves limit 0 (renderHalf ⟨maxDepth, limit⟩ symbol tree maxDepth)
        (gaugedHalf symbol tree maxDepth) :=
      @gaugesHalves ⟨maxDepth, limit⟩ symbol tree maxDepth 0 (Nat.zero_add maxDepth)
    (Gauges.spell halves root).meets ⟨rfl, rfl, rfl⟩ (Nat.zero_le _)
  have atTop := meets top
  have atLimit := meets limit
  unfold render at unlimited ⊢
  unfold crest
  generalize (rendering ⟨maxDepth, top⟩ symbol tree root).run {} = r,
    (rendering ⟨maxDepth, limit⟩ symbol tree root).run {} = r', gauged maxDepth symbol tree root = r''
    at unlimited atTop atLimit ⊢
  cases atTop with
  | @ok _ after after' abreast _ _ =>
    obtain rfl : after.out = out := Except.ok.inj unlimited
    cases atLimit with
    | ok abreast' _ below =>
      show _ = if after'.depth ≤ limit then _ else _
      rw [if_pos below, abreast.out, ← abreast'.out]
    | beyond above =>
      show _ = if after'.depth ≤ limit then _ else _
      rw [if_neg (Nat.not_le.mpr (above _ _ rfl))]
  | error => cases unlimited
  | beyond => cases unlimited

end Unmangle
