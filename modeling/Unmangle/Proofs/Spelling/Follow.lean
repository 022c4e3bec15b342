import Unmangle.Proofs.Spelling.Mirror

/-!
# Spelling side by side

Every step of spelling keeps to corresponding names, so two trees that mirror each other
come out the same.
-/
namespace Unmangle.Mirror

variable {M : Mirror}

namespace Follows

variable (law : M.Lawful)

theorem writeBytes {bytes : ByteArray} (grown : ∀ out, M.growth.rel out (out ++ bytes)) :
    M.Writes (Print.writeBytes bytes) (Print.writeBytes bytes) := by
  refine modified _ (fun canvas => ?_) fun canvas => ⟨grown canvas.out, rfl, id⟩
  simp only [Surroundings.put, ByteArray.append_assoc]

theorem write (words : String) : M.Writes (Print.write words) (Print.write words) :=
  writeBytes fun out => M.growth.words out words

/-- The last bytes are the same, as far as a bracket is looked for. -/
theorem lastByte : M.Follows Print.lastByte Print.lastByte fun last last' =>
    ∀ bracket ∈ [62, 93], (last == some bracket) = (last' == some bracket) := by
  refine get.bind ?_
  rintro _ canvas rfl
  refine pure ?_
  intro bracket known
  rw [Bool.eq_iff_iff, beq_iff_eq, beq_iff_eq]
  exact M.around.lastByte_put canvas known

theorem quals (quals : Qualifiers) : M.Writes (Print.quals quals) (Print.quals quals) := by
  apply (whenever _ (write _)).seq
  apply (whenever _ (write _)).seq
  exact whenever _ (write _)

theorem refQualifier (ref : Option Reference) :
    M.Writes (Print.refQualifier ref) (Print.refQualifier ref) := by
  rcases ref with _ | (_ | _)
  · exact pure trivial
  · exact write _
  · exact write _

theorem currentIndex (size : Nat) :
    M.Follows (Print.currentIndex size) (Print.currentIndex size) Eq := by
  refine get.bind ?_
  rintro _ canvas rfl
  rw [show (M.around.put canvas).pack = canvas.pack from rfl]
  split
  · exact pure rfl
  · apply Follows.bind
      (modified (fun canvas => { canvas with pack := some ⟨0, size⟩ }) (fun _ => rfl) fun _ =>
        ⟨M.growth.refl _, rfl, fun _ => nofun⟩)
    intro _ _ _
    exact pure rfl

include law

theorem node {a b : NodeId} (h : M.name a b) :
    M.Follows (Print.node M.tree a) (Print.node M.tree' b) (Node.Alike M.likeness) := by
  refine fun canvas => ⟨?_, .ok (.refl _) (law.node h)⟩
  rintro access rfl
  exact law.looksAtNode h

theorem elements {run run' : NodeList} (h : M.list run run') :
    M.Follows (Print.elements M.tree run) (Print.elements M.tree' run')
      (List.Forall₂ M.name) := by
  refine fun canvas => ⟨?_, .ok (.refl _) (law.elements h)⟩
  rintro access rfl
  exact law.looksAtList h

theorem element {run run' : NodeList} (h : M.list run run') (index : Nat) :
    M.Follows (Print.element M.tree run index) (Print.element M.tree' run' index)
      (Option.Rel M.name) := by
  refine fun canvas => ⟨?_, .ok (.refl _) (law.element index h)⟩
  rintro access rfl
  exact law.looksAtList h

theorem bytes {t t' : Text} (h : M.text t t') :
    M.Follows (Print.bytes M.symbol t) (Print.bytes M.symbol' t')
      fun r r' => r = t.resolve M.symbol ∧ r = r' := by
  refine fun canvas => ⟨?_, .ok (.refl _) ⟨rfl, law.bytes h⟩⟩
  rintro access rfl
  exact law.looksAtText h

theorem currentElement {run run' : NodeList} (h : M.list run run') :
    M.Follows (Print.currentElement M.tree run) (Print.currentElement M.tree' run')
      (Option.Rel M.name) := by
  unfold Print.currentElement
  rw [law.length h]
  refine (currentIndex _).bind ?_
  rintro index _ rfl
  exact element law h index

/-! ## Looking through references -/

theorem hasTailWithin (tail : Tail) (steps : Nat) {a b : NodeId} (h : M.name a b) :
    M.Follows (Print.hasTailWithin M.tree tail steps a)
      (Print.hasTailWithin M.tree' tail steps b) Eq := by
  induction steps generalizing a b with
  | zero => exact pure rfl
  | succ steps ih =>
    apply (node law h).bind
    intro node node' hnode
    cases hnode with
    | qualified quals htype => exact ih htype
    | templateParam htarget => exact ih htarget
    | forwardParam index htarget =>
      cases law.target htarget with
      | some hfound => exact ih hfound
      | none => exact pure rfl
    | parameterPack helements =>
      apply (currentElement law helements).bind
      intro element element' helement
      cases helement with
      | some helement => exact ih helement
      | none => exact pure rfl
    | pointer hpointee => exact ite (ih hpointee) (pure rfl)
    | reference kind hpointee => exact ite (ih hpointee) (pure rfl)
    | memberPointer hscope hmember => exact ite (ih hmember) (pure rfl)
    | _ => exact pure rfl

theorem hasTail (tail : Tail) {a b : NodeId} (h : M.name a b) :
    M.Follows (Print.hasTail M.tree tail a) (Print.hasTail M.tree' tail b) Eq :=
  hasTailWithin law tail _ h

theorem hasArrayOrFunction {a b : NodeId} (h : M.name a b) :
    M.Follows (Print.hasArrayOrFunction M.tree a) (Print.hasArrayOrFunction M.tree' b) Eq := by
  refine (hasTail law .array h).bind ?_
  rintro isArray _ rfl
  exact ite (pure rfl) (hasTail law .function h)

theorem behindWithin (steps : Nat) {a b : NodeId} (h : M.name a b) :
    M.Follows (Print.behindWithin M.tree steps a) (Print.behindWithin M.tree' steps b)
      M.name := by
  induction steps generalizing a b with
  | zero => exact pure h
  | succ steps ih =>
    apply (node law h).bind
    intro node node' hnode
    cases hnode with
    | templateParam htarget => exact ih htarget
    | forwardParam index htarget =>
      cases law.target htarget with
      | some hfound => exact ih hfound
      | none => exact pure h
    | parameterPack helements =>
      apply (currentElement law helements).bind
      intro element element' helement
      cases helement with
      | some helement => exact ih helement
      | none => exact pure h
    | _ => exact pure h

theorem collapseWithin (steps : Nat) (kind : Reference) {a b : NodeId} (h : M.name a b) :
    M.Follows (Print.collapseWithin M.tree steps kind a)
      (Print.collapseWithin M.tree' steps kind b)
      (Option.Rel fun r r' => r.1 = r'.1 ∧ M.name r.2 r'.2) := by
  induction steps generalizing kind a b with
  | zero => exact pure .none
  | succ steps ih =>
    apply (behindWithin law _ h).bind
    intro c d hbehind
    apply (node law hbehind).bind
    intro node node' hnode
    cases hnode with
    | reference inner hpointee => exact ih _ hpointee
    | _ => exact pure (.some ⟨rfl, h⟩)

theorem baseNameWithin (steps : Nat) {a b : NodeId} (h : M.name a b) :
    M.Follows (Print.baseNameWithin M.tree steps a) (Print.baseNameWithin M.tree' steps b)
      M.text := by
  induction steps generalizing a b with
  | zero => exact pure (law.words "")
  | succ steps ih =>
    apply (node law h).bind
    intro node node' hnode
    cases hnode with
    | name htext => exact pure htext
    | abbreviation short => exact pure (law.words _)
    | expandedAbbreviation short => exact pure (law.words _)
    | nestedName hscope hname => exact ih hname
    | qualifiedName hscope hname => exact ih hname
    | instantiation hname hargs => exact ih hname
    | stdName hname => exact ih hname
    | abiTagged hbase htag => exact ih hbase
    | templateParam htarget => exact ih htarget
    | forwardParam index htarget =>
      cases law.target htarget with
      | some hfound => exact ih hfound
      | none => exact pure (law.words "")
    | _ => exact pure (law.words "")

end Follows

/-! ## Steps of a speller -/

variable (M) in
def Halves (half half' : Half → NodeId → Print Unit) : Prop :=
  ∀ side a b, M.name a b → M.Writes (half side a) (half' side b)

variable (M) in
abbrev first (half : Half → NodeId → Print Unit) : Speller :=
  ⟨M.symbol, M.tree, half⟩

variable (M) in
abbrev second (half' : Half → NodeId → Print Unit) : Speller :=
  ⟨M.symbol', M.tree', half'⟩

namespace Follows

variable {half half' : Half → NodeId → Print Unit} (halves : M.Halves half half')
include halves

theorem spell {a b : NodeId} (h : M.name a b) :
    M.Writes ((M.first half).spell a) ((M.second half').spell b) := by
  apply (halves .left a b h).seq
  exact halves .right a b h

theorem parenthesized {a b : NodeId} (h : M.name a b) :
    M.Writes ((M.first half).parenthesized a) ((M.second half').parenthesized b) := by
  apply (write _).seq
  apply (spell halves h).seq
  exact write _

theorem inBrackets {o o' : Option NodeId} (h : Option.Rel M.name o o') :
    M.Writes ((M.first half).inBrackets o) ((M.second half').inBrackets o') := by
  apply (write _).seq
  apply (ifAny h fun _ _ h => spell halves h).seq
  exact write _

theorem separated {ids ids' : List NodeId} (h : List.Forall₂ M.name ids ids') (isFirst : Bool) :
    M.Writes ((M.first half).separated isFirst ids) ((M.second half').separated isFirst ids') := by
  induction h generalizing isFirst with
  | nil => exact pure trivial
  | cons hid _ ih =>
    intro canvas
    refine .written ?_
    apply FollowsFrom.bind (whenever _ (write _) canvas)
    intro _ _ comma later _
    refine .written ?_
    apply FollowsFrom.bind (.of (spell halves hid) later)
    intro _ _ after later _
    refine .written ?_
    simp only [Nat.add_left_cancel_iff]
    -- an element that spells nothing is taken back with its comma
    refine .ite ?_ (.of (ih false) later)
    apply (FollowsFrom.truncate later).bind
    intro _ _ _ later _
    exact .of (ih isFirst) later

theorem laterElements {a b : NodeId} (h : M.name a b) (size : Nat) (indices : List Nat) :
    M.Writes ((M.first half).laterElements a size indices)
      ((M.second half').laterElements b size indices) := by
  induction indices with
  | nil => exact pure trivial
  | cons index rest ih =>
    apply (write _).seq
    refine Follows.bind (modified _ (fun _ => rfl) fun _ => ⟨M.growth.refl _, rfl, fun _ => nofun⟩) ?_
    intro _ _ _
    apply (spell halves h).seq
    exact ih

theorem expandOnce {a b : NodeId} (h : M.name a b) :
    M.Writes ((M.first half).expandOnce a) ((M.second half').expandOnce b) := by
  intro canvas
  refine .written ?_
  apply FollowsFrom.bind (spell halves h canvas)
  intro _ _ after later _
  refine FollowsFrom.bind (.of get later) ?_
  rintro _ now after later rfl
  rw [show (M.around.put now).pack = now.pack from rfl]
  split
  · exact .of (write _) later
  · exact .ite (.truncate later) (.of (laterElements halves h _ _) later)

theorem expand {a b : NodeId} (h : M.name a b) :
    M.Writes ((M.first half).expand a) ((M.second half').expand b) := by
  intro canvas
  obtain ⟨looks, outcome⟩ := expandOnce halves h { canvas with pack := none }
  refine ⟨looks, ?_⟩
  have alone : { M.around.put canvas with pack := none } =
      M.around.put { canvas with pack := none } := rfl
  simp only [Speller.expand, alone]
  obtain ⟨_, _, after, hr, hr', later, -⟩ | ⟨fault, _, _, hr, hr', allowed⟩ |
    ⟨fault, _, hr, allowed, gone⟩ := outcome.elim
  · simp only [hr, hr']
    have kept : M.Later canvas { after with pack := canvas.pack } :=
      ⟨later.grown, later.depth, id⟩
    exact .ok kept trivial
  · simp only [hr, hr']
    exact .error allowed
  · simp only [hr]
    exact .withheld allowed gone

variable (law : M.Lawful)
include law

omit halves in
theorem text {t t' : Text} (h : M.text t t') :
    M.Writes ((M.first half).text t) ((M.second half').text t') := by
  refine (bytes law h).bind ?_
  rintro words _ ⟨rfl, rfl⟩
  exact writeBytes fun out => law.written out h

omit halves in
theorem number {t t' : Text} (h : M.text t t') :
    M.Writes ((M.first half).number t) ((M.second half').number t') := by
  refine (bytes law h).bind ?_
  rintro digits _ ⟨rfl, rfl⟩
  split
  · rename_i signed
    apply (write _).seq
    exact writeBytes fun out => law.digits out h signed
  · exact writeBytes fun out => law.written out h

omit halves in
theorem float (format : FloatFormat) {t t' : Text} (h : M.bits format t t') :
    M.Writes ((M.first half).float format t) ((M.second half').float format t') := by
  refine (bytes law (law.bits h)).bind ?_
  rintro digits _ ⟨hdigits, rfl⟩
  cases hwords : HexFloat.spelling? format digits.data.toList with
  | some words => exact write words
  | none => exact throw (law.float h (hdigits ▸ hwords))

theorem list {run run' : NodeList} (h : M.list run run') :
    M.Writes ((M.first half).list run) ((M.second half').list run') := by
  apply (elements law h).bind
  intro _ _ h
  exact separated halves h true

theorem parenthesizedList {run run' : NodeList} (h : M.list run run') :
    M.Writes ((M.first half).parenthesizedList run) ((M.second half').parenthesizedList run') := by
  apply (write _).seq
  apply (list halves law h).seq
  exact write _

theorem closureParams {a b : NodeId} (h : M.name a b) :
    M.Writes ((M.first half).closureParams a) ((M.second half').closureParams b) := by
  apply (node law h).bind
  intro node node' hnode
  cases hnode with
  | closureType hparams hcount => exact parenthesizedList halves law hparams
  | _ => exact pure trivial

theorem initializer {a b : NodeId} (h : M.name a b) :
    M.Writes ((M.first half).initializer a) ((M.second half').initializer b) := by
  apply (node law h).bind
  intro node node' hnode
  refine Follows.bind (Q := fun _ _ => True) ?_ fun _ _ _ => spell halves h
  cases hnode with
  | fieldInit | indexInit | rangeInit => exact pure trivial
  | _ => exact write _

omit halves in
theorem openDeclarator {a b : NodeId} (h : M.name a b) :
    M.Writes ((M.first half).openDeclarator a) ((M.second half').openDeclarator b) := by
  refine (hasTail law .array h).bind ?_
  rintro isArray _ rfl
  apply (whenever _ (write _)).seq
  refine (hasArrayOrFunction law h).bind ?_
  rintro isTail _ rfl
  exact whenever _ (write _)

theorem closeDeclarator {a b : NodeId} (h : M.name a b) :
    M.Writes ((M.first half).closeDeclarator a) ((M.second half').closeDeclarator b) := by
  refine (hasArrayOrFunction law h).bind ?_
  rintro isTail _ rfl
  apply (whenever _ (write _)).seq
  exact halves .right _ _ h

/-! ## Halves -/

omit law in
theorem binary {a a' b b' : NodeId} (symbol : String) (hleft : M.name a a')
    (hright : M.name b b') :
    M.Writes ((M.first half).binary a symbol b) ((M.second half').binary a' symbol b') := by
  apply (whenever _ (write _)).seq
  apply (parenthesized halves hleft).seq
  apply (write _).seq
  apply (write _).seq
  apply (write _).seq
  apply (parenthesized halves hright).seq
  exact whenever _ (write _)

omit halves law in
theorem foldOperator (symbol : String) :
    M.Writes (Speller.foldOperator symbol) (Speller.foldOperator symbol) := by
  apply (write _).seq
  apply (write _).seq
  exact write _

omit law in
theorem packInParentheses {a b : NodeId} (h : M.name a b) :
    M.Writes (Speller.fold.packInParentheses (M.first half) a)
      (Speller.fold.packInParentheses (M.second half') b) := by
  apply (write _).seq
  apply (expand halves h).seq
  exact write _

omit law in
theorem fold (fromLeft : Bool) (symbol : String) {a b : NodeId} {o o' : Option NodeId}
    (hpack : M.name a b) (hinit : Option.Rel M.name o o') :
    M.Writes ((M.first half).fold fromLeft symbol a o)
      ((M.second half').fold fromLeft symbol b o') := by
  apply (write _).seq
  refine Follows.seq (Q := fun _ _ => True) (ite ?_ ?_) (write _)
  · refine Follows.seq (Q := fun _ _ => True) (ifAny hinit ?_) ?_
    · intro init init' h
      apply (spell halves h).seq
      exact foldOperator symbol
    · apply (write _).seq
      apply (foldOperator symbol).seq
      exact packInParentheses halves hpack
  · apply (packInParentheses halves hpack).seq
    apply (foldOperator symbol).seq
    apply (write _).seq
    apply ifAny hinit
    intro init init' h
    apply (foldOperator symbol).seq
    exact spell halves h

theorem newExpression {run run' later later' : NodeList} {a b : NodeId} (isGlobal isArray : Bool)
    (hplacement : M.list run run') (htype : M.name a b) (hinits : M.list later later') :
    M.Writes ((M.first half).newExpression run a later isGlobal isArray)
      ((M.second half').newExpression run' b later' isGlobal isArray) := by
  have sameEmpty {run run' : NodeList} (h : M.list run run') : run.isEmpty = run'.isEmpty := by
    rw [NodeList.isEmpty, NodeList.isEmpty, law.length h]
  unfold Speller.newExpression
  rw [sameEmpty hplacement, sameEmpty hinits]
  apply (whenever _ (write _)).seq
  apply (write _).seq
  apply (whenever _ (write _)).seq
  apply (write _).seq
  refine Follows.bind (Q := fun _ _ => True) (whenever _ ?_) fun _ _ _ => ?_
  · apply (parenthesizedList halves law hplacement).seq
    exact write _
  · apply (spell halves htype).seq
    exact whenever _ (parenthesizedList halves law hinits)

theorem behindFunction {o o' : Option NodeId} {run run' : NodeList} (quals : Qualifiers)
    (ref : Option Reference) (hresult : Option.Rel M.name o o') (hparams : M.list run run') :
    M.Writes ((M.first half).behindFunction o run quals ref)
      ((M.second half').behindFunction o' run' quals ref) := by
  apply (parenthesizedList halves law hparams).seq
  apply (ifAny hresult fun _ _ h => halves .right _ _ h).seq
  apply (Follows.quals quals).seq
  exact refQualifier ref

theorem left {node node' : Node} (h : Node.Alike M.likeness node node') :
    M.Writes ((M.first half).left node) ((M.second half').left node') := by
  cases h with
  | name ht => exact text law ht
  | nestedName ha hb | localName ha hb | qualifiedName ha hb =>
    apply (spell halves ha).seq
    apply (write _).seq
    exact spell halves hb
  | stdName ha | globalName ha => exact (write _).seq (spell halves ha)
  | instantiation ha hb => exact (spell halves ha).seq (spell halves hb)
  | templateArgs hl =>
    apply (write _).seq
    apply (list halves law hl).seq
    refine lastByte.bind ?_
    intro last last' same
    rw [same 62 (by decide)]
    apply (whenever _ (write _)).seq
    exact write _
  | abiTagged ha ht =>
    apply (halves .left _ _ ha).seq
    apply (write _).seq
    apply (text law ht).seq
    exact write _
  | constructorName ha =>
    apply (baseNameWithin law _ ha).bind
    intro _ _ ht
    exact text law ht
  | destructorName ha =>
    apply (write _).seq
    apply (baseNameWithin law _ ha).bind
    intro _ _ ht
    exact text law ht
  | destroyed ha => exact (write _).seq (halves .left _ _ ha)
  | conversionName ha | literalOperator ha =>
    apply (write _).seq
    exact spell halves ha
  | unnamedType ht =>
    apply (write _).seq
    apply (text law ht).seq
    exact write _
  | closureType hl ht =>
    apply (write _).seq
    apply (text law ht).seq
    apply (write _).seq
    exact parenthesizedList halves law hl
  | structuredBinding hl =>
    apply (write _).seq
    apply (list halves law hl).seq
    exact write _
  | abbreviation short => exact (write _).seq (write _)
  | expandedAbbreviation short => exact write _
  | function quals ref hresult hname hparams =>
    refine Follows.bind (Q := fun _ _ => True) (ifAny hresult fun _ _ h => ?_) fun _ _ _ =>
      spell halves hname
    apply (halves .left _ _ h).seq
    refine (hasTail law .any h).bind ?_
    rintro isTail _ rfl
    exact whenever _ (write _)
  | special title ha => exact (write _).seq (spell halves ha)
  | constructionVtable ha hb =>
    apply (write _).seq
    apply (spell halves ha).seq
    apply (write _).seq
    exact spell halves hb
  | clone ha ht =>
    apply (spell halves ha).seq
    apply (write _).seq
    apply (text law ht).seq
    exact write _
  | templateParam ha => exact halves .left _ _ ha
  | @forwardParam index o o' ho =>
    cases o with
    | none =>
      cases o' with
      | none => exact throw (law.waits ho rfl)
      | some => cases law.target ho
    | some =>
      cases o' with
      | none => cases law.target ho
      | some =>
        cases law.target ho with
        | some hfound => exact halves .left _ _ hfound
  | qualified quals ha => exact (halves .left _ _ ha).seq (Follows.quals quals)
  | vendorQualified ha ht =>
    apply (spell halves ha).seq
    apply (write _).seq
    exact text law ht
  | trailingQualified words ha => exact (halves .left _ _ ha).seq (write _)
  | elaborated keyword ha =>
    apply (write _).seq
    apply (write _).seq
    exact spell halves ha
  | pointer ha =>
    apply (halves .left _ _ ha).seq
    apply (openDeclarator law ha).seq
    exact write _
  | reference kind ha =>
    apply (collapseWithin law _ kind ha).bind
    intro found found' hfound
    cases hfound with
    | none => exact pure trivial
    | @some r r' hr =>
      obtain ⟨kind, pointee⟩ := r
      obtain ⟨kind', pointee'⟩ := r'
      obtain ⟨hkind, hpointee⟩ := hr
      obtain rfl : kind = kind' := hkind
      apply (halves .left _ _ hpointee).seq
      apply (openDeclarator law hpointee).seq
      exact write _
  | memberPointer ha hb =>
    apply (halves .left _ _ hb).seq
    refine (hasArrayOrFunction law hb).bind ?_
    rintro isTail _ rfl
    apply (write _).seq
    apply (spell halves ha).seq
    exact write _
  | array ha ho => exact halves .left _ _ ha
  | functionType quals ref ha hl ho => exact (halves .left _ _ ha).seq (write _)
  | noexceptSpec ha => exact (write _).seq (parenthesized halves ha)
  | throwSpec hl => exact (write _).seq (parenthesizedList halves law hl)
  | vector ha ho =>
    apply (spell halves ha).seq
    apply (write _).seq
    exact inBrackets halves ho
  | pixelVector ha => exact (write _).seq (inBrackets halves (.some ha))
  | binaryFloat ht => exact (write _).seq (text law ht)
  | argumentPack hl | elements hl => exact list halves law hl
  | parameterPack hl =>
    apply (currentElement law hl).bind
    intro _ _ h
    exact ifAny h fun _ _ h => halves .left _ _ h
  | expansion ha => exact expand halves ha
  | binary symbol ha hb => exact Follows.binary halves symbol ha hb
  | leading symbol ha => exact (write _).seq (parenthesized halves ha)
  | trailing symbol ha => exact (parenthesized halves ha).seq (write _)
  | subscript ha hb =>
    apply (parenthesized halves ha).seq
    exact inBrackets halves (.some hb)
  | member symbol ha hb =>
    apply (spell halves ha).seq
    apply (write _).seq
    exact spell halves hb
  | conditional ha hb hc =>
    apply (parenthesized halves ha).seq
    apply (write _).seq
    apply (parenthesized halves hb).seq
    apply (write _).seq
    exact parenthesized halves hc
  | call ha hl => exact (spell halves ha).seq (parenthesizedList halves law hl)
  | new isGlobal isArray hl ha hm =>
    exact newExpression halves law isGlobal isArray hl ha hm
  | delete isGlobal isArray ha =>
    apply (whenever _ (write _)).seq
    apply (write _).seq
    apply (whenever _ (write _)).seq
    apply (write _).seq
    exact spell halves ha
  | namedCast keyword ha hb =>
    apply (write _).seq
    apply (write _).seq
    apply (spell halves ha).seq
    apply (write _).seq
    exact parenthesized halves hb
  | conversion ha hl =>
    apply (parenthesized halves ha).seq
    exact parenthesizedList halves law hl
  | enclosing words ha => exact (write _).seq (parenthesized halves ha)
  | initList ho hl =>
    apply (ifAny ho fun _ _ h => spell halves h).seq
    apply (write _).seq
    apply (list halves law hl).seq
    exact write _
  | fieldInit ha hb =>
    apply (write _).seq
    apply (spell halves ha).seq
    exact initializer halves law hb
  | indexInit ha hb =>
    apply (inBrackets halves (.some ha)).seq
    exact initializer halves law hb
  | rangeInit ha hb hc =>
    apply (write _).seq
    apply (spell halves ha).seq
    apply (write _).seq
    apply (spell halves hb).seq
    apply (write _).seq
    exact initializer halves law hc
  | throw ha => exact (write _).seq (spell halves ha)
  | fold fromLeft symbol ha ho => exact Follows.fold halves fromLeft symbol ha ho
  | functionParam ht => exact (write _).seq (text law ht)
  | integer type ht =>
    cases type with
    | cast words =>
      apply (write _).seq
      apply (write _).seq
      apply (write _).seq
      exact number law ht
    | suffix letters => exact (number law ht).seq (write _)
  | boolean value => exact write _
  | float format hbits => exact Follows.float law format hbits
  | enumerator ha ht => exact (parenthesized halves ha).seq (number law ht)
  | stringLiteral ha =>
    apply (write _).seq
    apply (spell halves ha).seq
    exact write _
  | lambdaLiteral ha =>
    apply (write _).seq
    apply (closureParams halves law ha).seq
    exact write _
  | packSize ha =>
    apply (write _).seq
    apply (expand halves ha).seq
    exact write _

theorem right {node node' : Node} (h : Node.Alike M.likeness node node') :
    M.Writes ((M.first half).right node) ((M.second half').right node') := by
  cases h with
  | qualified quals ha => exact halves .right _ _ ha
  | templateParam ha => exact halves .right _ _ ha
  | @forwardParam index o o' ho =>
    cases o with
    | none =>
      cases o' with
      | none => exact throw (law.waits ho rfl)
      | some => cases law.target ho
    | some =>
      cases o' with
      | none => cases law.target ho
      | some =>
        cases law.target ho with
        | some hfound => exact halves .right _ _ hfound
  | function quals ref hresult hname hparams =>
    exact behindFunction halves law quals ref hresult hparams
  | pointer ha => exact closeDeclarator halves law ha
  | memberPointer ha hb => exact closeDeclarator halves law hb
  | reference kind ha =>
    apply (collapseWithin law _ kind ha).bind
    intro found found' hfound
    cases hfound with
    | none => exact pure trivial
    | some hr => exact closeDeclarator halves law hr.2
  | array ha ho =>
    refine lastByte.bind ?_
    intro last last' same
    rw [bne, bne, same 93 (by decide)]
    apply (whenever _ (write _)).seq
    apply (inBrackets halves ho).seq
    exact halves .right _ _ ha
  | functionType quals ref ha hl ho =>
    apply (behindFunction halves law quals ref (.some ha) hl).seq
    apply ifAny ho
    intro exception exception' h
    apply (write _).seq
    exact spell halves h
  | parameterPack hl =>
    apply (currentElement law hl).bind
    intro _ _ h
    exact ifAny h fun _ _ h => halves .right _ _ h
  | _ => exact pure trivial

theorem side (half₀ : Half) {a b : NodeId} (h : M.name a b) :
    M.Writes (Speller.side (M.first half) half₀ a) (Speller.side (M.second half') half₀ b) := by
  cases half₀ with
  | left =>
    apply (node law h).bind
    intro _ _ hnode
    exact left halves law hnode
  | right =>
    apply (node law h).bind
    intro _ _ hnode
    exact right halves law hnode

omit halves law in
theorem nested {p p' : Print Unit} (h : M.Writes p p') :
    M.Writes (Print.nested p) (Print.nested p') := by
  intro canvas
  have deeper : M.around.put { canvas with depth := canvas.depth + 1 } =
      { M.around.put canvas with depth := (M.around.put canvas).depth + 1 } := by
    simp only [Surroundings.put, Canvas.mk.injEq, true_and]
    omega
  obtain ⟨looks, outcome⟩ := h { canvas with depth := canvas.depth + 1 }
  rw [deeper] at looks outcome
  refine ⟨looks, ?_⟩
  obtain ⟨_, _, after, hr, hr', later, -⟩ | ⟨fault, _, _, hr, hr', allowed⟩ |
    ⟨fault, _, hr, allowed, gone⟩ := outcome.elim
  · have back : { M.around.put after with depth := (M.around.put after).depth - 1 } =
        M.around.put { after with depth := after.depth - 1 } := by
      have := later.depth
      simp only [Surroundings.put, Canvas.mk.injEq, true_and] at this ⊢
      omega
    simp only [Print.nested, hr, hr', back]
    refine .ok ⟨later.grown, ?_, later.met⟩ trivial
    have := later.depth
    simp only at this ⊢
    omega
  · simp only [Print.nested, hr, hr']
    exact .error allowed
  · simp only [Print.nested, hr]
    exact .withheld allowed gone

omit halves law in
/-- A step that ends at a limit, where the other may go on. -/
theorem ended {fault : Fault} {p' : Print Unit} (allowed : M.fault fault)
    (gone : M.withheld fault) : M.Writes (Print.throw fault) p' :=
  fun _ => ⟨fun _ h => h.elim, .withheld allowed gone⟩

omit halves in
/-- One level deeper the same is spelled, up to the limits. -/
theorem deeper {limits limits' : SpellingLimits} (within : M.Limits limits limits')
    {p p' : Print Unit} (h : M.Writes p p') :
    M.Writes (Print.deeper limits p) (Print.deeper limits' p') := by
  refine get.bind ?_
  rintro _ canvas rfl
  refine get.bind ?_
  rintro _ canvas' rfl
  rcases within.same with ⟨long, deep⟩ | ⟨rfl, alone⟩
  · have length := within.length
    have depth := within.depth
    have written : (M.around.put canvas).out.size = M.around.before.size + canvas.out.size :=
      ByteArray.size_append
    have around : (M.around.put canvas').depth = canvas'.depth + M.around.nesting := rfl
    by_cases tooLong : limits.maxLength < (M.around.put canvas).out.size
    · rw [if_pos tooLong]
      exact ended law.tooLong long
    · by_cases tooDeep : limits.maxDepth ≤ (M.around.put canvas').depth + 1
      · rw [if_neg tooLong, if_pos tooDeep]
        exact ended law.tooMuchRecursion deep
      · rw [if_neg tooLong, if_neg tooDeep, if_neg (by omega), if_neg (by omega)]
        exact nested h
  · rw [alone, Surroundings.put_none, Surroundings.put_none]
    exact ite (throw law.tooLong) (ite (throw law.tooMuchRecursion) (nested h))

end Follows

theorem Limits.refl (alone : M.around = .none) (limits : SpellingLimits) : M.Limits limits limits :=
  ⟨Nat.le_refl _, Nat.le_refl _, .inr ⟨rfl, alone⟩⟩

/-- Corresponding names are spelled the same, whatever number of levels is left. More may be
left to the second spelling if the first is given up at its limit. -/
theorem Lawful.halves (law : M.Lawful) {limits limits' : SpellingLimits}
    (within : M.Limits limits limits') {levels levels' : Nat} (least : levels ≤ levels')
    (same : M.withheld .tooLong ∧ M.withheld .tooMuchRecursion ∨ levels' = levels) :
    M.Halves (renderHalf limits M.symbol M.tree levels)
      (renderHalf limits' M.symbol' M.tree' levels') := by
  induction levels generalizing levels' with
  | zero =>
    intro side a b _
    cases levels' with
    | zero => exact Follows.deeper law within (Follows.throw law.tooMuchRecursion)
    | succ =>
      rcases same with ⟨-, gone⟩ | more
      · exact Follows.deeper law within (Follows.ended law.tooMuchRecursion gone)
      · cases more
  | succ levels ih =>
    obtain ⟨levels', rfl⟩ := Nat.exists_eq_add_one_of_ne_zero (Nat.ne_zero_of_lt least)
    have deeper := ih (Nat.le_of_succ_le_succ least) (same.imp_right Nat.succ.inj)
    exact fun half _ _ h => Follows.deeper law within (Follows.side deeper law half h)

theorem Lawful.rendering (law : M.Lawful) {limits limits' : SpellingLimits}
    (within : M.Limits limits limits') {a b : NodeId} (h : M.name a b) :
    M.Writes (rendering limits M.symbol M.tree a) (rendering limits' M.symbol' M.tree' b) :=
  Follows.spell (law.halves within within.depth
    (within.same.imp_right fun same => congrArg SpellingLimits.maxDepth same.1)) h

/-- Spelling a corresponding root looks only at what it may look at. -/
theorem Lawful.looks (law : M.Lawful) (alone : M.around = .none) (limits : SpellingLimits)
    {a b : NodeId} (h : M.name a b) (access : Access)
    (looked : (Unmangle.rendering limits M.symbol M.tree a).looksAt {} access) :
    M.access access := by
  have looks := (law.rendering (.refl alone limits) h {}).1
  rw [alone, Surroundings.put_none] at looks
  exact looks access looked

/-- Corresponding roots come out the same, or fail with the same fault, unless the first is
withheld. -/
theorem Lawful.render (law : M.Lawful) (alone : M.around = .none) {limits limits' : SpellingLimits}
    (within : M.Limits limits limits') {a b : NodeId} (h : M.name a b) :
    render limits M.symbol M.tree a = render limits' M.symbol' M.tree' b ∨
      ∃ fault, render limits M.symbol M.tree a = .error fault ∧ M.withheld fault := by
  have outcome := (law.rendering within h {}).2
  rw [alone, Surroundings.put_none] at outcome
  obtain ⟨_, _, after, hr, hr', -⟩ | ⟨fault, _, _, hr, hr', -⟩ | ⟨fault, _, hr, -, gone⟩ :=
    outcome.elim
  · rw [alone, Surroundings.put_none] at hr
    exact .inl (by simp only [Unmangle.render, hr, hr'])
  · exact .inl (by simp only [Unmangle.render, hr, hr'])
  · exact .inr ⟨fault, by simp only [Unmangle.render, hr], gone⟩

/-- A corresponding root fails in no other way than allowed, and what it comes out as has
grown from nothing. -/
theorem Lawful.outcome_of_render (law : M.Lawful) (alone : M.around = .none)
    (limits : SpellingLimits) {a b : NodeId} (h : M.name a b) :
    (∃ out, Unmangle.render limits M.symbol M.tree a = .ok out ∧ M.growth.rel .empty out) ∨
      ∃ fault, Unmangle.render limits M.symbol M.tree a = .error fault ∧ M.fault fault := by
  have outcome := (law.rendering (.refl alone limits) h {}).2
  rw [alone, Surroundings.put_none] at outcome
  obtain ⟨_, _, after, hr, -, later, -⟩ | ⟨fault, _, _, hr, -, allowed⟩ |
    ⟨fault, _, hr, allowed, -⟩ := outcome.elim
  · rw [alone, Surroundings.put_none] at hr
    exact .inl ⟨after.out, by simp only [Unmangle.render, hr], later.grown⟩
  · exact .inr ⟨fault, by simp only [Unmangle.render, hr], allowed⟩
  · exact .inr ⟨fault, by simp only [Unmangle.render, hr], allowed⟩

end Unmangle.Mirror
