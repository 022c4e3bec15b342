import Unmangle.Proofs.Output.Paired

/-!
# Every kind of node

What the left half of each kind of node adds, and what a declarator opens and closes.
-/
namespace Unmangle

namespace Script

open Print

variable {script : Script} {index : Nat} {opened : List Bracket} {speller : Speller}

/-- What a constructor is called is allowed as a name, like the names of the tree. -/
theorem looks_baseName (fits : ∀ id, script.Fits speller.symbol speller.tree (speller.tree.node id))
    (id : NodeId) :
    Looks index (baseName speller.tree id) fun text => ∀ opened,
      script.Adds index opened opened (speller.text text) := by
  obtain ⟨text, finds, kind⟩ := looks_baseNameWithin index speller.tree chainLimit id
  refine ⟨text, finds, fun opened => ?_⟩
  obtain ⟨id, held⟩ | ⟨short, rfl⟩ | rfl := kind
  · have named := fits id
    rw [held] at named
    exact adds_text named
  · refine .look (.bytes _ _) ?_
    cases short <;> exact adds_write (by decide)
  · exact .look (.bytes _ _) (.writeBytes (script.nil opened))

theorem adds_foldOperator {words : String} (allowed : script.word words) (opened : List Bracket) :
    script.Adds index opened opened (Speller.foldOperator words) :=
  .andThen (adds_write (by decide)) <| .andThen (adds_word allowed) (adds_write (by decide))

theorem adds_float (format : FloatFormat) (bits : Text) :
    script.Adds index opened opened (speller.float format bits) := by
  refine .look (.bytes _ _) ?_
  split
  · exact adds_write (HexFloat.plain_spelling ‹_›)
  · exact .throw _

section Left

variable (pairs : script.Pairs speller.tree speller.half)
include pairs

theorem adds_binary {words : String} (allowed : script.word words) (left right : NodeId) :
    script.Adds index opened opened (speller.binary left words right) := by
  by_cases closing : words == ">"
  · simp only [Speller.binary, whenever, closing, if_true]
    exact .andThen (adds_bracket rfl (by decide)) <| .andThen (adds_parenthesized pairs left) <|
      .andThen (adds_write (by decide)) <| .andThen (adds_word allowed) <|
      .andThen (adds_write (by decide)) <| .andThen (adds_parenthesized pairs right) <|
      adds_bracket rfl (by decide)
  · simp only [Speller.binary, whenever, closing]
    exact .andThen .pure <| .andThen (adds_parenthesized pairs left) <|
      .andThen (adds_write (by decide)) <| .andThen (adds_word allowed) <|
      .andThen (adds_write (by decide)) <| .andThen (adds_parenthesized pairs right) .pure

theorem adds_packInParentheses (pack : NodeId) (opened : List Bracket) :
    script.Adds index opened opened (Speller.fold.packInParentheses speller pack) :=
  .andThen (adds_bracket rfl (by decide)) <| .andThen (adds_expand pairs pack) <|
    adds_bracket rfl (by decide)

theorem adds_fold {words : String} (allowed : script.word words) (fromLeft : Bool) (pack : NodeId)
    (init : Option NodeId) :
    script.Adds index opened opened (speller.fold fromLeft words pack init) := by
  have inside : script.Adds index (.round :: opened) (.round :: opened)
      (if fromLeft then Speller.fold.onTheLeft speller words pack init
        else Speller.fold.onTheRight speller words pack init) := by
    refine .ite ?_ ?_
    · refine .andThen (.ifAny fun id => .andThen (adds_spell pairs _ id) (adds_foldOperator allowed _)) ?_
      exact .andThen (adds_write (by decide)) <| .andThen (adds_foldOperator allowed _) <|
        adds_packInParentheses pairs pack _
    · refine .andThen (adds_packInParentheses pairs pack _) <|
        .andThen (adds_foldOperator allowed _) (.andThen (adds_write (by decide)) (.ifAny fun id => ?_))
      exact .andThen (adds_foldOperator allowed _) (adds_spell pairs _ id)
  exact .andThen (adds_bracket rfl (by decide)) (.andThen inside (adds_bracket rfl (by decide)))

theorem adds_newExpression (placement : NodeList) (type : NodeId) (inits : NodeList)
    (isGlobal isArray : Bool) :
    script.Adds index opened opened
      (speller.newExpression placement type inits isGlobal isArray) := by
  refine .andThen (.whenever (adds_write (by decide))) <| .andThen (adds_write (by decide)) <|
    .andThen (.whenever (adds_write (by decide))) <| .andThen (adds_write (by decide)) <|
    .andThen (.whenever ?_) <| .andThen (adds_spell pairs _ type) (.whenever ?_)
  · exact .andThen (adds_parenthesizedList pairs placement) (adds_write (by decide))
  · exact adds_parenthesizedList pairs inits

/-- Most nodes are spelled before the declared name. -/
theorem adds_left (fits : ∀ id, script.Fits speller.symbol speller.tree (speller.tree.node id))
    {node : Node} (allowed : script.Fits speller.symbol speller.tree node)
    (single : node.Declares = false) : script.Adds index opened opened (speller.left node) := by
  have spell (opened : List Bracket) (id : NodeId) :
      script.Adds index opened opened (speller.spell id) := adds_spell pairs opened id
  have list (opened : List Bracket) (nodes : NodeList) :
      script.Adds index opened opened (speller.list nodes) := adds_list pairs nodes
  have operand (opened : List Bracket) (id : NodeId) :
      script.Adds index opened opened (speller.parenthesized id) := adds_parenthesized pairs id
  have operands (opened : List Bracket) (nodes : NodeList) :
      script.Adds index opened opened (speller.parenthesizedList nodes) :=
    adds_parenthesizedList pairs nodes
  have subscript (opened : List Bracket) (id : Option NodeId) :
      script.Adds index opened opened (speller.inBrackets id) := adds_inBrackets pairs id
  have expand (opened : List Bracket) (id : NodeId) :
      script.Adds index opened opened (speller.expand id) := adds_expand pairs id
  cases node with
  | name text => exact adds_text allowed
  | nestedName scope name | localName scope name | qualifiedName scope name =>
    exact .andThen (spell _ scope) (.andThen (adds_write (by decide)) (spell _ name))
  | stdName name | globalName name | conversionName name | literalOperator name | throw name =>
    exact .andThen (adds_write (by decide)) (spell _ name)
  | instantiation name args => exact .andThen (spell _ name) (spell _ args)
  | templateArgs args =>
    refine .andThen (adds_write (by decide)) <| .andThen (list _ args) <|
      .peek (fun canvas => ⟨_, rfl⟩) fun last => ?_
    exact .andThen (.whenever (adds_write (by decide))) (adds_write (by decide))
  | abiTagged base tag =>
    refine .andThen (adds_alone pairs allowed.1) (adds_behind rfl (by decide) (by decide) ?_)
    exact .andThen (tail_adds_text allowed.2) (tail_adds (adds_bracket rfl (by decide)))
  | constructorName base =>
    obtain ⟨text, finds, named⟩ := looks_baseName fits base
    exact .look finds (named _)
  | destructorName base =>
    obtain ⟨text, finds, named⟩ := looks_baseName fits base
    exact .andThen (adds_write (by decide)) (.look finds (named _))
  | destroyed type => exact .andThen (adds_write (by decide)) (adds_alone pairs allowed)
  | unnamedType count =>
    exact adds_behind rfl (by decide) (by decide) <| .andThen (tail_adds_text allowed) <|
      tail_adds (adds_write (by decide))
  | closureType params count =>
    exact adds_behind rfl (by decide) (by decide) <| .andThen (tail_adds_text allowed) <|
      .andThen (tail_adds (adds_write (by decide))) (tail_adds (operands _ params))
  | structuredBinding names =>
    exact .andThen (adds_bracket rfl (by decide)) <| .andThen (list _ names) <|
      adds_bracket rfl (by decide)
  | abbreviation short =>
    refine .andThen (adds_write (by decide)) ?_
    cases short <;> exact adds_write (by decide)
  | expandedAbbreviation short => cases short <;> exact adds_write (by decide)
  | special title child => exact .andThen (adds_word allowed) (spell _ child)
  | constructionVtable base derived =>
    exact .andThen (adds_write (by decide)) <| .andThen (spell _ base) <|
      .andThen (adds_write (by decide)) (spell _ derived)
  | clone encoding suffix =>
    refine .andThen (spell _ encoding) (adds_behind rfl (by decide) (by decide) ?_)
    exact .andThen (tail_adds_text allowed) (tail_adds (adds_bracket rfl (by decide)))
  | vendorQualified type extension =>
    exact .andThen (spell _ type) <| adds_behind rfl (by decide) (by decide) (tail_adds_text allowed)
  | trailingQualified type words => exact .andThen (adds_alone pairs allowed.1) (adds_word allowed.2)
  | elaborated keyword name =>
    exact .andThen (adds_word allowed) (.andThen (adds_write (by decide)) (spell _ name))
  | noexceptSpec condition => exact .andThen (adds_write (by decide)) (operand _ condition)
  | throwSpec types => exact .andThen (adds_write (by decide)) (operands _ types)
  | vector element dimension =>
    exact .andThen (spell _ element) (.andThen (adds_write (by decide)) (subscript _ dimension))
  | pixelVector dimension => exact .andThen (adds_write (by decide)) (subscript _ (some dimension))
  | binaryFloat width => exact adds_behind rfl (by decide) (by decide) (tail_adds_text allowed)
  | argumentPack elements => exact list _ elements
  | expansion pattern => exact expand _ pattern
  | functionParam number => exact adds_behind rfl (by decide) (by decide) (tail_adds_text allowed)
  | integer type value =>
    cases type with
    | cast words =>
      exact .andThen (adds_bracket rfl (by decide)) <| .andThen (adds_word allowed.1) <|
        .andThen (adds_bracket rfl (by decide)) (adds_number allowed.2)
    | suffix words => exact .andThen (adds_number allowed.2) (adds_word allowed.1)
  | boolean value => cases value <;> exact adds_write (by decide)
  | float format bits => exact adds_float format bits
  | enumerator type value => exact .andThen (operand _ type) (adds_number allowed)
  | stringLiteral type =>
    exact .andThen (adds_write (by decide)) (.andThen (spell _ type) (adds_write (by decide)))
  | lambdaLiteral type =>
    exact .andThen (adds_write (by decide)) <| .andThen (adds_closureParams pairs type) <|
      adds_write (by decide)
  | binary left symbol right => exact adds_binary pairs allowed left right
  | leading symbol id => exact .andThen (adds_word allowed) (operand _ id)
  | trailing id symbol => exact .andThen (operand _ id) (adds_word allowed)
  | subscript base index => exact .andThen (operand _ base) (subscript _ (some index))
  | member left symbol right =>
    exact .andThen (spell _ left) (.andThen (adds_word allowed) (spell _ right))
  | conditional condition yes no =>
    exact .andThen (operand _ condition) <| .andThen (adds_write (by decide)) <|
      .andThen (operand _ yes) <| .andThen (adds_write (by decide)) (operand _ no)
  | call callee args => exact .andThen (spell _ callee) (operands _ args)
  | new placement type inits isGlobal isArray =>
    exact adds_newExpression pairs placement type inits isGlobal isArray
  | delete id isGlobal isArray =>
    exact .andThen (.whenever (adds_write (by decide))) <| .andThen (adds_write (by decide)) <|
      .andThen (.whenever (adds_write (by decide))) <| .andThen (adds_write (by decide)) (spell _ id)
  | namedCast keyword type id =>
    exact .andThen (adds_word allowed) <| .andThen (adds_write (by decide)) <|
      .andThen (spell _ type) <| .andThen (adds_write (by decide)) (operand _ id)
  | conversion type ids => exact .andThen (operand _ type) (operands _ ids)
  | enclosing words inner => exact .andThen (adds_word allowed) (operand _ inner)
  | initList type inits =>
    exact .andThen (.ifAny (spell _)) <| .andThen (adds_write (by decide)) <|
      .andThen (list _ inits) (adds_write (by decide))
  | fieldInit field init =>
    exact .andThen (adds_write (by decide)) (.andThen (spell _ field) (adds_initializer pairs init))
  | indexInit index init => exact .andThen (subscript _ (some index)) (adds_initializer pairs init)
  | rangeInit first last init =>
    exact .andThen (adds_bracket rfl (by decide)) <| .andThen (spell _ first) <|
      .andThen (adds_write (by decide)) <| .andThen (spell _ last) <|
      .andThen (adds_bracket rfl (by decide)) (adds_initializer pairs init)
  | fold fromLeft symbol pack init => exact adds_fold pairs allowed fromLeft pack init
  | packSize pack =>
    exact .andThen (adds_bracket rfl (by decide)) <| .andThen (expand _ pack) <|
      adds_bracket rfl (by decide)
  | elements nodes => exact list _ nodes
  | templateParam | forwardParam | function | qualified | pointer | reference | memberPointer
  | array | functionType | parameterPack => cases single

end Left

theorem adds_quals (quals : Qualifiers) : script.Adds index opened opened (Print.quals quals) :=
  .andThen (.whenever (adds_write (by decide))) <|
    .andThen (.whenever (adds_write (by decide))) (.whenever (adds_write (by decide)))

theorem adds_refQualifier (ref : Option Reference) :
    script.Adds index opened opened (Print.refQualifier ref) := by
  rcases ref with _ | _ | _
  · exact .pure
  · exact adds_write (by decide)
  · exact adds_write (by decide)

/-- A node that declares nothing has nothing behind it. -/
theorem right_eq_pure {node : Node} (single : node.Declares = false) :
    speller.right node = Pure.pure () := by
  cases node <;> first | rfl | cases single

/-- So many parentheses lie between the halves of a declarator: those of the node that it wraps,
and one more if that is an array or a function. -/
theorem declarator_pairs (pairs : script.Pairs speller.tree speller.half) (index : Nat)
    (pointee : NodeId) :
    ∃ count has, Finds index (hasArrayOrFunction speller.tree pointee) has ∧ ∀ opened,
      script.Adds index opened (Bracket.deeper count opened) (speller.half .left pointee) ∧
      script.Adds index (Bracket.deeper (count + has.toNat) opened) opened
        (speller.closeDeclarator pointee) := by
  obtain ⟨count, -, both⟩ := pairs index pointee
  obtain ⟨has, finds, -⟩ := looks_hasArrayOrFunction index speller.tree pointee
  refine ⟨count, has, finds, fun opened => ⟨(both opened).1, .look finds ?_⟩⟩
  cases has with
  | false => exact .andThen .pure (both opened).2
  | true => exact .andThen (adds_bracket rfl (by decide)) (both opened).2

/-- Before a star a parenthesis is opened just if the pointee has a tail. -/
theorem adds_openDeclarator {pointee : NodeId} {has : Bool}
    (finds : Finds index (hasArrayOrFunction speller.tree pointee) has) (opened : List Bracket) :
    script.Adds index opened (Bracket.deeper has.toNat opened) (speller.openDeclarator pointee) := by
  obtain ⟨isArray, finds', -⟩ := looks_hasTail index speller.tree .array pointee
  refine .look finds' (.andThen (.whenever (adds_write (by decide))) (.look finds ?_))
  cases has with
  | false => exact .pure
  | true => exact adds_bracket rfl (by decide)

section Right

variable (pairs : script.Pairs speller.tree speller.half)
include pairs

/-- The parameters of a function close where they were opened, and what is open around them is
left to its result type. -/
theorem function_pairs (index : Nat) (result : Option NodeId) (params : NodeList)
    (quals : Qualifiers) (ref : Option Reference) :
    ∃ count, ∀ opened,
      script.Adds index opened (Bracket.deeper count opened) (ifAny result (speller.half .left)) ∧
      script.Adds index (Bracket.deeper count opened) opened
        (speller.behindFunction result params quals ref) := by
  have behind (opened : List Bracket) :
      script.Adds index opened opened (do Print.quals quals; Print.refQualifier ref) :=
    .andThen (adds_quals quals) (adds_refQualifier ref)
  cases result with
  | none =>
    exact ⟨0, fun opened => ⟨.pure, .andThen (adds_parenthesizedList pairs params) <|
      .andThen .pure (behind opened)⟩⟩
  | some result =>
    obtain ⟨count, -, both⟩ := pairs index result
    exact ⟨count, fun opened => ⟨(both opened).1,
      .andThen (adds_parenthesizedList pairs params) (.andThen (both opened).2 (behind opened))⟩⟩

/-- Whatever both halves of a node open they close. -/
theorem sides_pair (fits : ∀ id, script.Fits speller.symbol speller.tree (speller.tree.node id)) :
    script.Pairs speller.tree speller.side := by
  intro index id
  suffices ∃ count, ((speller.tree.node id).Declares = false → count = 0) ∧ ∀ opened,
      script.Adds index opened (Bracket.deeper count opened) (speller.left (speller.tree.node id)) ∧
      script.Adds index (Bracket.deeper count opened) opened
        (speller.right (speller.tree.node id)) by
    obtain ⟨count, none, both⟩ := this
    exact ⟨count, none, fun opened =>
      ⟨.look (.node _ _) (both opened).1, .look (.node _ _) (both opened).2⟩⟩
  cases single : (speller.tree.node id).Declares with
  | false =>
    refine ⟨0, fun _ => rfl, fun opened => ⟨adds_left pairs fits (fits id) single, ?_⟩⟩
    rw [right_eq_pure single]
    exact .pure
  | true =>
    cases held : speller.tree.node id with
    | templateParam target =>
      obtain ⟨count, -, both⟩ := pairs index target
      exact ⟨count, nofun, both⟩
    | forwardParam place target =>
      cases target with
      | none => exact ⟨0, nofun, fun opened => ⟨.throw _, .throw _⟩⟩
      | some target =>
        obtain ⟨count, -, both⟩ := pairs index target
        exact ⟨count, nofun, both⟩
    | qualified target quals =>
      obtain ⟨count, -, both⟩ := pairs index target
      exact ⟨count, nofun, fun opened =>
        ⟨.andThen (both opened).1 (adds_quals quals), (both opened).2⟩⟩
    | function result name params quals ref =>
      obtain ⟨count, both⟩ := function_pairs pairs index result params quals ref
      refine ⟨count, nofun, fun opened => ⟨.andThen ?_ (adds_spell pairs _ name), (both opened).2⟩⟩
      cases result with
      | none => exact (both opened).1
      | some result =>
        obtain ⟨has, finds, -⟩ := looks_hasTail index speller.tree .any result
        exact .andThen (both opened).1 (.look finds (.whenever (adds_write (by decide))))
    | pointer pointee =>
      obtain ⟨count, has, finds, both⟩ := declarator_pairs pairs index pointee
      refine ⟨count + has.toNat, nofun, fun opened => ⟨?_, (both opened).2⟩⟩
      rw [← Bracket.deeper_deeper]
      exact .andThen (both opened).1 <| .andThen (adds_openDeclarator finds _) <|
        adds_write (by decide)
    | reference kind pointee =>
      -- both halves collapse the chain anew, and come to the same end at one place in a pack
      obtain ⟨found, finds, -⟩ := looks_collapse index speller.tree kind pointee
      cases found with
      | none => exact ⟨0, nofun, fun opened => ⟨.look finds .pure, .look finds .pure⟩⟩
      | some found =>
        obtain ⟨kind, pointee⟩ := found
        obtain ⟨count, has, finds', both⟩ := declarator_pairs pairs index pointee
        refine ⟨count + has.toNat, nofun, fun opened =>
          ⟨.look finds ?_, .look finds (both opened).2⟩⟩
        rw [← Bracket.deeper_deeper]
        refine .andThen (both opened).1 (.andThen (adds_openDeclarator finds' _) ?_)
        cases kind <;> exact adds_write (by decide)
    | memberPointer scope member =>
      obtain ⟨count, has, finds, both⟩ := declarator_pairs pairs index member
      refine ⟨count + has.toNat, nofun, fun opened => ⟨?_, (both opened).2⟩⟩
      have opens (opened : List Bracket) : script.Adds index opened
          (Bracket.deeper has.toNat opened) (write (if has then "(" else " ")) := by
        cases has with
        | false => exact adds_write (by decide)
        | true => exact adds_bracket rfl (by decide)
      rw [← Bracket.deeper_deeper]
      exact .andThen (both opened).1 <| .look finds <| .andThen (opens _) <|
        .andThen (adds_spell pairs _ scope) (adds_write (by decide))
    | array element dimension =>
      obtain ⟨count, -, both⟩ := pairs index element
      refine ⟨count, nofun, fun opened => ⟨(both opened).1, ?_⟩⟩
      refine .peek (fun canvas => ⟨_, rfl⟩) ?_
      intro last
      refine .andThen (.whenever (adds_write (by decide))) ?_
      exact .andThen (adds_inBrackets pairs dimension) (both opened).2
    | functionType result params quals ref exception =>
      obtain ⟨count, both⟩ := function_pairs pairs index (some result) params quals ref
      refine ⟨count, nofun, fun opened =>
        ⟨.andThen (both opened).1 (adds_write (by decide)), .andThen (both opened).2 ?_⟩⟩
      exact .ifAny fun id => .andThen (adds_write (by decide)) (adds_spell pairs _ id)
    | parameterPack elements =>
      have finds : Finds index (currentElement speller.tree elements)
          (speller.tree.element? elements index) := .currentElement speller.tree elements
      cases found : speller.tree.element? elements index with
      | none =>
        rw [found] at finds
        exact ⟨0, nofun, fun opened => ⟨.look finds .pure, .look finds .pure⟩⟩
      | some element =>
        rw [found] at finds
        obtain ⟨count, -, both⟩ := pairs index element
        exact ⟨count, nofun, fun opened => ⟨.look finds (both opened).1, .look finds (both opened).2⟩⟩
    | _ =>
      rw [held] at single
      cases single

end Right

section Render

variable {symbol : ByteArray} {tree : Tree}

/-- The halves of all nodes pair, by induction on the levels that they may spend. -/
theorem pairs_renderHalf (fits : ∀ id, script.Fits symbol tree (tree.node id))
    (limits : SpellingLimits) (levels : Nat) :
    script.Pairs tree (renderHalf limits symbol tree levels) := by
  induction levels with
  | zero =>
    exact fun index id => ⟨0, fun _ => rfl, fun opened => ⟨.nested (.throw _), .nested (.throw _)⟩⟩
  | succ levels ih =>
    intro index id
    let speller : Speller := ⟨symbol, tree, renderHalf limits symbol tree levels⟩
    have sides : script.Pairs speller.tree speller.side := sides_pair ih fits
    obtain ⟨count, none, both⟩ := sides index id
    exact ⟨count, none, fun opened => ⟨.nested (both opened).1, .nested (both opened).2⟩⟩

/-- All that is spelled of a node leads back to the brackets that are open before it. -/
theorem leads_of_render (fits : ∀ id, script.Fits symbol tree (tree.node id))
    {limits : SpellingLimits} {root : NodeId} {out : ByteArray}
    (rendered : render limits symbol tree root = .ok out) : script.leads [] out [] := by
  have adds : script.Adds 0 [] [] (rendering limits symbol tree root) :=
    adds_spell (pairs_renderHalf fits limits limits.maxDepth) [] root
  unfold render at rendered
  split at rendered
  · rename_i after run
    cases rendered
    obtain ⟨-, added, inside⟩ := adds rfl run
    rw [inside.out]
    exact (ByteArray.empty_append).symm ▸ inside.leads
  · cases rendered

end Render
end Script
end Unmangle
