import Unmangle.Proofs.Comparison.Name

/-!
# Encodings side by side
-/
namespace Unmangle.Comparison

variable {C : Comparison} {w : C.World}

namespace Follows

variable (law : C.Lawful) {call call' : Calls} (reads : C.Reads call call')
include law

theorem resolve {a b : NodeId} (h : C.name w a b) :
    C.Follows w (Parse.resolve a) (Parse.resolve b) fun _ _ _ => True := by
  apply (node law h).bind
  intro _ later node node' hnode
  have h := law.name_mono later h
  cases hnode with
  | forwardParam index _ =>
    apply get.bind
    intro _ later s s' hs
    have h := law.name_mono later h
    apply (orFault (hs.argument? 0 index) _).bind
    intro _ later target target' htarget
    exact patch law index (law.name_mono later h) htarget
  | _ => exact throw _

theorem forM_resolve {ids ids' : List NodeId} (h : List.Forall₂ (C.name w) ids ids') :
    C.Follows w (ids.forM Parse.resolve) (ids'.forM Parse.resolve) fun _ _ _ => True := by
  induction ids generalizing w ids' with
  | nil =>
    cases h
    exact pure trivial
  | cons id ids ih =>
    cases h with
    | cons hid h =>
      apply (resolve law hid).seq
      intro _ later
      exact ih (h.imp fun _ _ => law.name_mono later)

theorem resolveSince {mark mark' : Nat} (same : mark = mark') :
    C.Follows w (Parse.resolveSince mark) (Parse.resolveSince mark') fun _ _ _ => True := by
  subst same
  apply get.bind
  intro _ _ s s' hs
  apply (forM_resolve law (List.forall₂_drop mark hs.forward)).seq
  intro _ _
  refine modified law (fun t t' ht => ht.setForward ?_) fun _ => rfl
  have htake := List.forall₂_take mark ht.forward
  simpa [Names, Array.take_eq_extract, List.extract_eq_take_drop] using htake

include reads

/-- The parameters that came to wait in the name are resolved on both sides. -/
theorem plainEncoding :
    C.Follows w (Parse.plainEncoding call) (Parse.plainEncoding call') C.name := by
  apply get.bind
  intro _ _ s s' hs
  have hmark : s.work.forward.size = s'.work.forward.size := by
    simpa using hs.forward.length_eq
  apply (reads (.name true) _).bind
  intro _ _ name name' hname
  apply (resolveSince law hmark).seq
  intro _ later
  have hname := law.name_mono later hname
  refine (atEncodingEnd law).bind ?_
  rintro _ later ended _ rfl
  have hname := law.name_mono later hname
  refine ite (fun _ => pure hname) fun _ => get.bind fun _ later t t' ht => ?_
  have hname := law.name_mono later hname
  rw [← ht.facts]
  refine Follows.bind (Q := fun v => Option.Rel (C.name v)) ?_
    fun _ later result result' hresult => ?_
  · exact ite (fun _ => map (reads .type _) fun _ _ _ h => .some h) fun _ => pure .none
  · have hname := law.name_mono later hname
    refine (accept law "v").bind ?_
    rintro _ later isVoid _ rfl
    have hname := law.name_mono later hname
    have hresult := law.option_mono later hresult
    refine Follows.bind (Q := C.Names) ?_ fun _ later params params' hparams => ?_
    · exact ite (fun _ => pure Names.nil) fun _ =>
        someNodes law (fun _ => atEncodingEnd law) fun _ => reads .type _
    · apply (makeList law hparams).bind
      intro _ later' list list' hlist
      have later := later.trans later'
      exact make law (.function _ _ (law.option_mono later hresult) (law.name_mono later hname) hlist)

theorem encoding : C.Follows w (Parse.encoding call) (Parse.encoding call') C.name := by
  apply get.bind
  intro _ _ s s' hs
  refine Follows.seq (modified law (fun t t' ht => ?_) fun _ => rfl) fun _ later => ?_
  · exact ht.unscoped.setFacts rfl
  · refine thenAlways law ((peek law).bind ?_) (fun _ later' t t' ht => ?_) fun _ => rfl
    · rintro _ _ letter _ rfl
      split
      · exact reads .specialName _
      · exact reads .specialName _
      · exact plainEncoding law reads
    · have houter := law.names_mono (later.trans later') hs.outer
      exact (ht.setScopes hs.levels houter).setFacts hs.facts

omit reads in
theorem skipOffset : C.Follows w Parse.skipOffset Parse.skipOffset fun _ _ _ => True := by
  apply (number law true).bind
  intro _ _ text text' htext
  exact ensure (congrArg not (law.isEmpty htext)) (unexpected law)

omit reads in
theorem callOffset : C.Follows w Parse.callOffset Parse.callOffset fun _ _ _ => True := by
  refine (accept law "h").bind ?_
  rintro _ _ isPlain _ rfl
  refine ite (fun _ => ?_) fun _ => (accept law "v").bind ?_
  · apply (skipOffset law).seq
    intro _ _
    exact expect law "_"
  · rintro _ _ isVirtual _ rfl
    refine ite (fun _ => ?_) fun _ => unexpected law
    apply (skipOffset law).seq
    intro _ _
    apply (expect law "_").seq
    intro _ _
    apply (skipOffset law).seq
    intro _ _
    exact expect law "_"

theorem specialName :
    C.Follows w (Parse.specialName call) (Parse.specialName call') C.name := by
  apply (peekPair law).bind
  rintro _ _ letters _ rfl
  dsimp only
  cases SpecialForm.ofLetters? letters.1 letters.2 with
  | none => exact unexpected law
  | some form =>
    cases form with
    | titled title rule =>
      apply (advance law 2).seq
      intro _ _
      apply (reads rule _).bind
      intro _ _ _ _ hchild
      exact make law (.special title hchild)
    | covariantThunk =>
      apply (advance law 2).seq
      intro _ _
      apply (callOffset law).seq
      intro _ _
      apply (callOffset law).seq
      intro _ _
      apply (reads .encoding _).bind
      intro _ _ _ _ hencoding
      exact make law (.special _ hencoding)
    | constructionVtable =>
      apply (advance law 2).seq
      intro _ _
      apply (reads .type _).bind
      intro _ _ derived derived' hderived
      apply (skipOffset law).seq
      intro _ later
      have hderived := law.name_mono later hderived
      apply (expect law "_").seq
      intro _ later
      have hderived := law.name_mono later hderived
      apply (reads .type _).bind
      intro _ later base base' hbase
      exact make law (.constructionVtable hbase (law.name_mono later hderived))
    | referenceTemporary =>
      apply (advance law 2).seq
      intro _ _
      apply (reads (.name false) _).bind
      intro _ _ child child' hchild
      apply (accept law "_").bind
      rintro _ later isFirst _ rfl
      have hchild := law.name_mono later hchild
      apply Follows.seq
      · apply ensure rfl
        apply (discard (seqId law)).seq
        intro _ _
        exact expect law "_"
      intro _ later
      exact make law (.special _ (law.name_mono later hchild))
    | thunk title =>
      apply (advance law 1).seq
      intro _ _
      apply (callOffset law).seq
      intro _ _
      apply (reads .encoding _).bind
      intro _ _ _ _ hencoding
      exact make law (.special title hencoding)

omit reads in
/-- Both sides are at their end, and nothing waits on either. -/
theorem finish {a b : NodeId} (h : C.name w a b) :
    C.Follows w (Parse.finish a) (Parse.finish b) C.name := by
  refine (atEnd law).bind ?_
  rintro _ later ended _ rfl
  have h := law.name_mono later h
  apply (ensure rfl (throw _)).seq
  intro _ later
  apply get.bind
  intro _ later' s s' hs
  have hsame : s.work.forward.isEmpty = s'.work.forward.isEmpty := by
    have hlen : s.work.forward.size = s'.work.forward.size := by
      simpa using hs.forward.length_eq
    simp only [Array.isEmpty, hlen]
  apply (ensure hsame (throw _)).seq
  intro _ later''
  refine pure ?_
  exact law.name_mono (later.trans (later'.trans later'')) h

theorem markedEncoding :
    C.Follows w (Parse.markedEncoding call) (Parse.markedEncoding call') C.name := by
  refine (peek law).bind ?_
  rintro _ _ letter _ rfl
  apply (reads .encoding _).bind
  intro _ _ encoding encoding' hencoding
  apply (node law hencoding).bind
  intro _ later node node' hnode
  have hencoding := law.name_mono later hencoding
  refine Follows.seq (Q := fun _ _ _ => True) ?_ fun _ later => (peek law).bind ?_
  · cases hnode with
    | name _ => exact ensure rfl (throw _)
    | _ => exact pure trivial
  · rintro _ later' next _ rfl
    have hencoding := law.name_mono (later.trans later') hencoding
    refine ite (fun _ => ?_) fun _ => pure hencoding
    apply (remainder law).bind
    intro _ later _ _ hsuffix
    exact make law (.clone (law.name_mono later hencoding) hsuffix)

theorem blockInvocation :
    C.Follows w (Parse.blockInvocation call) (Parse.blockInvocation call') C.name := by
  apply (reads .encoding _).bind
  intro _ _ encoding encoding' hencoding
  apply (expect law "_block_invoke").seq
  intro _ later
  have hencoding := law.name_mono later hencoding
  refine (accept law "_").bind ?_
  rintro _ later numbered _ rfl
  have hencoding := law.name_mono later hencoding
  apply (number law false).bind
  intro _ later text text' htext
  have hencoding := law.name_mono later hencoding
  rw [← law.isEmpty htext]
  apply (ensure rfl (unexpected law)).seq
  intro _ later
  refine (peek law).bind ?_
  rintro _ later' next _ rfl
  have hencoding := law.name_mono (later.trans later') hencoding
  apply (onlyIf fun _ => discard (remainder law)).seq
  intro _ later
  exact make law (.special _ (law.name_mono later hencoding))

omit reads in
/-- Either of two tokens. -/
theorem acceptEither (token other : String) :
    C.Follows w (do if ← Parse.accept token then return true else Parse.accept other)
      (do if ← Parse.accept token then return true else Parse.accept other) fun _ => Eq := by
  refine (accept law token).bind ?_
  rintro _ _ taken _ rfl
  exact ite (fun _ => pure rfl) fun _ => accept law other

theorem symbol : C.Follows w (Parse.symbol call) (Parse.symbol call') C.name := by
  refine (acceptEither law "_Z" "__Z").bind ?_
  rintro _ _ marked _ rfl
  refine ite (fun _ => ?_) fun _ => (acceptEither law "___Z" "____Z").bind ?_
  · apply (markedEncoding law reads).bind
    intro _ _ _ _ h
    exact finish law h
  · rintro _ _ isBlock _ rfl
    refine ite (fun _ => ?_) fun _ => ?_
    · apply (blockInvocation law reads).bind
      intro _ _ _ _ h
      exact finish law h
    · apply (reads .type _).bind
      intro _ _ _ _ h
      exact finish law h

end Follows
end Unmangle.Comparison
