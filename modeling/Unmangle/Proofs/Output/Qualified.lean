import Unmangle.Engine
import Unmangle.Proofs.Compression.Spelled
import Unmangle.Proofs.Output.Halves

/-!
# Where the qualifiers of a function stand

The right half of a function is its parameters, the right half of its result, and its own
qualifiers. So the qualifiers stand behind the parameters if there is nothing between them: if the
result is no array and no function and leads to none. Otherwise they stand behind the
parameters of the result, where those of the result would stand.
-/
namespace Unmangle

/-- Nothing is asked of a spelling. -/
def Script.lenient : Script where
  leads _ _ _ := True
  nil _ := trivial
  append _ _ := trivial
  word _ := True
  name _ := True
  inert _ := True
  number _ := True
  words _ _ := trivial
  worded _ _ := trivial
  named _ _ := trivial
  behind _ _ _ := trivial
  unsigned _ _ _ := trivial
  signed _ := trivial

/-- Every node fits where any text is allowed. -/
theorem Script.lenient_fits (symbol : ByteArray) (tree : Tree) (node : Node) :
    Script.lenient.Fits symbol tree node := by
  have alone (id : NodeId) : Script.lenient.Alone tree id := .inl fun _ _ _ => trivial
  cases node with
  | abiTagged base tag => exact ⟨alone base, trivial⟩
  | destroyed type => exact alone type
  | trailingQualified type words => exact ⟨alone type, trivial⟩
  | integer type value => cases type <;> exact ⟨trivial, trivial⟩
  | _ => trivial

/-- The result, the parameters and the qualifiers of a function type or of a function. -/
def Node.function? : Node → Option (Option NodeId × NodeList × Qualifiers × Option Reference)
  | .function result _ params quals ref => some (result, params, quals, ref)
  | .functionType result params quals ref _ => some (some result, params, quals, ref)
  | _ => none

/-- The qualifiers of a function as they are written. -/
def Qualifiers.behind (quals : Qualifiers) (ref : Option Reference) : String :=
  quals.text ++ match ref with
    | none => ""
    | some kind => " " ++ kind.text

def Canvas.deeper (canvas : Canvas) : Canvas :=
  { canvas with depth := canvas.depth + 1 }

theorem Canvas.index_deeper (canvas : Canvas) : canvas.deeper.index = canvas.index :=
  rfl

theorem Canvas.out_deeper (canvas : Canvas) : canvas.deeper.out = canvas.out :=
  rfl

namespace Print

variable {index : Nat} {speller : Speller} {limits : SpellingLimits} {symbol : ByteArray} {tree : Tree}
  {levels : Nat} {id : NodeId} {canvas after : Canvas}

theorem writes_behind (quals : Qualifiers) (ref : Option Reference) :
    Writes True (quals.behind ref) (do Print.quals quals; Print.refQualifier ref) canvas := by
  refine (Writes.quals quals).andThen ?_
  rcases ref with _ | _ | _
  · exact .nothing
  · exact .wording _
  · exact .wording _

/-- A parenthesis is closed only before the right half of what trails. -/
theorem of_run_closeDeclarator {target : NodeId} (here : canvas.index = index)
    (run : (speller.closeDeclarator target).run canvas = .ok () after) :
    ∃ before : Canvas, before.index = index ∧
      (before.out = canvas.out ∨
        speller.tree.Trails index target ∧ before.out = canvas.out ++ ")".toUTF8) ∧
      (speller.half .right target).run before = .ok () after := by
  obtain ⟨has, finds, trails⟩ := looks_hasArrayOrFunction index speller.tree target
  obtain ⟨found, between, look, run⟩ := of_run_bind run
  obtain ⟨rfl, beside⟩ := finds.unique here look
  obtain ⟨⟨⟩, before, closes, run⟩ := of_run_bind run
  refine ⟨before, ?_, ?_, run⟩
  · cases found <;> (cases closes; exact beside.index.trans here)
  · cases found with
    | false =>
      cases closes
      exact .inl beside.out
    | true =>
      cases closes
      exact .inr ⟨trails rfl, by rw [← beside.out]⟩

theorem of_right_passes {target : NodeId} (passes : speller.tree.Passes index id target)
    (run : (speller.right (speller.tree.node id)).run canvas = .ok () after)
    (here : canvas.index = index) :
    ∃ before : Canvas, before.index = index ∧
      (before.out = canvas.out ∨
        speller.tree.Trails index target ∧ before.out = canvas.out ++ ")".toUTF8) ∧
      (speller.half .right target).run before = .ok () after := by
  cases passes with
  | qualified held | templateParam held | forwardParam held =>
    rw [held] at run
    exact ⟨canvas, here, .inl rfl, run⟩
  | pointer held | memberPointer held =>
    rw [held] at run
    exact of_run_closeDeclarator here run
  | reference held found =>
    rw [held] at run
    obtain ⟨value, between, look, run⟩ := of_run_bind run
    obtain ⟨rfl, beside⟩ := found.unique here look
    obtain ⟨before, here', wrote, run⟩ := of_run_closeDeclarator (beside.index.trans here) run
    rw [beside.out] at wrote
    exact ⟨before, here', wrote, run⟩
  | parameterPack held found =>
    rw [held] at run
    obtain ⟨value, between, look, run⟩ := of_run_bind run
    obtain ⟨rfl, beside⟩ := (Finds.currentElement speller.tree _).unique here look
    rw [found] at run
    exact ⟨between, beside.index.trans here, .inl beside.out, run⟩

/-- A node passes its right half on, has one of its own, or has none. -/
theorem passes_or_tail (speller : Speller) (index : Nat) (id : NodeId) :
    (∃ target, speller.tree.Passes index id target) ∨ (speller.tree.node id).IsTail ∨
      ∀ canvas after : Canvas, canvas.index = index →
        (speller.right (speller.tree.node id)).run canvas = .ok () after → after.out = canvas.out := by
  cases held : speller.tree.node id with
  | qualified target quals => exact .inl ⟨target, .qualified held⟩
  | templateParam target => exact .inl ⟨target, .templateParam held⟩
  | forwardParam place target =>
    cases target with
    | none => exact .inr (.inr nofun)
    | some target => exact .inl ⟨target, .forwardParam held⟩
  | pointer target => exact .inl ⟨target, .pointer held⟩
  | memberPointer scope target => exact .inl ⟨target, .memberPointer held⟩
  | reference kind pointee =>
    obtain ⟨found, finds, -⟩ := looks_collapse index speller.tree kind pointee
    cases found with
    | some found => exact .inl ⟨found.2, .reference held finds⟩
    | none =>
      refine .inr (.inr fun canvas after here run => ?_)
      obtain ⟨found, between, look, run⟩ := of_run_bind run
      obtain ⟨rfl, beside⟩ := finds.unique here look
      cases run
      exact beside.out
  | parameterPack run =>
    cases found : speller.tree.element? run index with
    | some target => exact .inl ⟨target, .parameterPack held found⟩
    | none =>
      refine .inr (.inr fun canvas after here run => ?_)
      obtain ⟨element, between, look, run⟩ := of_run_bind run
      obtain ⟨rfl, beside⟩ := (Finds.currentElement speller.tree _).unique here look
      rw [found] at run
      cases run
      exact beside.out
  | array | functionType | function => exact .inr (.inl trivial)
  | _ =>
    refine .inr (.inr fun canvas after here run => ?_)
    cases run
    rfl

/-- A right half is spelled one level deeper. -/
theorem of_run_right
    (run : (renderHalf limits symbol tree (levels + 1) .right id).run canvas = .ok () after) :
    ∃ inner : Canvas,
      ((Speller.within limits symbol tree levels).right (tree.node id)).run canvas.deeper =
        .ok () inner ∧ after.out = inner.out := by
  obtain ⟨inner, inside, rfl⟩ := of_run_deeper run
  exact ⟨inner, inside, rfl⟩

theorem not_run_zero (half : Half) :
    (renderHalf limits symbol tree 0 half id).run canvas ≠ .ok () after := by
  intro run
  obtain ⟨inner, inside, -⟩ := of_run_deeper run
  cases inside

/-- What does not trail has an empty right half. -/
theorem out_eq_of_not_trails (still : ¬tree.Trails index id) (here : canvas.index = index)
    (run : (renderHalf limits symbol tree levels .right id).run canvas = .ok () after) :
    after.out = canvas.out := by
  induction levels generalizing id canvas after with
  | zero => exact absurd run (not_run_zero .right)
  | succ levels ih =>
    obtain ⟨inner, inside, out⟩ := of_run_right run
    rw [out]
    obtain ⟨target, passes⟩ | tail | nothing :=
      passes_or_tail (Speller.within limits symbol tree levels) index id
    · have still' : ¬tree.Trails index target := fun trails => still (.there passes trails)
      obtain ⟨before, here', wrote, run⟩ :=
        of_right_passes passes inside (canvas.index_deeper.trans here)
      obtain same | ⟨trails, -⟩ := wrote
      · exact (ih still' here' run).trans same
      · exact absurd trails still'
    · exact absurd (.here tail) still
    · exact nothing canvas.deeper inner here inside

/-- Parameters in their parentheses. -/
theorem of_run_parenthesizedList {nodes : NodeList}
    (run : (speller.parenthesizedList nodes).run canvas = .ok () after) :
    ∃ listed, (speller.list nodes).run (canvas.add "(") = .ok () listed ∧ after = listed.add ")" := by
  obtain ⟨⟨⟩, _, ⟨⟩, run⟩ := of_run_bind run
  obtain ⟨⟨⟩, listed, list, run⟩ := of_run_bind run
  cases run
  exact ⟨listed, list, rfl⟩

/-! ## How a right half begins -/

def BeginsTail (text : ByteArray) : Prop :=
  ∃ words ∈ ["(", ")", "[", " ["], words.toList <+: letters text

theorem BeginsTail.append {text : ByteArray} (begins : BeginsTail text) (text' : ByteArray) :
    BeginsTail (text ++ text') := by
  obtain ⟨words, known, begins⟩ := begins
  refine ⟨words, known, ?_⟩
  rw [letters_append]
  exact begins.trans (List.prefix_append _ _)

theorem of_run_whenever_write {holds : Bool} {words : String}
    (run : (whenever holds (write words)).run canvas = .ok () after) :
    after = canvas ∨ after = canvas.add words := by
  cases holds with
  | false =>
    cases run
    exact .inl rfl
  | true =>
    cases run
    exact .inr rfl

/-- What follows a word adds to it. -/
theorem of_run_write_bind {words : String} {f : Unit → Print Unit}
    (adds : ∀ index, Script.lenient.Adds index [] [] (f ()))
    (run : (write words >>= f).run canvas = .ok () after) :
    ∃ added, after.out = canvas.out ++ (words.toUTF8 ++ added) := by
  obtain ⟨-, added, inside⟩ := @adds (canvas.add words).index (canvas.add words) _ rfl run
  exact ⟨added, by rw [inside.out]; exact ByteArray.append_assoc⟩

theorem lenient_pairs (limits : SpellingLimits) (symbol : ByteArray) (tree : Tree) (levels : Nat) :
    Script.lenient.Pairs tree (renderHalf limits symbol tree levels) :=
  Script.pairs_renderHalf (fun id => Script.lenient_fits symbol tree (tree.node id)) limits levels

/-- A half only adds to what is written. -/
theorem lenient_adds (half : Half) (index : Nat) (id : NodeId) :
    Script.lenient.Adds index [] [] (renderHalf limits symbol tree levels half id) := by
  obtain ⟨count, -, both⟩ := lenient_pairs limits symbol tree levels index id
  have blind : Script.lenient.Blind := fun _ _ _ => trivial
  cases half with
  | left => exact blind.adds (both []).1 [] []
  | right => exact blind.adds (both []).2 [] []

/-- Behind the name of a function stand its parameters, then the right half of its result, and then
its qualifiers. -/
theorem of_run_behindFunction {result : Option NodeId} {params : NodeList} {quals : Qualifiers}
    {ref : Option Reference}
    (run : (speller.behindFunction result params quals ref).run canvas = .ok () after) :
    ∃ listed behind, (speller.list params).run (canvas.add "(") = .ok () listed ∧
      (ifAny result (speller.half .right)).run (listed.add ")") = .ok () behind ∧
      after = behind.add (quals.behind ref) := by
  obtain ⟨⟨⟩, closed, list, rest⟩ := of_run_bind run
  obtain ⟨⟨⟩, behind, half, last⟩ := of_run_bind rest
  obtain ⟨listed, inside, rfl⟩ := of_run_parenthesizedList list
  refine ⟨listed, behind, inside, half, ?_⟩
  obtain ⟨_, _, run', same⟩ | ⟨_, _, -, full, -⟩ := (@writes_behind behind quals ref).elim
  · cases run'.symm.trans last
    exact same
  · exact absurd trivial full

/-- The result adds its right half and nothing else to the parameters. -/
theorem ifAny_adds {result : Option NodeId} (index : Nat) :
    Script.lenient.Adds index [] [] (ifAny result (renderHalf limits symbol tree levels .right)) :=
  .ifAny (lenient_adds .right index)

/-- What stands behind a function begins as a right half does. -/
theorem beginsTail_of_function {result : Option NodeId} {params : NodeList} {quals : Qualifiers}
    {ref : Option Reference}
    (run : ((Speller.within limits symbol tree levels).behindFunction result params quals ref).run
      canvas = .ok () after) :
    ∃ added, after.out = canvas.out ++ added ∧ BeginsTail added := by
  obtain ⟨listed, behind, list, half, rfl⟩ := of_run_behindFunction run
  have lists : Script.lenient.Adds (canvas.add "(").index [] []
      ((Speller.within limits symbol tree levels).list params) :=
    Script.adds_list (lenient_pairs limits symbol tree levels) params
  obtain ⟨-, inner, list⟩ := lists rfl list
  obtain ⟨-, tail, half⟩ := ifAny_adds _ rfl half
  refine ⟨"(".toUTF8 ++ (inner ++ ")".toUTF8 ++ tail ++ (quals.behind ref).toUTF8), ?_, ?_⟩
  · have out : behind.out = canvas.out ++ "(".toUTF8 ++ inner ++ ")".toUTF8 ++ tail := by
      rw [half.out]
      show listed.out ++ ")".toUTF8 ++ tail = _
      rw [list.out]
      rfl
    show behind.out ++ (quals.behind ref).toUTF8 = _
    simp only [out, ByteArray.append_assoc]
  · exact BeginsTail.append ⟨"(", by decide, by decide⟩ _

/-- An array or a function has a right half of its own. -/
theorem beginsTail_of_isTail (tail : (tree.node id).IsTail)
    (run : ((Speller.within limits symbol tree levels).right (tree.node id)).run canvas = .ok () after) :
    ∃ added, after.out = canvas.out ++ added ∧ BeginsTail added := by
  cases held : tree.node id with
  | function result name params quals ref =>
    rw [held] at run
    exact beginsTail_of_function run
  | functionType result params quals ref exception =>
    rw [held] at run
    obtain ⟨⟨⟩, between, function, last⟩ := of_run_bind run
    obtain ⟨added, out, begins⟩ := beginsTail_of_function function
    have more : Script.lenient.Adds between.index [] [] (ifAny exception fun exception => do
        write " "
        (Speller.within limits symbol tree levels).spell exception) :=
      .ifAny fun id => .andThen (.writeBytes trivial)
        (Script.adds_spell (lenient_pairs limits symbol tree levels) [] id)
    obtain ⟨-, added', last⟩ := more rfl last
    refine ⟨added ++ added', ?_, begins.append _⟩
    rw [last.out, out, ByteArray.append_assoc]
  | array element dimension =>
    rw [held] at run
    obtain ⟨_, _, ⟨⟩, rest⟩ := of_run_bind run
    obtain ⟨⟨⟩, spaced, space, rest'⟩ := of_run_bind rest
    obtain ⟨⟨⟩, closed, brackets, half⟩ := of_run_bind rest'
    have inside (index : Nat) : Script.lenient.Adds index [] [] (do
        ifAny dimension (Speller.within limits symbol tree levels).spell
        write "]") :=
      .andThen (.ifAny (Script.adds_spell (lenient_pairs limits symbol tree levels) []))
        (.writeBytes trivial)
    obtain ⟨inner, brackets⟩ := of_run_write_bind inside brackets
    obtain ⟨-, more, last⟩ := lenient_adds .right _ _ rfl half
    obtain rfl | rfl := of_run_whenever_write space
    · refine ⟨"[".toUTF8 ++ (inner ++ more), ?_, .append ⟨"[", by decide, by decide⟩ _⟩
      rw [last.out, brackets]
      simp only [ByteArray.append_assoc]
    · refine ⟨(" ".toUTF8 ++ "[".toUTF8) ++ (inner ++ more), ?_, .append ⟨" [", by decide, by decide⟩ _⟩
      rw [last.out, brackets]
      simp only [Canvas.add, ByteArray.append_assoc]
  | _ =>
    rw [held] at tail
    cases tail

/-- What trails has a right half that is not empty. -/
theorem beginsTail_of_trails (trails : tree.Trails index id) (here : canvas.index = index)
    (run : (renderHalf limits symbol tree levels .right id).run canvas = .ok () after) :
    ∃ added, after.out = canvas.out ++ added ∧ BeginsTail added := by
  induction trails generalizing levels canvas after with
  | here tail =>
    cases levels with
    | zero => exact absurd run (not_run_zero .right)
    | succ levels =>
      obtain ⟨inner, inside, out⟩ := of_run_right run
      obtain ⟨added, grown, begins⟩ := beginsTail_of_isTail tail inside
      exact ⟨added, out.trans grown, begins⟩
  | there passes _ ih =>
    cases levels with
    | zero => exact absurd run (not_run_zero .right)
    | succ levels =>
      obtain ⟨inner, inside, out⟩ := of_run_right run
      obtain ⟨before, here', wrote, run⟩ :=
        of_right_passes passes inside (canvas.index_deeper.trans here)
      obtain ⟨added, grown, begins⟩ := ih here' run
      rw [out, grown]
      obtain same | ⟨-, closed⟩ := wrote
      · exact ⟨added, by rw [same, Canvas.out_deeper], begins⟩
      · refine ⟨")".toUTF8 ++ added, ?_, .append ⟨")", by decide, by decide⟩ _⟩
        rw [closed, Canvas.out_deeper, ByteArray.append_assoc]

/-! ## Where the qualifiers stand -/

/-- Behind a function only its exception specification follows the qualifiers. -/
theorem of_run_function {result : Option NodeId} {params : NodeList} {quals : Qualifiers}
    {ref : Option Reference} (held : (tree.node id).function? = some (result, params, quals, ref))
    (run : ((Speller.within limits symbol tree levels).right (tree.node id)).run canvas = .ok () after) :
    ∃ qualified rest, ((Speller.within limits symbol tree levels).behindFunction result params quals
      ref).run canvas = .ok () qualified ∧ after.out = qualified.out ++ rest := by
  cases node : tree.node id with
  | function result name params quals ref =>
    rw [node] at held run
    cases held
    exact ⟨after, .empty, run, ByteArray.append_empty.symm⟩
  | functionType result params quals ref exception =>
    rw [node] at held run
    cases held
    obtain ⟨⟨⟩, qualified, function, last⟩ := of_run_bind run
    have more : Script.lenient.Adds qualified.index [] [] (ifAny exception fun exception => do
        write " "
        (Speller.within limits symbol tree levels).spell exception) :=
      .ifAny fun id => .andThen (.writeBytes trivial)
        (Script.adds_spell (lenient_pairs limits symbol tree levels) [] id)
    obtain ⟨-, rest, last⟩ := more rfl last
    exact ⟨qualified, rest, function, last.out⟩
  | _ =>
    rw [node] at held
    cases held

/-- No right half begins as qualifiers do. -/
theorem Qualifiers.not_beginsTail {quals : Qualifiers} {ref : Option Reference}
    (some : quals.behind ref ≠ "") (rest : List Char) {text : ByteArray} (begins : BeginsTail text)
    (same : letters text <+: letters (quals.behind ref).toUTF8 ++ rest) : False := by
  have second : (['c', 'v', 'r', '&'].any fun char =>
      [' ', char].isPrefixOf (letters (quals.behind ref).toUTF8)) = true := by
    obtain ⟨isConst, isVolatile, isRestrict⟩ := quals
    revert some
    cases isConst <;> cases isVolatile <;> cases isRestrict <;> rcases ref with _ | _ | _ <;> decide
  obtain ⟨char, known, qualifies⟩ := List.any_eq_true.mp second
  obtain ⟨words, known', begins⟩ := begins
  have both : words.toList <+: [' ', char] ∨ [' ', char] <+: words.toList :=
    List.prefix_or_prefix_of_prefix (begins.trans same)
      ((List.isPrefixOf_iff_prefix.mp qualifies).trans (List.prefix_append _ _))
  have none : ∀ char ∈ ['c', 'v', 'r', '&'], ∀ words ∈ ["(", ")", "[", " ["],
      ¬(words.toList <+: [' ', char] ∨ [' ', char] <+: words.toList) := by decide
  exact none char known words known' both

/-- The qualifiers of a function stand directly behind its own parameters if and only if it has
none or its result has no right half. -/
theorem qualifiers_behind_params_iff {result : Option NodeId} {params : NodeList}
    {quals : Qualifiers} {ref : Option Reference}
    (held : (tree.node id).function? = some (result, params, quals, ref))
    (run : (renderHalf limits symbol tree (levels + 1) .right id).run canvas = .ok () after) :
    ∃ listed behind : Canvas, ∃ rest : ByteArray,
      ((Speller.within limits symbol tree levels).list params).run
        (canvas.deeper.add "(") = .ok () listed ∧
      (ifAny result (renderHalf limits symbol tree levels .right)).run (listed.add ")") =
        .ok () behind ∧
      after.out = (behind.add (quals.behind ref)).out ++ rest ∧
      ((∃ rest, after.out = ((listed.add ")").add (quals.behind ref)).out ++ rest) ↔
        quals.behind ref = "" ∨ ∀ type, result = some type → ¬tree.Trails canvas.index type) := by
  obtain ⟨inner, inside, out⟩ := of_run_right run
  obtain ⟨qualified, rest, function, grown⟩ := of_run_function held inside
  obtain ⟨listed, behind, list, half, rfl⟩ := of_run_behindFunction function
  refine ⟨listed, behind, rest, list, half, out.trans grown, ?_⟩
  have lists : Script.lenient.Adds canvas.index [] []
      ((Speller.within limits symbol tree levels).list params) :=
    Script.adds_list (lenient_pairs limits symbol tree levels) params
  have here : (listed.add ")").index = canvas.index := (@lists (canvas.deeper.add "(") _ rfl list).1
  rw [out, grown]
  show (∃ rest', behind.out ++ (quals.behind ref).toUTF8 ++ rest =
    (listed.add ")").out ++ (quals.behind ref).toUTF8 ++ rest') ↔ _
  constructor
  · -- a right half that is there begins with a bracket, and the qualifiers do not
    rintro ⟨rest', same⟩
    by_contra neither
    simp only [not_or, not_forall, not_not] at neither
    obtain ⟨some, type, rfl, trails⟩ := neither
    obtain ⟨added, half, begins⟩ := beginsTail_of_trails trails here half
    rw [half] at same
    have letters := congrArg letters same
    simp only [letters_append, List.append_assoc, List.append_cancel_left_eq] at letters
    refine Qualifiers.not_beginsTail some (Unmangle.letters rest') begins ?_
    rw [← letters]
    exact List.prefix_append _ _
  · rintro (none | still)
    · obtain ⟨-, added, half⟩ := ifAny_adds _ rfl half
      refine ⟨added ++ rest, ?_⟩
      rw [half.out, none]
      show (listed.add ")").out ++ added ++ .empty ++ rest = (listed.add ")").out ++ .empty ++ _
      simp only [ByteArray.append_empty, ByteArray.append_assoc]
    · cases result with
      | none =>
        cases half
        exact ⟨rest, rfl⟩
      | some type =>
        rw [out_eq_of_not_trails (still type rfl) here half]
        exact ⟨rest, rfl⟩

/-- The qualifier of a function that returns a pointer to a function stands behind the parameters
of the other. -/
theorem qualifiers_behind_params_of_result :
    let tree : Tree := { last := #[.name (.literal "void"), .functionType ⟨0, 0⟩ ⟨0, 0⟩ {} none none,
      .pointer ⟨1, 0⟩, .name (.literal "f"),
      .function (some ⟨2, 0⟩) ⟨3, 0⟩ ⟨0, 0⟩ { isConst := true } none], size := 5 }
    ∃ after : Canvas,
      (renderHalf ⟨8, 64⟩ .empty tree 6 .right ⟨4, 0⟩).run {} = .ok () after ∧
        after.out = "())() const".toUTF8 ∧ ¬∃ rest, after.out = "() const".toUTF8 ++ rest := by
  intro tree
  refine ⟨{ out := "())() const".toUTF8 }, rfl, rfl, fun directly => ?_⟩
  have held : (tree.node ⟨4, 0⟩).function? =
      some (some ⟨2, 0⟩, ⟨0, 0⟩, { isConst := true }, none) := rfl
  have trails : tree.Trails 0 ⟨2, 0⟩ := .there (.pointer rfl) (.here trivial)
  obtain ⟨listed, behind, rest, list, -, -, placed⟩ :=
    @qualifiers_behind_params_iff ⟨8, 64⟩ .empty tree 5 ⟨4, 0⟩ {} _ _ _ _ _ held rfl
  cases list
  obtain none | still := placed.mp directly
  · exact absurd none (by decide)
  · exact still ⟨2, 0⟩ rfl trails

end Print

/-- A function whose result has a right half has its qualifiers behind that. So a type whose result
is qualified has the text of one that is qualified itself. -/
theorem Engine.demangle_qualified_result :
    (Engine.demangle {} "_ZNK1A1fIiEEPFvvEv").1.toOption = some "void (*A::f<int>())() const" ∧
      (Engine.demangle {} "_Z1fPKFPFvvEvE").1.toOption = some "f(void (* (*)())() const)" ∧
      (Engine.demangle {} "_Z1fPFPKFvvEvE").1.toOption = some "f(void (* (*)())() const)" := by
  decide +kernel

end Unmangle
