import Unmangle.Proofs.Engine.Text
import Unmangle.Proofs.Extension.Encoding
import Unmangle.Proofs.Spelling.Wrapped
import Unmangle.Proofs.Symbol.Suffix
import Unmangle.Proofs.Symbol.Underscore

/-!
# Suffixes of encodings

An encoding that is a whole symbol may have the suffix of a clone behind it, or the name of
the function that runs a block. It is read as before, and one node is put around its tree, so
the longer symbol is demangled to the shorter form and what that node writes around it.
-/
namespace Unmangle

namespace Sides

variable {sides : Sides} {w : Nat × Nat} {t t' : Tree}

/-- What is stored stays as it is when a node is put around it and bytes stand behind the
symbol. -/
theorem SameTree.wrapped (same : sides.SameTree w t t') (node : Node) (tail : ByteArray)
    (around : Surroundings) :
    ((sides.mirror w t t').wrapped (sides.symbol ++ tail) (t.alloc node).2 around).Lawful := by
  apply same.mirror.wrapped
  · intro a b name
    have held : (t.get? a).isSome := by
      rw [same.intact.get?_isSome_iff]
      exact ⟨name.generation.trans same.generation.symm, name.below.trans_eq same.size.symm⟩
    obtain ⟨value, found⟩ := Option.isSome_iff_exists.mp held
    have later := same.intact.extends_alloc node a value found
    show Tree.node _ _ = Tree.node t a
    rw [Tree.node, Tree.node, found, later]
  · exact Store.lists_alloc t node
  · intro text text' alike
    cases text with
    | literal words => rfl
    | span start stop =>
      have within : start ≤ stop ∧ stop ≤ sides.symbol.size := alike.within
      show (sides.symbol ++ tail).extract start stop = sides.symbol.extract start stop
      have past : stop - sides.symbol.size = 0 := by omega
      have nothing : tail.extract (start - sides.symbol.size) 0 = .empty := by
        rw [← ByteArray.size_eq_zero_iff, ByteArray.size_extract]
        omega
      rw [ByteArray.extract_append, past, nothing, ByteArray.append_empty]

end Sides

namespace Engine

variable {options : Options} {limit levels : Nat} {marker encoding : String} {tail : List UInt8}
  {out : ByteArray} {id : NodeId} {t : ParseState}

/-- What is read behind one marker is read alike behind another. -/
theorem read_behind (marker' : String) (run : (Rule.parse limit levels .encoding).run
      (.behindMarker 0 (octets marker).length (octets encoding)) = .ok id t) :
    ∃ w id' t', (Rule.parse limit levels .encoding).run
        (.behindMarker 0 (octets marker').length (octets encoding)) = .ok id' t' ∧
      (Sides.mk (marker' ++ encoding).toUTF8 (marker ++ encoding).toUTF8 0 0).comparison.State
        w t' t ∧
      (Sides.mk (marker' ++ encoding).toUTF8 (marker ++ encoding).toUTF8 0 0).SameName
        w.1 id' id := by
  let sides : Sides := ⟨(marker' ++ encoding).toUTF8, (marker ++ encoding).toUTF8, 0, 0⟩
  have begun : sides.comparison.State (0, 0) _ _ :=
    Sides.stateBehind (octets_append marker' encoding) (octets_append marker encoding)
  obtain ⟨w, id', _, t', _, hr', hr, -, same, -, name⟩ | ⟨_, _, _, _, -, hr, -⟩ | ⟨_, _, -, gone⟩ :=
    (sides.reads limit levels .encoding (0, 0) _ _ begun fun _ _ lost => lost.elim).2.elim
  · cases hr.symm.trans run
    exact ⟨w, id', t', hr', same, name⟩
  · cases hr.symm.trans run
  · exact gone.elim

/-- What is read behind a marker is sound. -/
theorem sound_behind (run : (Rule.parse limit levels .encoding).run
      (.behindMarker 0 (octets marker).length (octets encoding)) = .ok id t) :
    ∃ w, (Sides.both (marker ++ encoding).toUTF8 0 0).comparison.State w t t ∧
      (Sides.both (marker ++ encoding).toUTF8 0 0).SameName w.1 id id := by
  obtain ⟨w, id', t', run', same, name⟩ := read_behind marker run
  cases run'.symm.trans run
  exact ⟨w, same, name⟩

/-- Nothing that is left of a symbol without a dot holds one. -/
theorem dotless_behind (dotless : '.' ∉ encoding.toList)
    (run : (Rule.parse limit levels .encoding).run
      (.behindMarker 0 (octets "_Z").length (octets encoding)) = .ok id t) :
    46 ∉ t.cursor.rest := by
  obtain ⟨w, same, -⟩ := sound_behind run
  intro dot
  rw [Sides.SameCursor.rest same.cursor] at dot
  have inside : 46 ∈ octets "_Z" ++ octets encoding := by
    rw [← octets_append]
    exact List.mem_of_mem_drop dot
  rcases List.mem_append.mp inside with marker | behind
  · exact absurd marker (by decide)
  · have found : '.' ∈ encoding.toList := mem_octets (by decide) behind
    exact dotless found

/-- Behind a marker and with a suffix behind it, an encoding is read to its end, and what is
read comes out as these bytes. -/
structure Enclosable (options : Options) (levels : Nat) (marker encoding : String)
    (tail : List UInt8) (out : ByteArray) (id : NodeId) (t : ParseState) : Prop where
  run : (Rule.parse (levels + 1) levels .encoding).run
    (.behindMarker 0 (octets marker).length (octets encoding ++ tail)) = .ok id t
  rest : t.cursor.rest = tail
  offset : t.cursor.offset = (marker ++ encoding).toUTF8.size
  settled : t.work.forward.isEmpty = true
  admits : Parse.Admits (.behindMarker 0 (octets marker).length (octets encoding ++ tail))
    (t.work.tree.node id)
  stored : ∃ w, (Sides.both (marker ++ encoding).toUTF8 0 0).SameTree w t.work.tree t.work.tree ∧
    (Sides.both (marker ++ encoding).toUTF8 0 0).SameName w.1 id id
  spelled : render ⟨options.maxRecursion, options.maxOutputLen⟩ (marker ++ encoding).toUTF8
    t.work.tree id = .ok out

namespace Enclosable

/-- What renders was parsed as an encoding that can be enclosed. -/
theorem of_renders (renders : Renders options 0 ("_Z" ++ encoding) out)
    (dotless : '.' ∉ encoding.toList) :
    ∃ levels, options.maxRecursion = levels + 1 ∧ 0 < levels ∧
      ∃ id t, Enclosable options levels "_Z" encoding [] out id t := by
  obtain ⟨root, state, parsed, rendered⟩ := renders
  -- without room for a production nothing would have been rendered
  have wide : ¬options.maxRecursion ≤ 1 := by
    intro narrow
    obtain ⟨t, failed⟩ := Parse.run_without_room 0 ("_Z" ++ encoding).toUTF8 narrow
    rw [failed] at parsed
    cases parsed
  obtain ⟨levels, deep⟩ : ∃ levels, options.maxRecursion = levels + 1 :=
    ⟨options.maxRecursion - 1, by omega⟩
  have room : 0 < levels := by omega
  refine ⟨levels, deep, room, ?_⟩
  rw [deep, Parse.run_of_announces (Parse.announces_encoding (.inl rfl))
    (octets_append "_Z" encoding) room] at parsed
  cases read : (Parse.markedEncoding (Rule.parse (levels + 1) levels) >>= Parse.finish).run
      (.behindMarker 0 (octets "_Z").length (octets encoding)) with
  | error fault t =>
    simp only [Parse.thenAlways, read] at parsed
    cases parsed
  | ok id t =>
    simp only [Parse.thenAlways, read] at parsed
    cases parsed
    obtain ⟨run, admits, whole, settled⟩ :=
      Parse.encoding_of_run read fun _ _ run => dotless_behind dotless run
    obtain ⟨w, same, name⟩ := sound_behind run
    have stop := Sides.SameCursor.stop same.cursor
    rw [whole] at stop
    refine ⟨root, t, ?_, whole, stop, settled, ?_, ⟨w, same.tree, name⟩, rendered⟩
    · rw [List.append_nil]
      exact run
    · rw [List.append_nil]
      exact admits

/-- A marker of another length changes nothing. -/
theorem behind (h : Enclosable options levels marker encoding [] out id t) (marker' : String) :
    ∃ id' t', Enclosable options levels marker' encoding [] out id' t' := by
  have run := h.run
  rw [List.append_nil] at run
  obtain ⟨w, id', t', run', same, name⟩ := read_behind marker' run
  obtain ⟨w', same', name'⟩ := sound_behind run'
  have whole : t'.cursor.rest = [] := (Sides.SameCursor.same same.cursor).trans h.rest
  have stop := Sides.SameCursor.stop' same'.cursor
  rw [whole] at stop
  have rendered : render ⟨options.maxRecursion, options.maxOutputLen⟩ (marker' ++ encoding).toUTF8
      t'.work.tree id' = render ⟨options.maxRecursion, options.maxOutputLen⟩
      (marker ++ encoding).toUTF8 t.work.tree id :=
    (Sides.SameTree.mirror same.tree).render rfl (.refl rfl _) name |>.resolve_right
      fun ⟨_, _, gone⟩ => gone
  have settled : t'.work.forward.isEmpty = true := by
    have size : t'.work.forward.size = t.work.forward.size := by
      simpa using same.forward.length_eq
    have none := h.settled
    simp only [Array.isEmpty] at none ⊢
    rwa [size]
  have admits : Parse.Admits (.behindMarker 0 (octets marker').length (octets encoding ++ []))
      (t'.work.tree.node id') := by
    intro words held
    -- nodes alike are names together, and the first byte is the same behind either marker
    have alike := Sides.SameTree.node same.tree name
    rw [held] at alike
    generalize held' : t.work.tree.node id = node at alike
    cases alike with
    | name text => exact h.admits _ held'
  refine ⟨id', t', ?_, whole, stop, settled, admits, ⟨w', same'.tree, name'⟩,
    rendered.trans h.spelled⟩
  rw [List.append_nil]
  exact run'

/-- A suffix behind a whole symbol changes nothing of what was read. -/
theorem followed (h : Enclosable options levels marker encoding [] out id t)
    (suffix : Suffix tail) :
    Enclosable options levels marker encoding tail out id (t.followed tail) where
  run := by
    have run := Parse.run_encoding_followed suffix h.rest h.run
    rw [List.append_nil] at run
    exact run
  rest := by
    show t.cursor.rest ++ tail = tail
    rw [h.rest, List.nil_append]
  offset := h.offset
  settled := h.settled
  admits words held := by
    have internal := h.admits words held
    -- the letter is a byte of the encoding itself, so the suffix is not looked at
    cases begun : octets encoding with
    | nil =>
      rw [begun] at internal
      cases internal
    | cons byte bytes =>
      rw [begun] at internal
      exact internal
  stored := h.stored
  spelled := h.spelled

/-- With a node around it, what was read comes out between what the node writes. -/
theorem render_around (h : Enclosable options levels marker encoding tail out id t)
    (deep : options.maxRecursion = levels + 1) (room : 0 < levels) (extra : ByteArray) {node : Node}
    {around : Surroundings} (nested : around.nesting = 1) {behind : ByteArray}
    (empty : ∀ speller : Speller, speller.right node = pure ()) {rest : Print Unit}
    (written : ∀ canvas, rest.run canvas = .ok () { canvas with out := canvas.out ++ behind })
    (left : ∀ speller : Speller, speller.symbol = (marker ++ encoding).toUTF8 ++ extra →
      (speller.left node).run { depth := 1 } =
        (speller.spell id >>= fun _ => rest).run (around.put {})) :
    render ⟨options.maxRecursion, options.maxOutputLen⟩ ((marker ++ encoding).toUTF8 ++ extra)
        (t.work.tree.alloc node).2 (t.work.tree.alloc node).1 =
      .ok (around.before ++ out ++ behind) ∨
    ∃ fault, render ⟨options.maxRecursion, options.maxOutputLen⟩
        ((marker ++ encoding).toUTF8 ++ extra) (t.work.tree.alloc node).2
        (t.work.tree.alloc node).1 = .error fault ∧ fault.IsLimit := by
  obtain ⟨w, same, name⟩ := h.stored
  have root : Tree.node (t.work.tree.alloc node).2 (t.work.tree.alloc node).1 = node := by
    rw [Tree.node, same.intact.get?_alloc node]
    rfl
  let M : Mirror := ((Sides.both (marker ++ encoding).toUTF8 0 0).mirror w t.work.tree
    t.work.tree).wrapped ((marker ++ encoding).toUTF8 ++ extra) (t.work.tree.alloc node).2 around
  have law : M.Lawful := same.wrapped node extra around
  have root' : M.tree.node (t.work.tree.alloc node).1 = node := root
  apply law.render_around rfl deep room nested name h.spelled ?_ written
  · intro speller symbol
    rw [root']
    exact left speller symbol
  · intro speller
    rw [root']
    exact empty speller

/-- The text of all that is left is the suffix. -/
theorem resolve_rest {extra : String}
    (h : Enclosable options levels marker encoding (octets extra) out id t) :
    (Text.span t.cursor.offset t.cursor.stop).resolve (marker ++ encoding ++ extra).toUTF8 =
      extra.toUTF8 := by
  have bytes : (marker ++ encoding ++ extra).toUTF8.data.toList =
      octets (marker ++ encoding) ++ octets extra := octets_append (marker ++ encoding) extra
  have size : (marker ++ encoding).toUTF8.size = (octets (marker ++ encoding)).length :=
    Sides.size_eq_length _
  apply ByteArray.ext
  apply Array.toList_inj.mp
  show (ByteArray.extract _ t.cursor.offset (t.cursor.offset + t.cursor.rest.length)).data.toList =
    octets extra
  rw [toList_extract, h.offset, size, bytes, List.drop_left, h.rest, List.take_length]

end Enclosable

/-- What a name that fits is read and rendered as is what it is demangled to, up to limits. -/
theorem withholds_of_rendered {name text : String} {root : NodeId} {state : ParseState}
    (some : name.isEmpty = false)
    (parsed : (Rule.parse options.maxRecursion options.maxRecursion .symbol).run
      (.start 0 name.toUTF8) = .ok root state)
    (rendered : render ⟨options.maxRecursion, options.maxOutputLen⟩ name.toUTF8 state.work.tree
        root = .ok text.toUTF8 ∨
      ∃ fault, render ⟨options.maxRecursion, options.maxOutputLen⟩ name.toUTF8 state.work.tree
        root = .error fault ∧ fault.IsLimit) :
    Withholds (demangle { options := options } name).1 (.ok text) := by
  by_cases fits : name.utf8ByteSize ≤ options.maxSymbolLen
  · rw [demangle_of_fits some fits, parseAndSpell_resting, parsed]
    show Withholds (spell options name.toUTF8 state.work.tree root) _
    unfold spell
    obtain given | ⟨fault, failed, limit⟩ := rendered
    · rw [given]
      by_cases long : options.maxOutputLen < text.toUTF8.size
      · refine .inr ⟨.tooLong, ?_, .inr rfl⟩
        simp only [bind, Except.bind, if_pos long, throw, throwThe, MonadExceptOf.throw]
      · refine .inl ?_
        simp only [bind, Except.bind, if_neg long, Utf8.text_toUTF8]
        rfl
    · rw [failed]
      exact .inr ⟨fault, rfl, limit⟩
  · refine .inr ⟨.tooLong, ?_, .inr rfl⟩
    have call : ¬(name.isEmpty || (true && false)) = true := by simp [some]
    have long : options.maxSymbolLen < name.utf8ByteSize := by omega
    rw [demangle_eq_answer]
    unfold answer
    dsimp only [Option.isSome, Option.isNone]
    rw [if_neg call, if_pos long]

/-- An encoding that a suffix stands behind is demangled to what it comes out as, with what
the node around it writes. -/
theorem Enclosable.withholds {extra text : String}
    (h : Enclosable options levels marker encoding (octets extra) out id t)
    (deep : options.maxRecursion = levels + 1) (room : 0 < levels)
    (known : marker ∈ Symbol.markers) {production : Calls → Parse NodeId}
    (announces : Parse.Announces marker production) {node : Node}
    (read : ∃ u, (production (Rule.parse (levels + 1) levels) >>= Parse.finish).run
        (.behindMarker 0 (octets marker).length (octets encoding ++ octets extra)) =
          .ok (t.work.tree.alloc node).1 u ∧ u.work.tree = (t.work.tree.alloc node).2)
    {around : Surroundings} (nested : around.nesting = 1) {behind : ByteArray}
    (empty : ∀ speller : Speller, speller.right node = pure ()) {rest : Print Unit}
    (written : ∀ canvas, rest.run canvas = .ok () { canvas with out := canvas.out ++ behind })
    (left : ∀ speller : Speller, speller.symbol = (marker ++ encoding ++ extra).toUTF8 →
      (speller.left node).run { depth := 1 } =
        (speller.spell id >>= fun _ => rest).run (around.put {}))
    (spelled : text.toUTF8 = around.before ++ out ++ behind) :
    Withholds (demangle { options := options } (marker ++ encoding ++ extra)).1 (.ok text) := by
  obtain ⟨u, run, tree⟩ := read
  have bytes : (marker ++ encoding ++ extra).toUTF8.data.toList =
      octets marker ++ (octets encoding ++ octets extra) := by
    rw [← octets_append, ← octets_append, ← String.append_assoc]
    rfl
  have whole : (marker ++ encoding ++ extra).toUTF8 =
      (marker ++ encoding).toUTF8 ++ extra.toUTF8 := by
    simp
  have some : (marker ++ encoding ++ extra).isEmpty = false := by
    rw [String.append_assoc]
    exact Symbol.isEmpty_of_marker known _
  have parsed : (Rule.parse options.maxRecursion options.maxRecursion .symbol).run
      (.start 0 (marker ++ encoding ++ extra).toUTF8) =
        .ok (t.work.tree.alloc node).1 (Parse.up u) := by
    rw [deep, Parse.run_of_announces announces bytes room]
    simp only [Parse.thenAlways, run]
  apply withholds_of_rendered some parsed
  rw [whole] at left ⊢
  show render _ _ u.work.tree _ = _ ∨ _
  rw [tree, spelled]
  exact h.render_around deep room extra.toUTF8 nested empty written left

def unmarked : Surroundings :=
  { Surroundings.none with nesting := 1 }

def titled : Surroundings :=
  ⟨"invocation function for block in ".toUTF8, 1, by decide⟩

/-- A clone of what demangles shows the suffix behind it, unless a limit withholds it. -/
theorem withholds_clone {text : String} (dotless : '.' ∉ encoding.toList)
    (given : (demangle { options := options } ("_Z" ++ encoding)).1 = .ok text) (suffix : String) :
    Withholds (demangle { options := options } ("_Z" ++ encoding ++ ("." ++ suffix))).1
      (.ok (text ++ " (." ++ suffix ++ ")")) := by
  rw [demangle_eq_answer] at given
  obtain ⟨renders, -⟩ := renders_of_answer given
  obtain ⟨levels, deep, room, id, t, whole⟩ := Enclosable.of_renders renders dotless
  have dot : octets ("." ++ suffix) = 46 :: octets suffix := octets_append "." suffix
  have h := whole.followed (.inl ⟨_, dot⟩)
  have read := Parse.run_clone h.admits h.run (h.rest.trans dot) h.settled
  have written (canvas : Canvas) : (do
      Print.write " ("
      Print.writeBytes ("." ++ suffix).toUTF8
      Print.write ")" : Print Unit).run canvas = .ok () { canvas with
        out := canvas.out ++ (" (".toUTF8 ++ ("." ++ suffix).toUTF8 ++ ")".toUTF8) } := by
    simp only [← ByteArray.append_assoc]
    rfl
  have spelled : (text ++ " (." ++ suffix ++ ")").toUTF8 = unmarked.before ++ text.toUTF8 ++
      (" (".toUTF8 ++ ("." ++ suffix).toUTF8 ++ ")".toUTF8) := by
    have opening : " (.".toByteArray = " (".toByteArray ++ ".".toByteArray := by
      rw [← String.toByteArray_append]
      rfl
    simp [unmarked, Surroundings.none, opening, ByteArray.append_assoc]
  apply h.withholds deep room (by decide) (Parse.announces_encoding (.inl rfl)) read rfl
    (fun _ => rfl) written ?_ spelled
  intro speller same
  have begun : unmarked.put {} = { depth := 1 } := by
    simp [Surroundings.put, unmarked, Surroundings.none]
  rw [begun, ← h.resolve_rest, ← same]
  rfl

/-- A block of what demangles names it behind its title, unless a limit withholds it. -/
theorem withholds_block {text number rest : String} (dotless : '.' ∉ encoding.toList)
    (given : (demangle { options := options } ("_Z" ++ encoding)).1 = .ok text)
    (numbered : Parse.BlockNumber (octets number)) (dotted : Parse.Dotted (octets rest)) :
    Withholds (demangle { options := options }
        ("___Z" ++ encoding ++ ("_block_invoke" ++ number ++ rest))).1
      (.ok ("invocation function for block in " ++ text)) := by
  rw [demangle_eq_answer] at given
  obtain ⟨renders, -⟩ := renders_of_answer given
  obtain ⟨levels, deep, room, id, t, whole⟩ := Enclosable.of_renders renders dotless
  obtain ⟨id', t', whole'⟩ := whole.behind "___Z"
  have tail : octets ("_block_invoke" ++ number ++ rest) =
      octets "_block_invoke" ++ (octets number ++ octets rest) := by
    rw [octets_append, octets_append, List.append_assoc]
  have h := whole'.followed (.inr ⟨_, tail⟩)
  have read := Parse.run_block h.run (h.rest.trans tail) numbered dotted h.settled
  have written (canvas : Canvas) : (pure () : Print Unit).run canvas =
      .ok () { canvas with out := canvas.out ++ .empty } := by
    rw [ByteArray.append_empty]
    rfl
  have spelled : ("invocation function for block in " ++ text).toUTF8 =
      titled.before ++ text.toUTF8 ++ .empty := by
    simp [titled]
  apply h.withholds deep room (by decide) (Parse.announces_block (.inl rfl)) read rfl
    (fun _ => rfl) written ?_ spelled
  intro speller _
  have begun : titled.put {} =
      { out := .empty ++ "invocation function for block in ".toUTF8, depth := 1 } := by
    simp [Surroundings.put, titled]
  rw [begun]
  show (speller.spell id').run _ = _
  simp only [Bind.bind]
  split
  · assumption
  · assumption

/-- The suffix of a clone is added in parentheses, and a block's function gets a title. The
encoding shows as it does alone, unless a limit withholds the longer form. -/
theorem demangle_suffixes (options : Options) (encoding text : String)
    (dotless : '.' ∉ encoding.toList)
    (given : (demangle { options := options } ("_Z" ++ encoding)).1 = .ok text) :
    (∀ suffix : String, Withholds
      (demangle { options := options } ("_Z" ++ encoding ++ "." ++ suffix)).1
      (.ok (text ++ " (." ++ suffix ++ ")"))) ∧
    ∀ number suffix : String, Symbol.IsBlockNumber number → Symbol.IsBlockSuffix suffix → Withholds
      (demangle { options := options }
        ("___Z" ++ encoding ++ "_block_invoke" ++ number ++ suffix)).1
      (.ok ("invocation function for block in " ++ text)) := by
  constructor
  · intro suffix
    rw [String.append_assoc]
    exact withholds_clone dotless given suffix
  · intro number suffix numbered dotted
    have whole : "___Z" ++ encoding ++ "_block_invoke" ++ number ++ suffix =
        "___Z" ++ encoding ++ ("_block_invoke" ++ number ++ suffix) := by
      simp only [String.append_assoc]
    rw [whole]
    exact withholds_block dotless given numbered.numbered dotted.dotted

/-- A clone of a function, and a block of it with a number and a suffix. -/
theorem demangle_suffixes_foo :
    '.' ∉ "3foov".toList ∧ (demangle {} "_Z3foov").1 = .ok "foo()" ∧
      Withholds (demangle {} "_Z3foov.isra.0").1 (.ok "foo() (.isra.0)") ∧
      Symbol.IsBlockNumber "_2" ∧ Symbol.IsBlockSuffix ".cold" ∧
      Withholds (demangle {} "___Z3foov_block_invoke_2.cold").1
        (.ok "invocation function for block in foo()") := by
  have dotless : '.' ∉ "3foov".toList := by decide
  have given : (demangle {} "_Z3foov").1 = .ok "foo()" := by decide +kernel
  have numbered : Symbol.IsBlockNumber "_2" := .inr ⟨"2", by decide, by decide, rfl⟩
  have dotted : Symbol.IsBlockSuffix ".cold" := .inr ⟨"cold", rfl⟩
  obtain ⟨clone, block⟩ := demangle_suffixes {} "3foov" "foo()" dotless given
  exact ⟨dotless, given, clone "isra.0", numbered, dotted, block "_2" ".cold" numbered dotted⟩

end Engine
end Unmangle
