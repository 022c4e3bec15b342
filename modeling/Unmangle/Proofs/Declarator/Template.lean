import Unmangle.Proofs.Declarator.Arguments
import Unmangle.Proofs.Declarator.Bare

/-!
# Reading the symbols of function templates

The name with its arguments, the result type that every template function writes, and the
parameters. Both may refer to the arguments.
-/
namespace Unmangle

def strayBeyond (count : Nat) (indices : List Nat) : Option Fault :=
  (indices.find? fun index => count ≤ index).map strayFault

theorem strayAmong_array (outer : Array NodeId) (indices : List Nat) :
    strayAmong (fun index => outer[index]?) indices = strayBeyond outer.size indices := by
  unfold strayAmong strayBeyond
  congr 2
  funext index
  rw [Bool.eq_iff_iff, decide_eq_true_eq, Option.isNone_iff_eq_none, Array.getElem?_eq_none_iff]

section Specialized

/-- The node is a function whose name has arguments and which has a result type. -/
inductive Specialized (symbol : ByteArray) (ident : Identifier)
    (args : Tree → Array NodeId → List NodeId → Prop)
    (result : Tree → Array NodeId → NodeId → Prop)
    (params : Tree → Array NodeId → List NodeId → Prop) (tree : Tree) (root : NodeId) : Prop
  | function {outer : Array NodeId} {result' name named list : NodeId} {run run' : NodeList}
      {ids ids' : List NodeId} (held : tree.get? root = some (.function (some result') name run' {} none))
      (instantiated : tree.get? name = some (.instantiation named list))
      (words : tree.Words symbol ident.text named)
      (listed : tree.get? list = some (.templateArgs run)) (lists : tree.Lists run ids)
      (lists' : tree.Lists run' ids') (stands : args tree outer ids)
      (stands' : result tree outer result') (stands'' : params tree outer ids') :
      Specialized symbol ident args result params tree root

end Specialized

theorem Specialized.node_ne_name {symbol : ByteArray} {ident : Identifier}
    {args params : Tree → Array NodeId → List NodeId → Prop}
    {result : Tree → Array NodeId → NodeId → Prop} {tree : Tree} {root : NodeId}
    (h : Specialized symbol ident args result params tree root) (text : Text) :
    tree.node root ≠ .name text := by
  cases h with
  | function held =>
    rw [Tree.node_of_get? held]
    exact nofun

theorem Tree.Words.grows {symbol : ByteArray} {tree tree' : Tree} {words : String} {id : NodeId}
    (h : tree.Words symbol words id) (later : tree.Grows tree') : tree'.Words symbol words id :=
  h.stays later.keeps

def ParseState.instantiated (s : ParseState) : ParseState :=
  { s with facts := { s.facts with endsWithTemplateArgs := true } }

theorem Poised.instantiated {symbol : ByteArray} {base s : ParseState} {rest : List UInt8}
    (h : Poised symbol base rest s) : Poised symbol base.instantiated rest s.instantiated :=
  ⟨h.ahead, h.behind, h.intact, h.grows, h.places, congrArg (fun setting =>
    { setting with facts := { setting.facts with endsWithTemplateArgs := true } }) h.setting⟩

/-- No arguments are in scope, and nothing is known of a name. -/
def ParseState.apart (s : ParseState) : ParseState :=
  { s with work := { s.work with scopes := {} }, facts := {} }

theorem Poised.apart {symbol : ByteArray} {base s : ParseState} {rest : List UInt8}
    (h : Poised symbol base rest s) : Poised symbol base.apart rest s.apart :=
  ⟨h.ahead, h.behind, h.intact, h.grows, h.places,
    congrArg (fun setting => { setting with scopes := {}, facts := {} }) h.setting⟩

def ParseState.knowing (s : ParseState) (facts : NameFacts) : ParseState :=
  { s with facts := facts }

theorem Poised.knowing {symbol : ByteArray} {base s : ParseState} {rest : List UInt8}
    (h : Poised symbol base rest s) (facts : NameFacts) :
    Poised symbol (base.knowing facts) rest (s.knowing facts) :=
  ⟨h.ahead, h.behind, h.intact, h.grows, h.places,
    congrArg (fun setting => { setting with facts := facts }) h.setting⟩

theorem Poised.facts {symbol : ByteArray} {base s : ParseState} {rest : List UInt8}
    (h : Poised symbol base rest s) : s.facts = base.facts :=
  congrArg Setting.facts h.setting

namespace Parse.Meets

variable {α : Type} {symbol : ByteArray} {room : Prop} {due : Option Fault} {limit levels : Nat}
  {base s : ParseState} {rest argBytes : List UInt8} {ident : Identifier}
  {args : Tree → Array NodeId → List NodeId → Prop}

/-- The arguments behind a name. -/
theorem instantiate {name : NodeId} (lasting : Lasting args) (spent : base.level + levels = limit)
    (fits : room → base.level + 1 < limit) (h : Poised symbol base (73 :: argBytes) s)
    (bound : base.Bound) (read : ∀ (b : ParseState) levels t, b.level = base.level + 1 →
      b.level + levels = limit → b.Bound → Poised symbol (b.seeing (.of #[])) argBytes t →
      Meets room none (nodesUntil "E" (Parse.scopedArg (Rule.parse limit levels))) t fun ids u =>
        ∃ outer, Poised symbol (b.seeing (.of outer)) rest u ∧ args u.work.tree outer ids.toList) :
    Meets room none (Parse.instantiate (Rule.parse limit levels) true name) s fun id t =>
      ∃ outer list run ids, Poised symbol (base.seeing (.of outer)).instantiated rest t ∧
        s.work.tree.Grows t.work.tree ∧ t.work.tree.get? id = some (.instantiation name list) ∧
        t.work.tree.get? list = some (.templateArgs run) ∧ t.work.tree.Lists run ids ∧
        args t.work.tree outer ids ∧ t.work.substitutions.contains id = false := by
  have level : s.level = base.level := h.level
  have arguments := templateArgs lasting (level ▸ spent) (fun enough => level ▸ fits enough) h.self
    (h.bound bound) fun b levels t same => read b levels t (same.trans (by rw [level]))
  refine andThen (arguments.weaken fun list t found => ?_)
  obtain ⟨outer, run, ids, ht, held, lists, stands⟩ := found
  refine after (run_modify _) ?_
  have hu : Poised symbol (base.seeing (.of outer)).instantiated rest t.instantiated :=
    ((h.seeing (.of outer)).trans ht).instantiated
  exact made _ hu fun id u hu later made unlisted =>
    ⟨outer, list, run, ids, hu, ht.grows.trans later, made, later.extend _ _ held, lists.grows later,
      lasting stands later, unlisted⟩

/-- A name with arguments. -/
theorem templateName (lasting : Lasting args)
    (small : symbol.size < Number.bound) (spent : base.level + levels = limit)
    (fits : room → base.level + 2 < limit)
    (h : Poised symbol base (octets ident.code ++ (73 :: argBytes)) s)
    (bound : base.Bound) (read : ∀ (b : ParseState) levels t, b.level = base.level + 2 →
      b.level + levels = limit → b.Bound → Poised symbol (b.seeing (.of #[])) argBytes t →
      Meets room none (nodesUntil "E" (Parse.scopedArg (Rule.parse limit levels))) t fun ids u =>
        ∃ outer, Poised symbol (b.seeing (.of outer)) rest u ∧ args u.work.tree outer ids.toList) :
    Meets room none (Rule.parse limit levels (.name true)) s fun id t =>
      ∃ outer named list run ids, Poised symbol (base.seeing (.of outer)).instantiated rest t ∧
        t.work.tree.get? id = some (.instantiation named list) ∧
        t.work.tree.Words symbol ident.text named ∧
        t.work.tree.get? list = some (.templateArgs run) ∧ t.work.tree.Lists run ids ∧
        args t.work.tree outer ids := by
  refine nameWith true small spent fits (Ahead.cons (List.mem_singleton_self _) _) (by decide) h ?_
  intro levels named t spent fresh
  obtain ⟨⟨ht, words, -⟩, isSome, unlisted⟩ := fresh
  refine peeked ht ?_
  rw [show (Char.ofNat (73 : UInt8).toNat == 'I') = true from rfl, if_pos rfl]
  refine enlisted ht isSome unlisted ?_
  intro u hu same
  rw [← same] at words
  refine (instantiate lasting spent fits hu ⟨bound.1, bound.2⟩ fun b levels v same => read b levels
    v same).weaken ?_
  intro id v found
  obtain ⟨outer, list, run, ids, hv, grown, held, listed, lists, stands, -⟩ := found
  exact ⟨outer, named, list, run, ids, hv.up, held, words.grows grown, listed, lists, stands⟩

/-- Another type follows where a byte that begins one comes next. -/
theorem run_atEncodingEnd_of_starter {byte : UInt8} (opens : byte ∈ TypeForm.starters)
    (h : Poised symbol base (byte :: rest) s) : atEncodingEnd.run s = .ok false s := by
  have every : ∀ byte ∈ TypeForm.starters, (byte == 69 || byte == 46 || byte == 95) = false := by
    decide
  refine (run_bind_ok _ run_get).trans ?_
  simp only [h.ahead, every byte opens]
  rfl

theorem run_atEncodingEnd (h : Poised symbol base [] s) : atEncodingEnd.run s = .ok true s := by
  refine (run_bind_ok _ run_get).trans ?_
  simp only [h.ahead]
  rfl

/-- The parameters of a function, one after another up to the end of its encoding. -/
theorem someParams {ι : Type} {call : Parse NodeId} (due : ι → Option Fault)
    (Left : List ι → Array NodeId → ParseState → Prop)
    (opens : ∀ item items ids t, Left (item :: items) ids t → atEncodingEnd.run t = .ok false t)
    (closes : ∀ ids t, Left [] ids t → atEncodingEnd.run t = .ok true t)
    (reads : ∀ item items ids t, Left (item :: items) ids t →
      Meets room (due item) call t fun id => Left items (ids.push id))
    (enough : ∀ items ids t, Left items ids t → items.length ≤ t.cursor.rest.length)
    {item : ι} {items : List ι} (some : (accept "v").run s = .ok false s)
    (h : Left (item :: items) #[] s) :
    Meets room (dueAmong due (item :: items)) (do
      if ← accept "v" then Pure.pure #[]
      else someNodes atEncodingEnd call) s (Left []) := by
  refine after some (bind ((reads item items #[] s h).weaken fun id t left => ?_))
  refine after run_get (rounds due Left (fun ids u left => ?_) opens (fun item items ids u left => ?_)
    (Nat.lt_succ_of_le (enough items _ t left)) left)
  · exact known (closes ids u left) ⟨rfl, left⟩
  · exact before ((reads item items ids u left).weaken fun id v left => pure left)

/-- Nothing waits for an argument. -/
theorem nothingWaits (mark : Nat) {f : Unit → Parse α} {Q : α → ParseState → Prop}
    (waiting : base.work.forward = #[]) (h : Poised symbol base rest s)
    (next : ∀ t, Poised symbol base rest t → t.work.tree = s.work.tree → Meets room due (f ()) t Q) :
    Meets room due (resolveSince mark >>= f) s Q := by
  have none : s.work.forward = #[] := (congrArg Setting.forward h.setting).trans waiting
  have run : (resolveSince mark).run s =
      .ok () { s with work := { s.work with forward := s.work.forward.take mark } } := by
    refine (run_bind_ok _ run_get).trans (run_bind_ok (t := s) (a := ()) _ ?_ |>.trans (run_modify _))
    rw [none, show (#[] : Array NodeId).toList = [] from rfl, List.drop_nil]
    rfl
  refine after run (next _ ⟨h.ahead, h.behind, h.intact, h.grows, h.places, ?_⟩ rfl)
  refine Eq.trans ?_ h.setting
  show ParseState.setting { s with work := { s.work with forward := s.work.forward.take mark } } = _
  rw [none, Array.take_eq_extract, Array.extract_empty, ← none]

/-- A function template: its name, its result and its parameters. -/
theorem plainEncoding {result : TypeForm} {paramBytes : List UInt8} {count : Nat}
    {params : Tree → Array NodeId → List NodeId → Prop} (lasting : Lasting args)
    (lasting' : Lasting params) (sized : ∀ tree outer ids, args tree outer ids → outer.size = count)
    (few : count < Number.bound) (small : symbol.size < Number.bound)
    (proper : result.Every TypeForm.Proper) (spent : base.level + levels = limit)
    (fits : room → base.level + 2 < limit) (fits' : room → base.level + result.nest < limit)
    (facts : base.facts = {}) (waiting : base.work.forward = #[]) (bound : base.Bound)
    (ahead : Ahead TypeForm.followers paramBytes)
    (h : Poised symbol base (octets ident.code ++ (73 :: argBytes)) s)
    (readArgs : ∀ (b : ParseState) levels t, b.level = base.level + 2 → b.level + levels = limit →
      b.Bound → Poised symbol (b.seeing (.of #[])) argBytes t →
      Meets room none (nodesUntil "E" (Parse.scopedArg (Rule.parse limit levels))) t fun ids u =>
        ∃ outer, Poised symbol (b.seeing (.of outer)) (octets result.code ++ paramBytes) u ∧
          args u.work.tree outer ids.toList)
    (readParams : ∀ (b : ParseState) outer ids t, b.level = base.level →
      InScope b (fun index => outer[index]?) → args t.work.tree outer ids →
      Poised symbol b paramBytes t →
      Meets room due (do
        if ← accept "v" then Pure.pure #[]
        else someNodes atEncodingEnd (Rule.parse limit levels .type)) t fun ids u =>
          Poised symbol b [] u ∧ params u.work.tree outer ids.toList) :
    Meets room ((strayBeyond count result.indices).or due)
      (Parse.plainEncoding (Rule.parse limit levels)) s fun root t =>
        (∃ outer, Poised symbol (base.seeing (.of outer)).instantiated [] t) ∧
          Specialized symbol ident args
            (fun tree outer id => Standing symbol limit (fun index => outer[index]?) base result tree id)
            params t.work.tree root := by
  refine after run_get (andThen ((templateName lasting small spent fits h bound readArgs).weaken
    fun name t found => ?_))
  obtain ⟨outer, named, list, run, ids, ht, held, words, listed, lists, stands⟩ := found
  have size : outer.size = count := sized _ _ _ stands
  have waiting' : (base.seeing (.of outer)).instantiated.work.forward = #[] := waiting
  refine nothingWaits _ waiting' ht ?_
  intro u hu same
  rw [← same] at held words listed lists stands
  obtain ⟨byte, more, begins, opens⟩ := TypeForm.code_opens proper
  have hu' := hu
  rw [begins] at hu'
  refine after (run_atEncodingEnd_of_starter (TypeForm.openers_subset proper byte opens) hu')
    (after run_get ?_)
  have known : u.facts = { endsWithTemplateArgs := true } := by
    rw [show u.facts = { base.facts with endsWithTemplateArgs := true } from
      congrArg Setting.facts hu.setting, facts]
  rw [known]
  have bound' : base.instantiated.Bound := ⟨bound.1, bound.2⟩
  have inScope := InScope.of bound' (size ▸ few)
  obtain ⟨b, seen, level⟩ : ∃ b : ParseState,
      base.instantiated.seeing (.of outer) = b ∧ b.level = base.level := ⟨_, rfl, rfl⟩
  have hu : Poised symbol (base.instantiated.seeing (.of outer)) (octets result.code ++ paramBytes) u :=
    hu
  rw [seen] at hu inScope
  rw [← size, ← strayAmong_array]
  refine bind ?_
  show Meets room _ (Rule.parse limit levels .type >>= fun id => Pure.pure (some id)) _ _
  refine before (((reads small proper).next (level ▸ spent) (level ▸ fits') ahead inScope hu).weaken
    fun result' v found => pure ?_)
  obtain ⟨⟨hv, stands'⟩, grown⟩ := found
  have level' : v.level = base.level := hv.level.trans level
  have parsed := readParams v outer ids v level' (inScope.later hv) (lasting stands grown) hv.self
  refine assoc (before (parsed.weaken fun ids' w found => ?_))
  obtain ⟨hw, stands''⟩ := found
  refine andThen (madeList ids' hw fun run' x hx grown' lists' => ?_)
  have later := hw.grows.trans grown'
  have hx' : Poised symbol b [] x := hv.trans hx
  refine made _ hx' ?_
  intro root y hy grown'' held' _
  refine ⟨⟨outer, ?_⟩, ?_⟩
  · rw [← seen] at hy
    exact hy
  · have since := grown.trans (later.trans grown'')
    refine .function held' (since.extend _ _ held) (words.grows since) (since.extend _ _ listed)
      (lists.grows since) (lists'.grows grown'') (lasting stands since) ⟨?_, ?_⟩
      (lasting' stands'' (grown'.trans grown''))
    · exact stands'.1.grows (later.trans grown'')
    · exact level ▸ stands'.2

/-- An encoding sees no arguments of what it is in, and its own end with it. -/
theorem encodingFrom {byte : UInt8} {bytes : List UInt8} {held : Tree → NodeId → Prop}
    (spent : base.level + levels = limit) (fits : room → base.level + 1 < limit)
    (other : Char.ofNat byte.toNat ≠ 'G' ∧ Char.ofNat byte.toNat ≠ 'T')
    (h : Poised symbol base (byte :: bytes) s)
    (read : ∀ levels t, base.level + 1 + levels = limit →
      Poised symbol { base with level := base.level + 1 }.apart (byte :: bytes) t →
      Meets room due (Parse.plainEncoding (Rule.parse limit levels)) t fun root u =>
        (∃ outer facts, Poised symbol
          (({ base with level := base.level + 1 }.apart.seeing (.of outer)).knowing facts) [] u) ∧
          held u.work.tree root) :
    Meets room due (Rule.parse limit levels .encoding) s (Found symbol base [] held) := by
  refine ruleAt spent fits h ?_
  intro levels spent below h
  show Meets room due (Parse.encoding _) _ _
  refine after run_get (after (run_modify _) (thenAlways ?_))
  have cleared := h.apart
  refine peeked cleared ?_
  split
  · exact absurd ‹_› other.1
  · exact absurd ‹_› other.2
  · refine (read levels _ spent cleared).weaken ?_
    intro root t found
    obtain ⟨⟨outer, facts, ht⟩, stands⟩ := found
    have deeper : Poised symbol { base with level := base.level + 1 } []
        { t with work := { t.work with scopes := s.work.scopes }, facts := s.facts } := by
      refine ⟨ht.ahead, ht.behind, ht.intact, ht.grows, ht.places, ?_⟩
      have restored := congrArg (fun setting : Setting =>
        { setting with scopes := s.work.scopes, facts := s.facts }) ht.setting
      refine restored.trans ?_
      rw [show s.work.scopes = base.work.scopes from h.scopes,
        show s.facts = base.facts from h.facts]
      rfl
    exact ⟨deeper.up, stands⟩

/-- The encoding of a function template. -/
theorem encoding {held : Tree → NodeId → Prop} (spent : base.level + levels = limit)
    (fits : room → base.level + 1 < limit) (h : Poised symbol base (octets ident.code ++ rest) s)
    (read : ∀ (b : ParseState) levels t, b.level = base.level + 1 → b.level + levels = limit →
      b.facts = {} → b.work.forward = base.work.forward →
      (b.forwardAllowed = base.forwardAllowed ∧ b.lambdaLevel = base.lambdaLevel) →
      Poised symbol b (octets ident.code ++ rest) t →
      Meets room due (Parse.plainEncoding (Rule.parse limit levels)) t fun root u =>
        (∃ outer, Poised symbol (b.seeing (.of outer)).instantiated [] u) ∧ held u.work.tree root) :
    Meets room due (Rule.parse limit levels .encoding) s (Found symbol base [] held) := by
  obtain ⟨byte, more, begins, opens⟩ := ident.code_opens
  have other : ∀ byte ∈ Identifier.openers,
      Char.ofNat byte.toNat ≠ 'G' ∧ Char.ofNat byte.toNat ≠ 'T' := by decide
  have whole : octets ident.code ++ rest = byte :: (more ++ rest) := by
    rw [begins]
    rfl
  rw [whole] at h read
  refine encodingFrom spent fits (other byte opens) h ?_
  intro levels t spent ht
  refine (read { base with level := base.level + 1 }.apart levels t rfl spent rfl rfl ⟨rfl, rfl⟩
    ht).weaken ?_
  intro root u found
  obtain ⟨⟨outer, hu⟩, stands⟩ := found
  exact ⟨⟨outer, _, hu⟩, stands⟩

/-- The encoding of a function has no suffix and is more than a name. -/
theorem markedEncoding {held : Tree → NodeId → Prop}
    (function : ∀ tree root, held tree root → ∀ text, tree.node root ≠ .name text)
    (read : Meets room due (Rule.parse limit levels .encoding) s (Found symbol base [] held)) :
    Meets room due (Parse.markedEncoding (Rule.parse limit levels)) s
      (Found symbol base [] held) := by
  refine after (t := s) rfl (before (read.weaken fun root t found => ?_))
  have last : (t.cursor.peekAt 0 == '.') = false := by
    rw [Cursor.peekAt, found.1.ahead]
    rfl
  refine after (a := t.work.tree.node root) (t := t) rfl (after (a := ()) (t := t) ?_ ?_)
  · split
    · exact absurd ‹_› (function _ _ found.2 _)
    · rfl
  · refine after (t := t) rfl ?_
    rw [last, if_neg Bool.false_ne_true]
    exact pure found

/-- The symbol of a function. -/
theorem functionSymbol (limit : Nat) {words : String} {bytes : List UInt8}
    {held : Tree → NodeId → Prop}
    (function : ∀ tree root, held tree root → ∀ text, tree.node root ≠ .name text)
    (fits : room → 1 < limit) (begins : octets words = [95, 90] ++ bytes)
    (generation : UInt32)
    (read : ∀ levels t, 1 + levels = limit →
      Poised words.toUTF8 { ParseState.start generation words.toUTF8 with level := 1 } bytes t →
      Meets room due (Rule.parse limit levels .encoding) t (Found words.toUTF8
        { ParseState.start generation words.toUTF8 with level := 1 } [] held)) :
    Meets room due (Rule.parse limit limit .symbol) (.start generation words.toUTF8)
      fun root t => held t.work.tree root := by
  refine ruleAt (Nat.zero_add limit) fits (poised_start generation begins) ?_
  intro levels spent below h
  show Meets _ _ (Parse.symbol _) _ _
  refine andThen (accepted [95, 90] rfl rfl h fun t ht _ => pure (before ?_))
  exact (markedEncoding function (read levels t spent ht)).weaken
    fun root u found => finished rfl found.1 found.2

/-- The symbol of a function template. -/
theorem templateSymbol (limit : Nat) (paramBytes : List UInt8) {words : String} {result : TypeForm}
    {count : Nat} {args params : Tree → Array NodeId → List NodeId → Prop} (lasting : Lasting args)
    (lasting' : Lasting params) (sized : ∀ tree outer ids, args tree outer ids → outer.size = count)
    (few : count < Number.bound) (small : words.utf8ByteSize < Number.bound)
    (proper : result.Every TypeForm.Proper) (fits : room → 4 < limit)
    (fits' : room → 2 + result.nest < limit) (ahead : Ahead TypeForm.followers paramBytes)
    (begins : octets words = [95, 90] ++ (octets ident.code ++ (73 :: argBytes)))
    (readArgs : ∀ (b : ParseState) levels t, b.level = 4 → b.level + levels = limit →
      b.Bound → Poised words.toUTF8 (b.seeing (.of #[])) argBytes t →
      Meets room none (nodesUntil "E" (Parse.scopedArg (Rule.parse limit levels))) t fun ids u =>
        ∃ outer, Poised words.toUTF8 (b.seeing (.of outer)) (octets result.code ++ paramBytes) u ∧
          args u.work.tree outer ids.toList)
    (readParams : ∀ (b : ParseState) levels outer ids t, b.level = 2 → b.level + levels = limit →
      InScope b (fun index => outer[index]?) → args t.work.tree outer ids →
      Poised words.toUTF8 b paramBytes t →
      Meets room due (do
        if ← accept "v" then Pure.pure #[]
        else someNodes atEncodingEnd (Rule.parse limit levels .type)) t fun ids u =>
          Poised words.toUTF8 b [] u ∧ params u.work.tree outer ids.toList)
    (generation : UInt32) :
    Meets room ((strayBeyond count result.indices).or due) (Rule.parse limit limit .symbol)
      (.start generation words.toUTF8) fun root t =>
        Specialized words.toUTF8 ident args (fun tree outer id =>
          result.Stored words.toUTF8 tree (fun index => outer[index]?) id ∧ 2 + result.nest < limit)
          params t.work.tree root := by
  refine functionSymbol limit (fun _ _ h => h.node_ne_name) (fun enough => ?_) begins generation
    fun levels t spent ht => encoding spent (fun enough => ?_) ht ?_
  · have := fits enough
    omega
  · have := fits enough
    show 1 + 1 < limit
    omega
  · intro b levels v level spent facts waiting bound hv
    have level : b.level = 2 := level
    have inside := plainEncoding lasting lasting' sized few small proper spent
      (fun enough => by rw [level]; exact fits enough)
      (fun enough => by rw [level]; exact fits' enough) facts waiting
      ⟨bound.1, bound.2⟩ ahead hv
      (fun b' levels t level' => readArgs b' levels t (level'.trans (by rw [level])))
      fun b' outer ids t level' => readParams b' levels outer ids t (level'.trans level)
        (by rw [level', spent])
    unfold Standing at inside
    rw [level] at inside
    exact inside

end Parse.Meets
end Unmangle
