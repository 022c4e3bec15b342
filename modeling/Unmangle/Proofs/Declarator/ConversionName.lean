import Unmangle.Proofs.Declarator.Forward

/-!
# Reading conversion functions

A conversion inside a class, with arguments. The parameter of its type waits while they are read,
and gets the one that it stands for when the name is complete.
-/
namespace Unmangle

/-- Arguments are those of the name around, and parameters may come ahead of them. -/
def ParseState.converting (s : ParseState) : ParseState :=
  { s with templateArgsAllowed := false, forwardAllowed := true }

theorem ParseState.defers_converting (s : ParseState) : s.converting.Defers :=
  ⟨rfl, rfl⟩

/-- The name that was read is one of a function without a result. -/
structure NameFacts.Resultless (facts : NameFacts) : Prop where
  without : facts.isResultless = true
  quals : facts.quals = {}
  ref : facts.ref = none

theorem Poised.converting {symbol : ByteArray} {base s : ParseState} {rest : List UInt8}
    (h : Poised symbol base rest s) : Poised symbol base.converting rest s.converting :=
  ⟨h.ahead, h.behind, h.intact, h.grows, h.places, congrArg (fun setting =>
    { setting with templateArgsAllowed := false, forwardAllowed := true }) h.setting⟩

/-- Nothing is in a tree at the beginning. -/
theorem Tree.grows_empty (generation : UInt32) (tree : Tree) :
    Tree.Grows { generation := generation } tree := by
  refine ⟨fun id node held => ?_, tree.lists, Array.empty_append.symm⟩
  have some := Option.isSome_of_eq_some held
  exact absurd (((Store.Intact.empty generation).get?_isSome_iff id).mp some).2 (Nat.not_lt_zero _)

theorem Substitutions.pop?_insert (table : Substitutions) (id : NodeId) :
    ∃ table', (table.insert id).pop? = some table' := by
  refine ⟨⟨table.entries, (table.places.insert id.index).erase id.index⟩, ?_⟩
  simp only [Substitutions.pop?, Substitutions.insert, Array.back?_push, Array.pop_push]

section Named

variable {symbol : ByteArray} {tree tree' : Tree} {ident : Identifier} {pattern : Pattern}
  {args : List TypeForm} {param root : NodeId} {outer : Array NodeId} {index : Nat}

/-- The name is one of a conversion to a pattern over a parameter, inside a class and with
arguments. -/
inductive ConversionName (symbol : ByteArray) (tree : Tree) (ident : Identifier) (pattern : Pattern)
    (args : List TypeForm) (param : NodeId) (outer : Array NodeId) (root : NodeId) : Prop
  | instantiation {named list scope part type : NodeId} {run : NodeList}
      (held : tree.get? root = some (.instantiation named list))
      (inside : tree.get? named = some (.nestedName scope part))
      (words : tree.Words symbol ident.text scope)
      (conversion : tree.get? part = some (.conversionName type))
      (leads : pattern.Leads tree param type)
      (listed : tree.get? list = some (.templateArgs run)) (lists : tree.Lists run outer.toList)
      (stored : List.Forall₂ (fun form id => form.Stored symbol tree (fun _ => none) id) args
        outer.toList) : ConversionName symbol tree ident pattern args param outer root

theorem ConversionName.stays (h : ConversionName symbol tree ident pattern args param outer root)
    (later : tree.Keeps tree') :
    ConversionName symbol tree' ident pattern args param outer root := by
  obtain ⟨held, inside, words, conversion, leads, listed, lists, stored⟩ := h
  exact .instantiation (later.node _ _ held rfl) (later.node _ _ inside rfl) (words.stays later)
    (later.node _ _ conversion rfl) (leads.stays later) (later.node _ _ listed rfl)
    (lists.stays later) (stored.imp fun form id stored => stored.stays later)

/-- The node is a function without a result whose name is one of a conversion. The parameter has got
its argument. -/
inductive ConversionFunction (symbol : ByteArray) (ident : Identifier) (pattern : Pattern)
    (index : Nat) (args : List TypeForm) (tree : Tree) (root : NodeId) : Prop
  | function {name param target : NodeId} {outer : Array NodeId} {run : NodeList}
      (held : tree.get? root = some (.function none name run {} none)) (lists : tree.Lists run [])
      (named : ConversionName symbol tree ident pattern args param outer name)
      (answered : tree.get? param = some (.forwardParam index (some target)))
      (found : outer[index]? = some target) :
      ConversionFunction symbol ident pattern index args tree root

theorem ConversionFunction.node_ne_name
    (h : ConversionFunction symbol ident pattern index args tree root) (text : Text) :
    tree.node root ≠ .name text := by
  obtain ⟨held, -⟩ := h
  rw [Tree.node_of_get? held]
  exact nofun

end Named

namespace Parse.Meets

variable {α : Type} {symbol : ByteArray} {room : Prop} {due : Option Fault}
  {limit levels index : Nat} {base s : ParseState} {rest bytes allowed : List UInt8}
  {ident : Identifier} {pattern : Pattern} {args : List TypeForm}

/-- Something more is learned of the name. -/
theorem learned {change : NameFacts → NameFacts} {f : Unit → Parse α} {Q : α → ParseState → Prop}
    (h : Poised symbol base rest s)
    (next : ∀ t, Poised symbol (base.knowing (change base.facts)) rest t → t.work = s.work →
      Meets room due (f ()) t Q) : Meets room due (learn true change >>= f) s Q := by
  refine after (run_modify _) (next _ ?_ rfl)
  rw [← h.facts]
  exact h.knowing _

section Name

/-- The name of a conversion, whose parameter waits from then on. -/
def Converted (symbol : ByteArray) (base : ParseState) (rest : List UInt8) (index : Nat)
    (pattern : Pattern) (part : NodeId) (t : ParseState) : Prop :=
  ∃ param type, Poised symbol
      ((base.awaiting param).knowing { base.facts with isResultless := true }) rest t ∧
    t.work.tree.get? part = some (.conversionName type) ∧
    pattern.Waits t.work.tree index param type ∧ t.work.substitutions.contains part = false

theorem Converted.up {part : NodeId} {t : ParseState}
    (h : Converted symbol { base with level := base.level + 1 } rest index pattern part t) :
    Converted symbol base rest index pattern part (Parse.up t) := by
  obtain ⟨param, type, ht, found⟩ := h
  exact ⟨param, type, ht.up, found⟩

/-- The type of a conversion. What was allowed before is allowed behind it. -/
theorem conversionName (small : index < Number.bound) (spent : base.level + levels = limit)
    (h : Poised symbol base (octets (pattern.code index) ++ rest) s) :
    Meets False none (operatorName.conversionName (Rule.parse limit levels) true) s
      (Converted symbol base rest index pattern) := by
  have converting : Poised symbol base.converting (octets (pattern.code index) ++ rest)
      { s with templateArgsAllowed := false, forwardAllowed := s.forwardAllowed || true } := by
    rw [Bool.or_true]
    exact h.converting
  refine after run_get (after (run_modify _) (andThen (thenAlways ?_)))
  have spent : base.converting.level + levels = limit := spent
  refine (reads_ahead small pattern spent base.defers_converting converting).weaken ?_
  intro type t found
  obtain ⟨param, ht, waits⟩ := found
  have restored : Poised symbol (base.awaiting param) rest { t with
      templateArgsAllowed := s.templateArgsAllowed, forwardAllowed := s.forwardAllowed } := by
    refine ⟨ht.ahead, ht.behind, ht.intact, ht.grows, ht.places, ?_⟩
    have same := congrArg (fun setting : Setting => { setting with
      templateArgsAllowed := s.templateArgsAllowed
      forwardAllowed := s.forwardAllowed }) ht.setting
    refine same.trans ?_
    rw [show s.templateArgsAllowed = base.templateArgsAllowed from
        congrArg Setting.templateArgsAllowed h.setting,
      show s.forwardAllowed = base.forwardAllowed from congrArg Setting.forwardAllowed h.setting]
    rfl
  refine learned restored ?_
  intro u hu same
  refine made _ hu ?_
  intro part v hv later held unlisted
  refine ⟨param, type, hv, held, ?_, unlisted⟩
  rw [same] at later
  exact waits.grows later

/-- A conversion operator is named by the type that is read behind `cv`. -/
theorem operatorName (small : index < Number.bound) (spent : base.level + levels = limit)
    (h : Poised symbol base (99 :: 118 :: (octets (pattern.code index) ++ rest)) s) :
    Meets False none (Rule.parse limit levels (.operatorName true)) s
      (Converted symbol base rest index pattern) := by
  refine ruleAt spent False.elim h ?_
  intro levels spent below h
  have cast : ∃ operator, Operator.find? (Char.ofNat (99 : UInt8).toNat)
      (Char.ofNat (118 : UInt8).toNat) = some operator ∧ operator.form = .cast := ⟨_, rfl, rfl⟩
  obtain ⟨operator, found, form⟩ := cast
  refine peekedPair h ?_
  rw [peekAt_second h]
  dsimp only
  rw [found]
  dsimp only
  rw [form]
  have h : Poised symbol _ ([99, 118] ++ (octets (pattern.code index) ++ rest)) _ := h
  refine advanced [99, 118] h ?_
  intro t ht
  exact (conversionName small spent ht).weaken fun part u found => found.up

/-- A conversion as a name of its own. -/
theorem unqualifiedConversion (small : index < Number.bound) (spent : base.level + levels = limit)
    (ahead : Ahead allowed rest) (other : ∀ byte ∈ allowed, byte.toNat ≠ 'B'.toNat)
    (h : Poised symbol base (99 :: 118 :: (octets (pattern.code index) ++ rest)) s) :
    Meets False none (Rule.parse limit levels (.unqualifiedName true)) s
      (Converted symbol base rest index pattern) := by
  refine ruleAt spent False.elim h ?_
  intro levels spent below h
  refine peekedPair h ?_
  refine andThen ((operatorName small spent h).weaken fun part t found => ?_)
  obtain ⟨param, type, ht, held⟩ := found
  exact untagged ht ahead other (Converted.up ⟨param, type, ht, held⟩)

end Name

section Parts

variable {scope name : NodeId}

/-- Neither of the letters that may stand in front of a component comes next. -/
theorem partOpened {byte : UInt8} {first : Parse (Option NodeId)}
    {part : Char × Char → Parse (Option NodeId)} {Q : Option NodeId → ParseState → Prop}
    (h : Poised symbol base (byte :: bytes) s)
    (other : byte.toNat ≠ 'L'.toNat ∧ byte.toNat ≠ 'M'.toNat)
    (next : Meets room due (part (Char.ofNat byte.toNat, s.cursor.peekAt 1)) s Q) :
    Meets room due (do
      ensure (!(← atEnd)) (throw .unexpectedEnd)
      discard (accept "L")
      if ← accept "M" then first else part (← peekPair)) s Q := by
  have more : s.cursor.atEnd = false := by
    rw [Cursor.atEnd, h.ahead]
    rfl
  have opening : Ahead [byte] (byte :: bytes) := Ahead.cons (List.mem_singleton_self _) _
  refine after (a := s.cursor.atEnd) (t := s) rfl ?_
  rw [more]
  refine after (a := ()) (t := s) rfl (andThen ?_)
  refine rejected "L" rfl h opening (List.forall_mem_singleton.mpr other.1) (pure ?_)
  refine rejected "M" rfl h opening (List.forall_mem_singleton.mpr other.2) ?_
  exact peekedPair h next

/-- The class that the conversion is inside. -/
theorem classPart (small : symbol.size < Number.bound) (spent : base.level + levels = limit)
    (ahead : Ahead allowed rest) (other : ∀ byte ∈ allowed, byte.toNat ≠ 'B'.toNat)
    (h : Poised symbol base (octets ident.code ++ rest) s) :
    Meets False none (nestedPart (Rule.parse limit levels) true none) s fun scope t =>
      ∃ id, scope = some id ∧
        Poised symbol (base.knowing { base.facts with endsWithTemplateArgs := false }) rest t ∧
        t.work.tree.Words symbol ident.text id := by
  have core : Meets False none (do
      nestedPart.listedPart true none (← Rule.parse limit levels (.unqualifiedName true))) s
      fun scope t => ∃ id, scope = some id ∧
        Poised symbol (base.knowing { base.facts with endsWithTemplateArgs := false }) rest t ∧
        t.work.tree.Words symbol ident.text id := by
    refine andThen ((unqualifiedName true small spent False.elim ahead other h).weaken
      fun id t fresh => ?_)
    obtain ⟨⟨ht, words, -⟩, isSome, unlisted⟩ := fresh
    refine andThen (after (t := t) rfl (learned ht fun u hu same => pure ?_))
    rw [← same] at words isSome unlisted
    refine enlisted hu isSome unlisted ?_
    intro v hv same
    refine pure ⟨id, rfl, hv, ?_⟩
    rwa [same]
  obtain ⟨byte, more, begins, opens⟩ := ident.code_opens
  have opening := h
  rw [begins] at opening
  have every : ∀ byte ∈ Identifier.openers, byte.toNat ≠ 'L'.toNat ∧ byte.toNat ≠ 'M'.toNat := by
    decide
  refine partOpened opening (every byte opens) ?_
  rcases Identifier.cases_openers opens with rfl | rfl | rfl | rfl | rfl | rfl | rfl | rfl | rfl <;>
    exact core

/-- The conversion, inside the class. -/
theorem conversionPart (small : index < Number.bound) (spent : base.level + levels = limit)
    (ahead : Ahead allowed rest) (other : ∀ byte ∈ allowed, byte.toNat ≠ 'B'.toNat)
    (h : Poised symbol base (99 :: 118 :: (octets (pattern.code index) ++ rest)) s) :
    Meets False none (nestedPart (Rule.parse limit levels) true (some scope)) s fun complete t =>
      ∃ id part type param, complete = some id ∧ Poised symbol ((base.awaiting param).knowing
          { base.facts with isResultless := true, endsWithTemplateArgs := false }) rest t ∧
        t.work.tree.get? id = some (.nestedName scope part) ∧
        t.work.tree.get? part = some (.conversionName type) ∧
        pattern.Waits t.work.tree index param type := by
  refine partOpened h (by decide) ?_
  rw [peekAt_second h]
  refine andThen ((unqualifiedConversion small spent ahead other h).weaken fun part t found => ?_)
  obtain ⟨param, type, ht, held, waits, -⟩ := found
  refine andThen (andThen (made _ ht fun id u hu later held' unlisted => ?_))
  refine learned hu ?_
  intro v hv same
  refine pure ?_
  rw [← same] at held' unlisted later
  refine enlisted hv (isSome_of_held held') unlisted ?_
  intro w hw same
  refine pure ?_
  rw [← same] at held' later
  exact ⟨id, part, type, param, rfl, hw, held', later.extend _ _ held, waits.grows later⟩

/-- What the arguments of a name are stored as. -/
def Supplied (symbol : ByteArray) (args : List TypeForm) (tree : Tree) (outer : Array NodeId)
    (ids : List NodeId) : Prop :=
  outer.toList = ids ∧
    List.Forall₂ (fun form id => form.Stored symbol tree (fun _ => none) id) args ids

theorem Supplied.lasting : Lasting (Supplied symbol args) := by
  rintro tree tree' outer ids ⟨same, stored⟩ later
  exact ⟨same, stored.imp fun form id stored => stored.grows later⟩

/-- The arguments behind the name. What they complete comes last on the list. -/
theorem argumentsPart (readable : ∀ form ∈ args, Readable symbol False limit (fun _ => none) form)
    (closed : ∀ form ∈ args, form.indices = []) (spent : base.level + levels = limit)
    (bound : base.Bound)
    (h : Poised symbol base
      (73 :: (octets (String.join (args.map TypeForm.code)) ++ (69 :: rest))) s) :
    Meets False none (nestedPart (Rule.parse limit levels) true (some name)) s fun complete t =>
      ∃ id list run ids, ∃ outer : Array NodeId, complete = some id ∧
        Poised symbol (base.seeing (.of outer)).instantiated rest t ∧
        s.work.tree.Grows t.work.tree ∧ (∃ table, t.work.substitutions.pop? = some table) ∧
        t.work.tree.get? id = some (.instantiation name list) ∧
        t.work.tree.get? list = some (.templateArgs run) ∧ t.work.tree.Lists run ids ∧
        Supplied symbol args t.work.tree outer ids := by
  refine partOpened h (by decide) ?_
  refine after (t := s) (a := name) rfl (andThen ?_)
  have read (b : ParseState) (levels : Nat) (t : ParseState) (spent : b.level + levels = limit)
      (bound : b.Bound) (ht : Poised symbol (b.seeing (.of #[]))
        (octets (String.join (args.map TypeForm.code)) ++ (69 :: rest)) t) :
      Meets False none (nodesUntil "E" (Parse.scopedArg (Rule.parse limit levels))) t fun ids u =>
        ∃ outer, Poised symbol (b.seeing (.of outer)) rest u ∧
          Supplied symbol args u.work.tree outer ids.toList :=
    (readArgs readable closed spent False.elim bound ht).weaken fun ids u found =>
      ⟨ids, found.1, rfl, found.2.imp fun form id held => held.1⟩
  refine (instantiate Supplied.lasting spent False.elim h bound fun b levels t _ => read b levels
    t).weaken ?_
  intro id t found
  obtain ⟨outer, list, run, ids, ht, later, held, listed, lists, supplied, unlisted⟩ := found
  refine enlistedLast ht (isSome_of_held held) unlisted ?_
  intro u hu same table
  refine pure ?_
  rw [← same] at later held listed lists supplied
  obtain ⟨table', popped⟩ := t.work.substitutions.pop?_insert id
  rw [← table] at popped
  exact ⟨id, list, run, ids, outer, rfl, hu, later, ⟨table', popped⟩, held, listed, lists, supplied⟩

end Parts

section Whole

/-- A conversion inside a class was named, and its parameter waits for one of the arguments. -/
def Named (symbol : ByteArray) (base : ParseState) (rest : List UInt8) (ident : Identifier)
    (pattern : Pattern) (index : Nat) (args : List TypeForm) (id : NodeId) (t : ParseState) : Prop :=
  ∃ facts param, ∃ outer : Array NodeId, facts.Resultless ∧
    Poised symbol (((base.awaiting param).seeing (.of outer)).knowing facts) rest t ∧
    ConversionName symbol t.work.tree ident pattern args param outer id ∧
    t.work.tree.get? param = some (.forwardParam index none)

theorem Named.up {id : NodeId} {t : ParseState}
    (h : Named symbol { base with level := base.level + 1 } rest ident pattern index args id t) :
    Named symbol base rest ident pattern index args id (Parse.up t) := by
  obtain ⟨facts, param, outer, resultless, ht, found⟩ := h
  exact ⟨facts, param, outer, resultless, ht.up, found⟩

/-- The number of the parameter and the arguments can be read. -/
structure Legible (symbol : ByteArray) (limit index : Nat) (args : List TypeForm) : Prop where
  sized : symbol.size < Number.bound
  small : index < Number.bound
  readable : ∀ form ∈ args, Readable symbol False limit (fun _ => none) form
  closed : ∀ form ∈ args, form.indices = []

/-- The components of the name of a conversion, with something behind the name. -/
def componentBytes (ident : Identifier) (pattern : Pattern) (index : Nat) (args : List TypeForm)
    (rest : List UInt8) : List UInt8 :=
  octets ident.code ++ (99 :: 118 :: (octets (pattern.code index) ++ (73 ::
    (octets (String.join (args.map TypeForm.code)) ++ (69 :: 69 :: rest)))))

/-- The components are read one after another, each inside of those before it. -/
theorem components {first second third : UInt8} {more : List UInt8}
    (legible : Legible symbol limit index args) (spent : base.level + levels = limit)
    (bound : base.Bound) (plain : base.facts.quals = {} ∧ base.facts.ref = none)
    (h : Poised symbol base (componentBytes ident pattern index args rest) s) :
    Meets False none (repeatUntil (accept "E") (nestedPart (Rule.parse limit levels) true)
      (0 :: first :: second :: third :: more) none) s fun complete t =>
        ∃ id, complete = some id ∧ Named symbol base rest ident pattern index args id t ∧
          ∃ table, t.work.substitutions.pop? = some table := by
  -- the class
  refine nextRound (run_reject "E" rfl h (ident.ahead_code _) (by decide)) ?_
  refine (classPart legible.sized spent (Ahead.cons (List.mem_singleton_self 99) _) (by decide)
    h).weaken ?_
  intro scope u found
  obtain ⟨scope, rfl, hu, words⟩ := found
  -- the conversion
  have deep : u.level + levels = limit := by rw [hu.level]; exact spent
  refine nextRound (run_reject "E" rfl hu (Ahead.cons (List.mem_singleton_self 99) _) (by decide)) ?_
  refine (conversionPart legible.small deep (Ahead.cons (List.mem_singleton_self 73) _) (by decide)
    hu.self).weaken ?_
  intro named v found
  obtain ⟨named, part, type, param, rfl, hv, inside, conversion, waits⟩ := found
  -- the arguments
  have deep : v.level + levels = limit := by rw [hv.level]; exact deep
  have whole := ((hu.awaiting param).knowing _).trans hv
  refine nextRound (run_reject "E" rfl hv (Ahead.cons (List.mem_singleton_self 73) _) (by decide)) ?_
  refine (argumentsPart legible.readable legible.closed deep (whole.bound ⟨bound.1, bound.2⟩)
    hv.self).weaken ?_
  intro id w found
  obtain ⟨id, list, run, ids, outer, rfl, hw, later, popped, held, listed, lists, rfl, stored⟩ := found
  -- the end
  have whole : Poised symbol _ ([69] ++ rest) w := (whole.seeing (.of outer)).instantiated.trans hw
  refine after (run_accept [69] rfl rfl whole) (pure ⟨id, rfl, ?_, popped⟩)
  have plain : u.facts.quals = {} ∧ u.facts.ref = none := by
    rw [hu.facts]
    exact plain
  refine ⟨{ u.facts with isResultless := true, endsWithTemplateArgs := true }, param, outer,
    ⟨rfl, plain.1, plain.2⟩, whole.passed [69], ?_, later.extend _ _ waits.waits⟩
  exact .instantiation held (later.extend _ _ inside) ((words.grows hv.grows).grows later)
    (later.extend _ _ conversion) (waits.grows later).leads listed lists stored

/-- Neither qualifiers nor the standard library come before the components. -/
theorem nestedParts (legible : Legible symbol limit index args) (spent : base.level + levels = limit)
    (bound : base.Bound)
    (h : Poised symbol base (78 :: componentBytes ident pattern index args rest) s) :
    Meets False none (Parse.nestedParts (Rule.parse limit levels) true) s fun id t =>
      Named symbol base rest ident pattern index args id t ∧
        ∃ table, t.work.substitutions.pop? = some table := by
  have h : Poised symbol base ([78] ++ _) s := h
  have opening : Ahead Identifier.openers (componentBytes ident pattern index args rest) :=
    ident.ahead_code _
  refine expected [78] rfl rfl h ?_
  intro t ht
  refine andThen (rejected "r" rfl ht opening (by decide) ?_)
  refine rejected "V" rfl ht opening (by decide) (rejected "K" rfl ht opening (by decide) (pure ?_))
  refine andThen (rejected "O" rfl ht opening (by decide) ?_)
  refine rejected "R" rfl ht opening (by decide) (pure (learned ht fun u hu _ => ?_))
  refine rejected "St" rfl hu opening (by decide) (after (a := none) (t := u) rfl ?_)
  -- every component takes a round, and the end another
  have enough : ∃ first second third more, u.cursor.rest = first :: second :: third :: more := by
    obtain ⟨byte, more, begins, -⟩ := ident.code_opens
    rw [hu.ahead, begins]
    cases more with
    | nil => exact ⟨_, _, _, _, rfl⟩
    | cons second more => cases more <;> exact ⟨_, _, _, _, rfl⟩
  obtain ⟨first, second, third, more, enough⟩ := enough
  refine andThen (after run_get ?_)
  rw [enough]
  have spent : u.level + levels = limit := by rw [hu.level]; exact spent
  have bound : u.Bound := hu.bound ⟨bound.1, bound.2⟩
  have plain : u.facts.quals = {} ∧ u.facts.ref = none := by
    rw [hu.facts]
    exact ⟨rfl, rfl⟩
  refine (components legible spent bound plain hu.self).weaken ?_
  intro complete v found
  obtain ⟨id, rfl, ⟨facts, param, outer, resultless, hv, found⟩, popped⟩ := found
  have whole := (((hu.awaiting param).seeing (.of outer)).knowing facts).trans hv
  exact pure ⟨⟨facts, param, outer, resultless, whole, found⟩, popped⟩

/-- The whole name is no part of another. -/
theorem nestedName (legible : Legible symbol limit index args) (spent : base.level + levels = limit)
    (bound : base.Bound)
    (h : Poised symbol base (78 :: componentBytes ident pattern index args rest) s) :
    Meets False none (Rule.parse limit levels (.nestedName true)) s
      (Named symbol base rest ident pattern index args) := by
  refine ruleAt spent False.elim h ?_
  intro levels spent below h
  have bound : ParseState.Bound { base with level := base.level + 1 } := ⟨bound.1, bound.2⟩
  refine andThen ((nestedParts legible spent bound h).weaken fun id t found => ?_)
  obtain ⟨⟨facts, param, outer, resultless, ht, named, waits⟩, table, popped⟩ := found
  refine delisted popped ht ?_
  intro u hu same
  refine pure (Named.up ?_)
  rw [← same] at named waits
  exact ⟨facts, param, outer, resultless, hu, named, waits⟩

/-- The name of a conversion inside a class. -/
theorem conversionNamed (legible : Legible symbol limit index args)
    (spent : base.level + levels = limit) (bound : base.Bound)
    (h : Poised symbol base (78 :: componentBytes ident pattern index args rest) s) :
    Meets False none (Rule.parse limit levels (.name true)) s
      (Named symbol base rest ident pattern index args) := by
  refine ruleAt spent False.elim h ?_
  intro levels spent below h
  refine peekedPair h ?_
  have bound : ParseState.Bound { base with level := base.level + 1 } := ⟨bound.1, bound.2⟩
  exact (nestedName legible spent bound h).weaken fun id t named => named.up

/-- A conversion writes no result, and its parameter gets the argument before those of the function
are read. Without one there is a fault. -/
theorem conversionEncoding (legible : Legible symbol limit index args)
    (spent : base.level + levels = limit) (bound : base.Bound) (waiting : base.work.forward = #[])
    (first : ∀ tree, base.work.tree.Grows tree)
    (h : Poised symbol base (78 :: componentBytes ident pattern index args [118]) s) :
    Meets False (if index < args.length then none else some .unresolvedForwardReference)
      (Parse.plainEncoding (Rule.parse limit levels)) s fun root t =>
        (∃ outer facts, Poised symbol ((base.seeing (.of outer)).knowing facts) [] t) ∧
          ConversionFunction symbol ident pattern index args t.work.tree root := by
  refine after run_get (andThen ?_)
  refine (conversionNamed legible spent bound h).weaken ?_
  intro name t found
  obtain ⟨facts, param, outer, resultless, ht, named, waits⟩ := found
  have marked : s.work.forward.size = 0 := by
    rw [show s.work.forward = base.work.forward from congrArg Setting.forward h.setting, waiting]
    rfl
  rw [marked]
  have size : outer.size = args.length := by
    obtain ⟨-, -, -, -, -, -, -, stored⟩ := named
    exact stored.length_eq.symm
  rw [← size, ← Option.or_none (o := if index < outer.size then _ else _)]
  have ht : Poised symbol (((base.seeing (.of outer)).knowing facts).awaiting param) [118] t := ht
  have waiting : ((base.seeing (.of outer)).knowing facts).work.forward = #[] := waiting
  refine answered waiting first rfl ht waits ?_
  intro target u found hu keeps answered
  have starts : (118 : UInt8) ∈ TypeForm.starters := by decide
  refine after (run_atEncodingEnd_of_starter starts hu) (after run_get ?_)
  rw [show u.facts = facts from hu.facts]
  dsimp only
  rw [resultless.without, resultless.quals, resultless.ref]
  refine after (a := none) (t := u) rfl ?_
  have hu : Poised symbol _ ([118] ++ []) u := hu
  refine accepted [118] rfl rfl hu ?_
  intro v hv work
  refine after (a := #[]) (t := v) rfl (andThen (madeList #[] hv fun run w hw later lists => ?_))
  refine made _ hw ?_
  intro root x hx later' held _
  refine ⟨⟨outer, facts, hx⟩, ?_⟩
  rw [work] at later
  have since := later.trans later'
  exact .function held (lists.grows later') ((named.stays keeps).stays since.keeps)
    (since.extend _ _ answered) found

/-- The symbol of a conversion. -/
theorem conversionSymbol (limit : Nat) {words : String} (sized : words.utf8ByteSize < Number.bound)
    (small : index < Number.bound) (proper : ∀ form ∈ args, form.Every TypeForm.Proper)
    (closed : ∀ form ∈ args, form.indices = [])
    (begins : octets words = [95, 90] ++ (78 :: componentBytes ident pattern index args [118]))
    (generation : UInt32) :
    Meets False (if index < args.length then none else some .unresolvedForwardReference)
      (Rule.parse limit limit .symbol) (.start generation words.toUTF8) fun root t =>
        ConversionFunction words.toUTF8 ident pattern index args t.work.tree root := by
  have legible : Legible words.toUTF8 limit index args :=
    ⟨sized, small, fun form member => ⟨reads sized (proper form member), proper form member⟩, closed⟩
  refine functionSymbol limit (fun _ _ h => h.node_ne_name) False.elim begins generation ?_
  intro levels t spent ht
  refine encodingFrom spent False.elim (by decide) ht ?_
  intro levels u spent hu
  exact conversionEncoding legible spent ⟨rfl, rfl⟩ rfl (Tree.grows_empty generation) hu

end Whole

end Parse.Meets
end Unmangle
