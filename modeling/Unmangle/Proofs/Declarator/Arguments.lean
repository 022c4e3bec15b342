import Unmangle.Proofs.Declarator.Kinds

/-!
# Reading template arguments

An argument sees no parameters, and comes into scope behind those before it. The arguments of a
name are in scope for what is read behind the name.
-/
namespace Unmangle

def ParseState.seeing (s : ParseState) (scopes : TemplateScopes) : ParseState :=
  { s with work := { s.work with scopes := scopes } }

def TemplateScopes.of (outer : Array NodeId) : TemplateScopes :=
  ⟨#[.outer], outer⟩

/-- Arguments were read, but none is in scope. -/
def TemplateScopes.unseen (outer : Array NodeId) : TemplateScopes :=
  ⟨#[], outer⟩

namespace Poised

variable {symbol : ByteArray} {base s : ParseState} {rest : List UInt8}

theorem scopes (h : Poised symbol base rest s) : s.work.scopes = base.work.scopes :=
  congrArg Setting.scopes h.setting

theorem seeing (h : Poised symbol base rest s) (scopes : TemplateScopes) :
    Poised symbol (base.seeing scopes) rest (s.seeing scopes) :=
  ⟨h.ahead, h.behind, h.intact, h.grows, h.places,
    congrArg (fun setting => { setting with scopes := scopes }) h.setting⟩

/-- What was in scope before does not matter when it changes again. -/
theorem thenSeeing {t : ParseState} {rest' : List UInt8} {scopes scopes' : TemplateScopes}
    (h : Poised symbol (base.seeing scopes) rest s) (later : Poised symbol (s.seeing scopes') rest' t) :
    Poised symbol (base.seeing scopes') rest' t :=
  (h.seeing scopes').trans later

end Poised

namespace InScope

variable {base : ParseState}

theorem unseen (bound : base.Bound) (outer : Array NodeId) :
    InScope (base.seeing (.unseen outer)) fun _ => none :=
  ⟨fun _ => rfl, fun _ _ => nofun, bound.1, bound.2⟩

/-- The arguments of a list are in scope by their places. -/
theorem of (bound : base.Bound)
    {outer : Array NodeId} (small : outer.size < Number.bound) :
    InScope (base.seeing (.of outer)) fun index => outer[index]? where
  argument _ := rfl
  small index target found := by
    obtain ⟨inside, -⟩ := Array.getElem?_eq_some_iff.mp found
    exact Nat.lt_trans inside small
  bound := ⟨bound.1, bound.2⟩

end InScope

/-- What is said of some names stays so when the tree grows. -/
def Lasting {α β : Type} (held : Tree → α → β → Prop) : Prop :=
  ∀ ⦃tree tree' : Tree⦄ ⦃a b⦄, held tree a b → tree.Grows tree' → held tree' a b

/-- No form is stored as a pack. -/
theorem TypeForm.Stored.node_ne_pack {symbol : ByteArray} {tree : Tree}
    {scope : Nat → Option NodeId} {form : TypeForm} {id : NodeId}
    (h : form.Stored symbol tree scope id) (elements : NodeList) :
    tree.node id ≠ .argumentPack elements := by
  have other {node : Node} (held : tree.get? id = some node) (different : node ≠ .argumentPack elements) :
      tree.node id ≠ .argumentPack elements := by
    rwa [Tree.node_of_get? held]
  cases h with
  | builtin held | rare held | named held =>
    obtain ⟨text, held, -⟩ := held
    exact other held nofun
  | pointer held _ | reference held _ | memberPointer held _ _ | array held _ _
  | function held _ _ _ | qualified held _ | param held _ => exact other held nofun

/-- The names of a pack and of what it is in scope as, and of its elements. -/
inductive Packed (symbol : ByteArray) (args : List TypeForm) (tree : Tree) :
    Array NodeId → List NodeId → Prop
  | pack {pack entry : NodeId} {run : NodeList} {ids : List NodeId}
      (held : tree.get? pack = some (.argumentPack run))
      (held' : tree.get? entry = some (.parameterPack run)) (lists : tree.Lists run ids)
      (stored : List.Forall₂ (fun form id => form.Stored symbol tree (fun _ => none) id) args ids) :
      Packed symbol args tree #[entry] [pack]

theorem Packed.lasting {symbol : ByteArray} {args : List TypeForm} : Lasting (Packed symbol args) := by
  rintro tree tree' outer ids ⟨held, held', lists, stored⟩ later
  exact .pack (later.extend _ _ held) (later.extend _ _ held') (lists.grows later)
    (stored.imp fun form id stored => stored.grows later)

namespace Parse.Meets

variable {α : Type} {symbol : ByteArray} {room : Prop} {due : Option Fault} {limit levels : Nat}
  {scope : Nat → Option NodeId} {base s : ParseState} {rest bytes : List UInt8}
  {form : TypeForm} {outer : Array NodeId} {held : Tree → NodeId → Prop}

theorem dueAmong_none {ι : Type} (items : List ι) : dueAmong (fun _ => none) items = none := by
  induction items with
  | nil => rfl
  | cons item items ih => exact ih

/-- A type as a template argument. -/
theorem templateArg (reads : Reads symbol room limit scope form) (closed : form.indices = [])
    (proper : form.Every TypeForm.Proper) (spent : base.level + levels = limit)
    (fits : room → base.level + 1 + form.nest < limit) (ahead : Ahead TypeForm.followers rest)
    (inScope : InScope base scope) (h : Poised symbol base (octets form.code ++ rest) s) :
    Meets room none (Rule.parse limit levels .templateArg) s
      (Found symbol base rest
        (Standing symbol limit scope { base with level := base.level + 1 } form)) := by
  refine ruleAt spent (fun enough => by have := fits enough; omega) h fun levels spent below h => ?_
  obtain ⟨byte, more, begins, opens⟩ := TypeForm.code_opens proper
  have every : ∀ byte ∈ TypeForm.starters, Char.ofNat byte.toNat ≠ 'X' ∧
      Char.ofNat byte.toNat ≠ 'J' ∧ Char.ofNat byte.toNat ≠ 'L' := by decide
  obtain ⟨notX, notJ, notL⟩ := every byte (TypeForm.openers_subset proper byte opens)
  have ahead' := h
  rw [begins] at ahead'
  refine peekedPair ahead' ?_
  have nowhere : strayAmong scope form.indices = none := by
    rw [closed]
    rfl
  dsimp only
  split
  · exact absurd (congrArg Prod.fst ‹_›) notX
  · exact absurd (congrArg Prod.fst ‹_›) notJ
  · exact absurd (congrArg Prod.fst ‹_›) notL
  · exact absurd (congrArg Prod.fst ‹_›) notL
  · rw [← nowhere]
    exact (reads spent fits ahead inScope.deeper h).weaken fun id t found => ⟨found.1.up, found.2⟩

/-- An argument is read with none in scope, and goes behind those that were read before. -/
theorem scopedArg {call : Calls} {Q : NodeId → ParseState → Prop} (within : base.work.scopes = .of outer)
    (h : Poised symbol base bytes s)
    (read : ∀ t, Poised symbol (base.seeing (.unseen outer)) bytes t →
      Meets room none (call .templateArg) t (Found symbol (base.seeing (.unseen outer)) rest held))
    (entered : ∀ id u, Poised symbol base rest u → held u.work.tree id →
      Meets room none (do
        let entry ← (match ← node id with
          | .argumentPack elements => make (.parameterPack elements)
          | _ => Pure.pure id)
        addArgument entry
        Pure.pure id) u Q) :
    Meets room none (Parse.scopedArg call) s Q := by
  have scopes := h.scopes.trans within
  refine after run_get (after (run_modify _) (andThen (thenAlways ?_)))
  have unseen : Poised symbol (base.seeing (.unseen outer)) bytes
      { s with work := { s.work with scopes := { s.work.scopes with levels := #[] } } } := by
    have seen := h.seeing (.unseen outer)
    rwa [show s.seeing (.unseen outer) = { s with work := { s.work with
      scopes := { s.work.scopes with levels := #[] } } } by rw [scopes]; rfl] at seen
  refine (read _ unseen).weaken ?_
  intro id u found
  refine entered id _ ?_ found.2
  have again := found.1.seeing (.of outer)
  have same : (base.seeing (.unseen outer)).seeing (.of outer) = base := by
    rw [← within]
    rfl
  rw [same] at again
  rwa [show u.seeing (.of outer) = { u with work := { u.work with
    scopes := { u.work.scopes with levels := s.work.scopes.levels } } } by
      rw [scopes, found.1.scopes]; rfl] at again

/-- One more argument is in scope. -/
theorem addedArgument {entry : NodeId} {f : Unit → Parse α} {Q : α → ParseState → Prop}
    (within : base.work.scopes = .of outer) (h : Poised symbol base rest s)
    (next : ∀ t, Poised symbol (base.seeing (.of (outer.push entry))) rest t →
      t.work.tree = s.work.tree → Meets room due (f ()) t Q) :
    Meets room due (addArgument entry >>= f) s Q := by
  have scopes := h.scopes.trans within
  refine after (t := s.seeing (.of (outer.push entry))) ?_ (next _ (h.seeing _) rfl)
  simp only [addArgument, step, scopes, TemplateScopes.of]
  rfl

/-- A type is an argument of its own. -/
theorem scopedType (readable : Readable symbol room limit (fun _ => none) form)
    (closed : form.indices = []) (spent : base.level + levels = limit)
    (fits : room → base.level + 1 + form.nest < limit) (ahead : Ahead TypeForm.followers rest)
    (bound : base.Bound)
    (within : base.work.scopes = .of outer) (h : Poised symbol base (octets form.code ++ rest) s) :
    Meets room none (Parse.scopedArg (Rule.parse limit levels)) s fun id t =>
      Poised symbol (base.seeing (.of (outer.push id))) rest t ∧
        Standing symbol limit (fun _ => none) { base with level := base.level + 1 } form
          t.work.tree id := by
  refine scopedArg within h
    (fun t ht => templateArg readable.reads closed readable.proper spent fits ahead
      (.unseen bound outer) ht) ?_
  intro id u hu stands
  · have plain : (match u.work.tree.node id with
        | .argumentPack elements => make (.parameterPack elements)
        | _ => Pure.pure id : Parse NodeId) = Pure.pure id := by
      split
      · exact absurd ‹_› (stands.1.node_ne_pack _)
      · rfl
    refine after (a := u.work.tree.node id) (t := u) rfl ?_
    rw [plain]
    refine after (t := u) (a := id) rfl (addedArgument within hu fun v hv same => pure ⟨hv, ?_⟩)
    rw [same]
    exact stands

/-- Types up to the end of the arguments. -/
theorem readArgs {args : List TypeForm}
    (readable : ∀ form ∈ args, Readable symbol room limit (fun _ => none) form)
    (closed : ∀ form ∈ args, form.indices = []) (spent : base.level + levels = limit)
    (fits : room → ∀ form ∈ args, base.level + 1 + form.nest < limit)
    (bound : base.Bound)
    (h : Poised symbol (base.seeing (.of #[]))
      (octets (String.join (args.map TypeForm.code)) ++ (69 :: rest)) s) :
    Meets room none (nodesUntil "E" (Parse.scopedArg (Rule.parse limit levels))) s fun ids t =>
      Poised symbol (base.seeing (.of ids)) rest t ∧
        Listed symbol limit (fun _ => none) { base with level := base.level + 1 } args
          t.work.tree ids.toList := by
  have ends : Ahead TypeForm.followers (69 :: rest) := Ahead.cons (by decide) _
  rw [← dueAmong_none args]
  refine after run_get (rounds _ (fun left ids t =>
    Poised symbol (base.seeing (.of ids))
      (octets (String.join (left.map TypeForm.code)) ++ (69 :: rest)) t ∧
    ∃ done, done ++ left = args ∧ Listed symbol limit (fun _ => none)
      { base with level := base.level + 1 } done t.work.tree ids.toList) ?_ ?_ ?_ ?_ ⟨h, [], rfl, .nil⟩)
  · rintro ids t ⟨ht, done, rfl, listed⟩
    rw [List.append_nil]
    have ht : Poised symbol _ ([69] ++ rest) t := ht
    exact known (run_accept [69] rfl rfl ht) ⟨rfl, ht.passed [69], listed⟩
  · rintro form left ids t ⟨ht, done, rfl, -⟩
    have proper := (readable form (List.mem_append_right _ List.mem_cons_self)).proper
    rw [List.map_cons, String.join_cons, octets_append, List.append_assoc] at ht
    exact run_reject "E" rfl ht (TypeForm.ahead_code proper _) (by decide)
  · rintro form left ids t ⟨ht, done, rfl, listed⟩
    have member : form ∈ done ++ form :: left := List.mem_append_right _ List.mem_cons_self
    have others : ∀ other ∈ left, other.Every TypeForm.Proper := fun other member =>
      (readable other (List.mem_append_right _ (List.mem_cons_of_mem _ member))).proper
    have level : t.level = base.level := ht.level
    have bound' : t.Bound := ht.bound ⟨bound.1, bound.2⟩
    rw [List.map_cons, String.join_cons, octets_append, List.append_assoc] at ht
    refine before ((scopedType (readable form member) (closed form member) (level ▸ spent)
      (fun enough => level ▸ fits enough form member) (ahead_join others ends) bound'
      ht.scopes ht.self).weaken fun id u found => pure ?_)
    obtain ⟨hu, stands, low⟩ := found
    refine ⟨ht.thenSeeing hu, done ++ [form], ?_, (listed.grows hu.grows).push ⟨stands, ?_⟩⟩
    · rw [List.append_assoc, List.singleton_append]
    · have low : t.level + 1 + form.nest < limit := low
      exact level ▸ low
  · have size := TypeForm.length_le_join fun form member => (readable form member).proper
    rw [h.ahead]
    simp only [List.length_cons, List.length_append]
    omega

section Packs

variable {args : List TypeForm}

/-- Types as the elements of a pack. -/
theorem packElements (readable : ∀ form ∈ args, Readable symbol room limit scope form)
    (closed : ∀ form ∈ args, form.indices = []) (spent : base.level + levels = limit)
    (fits : room → ∀ form ∈ args, base.level + 1 + form.nest < limit) (inScope : InScope base scope)
    (h : Poised symbol base (octets (String.join (args.map TypeForm.code)) ++ (69 :: rest)) s) :
    Meets room none (nodesUntil "E" (Rule.parse limit levels .templateArg)) s fun ids t =>
      Poised symbol base rest t ∧
        List.Forall₂ (fun form id => form.Stored symbol t.work.tree scope id) args ids.toList := by
  have ends : Ahead TypeForm.followers (69 :: rest) := Ahead.cons (by decide) _
  rw [← dueAmong_none args]
  refine after run_get (rounds _ (Left symbol limit scope base (69 :: rest) args) ?_ ?_ ?_ ?_
    (Left.begin h))
  · intro ids t left
    have ht : Poised symbol base ([69] ++ rest) t := left.all.1
    exact known (run_accept [69] rfl rfl ht)
      ⟨rfl, ht.passed [69], left.all.2.imp fun form id held => held.1⟩
  · intro form left ids t h
    have proper := (readable form (h.mem form List.mem_cons_self)).proper
    exact run_reject "E" rfl h.next (TypeForm.ahead_code proper _) (by decide)
  · intro form left ids t h
    have member := h.mem form List.mem_cons_self
    have next := h.next
    have level : t.level = base.level := next.level
    refine before ((templateArg (readable form member).reads (closed form member)
      (readable form member).proper (level ▸ spent) (fun enough => level ▸ fits enough form member)
      (h.ahead readable ends) (inScope.later next) next.self).weaken fun id u found => pure ?_)
    obtain ⟨hu, stored, low⟩ := found
    have low : t.level + 1 + form.nest < limit := low
    rw [level] at low
    exact h.push (next.trans hu) hu.grows ⟨stored, by omega⟩
  · have size := TypeForm.length_le_join fun form member => (readable form member).proper
    rw [h.ahead]
    simp only [List.length_cons, List.length_append]
    omega

/-- A pack as a template argument. -/
theorem packArg (readable : ∀ form ∈ args, Readable symbol room limit scope form)
    (closed : ∀ form ∈ args, form.indices = []) (spent : base.level + levels = limit)
    (fits : room → base.level + 1 < limit ∧ ∀ form ∈ args, base.level + 2 + form.nest < limit)
    (inScope : InScope base scope)
    (h : Poised symbol base (74 :: (octets (String.join (args.map TypeForm.code)) ++ (69 :: rest))) s) :
    Meets room none (Rule.parse limit levels .templateArg) s
      (Found symbol base rest fun tree id => ∃ run ids, tree.get? id = some (.argumentPack run) ∧
        tree.Lists run ids ∧
        List.Forall₂ (fun form id => form.Stored symbol tree scope id) args ids) := by
  refine ruleAt spent (fun enough => (fits enough).1) h ?_
  intro levels spent below h
  refine peekedPair h ?_
  have h : Poised symbol _ ([74] ++ (octets (String.join (args.map TypeForm.code)) ++ (69 :: rest)))
    _ := h
  refine advanced [74] h ?_
  intro t ht
  refine andThen ((packElements readable closed spent (fun enough => (fits enough).2)
    inScope.deeper ht).weaken fun ids u found => ?_)
  refine andThen (madeList ids found.1 fun run v hv grown lists => ?_)
  refine made _ hv ?_
  intro id w hw later held _
  refine Found.up ⟨hw, run, ids.toList, held, ?_, ?_⟩
  · exact lists.grows later
  · exact found.2.imp fun form id stored => stored.grows (grown.trans later)

/-- A pack as the only argument of a name. -/
theorem readPack (readable : ∀ form ∈ args, Readable symbol room limit (fun _ => none) form)
    (closed : ∀ form ∈ args, form.indices = []) (spent : base.level + levels = limit)
    (fits : room → base.level + 1 < limit ∧ ∀ form ∈ args, base.level + 2 + form.nest < limit)
    (bound : base.Bound)
    (h : Poised symbol (base.seeing (.of #[]))
      (74 :: (octets (String.join (args.map TypeForm.code)) ++ (69 :: 69 :: rest))) s) :
    Meets room none (nodesUntil "E" (Parse.scopedArg (Rule.parse limit levels))) s fun ids t =>
      ∃ outer, Poised symbol (base.seeing (.of outer)) rest t ∧
        Packed symbol args t.work.tree outer ids.toList := by
  have begins : Ahead [74] (74 :: (octets (String.join (args.map TypeForm.code)) ++
    (69 :: 69 :: rest))) := Ahead.cons (List.mem_singleton_self _) _
  have reject := run_reject "E" rfl h begins (by decide)
  refine after run_get ?_
  rw [h.ahead]
  refine after reject ?_
  rw [if_neg Bool.false_ne_true]
  have inScope : InScope ((base.seeing (.of #[])).seeing (.unseen #[])) fun _ => none :=
    .unseen ⟨bound.1, bound.2⟩ #[]
  have spent : ((base.seeing (.of #[])).seeing (.unseen #[])).level + levels = limit := spent
  have read (t : ParseState) (ht : Poised symbol ((base.seeing (.of #[])).seeing (.unseen #[]))
      (74 :: (octets (String.join (args.map TypeForm.code)) ++ (69 :: 69 :: rest))) t) :=
    packArg readable closed spent fits inScope ht
  refine andThen (before (scopedArg rfl h read fun pack t ht found => ?_))
  obtain ⟨run, ids, held, lists, stored⟩ := found
  refine after (a := .argumentPack run) (t := t) ?_ ?_
  · rw [← Tree.node_of_get? held]
    rfl
  refine andThen (made _ ht fun entry u hu later held' _ => ?_)
  refine addedArgument rfl hu ?_
  intro v hv same
  refine pure (pure ?_)
  have hv : Poised symbol _ ([69] ++ rest) v := hv
  refine after (run_accept [69] rfl rfl hv) (pure ⟨_, hv.passed [69], ?_⟩)
  have packed : Packed symbol args v.work.tree #[entry] [pack] := by
    rw [same]
    exact .pack (later.extend _ _ held) held' (lists.grows later)
      (stored.imp fun form id stored => stored.grows later)
  exact packed

end Packs

/-- The arguments of a name, as they are listed. -/
theorem templateArgs {rest : List UInt8} {listed : Tree → Array NodeId → List NodeId → Prop}
    (lasting : Lasting listed)
    (spent : base.level + levels = limit) (fits : room → base.level + 1 < limit)
    (h : Poised symbol base (73 :: bytes) s)
    (bound : base.Bound) (read : ∀ (b : ParseState) levels t, b.level = base.level + 1 →
      b.level + levels = limit → b.Bound → Poised symbol (b.seeing (.of #[])) bytes t →
      Meets room none (nodesUntil "E" (Parse.scopedArg (Rule.parse limit levels))) t fun ids u =>
        ∃ outer, Poised symbol (b.seeing (.of outer)) rest u ∧ listed u.work.tree outer ids.toList) :
    Meets room none (Rule.parse limit levels (.templateArgs true)) s fun id t =>
      ∃ outer run ids, Poised symbol (base.seeing (.of outer)) rest t ∧
        t.work.tree.get? id = some (.templateArgs run) ∧ t.work.tree.Lists run ids ∧
        listed t.work.tree outer ids := by
  refine ruleAt spent fits h ?_
  intro levels spent below h
  have h : Poised symbol _ ([73] ++ bytes) _ := h
  refine expected [73] rfl rfl h ?_
  intro t ht
  refine after (run_modify _) ?_
  refine andThen ((read { base with level := base.level + 1 } levels _ rfl spent
    ⟨bound.1, bound.2⟩ (ht.seeing (.of #[]))).weaken fun ids u found => ?_)
  obtain ⟨outer, hu, stands⟩ := found
  refine andThen (madeList ids hu fun run v hv grown lists => ?_)
  refine made _ hv ?_
  intro id w hw later held _
  exact ⟨outer, run, ids.toList, hw.up, held, lists.grows later, lasting stands (grown.trans later)⟩

end Parse.Meets
end Unmangle
