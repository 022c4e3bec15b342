import Unmangle.Proofs.Declarator.Template

/-!
# Reading the parameters of an encoding

Types, and patterns that are expanded, one after another up to the end of the encoding.
-/
namespace Unmangle

/-- A parameter of a function: a type, or a pattern for each element of a pack. -/
inductive Parameter
  | type (form : TypeForm)
  | expansion (pattern : TypeForm)
  deriving Repr

namespace Parameter

open TypeForm

def form : Parameter → TypeForm
  | type form | expansion form => form

def code : Parameter → String
  | type form => form.code
  | expansion pattern => "Dp" ++ pattern.code

def nest : Parameter → Nat
  | type form => form.nest
  | expansion pattern => pattern.nest + 1

def isVoid : Parameter → Bool
  | type form => form.isVoid
  | expansion _ => false

/-- The name stands for a parameter. -/
def Stored (symbol : ByteArray) (tree : Tree) (scope : Nat → Option NodeId) :
    Parameter → NodeId → Prop
  | type form, id => form.Stored symbol tree scope id
  | expansion pattern, id =>
    ∃ inner, tree.get? id = some (.expansion inner) ∧ pattern.Stored symbol tree scope inner

variable {symbol : ByteArray} {tree tree' : Tree} {scope : Nat → Option NodeId} {id : NodeId}
  {param : Parameter} {params : List Parameter}

theorem Stored.grows (h : param.Stored symbol tree scope id) (later : tree.Grows tree') :
    param.Stored symbol tree' scope id := by
  cases param with
  | type form => exact TypeForm.Stored.grows h later
  | expansion pattern =>
    obtain ⟨inner, held, stored⟩ := h
    exact ⟨inner, later.extend _ _ held, stored.grows later⟩

/-- Only `void` begins with its letter. -/
theorem code_opens (proper : param.form.Every Proper) :
    ∃ byte more, octets param.code = byte :: more ∧ byte ∈ starters ∧
      (param.isVoid = false → byte.toNat ≠ 'v'.toNat) := by
  cases param with
  | type form =>
    obtain ⟨byte, more, begins, opens⟩ := TypeForm.code_opens proper
    exact ⟨byte, more, begins, openers_subset proper byte opens, fun other =>
      openers_ne_void proper other byte opens⟩
  | expansion pattern =>
    exact ⟨68, _, octets_append "Dp" pattern.code, by decide, fun _ => by decide⟩

theorem ahead_code (proper : param.form.Every Proper) (rest : List UInt8) :
    Ahead starters (octets param.code ++ rest) := by
  obtain ⟨byte, more, begins, opens, -⟩ := code_opens proper
  rw [begins]
  exact Ahead.cons opens _

/-- Every parameter is written with some byte. -/
theorem length_le_join (proper : ∀ param ∈ params, param.form.Every Proper) :
    params.length ≤ (octets (String.join (params.map code))).length := by
  induction params with
  | nil => exact Nat.zero_le _
  | cons param params ih =>
    obtain ⟨byte, more, begins, -⟩ := code_opens (proper param List.mem_cons_self)
    have later := ih fun param member => proper param (List.mem_cons_of_mem _ member)
    rw [List.map_cons, String.join_cons, octets_append, begins]
    simp only [List.length_cons, List.length_append]
    omega

/-- What is left behind a parameter may come behind it. -/
theorem ahead_join (proper : ∀ param ∈ params, param.form.Every Proper) :
    Ahead followers (octets (String.join (params.map code))) := by
  cases params with
  | nil => exact Ahead.nil _
  | cons param params =>
    rw [List.map_cons, String.join_cons, octets_append]
    exact (ahead_code (proper param List.mem_cons_self) _).weaken (by decide)

end Parameter

namespace Parse.Meets

open Parameter

variable {symbol : ByteArray} {room : Prop} {limit levels : Nat} {scope : Nat → Option NodeId}
  {base s : ParseState} {rest : List UInt8} {param : Parameter} {params : List Parameter}

def Entered (symbol : ByteArray) (limit : Nat) (scope : Nat → Option NodeId) (base : ParseState)
    (tree : Tree) (param : Parameter) (id : NodeId) : Prop :=
  param.Stored symbol tree scope id ∧ base.level + param.nest < limit

/-- A parameter is read as a type. -/
theorem parameter (small : symbol.size < Number.bound) (proper : param.form.Every TypeForm.Proper)
    (spent : base.level + levels = limit) (fits : room → base.level + param.nest < limit)
    (ahead : Ahead TypeForm.followers rest) (inScope : InScope base scope)
    (h : Poised symbol base (octets param.code ++ rest) s) :
    Meets room (strayAmong scope param.form.indices) (Rule.parse limit levels .type) s
      (Found symbol base rest fun tree => Entered symbol limit scope base tree param) := by
  cases param with
  | type form => exact reads small proper spent fits ahead inScope h
  | expansion pattern =>
    have h : Poised symbol base ([68, 112] ++ (octets pattern.code ++ rest)) s := by
      rw [Parameter.code, octets_append, List.append_assoc] at h
      exact h
    refine ruleAt spent (fun enough => ?_) h fun levels spent below h => ?_
    · have := fits enough
      rw [Parameter.nest] at this
      omega
    refine peekedPair h ?_
    rw [peekAt_second h]
    change Meets room _ (do advance 2; Parse.listing do
      Parse.make (.expansion (← Rule.parse limit levels .type))) _ _
    refine advanced [68, 112] h ?_
    intro t ht
    refine (listing (fun tree => Entered symbol limit scope base tree (.expansion pattern))
      (before ?_)).weaken
        fun _ _ => Found.up
    refine (reads small proper spent (fun enough => ?_) ahead inScope.deeper ht).weaken
      fun inner u found => ?_
    · have := fits enough
      rw [Parameter.nest] at this
      show base.level + 1 + pattern.nest < limit
      omega
    obtain ⟨hu, stored, low⟩ := found
    have low : base.level + 1 + pattern.nest < limit := low
    refine made _ hu ?_
    intro id v hv later held unlisted
    refine ⟨⟨hv, ⟨inner, held, stored.grows later⟩, ?_⟩, isSome_of_held held, unlisted⟩
    rw [Parameter.nest]
    omega

/-- Some parameters were read, and the others come next. -/
structure ParamsLeft (symbol : ByteArray) (limit : Nat) (scope : Nat → Option NodeId)
    (base : ParseState) (params left : List Parameter) (ids : Array NodeId) (t : ParseState) :
    Prop where
  poised : Poised symbol base (octets (String.join (left.map Parameter.code))) t
  entered : ∃ done, done ++ left = params ∧
    List.Forall₂ (Entered symbol limit scope base t.work.tree) done ids.toList

namespace ParamsLeft

variable {left : List Parameter} {ids : Array NodeId}

theorem mem (h : ParamsLeft symbol limit scope base params left ids s) :
    ∀ param ∈ left, param ∈ params := by
  obtain ⟨-, done, rfl, -⟩ := h
  exact fun param member => List.mem_append_right _ member

theorem next (h : ParamsLeft symbol limit scope base params (param :: left) ids s) :
    Poised symbol base (octets param.code ++ octets (String.join (left.map Parameter.code))) s := by
  have poised := h.poised
  rwa [List.map_cons, String.join_cons, octets_append] at poised

/-- One more parameter is read. -/
theorem read (small : symbol.size < Number.bound)
    (proper : ∀ param ∈ params, param.form.Every TypeForm.Proper)
    (spent : base.level + levels = limit)
    (fits : room → ∀ param ∈ params, base.level + param.nest < limit) (inScope : InScope base scope)
    (h : ParamsLeft symbol limit scope base params (param :: left) ids s) :
    Meets room (strayAmong scope param.form.indices) (Rule.parse limit levels .type) s fun id t =>
      ParamsLeft symbol limit scope base params left (ids.push id) t := by
  have next := h.next
  have inside := h.mem
  have level : s.level = base.level := next.level
  obtain ⟨-, done, same, entered⟩ := h
  refine (parameter small (proper param (inside param List.mem_cons_self)) (level ▸ spent)
    (fun enough => level ▸ fits enough param (inside param List.mem_cons_self))
      (Parameter.ahead_join fun param member => proper param
        (inside param (List.mem_cons_of_mem _ member))) (inScope.later next) next.self).weaken ?_
  intro id t found
  obtain ⟨ht, stored, low⟩ := found
  refine ⟨next.trans ht, done ++ [param], ?_, ?_⟩
  · rw [List.append_assoc, List.singleton_append, same]
  · rw [Array.toList_push]
    refine List.rel_append (entered.imp fun param id held => ⟨held.1.grows ht.grows, held.2⟩)
      (.cons ⟨stored, level ▸ low⟩ .nil)

end ParamsLeft

/-- The first fault over some parameters. -/
theorem strayAmong_params (scope : Nat → Option NodeId) (params : List Parameter) :
    strayAmong scope (params.map fun param => param.form.indices).flatten =
      dueAmong (fun param => strayAmong scope param.form.indices) params := by
  induction params with
  | nil => rfl
  | cons param params ih =>
    rw [List.map_cons, List.flatten_cons, strayAmong_append, ih, dueAmong]

/-- The parameters of a function whose first one is not `void`. -/
theorem encodingParams (small : symbol.size < Number.bound)
    (proper : ∀ param ∈ params, param.form.Every TypeForm.Proper)
    (others : ∀ param ∈ params, param.isVoid = false) (some : params ≠ [])
    (spent : base.level + levels = limit)
    (fits : room → ∀ param ∈ params, base.level + param.nest < limit) (inScope : InScope base scope)
    (h : Poised symbol base (octets (String.join (params.map Parameter.code))) s) :
    Meets room (strayAmong scope (params.map fun param => param.form.indices).flatten) (do
      if ← accept "v" then Pure.pure #[]
      else someNodes atEncodingEnd (Rule.parse limit levels .type)) s fun ids t =>
        Poised symbol base [] t ∧
          List.Forall₂ (Entered symbol limit scope base t.work.tree) params ids.toList := by
  have begun : ParamsLeft symbol limit scope base params params #[] s := ⟨h, [], rfl, .nil⟩
  obtain ⟨param, left, same⟩ := List.exists_cons_of_ne_nil some
  rw [strayAmong_params]
  nth_rewrite 1 [same]
  nth_rewrite 2 [same] at begun
  refine (someParams _ (ParamsLeft symbol limit scope base params) ?_ ?_ ?_ ?_ ?_ begun).weaken
    fun ids t done => ?_
  · intro param left ids t h
    obtain ⟨byte, more, begins, opens, -⟩ := code_opens (proper param (h.mem param List.mem_cons_self))
    have next := h.next
    rw [begins] at next
    exact run_atEncodingEnd_of_starter opens next
  · exact fun ids t h => run_atEncodingEnd h.poised
  · exact fun param left ids t h => h.read small proper spent fits inScope
  · intro left ids t h
    rw [h.poised.ahead]
    exact Parameter.length_le_join fun param member => proper param (h.mem param member)
  · have member : param ∈ params := begun.mem param List.mem_cons_self
    obtain ⟨byte, more, begins, -, notVoid⟩ := code_opens (proper param member)
    have next := begun.next
    rw [begins] at next
    refine run_reject "v" rfl next (Ahead.cons (List.mem_singleton_self byte) _) fun other same => ?_
    rw [List.mem_singleton.mp same]
    exact notVoid (others param member)
  · obtain ⟨poised, done, rfl, entered⟩ := done
    rw [List.append_nil]
    exact ⟨poised, entered⟩

end Parse.Meets
end Unmangle
