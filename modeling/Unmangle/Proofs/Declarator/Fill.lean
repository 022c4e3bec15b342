import Unmangle.Proofs.Declarator.Bare

/-!
# Filling forms

An argument in the place of each parameter. Letters of qualifiers in front of an argument may be
read as one set with the argument's own, and what is shown of them is the same.
-/
namespace Unmangle

namespace Qualifiers

theorem letters_union {quals quals' : Qualifiers} (together : quals.runsInto quals' = true) :
    (quals.union quals').letters = quals.letters ++ quals'.letters :=
  beq_iff_eq.mp together

/-- Qualifiers that run together show as those behind and those in front of them. -/
theorem text_union {quals quals' : Qualifiers} (together : quals.runsInto quals' = true) :
    (quals.union quals').text = quals'.text ++ quals.text := by
  have every : ∀ c v r c' v' r' : Bool, Qualifiers.runsInto ⟨c, v, r⟩ ⟨c', v', r'⟩ = true →
      (Qualifiers.union ⟨c, v, r⟩ ⟨c', v', r'⟩).text =
        Qualifiers.text ⟨c', v', r'⟩ ++ Qualifiers.text ⟨c, v, r⟩ := by decide
  obtain ⟨c, v, r⟩ := quals
  obtain ⟨c', v', r'⟩ := quals'
  exact every c v r c' v' r' together

theorem isEmpty_union {quals quals' : Qualifiers} (some : quals.isEmpty = false) :
    (quals.union quals').isEmpty = false := by
  have every : ∀ c v r c' v' r' : Bool, Qualifiers.isEmpty ⟨c, v, r⟩ = false →
      (Qualifiers.union ⟨c, v, r⟩ ⟨c', v', r'⟩).isEmpty = false := by decide
  obtain ⟨c, v, r⟩ := quals
  obtain ⟨c', v', r'⟩ := quals'
  exact every c v r c' v' r' some

/-- What ran into others does not run on where those did not. -/
theorem union_runsInto {quals quals' quals'' : Qualifiers} (some : quals'.isEmpty = false)
    (some' : quals''.isEmpty = false) (together : quals.runsInto quals' = true)
    (apart : quals'.runsInto quals'' = false) : (quals.union quals').runsInto quals'' = false := by
  have every : ∀ c v r c' v' r' c'' v'' r'' : Bool, Qualifiers.isEmpty ⟨c', v', r'⟩ = false →
      Qualifiers.isEmpty ⟨c'', v'', r''⟩ = false →
      Qualifiers.runsInto ⟨c, v, r⟩ ⟨c', v', r'⟩ = true →
      Qualifiers.runsInto ⟨c', v', r'⟩ ⟨c'', v'', r''⟩ = false →
      (Qualifiers.union ⟨c, v, r⟩ ⟨c', v', r'⟩).runsInto ⟨c'', v'', r''⟩ = false := by
    decide
  obtain ⟨c, v, r⟩ := quals
  obtain ⟨c', v', r'⟩ := quals'
  obtain ⟨c'', v'', r''⟩ := quals''
  exact every c v r c' v' r' c'' v'' r'' some some' together apart

/-- What did not run into others does not when those run on. -/
theorem runsInto_union {quals quals' quals'' : Qualifiers} (some : quals.isEmpty = false)
    (some' : quals'.isEmpty = false) (apart : quals.runsInto quals' = false)
    (together : quals'.runsInto quals'' = true) : quals.runsInto (quals'.union quals'') = false := by
  have every : ∀ c v r c' v' r' c'' v'' r'' : Bool, Qualifiers.isEmpty ⟨c, v, r⟩ = false →
      Qualifiers.isEmpty ⟨c', v', r'⟩ = false →
      Qualifiers.runsInto ⟨c, v, r⟩ ⟨c', v', r'⟩ = false →
      Qualifiers.runsInto ⟨c', v', r'⟩ ⟨c'', v'', r''⟩ = true →
      Qualifiers.runsInto ⟨c, v, r⟩ (Qualifiers.union ⟨c', v', r'⟩ ⟨c'', v'', r''⟩) = false := by
    decide
  obtain ⟨c, v, r⟩ := quals
  obtain ⟨c', v', r'⟩ := quals'
  obtain ⟨c'', v'', r''⟩ := quals''
  exact every c v r c' v' r' c'' v'' r'' some some' apart together

end Qualifiers

namespace TypeForm

/-- Qualifiers in front of a form. They are one set with the form's own where their letters are
read as one. -/
def qualify (quals : Qualifiers) : TypeForm → TypeForm
  | qualified quals' target =>
    if quals.runsInto quals' then qualified (quals.union quals') target
    else qualified quals (qualified quals' target)
  | target => qualified quals target

/-- A form with an argument in the place of each parameter. -/
def fill (argument : Nat → TypeForm) : TypeForm → TypeForm
  | builtin letter => builtin letter
  | rare letter => rare letter
  | named id => named id
  | pointer target => pointer (target.fill argument)
  | reference kind target => reference kind (target.fill argument)
  | memberPointer scope member => memberPointer (scope.fill argument) (member.fill argument)
  | array length element => array length (element.fill argument)
  | function quals result params =>
    function quals (result.fill argument) (params.map (fill argument))
  | qualified quals target => qualify quals (target.fill argument)
  | param index => argument index

section Qualify

variable {quals : Qualifiers} {target : TypeForm}

/-- Qualifiers in front of a form either stay apart from it or run into its own. -/
theorem qualify_cases (quals : Qualifiers) (target : TypeForm) :
    (qualify quals target = qualified quals target ∧
      ∀ quals' inner, target = qualified quals' inner → quals.runsInto quals' = false) ∨
    ∃ quals' inner, target = qualified quals' inner ∧ quals.runsInto quals' = true ∧
      qualify quals target = qualified (quals.union quals') inner := by
  cases target with
  | qualified quals' inner =>
    rw [qualify]
    cases together : quals.runsInto quals' with
    | false =>
      refine .inl ⟨rfl, fun _ _ same => ?_⟩
      cases same
      exact together
    | true => exact .inr ⟨quals', inner, rfl, together, rfl⟩
  | _ => exact .inl ⟨rfl, fun _ _ => nofun⟩

theorem codeWith_qualify (argument : Nat → String) :
    (qualify quals target).codeWith argument = quals.letters ++ target.codeWith argument := by
  obtain ⟨apart, -⟩ | ⟨quals', inner, rfl, together, merged⟩ := qualify_cases quals target
  · rw [apart, codeWith]
  · rw [merged, codeWith, codeWith, Qualifiers.letters_union together, String.append_assoc]

theorem indices_qualify : (qualify quals target).indices = target.indices := by
  obtain ⟨apart, -⟩ | ⟨quals', inner, rfl, -, merged⟩ := qualify_cases quals target
  · rw [apart, indices]
  · rw [merged, indices, indices]

theorem isFunction_qualify : (qualify quals target).isFunction = target.isFunction := by
  obtain ⟨apart, -⟩ | ⟨quals', inner, rfl, -, merged⟩ := qualify_cases quals target
  · rw [apart, isFunction]
  · rw [merged, isFunction, isFunction]

/-- Qualifying a form qualifies its halves. -/
theorem spelling_qualify (argument : Nat → Spelling) :
    (qualify quals target).spelling argument =
      .plain ((target.spelling argument).halves.qualified quals) := by
  obtain ⟨apart, -⟩ | ⟨quals', inner, rfl, together, merged⟩ := qualify_cases quals target
  · rw [apart, spelling]
  · rw [merged, spelling, spelling]
    simp only [Spelling.halves, Spelling.plain, Halves.qualified,
      Qualifiers.text_union together, String.append_assoc]

/-- A proper form that is no function stays proper with qualifiers. -/
theorem proper_qualify (some : quals.isEmpty = false) (other : target.isFunction = false)
    (proper : target.Every Proper) : (qualify quals target).Every Proper := by
  obtain ⟨same, apart⟩ | ⟨quals', inner, rfl, together, merged⟩ := qualify_cases quals target
  · rw [same, every_qualified]
    exact ⟨⟨some, other, apart⟩, proper⟩
  · rw [every_qualified] at proper
    obtain ⟨⟨some', other', apart⟩, proper⟩ := proper
    rw [merged, every_qualified]
    refine ⟨⟨Qualifiers.isEmpty_union some, other', fun quals'' inner' same => ?_⟩, proper⟩
    subst same
    exact Qualifiers.union_runsInto some' (every_qualified.mp proper).1.1 together
      (apart quals'' inner' rfl)

end Qualify

/-- Qualifiers stand in front of no parameter that is bound to a function. -/
def Unites (argument : Nat → TypeForm) : TypeForm → Prop
  | qualified _ (param index) => (argument index).isFunction = false
  | _ => True

section Fill

variable {argument : Nat → TypeForm} {form : TypeForm}

/-- A filled form is written as the form with the text of each argument. -/
theorem codeWith_fill (text : Nat → String) :
    (form.fill argument).codeWith text =
      form.codeWith fun index => (argument index).codeWith text := by
  induction form with
  | builtin letter | rare letter | named id => rw [fill, codeWith, codeWith]
  | pointer target ih | reference kind target ih | array length target ih =>
    rw [fill, codeWith, codeWith, ih]
  | memberPointer scope member ih ih' => rw [fill, codeWith, codeWith, ih, ih']
  | function quals result params ih ihs =>
    rw [fill, codeWith, codeWith, ih, List.isEmpty_map, List.map_map]
    have each : params.map (codeWith text ∘ fill argument) =
        params.map (codeWith fun index => (argument index).codeWith text) :=
      List.map_congr_left fun param member => ihs param member
    rw [each]
  | qualified quals target ih => rw [fill, codeWith_qualify, codeWith, ih]
  | param index => rw [fill, codeWith]

/-- A form whose parameters are all filled with closed ones is closed. -/
theorem indices_fill (closed : ∀ index ∈ form.indices, (argument index).indices = []) :
    (form.fill argument).indices = [] := by
  induction form with
  | builtin letter | rare letter | named id => rw [fill, indices]
  | pointer target ih | reference kind target ih | array length target ih =>
    rw [indices] at closed
    rw [fill, indices, ih closed]
  | memberPointer scope member ih ih' =>
    rw [indices, List.forall_mem_append] at closed
    rw [fill, indices, ih closed.1, ih' closed.2, List.append_nil]
  | function quals result params ih ihs =>
    rw [indices, List.forall_mem_append] at closed
    rw [fill, indices, ih closed.1, List.nil_append, List.map_map, List.flatten_eq_nil_iff]
    intro indices member
    obtain ⟨param, inside, rfl⟩ := List.mem_map.mp member
    exact ihs param inside fun index used =>
      closed.2 index (List.mem_flatten_of_mem (List.mem_map_of_mem inside) used)
  | qualified quals target ih =>
    rw [indices] at closed
    rw [fill, indices_qualify, ih closed]
  | param index =>
    rw [fill]
    refine closed index ?_
    rw [indices]
    exact List.mem_singleton_self _

/-- Qualifiers come in front of no function where they unite with the arguments. -/
theorem isFunction_fill {quals : Qualifiers} (other : form.isFunction = false)
    (unites : (qualified quals form).Every (Unites argument)) :
    (form.fill argument).isFunction = false := by
  induction form generalizing quals with
  | qualified quals' target ih =>
    rw [isFunction] at other
    rw [fill, isFunction_qualify]
    exact ih other (every_qualified.mp unites).2
  | function quals' result params _ _ => cases other
  | param index =>
    rw [fill]
    exact unites.self
  | _ =>
    rw [fill]
    rfl

theorem isVoid_fill (other : form.isVoid = false)
    (some : ∀ index ∈ form.indices, (argument index).isVoid = false) :
    (form.fill argument).isVoid = false := by
  cases form with
  | builtin letter =>
    rw [fill]
    exact other
  | qualified quals target =>
    rw [fill]
    obtain ⟨same, -⟩ | ⟨quals', inner, -, -, same⟩ := qualify_cases quals (target.fill argument)
    all_goals
      rw [same]
      rfl
  | param index =>
    rw [fill]
    refine some index ?_
    rw [indices]
    exact List.mem_singleton_self _
  | _ =>
    rw [fill]
    rfl

/-- A proper form stays proper as its parameters are filled. -/
theorem proper_fill (proper : form.Every Proper) (unites : form.Every (Unites argument))
    (proper' : ∀ index ∈ form.indices, (argument index).Every Proper)
    (some : ∀ index ∈ form.indices, (argument index).isVoid = false) :
    (form.fill argument).Every Proper := by
  induction form with
  | builtin letter | rare letter | named id =>
    rw [fill]
    exact proper
  | pointer target ih =>
    rw [indices] at proper' some
    rw [every_pointer] at proper unites
    rw [fill, every_pointer]
    exact ⟨trivial, ih proper.2 unites.2 proper' some⟩
  | reference kind target ih =>
    rw [indices] at proper' some
    rw [every_reference] at proper unites
    rw [fill, every_reference]
    exact ⟨trivial, ih proper.2 unites.2 proper' some⟩
  | array length element ih =>
    rw [indices] at proper' some
    rw [every_array] at proper unites
    rw [fill, every_array]
    exact ⟨trivial, ih proper.2 unites.2 proper' some⟩
  | memberPointer scope member ih ih' =>
    rw [indices, List.forall_mem_append] at proper' some
    rw [every_memberPointer] at proper unites
    rw [fill, every_memberPointer]
    exact ⟨trivial, ih proper.2.1 unites.2.1 proper'.1 some.1,
      ih' proper.2.2 unites.2.2 proper'.2 some.2⟩
  | function quals result params ih ihs =>
    rw [indices, List.forall_mem_append] at proper' some
    rw [every_function] at proper unites
    have inside {param : TypeForm} (member : param ∈ params) {P : Nat → Prop}
        (all : ∀ index ∈ (params.map indices).flatten, P index) : ∀ index ∈ param.indices, P index :=
      fun index used => all index (List.mem_flatten_of_mem (List.mem_map_of_mem member) used)
    rw [fill, every_function]
    refine ⟨fun param member => ?_, ih proper.2.1 unites.2.1 proper'.1 some.1, fun param member => ?_⟩
    all_goals obtain ⟨param, member', rfl⟩ := List.mem_map.mp member
    · exact isVoid_fill (proper.1 param member') (inside member' some.2)
    · exact ihs param member' (proper.2.2 param member') (unites.2.2 param member')
        (inside member' proper'.2) (inside member' some.2)
  | qualified quals target ih =>
    rw [indices] at proper' some
    have whole := unites
    rw [every_qualified] at proper unites
    rw [fill]
    exact proper_qualify proper.1.1 (isFunction_fill proper.1.2.1 whole)
      (ih proper.2 unites.2 proper' some)
  | param index =>
    rw [fill]
    refine proper' index ?_
    rw [indices]
    exact List.mem_singleton_self _

/-- Only the arguments of parameters that a form has show in it. -/
theorem spelling_congr {spelled spelled' : Nat → Spelling}
    (same : ∀ index ∈ form.indices, spelled index = spelled' index) :
    form.spelling spelled = form.spelling spelled' := by
  induction form with
  | builtin letter | rare letter | named id => rw [spelling, spelling]
  | pointer target ih | reference kind target ih | array length target ih
  | qualified quals target ih =>
    rw [indices] at same
    rw [spelling, spelling, ih same]
  | memberPointer scope member ih ih' =>
    rw [indices, List.forall_mem_append] at same
    rw [spelling, spelling, ih same.1, ih' same.2]
  | function quals result params ih ihs =>
    rw [indices, List.forall_mem_append] at same
    have each : params.map (fun param => (param.spelling spelled).text) =
        params.map fun param => (param.spelling spelled').text :=
      List.map_congr_left fun param member => congrArg Spelling.text (ihs param member
        fun index used => same.2 index (List.mem_flatten_of_mem (List.mem_map_of_mem member) used))
    rw [spelling, spelling, ih same.1, each]
  | param index =>
    rw [indices] at same
    rw [spelling, spelling, same index (List.mem_singleton_self _)]

/-- A filled form is spelled as the form whose parameters are spelled as their arguments. -/
theorem spelling_fill (spelled : Nat → Spelling) :
    (form.fill argument).spelling spelled =
      form.spelling fun index => (argument index).spelling spelled := by
  induction form with
  | builtin letter | rare letter | named id => rw [fill, spelling, spelling]
  | pointer target ih | reference kind target ih | array length target ih =>
    rw [fill, spelling, spelling, ih]
  | memberPointer scope member ih ih' => rw [fill, spelling, spelling, ih, ih']
  | function quals result params ih ihs =>
    have each : (params.map (fill argument)).map (fun param => (param.spelling spelled).text) =
        params.map fun param =>
          (param.spelling fun index => (argument index).spelling spelled).text := by
      rw [List.map_map]
      exact List.map_congr_left fun param member => congrArg Spelling.text (ihs param member)
    rw [fill, spelling, spelling, ih, each]
  | qualified quals target ih => rw [fill, spelling_qualify, spelling, ih]
  | param index => rw [fill, spelling]

/-- Qualifiers run into those of an argument only. -/
theorem fill_qualified {quals : Qualifiers} (proper : (qualified quals form).Every Proper)
    (other : ∀ index, form ≠ param index) :
    (qualified quals form).fill argument = qualified quals (form.fill argument) := by
  obtain ⟨⟨some, -, apart⟩, proper⟩ := every_qualified.mp proper
  cases form with
  | qualified quals' target =>
    have apart := apart quals' target rfl
    have some' := (every_qualified.mp proper).1.1
    rw [fill, fill]
    obtain ⟨same, -⟩ | ⟨quals'', inner, -, together, merged⟩ :=
      qualify_cases quals' (target.fill argument)
    · rw [same, qualify, apart, if_neg Bool.false_ne_true]
    · rw [merged, qualify, Qualifiers.runsInto_union some some' apart together,
        if_neg Bool.false_ne_true]
  | param index => exact absurd rfl (other index)
  | _ => simp only [fill, qualify]

/-- Spelling a form with the arguments of its parameters takes hardly more levels than reading
the filled form. -/
theorem needs_le_nest_fill (argument : Nat → TypeForm) (proper : form.Every Proper)
    (closed : ∀ index ∈ form.indices, (argument index).indices = []) :
    (form.needs fun index => (argument index).needs fun _ => 1) ≤ (form.fill argument).nest + 2 := by
  induction form with
  | builtin letter | rare letter | named ident =>
    rw [fill, needs, nest]
    decide
  | pointer target ih =>
    rw [indices] at closed
    have inner := ih (every_pointer.mp proper).2 closed
    rw [fill, needs, nest]
    omega
  | reference kind target ih =>
    rw [indices] at closed
    have inner := ih (every_reference.mp proper).2 closed
    rw [fill, needs, nest]
    omega
  | array length element ih =>
    rw [indices] at closed
    have inner := ih (every_array.mp proper).2 closed
    rw [fill, needs, nest]
    omega
  | memberPointer scope member ih ih' =>
    rw [indices, List.forall_mem_append] at closed
    rw [every_memberPointer] at proper
    have inner := ih proper.2.1 closed.1
    have inner' := ih' proper.2.2 closed.2
    rw [fill, needs, nest]
    omega
  | function quals result params ih ihs =>
    rw [indices, List.forall_mem_append] at closed
    rw [every_function] at proper
    have inner := ih proper.2.1 closed.1
    have first := start_le_foldr_max ((params.map (fill argument)).map nest) (result.fill argument).nest
    have each : (params.map (needs fun index => (argument index).needs fun _ => 1)).foldr max
        (result.needs fun index => (argument index).needs fun _ => 1) ≤
          ((params.map (fill argument)).map nest).foldr max (result.fill argument).nest + 2 := by
      refine foldr_max_le (by omega) ?_
      intro number member
      obtain ⟨param, inside, rfl⟩ := List.mem_map.mp member
      have inner := ihs param inside (proper.2.2 param inside) fun index used =>
        closed.2 index (List.mem_flatten_of_mem (List.mem_map_of_mem inside) used)
      have low : (param.fill argument).nest ≤
          ((params.map (fill argument)).map nest).foldr max (result.fill argument).nest :=
        le_foldr_max (List.mem_map_of_mem (List.mem_map_of_mem inside))
      omega
    rw [fill, needs, nest]
    omega
  | qualified quals target ih =>
    rw [indices] at closed
    by_cases other : ∀ index, target ≠ param index
    · have inner := ih (every_qualified.mp proper).2 closed
      rw [fill_qualified proper other, needs, nest]
      omega
    · obtain ⟨index, same⟩ := not_forall_not.mp other
      subst same
      rw [indices] at closed
      have closed := closed index (List.mem_singleton_self _)
      rw [fill, fill, needs, needs]
      obtain ⟨apart, -⟩ | ⟨quals', inner, found, -, merged⟩ := qualify_cases quals (argument index)
      · have deep := needs_le_nest (fun _ => 1) closed
        rw [apart, nest]
        omega
      · rw [found, indices] at closed
        have deep := needs_le_nest (fun _ => 1) closed
        rw [merged, found, needs, nest]
        omega
  | param index =>
    rw [indices] at closed
    have deep := needs_le_nest (fun _ => 1) (closed index (List.mem_singleton_self _))
    rw [fill, needs]
    omega

end Fill

section Chains

variable {tails' links' needs' : Nat → Nat}

/-- A chain goes down a level with each name. -/
theorem chains_le_needs
    (short : ∀ index, tails' index ≤ needs' index ∧ links' index ≤ needs' index) (form : TypeForm) :
    form.tails tails' ≤ form.needs needs' ∧ form.links links' ≤ form.needs needs' := by
  induction form with
  | param index =>
    have := short index
    rw [tails, links, needs]
    omega
  | _ =>
    rw [tails, links, needs]
    omega

/-- Where few levels are enough to spell a form, all its chains are short. -/
theorem near_of_needs {form : TypeForm}
    (short : ∀ index, tails' index ≤ needs' index ∧ links' index ≤ needs' index)
    (few : form.needs needs' ≤ Print.chainLimit) :
    form.Every fun part =>
      part.tails tails' ≤ Print.chainLimit ∧ part.links links' ≤ Print.chainLimit := by
  have self : form.tails tails' ≤ Print.chainLimit ∧ form.links links' ≤ Print.chainLimit := by
    have := chains_le_needs short form
    omega
  induction form with
  | builtin letter => exact every_builtin.mpr self
  | rare letter => exact every_rare.mpr self
  | named ident => exact every_named.mpr self
  | param index => exact every_param.mpr self
  | pointer target ih =>
    rw [needs] at few
    have := chains_le_needs short target
    exact every_pointer.mpr ⟨self, ih (by omega) (by omega)⟩
  | reference kind target ih =>
    rw [needs] at few
    have := chains_le_needs short target
    exact every_reference.mpr ⟨self, ih (by omega) (by omega)⟩
  | array length element ih =>
    rw [needs] at few
    have := chains_le_needs short element
    exact every_array.mpr ⟨self, ih (by omega) (by omega)⟩
  | qualified quals target ih =>
    rw [needs] at few
    have := chains_le_needs short target
    exact every_qualified.mpr ⟨self, ih (by omega) (by omega)⟩
  | memberPointer scope member ih ih' =>
    rw [needs] at few
    have := chains_le_needs short scope
    have := chains_le_needs short member
    exact every_memberPointer.mpr ⟨self, ih (by omega) (by omega), ih' (by omega) (by omega)⟩
  | function quals result params ih ihs =>
    rw [needs] at few
    have first := start_le_foldr_max (params.map (needs needs')) (result.needs needs')
    have := chains_le_needs short result
    refine every_function.mpr ⟨self, ih (by omega) (by omega), fun param member => ?_⟩
    have low : param.needs needs' ≤ (params.map (needs needs')).foldr max (result.needs needs') :=
      le_foldr_max (List.mem_map_of_mem member)
    have := chains_le_needs short param
    exact ihs param member (by omega) (by omega)

end Chains

end TypeForm
end Unmangle
