import Unmangle.Proofs.Declarator.Fill
import Unmangle.Proofs.Declarator.Params
import Unmangle.Proofs.Declarator.Signature

/-!
# Function templates with arguments

The result and the parameters of a function template may refer to its arguments. It is demangled
as if each of these were written where it is referred to.
-/
namespace Unmangle

/-- A function template with its arguments. -/
structure Specialization where
  ident : Identifier
  args : List TypeForm
  result : TypeForm
  params : List TypeForm
  closed : ∀ form ∈ args, form.indices = []
  properArgs : ∀ form ∈ args, form.Every TypeForm.Proper
  otherArgs : ∀ form ∈ args, form.isVoid = false
  proper : ∀ form ∈ result :: params, form.Every TypeForm.Proper
  others : ∀ form ∈ params, form.isVoid = false
  some : params ≠ []

namespace Specialization

open TypeForm

variable (spec : Specialization)

def argument (index : Nat) : TypeForm :=
  spec.args[index]?.getD (.builtin 'i')

/-- The parameters that are referred to, in the order in which they are written. -/
def indices : List Nat :=
  spec.result.indices ++ (spec.params.map TypeForm.indices).flatten

/-- How the template is written, with some text for what refers to an argument. -/
def codeWith (text : Nat → String) : String :=
  "_Z" ++ (spec.ident.code ++ ("I" ++ (String.join (spec.args.map TypeForm.code) ++ ("E" ++
    (spec.result.codeWith text ++ String.join (spec.params.map (TypeForm.codeWith text)))))))

def code : String :=
  spec.codeWith paramCode

def spelled (index : Nat) : Spelling :=
  (spec.argument index).closedSpelling

/-- The template with all its arguments put where they are referred to. -/
def text : String :=
  (spec.result.spelling spec.spelled).halves.template spec.ident.text
    (", ".intercalate (spec.args.map fun form => form.closedSpelling.text))
    (", ".intercalate (spec.params.map fun form => (form.spelling spec.spelled).text))

/-- Qualifiers are in front of no function. -/
def Unites : Prop :=
  ∀ form ∈ spec.result :: spec.params, form.Every (TypeForm.Unites spec.argument)

variable {spec}

/-- Something holds of whatever a parameter refers to. -/
theorem argument_ind {P : TypeForm → Prop} (each : ∀ form ∈ spec.args, P form)
    (none : P (.builtin 'i')) (index : Nat) : P (spec.argument index) := by
  unfold argument
  cases found : spec.args[index]? with
  | none => exact none
  | some form => exact each form (List.mem_of_getElem? found)

theorem closed_argument (index : Nat) : (spec.argument index).indices = [] :=
  argument_ind spec.closed (by rw [TypeForm.indices]) index

theorem proper_argument (index : Nat) : (spec.argument index).Every Proper :=
  argument_ind spec.properArgs (every_builtin.mpr rfl) index

theorem isVoid_argument (index : Nat) : (spec.argument index).isVoid = false :=
  argument_ind spec.otherArgs (by decide) index

/-- The template with an argument in each place that refers to it. -/
def fill (spec : Specialization) (unites : spec.Unites) : Specialization :=
  { spec with
    result := spec.result.fill spec.argument
    params := spec.params.map (TypeForm.fill spec.argument)
    proper := by
      rw [← List.map_cons (f := TypeForm.fill spec.argument)]
      refine List.forall_mem_map.mpr ?_
      intro form member
      exact proper_fill (spec.proper form member) (unites form member)
        (fun index _ => proper_argument index) fun index _ => isVoid_argument index
    others := List.forall_mem_map.mpr fun form member =>
      isVoid_fill (spec.others form member) fun index _ => isVoid_argument index
    some := fun none => spec.some (List.map_eq_nil_iff.mp none) }

/-- It is written with the text of each argument where this is referred to. -/
theorem code_fill (unites : spec.Unites) :
    (spec.fill unites).code = spec.codeWith fun index => (spec.argument index).code := by
  have each : (spec.params.map (TypeForm.fill spec.argument)).map (TypeForm.codeWith paramCode) =
      spec.params.map (TypeForm.codeWith fun index => (spec.argument index).code) := by
    rw [List.map_map]
    exact List.map_congr_left fun form _ => codeWith_fill paramCode
  unfold code codeWith
  simp only [fill, each, codeWith_fill]
  rfl

/-- Writing out the arguments does not change the text. -/
theorem text_fill (unites : spec.Unites) : (spec.fill unites).text = spec.text := by
  have same (form : TypeForm) : (form.fill spec.argument).spelling spec.spelled =
      form.spelling spec.spelled := by
    rw [spelling_fill]
    refine congrArg (fun spelled => form.spelling spelled) (funext fun index => spelling_congr ?_)
    rw [closed_argument]
    exact fun _ member => nomatch member
  have each : (spec.params.map (TypeForm.fill spec.argument)).map
      (fun form => (form.spelling spec.spelled).text) =
        spec.params.map fun form => (form.spelling spec.spelled).text := by
    rw [List.map_map]
    exact List.map_congr_left fun form _ => congrArg Spelling.text (same form)
  show Halves.template ((spec.result.fill spec.argument).spelling spec.spelled).halves _ _
    (", ".intercalate ((spec.params.map (TypeForm.fill spec.argument)).map
      fun form => (form.spelling spec.spelled).text)) = _
  rw [same, each]
  rfl

/-- Nothing refers to an argument that is written out. -/
theorem indices_fill (unites : spec.Unites) : (spec.fill unites).indices = [] := by
  have none (form : TypeForm) : (form.fill spec.argument).indices = [] :=
    TypeForm.indices_fill fun index _ => closed_argument index
  show (spec.result.fill spec.argument).indices ++
    ((spec.params.map (TypeForm.fill spec.argument)).map TypeForm.indices).flatten = []
  rw [none, List.nil_append, List.map_map, List.flatten_eq_nil_iff]
  exact List.forall_mem_map.mpr fun form _ => none form

/-- All parts of the template are below the limit. -/
structure Low (spec : Specialization) (limit : Nat) : Prop where
  args : ∀ form ∈ spec.args, 5 + form.nest < limit
  forms : ∀ form ∈ spec.result :: spec.params, 2 + form.nest < limit

/-- What the names of a template stand for when it is stored. -/
def Stored (spec : Specialization) (limit : Nat) : ByteArray → Tree → NodeId → Prop :=
  fun symbol => Specialized symbol spec.ident
    (fun tree outer ids => outer.toList = ids ∧
      List.Forall₂ (fun form id => form.Stored symbol tree (fun _ => none) id ∧
        5 + form.nest < limit) spec.args ids)
    (fun tree outer id => spec.result.Stored symbol tree (fun index => outer[index]?) id ∧
      2 + spec.result.nest < limit)
    (fun tree outer ids => List.Forall₂ (fun form id =>
      form.Stored symbol tree (fun index => outer[index]?) id ∧ 2 + form.nest < limit)
      spec.params ids)

end Specialization

namespace Specialization

open TypeForm

variable {spec : Specialization} {room : Prop} {limit : Nat}

/-- The bytes of a template. -/
theorem octets_code (spec : Specialization) :
    octets spec.code = [95, 90] ++ (octets spec.ident.code ++ (73 ::
      (octets (String.join (spec.args.map TypeForm.code)) ++ (69 ::
        (octets spec.result.code ++ octets (String.join (spec.params.map TypeForm.code))))))) := by
  simp only [code, codeWith, octets_append]
  rfl

/-- There are not more arguments than bytes. -/
theorem length_args_le (spec : Specialization) : spec.args.length ≤ spec.code.utf8ByteSize := by
  have size := length_le_join spec.properArgs
  rw [← length_octets, octets_code]
  simp only [List.length_append, List.length_cons]
  omega

/-- A template is read, unless it refers to an argument that it does not have. -/
theorem read (spec : Specialization) (limit : Nat) (small : spec.code.utf8ByteSize < Number.bound)
    (fits : room → 4 < limit ∧ spec.Low limit) (generation : UInt32) :
    Parse.Meets room (strayBeyond spec.args.length spec.indices) (Rule.parse limit limit .symbol)
      (.start generation spec.code.toUTF8) fun root t =>
        spec.Stored limit spec.code.toUTF8 t.work.tree root := by
  have proper := List.forall_mem_cons.mp spec.proper
  have beyond : strayBeyond spec.args.length spec.indices =
      (strayBeyond spec.args.length spec.result.indices).or
        (strayBeyond spec.args.length (spec.params.map TypeForm.indices).flatten) := by
    unfold indices strayBeyond
    rw [List.find?_append]
    cases spec.result.indices.find? _ <;> rfl
  have size {outer : Array NodeId} {ids : List NodeId} {held : TypeForm → NodeId → Prop}
      (stands : outer.toList = ids ∧ List.Forall₂ held spec.args ids) :
      outer.size = spec.args.length := by
    rw [stands.2.length_eq, ← stands.1, Array.length_toList]
  rw [beyond]
  refine Parse.Meets.templateSymbol limit
    (octets (String.join (spec.params.map TypeForm.code))) ?_ ?_ (fun _ _ _ stands => size stands)
    (Nat.lt_of_le_of_lt spec.length_args_le small) small proper.1 (fun enough => (fits enough).1)
    (fun enough => (fits enough).2.forms _ List.mem_cons_self) ?_ spec.octets_code ?_ ?_ generation
  · rintro tree tree' outer ids ⟨same, stands⟩ later
    exact ⟨same, stands.imp fun form id held => ⟨held.1.grows later, held.2⟩⟩
  · exact fun tree tree' outer ids stands later =>
      stands.imp fun form id held => ⟨held.1.grows later, held.2⟩
  · rw [← List.append_nil (octets _)]
    exact Parse.Meets.ahead_join proper.2 (Ahead.nil _)
  · intro b levels t level spent bound ht
    refine (Parse.Meets.readArgs (fun form member =>
      ⟨Parse.Meets.reads small (spec.properArgs form member), spec.properArgs form member⟩)
      spec.closed spent (fun enough form member => ?_) bound ht).weaken fun ids u found => ?_
    · rw [level]
      exact (fits enough).2.args form member
    · refine ⟨ids, found.1, rfl, found.2.imp fun form id held => ⟨held.1, ?_⟩⟩
      have low : b.level + 1 + form.nest < limit := held.2
      rwa [level] at low
  · intro b levels outer ids t level spent inScope stands ht
    have codes : (spec.params.map Parameter.type).map Parameter.code =
        spec.params.map TypeForm.code := List.map_map
    have indices : (spec.params.map Parameter.type).map (fun param => param.form.indices) =
        spec.params.map TypeForm.indices := List.map_map
    rw [← size stands, ← strayAmong_array, ← indices]
    refine (Parse.Meets.encodingParams small (List.forall_mem_map.mpr proper.2)
      (List.forall_mem_map.mpr spec.others) (fun none => spec.some (List.map_eq_nil_iff.mp none))
      spent (fun enough => ?_) inScope (codes ▸ ht)).weaken fun ids u found => ?_
    · refine List.forall_mem_map.mpr ?_
      intro form member
      rw [level]
      exact (fits enough).2.forms form (List.mem_cons_of_mem _ member)
    · exact ⟨found.1, (List.forall₂_map_left_iff.mp found.2).imp fun form id held =>
        ⟨held.1, level ▸ held.2⟩⟩

section Spelled

open Print

variable {symbol : ByteArray} {tree : Tree} {root : NodeId} {limits : SpellingLimits}

def argumentNeeds (spec : Specialization) (index : Nat) : Nat :=
  (spec.argument index).needs fun _ => 1

def needs (spec : Specialization) : Nat :=
  (spec.args.map (TypeForm.needs fun _ => 1)).foldr max
    (((spec.result :: spec.params).map (TypeForm.needs spec.argumentNeeds)).foldr max 1)

/-- All chains in the template are short enough to be followed. -/
structure Shallow (spec : Specialization) : Prop where
  args : ∀ form ∈ spec.args, (form.needs fun _ => 1) ≤ chainLimit
  forms : ∀ form ∈ spec.result :: spec.params, form.needs spec.argumentNeeds ≤ chainLimit

theorem needs_le_of_mem_args {form : TypeForm} (member : form ∈ spec.args) :
    (form.needs fun _ => 1) ≤ spec.needs :=
  le_foldr_max (List.mem_map_of_mem member)

theorem needs_le_of_mem_forms {form : TypeForm} (member : form ∈ spec.result :: spec.params) :
    form.needs spec.argumentNeeds ≤ spec.needs :=
  Nat.le_trans (le_foldr_max (List.mem_map_of_mem member)) (start_le_foldr_max _ _)

theorem one_le_needs (spec : Specialization) : 1 ≤ spec.needs :=
  Nat.le_trans (start_le_foldr_max _ 1) (start_le_foldr_max _ _)

theorem Shallow.needs_le (shallow : spec.Shallow) : spec.needs ≤ chainLimit := by
  refine foldr_max_le (foldr_max_le (by decide) ?_) ?_
  · exact List.forall_mem_map.mpr shallow.forms
  · exact List.forall_mem_map.mpr shallow.args

/-- An argument shows what it is spelled as. -/
theorem shown_argument (shallow : spec.Shallow) {form : TypeForm} (member : form ∈ spec.args)
    {scope : Nat → Option NodeId} {id : NodeId} (stored : form.Stored symbol tree scope id) :
    Shown symbol tree none (form.tails fun _ => 0) (form.links fun _ => 0) (form.needs fun _ => 1)
      form.closedSpelling id :=
  stored.shown_closed (spec.closed form member) (spec.properArgs form member)
    (near_of_needs (fun _ => ⟨Nat.zero_le 1, Nat.zero_le 1⟩) (shallow.args form member))

/-- What is known of the arguments of a template. -/
theorem arguments (shallow : spec.Shallow) {outer : Array NodeId} {held : TypeForm → Prop}
    (stands : List.Forall₂ (fun form id => form.Stored symbol tree (fun _ => none) id ∧ held form)
      spec.args outer.toList) :
    Arguments symbol tree none (fun index => outer[index]?)
      (fun index => (spec.argument index).tails fun _ => 0)
      (fun index => (spec.argument index).links fun _ => 0) spec.argumentNeeds spec.spelled where
  shown index target found := by
    obtain ⟨size, each⟩ := List.forall₂_iff_get.mp stands
    obtain ⟨inside, rfl⟩ := Array.getElem?_eq_some_iff.mp found
    have inside' : index < spec.args.length := by
      rw [size]
      exact inside
    have same : spec.argument index = spec.args[index] := by
      unfold argument
      rw [List.getElem?_eq_getElem inside']
      rfl
    unfold spelled argumentNeeds
    rw [same]
    exact shown_argument shallow (List.getElem_mem inside') (each index inside' inside).1
  least index := Nat.le_of_succ_le (two_le_needs (fun _ => Nat.le_refl 1) _)

/-- The result or a parameter shows what it is spelled as where it is. -/
theorem shown_form (shallow : spec.Shallow) {outer : Array NodeId} {held : TypeForm → Prop}
    (stands : List.Forall₂ (fun form id => form.Stored symbol tree (fun _ => none) id ∧ held form)
      spec.args outer.toList) {form : TypeForm} (member : form ∈ spec.result :: spec.params)
    {id : NodeId} (stored : form.Stored symbol tree (fun index => outer[index]?) id) :
    (form.spelling spec.spelled).halves.Solid ∧
      Shows symbol tree none chainLimit spec.needs (form.spelling spec.spelled).halves id := by
  have solid (index : Nat) : (spec.spelled index).halves.Solid :=
    solid_closed (closed_argument index) (proper_argument index)
  have near := near_of_needs (fun index => chains_le_needs (fun _ => ⟨Nat.zero_le 1, Nat.zero_le 1⟩)
    (spec.argument index)) (shallow.forms form member)
  have shown := stored.shown (arguments shallow stands) (spec.proper form member) near
    fun index _ => solid index
  exact ⟨solid_spelling (spec.proper form member) fun index _ => solid index,
    shown.shows.weaken shown.near (needs_le_of_mem_forms member)⟩

/-- A list of forms is written with commas between them. -/
theorem listWrites {need : Nat} {run : NodeList} {ids : List NodeId} {forms : List TypeForm}
    {spelling : TypeForm → Spelling} (lists : tree.Lists run ids)
    (shows : List.Forall₂ (fun form id => (spelling form).halves.Solid ∧
      Shows symbol tree none chainLimit need (spelling form).halves id) forms ids) :
    ListWrites symbol tree limits room need
      (", ".intercalate (forms.map fun form => (spelling form).text)) run := by
  have items : AllShow symbol tree none need (forms.map fun form => (spelling form).halves) ids :=
    List.forall₂_map_left_iff.mpr shows
  intro levels canvas packed spent fits
  have texts : (forms.map fun form => (spelling form).text) =
      (forms.map fun form => (spelling form).halves).map Halves.text := by
    rw [List.map_map]
    rfl
  rw [texts] at fits ⊢
  rw [lists.listed]
  exact items.whole packed spent fits

/-- A template that is stored is spelled as it reads. -/
theorem Stored.written (stored : spec.Stored limit symbol tree root) (shallow : spec.Shallow)
    (fits : room → Canvas.Fits limits {} (spec.needs + 3) spec.text) :
    Writes room spec.text (rendering limits symbol tree root) {} := by
  cases stored with
  | @function outer _ _ _ _ _ _ _ _ held instantiated words listed lists lists' stands stands'
      stands'' =>
    obtain ⟨rfl, stands⟩ := stands
    have result := shown_form shallow stands List.mem_cons_self stands'.1
    refine writes_template held instantiated words listed result.2
      (Nat.le_succ_of_le shallow.needs_le) (Nat.le_refl _) (listWrites lists ?_) (listWrites lists' ?_)
      spec.one_le_needs fits
    · have each : ∀ form ∈ spec.args, ∀ id, form.Stored symbol tree (fun _ => none) id ∧
          5 + form.nest < limit → form.closedSpelling.halves.Solid ∧
            Shows symbol tree none chainLimit spec.needs form.closedSpelling.halves id := by
        intro form member id stored
        have shown := shown_argument shallow member stored.1
        exact ⟨solid_closed (spec.closed form member) (spec.properArgs form member),
          shown.shows.weaken shown.near (needs_le_of_mem_args member)⟩
      exact ((List.forall₂_and_left _ _).mpr ⟨each, stands⟩).imp fun form id held =>
        held.1 id held.2
    · have each : ∀ form ∈ spec.params, ∀ id,
          form.Stored symbol tree (fun index => outer[index]?) id ∧ 2 + form.nest < limit →
            (form.spelling spec.spelled).halves.Solid ∧
              Shows symbol tree none chainLimit spec.needs (form.spelling spec.spelled).halves id :=
        fun form member id stored =>
          shown_form shallow stands (List.mem_cons_of_mem _ member) stored.1
      exact ((List.forall₂_and_left _ _).mpr ⟨each, stands''⟩).imp fun form id held =>
        held.1 id held.2

/-- What is stored was read below the limit. -/
theorem Stored.low (stored : spec.Stored limit symbol tree root) : spec.Low limit := by
  cases stored with
  | function held instantiated words listed lists lists' stands stands' stands'' =>
    have each {forms : List TypeForm} {ids : List NodeId} {held : TypeForm → NodeId → Prop}
        {P : TypeForm → Prop} (all : List.Forall₂ (fun form id => held form id ∧ P form) forms ids) :
        ∀ form ∈ forms, P form := by
      induction all with
      | nil => exact fun _ member => nomatch member
      | cons first _ ih => exact List.forall_mem_cons.mpr ⟨first.2, ih⟩
    exact ⟨each stands.2, List.forall_mem_cons.mpr ⟨stands'.2, each stands''⟩⟩

/-- A template that refers to nothing and is read under a low limit is spelled in few levels. -/
theorem Low.shallow (low : spec.Low chainLimit) (closed : spec.indices = []) : spec.Shallow where
  args form member := by
    have depth := needs_le_nest (fun _ => 1) (spec.closed form member)
    have below := low.args form member
    omega
  forms form member := by
    obtain ⟨closed, closed'⟩ := List.append_eq_nil_iff.mp closed
    have every : ∀ form ∈ spec.result :: spec.params, form.indices = [] :=
      List.forall_mem_cons.mpr ⟨closed, fun form member =>
        List.flatten_eq_nil_iff.mp closed' _ (List.mem_map_of_mem member)⟩
    have depth := needs_le_nest spec.argumentNeeds (every form member)
    have below := low.forms form member
    omega

/-- It is spelled in few levels too before its arguments are put in their places. -/
theorem Low.shallow_of_fill {unites : spec.Unites} (low : (spec.fill unites).Low chainLimit) :
    spec.Shallow where
  args form member := by
    have depth := needs_le_nest (fun _ => 1) (spec.closed form member)
    have below : 5 + form.nest < chainLimit := low.args form member
    omega
  forms form member := by
    have depth := needs_le_nest_fill spec.argument (spec.proper form member)
      fun index _ => closed_argument index
    have below : 2 + (form.fill spec.argument).nest < chainLimit := by
      refine low.forms _ ?_
      show _ ∈ spec.result.fill spec.argument :: spec.params.map (TypeForm.fill spec.argument)
      rw [← List.map_cons (f := TypeForm.fill spec.argument)]
      exact List.mem_map_of_mem member
    show (form.needs fun index => (spec.argument index).needs fun _ => 1) ≤ chainLimit
    omega

theorem isEmpty_code (spec : Specialization) : spec.code.isEmpty = false :=
  isEmpty_of_octets spec.octets_code

/-- Nothing is referred to that is not there. -/
theorem strayBeyond_eq_none (inside : ∀ index ∈ spec.indices, index < spec.args.length) :
    strayBeyond spec.args.length spec.indices = none := by
  unfold strayBeyond
  rw [Option.map_eq_none_iff, List.find?_eq_none]
  intro index member
  rw [decide_eq_true_eq]
  exact Nat.not_le.mpr (inside index member)

end Spelled

end Specialization

namespace Engine

variable {options : Options}

/-- A template that refers to no argument but its own is demangled to what it reads. -/
theorem gives_specialization (bounded : options.maxSymbolLen < Number.bound) (generation : UInt32)
    {spec : Specialization} (inside : ∀ index ∈ spec.indices, index < spec.args.length)
    (shallow : spec.Shallow) :
    Gives (spec.code.utf8ByteSize ≤ options.maxSymbolLen ∧
        (4 < options.maxRecursion ∧ spec.Low options.maxRecursion ∧
          spec.needs + 3 ≤ options.maxRecursion) ∧ spec.text.utf8ByteSize ≤ options.maxOutputLen)
      spec.text ((resting options generation).demangle spec.code).1 := by
  refine gives_demangled spec.isEmpty_code ?_
  intro fits
  have parsed : Parse.Meets (4 < options.maxRecursion ∧ spec.Low options.maxRecursion) _ _ _ _ :=
    spec.read options.maxRecursion (by omega) id generation
  rw [Specialization.strayBeyond_eq_none inside] at parsed
  rw [parseAndSpell_resting]
  obtain ⟨root, state, run, stored⟩ | ⟨fault, state, run, full, limit⟩ := Granted.elim parsed.grants
  · rw [run]
    exact (gives_fitting (stored.written shallow)).weaken fun enough => ⟨enough.1.2.2, enough.2⟩
  · rw [run]
    exact .inr ⟨fun enough => full ⟨enough.1.1, enough.1.2.1⟩, fault, rfl, limit⟩

/-- A limit withholds the text of a template, or all its parts are below it. -/
theorem limited_or_low (bounded : options.maxSymbolLen < Number.bound) (generation : UInt32)
    {spec : Specialization} (inside : ∀ index ∈ spec.indices, index < spec.args.length) :
    Limited ((resting options generation).demangle spec.code).1 ∨
      spec.Low options.maxRecursion := by
  obtain ⟨-, limited⟩ | ⟨fits, same⟩ := demangle_or_limited options generation spec.isEmpty_code
  · exact .inl limited
  have parsed : Parse.Meets False _ _ _ _ :=
    spec.read options.maxRecursion (by omega) False.elim generation
  rw [Specialization.strayBeyond_eq_none inside] at parsed
  obtain ⟨root, state, run, stored⟩ | ⟨fault, state, run, -, limit⟩ := Granted.elim parsed.grants
  · exact .inr stored.low
  · refine .inl ⟨fault, ?_, limit⟩
    rw [same, parseAndSpell_resting, run]

/-- A template that refers to an argument that it does not have is no symbol. -/
theorem demangle_stray (bounded : options.maxSymbolLen < Number.bound) (generation : UInt32)
    {spec : Specialization} {index : Nat}
    (first : spec.indices.find? (fun index => spec.args.length ≤ index) = some index) :
    ((resting options generation).demangle spec.code).1 = .error (strayFault index) ∨
      Limited ((resting options generation).demangle spec.code).1 := by
  obtain ⟨-, limited⟩ | ⟨fits, same⟩ := demangle_or_limited options generation spec.isEmpty_code
  · exact .inr limited
  have parsed : Parse.Meets False _ _ _ _ :=
    spec.read options.maxRecursion (by omega) False.elim generation
  have due : strayBeyond spec.args.length spec.indices = some (strayFault index) := by
    unfold strayBeyond
    rw [first]
    rfl
  rw [due] at parsed
  obtain ⟨fault, state, run, fault_eq⟩ := parsed.refused
  rw [same, parseAndSpell_resting, run]
  exact fault_eq.imp (congrArg Except.error) fun limit => ⟨fault, rfl, limit⟩

/-- Template parameters show as their arguments: a function template is demangled as the one in
which the text of each argument is written where it is referred to. The first parameter without
an argument is a fault. -/
theorem demangle_specialization (options : Options) (bounded : options.maxSymbolLen < Number.bound)
    (shallow : options.maxRecursion ≤ 128) (generation : UInt32) (spec : Specialization) :
    ((∀ index ∈ spec.indices, index < spec.args.length) → spec.Unites →
      Limited ((resting options generation).demangle spec.code).1 ∨
      Limited ((resting options generation).demangle
        (spec.codeWith fun index => (spec.argument index).code)).1 ∨
      ((resting options generation).demangle spec.code).1 = .ok spec.text ∧
        ((resting options generation).demangle
          (spec.codeWith fun index => (spec.argument index).code)).1 = .ok spec.text) ∧
    ∀ index, spec.indices.find? (fun index => spec.args.length ≤ index) = some index →
      ((resting options generation).demangle spec.code).1 = .error (strayFault index) ∨
        Limited ((resting options generation).demangle spec.code).1 := by
  refine ⟨fun inside unites => ?_, fun index first => demangle_stray bounded generation first⟩
  rw [← Specialization.code_fill unites]
  have none : ∀ index ∈ (spec.fill unites).indices, index < (spec.fill unites).args.length := by
    rw [Specialization.indices_fill]
    exact fun _ member => nomatch member
  obtain limited | low := limited_or_low bounded generation none
  · exact .inr (.inl limited)
  have low : (spec.fill unites).Low Print.chainLimit :=
    ⟨fun form member => Nat.lt_of_lt_of_le (low.args form member) shallow,
      fun form member => Nat.lt_of_lt_of_le (low.forms form member) shallow⟩
  obtain given | ⟨-, limited⟩ := gives_specialization bounded generation inside low.shallow_of_fill
  · obtain given' | ⟨-, limited⟩ := gives_specialization bounded generation none
      (low.shallow (Specialization.indices_fill unites))
    · rw [Specialization.text_fill] at given'
      exact .inr (.inr ⟨given, given'⟩)
    · exact .inr (.inl limited)
  · exact .inl limited

section Examples

/-- A reference to a parameter that is bound to a reference, and a pointer to one that is bound to
an array. -/
def boundDeclarators : Specialization where
  ident := ⟨"f", Identifier.opens_f⟩
  args := [.reference .lvalue (.builtin 'i'), .array 3 (.builtin 'c')]
  result := .builtin 'v'
  params := [.reference .rvalue (.param 0), .pointer (.param 1)]
  closed := by simp [TypeForm.indices]
  properArgs := by simp [TypeForm.Proper, Builtin.spelling?]
  otherArgs := by simp [TypeForm.isVoid]
  proper := by simp [TypeForm.Proper, Builtin.spelling?]
  others := by simp [TypeForm.isVoid]
  some := by simp

theorem text_boundDeclarators :
    boundDeclarators.text = "void f<int&, char [3]>(int&, char (*) [3])" := by
  have first : boundDeclarators.argument 0 = .reference .lvalue (.builtin 'i') := rfl
  have second : boundDeclarators.argument 1 = .array 3 (.builtin 'c') := rfl
  have args : boundDeclarators.args =
      [.reference .lvalue (.builtin 'i'), .array 3 (.builtin 'c')] := rfl
  have result : boundDeclarators.result = .builtin 'v' := rfl
  have params : boundDeclarators.params =
      [.reference .rvalue (.param 0), .pointer (.param 1)] := rfl
  simp only [Specialization.text, Specialization.spelled, args, result, params, first, second,
    TypeForm.closedSpelling, TypeForm.spelling, List.map]
  decide +kernel

theorem codes_boundDeclarators : boundDeclarators.code = "_Z1fIRiA3_cEvOT_PT0_" ∧
    (boundDeclarators.codeWith fun index => (boundDeclarators.argument index).code) =
      "_Z1fIRiA3_cEvORiPA3_c" := by
  have first : boundDeclarators.argument 0 = .reference .lvalue (.builtin 'i') := rfl
  have second : boundDeclarators.argument 1 = .array 3 (.builtin 'c') := rfl
  have args : boundDeclarators.args =
      [.reference .lvalue (.builtin 'i'), .array 3 (.builtin 'c')] := rfl
  have result : boundDeclarators.result = .builtin 'v' := rfl
  have params : boundDeclarators.params =
      [.reference .rvalue (.param 0), .pointer (.param 1)] := rfl
  simp only [Specialization.code, Specialization.codeWith, args, result, params, first, second,
    TypeForm.code, TypeForm.codeWith, List.map]
  decide +kernel

/-- The same arguments, and a parameter beyond them. -/
def unboundParam : Specialization :=
  { boundDeclarators with
    params := [.param 2]
    proper := by simp [boundDeclarators, TypeForm.Proper, Builtin.spelling?]
    others := by simp [TypeForm.isVoid]
    some := by simp }

/-- The reference collapses, the pointer is in parentheses, and the parameter beyond the arguments
is a fault. -/
theorem demangle_boundDeclarators :
    ({} : Options).maxSymbolLen < Number.bound ∧ ({} : Options).maxRecursion ≤ 128 ∧
      ((∀ index ∈ boundDeclarators.indices, index < boundDeclarators.args.length) ∧
        boundDeclarators.Unites ∧
        ((resting {} 0).demangle "_Z1fIRiA3_cEvOT_PT0_").1 =
          .ok "void f<int&, char [3]>(int&, char (*) [3])" ∧
        ((resting {} 0).demangle "_Z1fIRiA3_cEvORiPA3_c").1 =
          .ok "void f<int&, char [3]>(int&, char (*) [3])") ∧
      unboundParam.indices.find? (fun index => unboundParam.args.length ≤ index) = some 2 ∧
        (((resting {} 0).demangle unboundParam.code).1 = .error .badTemplateArgReference ∨
          Limited ((resting {} 0).demangle unboundParam.code).1) := by
  have bounded : ({} : Options).maxSymbolLen < Number.bound := by decide
  have shallow : ({} : Options).maxRecursion ≤ 128 := by decide
  have inside : ∀ index ∈ boundDeclarators.indices, index < boundDeclarators.args.length := by
    simp [boundDeclarators, Specialization.indices, TypeForm.indices]
  have unites : boundDeclarators.Unites := by
    simp [boundDeclarators, Specialization.Unites, TypeForm.Unites]
  have beyond : unboundParam.indices.find? (fun index => unboundParam.args.length ≤ index) =
      some 2 := by
    simp [unboundParam, boundDeclarators, Specialization.indices, TypeForm.indices]
  have same := (demangle_specialization {} bounded shallow 0 boundDeclarators).1 inside unites
  have fault := (demangle_specialization {} bounded shallow 0 unboundParam).2 2 beyond
  rw [codes_boundDeclarators.1, codes_boundDeclarators.2, text_boundDeclarators] at same
  have read : ((resting {} 0).demangle "_Z1fIRiA3_cEvOT_PT0_").1.isOk = true := by decide +kernel
  have read' : ((resting {} 0).demangle "_Z1fIRiA3_cEvORiPA3_c").1.isOk = true := by decide +kernel
  obtain limited | limited | given := same
  · rw [limited.isOk] at read
    cases read
  · rw [limited.isOk] at read'
    cases read'
  · exact ⟨bounded, shallow, ⟨inside, unites, given⟩, beyond, fault⟩

end Examples

end Engine
end Unmangle
