import Unmangle.Proofs.Declarator.Params
import Unmangle.Proofs.Declarator.Spellable

/-!
# Function templates with a pack

A pack as the only argument of a function template, and an expansion of it behind other
parameters. It is demangled with a parameter for each element of the pack.
-/
namespace Unmangle

/-- A function template with a pack of types, parameters that do not refer to it, and one that
expands it. -/
structure PackTemplate where
  ident : Identifier
  elements : List TypeForm
  params : List TypeForm
  pattern : Pattern
  spellable : ∀ form ∈ elements ++ params, form.Spellable
  plain : ∀ form ∈ elements, form.Every TypeForm.Plain
  others : ∀ form ∈ params, form.isVoid = false
  flatPattern : pattern.form.Every TypeForm.Flat

namespace PackTemplate

def code (template : PackTemplate) : String :=
  "_Z" ++ (template.ident.code ++ ("IJ" ++ (String.join (template.elements.map TypeForm.code) ++
    ("EEv" ++ (String.join (template.params.map TypeForm.code) ++
      ("Dp" ++ template.pattern.form.code))))))

def paramTexts (template : PackTemplate) : List String :=
  template.params.map (fun form => form.declare "") ++
    template.elements.map fun form => (template.pattern.put form).declare ""

def text (template : PackTemplate) : String :=
  "void " ++ (template.ident.text ++ ("<" ++
    (", ".intercalate (template.elements.map fun form => form.declare "") ++ (">(" ++
      (", ".intercalate template.paramTexts ++ ")")))))

open TypeForm

variable {template : PackTemplate} {symbol : ByteArray} {limit : Nat} {tree : Tree} {root : NodeId}

/-- What comes behind the name, in the order in which it is read. -/
def parameters (template : PackTemplate) : List Parameter :=
  template.params.map .type ++ [.expansion template.pattern.form]

/-- The bytes of a template. -/
theorem octets_code (template : PackTemplate) :
    octets template.code = [95, 90] ++ (octets template.ident.code ++ (73 :: 74 ::
      (octets (String.join (template.elements.map TypeForm.code)) ++ (69 :: 69 ::
        (octets (TypeForm.builtin 'v').code ++
          octets (String.join (template.parameters.map Parameter.code))))))) := by
  have codes : String.join (template.parameters.map Parameter.code) =
      String.join (template.params.map TypeForm.code) ++ ("Dp" ++ template.pattern.form.code) := by
    rw [parameters, List.map_append, List.map_map, String.join_append]
    rw [List.map_singleton, String.join_cons, String.join_nil, String.append_empty]
    rfl
  have result : octets (TypeForm.builtin 'v').code = [118] := by
    rw [TypeForm.code, codeWith]
    rfl
  simp only [code, codes, result, octets_append]
  rfl

theorem isEmpty_code (template : PackTemplate) : template.code.isEmpty = false :=
  isEmpty_of_octets template.octets_code

/-- Only the expansion refers to the pack. -/
theorem indices_parameters (template : PackTemplate) :
    (template.parameters.map fun param => param.form.indices).flatten = [0] := by
  have none : (template.params.map fun form => form.indices).flatten = [] :=
    List.flatten_eq_nil_iff.mpr (List.forall_mem_map.mpr fun form member =>
      (template.spellable form (List.mem_append_right _ member)).closed)
  have last : [Parameter.expansion template.pattern.form].map (fun param => param.form.indices) =
      [[0]] := congrArg (fun indices => [indices]) template.pattern.indices_form
  rw [parameters, List.map_append, List.flatten_append, List.map_map, last]
  exact congrArg (· ++ _) none

/-- What the names of a template stand for when it is stored. -/
def Stored (template : PackTemplate) (limit : Nat) (symbol : ByteArray) : Tree → NodeId → Prop :=
  Specialized symbol template.ident (Packed symbol template.elements)
    (fun tree outer id => (builtin 'v').Stored symbol tree (fun index => outer[index]?) id ∧
      2 + (builtin 'v').nest < limit)
    (fun tree outer ids => List.Forall₂ (fun param id =>
      param.Stored symbol tree (fun index => outer[index]?) id) template.parameters ids)

/-- A template is read, unless a limit ends it. -/
theorem read (template : PackTemplate) (limit : Nat)
    (small : template.code.utf8ByteSize < Number.bound) (generation : UInt32) :
    Parse.Meets False none (Rule.parse limit limit .symbol)
      (.start generation template.code.toUTF8) fun root t =>
        template.Stored limit template.code.toUTF8 t.work.tree root := by
  have properElements : ∀ form ∈ template.elements, form.Every Proper := fun form member =>
    (template.spellable form (List.mem_append_left _ member)).proper
  have proper : ∀ param ∈ template.parameters, param.form.Every Proper := by
    refine List.forall_mem_append.mpr ⟨List.forall_mem_map.mpr fun form member => ?_, ?_⟩
    · exact (template.spellable form (List.mem_append_right _ member)).proper
    · exact List.forall_mem_singleton.mpr template.pattern.proper_form
  have others : ∀ param ∈ template.parameters, param.isVoid = false :=
    List.forall_mem_append.mpr ⟨List.forall_mem_map.mpr template.others,
      List.forall_mem_singleton.mpr rfl⟩
  have lasting : Lasting fun tree (outer : Array NodeId) (ids : List NodeId) =>
      List.Forall₂ (fun param id => param.Stored template.code.toUTF8 tree
        (fun index => outer[index]?) id) template.parameters ids := fun _ _ _ _ stored later =>
    stored.imp fun param id stored => stored.grows later
  have result : (builtin 'v').Every Proper := every_builtin.mpr rfl
  have nothing : (strayBeyond 1 (builtin 'v').indices).or none = none := by
    rw [TypeForm.indices]
    rfl
  rw [← nothing]
  refine Parse.Meets.templateSymbol limit
    (octets (String.join (template.parameters.map Parameter.code))) Packed.lasting lasting ?_
    (by decide) small result False.elim False.elim (Parameter.ahead_join proper)
    template.octets_code ?_ ?_ generation
  · rintro tree outer ids ⟨-, -, -, -⟩
    rfl
  · intro b levels t level spent bound ht
    exact Parse.Meets.readPack (fun form member =>
      ⟨Parse.Meets.reads small (properElements form member), properElements form member⟩)
      (fun form member => (template.spellable form (List.mem_append_left _ member)).closed) spent False.elim
      bound ht
  · intro b levels outer ids t level spent inScope packed ht
    have within : strayAmong (fun index => outer[index]?)
        (template.parameters.map fun param => param.form.indices).flatten = none := by
      rw [strayAmong_array, strayBeyond, template.indices_parameters]
      obtain ⟨-, -, -, -⟩ := packed
      rfl
    rw [← within]
    refine (Parse.Meets.encodingParams small proper others
      (List.append_ne_nil_of_right_ne_nil _ (List.cons_ne_nil _ _)) spent False.elim inScope
        ht).weaken ?_
    intro ids u found
    exact ⟨found.1, found.2.imp fun param id entered => entered.1⟩

section Written

open Print

variable {limits : SpellingLimits} {form : TypeForm} {forms : List TypeForm} {id entry inner : NodeId}
  {scope : Nat → Option NodeId} {run : NodeList} {ids : List NodeId} {pattern : Pattern}

/-- An element of a pack is written in the place of the parameter of a pattern. -/
theorem writes_element (spellable : ∀ form ∈ forms, form.Spellable)
    (flat : pattern.form.Every Flat) (stored : pattern.form.Stored symbol tree scope id)
    (found : scope 0 = some entry) (held : tree.get? entry = some (.parameterPack run))
    (lists : tree.Lists run ids)
    (stored' : List.Forall₂ (fun form id => form.Stored symbol tree (fun _ => none) id) forms ids)
    {index : Nat} (inside : index < forms.length) :
    WritesElement False limits symbol tree id ⟨index, run.length⟩
      ((pattern.put forms[index]).declare "") := by
  obtain ⟨size, each⟩ := List.forall₂_iff_get.mp stored'
  have inside' : index < ids.length := size ▸ inside
  have element : tree.element? run index = some ids[index] := by
    rw [Store.element?_eq, lists.listed]
    exact List.getElem?_eq_getElem inside'
  have this := spellable forms[index] (List.getElem_mem inside)
  have shown : Shown symbol tree (some ⟨index, run.length⟩) _ _ _ _ entry :=
    .parameterPack held element (this.shown (each index inside inside')) (by decide) (by decide)
      (Nat.le_of_succ_le (two_le_needs (fun _ => Nat.le_refl 1) _))
  obtain ⟨_, _, _, -, -, shown⟩ := Pattern.shown stored flat found shown (by decide) (by decide)
    (Nat.le_add_left 1 _)
  rw [pattern.declare_put this]
  intro levels canvas packed spent
  exact shown.shows.spell (pattern.solid_put this) packed spent False.elim

/-- An expansion writes its pattern with each element. -/
theorem writes_expansion (spellable : ∀ form ∈ forms, form.Spellable)
    (flat : pattern.form.Every Flat) (held : tree.get? id = some (.expansion inner))
    (stored : pattern.form.Stored symbol tree scope inner)
    (found : scope 0 = some entry) (held' : tree.get? entry = some (.parameterPack run))
    (lists : tree.Lists run ids)
    (stored' : List.Forall₂ (fun form id => form.Stored symbol tree (fun _ => none) id) forms ids) :
    WritesTexts False limits symbol tree
      (forms.map fun form => (pattern.put form).declare "") id := by
  intro levels canvas packed spent
  have size : run.length = forms.length := lists.length.trans stored'.length_eq.symm
  have texts : (forms.map fun form => (pattern.put form).declare "") =
      (List.range run.length).map fun index =>
        (forms[index]?.map fun form => (pattern.put form).declare "").getD "" := by
    refine List.ext_getElem (by simp [size]) ?_
    intro index inside _
    rw [List.length_map] at inside
    simp [List.getElem?_eq_getElem inside]
  refine Writes.spellLeft held (fun _ => rfl) spent (Nat.le_refl 1) False.elim ?_
  intro levels spent
  rw [texts]
  refine writes_expand (settles_left stored flat found held') (fun index inside => ?_)
    (fun empty canvas packed spent => ?_) packed spent
  · rw [size] at inside
    rw [List.getElem?_eq_getElem inside]
    exact writes_element spellable flat stored found held' lists stored' inside
  · have none : tree.element? run 0 = .none := by
      rw [Store.element?_eq, lists.listed, List.getElem?_eq_none]
      rw [← lists.length, empty]
    have absent : Shown symbol tree (some ⟨0, run.length⟩) _ _ _ _ entry := .absent held' none
    obtain ⟨_, _, _, -, -, shown⟩ := Pattern.shown stored flat found absent (by decide) (by decide)
      (by decide)
    exact ⟨_, (shown.shows.left packed spent False.elim).andThen
      (shown.shows.right packed spent False.elim)⟩

def texts (template : PackTemplate) : Parameter → List String
  | .type form => [form.declare ""]
  | .expansion _ => template.elements.map fun form => (template.pattern.put form).declare ""

theorem flatten_texts (template : PackTemplate) :
    (template.parameters.map template.texts).flatten = template.paramTexts := by
  rw [parameters, List.map_append, List.flatten_append, List.map_map, paramTexts]
  refine congr (congrArg _ ?_) ?_
  · exact (List.map_eq_flatMap ..).symm
  · rw [List.map_singleton, List.flatten_singleton, texts]

/-- A pack writes its elements. -/
theorem writes_pack (spellable : ∀ form ∈ forms, form.Spellable)
    (held : tree.get? id = some (.argumentPack run)) (lists : tree.Lists run ids)
    (stored : List.Forall₂ (fun form id => form.Stored symbol tree (fun _ => none) id) forms ids) :
    (∀ words ∈ forms.map fun form => form.declare "", words ≠ "") ∧
      WritesTexts False limits symbol tree (forms.map fun form => form.declare "") id := by
  have whole : ListWrites symbol tree limits False 1 _ run := listWrites_forms spellable lists stored
  refine ⟨List.forall_mem_map.mpr fun form member => (spellable form member).declare_ne_empty,
    fun levels canvas packed spent => ?_⟩
  exact Writes.spellLeft held (fun _ => rfl) spent (Nat.le_refl 1) False.elim fun levels spent =>
    Writes.after rfl (whole packed spent False.elim)

/-- A parameter of a template writes its texts. -/
theorem writes_parameter {param : Parameter} (member : param ∈ template.parameters)
    (stored : param.Stored symbol tree scope id) (found : scope 0 = some entry)
    (held : tree.get? entry = some (.parameterPack run)) (lists : tree.Lists run ids)
    (stored' : List.Forall₂ (fun form id => form.Stored symbol tree (fun _ => none) id)
      template.elements ids) :
    (∀ words ∈ template.texts param, words ≠ "") ∧
      WritesTexts False limits symbol tree (template.texts param) id := by
  have elements : ∀ form ∈ template.elements, form.Spellable := fun form member =>
    template.spellable form (List.mem_append_left _ member)
  obtain member | member := List.mem_append.mp member
  · obtain ⟨form, member', rfl⟩ := List.mem_map.mp member
    exact (template.spellable form (List.mem_append_right _ member')).writes stored
  · cases List.mem_singleton.mp member
    obtain ⟨inner, held', stored⟩ := stored
    refine ⟨List.forall_mem_map.mpr fun form member => ?_,
      writes_expansion elements template.flatPattern held' stored found held lists stored'⟩
    rw [template.pattern.declare_put (elements form member)]
    exact (template.pattern.solid_put (elements form member)).text_ne_empty

theorem template_void (template : PackTemplate) :
    (Halves.leaf "void").template template.ident.text
      (", ".intercalate (template.elements.map fun form => form.declare ""))
      (", ".intercalate template.paramTexts) = template.text := by
  have space : "void " = "void" ++ " " := by decide
  have opened : ">(" = ">" ++ "(" := by decide
  rw [Halves.template, angled_forms template.plain, text, space, opened]
  simp only [Halves.leaf, Bool.not_false, if_true, String.append_assoc, String.append_empty]

/-- A template that is stored is spelled as it reads. -/
theorem Stored.written (stored : template.Stored limit symbol tree root) :
    Writes False template.text (rendering limits symbol tree root) {} := by
  cases stored with
  | function held instantiated words listed lists lists' stands stands' stands'' =>
    obtain ⟨atPack, atEntry, elements, stored⟩ := stands
    cases stands'.1 with
    | builtin void =>
      obtain ⟨text, void, resolved⟩ := void
      have args : ListWrites symbol tree limits False 2 _ _ :=
        listWrites_texts lists (.cons (writes_pack (fun form member =>
          template.spellable form (List.mem_append_left _ member)) atPack elements stored) .nil)
      have params : ListWrites symbol tree limits False 2
          (", ".intercalate (template.parameters.map template.texts).flatten) _ :=
        listWrites_texts lists' (List.forall₂_map_left_iff.mpr
          (((List.forall₂_and_left _ _).mpr ⟨fun param member => member, stands''⟩).imp
            fun param id each => writes_parameter each.1 each.2 rfl atEntry elements stored))
      rw [template.flatten_texts] at params
      rw [List.flatten_singleton] at args
      have result : Shows symbol tree none 1 2 (.leaf "void") _ := .leaf void resolved
      rw [← template_void]
      exact writes_template held instantiated words listed result (by decide) (Nat.le_refl 2) args
        params (by decide) False.elim

end Written

end PackTemplate

namespace Engine

variable {options : Options}

/-- The expansion of a pack shows its pattern with each element, whatever their number: neither an
empty pack nor the lack of other parameters leaves a comma. -/
theorem demangle_pack (options : Options) (bounded : options.maxSymbolLen < Number.bound)
    (generation : UInt32) (template : PackTemplate) :
    ((resting options generation).demangle template.code).1 = .ok template.text ∨
      Limited ((resting options generation).demangle template.code).1 := by
  obtain ⟨-, limited⟩ | ⟨fits, same⟩ :=
    demangle_or_limited options generation template.isEmpty_code
  · exact .inr limited
  have parsed := template.read options.maxRecursion (by omega) generation
  rw [same, parseAndSpell_resting]
  obtain ⟨root, state, run, stored⟩ | ⟨fault, state, run, -, limit⟩ := Granted.elim parsed.grants
  · rw [run]
    exact (gives_spelled stored.written).imp id And.right
  · rw [run]
    exact .inr ⟨fault, rfl, limit⟩

section Examples

/-- A reference to each element of a pack, one of which is a reference, behind another parameter. -/
def referredPack : PackTemplate where
  ident := ⟨"f", Identifier.opens_f⟩
  elements := [.builtin 'i', .reference .lvalue (.builtin 'c')]
  params := [.builtin 'd']
  pattern := .reference .rvalue .param
  spellable := by
    simp [TypeForm.spellable_iff, TypeForm.indices, TypeForm.Proper, TypeForm.Flat,
      TypeForm.isReference, Builtin.spelling?]
  plain := by simp [TypeForm.Plain]
  others := by simp [TypeForm.isVoid]
  flatPattern := by simp [Pattern.form, TypeForm.Flat, TypeForm.isReference]

/-- An empty pack, expanded as the only parameter. -/
def emptyPack : PackTemplate where
  ident := ⟨"f", Identifier.opens_f⟩
  elements := []
  params := []
  pattern := .param
  spellable := by simp
  plain := by simp
  others := by simp
  flatPattern := by simp [Pattern.form, TypeForm.Flat]

theorem code_referredPack : referredPack.code = "_Z1fIJiRcEEvdDpOT_" ∧
    referredPack.text = "void f<int, char&>(double, int&&, char&)" := by
  have elements : referredPack.elements = [.builtin 'i', .reference .lvalue (.builtin 'c')] := rfl
  have params : referredPack.params = [.builtin 'd'] := rfl
  have pattern : referredPack.pattern = .reference .rvalue .param := rfl
  simp only [PackTemplate.code, PackTemplate.text, PackTemplate.paramTexts, elements, params, pattern,
    Pattern.form, Pattern.put, TypeForm.refer, TypeForm.code, TypeForm.codeWith, TypeForm.declare,
    List.map]
  decide +kernel

theorem code_emptyPack : emptyPack.code = "_Z1fIJEEvDpT_" ∧ emptyPack.text = "void f<>()" := by
  have elements : emptyPack.elements = [] := rfl
  have params : emptyPack.params = [] := rfl
  have pattern : emptyPack.pattern = .param := rfl
  simp only [PackTemplate.code, PackTemplate.text, PackTemplate.paramTexts, elements, params, pattern,
    Pattern.form, TypeForm.code, TypeForm.codeWith, List.map]
  decide +kernel

/-- An element that is a reference is not referred to twice, and an empty pack leaves no comma. -/
theorem demangle_referredPack :
    ({} : Options).maxSymbolLen < Number.bound ∧
      ((resting {} 0).demangle "_Z1fIJiRcEEvdDpOT_").1 =
        .ok "void f<int, char&>(double, int&&, char&)" ∧
      ((resting {} 0).demangle "_Z1fIJEEvDpT_").1 = .ok "void f<>()" := by
  have bounded : ({} : Options).maxSymbolLen < Number.bound := by decide
  have referred := demangle_pack {} bounded 0 referredPack
  have empty := demangle_pack {} bounded 0 emptyPack
  rw [code_referredPack.1, code_referredPack.2] at referred
  rw [code_emptyPack.1, code_emptyPack.2] at empty
  have read : ((resting {} 0).demangle "_Z1fIJiRcEEvdDpOT_").1.isOk = true := by decide +kernel
  have read' : ((resting {} 0).demangle "_Z1fIJEEvDpT_").1.isOk = true := by decide +kernel
  obtain referred | limited := referred
  · obtain empty | limited := empty
    · exact ⟨bounded, referred, empty⟩
    · rw [limited.isOk] at read'
      cases read'
  · rw [limited.isOk] at read
    cases read

end Examples

end Engine
end Unmangle
