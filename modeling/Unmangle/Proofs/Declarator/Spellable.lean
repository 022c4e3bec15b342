import Unmangle.Proofs.Declarator.Bare
import Unmangle.Proofs.Declarator.Expansion

/-!
# Closed forms in the place of parameters

What is to be known of a form for it to be spelled on its own, in a list of arguments, and in a
pattern in the place of its parameter.
-/
namespace Unmangle

namespace TypeForm

open Print

variable {form : TypeForm} {kind : Reference}

/-- A reference to a form. One to another reference is what the two come to. -/
def refer (kind : Reference) : TypeForm → TypeForm
  | reference inner target => reference (kind.collapse inner) target
  | form => reference kind form

/-- No identifier ends in a bracket like that of template arguments. -/
def Plain : TypeForm → Prop
  | named id => endsInAngle id.words = false
  | _ => True

/-- What is to be known of a form that refers to nothing for it to be declared with. -/
structure Spellable (form : TypeForm) : Prop where
  closed : form.indices = []
  proper : form.Every Proper
  flat : form.Every Flat

theorem spellable_iff :
    form.Spellable ↔ form.indices = [] ∧ form.Every Proper ∧ form.Every Flat :=
  ⟨fun ⟨closed, proper, flat⟩ => ⟨closed, proper, flat⟩,
    fun ⟨closed, proper, flat⟩ => ⟨closed, proper, flat⟩⟩

theorem refer_cases (kind : Reference) (form : TypeForm) :
    (∃ inner target, form = reference inner target) ∨
      form.isReference = false ∧ form.refer kind = reference kind form := by
  cases form with
  | reference inner target => exact .inl ⟨inner, target, rfl⟩
  | _ => exact .inr ⟨rfl, rfl⟩

theorem indices_refer : (form.refer kind).indices = form.indices := by
  obtain ⟨inner, target, rfl⟩ | ⟨-, same⟩ := refer_cases kind form
  · rw [refer, indices, indices]
  · rw [same, indices]

theorem flat_refer (flat : form.Every Flat) : (form.refer kind).Every Flat := by
  obtain ⟨inner, target, rfl⟩ | ⟨other, same⟩ := refer_cases kind form
  · rw [every_reference] at flat
    exact every_reference.mpr flat
  · rw [same]
    exact every_reference.mpr ⟨other, flat⟩

theorem spelling_refer (argument : Nat → Spelling) :
    (form.refer kind).spelling argument = (form.spelling argument).refer kind := by
  obtain ⟨inner, target, rfl⟩ | ⟨-, same⟩ := refer_cases kind form
  · rw [refer, spelling, spelling, Spelling.refer, Spelling.refer, Spelling.under_refer]
    rfl
  · rw [same, spelling]

section Spellable

variable {symbol : ByteArray} {tree : Tree} {limits : SpellingLimits} {forms : List TypeForm}
  {run : NodeList} {ids : List NodeId}
  {scope : Nat → Option NodeId} {id : NodeId}

theorem Spellable.shown (spellable : form.Spellable) {pack : Option Pack}
    (stored : form.Stored symbol tree scope id) :
    Shown symbol tree pack 2 2 (form.needs fun _ => 1) form.closedSpelling id := by
  have short := short_of_flat (fun _ => 0) spellable.closed spellable.flat.self
  exact (stored.shown_closed spellable.closed spellable.proper
    (near_of_flat spellable.closed spellable.flat)).weaken short.1 (by decide) short.2 (Nat.le_refl _)

theorem Spellable.declare_ne_empty (spellable : form.Spellable) : form.declare "" ≠ "" := by
  rw [declare_nothing spellable.closed spellable.flat]
  exact (solid_closed spellable.closed spellable.proper).text_ne_empty

/-- A form writes the declaration of nothing with it. -/
theorem Spellable.writes (spellable : form.Spellable) (stored : form.Stored symbol tree scope id) :
    (∀ words ∈ [form.declare ""], words ≠ "") ∧
      WritesTexts False limits symbol tree [form.declare ""] id := by
  refine ⟨List.forall_mem_singleton.mpr spellable.declare_ne_empty,
    fun levels canvas packed spent => ?_⟩
  have solid := solid_closed spellable.closed spellable.proper
  rw [declare_nothing spellable.closed spellable.flat]
  exact (spellable.shown stored).shows.spell solid packed spent False.elim

/-- A list of names that write some texts each. -/
theorem listWrites_texts {texts : List (List String)} {need : Nat} (lists : tree.Lists run ids)
    (each : List.Forall₂ (fun texts id => (∀ words ∈ texts, words ≠ "") ∧
      WritesTexts False limits symbol tree texts id) texts ids) :
    ListWrites symbol tree limits False need (", ".intercalate texts.flatten) run := by
  intro levels canvas packed spent _
  have whole := writes_texts each true packed spent
  rwa [← lists.listed] at whole

/-- A list of forms writes the declarations of nothing with them. -/
theorem listWrites_forms {need : Nat} (spellable : ∀ form ∈ forms, form.Spellable)
    (lists : tree.Lists run ids)
    (stored : List.Forall₂ (fun form id => form.Stored symbol tree scope id) forms ids) :
    ListWrites symbol tree limits False need
      (", ".intercalate (forms.map fun form => form.declare "")) run := by
  have each : List.Forall₂ (fun texts id => (∀ words ∈ texts, words ≠ "") ∧
      WritesTexts False limits symbol tree texts id) (forms.map fun form => [form.declare ""]) ids :=
    List.forall₂_map_left_iff.mpr (((List.forall₂_and_left _ _).mpr ⟨spellable, stored⟩).imp
      fun _ _ each => each.1.writes each.2)
  have whole : ListWrites symbol tree limits False need _ run := listWrites_texts lists each
  rwa [← List.flatMap_def, ← List.map_eq_flatMap] at whole

end Spellable

section Ends

theorem endsInAngle_builtin (letter : Char) :
    endsInAngle ((Builtin.spelling? letter).getD "") = false := by
  unfold Builtin.spelling?
  split <;> decide

theorem endsInAngle_rare (letter : Char) :
    endsInAngle ((Builtin.extendedSpelling? letter).getD "") = false := by
  unfold Builtin.extendedSpelling?
  split <;> decide

theorem endsInAngle_text {ident : Identifier} (plain : endsInAngle ident.words = false) :
    endsInAngle ident.text = false := by
  unfold Identifier.text
  split
  · decide
  · exact plain

theorem endsInAngle_around {target : TypeForm} {words : String} (other : endsInAngle words = false) :
    endsInAngle (declare.around target words) = false := by
  have closed (opening : String) : endsInAngle (opening ++ (words ++ ")")) = false := by
    rw [← String.append_assoc, endsInAngle, endsIn_append _ (by decide)]
    decide
  unfold declare.around
  split
  · exact closed _
  · split
    · exact closed _
    · exact other

/-- What is declared with a type does not end in a bracket like that of template arguments. -/
theorem endsInAngle_declare (plain : form.Every Plain) {words : String}
    (other : endsInAngle words = false) : endsInAngle (form.declare words) = false := by
  have behind {before words : String} (other : endsInAngle before = false)
      (other' : endsInAngle words = false) : endsInAngle (before ++ words) = false :=
    (endsIn_append_of_not other).trans other'
  induction form generalizing words with
  | builtin letter =>
    rw [declare]
    exact behind (endsInAngle_builtin letter) other
  | rare letter =>
    rw [declare]
    exact behind (endsInAngle_rare letter) other
  | named ident =>
    rw [declare]
    exact behind (endsInAngle_text (every_named.mp plain)) other
  | pointer target ih =>
    rw [declare]
    exact ih (every_pointer.mp plain).2
      (endsInAngle_around (behind (by decide) other))
  | reference kind target ih =>
    rw [declare]
    exact ih (every_reference.mp plain).2
      (endsInAngle_around (behind (by cases kind <;> decide) other))
  | memberPointer scope member ih ih' =>
    rw [every_memberPointer] at plain
    have declarator : endsInAngle (scope.declare "" ++ ("::*" ++ words)) = false :=
      behind (ih plain.2.1 (by decide)) (behind (by decide) other)
    rw [declare]
    refine ih' plain.2.2 ?_
    split
    · exact behind (by decide) (behind declarator (by decide))
    · exact behind (by decide) declarator
  | array length element ih =>
    rw [declare]
    refine ih (every_array.mp plain).2 ?_
    rw [← String.append_assoc, ← String.append_assoc, ← String.append_assoc, endsInAngle,
      endsIn_append _ (by decide)]
    decide
  | function quals result params ih ihs =>
    rw [declare]
    refine behind (ih (every_function.mp plain).2.1 ?_) ?_
    · rw [← String.append_assoc, ← String.append_assoc, ← String.append_assoc, endsInAngle,
        endsIn_append _ (by decide)]
      decide
    · rcases quals with ⟨_ | _, _ | _, _ | _⟩ <;> decide
  | qualified quals target ih =>
    rw [declare]
    refine ih (every_qualified.mp plain).2 (behind ?_ other)
    rcases quals with ⟨_ | _, _ | _, _ | _⟩ <;> decide
  | param index =>
    rw [declare]
    exact other

/-- What a list of words ends in comes from one of them, or from none. -/
theorem endsInAngle_intercalate {texts : List String}
    (others : ∀ words ∈ texts, endsInAngle words = false) :
    endsInAngle (", ".intercalate texts) = false := by
  have later : ∀ texts : List String, (∀ words ∈ texts, endsInAngle words = false) →
      endsInAngle (commas texts) = false := by
    intro texts others
    induction texts with
    | nil => decide
    | cons words texts ih =>
      obtain ⟨other, others⟩ := List.forall_mem_cons.mp others
      rw [commas, endsInAngle, endsIn_append_of_not (by decide), endsIn_append_of_not other]
      exact ih others
  cases texts with
  | nil => decide
  | cons words texts =>
    obtain ⟨other, others⟩ := List.forall_mem_cons.mp others
    rw [intercalate_commas, endsInAngle, endsIn_append_of_not other]
    exact later texts others

/-- The arguments of a template do not end in a bracket of their own. -/
theorem angled_forms {forms : List TypeForm} (plain : ∀ form ∈ forms, form.Every Plain) :
    angled (", ".intercalate (forms.map fun form => form.declare "")) =
      "<" ++ (", ".intercalate (forms.map fun form => form.declare "") ++ ">") := by
  have other : endsInAngle
      ("<" ++ ", ".intercalate (forms.map fun form => form.declare "")) = false := by
    rw [endsInAngle, endsIn_append_of_not (by decide)]
    exact endsInAngle_intercalate (List.forall_mem_map.mpr fun form member =>
      endsInAngle_declare (plain form member) (by decide))
  rw [angled, other, if_neg Bool.false_ne_true, String.empty_append, String.append_assoc]

end Ends

end TypeForm

namespace Pattern

variable {form : TypeForm} {pattern : Pattern}

def put (form : TypeForm) : Pattern → TypeForm
  | param => form
  | pointer target => .pointer (target.put form)
  | reference kind target => (target.put form).refer kind

theorem indices_put (closed : form.indices = []) : (pattern.put form).indices = [] := by
  induction pattern with
  | param => exact closed
  | pointer target ih => rw [put, TypeForm.indices, ih]
  | reference kind target ih => rw [put, TypeForm.indices_refer, ih]

theorem flat_put (flat : form.Every TypeForm.Flat) : (pattern.put form).Every TypeForm.Flat := by
  induction pattern with
  | param => exact flat
  | pointer target ih => exact TypeForm.every_pointer.mpr ⟨trivial, ih⟩
  | reference kind target ih => exact TypeForm.flat_refer ih

/-- A pattern is spelled with the spelling of what is put into it. -/
theorem spelling_put (pattern : Pattern) (form : TypeForm) (argument : Nat → Spelling) :
    (pattern.put form).spelling argument =
      pattern.form.spelling fun _ => form.spelling argument := by
  induction pattern with
  | param => rw [put, Pattern.form, TypeForm.spelling]
  | pointer target ih => rw [put, Pattern.form, TypeForm.spelling, TypeForm.spelling, ih]
  | reference kind target ih => rw [put, Pattern.form, TypeForm.spelling_refer, TypeForm.spelling, ih]

theorem proper_form (pattern : Pattern) : pattern.form.Every TypeForm.Proper := by
  induction pattern with
  | param => exact TypeForm.every_param.mpr trivial
  | pointer target ih => exact TypeForm.every_pointer.mpr ⟨trivial, ih⟩
  | reference kind target ih => exact TypeForm.every_reference.mpr ⟨trivial, ih⟩

theorem indices_form (pattern : Pattern) : pattern.form.indices = [0] := by
  induction pattern with
  | param => rw [Pattern.form, TypeForm.indices]
  | pointer target ih | reference kind target ih => rw [Pattern.form, TypeForm.indices, ih]

/-- A pattern is declared with as it is spelled with its parameter spelled as the form. -/
theorem declare_put (spellable : form.Spellable) (pattern : Pattern) :
    (pattern.put form).declare "" =
      (pattern.form.spelling fun _ => form.closedSpelling).text := by
  rw [TypeForm.declare_nothing (indices_put spellable.closed) (flat_put spellable.flat),
    TypeForm.closedSpelling, spelling_put]
  rfl

theorem solid_put (spellable : form.Spellable) (pattern : Pattern) :
    (pattern.form.spelling fun _ => form.closedSpelling).halves.Solid :=
  TypeForm.solid_spelling pattern.proper_form fun _ _ =>
    TypeForm.solid_closed spellable.closed spellable.proper

end Pattern

end Unmangle
