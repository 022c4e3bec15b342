import Unmangle.Proofs.Output.Clear
import Unmangle.Proofs.Output.Lookup
import Unmangle.Spelling.Speller

/-!
# What a spelling adds

A half that is spelled adds to what is written and takes nothing of it back. What may be said of
the added text is up to a script: it is told which brackets are open before the text and which
behind it.
-/
namespace Unmangle

/-- A text that leads from some open brackets to others. -/
structure Trace where
  leads : List Bracket → ByteArray → List Bracket → Prop
  nil (opened : List Bracket) : leads opened .empty opened
  append {opened between opened' : List Bracket} {bytes bytes' : ByteArray} :
    leads opened bytes between → leads between bytes' opened' → leads opened (bytes ++ bytes') opened'

/-- What is added on the way from a canvas to another. -/
structure Trace.Added (trace : Trace) (opened opened' : List Bracket) (canvas after : Canvas)
    (added : ByteArray) : Prop where
  out : after.out = canvas.out ++ added
  leads : trace.leads opened added opened'
  depth : after.depth = canvas.depth

/-- At some place in a pack a step adds text that leads from some open brackets to others, if it
succeeds, and stays at that place. -/
def Trace.Adds (trace : Trace) (index : Nat) (opened opened' : List Bracket) (p : Print Unit) :
    Prop :=
  ∀ ⦃canvas after : Canvas⦄, canvas.index = index → p.run canvas = .ok () after →
    after.index = index ∧ ∃ added, trace.Added opened opened' canvas after added

namespace Trace.Adds

open Print

variable {α : Type} {trace : Trace} {index : Nat} {opened between opened' : List Bracket}

theorem pure : trace.Adds index opened opened (Pure.pure ()) := by
  rintro canvas _ here ⟨⟩
  exact ⟨here, .empty, ByteArray.append_empty.symm, trace.nil opened, rfl⟩

theorem throw (fault : Fault) : trace.Adds index opened opened' (Print.throw fault) := by
  rintro _ _ - ⟨⟩

/-- Brackets that stay open behind one text may be closed by the next. -/
theorem andThen {p : Print Unit} {f : Unit → Print Unit}
    (first : trace.Adds index opened between p) (next : trace.Adds index between opened' (f ())) :
    trace.Adds index opened opened' (p >>= f) := by
  intro canvas after here run
  obtain ⟨⟨⟩, mid, run, run'⟩ := of_run_bind run
  obtain ⟨here', added, first⟩ := first here run
  obtain ⟨here'', added', next⟩ := next here' run'
  refine ⟨here'', added ++ added', ?_, trace.append first.leads next.leads,
    next.depth.trans first.depth⟩
  rw [next.out, first.out, ByteArray.append_assoc]

/-- A look at the tree comes first. -/
theorem look {p : Print α} {f : α → Print Unit} {value : α} (finds : Finds index p value)
    (next : trace.Adds index opened opened' (f value)) :
    trace.Adds index opened opened' (p >>= f) := by
  intro canvas after here run
  obtain ⟨found, mid, run, run'⟩ := of_run_bind run
  obtain ⟨rfl, beside⟩ := finds.unique here run
  obtain ⟨here', added, next⟩ := next (beside.index.trans here) run'
  exact ⟨here', added, by rw [next.out, beside.out], next.leads, next.depth.trans beside.depth⟩

/-- A look at the canvas comes first. -/
theorem peek {p : Print α} {f : α → Print Unit} (still : ∀ canvas, ∃ a : α, p.run canvas = .ok a canvas)
    (next : ∀ a, trace.Adds index opened opened' (f a)) :
    trace.Adds index opened opened' (p >>= f) := by
  intro canvas after here run
  obtain ⟨found, mid, run, run'⟩ := of_run_bind run
  obtain ⟨a, same⟩ := still canvas
  cases same.symm.trans run
  exact next found here run'

theorem ite {c : Prop} [Decidable c] {p q : Print Unit} (yes : trace.Adds index opened opened' p)
    (no : trace.Adds index opened opened' q) :
    trace.Adds index opened opened' (if c then p else q) := by
  split
  · exact yes
  · exact no

theorem whenever {holds : Bool} {p : Print Unit} (adds : trace.Adds index opened opened p) :
    trace.Adds index opened opened (Print.whenever holds p) :=
  ite adds pure

theorem ifAny {id : Option NodeId} {p : NodeId → Print Unit}
    (adds : ∀ id, trace.Adds index opened opened (p id)) :
    trace.Adds index opened opened (Print.ifAny id p) := by
  cases id with
  | none => exact pure
  | some id => exact adds id

theorem writeBytes {bytes : ByteArray} (leads : trace.leads opened bytes opened') :
    trace.Adds index opened opened' (Print.writeBytes bytes) := by
  rintro canvas _ here ⟨⟩
  exact ⟨here, bytes, rfl, leads, rfl⟩

theorem nested {limits : SpellingLimits} {p : Print Unit} (adds : trace.Adds index opened opened' p) :
    trace.Adds index opened opened' (deeper limits p) := by
  intro canvas after here run
  obtain ⟨inner, inside, rfl⟩ := of_run_deeper run
  obtain ⟨here', added, inside⟩ := @adds { canvas with depth := canvas.depth + 1 } _ here inside
  exact ⟨here', added, inside.out, inside.leads, Nat.sub_eq_of_eq_add inside.depth⟩

end Trace.Adds

/-- Words of the language that is spelled: their brackets nest, and they are no beginning of a
symbol. -/
structure Plain (words : String) : Prop where
  balanced : Bracket.Balanced words.toList
  clear : Clear words.toList

instance (words : String) : Decidable (Plain words) :=
  decidable_of_iff (Bracket.Balanced words.toList ∧ Clear words.toList)
    ⟨fun h => ⟨h.1, h.2⟩, fun h => ⟨h.1, h.2⟩⟩

/-- What may be said of a spelling. The words of the language may be written anywhere, the texts
of a tree where the script allows them. -/
structure Script extends Trace where
  /-- The words may stand in a node. -/
  word : String → Prop
  /-- The bytes may stand where a name stands. -/
  name : ByteArray → Prop
  /-- The bytes may stand behind something that is written. -/
  inert : ByteArray → Prop
  /-- The bytes may stand where a number stands, with its sign. -/
  number : ByteArray → Prop
  words {opened opened' : List Bracket} {words : String} :
    Bracket.scan opened words.toList = some opened' → Clear words.toList →
      leads opened words.toUTF8 opened'
  worded {words : String} (opened : List Bracket) : word words → leads opened words.toUTF8 opened
  named {bytes : ByteArray} (opened : List Bracket) : name bytes → leads opened bytes opened
  behind {opened opened' : List Bracket} {bytes bytes' : ByteArray} :
    leads opened bytes opened' → bytes ≠ .empty → inert bytes' → leads opened (bytes ++ bytes') opened'
  unsigned {bytes : ByteArray} (opened : List Bracket) :
    number bytes → bytes[0]? ≠ some 110 → leads opened bytes opened
  signed {bytes : ByteArray} : number bytes → inert (bytes.extract 1 bytes.size)

namespace Script

def Blind (script : Script) : Prop :=
  ∀ {opened opened' bytes}, script.leads opened bytes opened' →
    ∀ under under', script.leads under bytes under'

/-- What may be said of text that stands behind something. -/
def tail (script : Script) : Trace where
  leads opened bytes opened' := ∀ {start before}, before ≠ .empty →
    script.leads start before opened → script.leads start (before ++ bytes) opened'
  nil opened := by
    intro start before _ leads
    rwa [ByteArray.append_empty]
  append := by
    intro opened between opened' bytes bytes' first next start before some leads
    have more : before ++ bytes ≠ .empty := fun none => some (ByteArray.append_eq_empty_iff.mp none).1
    rw [← ByteArray.append_assoc]
    exact next more (first some leads)

open Print

variable {script : Script} {index : Nat} {opened opened' between : List Bracket}

theorem tail_adds {p : Print Unit} (adds : script.Adds index opened opened' p) :
    script.tail.Adds index opened opened' p := by
  intro canvas after here run
  obtain ⟨here', added, inside⟩ := adds here run
  exact ⟨here', added, inside.out, fun _ leads => script.append leads inside.leads, inside.depth⟩

/-- Words of the language stand anywhere. -/
theorem adds_write {words : String} (plain : Plain words) :
    script.Adds index opened opened (write words) :=
  .writeBytes (script.words (plain.balanced.scan opened) plain.clear)

theorem adds_word {words : String} (allowed : script.word words) :
    script.Adds index opened opened (write words) :=
  .writeBytes (script.worded opened allowed)

/-- A word that opens or closes a bracket. -/
theorem adds_bracket {words : String} (scan : Bracket.scan opened words.toList = some opened')
    (clear : Clear words.toList) : script.Adds index opened opened' (write words) :=
  .writeBytes (script.words scan clear)

/-- Behind a word of the language stands what may stand behind something. -/
theorem adds_behind {words : String} {f : Unit → Print Unit}
    (scan : Bracket.scan opened words.toList = some between) (clear : Clear words.toList)
    (some : words.toUTF8 ≠ .empty) (next : script.tail.Adds index between opened' (f ())) :
    script.Adds index opened opened' (write words >>= f) := by
  intro canvas after here run
  obtain ⟨here', added, inside⟩ := @next { canvas with out := canvas.out ++ words.toUTF8 } _ here run
  refine ⟨here', words.toUTF8 ++ added, ?_, ?_, inside.depth⟩
  · rw [inside.out, ByteArray.append_assoc]
  · exact inside.leads some (script.words scan clear)

theorem tail_adds_writeBytes {bytes : ByteArray} (inert : script.inert bytes) :
    script.tail.Adds index opened opened (writeBytes bytes) :=
  .writeBytes fun some leads => script.behind leads some inert

variable {speller : Speller}

theorem adds_text {text : Text} (named : script.name (text.resolve speller.symbol)) :
    script.Adds index opened opened (speller.text text) :=
  .look (.bytes _ _) (.writeBytes (script.named opened named))

theorem tail_adds_text {text : Text} (inert : script.inert (text.resolve speller.symbol)) :
    script.tail.Adds index opened opened (speller.text text) :=
  .look (.bytes _ _) (tail_adds_writeBytes inert)

theorem adds_number {value : Text} (number : script.number (value.resolve speller.symbol)) :
    script.Adds index opened opened (speller.number value) := by
  refine .look (.bytes _ _) ?_
  split
  · exact adds_behind rfl (by decide) (by decide) (tail_adds_writeBytes (script.signed number))
  · exact .writeBytes (script.unsigned opened number ‹_›)

end Script
end Unmangle
