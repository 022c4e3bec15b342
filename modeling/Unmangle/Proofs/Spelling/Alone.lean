import Unmangle.Proofs.Spelling.Follow

/-!
# A tree beside itself

With one tree on both sides spelling comes out as it does, and what remains to be said is
what is written and how spelling may fail. That depends on the texts of the tree, on its
floating-point literals, and on its template parameters that waited for an argument.
-/
namespace Unmangle

/-- What is known of the parts of a tree over a symbol, and of its spelling for that. -/
structure Terms (symbol : ByteArray) where
  text : Text → Prop
  bits : FloatFormat → Text → Prop
  /-- What a template parameter that waited may stand for. -/
  target : Option NodeId → Prop
  fault : Fault → Prop
  withheld : Fault → Prop
  growth : Growth
  words (words : String) : text (.literal words)
  text_of_bits {format t} : bits format t → text t
  written {t} (out : ByteArray) : text t → growth.rel out (out ++ t.resolve symbol)
  digits {t} (out : ByteArray) : text t → (t.resolve symbol)[0]? = some 110 →
    growth.rel out (out ++ (t.resolve symbol).extract 1 (t.resolve symbol).size)
  waits : target none → fault .unresolvedForwardReference
  float {format t} : bits format t →
    HexFloat.spelling? format (t.resolve symbol).data.toList = none → fault .unexpectedText
  tooLong : fault .tooLong
  tooMuchRecursion : fault .tooMuchRecursion

namespace Terms

variable {symbol : ByteArray} (terms : Terms symbol)

/-- The parts of a node are as the terms say. -/
structure Fit (node : Node) : Prop where
  texts : ∀ t ∈ node.texts, terms.text t
  bits : ∀ format t, node = .float format t → terms.bits format t
  target : ∀ index o, node = .forwardParam index o → terms.target o

/-- A tree beside itself. -/
def mirror (tree : Tree) : Mirror where
  symbol := symbol
  symbol' := symbol
  tree := tree
  tree' := tree
  name := Eq
  target o o' := o = o' ∧ terms.target o
  list := Eq
  text t t' := t = t' ∧ terms.text t
  bits format t t' := t = t' ∧ terms.bits format t
  access _ := True
  fault := terms.fault
  withheld := terms.withheld
  growth := terms.growth

variable {terms} {tree : Tree}

/-- A node that fits the terms is like itself. -/
theorem Fit.alike {node : Node} (fit : terms.Fit node) :
    Node.Alike (terms.mirror tree).likeness node node := by
  have option (o : Option NodeId) : Option.Rel (terms.mirror tree).likeness.child o o :=
    rel_refl (fun _ => rfl) o
  cases node with
  | float format t => exact .float format ⟨rfl, fit.bits format t rfl⟩
  | forwardParam index o => exact .forwardParam index ⟨rfl, fit.target index o rfl⟩
  | _ =>
    constructor <;>
      first
        | exact rfl
        | exact option _
        | exact ⟨rfl, fit.texts _ (.head _)⟩

/-- A tree whose nodes all fit the terms lawfully mirrors itself. -/
theorem lawful (fit : ∀ id, terms.Fit (tree.node id)) : (terms.mirror tree).Lawful where
  node := by
    rintro a _ rfl
    exact (fit a).alike
  target := by
    rintro o _ ⟨rfl, -⟩
    exact rel_refl (fun _ => rfl) o
  waits := by
    rintro _ _ ⟨-, known⟩ rfl
    exact terms.waits known
  length := by
    rintro run _ rfl
    rfl
  elements := by
    rintro run _ rfl
    exact List.forall₂_same.mpr fun _ _ => rfl
  element := by
    rintro run _ index rfl
    exact rel_refl (fun _ => rfl) _
  bytes := by
    rintro t _ ⟨rfl, -⟩
    rfl
  written out h := terms.written out h.2
  digits out h := terms.digits out h.2
  words words := ⟨rfl, terms.words words⟩
  bits h := ⟨h.1, terms.text_of_bits h.2⟩
  float h := terms.float h.2
  looksAtNode _ := trivial
  looksAtList _ := trivial
  looksAtText _ := trivial
  tooLong := terms.tooLong
  tooMuchRecursion := terms.tooMuchRecursion

end Terms
end Unmangle
