import Unmangle.Proofs.Course.Move
import Unmangle.Proofs.Output.Paired

/-!
# Well-formed nodes

A parse stores only certain nodes: words of the language have their brackets closed, a number
has a digit, a tag is behind a name. What is so of a node when it is stored stays so, because
nothing but a template parameter that waits is ever replaced.
-/
namespace Unmangle

namespace Text

/-- What something is called: words of the language, or a part of the symbol. -/
def Called (symbol : ByteArray) : Text → Prop
  | .literal words => Plain words ∧ words ≠ ""
  | .span start stop => symbol.extract start stop ≠ .empty

/-- A part of the symbol that stands behind words, or nothing. -/
def Aside : Text → Prop
  | .literal words => words = ""
  | .span _ _ => True

/-- A number of the symbol, at least a digit long. -/
def Numeral (symbol : ByteArray) : Text → Prop
  | .literal _ => False
  | .span start stop => ∃ byte, (symbol.extract start stop)[0]? = some byte ∧
      (byte = 110 ∨ Number.isDigit byte)

theorem Numeral.called {symbol : ByteArray} {text : Text} (h : text.Numeral symbol) :
    text.Called symbol := by
  cases text with
  | literal words => exact h.elim
  | span start stop =>
    obtain ⟨byte, first, -⟩ := h
    intro none
    rw [none] at first
    cases first

end Text

/-- A name that stands for itself. It has nothing behind it, and is spelled by more than its
parts. -/
def Node.IsPart : Node → Bool
  | .name _ | .nestedName .. | .abiTagged .. | .conversionName _ | .literalOperator _
  | .unnamedType _ | .closureType .. | .structuredBinding _ | .abbreviation _ | .enclosing .. => true
  | _ => false

/-- The node is never spelled as nothing. -/
def Node.Prints : Node → Bool
  | .stdName _ | .localName .. | .instantiation .. | .special .. | .constructionVtable ..
  | .clone .. | .function .. => true
  | node => node.IsPart

/-- What is known of the node that a rule returns. -/
inductive Shape
  /-- Nothing stands behind the name it declares. -/
  | single
  | part
  | args
  | printed

def Shape.admits : Shape → Node → Bool
  | single, node => !node.Declares
  | part, node => node.IsPart
  | args, .templateArgs _ => true
  | args, _ => false
  | printed, node => node.Prints

theorem Node.single_of_isPart {node : Node} (part : node.IsPart = true) :
    node.Declares = false := by
  cases node <;> first | rfl | cases part

theorem Node.prints_of_isPart {node : Node} (part : node.IsPart = true) : node.Prints = true := by
  cases node <;> first | rfl | cases part

namespace Tree

/-- All but the template parameters that were used ahead of their argument stay as they are. -/
def Stays (tree tree' : Tree) : Prop :=
  ∀ id node, tree.get? id = some node → (∀ index target, node ≠ .forwardParam index target) →
    tree'.get? id = some node

theorem Stays.refl (tree : Tree) : tree.Stays tree :=
  fun _ _ held _ => held

theorem Stays.trans {tree tree' tree'' : Tree} (h : tree.Stays tree') (h' : tree'.Stays tree'') :
    tree.Stays tree'' :=
  fun id node held settled => h' id node (h id node held settled) settled

theorem Stays.of_extends {tree tree' : Tree} (h : tree.Extends tree') : tree.Stays tree' :=
  fun id node held _ => h id node held

/-- A node of the shape is under the name. -/
def Holds (tree : Tree) (shape : Shape) (id : NodeId) : Prop :=
  ∃ node, tree.get? id = some node ∧ shape.admits node = true

theorem Holds.stays {tree tree' : Tree} {shape : Shape} {id : NodeId} (h : tree.Holds shape id)
    (later : tree.Stays tree') : tree'.Holds shape id := by
  obtain ⟨node, held, admitted⟩ := h
  refine ⟨node, later id node held ?_, admitted⟩
  rintro index target rfl
  cases shape <;> cases admitted

theorem Holds.single {tree : Tree} {id : NodeId} (h : tree.Holds .part id) :
    tree.Holds .single id := by
  obtain ⟨node, held, part⟩ := h
  exact ⟨node, held, by simp only [Shape.admits, Node.single_of_isPart part, Bool.not_false]⟩

theorem Holds.printed {tree : Tree} {id : NodeId} (h : tree.Holds .part id) :
    tree.Holds .printed id := by
  obtain ⟨node, held, part⟩ := h
  exact ⟨node, held, Node.prints_of_isPart part⟩

end Tree

/-- A node that a parse may store beside the nodes of a tree. Where the symbol is regular, a
qualified builtin type and a named destructor have nothing behind them. -/
def Node.Formed (symbol : ByteArray) (regular : Prop) (tree : Tree) : Node → Prop
  | .name text => text.Called symbol
  | .instantiation _ args => tree.Holds .args args
  | .abiTagged base tag => tree.Holds .part base ∧ tag.Aside
  | .destroyed type => regular → tree.Holds .single type
  | .trailingQualified type words => (regular → tree.Holds .single type) ∧ Plain words
  | .unnamedType text | .closureType _ text | .functionParam text | .binaryFloat text
  | .clone _ text | .vendorQualified _ text => text.Aside
  | .special title _ => Plain title ∧ title ≠ ""
  | .elaborated words _ | .binary _ words _ | .leading words _ | .trailing _ words
  | .member _ words _ | .fold _ words _ _ | .enclosing words _ | .namedCast words _ _ =>
    Plain words
  | .integer (.cast words) value | .integer (.suffix words) value =>
    Plain words ∧ value.Numeral symbol
  | .enumerator _ value => value.Numeral symbol
  | _ => True

/-- A node stays well-formed as the tree grows. -/
theorem Node.Formed.stays {symbol : ByteArray} {regular : Prop} {tree tree' : Tree} {node : Node}
    (h : node.Formed symbol regular tree) (later : tree.Stays tree') :
    node.Formed symbol regular tree' := by
  cases node with
  | instantiation name args => exact Tree.Holds.stays h later
  | abiTagged base tag => exact ⟨h.1.stays later, h.2⟩
  | destroyed type => exact fun known => (h known).stays later
  | trailingQualified type words => exact ⟨fun known => (h.1 known).stays later, h.2⟩
  | integer type value => cases type <;> exact h
  | _ => exact h

/-- The cursor stands in the symbol, and every node is well-formed. -/
structure ParseState.Formed (symbol : ByteArray) (regular : Prop) (s : ParseState) : Prop where
  ground : s.Grounded symbol
  nodes : ∀ id node, s.work.tree.get? id = some node →
    node.Formed symbol regular s.work.tree

namespace ParseState.Formed

variable {symbol : ByteArray} {regular : Prop} {s : ParseState}

theorem of_tree_eq {t : ParseState} (h : s.Formed symbol regular) (ground : t.Grounded symbol)
    (same : t.work.tree = s.work.tree) : t.Formed symbol regular :=
  ⟨ground, by rw [same]; exact h.nodes⟩

/-- Storing a formed node leaves every node formed. -/
theorem alloc (h : s.Formed symbol regular) {node : Node}
    (formed : node.Formed symbol regular s.work.tree) :
    ∀ id found, (s.work.tree.alloc node).2.get? id = some found →
      found.Formed symbol regular (s.work.tree.alloc node).2 := by
  have later : s.work.tree.Stays (s.work.tree.alloc node).2 :=
    .of_extends (h.ground.intact.extends_alloc node)
  intro id found held
  obtain old | ⟨-, rfl⟩ := h.ground.intact.of_get?_alloc held
  · exact (h.nodes id found old).stays later
  · exact formed.stays later

/-- A template parameter gets its argument. -/
theorem set (h : s.Formed symbol regular) {id : NodeId} {index : Nat} {old : Option NodeId}
    (waits : s.work.tree.get? id = some (.forwardParam index old)) (target : NodeId) :
    s.work.tree.Stays (s.work.tree.set id (.forwardParam index (some target))) ∧
      ∀ other found, (s.work.tree.set id (.forwardParam index (some target))).get? other =
          some found →
        found.Formed symbol regular (s.work.tree.set id (.forwardParam index (some target))) := by
  have later : s.work.tree.Stays (s.work.tree.set id (.forwardParam index (some target))) := by
    intro other found held settled
    by_cases same : other = id
    · rw [same, waits] at held
      cases held
      exact absurd rfl (settled index old)
    · rwa [h.ground.intact.get?_set_of_ne same]
  refine ⟨later, fun other found held => ?_⟩
  by_cases same : other = id
  · rw [same, h.ground.intact.get?_set_self (by rw [waits]; rfl)] at held
    cases held
    trivial
  · rw [h.ground.intact.get?_set_of_ne same] at held
    exact (h.nodes other found held).stays later

end ParseState.Formed
end Unmangle
