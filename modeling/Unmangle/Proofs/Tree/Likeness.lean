import Mathlib.Data.List.Forall2
import Mathlib.Data.Option.Basic
import Unmangle.Tree.Node

/-!
# Nodes that are alike

Two nodes are alike when they are of one kind, say the same words of their own, and
their parts correspond. What makes two names, two lists or two texts correspond is
left open. It is one thing for two stores that are filled side by side, and another
for two trees that are spelled the same.
-/
namespace Unmangle

theorem isSome_eq_of_rel {α β : Type} {r : α → β → Prop} {o : Option α} {o' : Option β}
    (h : Option.Rel r o o') : o.isSome = o'.isSome := by
  cases h <;> rfl

theorem rel_refl {α : Type} {r : α → α → Prop} (h : ∀ a, r a a) (o : Option α) :
    Option.Rel r o o := by
  cases o with
  | none => exact .none
  | some a => exact .some (h a)

theorem rel_eq_iff {α : Type} {o o' : Option α} : Option.Rel Eq o o' ↔ o = o' := by
  constructor
  · rintro (h | _)
    · rw [h]
    · rfl
  · rintro rfl
    exact rel_refl (fun _ => rfl) o

theorem rel_getElem? {α β : Type} {r : α → β → Prop} {l : List α} {l' : List β}
    (h : List.Forall₂ r l l') (index : Nat) : Option.Rel r l[index]? l'[index]? := by
  induction h generalizing index with
  | nil => exact .none
  | cons hab _ ih =>
    cases index with
    | zero => exact .some hab
    | succ index => exact ih index

/-- When the parts of two nodes correspond. -/
structure Likeness where
  child : NodeId → NodeId → Prop
  /-- What two waiting template parameters stand for. -/
  target : Option NodeId → Option NodeId → Prop
  list : NodeList → NodeList → Prop
  text : Text → Text → Prop
  /-- The digits of two literals of one floating-point format. -/
  bits : FloatFormat → Text → Text → Prop

namespace Node

/-- One kind, the same words, and parts that correspond. -/
inductive Alike (like : Likeness) : Node → Node → Prop
  | name {t t'} (text : like.text t t') : Alike like (.name t) (.name t')
  | nestedName {a a' b b'} (scope : like.child a a') (name : like.child b b') :
      Alike like (.nestedName a b) (.nestedName a' b')
  | localName {a a' b b'} (encoding : like.child a a') (entity : like.child b b') :
      Alike like (.localName a b) (.localName a' b')
  | stdName {a a'} (name : like.child a a') : Alike like (.stdName a) (.stdName a')
  | qualifiedName {a a' b b'} (scope : like.child a a') (name : like.child b b') :
      Alike like (.qualifiedName a b) (.qualifiedName a' b')
  | globalName {a a'} (name : like.child a a') : Alike like (.globalName a) (.globalName a')
  | instantiation {a a' b b'} (name : like.child a a') (args : like.child b b') :
      Alike like (.instantiation a b) (.instantiation a' b')
  | templateArgs {l l'} (args : like.list l l') :
      Alike like (.templateArgs l) (.templateArgs l')
  | abiTagged {a a' t t'} (base : like.child a a') (tag : like.text t t') :
      Alike like (.abiTagged a t) (.abiTagged a' t')
  | constructorName {a a'} (base : like.child a a') :
      Alike like (.constructorName a) (.constructorName a')
  | destructorName {a a'} (base : like.child a a') :
      Alike like (.destructorName a) (.destructorName a')
  | destroyed {a a'} (type : like.child a a') : Alike like (.destroyed a) (.destroyed a')
  | conversionName {a a'} (type : like.child a a') :
      Alike like (.conversionName a) (.conversionName a')
  | literalOperator {a a'} (name : like.child a a') :
      Alike like (.literalOperator a) (.literalOperator a')
  | unnamedType {t t'} (count : like.text t t') :
      Alike like (.unnamedType t) (.unnamedType t')
  | closureType {l l' t t'} (params : like.list l l') (count : like.text t t') :
      Alike like (.closureType l t) (.closureType l' t')
  | structuredBinding {l l'} (names : like.list l l') :
      Alike like (.structuredBinding l) (.structuredBinding l')
  | abbreviation (short) : Alike like (.abbreviation short) (.abbreviation short)
  | expandedAbbreviation (short) :
      Alike like (.expandedAbbreviation short) (.expandedAbbreviation short)
  | templateParam {a a'} (target : like.child a a') :
      Alike like (.templateParam a) (.templateParam a')
  | forwardParam (index) {o o'} (target : like.target o o') :
      Alike like (.forwardParam index o) (.forwardParam index o')
  | function {o o' a a' l l'} (quals ref) (result : Option.Rel like.child o o')
      (name : like.child a a') (params : like.list l l') :
      Alike like (.function o a l quals ref) (.function o' a' l' quals ref)
  | special (title) {a a'} (child : like.child a a') :
      Alike like (.special title a) (.special title a')
  | constructionVtable {a a' b b'} (base : like.child a a') (derived : like.child b b') :
      Alike like (.constructionVtable a b) (.constructionVtable a' b')
  | clone {a a' t t'} (encoding : like.child a a') (suffix : like.text t t') :
      Alike like (.clone a t) (.clone a' t')
  | qualified (quals) {a a'} (type : like.child a a') :
      Alike like (.qualified a quals) (.qualified a' quals)
  | vendorQualified {a a' t t'} (type : like.child a a') (extension : like.text t t') :
      Alike like (.vendorQualified a t) (.vendorQualified a' t')
  | trailingQualified (words) {a a'} (type : like.child a a') :
      Alike like (.trailingQualified a words) (.trailingQualified a' words)
  | elaborated (keyword) {a a'} (name : like.child a a') :
      Alike like (.elaborated keyword a) (.elaborated keyword a')
  | pointer {a a'} (pointee : like.child a a') : Alike like (.pointer a) (.pointer a')
  | reference (kind) {a a'} (pointee : like.child a a') :
      Alike like (.reference kind a) (.reference kind a')
  | memberPointer {a a' b b'} (scope : like.child a a') (member : like.child b b') :
      Alike like (.memberPointer a b) (.memberPointer a' b')
  | array {a a' o o'} (element : like.child a a') (dimension : Option.Rel like.child o o') :
      Alike like (.array a o) (.array a' o')
  | functionType {a a' l l' o o'} (quals ref) (result : like.child a a')
      (params : like.list l l') (exception : Option.Rel like.child o o') :
      Alike like (.functionType a l quals ref o) (.functionType a' l' quals ref o')
  | noexceptSpec {a a'} (condition : like.child a a') :
      Alike like (.noexceptSpec a) (.noexceptSpec a')
  | throwSpec {l l'} (types : like.list l l') : Alike like (.throwSpec l) (.throwSpec l')
  | vector {a a' o o'} (element : like.child a a') (dimension : Option.Rel like.child o o') :
      Alike like (.vector a o) (.vector a' o')
  | pixelVector {a a'} (dimension : like.child a a') :
      Alike like (.pixelVector a) (.pixelVector a')
  | binaryFloat {t t'} (width : like.text t t') :
      Alike like (.binaryFloat t) (.binaryFloat t')
  | argumentPack {l l'} (elements : like.list l l') :
      Alike like (.argumentPack l) (.argumentPack l')
  | parameterPack {l l'} (elements : like.list l l') :
      Alike like (.parameterPack l) (.parameterPack l')
  | expansion {a a'} (pattern : like.child a a') : Alike like (.expansion a) (.expansion a')
  | binary (symbol) {a a' b b'} (left : like.child a a') (right : like.child b b') :
      Alike like (.binary a symbol b) (.binary a' symbol b')
  | leading (symbol) {a a'} (operand : like.child a a') :
      Alike like (.leading symbol a) (.leading symbol a')
  | trailing (symbol) {a a'} (operand : like.child a a') :
      Alike like (.trailing a symbol) (.trailing a' symbol)
  | subscript {a a' b b'} (base : like.child a a') (index : like.child b b') :
      Alike like (.subscript a b) (.subscript a' b')
  | member (symbol) {a a' b b'} (left : like.child a a') (right : like.child b b') :
      Alike like (.member a symbol b) (.member a' symbol b')
  | conditional {a a' b b' c c'} (condition : like.child a a') (yes : like.child b b')
      (no : like.child c c') : Alike like (.conditional a b c) (.conditional a' b' c')
  | call {a a' l l'} (callee : like.child a a') (args : like.list l l') :
      Alike like (.call a l) (.call a' l')
  | new {l l' a a' m m'} (isGlobal isArray) (placement : like.list l l')
      (type : like.child a a') (inits : like.list m m') :
      Alike like (.new l a m isGlobal isArray) (.new l' a' m' isGlobal isArray)
  | delete (isGlobal isArray) {a a'} (operand : like.child a a') :
      Alike like (.delete a isGlobal isArray) (.delete a' isGlobal isArray)
  | namedCast (keyword) {a a' b b'} (type : like.child a a') (operand : like.child b b') :
      Alike like (.namedCast keyword a b) (.namedCast keyword a' b')
  | conversion {a a' l l'} (type : like.child a a') (operands : like.list l l') :
      Alike like (.conversion a l) (.conversion a' l')
  | enclosing (words) {a a'} (inner : like.child a a') :
      Alike like (.enclosing words a) (.enclosing words a')
  | initList {o o' l l'} (type : Option.Rel like.child o o') (inits : like.list l l') :
      Alike like (.initList o l) (.initList o' l')
  | fieldInit {a a' b b'} (field : like.child a a') (init : like.child b b') :
      Alike like (.fieldInit a b) (.fieldInit a' b')
  | indexInit {a a' b b'} (index : like.child a a') (init : like.child b b') :
      Alike like (.indexInit a b) (.indexInit a' b')
  | rangeInit {a a' b b' c c'} (first : like.child a a') (last : like.child b b')
      (init : like.child c c') : Alike like (.rangeInit a b c) (.rangeInit a' b' c')
  | throw {a a'} (operand : like.child a a') : Alike like (.throw a) (.throw a')
  | fold (fromLeft symbol) {a a' o o'} (pack : like.child a a')
      (init : Option.Rel like.child o o') :
      Alike like (.fold fromLeft symbol a o) (.fold fromLeft symbol a' o')
  | functionParam {t t'} (number : like.text t t') :
      Alike like (.functionParam t) (.functionParam t')
  | integer (type) {t t'} (value : like.text t t') :
      Alike like (.integer type t) (.integer type t')
  | boolean (value) : Alike like (.boolean value) (.boolean value)
  | float (format) {t t'} (bits : like.bits format t t') :
      Alike like (.float format t) (.float format t')
  | enumerator {a a' t t'} (type : like.child a a') (value : like.text t t') :
      Alike like (.enumerator a t) (.enumerator a' t')
  | stringLiteral {a a'} (type : like.child a a') :
      Alike like (.stringLiteral a) (.stringLiteral a')
  | lambdaLiteral {a a'} (type : like.child a a') :
      Alike like (.lambdaLiteral a) (.lambdaLiteral a')
  | packSize {a a'} (pack : like.child a a') : Alike like (.packSize a) (.packSize a')
  | elements {l l'} (nodes : like.list l l') : Alike like (.elements l) (.elements l')

/-- A weaker notion of what corresponds makes more nodes alike. -/
theorem Alike.mono {like more : Likeness} {node node' : Node} (h : Alike like node node')
    (child : ∀ a a', like.child a a' → more.child a a')
    (target : ∀ o o', like.target o o' → more.target o o')
    (list : ∀ l l', like.list l l' → more.list l l')
    (text : ∀ t t', like.text t t' → more.text t t')
    (bits : ∀ f t t', like.bits f t t' → more.bits f t t') : Alike more node node' := by
  have option : ∀ o o', Option.Rel like.child o o' → Option.Rel more.child o o' := by
    intro o o' h
    cases h with
    | some h => exact .some (child _ _ h)
    | none => exact .none
  cases h <;> constructor <;>
    first
      | exact child _ _ ‹_›
      | exact list _ _ ‹_›
      | exact text _ _ ‹_›
      | exact option _ _ ‹_›
      | exact target _ _ ‹_›
      | exact bits _ _ _ ‹_›

/-- The nodes that a node is made of, the elements of its lists apart. What a waiting
template parameter comes to stand for is no part of it. -/
def children : Node → List NodeId
  | .nestedName a b | .localName a b | .qualifiedName a b | .instantiation a b
  | .constructionVtable a b | .memberPointer a b | .binary a _ b | .subscript a b
  | .member a _ b | .namedCast _ a b | .fieldInit a b | .indexInit a b => [a, b]
  | .conditional a b c | .rangeInit a b c => [a, b, c]
  | .stdName a | .globalName a | .abiTagged a _ | .constructorName a | .destructorName a
  | .destroyed a | .conversionName a | .literalOperator a | .templateParam a | .special _ a
  | .clone a _ | .qualified a _ | .vendorQualified a _ | .trailingQualified a _
  | .elaborated _ a | .pointer a | .reference _ a | .noexceptSpec a | .pixelVector a
  | .expansion a | .leading _ a | .trailing a _ | .call a _ | .new _ a _ _ _ | .delete a _ _
  | .conversion a _ | .enclosing _ a | .throw a | .enumerator a _ | .stringLiteral a
  | .lambdaLiteral a | .packSize a => [a]
  | .function o a _ _ _ | .array a o | .functionType a _ _ _ o | .vector a o
  | .fold _ _ a o => a :: o.toList
  | .initList o _ => o.toList
  | .name _ | .templateArgs _ | .unnamedType _ | .closureType _ _ | .structuredBinding _
  | .abbreviation _ | .expandedAbbreviation _ | .forwardParam _ _ | .throwSpec _
  | .binaryFloat _ | .argumentPack _ | .parameterPack _ | .functionParam _ | .integer _ _
  | .boolean _ | .float _ _ | .elements _ => []

/-- The lists of a node. -/
def lists : Node → List NodeList
  | .templateArgs l | .closureType l _ | .structuredBinding l | .function _ _ l _ _
  | .functionType _ l _ _ _ | .throwSpec l | .argumentPack l | .parameterPack l | .call _ l
  | .conversion _ l | .initList _ l | .elements l => [l]
  | .new l _ m _ _ => [l, m]
  | _ => []

/-- The texts of a node. -/
def texts : Node → List Text
  | .name t | .abiTagged _ t | .unnamedType t | .closureType _ t | .clone _ t
  | .vendorQualified _ t | .binaryFloat t | .functionParam t | .integer _ t | .float _ t
  | .enumerator _ t => [t]
  | _ => []

def target? : Node → Option NodeId
  | .forwardParam _ target => target
  | _ => none

namespace Alike

variable {like : Likeness} {node node' : Node}

theorem forall₂_toList {α : Type} {r : α → α → Prop} {o o' : Option α} (h : Option.Rel r o o') :
    List.Forall₂ r o.toList o'.toList := by
  cases h with
  | some h => exact .cons h .nil
  | none => exact .nil

theorem children (h : Alike like node node') :
    List.Forall₂ like.child node.children node'.children := by
  cases h <;> simp_all [Node.children, forall₂_toList]

theorem lists (h : Alike like node node') :
    List.Forall₂ like.list node.lists node'.lists := by
  cases h <;> simp_all [Node.lists]

theorem texts (h : Alike like node node')
    (bits : ∀ format t t', like.bits format t t' → like.text t t') :
    List.Forall₂ like.text node.texts node'.texts := by
  cases h with
  | float format h => exact .cons (bits format _ _ h) .nil
  | _ => simp_all [Node.texts]

theorem target? (h : Alike like node node') :
    node.target? = none ∧ node'.target? = none ∨ like.target node.target? node'.target? := by
  cases h with
  | forwardParam index target => exact .inr target
  | _ => exact .inl ⟨rfl, rfl⟩

end Alike

/-- When nothing differs in the parts, nothing differs. -/
def exact : Likeness where
  child := Eq
  target := Option.Rel Eq
  list := Eq
  text := Eq
  bits _ := Eq

theorem Alike.refl (node : Node) : Alike exact node node := by
  cases node <;> constructor <;> first | exact rfl | exact rel_refl (fun _ => rfl) _

theorem Alike.eq {node node' : Node} (h : Alike exact node node') : node = node' := by
  cases h <;> simp_all [exact, rel_eq_iff]

end Node
end Unmangle
