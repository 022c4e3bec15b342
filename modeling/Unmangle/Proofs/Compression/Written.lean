import Mathlib.Data.List.Basic
import Unmangle.Proofs.Compression.Encoder

/-!
# Ways to write a component

A component may be written out, or be a substitution wherever it is listed. To write all
of it out and to compress it are two ways among many, and all list their components alike:
each behind its own parts.
-/
namespace Unmangle

/-- A path in front of more identifiers, between the components listed before it and
those listed behind it. -/
inductive ClassPath.Written : List Component → ClassPath → String → List Component → Prop
  | listed {listed path place} (found : listed[place]? = some (.named path)) :
      Written listed path (substitutionCode place) listed
  | top {listed} (id : Identifier) :
      Written listed (.top id) id.code (listed ++ [.named (.top id)])
  | inside {listed listed' scope code} (id : Identifier) (h : Written listed scope code listed') :
      Written listed (.inside scope id) (code ++ id.code) (listed' ++ [.named (.inside scope id)])

namespace Component

inductive Written : List Component → Component → String → List Component → Prop
  | builtin {listed} (letter : Char) : Written listed (.builtin letter) (String.singleton letter) listed
  | listed {listed component place} (found : listed[place]? = some component) :
      Written listed component (substitutionCode place) listed
  | top {listed} (id : Identifier) :
      Written listed (.named (.top id)) id.code (listed ++ [.named (.top id)])
  | inside {listed listed' scope code} (id : Identifier)
      (h : ClassPath.Written listed scope code listed') :
      Written listed (.named (.inside scope id)) ("N" ++ code ++ id.code ++ "E")
        (listed' ++ [.named (.inside scope id)])
  | pointer {listed listed' target code} (h : Written listed target code listed') :
      Written listed (.pointer target) ("P" ++ code) (listed' ++ [.pointer target])
  | reference {listed listed' target code} (kind : Reference)
      (h : Written listed target code listed') :
      Written listed (.reference kind target) (kind.letter ++ code)
        (listed' ++ [.reference kind target])
  | qualified {listed listed' target code} (quals : Qualifiers)
      (h : Written listed target code listed') :
      Written listed (.qualified quals target) (quals.letters ++ code)
        (listed' ++ [.qualified quals target])

/-- Components one after another. -/
inductive AllWritten : List Component → List Component → String → List Component → Prop
  | nil {listed} : AllWritten listed [] "" listed
  | cons {listed listed' listed'' component rest code code'}
      (first : Written listed component code listed')
      (others : AllWritten listed' rest code' listed'') :
      AllWritten listed (component :: rest) (code ++ code') listed''

end Component

/-- A symbol of a function, with its parameters written in some way. -/
def Signature.WrittenAs (signature : Signature) (symbol : String) : Prop :=
  ∃ code listed, Component.AllWritten [] signature.params code listed ∧
    symbol = signature.symbol code

/-- What is abbreviated is listed already or is listed now. -/
theorem abbreviate_cases (listed : List Component) (component : Component) (otherwise : Encoded) :
    (∃ place, listed[place]? = some component ∧
      abbreviate listed component otherwise = (substitutionCode place, listed)) ∨
    abbreviate listed component otherwise = (otherwise.1, otherwise.2 ++ [component]) := by
  unfold abbreviate
  cases found : listed.idxOf? component with
  | none => exact .inr rfl
  | some place =>
    obtain ⟨below, same, -⟩ := List.findIdx?_eq_some_iff_getElem.mp found
    refine .inl ⟨place, ?_, rfl⟩
    rw [List.getElem?_eq_getElem below, eq_of_beq same]

namespace ClassPath

/-- The compressed spelling of a path is one of its spellings. -/
theorem compress_written (path : ClassPath) (listed : List Component) :
    Written listed path (path.compress listed).1 (path.compress listed).2 := by
  induction path with
  | top id =>
    obtain ⟨place, found, code⟩ | code := abbreviate_cases listed (.named (top id)) (id.code, listed)
    · rw [compress, code]
      exact .listed found
    · rw [compress, code]
      exact .top id
  | inside scope id ih =>
    obtain ⟨place, found, code⟩ | code := abbreviate_cases listed (.named (inside scope id))
      ((scope.compress listed).1 ++ id.code, (scope.compress listed).2)
    · rw [compress, code]
      exact .listed found
    · rw [compress, code]
      exact .inside id ih

/-- The plain spelling of a path is one of its spellings. -/
theorem plain_written (path : ClassPath) (listed : List Component) :
    ∃ listed', Written listed path path.plain listed' := by
  induction path with
  | top id => exact ⟨_, .top id⟩
  | inside scope id ih =>
    obtain ⟨_, h⟩ := ih
    exact ⟨_, .inside id h⟩

end ClassPath

namespace Component

/-- The compressed spelling of a component is one of its spellings. -/
theorem compress_written (component : Component) (listed : List Component) :
    Written listed component (component.compress listed).1 (component.compress listed).2 := by
  -- a component in the list is a substitution, and any other is written as its case says
  have abbreviated : ∀ (component : Component) (otherwise : Encoded),
      Written listed component otherwise.1 (otherwise.2 ++ [component]) →
      Written listed component (abbreviate listed component otherwise).1
        (abbreviate listed component otherwise).2 := by
    intro component otherwise h
    obtain ⟨place, found, code⟩ | code := abbreviate_cases listed component otherwise
    · rw [code]
      exact .listed found
    · rw [code]
      exact h
  induction component with
  | builtin letter => exact .builtin letter
  | named path =>
    cases path with
    | top id => exact abbreviated _ (id.code, listed) (.top id)
    | inside scope id =>
      exact abbreviated _ ("N" ++ (scope.compress listed).1 ++ id.code ++ "E", _)
        (.inside id (scope.compress_written listed))
  | pointer target ih => exact abbreviated _ ("P" ++ _, _) (.pointer ih)
  | reference kind target ih => exact abbreviated _ (kind.letter ++ _, _) (.reference kind ih)
  | qualified quals target ih => exact abbreviated _ (quals.letters ++ _, _) (.qualified quals ih)

/-- The plain spelling of a component is one of its spellings. -/
theorem plain_written (component : Component) (listed : List Component) :
    ∃ listed', Written listed component component.plain listed' := by
  induction component with
  | builtin letter => exact ⟨_, .builtin letter⟩
  | named path =>
    cases path with
    | top id => exact ⟨_, .top id⟩
    | inside scope id =>
      obtain ⟨_, h⟩ := scope.plain_written listed
      exact ⟨_, .inside id h⟩
  | pointer target ih =>
    obtain ⟨_, h⟩ := ih
    exact ⟨_, .pointer h⟩
  | reference kind target ih =>
    obtain ⟨_, h⟩ := ih
    exact ⟨_, .reference kind h⟩
  | qualified quals target ih =>
    obtain ⟨_, h⟩ := ih
    exact ⟨_, .qualified quals h⟩

theorem compressAll_written (components listed : List Component) :
    ∃ listed', AllWritten listed components (compressAll listed components) listed' := by
  induction components generalizing listed with
  | nil => exact ⟨listed, .nil⟩
  | cons component rest ih =>
    obtain ⟨listed', h⟩ := ih (component.compress listed).2
    exact ⟨listed', .cons (component.compress_written listed) h⟩

theorem plainAll_written (components listed : List Component) :
    ∃ listed', AllWritten listed components (String.join (components.map plain)) listed' := by
  induction components generalizing listed with
  | nil => exact ⟨listed, .nil⟩
  | cons component rest ih =>
    obtain ⟨_, first⟩ := component.plain_written listed
    obtain ⟨listed', others⟩ := ih _
    rw [List.map_cons, String.join_cons]
    exact ⟨listed', .cons first others⟩

end Component

namespace Signature

theorem plain_written (signature : Signature) : signature.WrittenAs signature.plain := by
  obtain ⟨listed, h⟩ := Component.plainAll_written signature.params []
  exact ⟨_, listed, h, rfl⟩

theorem compressed_written (signature : Signature) :
    signature.WrittenAs signature.compressed := by
  obtain ⟨listed, h⟩ := Component.compressAll_written signature.params []
  exact ⟨_, listed, h, rfl⟩

end Signature
end Unmangle
