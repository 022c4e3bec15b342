import Std.Data.TreeSet.Basic
import Unmangle.Store

/-!
# What a symbol can refer back to

Three tables grow while a symbol is read: the components that a substitution may
name, the template parameters that were used ahead of their argument, and the
template arguments in scope.
-/
namespace Unmangle

/-- The components listed for substitution, oldest first, and where they are stored.
The names of one table are of one generation, so their places tell them apart. -/
structure Substitutions where
  entries : Array NodeId := #[]
  places : Std.TreeSet Nat := {}
  deriving Inhabited

namespace Substitutions

def contains (table : Substitutions) (id : NodeId) : Bool :=
  table.places.contains id.index

def insert (table : Substitutions) (id : NodeId) : Substitutions :=
  let ⟨entries, places⟩ := table
  ⟨entries.push id, places.insert id.index⟩

def get? (table : Substitutions) (index : Nat) : Option NodeId :=
  table.entries[index]?

/-- Take the newest component off the list. -/
def pop? (table : Substitutions) : Option Substitutions :=
  match table.entries.back? with
  | some id => some ⟨table.entries.pop, table.places.erase id.index⟩
  | none => none

def clear (table : Substitutions) : Substitutions :=
  { table with entries := table.entries.shrink 0, places := {} }

theorem clear_eq (table : Substitutions) : table.clear = {} := by
  simp [clear]

end Substitutions

/-- What the template parameters of one level refer to. -/
inductive ScopeLevel
  /-- The arguments of the name being read. -/
  | outer
  /-- The invented parameters of a generic lambda. -/
  | unbound
  deriving Repr, DecidableEq, Inhabited

/-- The template parameters in scope, outermost level first. -/
structure TemplateScopes where
  levels : Array ScopeLevel := #[]
  /-- The arguments of the outer level that were read so far. -/
  outer : Array NodeId := #[]
  deriving Repr, DecidableEq, Inhabited

namespace TemplateScopes

/-- The argument that a parameter of a level stands for. -/
def argument? (scopes : TemplateScopes) (level index : Nat) : Option NodeId :=
  match scopes.levels[level]? with
  | some .outer => scopes.outer[index]?
  | _ => none

def clear (scopes : TemplateScopes) : TemplateScopes :=
  { scopes with levels := scopes.levels.shrink 0, outer := scopes.outer.shrink 0 }

theorem clear_eq (scopes : TemplateScopes) : scopes.clear = {} := by
  simp [clear]

end TemplateScopes
end Unmangle
