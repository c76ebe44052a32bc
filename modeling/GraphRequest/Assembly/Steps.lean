import GraphRequest.Assembly.Expansion

/-!
Steps that add selections to an assembly.
-/

namespace GraphRequest.Assembly

def scope (assembly : Assembly) : Scope :=
  ⟨assembly.known, assembly.fragments⟩

/-- The assembly after selections were added: expectations are put down in the order in which their
fields were met. -/
def settle (assembly : Assembly) (progress : Progress) : Assembly :=
  { assembly with
    definitions := progress.definitions
    expectations := assembly.expectations.putAll progress.met }

/-- Adds selections on top of the definitions that are there. What was reached counts also after a
fault. -/
def advance {α : Type} (select : Scope → Expander → ProgressM α) : AssemblyM α := fun assembly =>
  match select assembly.scope (expandFragment assembly.scope assembly.expanding)
      { definitions := assembly.definitions } with
  | .ok a progress => .ok a (assembly.settle progress)
  | .error e progress => .error e (assembly.settle progress)

def selectField (key : String) (declared : DeclaredField) (site : Site) :
    AssemblyM Document.Selection :=
  advance fun scope expander => fieldSelection scope.known expander site key declared

def selectFields (declared : List (String × DeclaredField)) (site : Site) :
    AssemblyM (List Document.Selection) :=
  advance fun scope expander => fieldSelections scope.known expander site declared

/-- Adds a spread of the fragment `name`. The level is the one of the object that holds the
spread, so the fields of the fragment are one level below. -/
def spreadFragment (name : String) (path : Path) (level : Nat)
    (inherited : Option String) : AssemblyM Document.Selection :=
  advance fun _ expander => do
    expander name ⟨path, level + 1, inherited⟩
    return .spread name

end GraphRequest.Assembly
