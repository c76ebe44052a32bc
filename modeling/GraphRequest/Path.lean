import GraphRequest.Json.Basic

/-!
Places in a response, from the root of the operation.
-/

namespace GraphRequest

inductive PathStep
  /-- some position of a list -/
  | index
  | key (name : String)
  deriving DecidableEq, Repr

def PathStep.text : PathStep → String
  | index => "#"
  | key name => name

structure Path where
  steps : List PathStep
  deriving DecidableEq, Repr

namespace Path

def root : Path := ⟨[]⟩

/-- The place of a field; a list is followed by the position in it. -/
def extend (path : Path) (responseKey : String) (isList : Bool) : Path :=
  ⟨path.steps ++ .key responseKey :: if isList then [.index] else []⟩

def text (path : Path) : String :=
  ".".intercalate (path.steps.map PathStep.text)

def toJson (path : Path) : Json :=
  .list (path.steps.map fun step => .string step.text)

end Path

end GraphRequest
