import GraphRequest.RequestError
import GraphRequest.Field.Basic

/-!
Fragments, and the registry in which an operation finds them by name.
-/

namespace GraphRequest

structure Fragment where
  name : String
  typeCondition : String
  scalars : List String := []
  includes : List String := []
  fields : OrderedMap String DeclaredField := .empty
  deriving Repr

namespace Fragment

def isEmpty (fragment : Fragment) : Bool :=
  fragment.scalars.isEmpty && fragment.fields.isEmpty && fragment.includes.isEmpty

def withField (fragment : Fragment) (key : String) (field : DeclaredField) : Fragment :=
  { fragment with fields := fragment.fields.insert key field }

def withInclude (fragment : Fragment) (name : String) : Fragment :=
  { fragment with includes := fragment.includes ++ [name] }

def withScalars (fragment : Fragment) (names : List String) : Fragment :=
  { fragment with scalars := fragment.scalars ++ names }

def same (a b : Fragment) : Bool :=
  a.name = b.name && a.typeCondition = b.typeCondition && a.scalars = b.scalars &&
    a.includes = b.includes && a.fields.size = b.fields.size &&
    DeclaredField.sameFields a.fields.entries b.fields.entries

end Fragment

abbrev Fragments := OrderedMap String Fragment

/-- A name is taken once, and no fragment may include itself. -/
def Fragments.add (registry : Fragments) (fragment : Fragment) :
    Except RequestError Fragments :=
  if registry.contains fragment.name then .error (.duplicateFragment fragment.name)
  else if fragment.name ∈ fragment.includes then .error (.selfInclusion fragment.name)
  else .ok (registry.insert fragment.name fragment)

end GraphRequest
