import GraphRequest.RequestError
import GraphRequest.Value.Basic

/-!
Variables of an operation: declared under a key first, then named.
-/

namespace GraphRequest

structure TypeReference where
  name : String
  nullable : Bool
  deriving DecidableEq, Repr

def TypeReference.text (type : TypeReference) : String :=
  if type.nullable then type.name else type.name ++ "!"

structure DeclaredVariable where
  value : Value
  typeName : String
  nonNullable : Bool := false
  deriving Repr

structure Variable where
  name : String
  type : TypeReference
  value : Value
  deriving Repr

namespace DeclaredVariable

/-- The marker belongs to the flag and not to the type's name, and a value stands by itself. -/
def named (declared : DeclaredVariable) (name : String) : Except RequestError Variable :=
  if '!' ∈ declared.typeName.toList then .error (.markedType declared.typeName name)
  else if declared.value.hasReference then .error (.referenceInValue name)
  else .ok ⟨name, ⟨declared.typeName, !declared.nonNullable⟩, declared.value⟩

def same (a b : DeclaredVariable) : Bool :=
  a.value.same b.value && a.typeName = b.typeName && a.nonNullable = b.nonNullable

end DeclaredVariable

abbrev Variables := OrderedMap String Variable

end GraphRequest
