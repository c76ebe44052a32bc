import GraphRequest.Attribute
import GraphRequest.Directive.Loading
import GraphRequest.Field.Basic

/-!
The keys of a field declaration: those of control attributes, and those that name fields.
-/

namespace GraphRequest

inductive FieldControl
  | aliasName
  | args
  | params
  | connection
  | directives
  | edges
  | fragments
  | list
  | node
  | scalars
  | localType
  deriving DecidableEq, Repr

namespace FieldControl

def key : FieldControl → String
  | aliasName => "__alias"
  | args => "__args"
  | params => "__params"
  | connection => "__connection"
  | directives => "__directives"
  | edges => "__edges"
  | fragments => "__fragments"
  | list => "__list"
  | node => "__node"
  | scalars => "__scalars"
  | localType => "__toLocalType"

def all : List FieldControl :=
  [aliasName, args, params, connection, directives, edges, fragments, list, node, scalars, localType]

def ofKey? (key : String) : Option FieldControl :=
  all.find? fun control => control.key = key

def apply (control : FieldControl) (path : String) (json : Json) (attributes : FieldAttributes) :
    Except RequestError FieldAttributes :=
  match control with
  | aliasName => do
      return { attributes with aliasName := some (← Attribute.string control.key path json) }
  | args | params => do
      return { attributes with arguments := some (← Attribute.arguments control.key path json) }
  | connection => do
      return { attributes with flags.connection := ← Attribute.boolean control.key path json }
  | directives => do
      return { attributes with directives := ← Directive.listOfJson path json }
  | edges => do
      return { attributes with flags.edges := ← Attribute.boolean control.key path json }
  | fragments => do
      return { attributes with spreads := ← Attribute.stringList control.key path json }
  | list => do
      return { attributes with flags.list := ← Attribute.boolean control.key path json }
  | node => do
      return { attributes with flags.node := ← Attribute.boolean control.key path json }
  | scalars => do
      return { attributes with scalars := some (← Attribute.stringList control.key path json) }
  | localType => do
      return { attributes with localType := some (← Attribute.string control.key path json) }

end FieldControl

/-- Fields that every schema has, although their names begin like control attributes. -/
def metaFields : List String :=
  ["__schema", "__type", "__typename"]

/-- Whether a key that is no known control attribute names a field. -/
def isFieldKey (key : String) : Bool :=
  key ∈ metaFields || !(['_', '_'].isPrefixOf key.toList)

end GraphRequest
