import GraphRequest.Directive.Basic
import GraphRequest.Shape

/-!
Declarations of fields: the attributes of a field, and the fields declared inside it by key.
-/

namespace GraphRequest

/-- All that is declared on one field itself. Arguments and scalars that are declared but empty
differ from ones that are not declared. -/
structure FieldAttributes where
  aliasName : Option String := none
  arguments : Option (OrderedMap String Value) := none
  directives : List Directive := []
  spreads : List String := []
  localType : Option String := none
  scalars : Option (List String) := none
  flags : ShapeHints := {}
  deriving Repr

inductive DeclaredField
  | mk (attributes : FieldAttributes) (fields : List (String × DeclaredField))
  deriving Repr

namespace FieldAttributes

def scalarNames (attributes : FieldAttributes) : List String :=
  attributes.scalars.getD []

def argumentEntries (attributes : FieldAttributes) : List (String × Value) :=
  (attributes.arguments.getD .empty).entries

def responseKey (attributes : FieldAttributes) (key : String) : String :=
  attributes.aliasName.getD key

def yieldsList (attributes : FieldAttributes) (key : String) : Bool :=
  key = "edges" || attributes.flags.edges || attributes.flags.list

def evidence (attributes : FieldAttributes) (hasFields : Bool) (key : String)
    (inherited : Option String) : ShapeEvidence where
  key := key
  localType := attributes.localType
  inherited := inherited
  flags := attributes.flags
  hasArguments := attributes.arguments.isSome
  hasSpreads := !attributes.spreads.isEmpty
  hasFields := hasFields
  hasScalars := attributes.scalars.isSome

def sameArguments : Option (OrderedMap String Value) → Option (OrderedMap String Value) → Bool
  | none, none => true
  | some a, some b => Value.sameArguments a b
  | _, _ => false

def same (a b : FieldAttributes) : Bool :=
  a.aliasName = b.aliasName && sameArguments a.arguments b.arguments &&
    Directive.sameAll a.directives b.directives && a.spreads = b.spreads &&
    a.localType = b.localType && a.scalars = b.scalars && a.flags = b.flags

end FieldAttributes

namespace DeclaredField

def empty : DeclaredField := ⟨{}, []⟩

instance : Inhabited DeclaredField := ⟨empty⟩

def attributes : DeclaredField → FieldAttributes
  | mk attributes _ => attributes

def fields : DeclaredField → List (String × DeclaredField)
  | mk _ fields => fields

def selectsAnything (field : DeclaredField) : Bool :=
  !field.attributes.scalarNames.isEmpty || !field.fields.isEmpty ||
    !field.attributes.spreads.isEmpty

def modify (change : FieldAttributes → FieldAttributes) (field : DeclaredField) :
    DeclaredField :=
  ⟨change field.attributes, field.fields⟩

def withAlias (field : DeclaredField) (aliasName : String) : DeclaredField :=
  field.modify fun a => { a with aliasName := some aliasName }

def withArgument (field : DeclaredField) (name : String) (value : Value) : DeclaredField :=
  field.modify fun a => { a with arguments := some ((a.arguments.getD .empty).insert name value) }

def withArguments (field : DeclaredField) (arguments : OrderedMap String Value) :
    DeclaredField :=
  field.modify fun a => { a with arguments := some arguments }

def withDirective (field : DeclaredField) (directive : Directive) : DeclaredField :=
  field.modify fun a => { a with directives := a.directives ++ [directive] }

/-- A field that was declared under the key before is replaced in its place. -/
def withField (field : DeclaredField) (key : String) (inner : DeclaredField) :
    DeclaredField :=
  ⟨field.attributes, Entries.insert field.fields key inner⟩

def withSpread (field : DeclaredField) (fragment : String) : DeclaredField :=
  field.modify fun a => { a with spreads := a.spreads ++ [fragment] }

def withScalars (field : DeclaredField) (names : List String) : DeclaredField :=
  field.modify fun a => { a with scalars := some (a.scalarNames ++ names) }

def withLocalType (field : DeclaredField) (localType : String) : DeclaredField :=
  field.modify fun a => { a with localType := some localType }

def withConnection (field : DeclaredField) (value : Bool) : DeclaredField :=
  field.modify fun a => { a with flags.connection := value }

def withEdges (field : DeclaredField) (value : Bool) : DeclaredField :=
  field.modify fun a => { a with flags.edges := value }

def withList (field : DeclaredField) (value : Bool) : DeclaredField :=
  field.modify fun a => { a with flags.list := value }

def withNode (field : DeclaredField) (value : Bool) : DeclaredField :=
  field.modify fun a => { a with flags.node := value }

mutual

/-- Equality of declarations; the order of arguments and of fields does not count. -/
def same : DeclaredField → DeclaredField → Bool
  | mk a fields, mk b others =>
      a.same b && fields.length = others.length && sameFields fields others

def sameFields : List (String × DeclaredField) → List (String × DeclaredField) → Bool
  | [], _ => true
  | (key, a) :: rest, others =>
      (match Entries.get? others key with
        | some b => same a b
        | none => false) && sameFields rest others

end

end DeclaredField

end GraphRequest
