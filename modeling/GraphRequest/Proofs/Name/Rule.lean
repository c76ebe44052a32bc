import GraphRequest.Request

/-!
Rules for names, and the declarations in which all names obey a rule.
-/

namespace GraphRequest

inductive NameKind
  | plain
  | fragment
  | enum
  deriving DecidableEq, Repr

abbrev NameRule := NameKind → String → Bool

namespace Value

mutual

def obeys (rule : NameRule) : Value → Bool
  | reference name => rule .plain name
  | enum name => rule .enum name
  | list items => allObey rule items
  | object entries => entriesObey rule entries
  | _ => true

def allObey (rule : NameRule) : List Value → Bool
  | [] => true
  | item :: rest => obeys rule item && allObey rule rest

def entriesObey (rule : NameRule) : List (String × Value) → Bool
  | [] => true
  | (key, value) :: rest => rule .plain key && obeys rule value && entriesObey rule rest

end

end Value

def Directive.obeys (rule : NameRule) (directive : Directive) : Bool :=
  rule .plain directive.name && Value.entriesObey rule directive.arguments.entries

/-- The local type of a field is not looked at, since it is not written. -/
def FieldAttributes.obeys (rule : NameRule) (attributes : FieldAttributes) : Bool :=
  attributes.aliasName.all (rule .plain) && Value.entriesObey rule attributes.argumentEntries &&
    attributes.directives.all (Directive.obeys rule) &&
    attributes.scalarNames.all (rule .plain) && attributes.spreads.all (rule .fragment)

namespace DeclaredField

mutual

def obeys (rule : NameRule) (key : String) : DeclaredField → Bool
  | mk attributes nested => rule .plain key && attributes.obeys rule && allObey rule nested

def allObey (rule : NameRule) : List (String × DeclaredField) → Bool
  | [] => true
  | (key, declared) :: rest => obeys rule key declared && allObey rule rest

end

end DeclaredField

def Fragment.obeys (rule : NameRule) (fragment : Fragment) : Bool :=
  rule .fragment fragment.name && rule .plain fragment.typeCondition &&
    fragment.scalars.all (rule .plain) && fragment.includes.all (rule .fragment) &&
    DeclaredField.allObey rule fragment.fields.entries

def OperationDraft.obeys (rule : NameRule) (operation : OperationDraft) : Bool :=
  operation.name.all (rule .plain) && operation.inputs.keys.all (rule .plain) &&
    operation.directives.all (Directive.obeys rule) &&
    DeclaredField.allObey rule operation.fields.entries

/-- All parts obey the rule, and the type names of all variables are types. -/
structure WellNamed (rule : NameRule) (isType : String → Prop) (parts : List Part) : Prop where
  fragments : ∀ fragment ∈ Part.fragments parts, fragment.obeys rule
  operations : ∀ operation ∈ Part.operations parts, operation.obeys rule
  types : ∀ operation ∈ Part.operations parts, ∀ entry ∈ operation.inputs.entries,
    isType entry.2.typeName

end GraphRequest
