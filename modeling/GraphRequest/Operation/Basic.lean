import GraphRequest.RequestError
import GraphRequest.Field.Basic
import GraphRequest.Variable

/-!
Operations. An `OperationDraft` collects the parts of an operation; an `Operation` is a draft with as
many root fields as its type demands.
-/

namespace GraphRequest

structure OperationDraft where
  type : OperationType
  name : Option String := none
  /-- the variables of the operation -/
  inputs : OrderedMap String DeclaredVariable := .empty
  directives : List Directive := []
  fields : OrderedMap String DeclaredField := .empty
  deriving Repr

namespace OperationDraft

def effectiveName (draft : OperationDraft) : String :=
  draft.name.getD draft.type.defaultName

def withDirective (draft : OperationDraft) (directive : Directive) : OperationDraft :=
  { draft with directives := draft.directives ++ [directive] }

def withDirectives (draft : OperationDraft) (directives : List Directive) : OperationDraft :=
  { draft with directives }

def withField (draft : OperationDraft) (key : String) (field : DeclaredField) : OperationDraft :=
  { draft with fields := draft.fields.insert key field }

def withName (draft : OperationDraft) (name : Option String) : OperationDraft :=
  { draft with name }

def withVariable (draft : OperationDraft) (name : String) (declared : DeclaredVariable) :
    Except RequestError OperationDraft :=
  if draft.inputs.contains name then .error (.duplicateVariable name)
  else .ok { draft with inputs := draft.inputs.insert name declared }

def withVariables : List (String × DeclaredVariable) → OperationDraft →
    Except RequestError OperationDraft
  | [], draft => .ok draft
  | (name, declared) :: rest, draft => do withVariables rest (← draft.withVariable name declared)

def replaceVariables (draft : OperationDraft) (declared : List (String × DeclaredVariable)) :
    Except RequestError OperationDraft :=
  withVariables declared { draft with inputs := .empty }

end OperationDraft

structure Operation extends OperationDraft where
  nonempty : 0 < fields.size
  single : type.singleRoot → fields.size = 1
  deriving Repr

namespace OperationDraft

/-- The demand for exactly one root field is looked at first. -/
def toOperation (draft : OperationDraft) : Except RequestError Operation :=
  if single : draft.type.singleRoot → draft.fields.size = 1 then
    if nonempty : 0 < draft.fields.size then .ok ⟨draft, nonempty, single⟩
    else .error (.nothingSelected draft.effectiveName)
  else .error (.rootFieldCount draft.type draft.fields.size)

end OperationDraft

namespace Operation

def sameVariables : List (String × DeclaredVariable) → OrderedMap String DeclaredVariable → Bool
  | [], _ => true
  | (name, a) :: rest, others =>
      (match others.get? name with
        | some b => a.same b
        | none => false) && sameVariables rest others

def same (a b : Operation) : Bool :=
  a.type = b.type && a.name = b.name && Directive.sameAll a.directives b.directives &&
    a.inputs.size = b.inputs.size && sameVariables a.inputs.entries b.inputs &&
    a.fields.size = b.fields.size &&
    DeclaredField.sameFields a.fields.entries b.fields.entries

end Operation

end GraphRequest
