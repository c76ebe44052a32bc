import GraphRequest.Field.Loading
import GraphRequest.Operation.Basic

/-!
Loading operations from JSON trees, texts and files.
-/

namespace GraphRequest

namespace DeclaredVariable

structure Parts where
  value : Option Value := none
  typeName : Option String := none
  nonNullable : Bool := false

def partsOfJson (name : String) : List (String × Json) → Parts → Except RequestError Parts
  | [], parts => .ok parts
  | (key, json) :: rest, parts =>
      if key = "value" then do
        let value ← Value.ofJson (Text.dotted "__variables" name) json
        partsOfJson name rest { parts with value := some value }
      else if key = "type" then
        match json with
        | .string typeName => partsOfJson name rest { parts with typeName := some typeName }
        | _ => .error (.badVariable name .typeNotAString)
      else if key = "nonNullable" then
        match json with
        | .bool nonNullable => partsOfJson name rest { parts with nonNullable }
        | _ => .error (.badVariable name .markerNotABoolean)
      else .error (.badVariable name (.unexpectedEntry key))

def ofParts (name : String) (parts : Parts) : Except RequestError DeclaredVariable :=
  match parts.value, parts.typeName with
  | none, _ => .error (.badVariable name .missingValue)
  | _, none => .error (.badVariable name .missingType)
  | some value, some typeName => .ok ⟨value, typeName, parts.nonNullable⟩

def ofJson (name : String) : Json → Except RequestError DeclaredVariable
  | .object entries => do ofParts name (← partsOfJson name entries {})
  | _ => .error (.badVariable name .notAnObject)

def entriesOfJson : List (String × Json) → Except RequestError (List (String × DeclaredVariable))
  | [] => .ok []
  | (name, json) :: rest => do
      let declared ← ofJson name json
      return (name, declared) :: (← entriesOfJson rest)

def allOfJson : Json → Except RequestError (List (String × DeclaredVariable))
  | .object entries => entriesOfJson entries
  | _ => .error (.badAttribute "__variables" "" .object)

end DeclaredVariable

namespace OperationDraft

def directivesKey : String := "__directives"
def nameKey : String := "__operationName"
def variablesKey : String := "__variables"

def ofEntries : List (String × Json) → OperationDraft → Except RequestError OperationDraft
  | [], draft => .ok draft
  | (key, json) :: rest, draft =>
      if key = directivesKey then do
        ofEntries rest (draft.withDirectives (← Directive.listOfJson "" json))
      else if key = nameKey then do
        ofEntries rest (draft.withName (some (← Attribute.string key "" json)))
      else if key = variablesKey then do
        ofEntries rest (← withVariables (← DeclaredVariable.allOfJson json) draft)
      else if isFieldKey key then do
        ofEntries rest (draft.withField key (← DeclaredField.ofJson key json))
      else .error (.unknownAttribute key "")

def load (type : OperationType) : Json → Except RequestError OperationDraft
  | .object entries => ofEntries entries { type }
  | _ => .error (.notAnObject "")

def loadText (type : OperationType) (text : String) : Except RequestError OperationDraft :=
  match Json.read? text with
  | some json => load type json
  | none => .error .malformedJson

def loadFile (type : OperationType) (path : String) (file : SourceFile) :
    Except RequestError OperationDraft := do
  loadText type (← (file.read path).mapError .unreadableFile)

end OperationDraft

end GraphRequest
