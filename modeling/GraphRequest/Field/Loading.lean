import GraphRequest.Field.Control
import GraphRequest.Json.Reader

/-!
Loading field declarations from JSON trees. Entries are read in their order, and the first fault is
given with the place where it stands.
-/

namespace GraphRequest.DeclaredField

mutual

def ofJson (path : String) : Json → Except RequestError DeclaredField
  | .object entries => ofEntries path entries .empty
  | _ => .error (.notAnObject path)

def ofEntries (path : String) :
    List (String × Json) → DeclaredField → Except RequestError DeclaredField
  | [], field => .ok field
  | (key, json) :: rest, field =>
      match FieldControl.ofKey? key with
      | some control => do
          let attributes ← control.apply path json field.attributes
          ofEntries path rest ⟨attributes, field.fields⟩
      | none =>
          if isFieldKey key then do
            let inner ← ofJson (Text.dotted path key) json
            ofEntries path rest (field.withField key inner)
          else .error (.unknownAttribute key path)

end

def load (json : Json) : Except RequestError DeclaredField :=
  ofJson "" json

def loadText (text : String) : Except RequestError DeclaredField :=
  match Json.read? text with
  | some json => load json
  | none => .error .malformedJson

end GraphRequest.DeclaredField
