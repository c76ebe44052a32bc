import GraphRequest.Field.Loading
import GraphRequest.Fragment.Basic

/-!
Loading fragments from JSON trees, texts and files.
-/

namespace GraphRequest.Fragment

def nameKey : String := "__fragmentName"
def typeKey : String := "__typename"
def includesKey : String := "__fragments"
def scalarsKey : String := "__scalars"

def required (entries : List (String × Json)) (key path : String) : Except RequestError String :=
  match Entries.get? entries key with
  | some json => Attribute.string key path json
  | none => .error (.badAttribute key path .present)

def ofEntries : List (String × Json) → Fragment → Except RequestError Fragment
  | [], fragment => .ok fragment
  | (key, json) :: rest, fragment =>
      if key = nameKey || key = typeKey then ofEntries rest fragment
      else if key = includesKey then do
        let includes ← Attribute.stringList key fragment.name json
        ofEntries rest { fragment with includes }
      else if key = scalarsKey then do
        let scalars ← Attribute.stringList key fragment.name json
        ofEntries rest { fragment with scalars }
      else if isFieldKey key then do
        let field ← DeclaredField.ofJson (Text.dotted fragment.name key) json
        ofEntries rest (fragment.withField key field)
      else .error (.unknownAttribute key fragment.name)

/-- The name and the type condition are looked for before anything else. -/
def load : Json → Except RequestError Fragment
  | .object entries => do
      let name ← required entries nameKey ""
      let typeCondition ← required entries typeKey name
      ofEntries entries { name, typeCondition }
  | _ => .error (.notAnObject "")

def loadText (text : String) : Except RequestError Fragment :=
  match Json.read? text with
  | some json => load json
  | none => .error .malformedJson

def loadFile (path : String) (file : SourceFile) : Except RequestError Fragment := do
  loadText (← (file.read path).mapError .unreadableFile)

end GraphRequest.Fragment
