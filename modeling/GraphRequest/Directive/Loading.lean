import GraphRequest.Directive.Basic
import GraphRequest.Value.Json

/-!
Loading directives from JSON trees.
-/

namespace GraphRequest

namespace Directive

def argumentsOfJson (path name : String) :
    List (String × Json) → Directive → Except RequestError Directive
  | [], directive => .ok directive
  | (key, json) :: rest, directive => do
      let value ← Value.ofJson (Text.dotted path ("@" ++ name ++ "." ++ key)) json
      argumentsOfJson path name rest (directive.withArgument key value)

def entriesOfJson (path : String) :
    List (String × Json) → Directive → Except RequestError Directive
  | [], directive => .ok directive
  | (key, json) :: rest, directive =>
      if key = "name" then entriesOfJson path rest directive
      else if key = "args" then
        match json with
        | .object arguments => do
            entriesOfJson path rest (← argumentsOfJson path directive.name arguments directive)
        | _ => .error (.badDirective path .argumentsNotAnObject)
      else .error (.badDirective path (.unexpectedEntry key))

/-- The name is looked for before anything else. -/
def ofJson (path : String) : Json → Except RequestError Directive
  | .object entries =>
      match Entries.get? entries "name" with
      | some (.string name) => entriesOfJson path entries ⟨name, .empty⟩
      | _ => .error (.badDirective path .unnamed)
  | _ => .error (.badDirective path .notAnObject)

def allOfJson (path : String) : List Json → Except RequestError (List Directive)
  | [] => .ok []
  | item :: rest => do
      let directive ← ofJson path item
      return directive :: (← allOfJson path rest)

def listOfJson (path : String) : Json → Except RequestError (List Directive)
  | .list items => allOfJson path items
  | _ => .error (.badDirective path .notAList)

end Directive

end GraphRequest
