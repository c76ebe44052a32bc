import GraphRequest.RequestError
import GraphRequest.Json.Basic
import GraphRequest.Text.Words
import GraphRequest.Value.Basic

/-!
Values as JSON: the form in which they are sent, and the form in which they are declared.
-/

namespace GraphRequest.Value

mutual

/-- The form that is sent. References and enum literals become strings, and a float that is not
finite becomes null. -/
def toJson : Value → Json
  | reference name => .string ("$" ++ name)
  | int value => .integer value.toInt
  | float value => if value.isFinite then .float value else .null
  | string value => .string value
  | bool value => .bool value
  | null => .null
  | enum name => .string name
  | list items => .list (itemsToJson items)
  | object entries => .object (entriesToJson entries)

def itemsToJson : List Value → List Json
  | [] => []
  | item :: rest => toJson item :: itemsToJson rest

def entriesToJson : List (String × Value) → List (String × Json)
  | [] => []
  | (key, value) :: rest => (key, toJson value) :: entriesToJson rest

end

def referenceTag : String := "__fromVariable"
def enumTag : String := "__enum"

/-- The name under a tag, if the tag is there at all; it has to be the only entry then. -/
def soleName (tag path : String) (entries : List (String × Json)) :
    Except RequestError (Option String) :=
  match Entries.get? entries tag with
  | none => .ok none
  | some (.string name) =>
      if entries.length = 1 then .ok (some name)
      else .error (.badAttribute tag path .soleEntry)
  | some _ => .error (.badAttribute tag path .soleEntry)

def tagged? (path : String) (entries : List (String × Json)) :
    Except RequestError (Option Value) := do
  match ← soleName referenceTag path entries with
  | some name => return some (reference name)
  | none => return (← soleName enumTag path entries).map enum

def fitsInt64 (n : Int) : Bool :=
  Int64.minValue.toInt ≤ n && n ≤ Int64.maxValue.toInt

mutual

def ofJson (path : String) : Json → Except RequestError Value
  | .null => .ok null
  | .bool value => .ok (bool value)
  | .integer value =>
      if fitsInt64 value then .ok (int (Int64.ofInt value))
      else .error (.integerOverflow value path)
  | .float value => .ok (float value)
  | .string value => .ok (string value)
  | .list items => list <$> itemsOfJson path items
  | .object entries => do
      match ← tagged? path entries with
      | some value => return value
      | none => return object (← entriesOfJson path entries)

def itemsOfJson (path : String) : List Json → Except RequestError (List Value)
  | [] => .ok []
  | item :: rest => do
      let value ← ofJson path item
      return value :: (← itemsOfJson path rest)

def entriesOfJson (path : String) : List (String × Json) → Except RequestError (List (String × Value))
  | [] => .ok []
  | (key, item) :: rest => do
      let value ← ofJson (Text.dotted path key) item
      return (key, value) :: (← entriesOfJson path rest)

end

end GraphRequest.Value
