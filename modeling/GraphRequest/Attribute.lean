import GraphRequest.Value.Json

/-!
Control attributes of declarations: reading the kinds of content that they may have.
-/

namespace GraphRequest

namespace Attribute

abbrev Loader (α : Type) := (key path : String) → Json → Except RequestError α

def string : Loader String := fun key path json =>
  match json with
  | .string value => .ok value
  | _ => .error (.badAttribute key path .string)

def boolean : Loader Bool := fun key path json =>
  match json with
  | .bool value => .ok value
  | _ => .error (.badAttribute key path .boolean)

def strings? : List Json → Option (List String)
  | [] => some []
  | .string value :: rest => (strings? rest).map (value :: ·)
  | _ :: _ => none

def stringList : Loader (List String) := fun key path json =>
  match json with
  | .list items =>
      match strings? items with
      | some values => .ok values
      | none => .error (.badList key path)
  | _ => .error (.badList key path)

def arguments : Loader (OrderedMap String Value) := fun key path json =>
  match json with
  | .object entries => OrderedMap.ofList <$> Value.entriesOfJson path entries
  | _ => .error (.badAttribute key path .object)

end Attribute

end GraphRequest
