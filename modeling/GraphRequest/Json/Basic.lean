import GraphRequest.Number.Binary64
import GraphRequest.OrderedMap

/-!
JSON trees. Objects keep the order of their entries, and whole numbers are told apart from floats.
-/

namespace GraphRequest

inductive Json
  | null
  | bool (value : Bool)
  | integer (value : Int)
  | float (value : Binary64)
  | string (value : String)
  | list (items : List Json)
  | object (entries : List (String × Json))
  deriving Repr

namespace Json

def isFloat : Json → Bool
  | float _ => true
  | _ => false

end Json

end GraphRequest
