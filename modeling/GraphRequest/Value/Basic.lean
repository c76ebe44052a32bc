import GraphRequest.Number.Binary64
import GraphRequest.OrderedMap

/-!
Values of arguments and variables, and their equality, for which the order of object entries does
not count.
-/

namespace GraphRequest

inductive Value
  /-- a variable of the operation, by its name -/
  | reference (name : String)
  | int (value : Int64)
  | float (value : Binary64)
  | string (value : String)
  | bool (value : Bool)
  | null
  | enum (name : String)
  | list (items : List Value)
  | object (entries : List (String × Value))
  deriving Repr

namespace Value

instance : Inhabited Value := ⟨null⟩

def asString? : Value → Option String
  | string value => some value
  | _ => none

def ofOption (value : Option Value) : Value :=
  value.getD null

mutual

def hasReference : Value → Bool
  | reference _ => true
  | list items => anyItem items
  | object entries => anyEntry entries
  | _ => false

def anyItem : List Value → Bool
  | [] => false
  | item :: rest => hasReference item || anyItem rest

def anyEntry : List (String × Value) → Bool
  | [] => false
  | (_, value) :: rest => hasReference value || anyEntry rest

end

mutual

def same : Value → Value → Bool
  | reference a, reference b => a = b
  | int a, int b => a = b
  | float a, float b => a.sameNumber b
  | string a, string b => a = b
  | bool a, bool b => a = b
  | null, null => true
  | enum a, enum b => a = b
  | list a, list b => sameItems a b
  | object a, object b => a.length = b.length && sameEntries a b
  | _, _ => false

def sameItems : List Value → List Value → Bool
  | [], [] => true
  | a :: as, b :: bs => same a b && sameItems as bs
  | _, _ => false

def sameEntries : List (String × Value) → List (String × Value) → Bool
  | [], _ => true
  | (key, a) :: rest, others =>
      (match Entries.get? others key with
        | some b => same a b
        | none => false) && sameEntries rest others

end

def sameArguments (a b : OrderedMap String Value) : Bool :=
  a.size = b.size && sameEntries a.entries b.entries

end Value

end GraphRequest
