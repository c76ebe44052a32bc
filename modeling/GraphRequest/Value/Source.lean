import GraphRequest.Number.FloatText
import GraphRequest.Text.Quoted
import GraphRequest.Variable

/-!
Values in source text. `check` says whether a value can be written, `source` how it is written.
-/

namespace GraphRequest.Value

/-- From `10 ^ (-4)` up to `10 ^ 16` no exponent is written; elsewhere only a negative one is
signed. -/
def floatFormat : FloatFormat where
  least := -4
  limit := 16
  plusSign := false
  tie := .upward

example : floatFormat.text (Binary64.ofDecimal false ⟨1, 16⟩) = "1e16" := by decide +kernel
example : floatFormat.text (Binary64.ofDecimal false ⟨15, -6⟩) = "1.5e-5" := by decide +kernel
example : floatFormat.text (Binary64.ofDecimal false ⟨5, -324⟩) = "5e-324" := by decide +kernel
example : floatFormat.text (Binary64.ofDecimal false ⟨30000000000000004, -17⟩) =
    "0.30000000000000004" := by decide +kernel

mutual

/-- Every reference needs its variable and every float has to be finite; the first fault from the
left is given. -/
def check (known : Variables) : Value → Except RequestError Unit
  | reference name => if known.contains name then .ok () else .error (.unknownVariable name)
  | float value => if value.isFinite then .ok () else .error (.unwritableFloat value)
  | list items => checkItems known items
  | object entries => checkEntries known entries
  | _ => .ok ()

def checkItems (known : Variables) : List Value → Except RequestError Unit
  | [] => .ok ()
  | item :: rest => do
      check known item
      checkItems known rest

def checkEntries (known : Variables) : List (String × Value) → Except RequestError Unit
  | [] => .ok ()
  | (_, value) :: rest => do
      check known value
      checkEntries known rest

end

mutual

def source : Value → String
  | reference name => "$" ++ name
  | int value => Int.repr value.toInt
  | float value => floatFormat.text value
  | string value => Text.quote value
  | bool value => if value then "true" else "false"
  | null => "null"
  | enum name => name
  | list items => "[" ++ ", ".intercalate (itemSources items) ++ "]"
  | object entries => "\x7b" ++ ", ".intercalate (entrySources entries) ++ "\x7d"

def itemSources : List Value → List String
  | [] => []
  | item :: rest => source item :: itemSources rest

def entrySources : List (String × Value) → List String
  | [] => []
  | (key, value) :: rest => (key ++ ": " ++ source value) :: entrySources rest

end

def argumentsSource (arguments : List (String × Value)) : String :=
  if arguments.isEmpty then "" else "(" ++ ", ".intercalate (entrySources arguments) ++ ")"

end GraphRequest.Value
