import GraphRequest.Json.Basic
import GraphRequest.Number.FloatText
import GraphRequest.Text.Quoted

/-!
Writing JSON text without any white space.
-/

namespace GraphRequest.Json

/-- From `10 ^ (-5)` up to `10 ^ 16` no exponent is written; elsewhere its sign always is. -/
def floatFormat : FloatFormat where
  least := -5
  limit := 16
  plusSign := true
  tie := .toEven

example : floatFormat.text (Binary64.ofDecimal false ⟨1, 16⟩) = "1e+16" := by decide +kernel
example : floatFormat.text (Binary64.ofDecimal false ⟨1, -5⟩) = "0.00001" := by decide +kernel
example : floatFormat.text (Binary64.ofDecimal true ⟨0, 0⟩) = "-0.0" := by decide +kernel
example : floatFormat.text (Binary64.ofDecimal false ⟨11258999068426242, -1⟩) =
    "1125899906842624.2" := by decide +kernel

/-- JSON has no word for a number that is not finite. -/
def floatText (x : Binary64) : String :=
  if x.isFinite then floatFormat.text x else "null"

mutual

def text : Json → String
  | null => "null"
  | bool value => if value then "true" else "false"
  | integer value => Int.repr value
  | float value => floatText value
  | string value => Text.quote value
  | list items => "[" ++ ",".intercalate (itemTexts items) ++ "]"
  | object entries => "\x7b" ++ ",".intercalate (entryTexts entries) ++ "\x7d"

def itemTexts : List Json → List String
  | [] => []
  | item :: rest => text item :: itemTexts rest

def entryTexts : List (String × Json) → List String
  | [] => []
  | (key, value) :: rest => (Text.quote key ++ ":" ++ text value) :: entryTexts rest

end

end GraphRequest.Json
