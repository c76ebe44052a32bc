import GraphRequest.SourceFile
import GraphRequest.Number.Binary64
import GraphRequest.Operation.Type

/-!
Why a declaration is refused, and the message for each cause.
-/

namespace GraphRequest

inductive AttributeRule
  | present
  | string
  | boolean
  | object
  | soleEntry
  deriving DecidableEq, Repr

def AttributeRule.text : AttributeRule → String
  | present => "present"
  | string => "a string"
  | boolean => "a boolean"
  | object => "an object"
  | soleEntry => "the only entry of its object, holding a string"

inductive DirectiveFault
  | notAList
  | notAnObject
  | unnamed
  | argumentsNotAnObject
  | unexpectedEntry (key : String)
  deriving DecidableEq, Repr

def DirectiveFault.text : DirectiveFault → String
  | notAList => "'__directives' must be a list of objects"
  | notAnObject => "each directive must be an object"
  | unnamed => "each directive must have a string 'name'"
  | argumentsNotAnObject => "directive 'args' must be an object"
  | unexpectedEntry key => s!"unexpected directive entry '{key}'"

inductive VariableFault
  | notAnObject
  | typeNotAString
  | markerNotABoolean
  | unexpectedEntry (key : String)
  | missingValue
  | missingType
  deriving DecidableEq, Repr

def VariableFault.text : VariableFault → String
  | notAnObject => "not an object"
  | typeNotAString => "'type' must be a string"
  | markerNotABoolean => "'nonNullable' must be a boolean"
  | unexpectedEntry key => s!"unexpected entry '{key}'"
  | missingValue => "missing 'value'"
  | missingType => "missing 'type'"

inductive RequestError
  | duplicateFragment (name : String)
  | duplicateVariable (name : String)
  | nothingSelected (path : String)
  | unreadableFile (cause : FileError)
  /-- the cycle begins and ends with the same fragment -/
  | cyclicFragments (names : List String)
  | integerOverflow (number : Int) (path : String)
  | rootFieldCount (type : OperationType) (found : Nat)
  | malformedJson
  | conflictingTypes (path declared inherited : String)
  | badAttribute (key path : String) (rule : AttributeRule)
  | badList (key path : String)
  | badDirective (path : String) (fault : DirectiveFault)
  | badVariable (name : String) (fault : VariableFault)
  | unwritableFloat (value : Binary64)
  | notAnObject (path : String)
  | markedType (typeName variableName : String)
  | selfInclusion (name : String)
  | unknownFragment (name : String)
  | unknownVariable (name : String)
  | unknownAttribute (key path : String)
  | referenceInValue (variableName : String)
  deriving DecidableEq, Repr

namespace RequestError

def nonFiniteText : Binary64 → String
  | .infinite false => "inf"
  | .infinite true => "-inf"
  | _ => "NaN"

def message : RequestError → String
  | duplicateFragment name => s!"Duplicate fragment definition: '{name}'"
  | duplicateVariable name =>
      s!"Found multiple variables defined with the same name '{name}' on this operation"
  | nothingSelected path => s!"No fields are declared at '{path}'."
  | unreadableFile cause =>
      "Failure while trying to read a declaration file from disk: " ++ cause.message
  | cyclicFragments names => "Fragment cycle detected: " ++ " → ".intercalate names
  | integerOverflow number path =>
      s!"Integer `{number}` at '{path}' does not fit in a 64-bit signed integer"
  | rootFieldCount type found =>
      "A " ++ type.keyword ++ s!" operation must have a single field (found {found})"
  | malformedJson => "Error parsing declaration JSON"
  | conflictingTypes path declared inherited =>
      s!"'__toLocalType' on node '{path}' must be omitted or be the same as on the containing list " ++
        s!"or connection (found '{declared}', expected '{inherited}')"
  | badAttribute key path rule =>
      s!"'{key}' at '{path}' must be " ++ rule.text
  | badList key path => s!"'{key}' at '{path}' must be a list of strings"
  | badDirective path fault => s!"Malformed directive at '{path}': " ++ fault.text
  | badVariable name fault =>
      s!"Variable '{name}' must be declared as an object with 'value', 'type' and 'nonNullable' " ++
        "entries: " ++ fault.text
  | unwritableFloat value =>
      "Float literal `" ++ nonFiniteText value ++ "` cannot be represented in GraphQL source"
  | notAnObject path =>
      s!"Fields must be declared via objects or using '__scalars' (found a non-object at '{path}')"
  | markedType typeName variableName =>
      s!"The type '{typeName}' of variable '{variableName}' must not include '!', " ++
        "use the non-nullable flag to mark it as non nullable"
  | selfInclusion name => s!"Fragment '{name}' includes itself"
  | unknownFragment name => s!"Fragment '{name}' is not registered"
  | unknownVariable name => s!"Cannot find variable '{name}'"
  | unknownAttribute key path => s!"Unknown control attribute '{key}' at '{path}'"
  | referenceInValue variableName =>
      s!"The value of variable '{variableName}' must not reference another variable"

end RequestError

end GraphRequest
