import GraphRequest.Directive.Basic
import GraphRequest.Operation.Type
import GraphRequest.Text.Words

/-!
Documents: fragment definitions followed by one operation, and their text. Every node is a row of
words, and a text is its words with single spaces between them.
-/

namespace GraphRequest

namespace Document

structure FieldHead where
  aliasName : Option String
  name : String
  arguments : List (String × Value)
  directives : List Directive
  deriving Repr

/-- A field without selections has no block. -/
inductive Selection
  | scalar (name : String)
  | spread (fragment : String)
  | field (head : FieldHead) (selections : List Selection)
  deriving Repr

structure VariableDefinition where
  name : String
  type : TypeReference
  deriving DecidableEq, Repr

structure Fragment where
  name : String
  typeCondition : String
  selections : List Selection
  deriving Repr

structure Operation where
  type : OperationType
  name : String
  definitions : List VariableDefinition
  directives : List Directive
  selections : List Selection
  deriving Repr

def FieldHead.words (head : FieldHead) : List String :=
  let name := match head.aliasName with
    | some aliasName => aliasName ++ ": " ++ head.name
    | none => head.name
  name :: Value.argumentsSource head.arguments :: head.directives.map Directive.source

def block (words : List String) : List String :=
  "\x7b" :: (words ++ ["\x7d"])

namespace Selection

mutual

def words : Selection → List String
  | scalar name => [name]
  | spread fragment => ["..." ++ fragment]
  | field head selections =>
      head.words ++ if selections.isEmpty then [] else block (allWords selections)

def allWords : List Selection → List String
  | [] => []
  | selection :: rest => words selection ++ allWords rest

end

def text (selection : Selection) : String :=
  Text.joinWords selection.words

theorem allWords_append (first second : List Selection) :
    allWords (first ++ second) = allWords first ++ allWords second := by
  induction first with
  | nil => rfl
  | cons selection rest ih => rw [List.cons_append, allWords, allWords, ih, List.append_assoc]

end Selection

namespace VariableDefinition

def text (definition : VariableDefinition) : String :=
  "$" ++ definition.name ++ ": " ++ definition.type.text

def listText (definitions : List VariableDefinition) : String :=
  if definitions.isEmpty then ""
  else "(" ++ ", ".intercalate (definitions.map text) ++ ")"

end VariableDefinition

namespace Fragment

def words (fragment : Fragment) : List String :=
  ["fragment", fragment.name, "on", fragment.typeCondition] ++
    block (Selection.allWords fragment.selections)

def text (fragment : Fragment) : String :=
  Text.joinWords fragment.words

def listText (fragments : List Fragment) : String :=
  " ".intercalate (fragments.map text)

end Fragment

namespace Operation

def words (operation : Operation) : List String :=
  [operation.type.keyword, operation.name, VariableDefinition.listText operation.definitions] ++
    operation.directives.map Directive.source ++
    block (Selection.allWords operation.selections)

end Operation

end Document

structure Document where
  fragments : List Document.Fragment
  operation : Document.Operation
  deriving Repr

namespace Document

def words (document : Document) : List String :=
  (document.fragments.map Fragment.words).flatten ++ document.operation.words

def text (document : Document) : String :=
  Text.joinWords document.words

end Document

end GraphRequest
