import GraphRequest.Operation.Type
import GraphRequest.Proofs.Grammar.Lexer

/-!
Syntax trees of executable documents, and the tokens that spell them.
-/

namespace GraphRequest.Grammar

inductive Literal
  | reference (name : String)
  | int (value : Int)
  | float (value : Binary64)
  | string (text : String)
  | block (raw : String)
  | bool (value : Bool)
  | null
  | enum (name : String)
  | list (items : List Literal)
  | object (entries : List (String × Literal))
  deriving Repr

structure DirectiveNode where
  name : String
  arguments : List (String × Literal)
  deriving Repr

inductive TypeNode
  | named (name : String)
  | list (inner : TypeNode)
  | nonNull (inner : TypeNode)
  deriving DecidableEq, Repr

structure VariableNode where
  name : String
  type : TypeNode
  fallback : Option Literal
  directives : List DirectiveNode
  deriving Repr

inductive Selection
  | field (aliasName : Option String) (name : String) (arguments : List (String × Literal))
      (directives : List DirectiveNode) (selections : List Selection)
  | spread (fragment : String) (directives : List DirectiveNode)
  | inline (typeCondition : Option String) (directives : List DirectiveNode)
      (selections : List Selection)
  deriving Repr

inductive Definition
  | operation (type : OperationType) (name : Option String) (inputs : List VariableNode)
      (directives : List DirectiveNode) (selections : List Selection)
  | fragment (name typeCondition : String) (directives : List DirectiveNode)
      (selections : List Selection)
  deriving Repr

def TypeNode.isProper : TypeNode → Bool
  | named name => isName name
  | list inner => inner.isProper
  | nonNull (nonNull _) => false
  | nonNull inner => inner.isProper

namespace Literal

mutual

def tokens : Literal → List Token
  | reference name => [.mark '$', .name name]
  | int value => [.int value]
  | float value => [.float value]
  | string text => [.string text]
  | block raw => [.block raw]
  | bool value => [.name (if value then "true" else "false")]
  | null => [.name "null"]
  | enum name => [.name name]
  | list items => .mark '[' :: (itemTokens items ++ [.mark ']'])
  | object entries => .mark '\x7b' :: (entryTokens entries ++ [.mark '\x7d'])

def itemTokens : List Literal → List Token
  | [] => []
  | item :: rest => tokens item ++ itemTokens rest

def entryTokens : List (String × Literal) → List Token
  | [] => []
  | (key, value) :: rest => .name key :: .mark ':' :: (tokens value ++ entryTokens rest)

end

mutual

/-- Names that are literals of their own are no enum values, and a constant holds no references. -/
def isProper (constant : Bool) : Literal → Bool
  | reference _ => !constant
  | enum name => name ∉ ["true", "false", "null"]
  | list items => allProper constant items
  | object entries => entriesProper constant entries
  | _ => true

def allProper (constant : Bool) : List Literal → Bool
  | [] => true
  | item :: rest => isProper constant item && allProper constant rest

def entriesProper (constant : Bool) : List (String × Literal) → Bool
  | [] => true
  | (_, value) :: rest => isProper constant value && entriesProper constant rest

end

def argumentTokens (arguments : List (String × Literal)) : List Token :=
  if arguments.isEmpty then [] else .mark '(' :: (entryTokens arguments ++ [.mark ')'])

end Literal

namespace DirectiveNode

def tokens (directive : DirectiveNode) : List Token :=
  .mark '@' :: .name directive.name :: Literal.argumentTokens directive.arguments

def allTokens (directives : List DirectiveNode) : List Token :=
  directives.flatMap tokens

def allProper (constant : Bool) (directives : List DirectiveNode) : Bool :=
  directives.all fun directive => Literal.entriesProper constant directive.arguments

end DirectiveNode

def TypeNode.tokens : TypeNode → List Token
  | named name => [.name name]
  | list inner => .mark '[' :: (inner.tokens ++ [.mark ']'])
  | nonNull inner => inner.tokens ++ [.mark '!']

/-- The text is a reference to the type, in any layout but without comments. -/
structure TypeNode.WrittenAs (type : TypeNode) (text : String) : Prop where
  proper : type.isProper
  lexed : lex text.toList = some type.tokens
  uncommented : '#' ∉ text.toList

def IsTypeText (text : String) : Prop :=
  ∃ type : TypeNode, type.WrittenAs text

def fallbackTokens (fallback : Option Literal) : List Token :=
  fallback.elim [] fun value => .mark '=' :: value.tokens

namespace VariableNode

def tokens (node : VariableNode) : List Token :=
  .mark '$' :: .name node.name :: .mark ':' :: (node.type.tokens ++
    fallbackTokens node.fallback ++ DirectiveNode.allTokens node.directives)

def isProper (node : VariableNode) : Bool :=
  node.type.isProper && (node.fallback.all fun value => value.isProper true) &&
    DirectiveNode.allProper true node.directives

def listTokens (inputs : List VariableNode) : List Token :=
  if inputs.isEmpty then [] else .mark '(' :: (inputs.flatMap tokens ++ [.mark ')'])

end VariableNode

def blockTokens (inside : List Token) : List Token :=
  .mark '\x7b' :: (inside ++ [.mark '\x7d'])

namespace Selection

mutual

def tokens : Selection → List Token
  | field aliasName name arguments directives selections =>
      (aliasName.elim [] fun key => [.name key, .mark ':']) ++ .name name ::
        (Literal.argumentTokens arguments ++ DirectiveNode.allTokens directives ++
          if selections.isEmpty then [] else blockTokens (allTokens selections))
  | spread fragment directives =>
      .spread :: .name fragment :: DirectiveNode.allTokens directives
  | inline typeCondition directives selections =>
      .spread :: ((typeCondition.elim [] fun name => [.name "on", .name name]) ++
        DirectiveNode.allTokens directives ++ blockTokens (allTokens selections))

def allTokens : List Selection → List Token
  | [] => []
  | selection :: rest => tokens selection ++ allTokens rest

end

mutual

/-- No fragment is named like the word before a type condition, and inline fragments select
something. -/
def isProper : Selection → Bool
  | field _ _ arguments directives selections =>
      Literal.entriesProper false arguments && DirectiveNode.allProper false directives &&
        allProper selections
  | spread fragment directives => fragment ≠ "on" && DirectiveNode.allProper false directives
  | inline _ directives selections =>
      DirectiveNode.allProper false directives && !selections.isEmpty && allProper selections

def allProper : List Selection → Bool
  | [] => true
  | selection :: rest => isProper selection && allProper rest

end

end Selection

namespace Definition

def tokens : Definition → List Token
  | operation type name inputs directives selections =>
      .name type.keyword :: ((name.elim [] fun name => [.name name]) ++
        VariableNode.listTokens inputs ++ DirectiveNode.allTokens directives ++
        blockTokens (Selection.allTokens selections))
  | fragment name typeCondition directives selections =>
      [.name "fragment", .name name, .name "on", .name typeCondition] ++
        DirectiveNode.allTokens directives ++ blockTokens (Selection.allTokens selections)

def isProper : Definition → Bool
  | operation _ _ inputs directives selections =>
      inputs.all VariableNode.isProper && DirectiveNode.allProper false directives &&
        !selections.isEmpty && Selection.allProper selections
  | fragment name _ directives selections =>
      name ≠ "on" && DirectiveNode.allProper false directives && !selections.isEmpty &&
        Selection.allProper selections

end Definition

end GraphRequest.Grammar
