import GraphRequest.Proofs.Grammar.Syntax

/-!
Reading executable documents from tokens. A reader takes what it stands for off the front and leaves
the rest; every reader that calls itself has a limit, which becomes less with each call.
-/

namespace GraphRequest.Grammar

abbrev Reader (α : Type) := List Token → Option (α × List Token)

/-- Three names are literals of their own; all others are enum values. -/
def nameLiteral (name : String) : Literal :=
  if name = "true" then .bool true
  else if name = "false" then .bool false
  else if name = "null" then .null
  else .enum name

mutual

/-- A value; a constant one holds no references. -/
def readLiteral (constant : Bool) : Nat → Reader Literal
  | 0, _ => none
  | limit + 1, tokens =>
      match tokens with
      | .mark '$' :: .name name :: rest => if constant then none else some (.reference name, rest)
      | .int value :: rest => some (.int value, rest)
      | .float value :: rest => some (.float value, rest)
      | .string text :: rest => some (.string text, rest)
      | .block raw :: rest => some (.block raw, rest)
      | .name name :: rest => some (nameLiteral name, rest)
      | .mark '[' :: rest =>
          (readItems constant limit rest).map fun (items, rest) => (.list items, rest)
      | .mark '\x7b' :: rest =>
          (readEntries constant '\x7d' limit rest).map fun (entries, rest) => (.object entries, rest)
      | _ => none

def readItems (constant : Bool) : Nat → Reader (List Literal)
  | 0, _ => none
  | limit + 1, tokens =>
      match tokens with
      | .mark ']' :: rest => some ([], rest)
      | tokens => do
          let (item, rest) ← readLiteral constant limit tokens
          let (more, rest) ← readItems constant limit rest
          return (item :: more, rest)

def readEntries (constant : Bool) (close : Char) : Nat → Reader (List (String × Literal))
  | 0, _ => none
  | limit + 1, tokens =>
      match tokens with
      | .name key :: .mark ':' :: rest => do
          let (value, rest) ← readLiteral constant limit rest
          let (more, rest) ← readEntries constant close limit rest
          return ((key, value) :: more, rest)
      | .mark c :: rest => if c = close then some ([], rest) else none
      | _ => none

end

/-- Between parentheses stands at least one argument. -/
def readArguments (constant : Bool) (limit : Nat) : Reader (List (String × Literal))
  | .mark '(' :: rest => do
      let (arguments, rest) ← readEntries constant ')' limit rest
      if arguments.isEmpty then none else some (arguments, rest)
  | tokens => some ([], tokens)

def readDirectives (constant : Bool) : Nat → Reader (List DirectiveNode)
  | 0, _ => none
  | limit + 1, tokens =>
      match tokens with
      | .mark '@' :: .name name :: rest => do
          let (arguments, rest) ← readArguments constant limit rest
          let (more, rest) ← readDirectives constant limit rest
          return (⟨name, arguments⟩ :: more, rest)
      | .mark '@' :: _ => none
      | tokens => some ([], tokens)

def readMark (type : TypeNode) : List Token → TypeNode × List Token
  | .mark '!' :: rest => (.nonNull type, rest)
  | tokens => (type, tokens)

def readType : Nat → Reader TypeNode
  | 0, _ => none
  | limit + 1, tokens =>
      match tokens with
      | .name name :: rest => some (readMark (.named name) rest)
      | .mark '[' :: rest =>
          match readType limit rest with
          | some (inner, .mark ']' :: rest) => some (readMark (.list inner) rest)
          | _ => none
      | _ => none

def readFallback (limit : Nat) : Reader (Option Literal)
  | .mark '=' :: rest => (readLiteral true limit rest).map fun (value, rest) => (some value, rest)
  | tokens => some (none, tokens)

def readVariables : Nat → Reader (List VariableNode)
  | 0, _ => none
  | limit + 1, tokens =>
      match tokens with
      | .mark ')' :: rest => some ([], rest)
      | .mark '$' :: .name name :: .mark ':' :: rest => do
          let (type, rest) ← readType limit rest
          let (fallback, rest) ← readFallback limit rest
          let (directives, rest) ← readDirectives true limit rest
          let (more, rest) ← readVariables limit rest
          return (⟨name, type, fallback, directives⟩ :: more, rest)
      | _ => none

def readInputs (limit : Nat) : Reader (List VariableNode)
  | .mark '(' :: rest => do
      let (inputs, rest) ← readVariables limit rest
      if inputs.isEmpty then none else some (inputs, rest)
  | tokens => some ([], tokens)

def readFieldName (first : String) : Reader (Option String × String)
  | .mark ':' :: .name name :: rest => some ((some first, name), rest)
  | .mark ':' :: _ => none
  | tokens => some ((none, first), tokens)

def readCondition : Reader (Option String)
  | .name word :: .name name :: rest => if word = "on" then some (some name, rest) else none
  | .name _ :: _ => none
  | tokens => some (none, tokens)

def spreadName? : List Token → Option (String × List Token)
  | .name name :: rest => if name = "on" then none else some (name, rest)
  | _ => none

def readBody (block : Reader (List Selection)) : Reader (List Selection)
  | .mark '\x7b' :: rest => block rest
  | tokens => some ([], tokens)

def readBraces (block : Reader (List Selection)) : Reader (List Selection)
  | .mark '\x7b' :: rest => block rest
  | _ => none

mutual

def readSelection : Nat → Reader Selection
  | 0, _ => none
  | limit + 1, tokens =>
      match tokens with
      | .name first :: rest => do
          let ((aliasName, name), rest) ← readFieldName first rest
          let (arguments, rest) ← readArguments false limit rest
          let (directives, rest) ← readDirectives false limit rest
          let (selections, rest) ← readBody (readBlock limit) rest
          return (.field aliasName name arguments directives selections, rest)
      | .spread :: rest =>
          match spreadName? rest with
          | some (fragment, rest) => do
              let (directives, rest) ← readDirectives false limit rest
              return (.spread fragment directives, rest)
          | none => do
              let (typeCondition, rest) ← readCondition rest
              let (directives, rest) ← readDirectives false limit rest
              let (selections, rest) ← readBraces (readBlock limit) rest
              return (.inline typeCondition directives selections, rest)
      | _ => none

def readBlock : Nat → Reader (List Selection)
  | 0, _ => none
  | limit + 1, tokens => do
      let (first, rest) ← readSelection limit tokens
      match rest with
      | .mark '\x7d' :: rest => return ([first], rest)
      | rest => do
          let (more, rest) ← readBlock limit rest
          return (first :: more, rest)

end

def keywordType? (word : String) : Option OperationType :=
  OperationType.all.find? fun type => type.keyword = word

def readOperationName : Reader (Option String)
  | .name name :: rest => some (some name, rest)
  | tokens => some (none, tokens)

def readOperation (type : OperationType) (limit : Nat) : Reader Definition := fun tokens => do
  let (name, rest) ← readOperationName tokens
  let (inputs, rest) ← readInputs limit rest
  let (directives, rest) ← readDirectives false limit rest
  let (selections, rest) ← readBraces (readBlock limit) rest
  return (.operation type name inputs directives selections, rest)

def readFragment (limit : Nat) : Reader Definition
  | .name name :: .name word :: .name typeCondition :: rest => do
      if name = "on" || word ≠ "on" then none
      let (directives, rest) ← readDirectives false limit rest
      let (selections, rest) ← readBraces (readBlock limit) rest
      return (.fragment name typeCondition directives selections, rest)
  | _ => none

/-- A query may consist of its selections alone. -/
def readDefinition (limit : Nat) : Reader Definition
  | .mark '\x7b' :: rest =>
      (readBlock limit rest).map fun (selections, rest) =>
        (.operation .query none [] [] selections, rest)
  | .name word :: rest =>
      match keywordType? word with
      | some type => readOperation type limit rest
      | none => if word = "fragment" then readFragment limit rest else none
  | _ => none

def readDefinitions : Nat → List Token → Option (List Definition)
  | 0, _ => none
  | limit + 1, tokens => do
      let (first, rest) ← readDefinition limit tokens
      if rest.isEmpty then return [first]
      return first :: (← readDefinitions limit rest)

/-- The executable document that a whole text stands for. The limit is more than the readers of any
document of so many tokens need. -/
def read? (text : String) : Option (List Definition) := do
  let tokens ← lex text.toList
  readDefinitions (2 * tokens.length + 2) tokens

end GraphRequest.Grammar
