import GraphRequest.Document
import GraphRequest.Expectation
import GraphRequest.Fragment.Basic

/-!
The state in which the document of one operation is assembled, and the steps that add variables and
fragments to it. A step that fails keeps what was changed before the fault.
-/

namespace GraphRequest

abbrev Definitions := OrderedMap String Document.Fragment

structure Assembly where
  name : String
  /-- the variables that values may refer to -/
  known : Variables := .empty
  fragments : Fragments := .empty
  /-- the definitions that are complete, in the order of their completion -/
  definitions : Definitions := .empty
  expectations : Expectations := .empty
  /-- the fragments inside of which the next step stands, the outermost first -/
  expanding : List String := []
  deriving Repr

abbrev AssemblyM := EStateM RequestError Assembly

section Runs

variable {σ α β : Type}

def ofExcept : Except RequestError α → EStateM RequestError σ α
  | .ok a => pure a
  | .error e => throw e

theorem pure_run (a : α) (state : σ) : (pure a : EStateM RequestError σ α) state = .ok a state := rfl

theorem throw_run (e : RequestError) (state : σ) :
    (throw e : EStateM RequestError σ α) state = .error e state := rfl

theorem ofExcept_run (result : Except RequestError α) (state : σ) :
    ofExcept result state =
      match result with
      | .ok a => .ok a state
      | .error e => .error e state := by
  cases result <;> rfl

theorem bind_run (step : EStateM RequestError σ α) (next : α → EStateM RequestError σ β)
    (state : σ) :
    (step >>= next) state =
      match step state with
      | .ok a after => next a after
      | .error e after => .error e after := by
  simp only [bind, EStateM.bind]
  cases step state <;> rfl

end Runs

namespace Assembly

def new (name : String) : Assembly :=
  { name }

def expectation? (assembly : Assembly) (responseKey : String) (level : Nat) : Option Expectation :=
  assembly.expectations.get? (responseKey, level)

def payload (assembly : Assembly) : OrderedMap String Value :=
  assembly.known.mapValues Variable.value

def definitionsText (assembly : Assembly) : String :=
  Document.Fragment.listText assembly.definitions.values

def introduceFragment (fragment : Fragment) : AssemblyM Unit := do
  let fragments ← ofExcept ((← get).fragments.add fragment)
  modify fun assembly => { assembly with fragments }

def introduceFragments : List Fragment → AssemblyM Unit
  | [] => pure ()
  | fragment :: rest => do
      introduceFragment fragment
      introduceFragments rest

/-- The first variable under a name is the one that is kept. -/
def keepVariable (name : String) (first : Variable) (assembly : Assembly) : Assembly :=
  if assembly.known.contains name then assembly
  else { assembly with known := assembly.known.insert name first }

def introduceVariables : List (String × DeclaredVariable) → AssemblyM (List Document.VariableDefinition)
  | [] => pure []
  | (name, declared) :: rest => do
      let named ← ofExcept (declared.named name)
      modify (keepVariable name named)
      let definitions ← introduceVariables rest
      return ⟨named.name, named.type⟩ :: definitions

def writeArguments (arguments : List (String × Value)) : AssemblyM String := do
  ofExcept (Value.checkEntries (← get).known arguments)
  return Value.argumentsSource arguments

def writeDirectives (directives : List Directive) : AssemblyM String := do
  ofExcept (Directive.checkAll (← get).known directives)
  return " ".intercalate (directives.map Directive.source)

end Assembly

end GraphRequest
