import GraphRequest.Assembly.Basic

/-!
The selections that declared fields ask for. Spreads are handed to an expander, which provides the
definitions of fragments; the `_run` lemmas say what each step does to the progress.
-/

namespace GraphRequest

structure Progress where
  definitions : Definitions
  /-- the expectations of all fields met so far, in the order of the visits -/
  met : List Expectation := []
  deriving Repr

abbrev ProgressM := EStateM RequestError Progress

abbrev Expander := String → Site → ProgressM Unit

namespace Progress

def meet (e : Expectation) : ProgressM Unit :=
  modify fun progress => { progress with met := progress.met ++ [e] }

def define (name : String) (definition : Document.Fragment) : ProgressM Unit :=
  modify fun progress => { progress with definitions := progress.definitions.insert name definition }

def isDefined (name : String) : ProgressM Bool := do
  return (← get).definitions.contains name

theorem meet_run (e : Expectation) (progress : Progress) :
    meet e progress = .ok () { progress with met := progress.met ++ [e] } := rfl

theorem isDefined_run (name : String) (progress : Progress) :
    isDefined name progress = .ok (progress.definitions.contains name) progress := rfl

end Progress

namespace Assembly

def expandAll (expander : Expander) (site : Site) : List String → ProgressM Unit
  | [] => pure ()
  | name :: rest => do
      expander name site
      expandAll expander site rest

/-- The selections that a field or a fragment names before its nested fields. -/
def leaves (scalars spreads : List String) : List Document.Selection :=
  scalars.map .scalar ++ spreads.map .spread

theorem allWords_leaves (scalars spreads : List String) :
    Document.Selection.allWords (leaves scalars spreads) = scalars ++ spreads.map ("..." ++ ·) := by
  have first : Document.Selection.allWords (scalars.map .scalar) = scalars := by
    induction scalars with
    | nil => rfl
    | cons name rest ih => exact congrArg (name :: ·) ih
  have second : Document.Selection.allWords (spreads.map .spread) = spreads.map ("..." ++ ·) := by
    induction spreads with
    | nil => rfl
    | cons name rest ih => exact congrArg (("..." ++ name) :: ·) ih
  rw [leaves, Document.Selection.allWords_append, first, second]

def checkHead (known : Variables) (attributes : FieldAttributes) : Except RequestError Unit := do
  Value.checkEntries known attributes.argumentEntries
  Directive.checkAll known attributes.directives

def head (key : String) (attributes : FieldAttributes) : Document.FieldHead where
  aliasName := attributes.aliasName
  name := key
  arguments := attributes.argumentEntries
  directives := attributes.directives

mutual

/-- A field is met before its values are looked at, and these come before all that is inside. -/
def fieldSelection (known : Variables) (expander : Expander) (site : Site) (key : String) :
    DeclaredField → ProgressM Document.Selection
  | .mk attributes nested => do
      let e ← ofExcept (Expectation.of site key ⟨attributes, nested⟩)
      Progress.meet e
      ofExcept (checkHead known attributes)
      expandAll expander e.inner attributes.spreads
      let inside ← fieldSelections known expander e.inner nested
      return .field (head key attributes)
        (leaves attributes.scalarNames attributes.spreads ++ inside)

def fieldSelections (known : Variables) (expander : Expander) (site : Site) :
    List (String × DeclaredField) → ProgressM (List Document.Selection)
  | [] => pure []
  | (key, declared) :: rest => do
      let first ← fieldSelection known expander site key declared
      let others ← fieldSelections known expander site rest
      return first :: others

end

def defineFragment (known : Variables) (expander : Expander) (name : String)
    (fragment : Fragment) (site : Site) : ProgressM Unit := do
  if fragment.isEmpty then throw (.nothingSelected fragment.name)
  expandAll expander site fragment.includes
  let inside ← fieldSelections known expander site fragment.fields.entries
  Progress.define name
    ⟨fragment.name, fragment.typeCondition, leaves fragment.scalars fragment.includes ++ inside⟩

end Assembly

end GraphRequest
