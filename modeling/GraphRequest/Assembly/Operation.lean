import GraphRequest.Assembly.Steps
import GraphRequest.Operation.Basic

/-!
The document of an operation.
-/

namespace GraphRequest

/-- Variables come first, since arguments and directives refer to them; the operation's own
directives are looked at last. -/
def Operation.assemble (operation : Operation) : AssemblyM Document := do
  let definitions ← Assembly.introduceVariables operation.inputs.entries
  let selections ← Assembly.selectFields operation.fields.entries Site.root
  ofExcept (Directive.checkAll (← get).known operation.directives)
  return {
    fragments := (← get).definitions.values
    operation := {
      type := operation.type
      name := operation.effectiveName
      definitions
      directives := operation.directives
      selections } }

end GraphRequest
