import GraphRequest.Assembly.Steps

/-!
The walk through declared fields as a list of visits. Adding a field to an assembly performs its
visits one after the other; what is selected then depends on the declaration alone.
-/

namespace GraphRequest

inductive Visit
  /-- the walk stops here -/
  | fault (cause : RequestError)
  | meet (e : Expectation)
  | spread (name : String) (site : Site)

namespace Visit

def perform (expander : Expander) : Visit → ProgressM Unit
  | fault cause => throw cause
  | meet e => Progress.meet e
  | spread name site => expander name site

def performAll (expander : Expander) : List Visit → ProgressM Unit
  | [] => pure ()
  | visit :: rest => do
      visit.perform expander
      performAll expander rest

theorem performAll_append (expander : Expander) (first second : List Visit) :
    performAll expander (first ++ second) =
      performAll expander first >>= fun _ => performAll expander second := by
  induction first with
  | nil => simp [performAll]
  | cons visit rest ih => simp [performAll, ih]

end Visit

namespace Assembly

mutual

/-- The visits of one field. Behind a fault stands nothing, since the walk ends there. -/
def fieldVisits (known : Variables) (site : Site) (key : String) : DeclaredField → List Visit
  | .mk attributes nested =>
      match Expectation.of site key ⟨attributes, nested⟩ with
      | .error cause => [.fault cause]
      | .ok e => .meet e ::
          match checkHead known attributes with
          | .error cause => [.fault cause]
          | .ok _ =>
              attributes.spreads.map (.spread · e.inner) ++ fieldsVisits known e.inner nested

def fieldsVisits (known : Variables) (site : Site) : List (String × DeclaredField) → List Visit
  | [] => []
  | (key, declared) :: rest => fieldVisits known site key declared ++ fieldsVisits known site rest

end

mutual

def fieldNode (key : String) : DeclaredField → Document.Selection
  | .mk attributes nested =>
      .field (head key attributes)
        (leaves attributes.scalarNames attributes.spreads ++ fieldNodes nested)

def fieldNodes : List (String × DeclaredField) → List Document.Selection
  | [] => []
  | (key, declared) :: rest => fieldNode key declared :: fieldNodes rest

end

theorem expandAll_eq_performAll (expander : Expander) (site : Site) (names : List String) :
    expandAll expander site names = Visit.performAll expander (names.map (.spread · site)) := by
  induction names with
  | nil => rfl
  | cons name rest ih =>
      simp only [expandAll, List.map_cons, Visit.performAll, Visit.perform, ih]

mutual

theorem fieldSelection_eq_performAll (known : Variables) (expander : Expander) (site : Site)
    (key : String) : (declared : DeclaredField) →
    fieldSelection known expander site key declared = (do
      Visit.performAll expander (fieldVisits known site key declared)
      return fieldNode key declared)
  | .mk attributes nested => by
      rw [fieldSelection, fieldVisits]
      cases Expectation.of site key ⟨attributes, nested⟩ with
      | error cause => rfl
      | ok e =>
          cases checkHead known attributes with
          | error cause => rfl
          | ok =>
              simp only [ofExcept, pure_bind, Visit.performAll, Visit.perform,
                Visit.performAll_append, expandAll_eq_performAll, bind_assoc,
                fieldSelections_eq_performAll known expander e.inner nested, fieldNode]

theorem fieldSelections_eq_performAll (known : Variables) (expander : Expander) (site : Site) :
    (declared : List (String × DeclaredField)) →
    fieldSelections known expander site declared = (do
      Visit.performAll expander (fieldsVisits known site declared)
      return fieldNodes declared)
  | [] => rfl
  | (key, declared) :: rest => by
      simp only [fieldSelections, fieldsVisits, fieldNodes, Visit.performAll_append, bind_assoc,
        pure_bind, fieldSelection_eq_performAll known expander site key declared,
        fieldSelections_eq_performAll known expander site rest]

end

end Assembly

namespace Fragment

def visits (known : Variables) (site : Site) (fragment : Fragment) : List Visit :=
  if fragment.isEmpty then [.fault (.nothingSelected fragment.name)]
  else fragment.includes.map (.spread · site) ++
    Assembly.fieldsVisits known site fragment.fields.entries

def node (fragment : Fragment) : Document.Fragment where
  name := fragment.name
  typeCondition := fragment.typeCondition
  selections := Assembly.leaves fragment.scalars fragment.includes ++
    Assembly.fieldNodes fragment.fields.entries

theorem defineFragment_eq_performAll (known : Variables) (expander : Expander) (name : String)
    (fragment : Fragment) (site : Site) :
    Assembly.defineFragment known expander name fragment site = (do
      Visit.performAll expander (fragment.visits known site)
      Progress.define name fragment.node) := by
  rw [Assembly.defineFragment, visits]
  cases fragment.isEmpty with
  | true => rfl
  | false =>
      simp only [Bool.false_eq_true, if_false, Visit.performAll_append, bind_assoc, pure_bind,
        Assembly.expandAll_eq_performAll, Assembly.fieldSelections_eq_performAll, node]

end Fragment

end GraphRequest
