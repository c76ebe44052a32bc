import GraphRequest.Proofs.Walk.Visit

/-!
The faults that stand among visits. A cycle of fragments is never one of them: it shows only when
spreads are expanded.
-/

namespace GraphRequest

def RequestError.isCyclic : RequestError → Bool
  | cyclicFragments _ => true
  | selfInclusion _ => true
  | _ => false

def RequestError.isUnwritable : RequestError → Bool
  | unwritableFloat _ => true
  | unknownVariable _ => true
  | _ => false

variable {known : Variables} {site : Site} {key : String} {cause : RequestError}

theorem RequestError.isCyclic_of_isUnwritable (leaf : cause.isUnwritable) :
    cause.isCyclic = false := by
  cases cause with
  | unwritableFloat | unknownVariable => rfl
  | _ => cases leaf

namespace Value

mutual

theorem check_fault : (value : Value) → value.check known = .error cause → cause.isUnwritable
  | reference name => by
      rw [check]
      split
      · intro fails; cases fails
      · intro fails; cases fails; rfl
  | float value => by
      rw [check]
      split
      · intro fails; cases fails
      · intro fails; cases fails; rfl
  | list items => by
      rw [check]
      exact checkItems_fault items
  | object entries => by
      rw [check]
      exact checkEntries_fault entries
  | int _ | string _ | bool _ | null | enum _ => by intro fails; cases fails

theorem checkItems_fault : (items : List Value) → checkItems known items = .error cause →
    cause.isUnwritable
  | [] => by intro fails; cases fails
  | item :: rest => by
      intro fails
      rw [checkItems] at fails
      cases first : check known item with
      | error other =>
          rw [first] at fails
          cases fails
          exact check_fault item first
      | ok =>
          rw [first] at fails
          exact checkItems_fault rest fails

theorem checkEntries_fault : (entries : List (String × Value)) →
    checkEntries known entries = .error cause → cause.isUnwritable
  | [] => by intro fails; cases fails
  | (_, value) :: rest => by
      intro fails
      rw [checkEntries] at fails
      cases first : check known value with
      | error other =>
          rw [first] at fails
          cases fails
          exact check_fault value first
      | ok =>
          rw [first] at fails
          exact checkEntries_fault rest fails

end

end Value

theorem Directive.checkAll_fault {directives : List Directive}
    (fails : Directive.checkAll known directives = .error cause) : cause.isUnwritable := by
  induction directives with
  | nil => cases fails
  | cons directive rest ih =>
      rw [checkAll] at fails
      cases first : directive.check known with
      | error other =>
          rw [first] at fails
          cases fails
          exact Value.checkEntries_fault _ first
      | ok =>
          rw [first] at fails
          exact ih fails

theorem Expectation.of_fault {field : DeclaredField}
    (refused : Expectation.of site key field = .error cause) : cause.isCyclic = false := by
  rw [Expectation.of] at refused
  split at refused
  · cases refused
    rfl
  · split at refused
    · cases refused
      rfl
    · cases refused

namespace Assembly

theorem checkHead_fault {attributes : FieldAttributes}
    (fails : checkHead known attributes = .error cause) : cause.isUnwritable := by
  rw [checkHead] at fails
  cases first : Value.checkEntries known attributes.argumentEntries with
  | error other =>
      rw [first] at fails
      cases fails
      exact Value.checkEntries_fault _ first
  | ok =>
      rw [first] at fails
      exact Directive.checkAll_fault fails

theorem fault_not_mem_spreads (names : List String) :
    Visit.fault cause ∉ names.map (.spread · site) := by
  intro member
  rcases List.mem_map.mp member with ⟨_, _, same⟩
  cases same

mutual

theorem fieldVisits_fault (site : Site) (key : String) : (declared : DeclaredField) →
    .fault cause ∈ fieldVisits known site key declared → cause.isCyclic = false
  | .mk attributes nested => by
      rw [fieldVisits]
      cases accepted : Expectation.of site key ⟨attributes, nested⟩ with
      | error other =>
          intro member
          cases List.mem_singleton.mp member
          exact Expectation.of_fault accepted
      | ok e =>
          intro member
          have inside := (List.mem_cons.mp member).resolve_left (by simp)
          cases checked : checkHead known attributes with
          | error other =>
              rw [checked] at inside
              cases List.mem_singleton.mp inside
              exact RequestError.isCyclic_of_isUnwritable (checkHead_fault checked)
          | ok =>
              rw [checked] at inside
              rcases List.mem_append.mp inside with spread | deeper
              · exact absurd spread (fault_not_mem_spreads _)
              · exact fieldsVisits_fault e.inner nested deeper

theorem fieldsVisits_fault (site : Site) : (declared : List (String × DeclaredField)) →
    .fault cause ∈ fieldsVisits known site declared → cause.isCyclic = false
  | [] => by intro member; cases member
  | (key, declared) :: rest => by
      intro member
      rw [fieldsVisits] at member
      rcases List.mem_append.mp member with first | others
      · exact fieldVisits_fault site key declared first
      · exact fieldsVisits_fault site rest others

end

end Assembly

theorem Fragment.visits_fault {fragment : Fragment}
    (member : .fault cause ∈ fragment.visits known site) : cause.isCyclic = false := by
  rw [visits] at member
  split at member
  · cases List.mem_singleton.mp member
    rfl
  · rcases List.mem_append.mp member with spread | inside
    · exact absurd spread (Assembly.fault_not_mem_spreads _)
    · exact Assembly.fieldsVisits_fault site _ inside

end GraphRequest
