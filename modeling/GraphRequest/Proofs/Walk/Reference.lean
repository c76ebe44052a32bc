import GraphRequest.Proofs.Expectation.Accepted
import GraphRequest.Proofs.Walk.Run

/-!
References between fragments as they are declared, and the spreads that are met on a walk. On a walk
without faults both are the same, and the level of a spread is known from the declaration.
-/

namespace GraphRequest

namespace DeclaredField

mutual

/-- The spreads in a field of the given level, with the levels of what they spread: those of the
field itself come before those of its nested fields. -/
def spreadLevels (level : Nat) : DeclaredField → List (String × Nat)
  | .mk attributes nested =>
      attributes.spreads.map (·, level + 1) ++ allSpreadLevels (level + 1) nested

def allSpreadLevels (level : Nat) : List (String × DeclaredField) → List (String × Nat)
  | [] => []
  | (_, declared) :: rest => spreadLevels level declared ++ allSpreadLevels level rest

end

mutual

def spreadNames : DeclaredField → List String
  | .mk attributes nested => attributes.spreads ++ allSpreadNames nested

def allSpreadNames : List (String × DeclaredField) → List String
  | [] => []
  | (_, declared) :: rest => spreadNames declared ++ allSpreadNames rest

end

mutual

theorem spreadLevels_names (level : Nat) : (declared : DeclaredField) →
    (spreadLevels level declared).map Prod.fst = spreadNames declared
  | .mk attributes nested => by
      have kept : attributes.spreads.map (Prod.fst ∘ (·, level + 1)) = attributes.spreads :=
        List.map_id _
      rw [spreadLevels, spreadNames, List.map_append, List.map_map, kept,
        allSpreadLevels_names (level + 1) nested]

theorem allSpreadLevels_names (level : Nat) : (declared : List (String × DeclaredField)) →
    (allSpreadLevels level declared).map Prod.fst = allSpreadNames declared
  | [] => rfl
  | (_, declared) :: rest => by
      rw [allSpreadLevels, allSpreadNames, List.map_append, spreadLevels_names level declared,
        allSpreadLevels_names level rest]

end

end DeclaredField

namespace Fragment

/-- What a fragment refers to; its includes come before the spreads of its fields. -/
def references (fragment : Fragment) : List String :=
  fragment.includes ++ DeclaredField.allSpreadNames fragment.fields.entries

def referenceLevels (level : Nat) (fragment : Fragment) : List (String × Nat) :=
  fragment.includes.map (·, level) ++ DeclaredField.allSpreadLevels level fragment.fields.entries

theorem referenceLevels_names (level : Nat) (fragment : Fragment) :
    (fragment.referenceLevels level).map Prod.fst = fragment.references := by
  have kept : fragment.includes.map (Prod.fst ∘ (·, level)) = fragment.includes := List.map_id _
  rw [referenceLevels, references, List.map_append, List.map_map, kept,
    DeclaredField.allSpreadLevels_names]

end Fragment

def references (lookup : String → Option Fragment) (name : String) : List String :=
  (lookup name).elim [] Fragment.references

def referenceLevels (lookup : String → Option Fragment) (entry : String × Nat) :
    List (String × Nat) :=
  (lookup entry.1).elim [] (Fragment.referenceLevels entry.2)

theorem referenceLevels_names (lookup : String → Option Fragment) (entry : String × Nat) :
    (referenceLevels lookup entry).map Prod.fst = references lookup entry.1 := by
  rw [referenceLevels, references]
  cases lookup entry.1 with
  | none => rfl
  | some fragment => exact fragment.referenceLevels_names entry.2

namespace Visit

def spread? : Visit → Option (String × Site)
  | spread name site => some (name, site)
  | _ => none

def spreads (visits : List Visit) : List (String × Site) :=
  visits.filterMap spread?

def Faultless (visits : List Visit) : Prop :=
  ∀ cause, fault cause ∉ visits

theorem spreads_append (first second : List Visit) :
    spreads (first ++ second) = spreads first ++ spreads second :=
  List.filterMap_append

theorem spreads_map (names : List String) (site : Site) :
    spreads (names.map (.spread · site)) = names.map (·, site) := by
  rw [spreads, List.filterMap_map]
  change names.filterMap (some ∘ fun name => (name, site)) = _
  rw [List.filterMap_eq_map]

theorem mem_spreads {visits : List Visit} {name : String} {site : Site} :
    (name, site) ∈ spreads visits ↔ .spread name site ∈ visits := by
  rw [spreads, List.mem_filterMap]
  constructor
  · rintro ⟨visit, member, same⟩
    cases visit with
    | fault cause => cases same
    | meet e => cases same
    | spread other place =>
        cases same
        exact member
  · intro member
    exact ⟨_, member, rfl⟩

theorem Faultless.of_append {first second : List Visit} (faultless : Faultless (first ++ second)) :
    Faultless first ∧ Faultless second :=
  ⟨fun cause member => faultless cause (List.mem_append_left _ member),
    fun cause member => faultless cause (List.mem_append_right _ member)⟩

end Visit

open Visit

namespace Assembly

def levelOf (spread : String × Site) : String × Nat :=
  (spread.1, spread.2.level)

mutual

theorem fieldVisits_spreadLevels (known : Variables) (site : Site) (key : String) :
    (declared : DeclaredField) → Faultless (fieldVisits known site key declared) →
    (spreads (fieldVisits known site key declared)).map levelOf = declared.spreadLevels site.level
  | .mk attributes nested => by
      rw [fieldVisits]
      cases accepted : Expectation.of site key ⟨attributes, nested⟩ with
      | error cause =>
          intro faultless
          exact absurd List.mem_cons_self (faultless cause)
      | ok e =>
          have inner := Expectation.inner_level_eq accepted
          cases checkHead known attributes with
          | error cause =>
              intro faultless
              exact absurd (by simp) (faultless cause)
          | ok =>
              intro faultless
              have below : Faultless (fieldsVisits known e.inner nested) := fun cause member =>
                faultless cause (List.mem_cons_of_mem _ (List.mem_append_right _ member))
              have nestedLevels := fieldsVisits_spreadLevels known e.inner nested below
              simp only [spreads, List.filterMap_cons, spread?]
              rw [← spreads, spreads_append, spreads_map, List.map_append, List.map_map,
                nestedLevels, DeclaredField.spreadLevels, ← inner]
              rfl

theorem fieldsVisits_spreadLevels (known : Variables) (site : Site) :
    (declared : List (String × DeclaredField)) → Faultless (fieldsVisits known site declared) →
    (spreads (fieldsVisits known site declared)).map levelOf =
      DeclaredField.allSpreadLevels site.level declared
  | [] => fun _ => rfl
  | (key, declared) :: rest => by
      intro faultless
      rw [fieldsVisits] at faultless
      rw [fieldsVisits, spreads_append, List.map_append, DeclaredField.allSpreadLevels,
        fieldVisits_spreadLevels known site key declared faultless.of_append.1,
        fieldsVisits_spreadLevels known site rest faultless.of_append.2]

end

mutual

theorem fieldVisits_spreadNames (known : Variables) (site : Site) (key : String) :
    (declared : DeclaredField) → ∀ spread ∈ spreads (fieldVisits known site key declared),
    spread.1 ∈ declared.spreadNames
  | .mk attributes nested => by
      rw [fieldVisits]
      cases Expectation.of site key ⟨attributes, nested⟩ with
      | error cause => intro spread member; cases member
      | ok e =>
          cases checkHead known attributes with
          | error cause => intro spread member; cases member
          | ok =>
              intro spread member
              simp only [spreads, List.filterMap_cons, spread?] at member
              rw [← spreads, spreads_append, spreads_map] at member
              rw [DeclaredField.spreadNames]
              rcases List.mem_append.mp member with own | deeper
              · rcases List.mem_map.mp own with ⟨name, present, rfl⟩
                exact List.mem_append_left _ present
              · exact List.mem_append_right _
                  (fieldsVisits_spreadNames known e.inner nested spread deeper)

theorem fieldsVisits_spreadNames (known : Variables) (site : Site) :
    (declared : List (String × DeclaredField)) →
    ∀ spread ∈ spreads (fieldsVisits known site declared),
    spread.1 ∈ DeclaredField.allSpreadNames declared
  | [] => by intro spread member; cases member
  | (key, declared) :: rest => by
      intro spread member
      rw [fieldsVisits, spreads_append] at member
      rw [DeclaredField.allSpreadNames]
      rcases List.mem_append.mp member with first | others
      · exact List.mem_append_left _
          (fieldVisits_spreadNames known site key declared spread first)
      · exact List.mem_append_right _ (fieldsVisits_spreadNames known site rest spread others)

end

end Assembly

namespace Fragment

theorem visits_spreadLevels (known : Variables) (site : Site) (fragment : Fragment)
    (faultless : Faultless (fragment.visits known site)) :
    (spreads (fragment.visits known site)).map Assembly.levelOf =
      fragment.referenceLevels site.level := by
  rw [visits] at faultless ⊢
  cases vacant : fragment.isEmpty with
  | true =>
      rw [vacant, if_pos rfl] at faultless
      exact absurd List.mem_cons_self (faultless _)
  | false =>
      rw [vacant, if_neg Bool.false_ne_true] at faultless
      rw [if_neg Bool.false_ne_true, spreads_append, spreads_map, List.map_append, List.map_map,
        Assembly.fieldsVisits_spreadLevels known site _ faultless.of_append.2, referenceLevels]
      rfl

theorem visits_references (known : Variables) (site : Site) (fragment : Fragment) :
    ∀ spread ∈ spreads (fragment.visits known site), spread.1 ∈ fragment.references := by
  intro spread member
  rw [visits] at member
  rw [references]
  cases vacant : fragment.isEmpty with
  | true =>
      rw [vacant, if_pos rfl] at member
      cases member
  | false =>
      rw [vacant, if_neg Bool.false_ne_true, spreads_append, spreads_map] at member
      rcases List.mem_append.mp member with included | inside
      · rcases List.mem_map.mp included with ⟨name, present, rfl⟩
        exact List.mem_append_left _ present
      · exact List.mem_append_right _ (Assembly.fieldsVisits_spreadNames known site _ spread inside)

end Fragment

theorem Completes.faultless {scope : Scope} {expanding : List String} {before after : Progress}
    {visits : List Visit} (run : Completes scope expanding before visits after) :
    Faultless visits := by
  intro cause
  induction run with
  | done => simp
  | meet _ ih => simpa using ih
  | reuse _ _ ih => simpa using ih
  | expand _ _ _ _ _ _ ih => simpa using ih

end GraphRequest
