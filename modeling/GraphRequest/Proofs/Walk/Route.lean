import GraphRequest.Proofs.Walk.Writable

/-!
The route of a walk: the fields that it comes to and the spreads between them, each with its site.
The declaration alone decides the route. A walk without faults is its route, and a walk meets no fault
if each field on the route is admitted at its site and its values can be written.
-/

namespace GraphRequest

inductive Waypoint
  | field (site : Site) (key : String) (declared : DeclaredField)
  | spread (name : String) (site : Site)

namespace DeclaredField

def expectationAt (field : DeclaredField) (site : Site) (key : String) : Expectation :=
  .build site key field.attributes (field.shapeAt site key)

/-- A field of composite shape selects something, and the own local type of a node is the one that it
inherits. -/
structure Admitted (field : DeclaredField) (site : Site) (key : String) : Prop where
  selects : (field.shapeAt site key).needsSelection → field.selectsAnything
  agrees : field.shapeAt site key = .node → ∀ own inherited,
    field.attributes.localType = some own → site.inherited = some inherited → own = inherited

mutual

def route (site : Site) (key : String) : DeclaredField → List Waypoint
  | mk attributes nested =>
      .field site key ⟨attributes, nested⟩ ::
        (attributes.spreads.map (.spread · (expectationAt ⟨attributes, nested⟩ site key).inner) ++
          routes (expectationAt ⟨attributes, nested⟩ site key).inner nested)

def routes (site : Site) : List (String × DeclaredField) → List Waypoint
  | [] => []
  | (key, declared) :: rest => route site key declared ++ routes site rest

end

end DeclaredField

theorem Expectation.conflict?_eq_none (own inherited : Option String) :
    conflict? own inherited = none ↔
      ∀ declared expected, own = some declared → inherited = some expected → declared = expected := by
  cases own <;> cases inherited <;> simp [conflict?]

theorem Expectation.of_eq_ok_iff {site : Site} {key : String} {field : DeclaredField}
    {e : Expectation} :
    Expectation.of site key field = .ok e ↔
      field.Admitted site key ∧ field.expectationAt site key = e := by
  constructor
  · intro accepted
    obtain ⟨built, selects⟩ := of_eq_ok accepted
    refine ⟨⟨selects, fun shaped => ?_⟩, built.symm⟩
    rw [← conflict?_eq_none]
    change (field.attributes.evidence (!field.fields.isEmpty) key site.inherited).shape = _ at shaped
    rw [Expectation.of] at accepted
    rw [if_pos shaped] at accepted
    split at accepted
    · cases accepted
    · next consistent => exact consistent
  · rintro ⟨⟨selects, agrees⟩, rfl⟩
    have consistent : (if field.shapeAt site key = .node then
        conflict? field.attributes.localType site.inherited else none) = none := by
      split
      · next shaped => exact (conflict?_eq_none _ _).mpr (agrees shaped)
      · rfl
    have demanded : ¬((field.shapeAt site key).needsSelection && !field.selectsAnything) = true := by
      simpa using selects
    rw [DeclaredField.shapeAt] at consistent demanded
    rw [Expectation.of, consistent]
    exact if_neg demanded

namespace Waypoint

def visit : Waypoint → Visit
  | field site key declared => .meet (declared.expectationAt site key)
  | spread name site => .spread name site

def Passed (known : Variables) : Waypoint → Prop
  | field site key declared =>
      declared.Admitted site key ∧ Assembly.checkHead known declared.attributes = .ok ()
  | spread _ _ => True

theorem passed_of_fields {known : Variables} {route : List Waypoint}
    (admitted : ∀ site key declared, .field site key declared ∈ route → declared.Admitted site key)
    (checked : ∀ site key declared, .field site key declared ∈ route →
      Assembly.checkHead known declared.attributes = .ok ()) :
    ∀ waypoint ∈ route, waypoint.Passed known := by
  intro waypoint member
  cases waypoint with
  | field site key declared => exact ⟨admitted _ _ _ member, checked _ _ _ member⟩
  | spread name site => trivial

theorem passed_spreads (known : Variables) (names : List String) (site : Site) :
    ∀ waypoint ∈ names.map (.spread · site), Passed known waypoint := by
  intro waypoint member
  rcases List.mem_map.mp member with ⟨name, -, rfl⟩
  trivial

theorem map_visit_spreads (names : List String) (site : Site) :
    (names.map (spread · site)).map visit = names.map (.spread · site) := by
  rw [List.map_map]
  rfl

def spread? : Waypoint → Option (String × Site)
  | field _ _ _ => none
  | spread name site => some (name, site)

def spreads (route : List Waypoint) : List (String × Site) :=
  route.filterMap spread?

theorem spreads_visits (route : List Waypoint) :
    Visit.spreads (route.map visit) = spreads route := by
  rw [Visit.spreads, List.filterMap_map, spreads]
  congr 1
  funext waypoint
  cases waypoint <;> rfl

theorem spreads_append (first second : List Waypoint) :
    spreads (first ++ second) = spreads first ++ spreads second :=
  List.filterMap_append

theorem spreads_map (names : List String) (site : Site) :
    (spreads (names.map (.spread · site))).map Prod.fst = names := by
  rw [← spreads_visits, map_visit_spreads, Visit.spreads_map, List.map_map]
  exact List.map_id _

end Waypoint

namespace DeclaredField

variable {known : Variables}

mutual

theorem fieldVisits_of_passed (site : Site) (key : String) : (declared : DeclaredField) →
    (∀ waypoint ∈ declared.route site key, waypoint.Passed known) →
    Assembly.fieldVisits known site key declared = (declared.route site key).map Waypoint.visit
  | mk attributes nested => by
      intro passed
      rw [route, List.forall_mem_cons, List.forall_mem_append] at passed
      obtain ⟨⟨admitted, checked⟩, -, deeper⟩ := passed
      have accepted := Expectation.of_eq_ok_iff.mpr ⟨admitted, rfl⟩
      change Assembly.checkHead known attributes = .ok () at checked
      rw [Assembly.fieldVisits, accepted]
      dsimp only
      rw [checked]
      dsimp only
      rw [fieldsVisits_of_passed _ nested deeper, route, List.map_cons, List.map_append,
        Waypoint.map_visit_spreads]
      rfl

theorem fieldsVisits_of_passed (site : Site) : (declared : List (String × DeclaredField)) →
    (∀ waypoint ∈ routes site declared, waypoint.Passed known) →
    Assembly.fieldsVisits known site declared = (routes site declared).map Waypoint.visit
  | [] => fun _ => rfl
  | (key, declared) :: rest => by
      intro passed
      rw [routes, List.forall_mem_append] at passed
      rw [Assembly.fieldsVisits, fieldVisits_of_passed site key declared passed.1,
        fieldsVisits_of_passed site rest passed.2, routes, List.map_append]

end

mutual

theorem route_passed (site : Site) (key : String) : (declared : DeclaredField) →
    Visit.Faultless (Assembly.fieldVisits known site key declared) →
    ∀ waypoint ∈ declared.route site key, waypoint.Passed known
  | mk attributes nested => by
      rw [Assembly.fieldVisits]
      cases accepted : Expectation.of site key ⟨attributes, nested⟩ with
      | error cause =>
          intro faultless
          exact absurd List.mem_cons_self (faultless cause)
      | ok e =>
          obtain ⟨admitted, rfl⟩ := Expectation.of_eq_ok_iff.mp accepted
          cases checked : Assembly.checkHead known attributes with
          | error cause =>
              intro faultless
              exact absurd (List.mem_cons_of_mem _ List.mem_cons_self) (faultless cause)
          | ok =>
              intro faultless
              rw [route, List.forall_mem_cons, List.forall_mem_append]
              refine ⟨⟨admitted, checked⟩, Waypoint.passed_spreads _ _ _, ?_⟩
              apply routes_passed _ nested
              intro cause member
              exact faultless cause (List.mem_cons_of_mem _ (List.mem_append_right _ member))

theorem routes_passed (site : Site) : (declared : List (String × DeclaredField)) →
    Visit.Faultless (Assembly.fieldsVisits known site declared) →
    ∀ waypoint ∈ routes site declared, waypoint.Passed known
  | [] => by
      intro _ waypoint member
      cases member
  | (key, declared) :: rest => by
      intro faultless
      rw [Assembly.fieldsVisits] at faultless
      rw [routes, List.forall_mem_append]
      exact ⟨route_passed site key declared faultless.of_append.1,
        routes_passed site rest faultless.of_append.2⟩

end

mutual

theorem route_checked (site : Site) (key : String) : (declared : DeclaredField) →
    declared.Writable known → ∀ place name field, .field place name field ∈ declared.route site key →
    Assembly.checkHead known field.attributes = .ok ()
  | mk attributes nested => by
      rintro ⟨checked, deeper⟩ place name field member
      rw [route] at member
      rcases List.mem_cons.mp member with same | member
      · cases same
        exact checked
      · rcases List.mem_append.mp member with spread | inside
        · rcases List.mem_map.mp spread with ⟨_, -, same⟩
          cases same
        · exact routes_checked _ nested deeper place name field inside

theorem routes_checked (site : Site) : (declared : List (String × DeclaredField)) →
    AllWritable known declared →
    ∀ place name field, .field place name field ∈ routes site declared →
    Assembly.checkHead known field.attributes = .ok ()
  | [] => by
      intro _ place name field member
      cases member
  | (key, declared) :: rest => by
      rintro ⟨first, others⟩ place name field member
      rw [routes] at member
      rcases List.mem_append.mp member with here | later
      · exact route_checked site key declared first place name field here
      · exact routes_checked site rest others place name field later

end

end DeclaredField

namespace DeclaredField

mutual

theorem spreads_route (site : Site) (key : String) : (declared : DeclaredField) →
    (Waypoint.spreads (declared.route site key)).map Prod.fst = declared.spreadNames
  | mk attributes nested => by
      rw [route, spreadNames, ← spreads_routes _ nested]
      change (Waypoint.spreads (_ ++ _)).map Prod.fst = _
      rw [Waypoint.spreads_append, List.map_append, Waypoint.spreads_map]

theorem spreads_routes (site : Site) : (declared : List (String × DeclaredField)) →
    (Waypoint.spreads (routes site declared)).map Prod.fst = allSpreadNames declared
  | [] => rfl
  | (key, declared) :: rest => by
      rw [routes, allSpreadNames, Waypoint.spreads_append, List.map_append,
        spreads_route site key declared, spreads_routes site rest]

end

end DeclaredField

namespace Fragment

def route (site : Site) (fragment : Fragment) : List Waypoint :=
  fragment.includes.map (.spread · site) ++ DeclaredField.routes site fragment.fields.entries

theorem visits_of_passed {known : Variables} {site : Site} {fragment : Fragment}
    (present : fragment.isEmpty = false)
    (passed : ∀ waypoint ∈ fragment.route site, waypoint.Passed known) :
    fragment.visits known site = (fragment.route site).map Waypoint.visit := by
  rw [route, List.forall_mem_append] at passed
  rw [visits, present, if_neg Bool.false_ne_true, route, List.map_append,
    Waypoint.map_visit_spreads, DeclaredField.fieldsVisits_of_passed site _ passed.2]

theorem route_passed {known : Variables} {site : Site} {fragment : Fragment}
    (faultless : Visit.Faultless (fragment.visits known site)) :
    fragment.isEmpty = false ∧ ∀ waypoint ∈ fragment.route site, waypoint.Passed known := by
  rw [visits] at faultless
  split at faultless
  · exact absurd List.mem_cons_self (faultless _)
  · next present =>
      rw [route, List.forall_mem_append]
      exact ⟨by simpa using present, Waypoint.passed_spreads _ _ _,
        DeclaredField.routes_passed site _ faultless.of_append.2⟩

theorem route_checked {known : Variables} {site : Site} {fragment : Fragment}
    (writable : DeclaredField.AllWritable known fragment.fields.entries) :
    ∀ place name field, .field place name field ∈ fragment.route site →
    Assembly.checkHead known field.attributes = .ok () := by
  intro place name field member
  rw [route] at member
  rcases List.mem_append.mp member with included | inside
  · rcases List.mem_map.mp included with ⟨_, -, same⟩
    cases same
  · exact DeclaredField.routes_checked site _ writable place name field inside

theorem spreads_route (site : Site) (fragment : Fragment) :
    (Waypoint.spreads (fragment.route site)).map Prod.fst = fragment.references := by
  rw [route, references, Waypoint.spreads_append, List.map_append, Waypoint.spreads_map,
    DeclaredField.spreads_routes]

end Fragment

def routeAt (lookup : String → Option Fragment) (entry : String × Site) : List Waypoint :=
  (lookup entry.1).elim [] (Fragment.route entry.2)

def spreadSites (lookup : String → Option Fragment) (entry : String × Site) :
    List (String × Site) :=
  Waypoint.spreads (routeAt lookup entry)

theorem spreadSites_names (lookup : String → Option Fragment) (entry : String × Site) :
    (spreadSites lookup entry).map Prod.fst = references lookup entry.1 := by
  rw [spreadSites, routeAt, references]
  cases lookup entry.1 with
  | none => rfl
  | some fragment => exact fragment.spreads_route entry.2

end GraphRequest
