import GraphRequest.Proofs.Walk.Cache
import GraphRequest.Proofs.Walk.Route

/-!
The pre-order of the declared fields: each field comes before its content, spreads come before nested
fields, and a fragment is entered at its first spread only. A completed walk meets the fields in this
order.
-/

namespace GraphRequest

open Assembly Visit

/-- A declared field at a site where a walk comes to it. -/
structure PlacedField where
  site : Site
  key : String
  declared : DeclaredField

namespace PlacedField

def slot (placed : PlacedField) : ResponseSlot :=
  (placed.declared.attributes.responseKey placed.key, placed.site.level)

def expectation (placed : PlacedField) : Expectation :=
  placed.declared.expectationAt placed.site placed.key

end PlacedField

namespace Waypoint

/-- The fields along a route and inside of the fragments that are spread on it, but for those of the
fragments in `seen`. The route of a fragment stands in the place of its first spread. -/
def preorder (fragments : Fragments) (seen : List String) : List Waypoint → List PlacedField
  | [] => []
  | .field site key declared :: rest => ⟨site, key, declared⟩ :: preorder fragments seen rest
  | .spread name site :: rest =>
      if known : name ∈ seen then preorder fragments seen rest
      else
        match found : fragments.get? name with
        | none => preorder fragments seen rest
        | some fragment =>
            have := unopened_lt known (mem_keys_of_get? found)
            preorder fragments (seen ++ [name]) (fragment.route site ++ rest)
termination_by route => ((unopened fragments seen).length, route.length)

variable {fragments : Fragments} {seen : List String} {rest : List Waypoint} {name : String}
  {site : Site}

theorem preorder_seen (known : name ∈ seen) :
    preorder fragments seen (.spread name site :: rest) = preorder fragments seen rest := by
  rw [preorder, dif_pos known]

theorem preorder_first {fragment : Fragment} (new : name ∉ seen)
    (found : fragments.get? name = some fragment) :
    preorder fragments seen (.spread name site :: rest) =
      preorder fragments (seen ++ [name]) (fragment.route site ++ rest) := by
  rw [preorder, dif_neg new]
  split
  · next missing =>
      rw [found] at missing
      cases missing
  · next other also =>
      rw [found] at also
      cases also
      rfl

end Waypoint

/-- From one set of seen fragments to another, the pre-order of the route consists of these fields. -/
structure Preordered (fragments : Fragments) (seen later : List String) (route : List Waypoint)
    (fields : List PlacedField) : Prop where
  ahead : ∀ back, Waypoint.preorder fragments seen (route ++ back) =
    fields ++ Waypoint.preorder fragments later back
  accepted : ∀ placed ∈ fields,
    Expectation.of placed.site placed.key placed.declared = .ok placed.expectation

namespace Preordered

variable {fragments : Fragments} {seen middle later : List String} {route rest : List Waypoint}
  {fields more : List PlacedField} {name : String} {site : Site} {key : String}

theorem nil : Preordered fragments seen seen [] [] :=
  ⟨fun _ => rfl, by simp⟩

theorem field {declared : DeclaredField} (admitted : declared.Admitted site key)
    (onward : Preordered fragments seen later rest fields) :
    Preordered fragments seen later (.field site key declared :: rest)
      (⟨site, key, declared⟩ :: fields) where
  ahead back := by
    rw [List.cons_append, Waypoint.preorder, onward.ahead, List.cons_append]
  accepted :=
    List.forall_mem_cons.mpr ⟨Expectation.of_eq_ok_iff.mpr ⟨admitted, rfl⟩, onward.accepted⟩

theorem again (known : name ∈ seen) (onward : Preordered fragments seen later rest fields) :
    Preordered fragments seen later (.spread name site :: rest) fields where
  ahead back := by
    rw [List.cons_append, Waypoint.preorder_seen known, onward.ahead]
  accepted := onward.accepted

theorem first {fragment : Fragment} (new : name ∉ seen)
    (found : fragments.get? name = some fragment)
    (inside : Preordered fragments (seen ++ [name]) middle (fragment.route site) fields)
    (onward : Preordered fragments middle later rest more) :
    Preordered fragments seen later (.spread name site :: rest) (fields ++ more) where
  ahead back := by
    rw [List.cons_append, Waypoint.preorder_first new found, inside.ahead, onward.ahead,
      List.append_assoc]
  accepted := List.forall_mem_append.mpr ⟨inside.accepted, onward.accepted⟩

end Preordered

/-- The fragments that a walk has come to: those that are defined and those that it is inside of. -/
def Seen (seen expanding : List String) (progress : Progress) : Prop :=
  ∀ name, name ∈ seen ↔ name ∈ progress.definitions.keys ∨ name ∈ expanding

namespace Seen

variable {seen expanding : List String} {progress : Progress} {name : String}

theorem enter (marks : Seen seen expanding progress) (name : String) :
    Seen (seen ++ [name]) (expanding ++ [name]) progress := by
  intro other
  rw [List.mem_append, marks other, List.mem_append, or_assoc]

theorem leave (marks : Seen seen (expanding ++ [name]) progress)
    (definition : Document.Fragment) : Seen seen expanding (progress.defined name definition) := by
  intro other
  rw [marks other, Progress.mem_keys_defined, List.mem_append, List.mem_singleton]
  tauto

end Seen

namespace Waypoint

variable {route : List Waypoint} {visits : List Visit}

theorem walked_meet {e : Expectation} (walked : .meet e :: visits = route.map visit) :
    ∃ site key declared rest, route = .field site key declared :: rest ∧
      e = declared.expectationAt site key ∧ visits = rest.map visit := by
  obtain ⟨waypoint, rest, rfl, here, behind⟩ := List.map_eq_cons_iff.mp walked.symm
  cases waypoint with
  | spread name site => cases here
  | field site key declared =>
      cases here
      exact ⟨site, key, declared, rest, rfl, rfl, behind.symm⟩

theorem walked_spread {name : String} {site : Site}
    (walked : .spread name site :: visits = route.map visit) :
    ∃ rest, route = .spread name site :: rest ∧ visits = rest.map visit := by
  obtain ⟨waypoint, rest, rfl, here, behind⟩ := List.map_eq_cons_iff.mp walked.symm
  cases waypoint with
  | field site key declared => cases here
  | spread name site =>
      cases here
      exact ⟨rest, rfl, behind.symm⟩

end Waypoint

variable {scope : Scope} {expanding : List String} {before after : Progress} {visits : List Visit}

/-- What a completed walk meets are the expectations of the fields in their pre-order. -/
theorem Completes.preordered (run : Completes scope expanding before visits after)
    {route : List Waypoint} (walked : visits = route.map Waypoint.visit)
    (passed : ∀ waypoint ∈ route, waypoint.Passed scope.known) {seen : List String}
    (marks : Seen seen expanding before) :
    ∃ later fields, Seen later expanding after ∧
      after.met = before.met ++ fields.map PlacedField.expectation ∧
      Preordered scope.fragments seen later route fields := by
  induction run generalizing route seen with
  | done =>
      obtain rfl := List.map_eq_nil_iff.mp walked.symm
      exact ⟨seen, [], marks, by simp, .nil⟩
  | meet _ ih =>
      obtain ⟨site, key, declared, rest, rfl, rfl, behind⟩ := Waypoint.walked_meet walked
      rw [List.forall_mem_cons] at passed
      obtain ⟨later, fields, marked, met, onward⟩ := ih behind passed.2 marks
      refine ⟨later, _, marked, ?_, .field passed.1.1 onward⟩
      rw [met, Progress.metWith, List.append_assoc]
      rfl
  | reuse present _ ih =>
      obtain ⟨rest, rfl, behind⟩ := Waypoint.walked_spread walked
      rw [List.forall_mem_cons] at passed
      obtain ⟨later, fields, marked, met, onward⟩ := ih behind passed.2 marks
      exact ⟨later, fields, marked, met, .again ((marks _).mpr (.inl present)) onward⟩
  | @expand _ _ name _ _ fragment _ _ absent closed found inside _ ihInside ihLater =>
      obtain ⟨rest, rfl, behind⟩ := Waypoint.walked_spread walked
      rw [List.forall_mem_cons] at passed
      have new : name ∉ seen := fun known => ((marks name).mp known).elim absent closed
      obtain ⟨filled, passedInside⟩ := Fragment.route_passed inside.faultless
      obtain ⟨between, fields, marked, met, first⟩ := ihInside
        (Fragment.visits_of_passed filled passedInside) passedInside (marks.enter name)
      obtain ⟨later, more, marked, metLater, onward⟩ :=
        ihLater behind passed.2 (marked.leave fragment.node)
      refine ⟨later, fields ++ more, marked, ?_, .first new found first onward⟩
      rw [metLater, Progress.defined, met, List.map_append, List.append_assoc]

end GraphRequest
