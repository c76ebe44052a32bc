import GraphRequest.Proofs.Walk.Fault
import GraphRequest.Proofs.Walk.Preorder

/-!
Walks that end with a fault. The fields that they meet before it come first in the pre-order of their
route.
-/

namespace GraphRequest

open Assembly Visit

def RequestError.isConflict : RequestError → Bool
  | conflictingTypes _ _ _ => true
  | _ => false

/-- The visits follow a route up to the first fault. A conflict of local types is the fault of the
field that comes next on the route. -/
inductive Tracks : List Waypoint → List Visit → Prop
  | done : Tracks [] []
  | pass {waypoint route visits} (onward : Tracks route visits) :
      Tracks (waypoint :: route) (waypoint.visit :: visits)
  | refuse {site key declared route cause visits}
      (refused : Expectation.of site key declared = .error cause) :
      Tracks (.field site key declared :: route) (.fault cause :: visits)
  | halt {route cause visits} (other : cause.isConflict = false) :
      Tracks route (.fault cause :: visits)

namespace Tracks

variable {route further : List Waypoint} {visits more : List Visit}

theorem append (tracks : Tracks route visits) (onward : Tracks further more) :
    Tracks (route ++ further) (visits ++ more) := by
  induction tracks with
  | done => exact onward
  | pass _ ih => exact .pass ih
  | refuse refused => exact .refuse refused
  | halt other => exact .halt other

theorem spreads (names : List String) (site : Site) :
    Tracks (names.map (.spread · site)) (names.map (.spread · site)) := by
  induction names with
  | nil => exact .done
  | cons name rest ih => exact @pass (.spread name site) _ _ ih

theorem of_meet {e : Expectation} (tracks : Tracks route (.meet e :: visits)) :
    ∃ site key declared rest, route = .field site key declared :: rest ∧
      e = declared.expectationAt site key ∧ Tracks rest visits := by
  generalize same : Visit.meet e :: visits = all at tracks
  cases tracks with
  | done => cases same
  | @pass waypoint rest _ onward =>
      cases waypoint with
      | spread name site => cases same
      | field site key declared =>
          cases same
          exact ⟨site, key, declared, rest, rfl, rfl, onward⟩
  | refuse => cases same
  | halt => cases same

theorem of_spread {name : String} {site : Site} (tracks : Tracks route (.spread name site :: visits)) :
    ∃ rest, route = .spread name site :: rest ∧ Tracks rest visits := by
  generalize same : Visit.spread name site :: visits = all at tracks
  cases tracks with
  | done => cases same
  | @pass waypoint rest _ onward =>
      cases waypoint with
      | field site key declared => cases same
      | spread other place =>
          cases same
          exact ⟨rest, rfl, onward⟩
  | refuse => cases same
  | halt => cases same

theorem of_fault {cause : RequestError} (tracks : Tracks route (.fault cause :: visits)) :
    cause.isConflict = false ∨ ∃ site key declared rest, route = .field site key declared :: rest ∧
      Expectation.of site key declared = .error cause := by
  generalize same : Visit.fault cause :: visits = all at tracks
  cases tracks with
  | done => cases same
  | @pass waypoint => cases waypoint <;> cases same
  | @refuse site key declared rest _ _ refused =>
      cases same
      exact .inr ⟨site, key, declared, rest, rfl, refused⟩
  | halt other =>
      cases same
      exact .inl other

end Tracks

theorem RequestError.isConflict_of_isUnwritable {cause : RequestError} (leaf : cause.isUnwritable) :
    cause.isConflict = false := by
  cases cause with
  | unwritableFloat | unknownVariable => rfl
  | _ => cases leaf

namespace DeclaredField

mutual

theorem route_tracks (known : Variables) (site : Site) (key : String) : (declared : DeclaredField) →
    Tracks (declared.route site key) (fieldVisits known site key declared)
  | mk attributes nested => by
      rw [route, fieldVisits]
      cases accepted : Expectation.of site key ⟨attributes, nested⟩ with
      | error cause => exact .refuse accepted
      | ok e =>
          obtain ⟨-, rfl⟩ := Expectation.of_eq_ok_iff.mp accepted
          refine @Tracks.pass (.field site key ⟨attributes, nested⟩) _ _ ?_
          cases checked : checkHead known attributes with
          | error cause => exact .halt (RequestError.isConflict_of_isUnwritable (checkHead_fault checked))
          | ok => exact (Tracks.spreads _ _).append (routes_tracks known _ nested)

theorem routes_tracks (known : Variables) (site : Site) :
    (declared : List (String × DeclaredField)) →
    Tracks (routes site declared) (fieldsVisits known site declared)
  | [] => .done
  | (key, declared) :: rest => by
      rw [routes, fieldsVisits]
      exact (route_tracks known site key declared).append (routes_tracks known site rest)

end

end DeclaredField

theorem Fragment.route_tracks (known : Variables) (site : Site) (fragment : Fragment) :
    Tracks (fragment.route site) (fragment.visits known site) := by
  rw [route, visits]
  split
  · exact .halt rfl
  · exact (Tracks.spreads _ _).append (DeclaredField.routes_tracks known site _)

theorem recurrence_not_conflict (expanding : List String) (name : String) :
    (recurrence expanding name).isConflict = false := by
  rw [recurrence]
  split <;> rfl

/-- The fields met before a fault come first in the pre-order. If a node contradicts the local type
that it inherits, it is the field behind them. -/
theorem Stops.preordered {scope : Scope} {expanding seen : List String} {before after : Progress}
    {route : List Waypoint} {visits : List Visit} {cause : RequestError}
    (run : Stops scope expanding before visits cause after) (tracks : Tracks route visits)
    (marks : Seen seen expanding before) :
    ∃ fields, after.met = before.met ++ fields.map PlacedField.expectation ∧
      ∀ back, ∃ later, Waypoint.preorder scope.fragments seen (route ++ back) = fields ++ later ∧
        (cause.isConflict → ∃ placed ∈ later.head?,
          Expectation.of placed.site placed.key placed.declared = .error cause) := by
  induction run generalizing route seen with
  | fault =>
      refine ⟨[], (List.append_nil _).symm, fun back => ⟨_, rfl, fun conflict => ?_⟩⟩
      rcases tracks.of_fault with other | ⟨site, key, declared, rest, rfl, refused⟩
      · cases other.symm.trans conflict
      · rw [List.cons_append, Waypoint.preorder]
        exact ⟨_, rfl, refused⟩
  | meet _ ih =>
      obtain ⟨site, key, declared, rest, rfl, rfl, onward⟩ := tracks.of_meet
      obtain ⟨fields, met, order⟩ := ih onward marks
      refine ⟨⟨site, key, declared⟩ :: fields, ?_, fun back => ?_⟩
      · rw [met, Progress.metWith, List.append_assoc]
        rfl
      · obtain ⟨later, whole, refused⟩ := order back
        exact ⟨later, by rw [List.cons_append, Waypoint.preorder, whole, List.cons_append], refused⟩
  | reuse present _ ih =>
      obtain ⟨rest, rfl, onward⟩ := tracks.of_spread
      obtain ⟨fields, met, order⟩ := ih onward marks
      refine ⟨fields, met, fun back => ?_⟩
      rw [List.cons_append, Waypoint.preorder_seen ((marks _).mpr (.inl present))]
      exact order back
  | recur =>
      refine ⟨[], (List.append_nil _).symm, fun back => ⟨_, rfl, fun conflict => ?_⟩⟩
      cases (recurrence_not_conflict _ _).symm.trans conflict
  | unknown =>
      refine ⟨[], (List.append_nil _).symm, fun back => ⟨_, rfl, fun conflict => ?_⟩⟩
      cases conflict
  | @inside _ _ name site _ fragment _ _ absent closed found _ ih =>
      obtain ⟨rest, rfl, -⟩ := tracks.of_spread
      have new : name ∉ seen := fun known => ((marks name).mp known).elim absent closed
      obtain ⟨fields, met, order⟩ := ih (fragment.route_tracks _ site) (marks.enter name)
      refine ⟨fields, met, fun back => ?_⟩
      rw [List.cons_append, Waypoint.preorder_first new found]
      exact order (rest ++ back)
  | @behind _ _ name site _ fragment _ _ _ absent closed found inside _ ih =>
      obtain ⟨rest, rfl, onward⟩ := tracks.of_spread
      have new : name ∉ seen := fun known => ((marks name).mp known).elim absent closed
      obtain ⟨filled, passedInside⟩ := Fragment.route_passed inside.faultless
      obtain ⟨between, fields, marked, metInside, first⟩ := inside.preordered
        (Fragment.visits_of_passed filled passedInside) passedInside (marks.enter name)
      obtain ⟨more, met, order⟩ := ih onward (marked.leave fragment.node)
      refine ⟨fields ++ more, ?_, fun back => ?_⟩
      · rw [met, Progress.defined, metInside, List.map_append, List.append_assoc]
      · obtain ⟨later, whole, refused⟩ := order back
        refine ⟨later, ?_, refused⟩
        rw [List.cons_append, Waypoint.preorder_first new found, first.ahead, whole,
          List.append_assoc]

end GraphRequest
