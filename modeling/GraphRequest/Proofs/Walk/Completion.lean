import GraphRequest.Proofs.Walk.Log
import GraphRequest.Proofs.Walk.Route

/-!
Runs that are bound to complete. A route can be performed if its post-order exists and all that the
fragments in this order lead to can be passed.
-/

namespace GraphRequest

open Assembly Visit

variable {scope : Scope} {expanding : List String} {before after : Progress}

namespace Completes

theorem performAll {visits : List Visit} (run : Completes scope expanding before visits after) :
    performAll (expandFragment scope expanding) visits before = .ok () after := by
  induction run with
  | done => rfl
  | meet _ ih => exact ih
  | reuse present _ ih =>
      rw [performAll_cons_run, perform, expandFragment_present_run present]
      exact ih
  | expand absent closed found _ _ inside later =>
      rw [performAll_cons_run, perform, expandFragment_absent_run absent, if_neg closed, found]
      dsimp only
      rw [inside]
      exact later

theorem behind_fields {front : List Waypoint}
    (silent : ∀ waypoint ∈ front, waypoint.spread? = none) (before : Progress) :
    ∃ middle, middle.definitions = before.definitions ∧ ∀ visits after,
      Completes scope expanding middle visits after →
      Completes scope expanding before (front.map Waypoint.visit ++ visits) after := by
  induction front generalizing before with
  | nil => exact ⟨before, rfl, fun _ _ run => run⟩
  | cons waypoint rest ih =>
      rw [List.forall_mem_cons] at silent
      cases waypoint with
      | spread name site => cases silent.1
      | field site key declared =>
          obtain ⟨middle, same, behind⟩ :=
            ih silent.2 (before.metWith (declared.expectationAt site key))
          exact ⟨middle, same, fun visits after run => .meet (behind visits after run)⟩

theorem of_no_spreads {route : List Waypoint} (none : Waypoint.spreads route = [])
    (before : Progress) : ∃ after, Completes scope expanding before (route.map Waypoint.visit) after ∧
      after.definitions = before.definitions := by
  obtain ⟨middle, same, behind⟩ := behind_fields (List.filterMap_eq_nil_iff.mp none) before
  refine ⟨middle, ?_, same⟩
  simpa using behind [] middle .done

theorem behind_first {route : List Waypoint} {name : String} {site : Site}
    {rest : List (String × Site)} (spreads : Waypoint.spreads route = (name, site) :: rest)
    (before : Progress) : ∃ middle back, middle.definitions = before.definitions ∧
      Waypoint.spreads back = rest ∧ ∀ after,
        Completes scope expanding middle (.spread name site :: back.map Waypoint.visit) after →
        Completes scope expanding before (route.map Waypoint.visit) after := by
  obtain ⟨front, waypoint, back, rfl, silent, spread, others⟩ :=
    List.filterMap_eq_cons_iff.mp spreads
  obtain ⟨middle, same, behind⟩ := behind_fields silent before
  cases waypoint with
  | field site key declared => cases spread
  | spread name site =>
      cases spread
      refine ⟨middle, back, same, others, fun after run => ?_⟩
      rw [List.map_append, List.map_cons]
      exact behind _ after run

end Completes

theorem Stops.performAll {visits : List Visit} {cause : RequestError}
    (run : Stops scope expanding before visits cause after) :
    Visit.performAll (expandFragment scope expanding) visits before = .error cause after := by
  induction run with
  | fault => rfl
  | meet _ ih => exact ih
  | reuse present _ ih =>
      rw [performAll_cons_run, perform, expandFragment_present_run present]
      exact ih
  | recur absent opened =>
      rw [performAll_cons_run, perform, expandFragment_absent_run absent, if_pos opened]
  | unknown absent closed missing =>
      rw [performAll_cons_run, perform, expandFragment_absent_run absent, if_neg closed, missing]
  | inside absent closed found _ within =>
      rw [performAll_cons_run, perform, expandFragment_absent_run absent, if_neg closed, found]
      dsimp only
      rw [within]
  | behind absent closed found inside _ later =>
      rw [performAll_cons_run, perform, expandFragment_absent_run absent, if_neg closed, found]
      dsimp only
      rw [inside.performAll]
      exact later

/-- The fragments that are being expanded lead to those that are pending. -/
def Ancestors (lookup : String → Option Fragment) (expanding : List String)
    (pending : List (String × Site)) : Prop :=
  ∀ name ∈ expanding, ∀ entry ∈ pending,
    Relation.TransGen (fun name target => target ∈ references lookup name) name entry.1

namespace Ancestors

variable {lookup : String → Option Fragment} {entry : String × Site} {rest : List (String × Site)}

theorem later (ancestors : Ancestors lookup expanding (entry :: rest)) :
    Ancestors lookup expanding rest :=
  fun name opened target member => ancestors name opened target (List.mem_cons_of_mem _ member)

theorem inside (ancestors : Ancestors lookup expanding (entry :: rest)) :
    Ancestors lookup (expanding ++ [entry.1]) (spreadSites lookup entry) := by
  intro name opened target leads
  have referred : target.1 ∈ references lookup entry.1 := by
    rw [← spreadSites_names]
    exact List.mem_map_of_mem leads
  rcases List.mem_append.mp opened with outer | own
  · exact (ancestors name outer entry List.mem_cons_self).tail referred
  · rcases List.mem_singleton.mp own with rfl
    exact .single referred

end Ancestors

def Scope.Expandable (scope : Scope) (entry : String × Site) : Prop :=
  ∃ fragment, scope.fragments.get? entry.1 = some fragment ∧ fragment.isEmpty = false ∧
    ∀ waypoint ∈ fragment.route entry.2, waypoint.Passed scope.known

theorem spreadSites_found {lookup : String → Option Fragment} {entry : String × Site}
    {fragment : Fragment} (found : lookup entry.1 = some fragment) :
    spreadSites lookup entry = Waypoint.spreads (fragment.route entry.2) := by
  rw [spreadSites, routeAt, found]
  rfl

namespace Logged

variable {visits : List Visit} {finished log : List (String × Site)}

theorem expandable (logged : Logged scope before visits after finished log) {entry : String × Site}
    (member : entry ∈ log) : scope.Expandable entry := by
  obtain ⟨_, fragment, found, faultless, -⟩ := logged.defines_of_mem member
  exact ⟨fragment, found, Fragment.route_passed faultless⟩

theorem sites (logged : Logged scope before visits after finished log) :
    PostOrder Prod.fst (spreadSites scope.fragments.get?) finished (spreads visits)
      (finished ++ log) := by
  apply logged.walk.congr
  intro entry member
  rcases List.mem_append.mp member with early | new
  · exact .inl early
  · obtain ⟨fragment, found, present, passed⟩ := logged.expandable new
    right
    rw [Scope.spreadsAt, Scope.visitsAt_found found, Fragment.visits_of_passed present passed,
      Waypoint.spreads_visits, spreadSites_found found]

end Logged

/-- A route whose spreads have a post-order can be performed, if every new entry of the order can be
expanded and no entry refers back to itself. -/
theorem PostOrder.completes {finished pending final : List (String × Site)}
    (walk : PostOrder Prod.fst (spreadSites scope.fragments.get?) finished pending final)
    (expandable : ∀ entry ∈ final, entry ∈ finished ∨ scope.Expandable entry)
    (acyclic : ∀ entry ∈ final, ¬Relation.TransGen
      (fun name target => target ∈ references scope.fragments.get? name) entry.1 entry.1)
    (ancestors : Ancestors scope.fragments.get? expanding pending)
    {route : List Waypoint} (spreads : Waypoint.spreads route = pending)
    {before : Progress} (named : before.definitions.keys = finished.map Prod.fst) :
    ∃ after, Completes scope expanding before (route.map Waypoint.visit) after ∧
      after.definitions.keys = final.map Prod.fst := by
  induction walk generalizing expanding route before with
  | done =>
      obtain ⟨after, run, same⟩ := Completes.of_no_spreads spreads before
      exact ⟨after, run, same ▸ named⟩
  | @pass finished entry rest final known later ih =>
      obtain ⟨middle, back, same, others, behind⟩ := Completes.behind_first spreads before
      have present : entry.1 ∈ middle.definitions.keys := by
        rw [same, named]
        exact known
      obtain ⟨after, run, keys⟩ := ih expandable acyclic ancestors.later others (same ▸ named)
      exact ⟨after, behind after (.reuse present run), keys⟩
  | @finish finished entry rest inner final fresh inside later ihInside ihLater =>
      obtain ⟨middle, back, same, others, behind⟩ := Completes.behind_first spreads before
      have kept := later.extends_finished.subset
      have member : entry ∈ final := kept (by simp)
      have absent : entry.1 ∉ middle.definitions.keys := by
        rw [same, named]
        exact fresh
      -- a fragment that is being expanded leads to all that is pending inside of it
      have closed : entry.1 ∉ expanding := fun opened =>
        acyclic entry member (ancestors _ opened _ List.mem_cons_self)
      obtain ⟨fragment, found, present, passed⟩ := (expandable entry member).resolve_left
        fun early => fresh (List.mem_map_of_mem early)
      obtain ⟨deep, ran, deepKeys⟩ := ihInside
        (fun other early => expandable other (kept (List.mem_append_left _ early)))
        (fun other early => acyclic other (kept (List.mem_append_left _ early)))
        ancestors.inside (spreadSites_found found).symm (same ▸ named)
      rw [← Fragment.visits_of_passed present passed] at ran
      have missing : entry.1 ∉ deep.definitions.keys :=
        ran.opened_absent (List.mem_append_right _ List.mem_cons_self) absent
      have renamed : (deep.defined entry.1 fragment.node).definitions.keys =
          (inner ++ [entry]).map Prod.fst := by
        rw [Progress.defined, OrderedMap.keys_insert, if_neg missing, deepKeys, List.map_append]
        rfl
      obtain ⟨after, run, keys⟩ := ihLater
        (fun other there => (expandable other there).imp_left fun early =>
          List.mem_append_left _ (inside.extends_finished.subset early))
        acyclic ancestors.later others renamed
      exact ⟨after, behind after (.expand absent closed found ran run), keys⟩

end GraphRequest
