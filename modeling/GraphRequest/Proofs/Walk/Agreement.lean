import GraphRequest.Proofs.Walk.Completion

/-!
Runs depend on the registered fragments only through the names that they come to. Where two scopes
agree on these names, a run in one of them is a run in the other, with the same faults.
-/

namespace GraphRequest

open Assembly Visit

/-- The scopes provide the same under the names of a pool, and nothing in the pool refers to a name
outside of it. -/
structure Scope.AgreesOn (pool : String → Prop) (scope other : Scope) : Prop where
  known : other.known = scope.known
  lookup : ∀ name, pool name → other.fragments.get? name = scope.fragments.get? name
  closed : ∀ name, pool name → ∀ target ∈ references scope.fragments.get? name, pool target

def Visit.Within (pool : String → Prop) (visits : List Visit) : Prop :=
  ∀ spread ∈ spreads visits, pool spread.1

variable {pool : String → Prop} {scope other : Scope} {expanding : List String}
  {before after : Progress} {visits rest : List Visit}

namespace Visit.Within

theorem later {visit : Visit} (within : Within pool (visit :: rest)) : Within pool rest := by
  intro spread member
  apply within spread
  rw [spreads] at member ⊢
  exact List.mem_filterMap.mpr
    ((List.mem_filterMap.mp member).imp fun _ => And.imp_left (List.mem_cons_of_mem _))

theorem head {name : String} {site : Site} (within : Within pool (.spread name site :: rest)) :
    pool name :=
  within (name, site) (mem_spreads.mpr List.mem_cons_self)

end Visit.Within

theorem Scope.AgreesOn.inside {name : String} {fragment : Fragment}
    (agrees : scope.AgreesOn pool other) (pooled : pool name)
    (found : scope.fragments.get? name = some fragment) (site : Site) :
    Within pool (fragment.visits scope.known site) := by
  intro spread member
  apply agrees.closed name pooled
  rw [references, found]
  exact fragment.visits_references _ _ spread member

theorem Completes.transfer (run : Completes scope expanding before visits after)
    (agrees : scope.AgreesOn pool other) (within : Within pool visits) :
    Completes other expanding before visits after := by
  induction run with
  | done => exact .done
  | meet _ ih => exact .meet (ih within.later)
  | reuse present _ ih => exact .reuse present (ih within.later)
  | expand absent closed found _ _ ihInside ihLater =>
      have inside := ihInside (agrees.inside within.head found _)
      rw [← agrees.known] at inside
      exact .expand absent closed ((agrees.lookup _ within.head).trans found) inside
        (ihLater within.later)

theorem Stops.transfer {cause : RequestError} (run : Stops scope expanding before visits cause after)
    (agrees : scope.AgreesOn pool other) (within : Within pool visits) :
    Stops other expanding before visits cause after := by
  induction run with
  | fault => exact .fault
  | meet _ ih => exact .meet (ih within.later)
  | reuse present _ ih => exact .reuse present (ih within.later)
  | recur absent opened => exact .recur absent opened
  | unknown absent closed missing =>
      exact .unknown absent closed ((agrees.lookup _ within.head).trans missing)
  | inside absent closed found _ ih =>
      have deeper := ih (agrees.inside within.head found _)
      rw [← agrees.known] at deeper
      exact .inside absent closed ((agrees.lookup _ within.head).trans found) deeper
  | behind absent closed found inside _ ih =>
      have completed := inside.transfer agrees (agrees.inside within.head found _)
      rw [← agrees.known] at completed
      exact .behind absent closed ((agrees.lookup _ within.head).trans found) completed
        (ih within.later)

/-- Scopes that agree on all that can be reached cannot be told apart. -/
theorem performAll_transfer (agrees : scope.AgreesOn pool other) (within : Within pool visits) :
    performAll (expandFragment other expanding) visits before =
      performAll (expandFragment scope expanding) visits before := by
  have follows := performAll_follows scope expanding before visits
  cases ran : performAll (expandFragment scope expanding) visits before with
  | ok _ final =>
      rw [ran] at follows
      exact (Completes.transfer follows agrees within).performAll
  | error cause final =>
      rw [ran] at follows
      exact (Stops.transfer follows agrees within).performAll

end GraphRequest
