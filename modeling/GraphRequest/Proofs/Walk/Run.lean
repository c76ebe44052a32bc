import GraphRequest.Proofs.Walk.Visit

/-!
Runs of a list of visits, with one rule for each thing that can happen. `Completes` holds of the
runs that perform every visit and `Stops` of those that end with a fault; what the assembly does is
always one of the two.
-/

namespace GraphRequest

namespace Progress

def metWith (progress : Progress) (e : Expectation) : Progress :=
  { progress with met := progress.met ++ [e] }

def defined (progress : Progress) (name : String) (definition : Document.Fragment) : Progress :=
  { progress with definitions := progress.definitions.insert name definition }

end Progress

/-- All visits are performed, inside of the fragments `expanding`. -/
inductive Completes (scope : Scope) : List String → Progress → List Visit → Progress → Prop
  | done {expanding before} : Completes scope expanding before [] before
  | meet {expanding before e rest after}
      (later : Completes scope expanding (before.metWith e) rest after) :
      Completes scope expanding before (.meet e :: rest) after
  /-- the definition is there -/
  | reuse {expanding before name site rest after} (present : name ∈ before.definitions.keys)
      (later : Completes scope expanding before rest after) :
      Completes scope expanding before (.spread name site :: rest) after
  | expand {expanding before name site rest fragment middle after}
      (absent : name ∉ before.definitions.keys) (closed : name ∉ expanding)
      (found : scope.fragments.get? name = some fragment)
      (inside : Completes scope (expanding ++ [name]) before (fragment.visits scope.known site)
        middle)
      (later : Completes scope expanding (middle.defined name fragment.node) rest after) :
      Completes scope expanding before (.spread name site :: rest) after

/-- One visit fails; those before it have been performed. -/
inductive Stops (scope : Scope) :
    List String → Progress → List Visit → RequestError → Progress → Prop
  | fault {expanding before cause rest} :
      Stops scope expanding before (.fault cause :: rest) cause before
  | meet {expanding before e rest cause after}
      (later : Stops scope expanding (before.metWith e) rest cause after) :
      Stops scope expanding before (.meet e :: rest) cause after
  | reuse {expanding before name site rest cause after}
      (present : name ∈ before.definitions.keys)
      (later : Stops scope expanding before rest cause after) :
      Stops scope expanding before (.spread name site :: rest) cause after
  | recur {expanding before name site rest} (absent : name ∉ before.definitions.keys)
      (opened : name ∈ expanding) :
      Stops scope expanding before (.spread name site :: rest)
        (Assembly.recurrence expanding name) before
  | unknown {expanding before name site rest} (absent : name ∉ before.definitions.keys)
      (closed : name ∉ expanding) (missing : scope.fragments.get? name = none) :
      Stops scope expanding before (.spread name site :: rest) (.unknownFragment name) before
  /-- the fault lies inside of the fragment -/
  | inside {expanding before name site rest fragment cause after}
      (absent : name ∉ before.definitions.keys) (closed : name ∉ expanding)
      (found : scope.fragments.get? name = some fragment)
      (within : Stops scope (expanding ++ [name]) before (fragment.visits scope.known site)
        cause after) :
      Stops scope expanding before (.spread name site :: rest) cause after
  /-- the fault lies behind a fragment that was expanded -/
  | behind {expanding before name site rest fragment middle cause after}
      (absent : name ∉ before.definitions.keys) (closed : name ∉ expanding)
      (found : scope.fragments.get? name = some fragment)
      (inside : Completes scope (expanding ++ [name]) before (fragment.visits scope.known site)
        middle)
      (later : Stops scope expanding (middle.defined name fragment.node) rest cause after) :
      Stops scope expanding before (.spread name site :: rest) cause after

def Follows (scope : Scope) (expanding : List String) (before : Progress) (visits : List Visit) :
    EStateM.Result RequestError Progress Unit → Prop
  | .ok _ after => Completes scope expanding before visits after
  | .error cause after => Stops scope expanding before visits cause after

open Assembly

variable {scope : Scope} {expanding : List String} {before middle after : Progress}
  {visits rest : List Visit} {name : String} {site : Site} {fragment : Fragment}
  {e : Expectation} {cause : RequestError}

namespace Follows

variable {result : EStateM.Result RequestError Progress Unit}

theorem meet (later : Follows scope expanding (before.metWith e) rest result) :
    Follows scope expanding before (.meet e :: rest) result := by
  cases result with
  | ok _ after => exact Completes.meet later
  | error cause after => exact Stops.meet later

theorem reuse (present : name ∈ before.definitions.keys)
    (later : Follows scope expanding before rest result) :
    Follows scope expanding before (.spread name site :: rest) result := by
  cases result with
  | ok _ after => exact Completes.reuse present later
  | error cause after => exact Stops.reuse present later

theorem behind (absent : name ∉ before.definitions.keys) (closed : name ∉ expanding)
    (found : scope.fragments.get? name = some fragment)
    (inside : Completes scope (expanding ++ [name]) before (fragment.visits scope.known site)
      middle)
    (later : Follows scope expanding (middle.defined name fragment.node) rest result) :
    Follows scope expanding before (.spread name site :: rest) result := by
  cases result with
  | ok _ after => exact Completes.expand absent closed found inside later
  | error cause after => exact Stops.behind absent closed found inside later

end Follows

theorem performAll_cons_run (expander : Expander) (visit : Visit) :
    Visit.performAll expander (visit :: rest) before =
      match visit.perform expander before with
      | .ok _ middle => Visit.performAll expander rest middle
      | .error cause after => .error cause after := by
  rw [Visit.performAll, bind_run]
  cases visit.perform expander before <;> rfl

theorem expandFragment_present_run (present : name ∈ before.definitions.keys) :
    expandFragment scope expanding name site before = .ok () before := by
  rw [expandFragment_run, if_pos ((OrderedMap.contains_iff _ _).mpr present)]

theorem expandFragment_absent_run (absent : name ∉ before.definitions.keys) :
    expandFragment scope expanding name site before =
      if name ∈ expanding then .error (recurrence expanding name) before
      else
        match scope.fragments.get? name with
        | none => .error (.unknownFragment name) before
        | some fragment =>
            match Visit.performAll (expandFragment scope (expanding ++ [name]))
                (fragment.visits scope.known site) before with
            | .ok _ middle => .ok () (middle.defined name fragment.node)
            | .error cause after => .error cause after := by
  have missing : ¬before.definitions.contains name = true := by rwa [OrderedMap.contains_iff]
  rw [expandFragment_run, if_neg missing]
  cases scope.fragments.get? name with
  | none => rfl
  | some fragment =>
      dsimp only
      rw [Fragment.defineFragment_eq_performAll, bind_run]
      cases Visit.performAll (expandFragment scope (expanding ++ [name]))
        (fragment.visits scope.known site) before <;> rfl

theorem spread_follows
    (deeper : name ∉ expanding → ∀ fragment, scope.fragments.get? name = some fragment →
      Follows scope (expanding ++ [name]) before (fragment.visits scope.known site)
        (Visit.performAll (expandFragment scope (expanding ++ [name]))
          (fragment.visits scope.known site) before))
    (later : ∀ middle, Follows scope expanding middle rest
      (Visit.performAll (expandFragment scope expanding) rest middle)) :
    Follows scope expanding before (.spread name site :: rest)
      (Visit.performAll (expandFragment scope expanding) (.spread name site :: rest) before) := by
  rw [performAll_cons_run, Visit.perform]
  by_cases present : name ∈ before.definitions.keys
  · rw [expandFragment_present_run present]
    exact .reuse present (later before)
  · rw [expandFragment_absent_run present]
    by_cases opened : name ∈ expanding
    · rw [if_pos opened]
      exact Stops.recur present opened
    · rw [if_neg opened]
      cases found : scope.fragments.get? name with
      | none => exact Stops.unknown present opened found
      | some fragment =>
          have within := deeper opened fragment found
          dsimp only
          cases ran : Visit.performAll (expandFragment scope (expanding ++ [name]))
              (fragment.visits scope.known site) before with
          | error cause after =>
              rw [ran] at within
              exact Stops.inside present opened found within
          | ok _ middle =>
              rw [ran] at within
              exact .behind present opened found within (later _)

theorem performAll_follows (scope : Scope) (expanding : List String) (before : Progress)
    (visits : List Visit) :
    Follows scope expanding before visits
      (Visit.performAll (expandFragment scope expanding) visits before) := by
  induction measured : (unopened scope.fragments expanding).length using Nat.strongRecOn
    generalizing expanding before visits with
  | ind size deeper =>
      subst measured
      induction visits generalizing before with
      | nil => exact Completes.done
      | cons visit rest ih =>
          cases visit with
          | fault cause => exact Stops.fault
          | meet e =>
              rw [performAll_cons_run, Visit.perform, Progress.meet_run]
              exact .meet (ih _)
          | spread name site =>
              refine spread_follows (fun closed fragment found => ?_) ih
              exact deeper _ (unopened_lt closed (mem_keys_of_get? found)) _ _ _ rfl

theorem completes_of_performAll
    (performed : Visit.performAll (expandFragment scope expanding) visits before = .ok () after) :
    Completes scope expanding before visits after := by
  have follows := performAll_follows scope expanding before visits
  rwa [performed] at follows

theorem stops_of_performAll
    (performed : Visit.performAll (expandFragment scope expanding) visits before =
      .error cause after) :
    Stops scope expanding before visits cause after := by
  have follows := performAll_follows scope expanding before visits
  rwa [performed] at follows

end GraphRequest
