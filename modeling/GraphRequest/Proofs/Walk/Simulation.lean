import GraphRequest.Proofs.Walk.Potential

/-!
The machine does what the recursion does. Where it comes to the end of some tasks, or past them after
a fault, its stack is the one from before these tasks.
-/

namespace GraphRequest

open Assembly

def Machine.behind (expanding : List String) (rest : List Task) :
    EStateM.Result RequestError Progress Unit → Machine
  | .ok _ progress => ⟨progress, expanding, rest, none⟩
  | .error cause progress => ⟨progress, expanding, rest, some cause⟩

namespace Machine.Leads

variable {scope : Scope} {expanding : List String} {before middle : Progress}
  {tasks rest : List Task} {cause : RequestError} {name : String} {site : Site}
  {fragment : Fragment} {final : Machine}

theorem dropped (plain : Task.closing tasks = []) :
    Leads scope ⟨before, expanding, tasks ++ rest, some cause⟩
      ⟨before, expanding, rest, some cause⟩ := by
  induction tasks with
  | nil => exact .refl _
  | cons task others ih =>
      cases task with
      | close name fragment => cases plain
      | field | spread => exact .head rfl (ih plain)

theorem stopped (plain : Task.closing tasks = []) {machine : Machine}
    (step : machine.next scope = ⟨before, expanding, tasks ++ rest, some cause⟩) :
    Leads scope machine (behind expanding rest (.error cause before)) :=
  .head step (.dropped plain)

/-- A fragment is popped at its end, whether it could be performed or not. -/
theorem popped {result : EStateM.Result RequestError Progress Unit}
    (later : ∀ middle, result = .ok () middle → Leads scope
      ⟨middle.defined name fragment.node, expanding, rest, none⟩ final)
    (faulted : ∀ cause after, result = .error cause after → Leads scope
      ⟨after, expanding, rest, some cause⟩ final) :
    Leads scope (behind (expanding ++ [name]) (.close name fragment :: rest) result) final := by
  cases result with
  | ok _ middle =>
      apply head _ (later middle rfl)
      simp only [behind, next, perform, List.dropLast_concat]
  | error cause after =>
      apply head _ (faulted cause after rfl)
      simp only [behind, next, drop, List.dropLast_concat]

end Machine.Leads

namespace Machine

variable {scope : Scope} {expanding : List String} {before : Progress} {others rest : List Task}

def Performs (scope : Scope) (expanding : List String) (before : Progress)
    (tasks rest : List Task) : Prop :=
  Leads scope ⟨before, expanding, tasks ++ rest, none⟩
    (behind expanding rest (Visit.performAll (expandFragment scope expanding)
      (Task.allVisits scope.known tasks) before))

theorem next_field (site : Site) (key : String) (attributes : FieldAttributes)
    (nested : List (String × DeclaredField)) :
    next scope ⟨before, expanding, .field site key ⟨attributes, nested⟩ :: rest, none⟩ =
      match Expectation.of site key ⟨attributes, nested⟩ with
      | .error cause => ⟨before, expanding, rest, some cause⟩
      | .ok e =>
          match checkHead scope.known attributes with
          | .error cause => ⟨before.metWith e, expanding, rest, some cause⟩
          | .ok _ => ⟨before.metWith e, expanding,
              (Task.spreads e.inner attributes.spreads ++ Task.fields e.inner nested) ++ rest, none⟩ :=
  rfl

theorem next_spread (name : String) (site : Site) :
    next scope ⟨before, expanding, .spread name site :: rest, none⟩ =
      if name ∈ before.definitions.keys then ⟨before, expanding, rest, none⟩
      else if name ∈ expanding then ⟨before, expanding, rest, some (recurrence expanding name)⟩
      else
        match scope.fragments.get? name with
        | none => ⟨before, expanding, rest, some (.unknownFragment name)⟩
        | some fragment => ⟨before, expanding ++ [name],
            fragment.tasks site ++ .close name fragment :: rest,
            if fragment.isEmpty then some (.nothingSelected fragment.name) else none⟩ :=
  rfl

theorem performAll_field_run (expander : Expander) (known : Variables) (site : Site) (key : String)
    (attributes : FieldAttributes) (nested : List (String × DeclaredField)) :
    Visit.performAll expander
        (Task.allVisits known (.field site key ⟨attributes, nested⟩ :: others)) before =
      match Expectation.of site key ⟨attributes, nested⟩ with
      | .error cause => .error cause before
      | .ok e =>
          match checkHead known attributes with
          | .error cause => .error cause (before.metWith e)
          | .ok _ => Visit.performAll expander
              (Task.allVisits known ((Task.spreads e.inner attributes.spreads ++
                Task.fields e.inner nested) ++ others)) (before.metWith e) := by
  rw [Task.allVisits, List.flatMap_cons, Task.visits, fieldVisits]
  cases Expectation.of site key ⟨attributes, nested⟩ with
  | error cause => rfl
  | ok e =>
      cases checkHead known attributes with
      | error cause => rfl
      | ok =>
          simp only [Task.allVisits_append, Task.allVisits_spreads, Task.allVisits_fields]
          rfl

theorem performs_field {site : Site} {key : String} {attributes : FieldAttributes}
    {nested : List (String × DeclaredField)} (plain : Task.closing others = [])
    (inside : ∀ e : Expectation, Performs scope expanding (before.metWith e)
      ((Task.spreads e.inner attributes.spreads ++ Task.fields e.inner nested) ++ others) rest) :
    Performs scope expanding before (.field site key ⟨attributes, nested⟩ :: others) rest := by
  have step := @next_field scope expanding before (others ++ rest) site key attributes nested
  rw [Performs, performAll_field_run]
  cases accepted : Expectation.of site key ⟨attributes, nested⟩ with
  | error cause =>
      rw [accepted] at step
      exact .stopped plain step
  | ok e =>
      rw [accepted] at step
      dsimp only at step ⊢
      cases checked : checkHead scope.known attributes with
      | error cause =>
          rw [checked] at step
          exact .stopped plain step
      | ok =>
          rw [checked] at step
          dsimp only at step ⊢
          rw [← List.append_assoc] at step
          exact .head step (inside e)

theorem performs_inside {fragment : Fragment} {site : Site}
    (deeper : fragment.isEmpty = false →
      Performs scope expanding before (fragment.tasks site) rest) :
    Leads scope ⟨before, expanding, fragment.tasks site ++ rest,
        if fragment.isEmpty then some (.nothingSelected fragment.name) else none⟩
      (behind expanding rest (Visit.performAll (expandFragment scope expanding)
        (fragment.visits scope.known site) before)) := by
  cases something : fragment.isEmpty with
  | true =>
      rw [Fragment.tasks_of_isEmpty something, Fragment.visits, something]
      exact .refl _
  | false =>
      rw [← Fragment.allVisits_tasks something]
      exact deeper something

theorem performs_spread {name : String} {site : Site} (plain : Task.closing others = [])
    (deeper : name ∉ expanding → ∀ fragment, scope.fragments.get? name = some fragment →
      Performs scope (expanding ++ [name]) before (fragment.tasks site)
        (.close name fragment :: (others ++ rest)))
    (later : ∀ middle, Performs scope expanding middle others rest) :
    Performs scope expanding before (.spread name site :: others) rest := by
  have step := @next_spread scope expanding before (others ++ rest) name site
  rw [Performs, Task.allVisits, List.flatMap_cons, Task.visits, List.singleton_append,
    performAll_cons_run, Visit.perform]
  by_cases present : name ∈ before.definitions.keys
  · rw [if_pos present] at step
    rw [expandFragment_present_run present]
    exact .head step (later before)
  · rw [if_neg present] at step
    rw [expandFragment_absent_run present]
    by_cases again : name ∈ expanding
    · rw [if_pos again] at step ⊢
      exact .stopped plain step
    · rw [if_neg again] at step ⊢
      cases found : scope.fragments.get? name with
      | none =>
          rw [found] at step
          exact .stopped plain step
      | some fragment =>
          rw [found] at step
          dsimp only at step ⊢
          refine .head step (.trans (performs_inside fun _ => deeper again fragment found) ?_)
          apply Leads.popped
          · intro middle completed
            rw [completed]
            exact later _
          · intro cause after stopped
            rw [stopped]
            exact .dropped plain

end Machine

open Machine in
/-- The machine performs all tasks that end no fragment. -/
theorem performs_tasks (scope : Scope) (expanding : List String) (before : Progress)
    (tasks rest : List Task) (plain : Task.closing tasks = []) :
    Performs scope expanding before tasks rest := by
  induction measured : Task.load tasks + scope.fragments.reserve expanding using Nat.strongRecOn
    generalizing expanding before tasks rest with
  | ind size smaller =>
      subst measured
      cases tasks with
      | nil => exact .refl _
      | cons task others =>
          cases task with
          | close name fragment => cases plain
          | field site key declared =>
              obtain ⟨attributes, nested⟩ := declared
              refine performs_field plain fun e => smaller _ ?_ _ _ _ _ ?_ rfl
              · simp only [Task.load_append, Task.load_cons, Task.load_spreads, Task.load_fields,
                  Task.weight, DeclaredField.weight]
                omega
              · rw [Task.closing_append, Task.closing_append, Task.closing_spreads,
                  Task.closing_fields]
                exact plain
          | spread name site =>
              refine performs_spread plain (fun closed fragment found => ?_) fun middle => ?_
              · have moved := Fragments.reserve_cons found closed
                have opened : scope.fragments.reserve (expanding ++ [name]) =
                    scope.fragments.reserve (name :: expanding) :=
                  Fragments.reserve_congr fun other => by simp [or_comm]
                have whole := fragment.load_tasks site
                refine smaller _ ?_ _ _ _ _ (fragment.closing_tasks site) rfl
                rw [opened]
                omega
              · exact smaller _ (by simp [Task.weight]) _ _ _ _ plain rfl

end GraphRequest
