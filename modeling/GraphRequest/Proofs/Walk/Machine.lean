import GraphRequest.Proofs.Walk.Run
import Mathlib.Logic.Function.Iterate

/-!
The walk as a machine that goes on by single steps. The recursion hands the fragments that are being
expanded down to nested calls; the machine keeps them on one stack instead. It pushes a fragment
before the first of its tasks and pops it behind the last one, also after a fault.
-/

namespace GraphRequest

open Assembly

inductive Task
  | field (site : Site) (key : String) (declared : DeclaredField)
  | spread (name : String) (site : Site)
  /-- the end of the fragment that was opened last -/
  | close (name : String) (fragment : Fragment)

namespace Task

def fields (site : Site) (declared : List (String × DeclaredField)) : List Task :=
  declared.map fun entry => .field site entry.1 entry.2

def spreads (site : Site) (names : List String) : List Task :=
  names.map (.spread · site)

def visits (known : Variables) : Task → List Visit
  | field site key declared => fieldVisits known site key declared
  | spread name site => [.spread name site]
  | close _ _ => []

def allVisits (known : Variables) (tasks : List Task) : List Visit :=
  tasks.flatMap (visits known)

def closing : List Task → List String
  | [] => []
  | close name _ :: rest => name :: closing rest
  | field _ _ _ :: rest => closing rest
  | spread _ _ :: rest => closing rest

section Lists

variable {known : Variables} {site : Site}

theorem allVisits_append (first second : List Task) :
    allVisits known (first ++ second) = allVisits known first ++ allVisits known second :=
  List.flatMap_append

theorem allVisits_fields (declared : List (String × DeclaredField)) :
    allVisits known (fields site declared) = fieldsVisits known site declared := by
  induction declared with
  | nil => rfl
  | cons entry rest ih =>
      rw [fieldsVisits, ← ih]
      rfl

theorem allVisits_spreads (names : List String) :
    allVisits known (spreads site names) = names.map (.spread · site) := by
  induction names with
  | nil => rfl
  | cons name rest ih =>
      rw [List.map_cons, ← ih]
      rfl

theorem closing_append (first second : List Task) :
    closing (first ++ second) = closing first ++ closing second := by
  induction first with
  | nil => rfl
  | cons task rest ih =>
      cases task with
      | close name fragment => exact congrArg (name :: ·) ih
      | field | spread => exact ih

@[simp] theorem closing_fields (declared : List (String × DeclaredField)) :
    closing (fields site declared) = [] := by
  induction declared with
  | nil => rfl
  | cons entry rest ih => exact ih

@[simp] theorem closing_spreads (names : List String) : closing (spreads site names) = [] := by
  induction names with
  | nil => rfl
  | cons name rest ih => exact ih

end Lists

end Task

def Fragment.tasks (fragment : Fragment) (site : Site) : List Task :=
  Task.spreads site fragment.includes ++ Task.fields site fragment.fields.entries

@[simp] theorem Fragment.closing_tasks (fragment : Fragment) (site : Site) :
    Task.closing (fragment.tasks site) = [] := by
  simp [tasks, Task.closing_append]

theorem Fragment.tasks_of_isEmpty {fragment : Fragment} (nothing : fragment.isEmpty) (site : Site) :
    fragment.tasks site = [] := by
  simp only [isEmpty, OrderedMap.isEmpty, Bool.and_eq_true, List.isEmpty_iff] at nothing
  rw [tasks, nothing.2, nothing.1.2]
  rfl

theorem Fragment.allVisits_tasks {fragment : Fragment} (something : fragment.isEmpty = false)
    (known : Variables) (site : Site) :
    Task.allVisits known (fragment.tasks site) = fragment.visits known site := by
  rw [tasks, Task.allVisits_append, Task.allVisits_spreads, Task.allVisits_fields, visits, something,
    if_neg Bool.false_ne_true]

structure Machine where
  progress : Progress
  /-- the fragments that are being expanded, the outermost first -/
  opened : List String
  tasks : List Task
  fault : Option RequestError := none

namespace Machine

def fail (machine : Machine) (cause : RequestError) : Machine :=
  { machine with fault := some cause }

def perform (scope : Scope) (machine : Machine) : Task → Machine
  | .field site key (.mk attributes nested) =>
      match Expectation.of site key ⟨attributes, nested⟩ with
      | .error cause => machine.fail cause
      | .ok e =>
          let met := { machine with progress := machine.progress.metWith e }
          match checkHead scope.known attributes with
          | .error cause => met.fail cause
          | .ok _ => { met with
              tasks := (Task.spreads e.inner attributes.spreads ++ Task.fields e.inner nested) ++
                machine.tasks }
  | .spread name site =>
      if name ∈ machine.progress.definitions.keys then machine
      else if name ∈ machine.opened then machine.fail (recurrence machine.opened name)
      else
        match scope.fragments.get? name with
        | none => machine.fail (.unknownFragment name)
        | some fragment => { machine with
            opened := machine.opened ++ [name]
            tasks := fragment.tasks site ++ .close name fragment :: machine.tasks
            fault := if fragment.isEmpty then some (.nothingSelected fragment.name) else none }
  | .close name fragment => { machine with
      progress := machine.progress.defined name fragment.node
      opened := machine.opened.dropLast }

/-- After a fault tasks are dropped, and a fragment that ends is popped without a definition. -/
def drop (machine : Machine) : Task → Machine
  | .close _ _ => { machine with opened := machine.opened.dropLast }
  | .field _ _ _ => machine
  | .spread _ _ => machine

def next (scope : Scope) (machine : Machine) : Machine :=
  match machine.tasks, machine.fault with
  | [], _ => machine
  | task :: rest, none => perform scope { machine with tasks := rest } task
  | task :: rest, some _ => drop { machine with tasks := rest } task

def run (scope : Scope) (steps : Nat) : Machine → Machine :=
  (next scope)^[steps]

variable {scope : Scope}

theorem run_succ (steps : Nat) (machine : Machine) :
    machine.run scope (steps + 1) = (machine.run scope steps).next scope :=
  Function.iterate_succ_apply' _ _ _

theorem run_of_finished {machine : Machine} (finished : machine.tasks = []) (steps : Nat) :
    machine.run scope steps = machine := by
  apply Function.iterate_fixed
  rw [next, finished]

def Leads (scope : Scope) (machine final : Machine) : Prop :=
  ∃ steps, machine.run scope steps = final

namespace Leads

variable {machine middle final : Machine}

theorem refl (machine : Machine) : Leads scope machine machine :=
  ⟨0, rfl⟩

theorem head (step : machine.next scope = middle) (later : Leads scope middle final) :
    Leads scope machine final := by
  obtain ⟨steps, ran⟩ := later
  exact ⟨steps + 1, by rw [run, Function.iterate_succ_apply, step]; exact ran⟩

theorem trans (first : Leads scope machine middle) (second : Leads scope middle final) :
    Leads scope machine final := by
  obtain ⟨steps, rfl⟩ := first
  obtain ⟨more, rfl⟩ := second
  exact ⟨more + steps, Function.iterate_add_apply _ more steps machine⟩

theorem final_eq (leads : Leads scope machine final) (finished : final.tasks = []) {steps : Nat}
    (ended : (machine.run scope steps).tasks = []) : machine.run scope steps = final := by
  obtain ⟨others, rfl⟩ := leads
  calc machine.run scope steps
      = (machine.run scope steps).run scope others := (run_of_finished ended others).symm
    _ = machine.run scope (others + steps) := (Function.iterate_add_apply _ _ _ _).symm
    _ = machine.run scope (steps + others) := by rw [Nat.add_comm]
    _ = (machine.run scope others).run scope steps := Function.iterate_add_apply _ _ _ _
    _ = machine.run scope others := run_of_finished finished steps

end Leads

end Machine

end GraphRequest
