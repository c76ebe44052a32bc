import GraphRequest.Proofs.Fragment.Cycle
import GraphRequest.Proofs.Walk.Simulation

/-!
Calls that add selections come to an end, however the registered fragments include each other. A call
is performed by a machine, whose stack is bounded by the registered fragments and whose potential
bounds the number of its steps.
-/

namespace GraphRequest

def Machine.starting (assembly : Assembly) (tasks : List Task) : Machine :=
  ⟨{ definitions := assembly.definitions }, assembly.expanding, tasks, none⟩

/-- The machine comes to its end with the stack that it started with, and with the outcome of the
visits that the tasks stand for. -/
theorem Machine.starting_leads (assembly : Assembly) {tasks : List Task}
    (plain : Task.closing tasks = []) :
    ∃ final, Leads assembly.scope (starting assembly tasks) final ∧ final.tasks = [] ∧
      final.opened = assembly.expanding ∧
      Visit.performAll (Assembly.expandFragment assembly.scope assembly.expanding)
          (Task.allVisits assembly.known tasks) { definitions := assembly.definitions } =
        match final.fault with
        | none => .ok () final.progress
        | some cause => .error cause final.progress := by
  have leads := performs_tasks assembly.scope assembly.expanding
    { definitions := assembly.definitions } tasks [] plain
  rw [Performs, List.append_nil] at leads
  change Leads _ (starting assembly tasks) (behind _ _ (Visit.performAll
    (Assembly.expandFragment assembly.scope assembly.expanding)
    (Task.allVisits assembly.known tasks) { definitions := assembly.definitions })) at leads
  cases ran : Visit.performAll (Assembly.expandFragment assembly.scope assembly.expanding)
      (Task.allVisits assembly.known tasks) { definitions := assembly.definitions } with
  | ok _ progress =>
      rw [ran] at leads
      exact ⟨_, leads, rfl, rfl, rfl⟩
  | error cause progress =>
      rw [ran] at leads
      exact ⟨_, leads, rfl, rfl, rfl⟩

namespace SelectionCall

def tasks : SelectionCall → List Task
  | field key declared site => [.field site key declared]
  | spread name path level inherited => [.spread name ⟨path, level + 1, inherited⟩]

def machine (call : SelectionCall) (assembly : Assembly) : Machine :=
  ⟨{ definitions := assembly.definitions }, assembly.expanding, call.tasks, none⟩

/-- What comes of the call where the machine ends. The stack is the one that the machine leaves. -/
def settled (call : SelectionCall) (assembly : Assembly) (machine : Machine) :
    EStateM.Result RequestError Assembly Document.Selection :=
  match machine.fault with
  | none => .ok call.node { assembly.settle machine.progress with expanding := machine.opened }
  | some cause => .error cause { assembly.settle machine.progress with expanding := machine.opened }

theorem closing_tasks (call : SelectionCall) : Task.closing call.tasks = [] := by
  cases call <;> rfl

theorem allVisits_tasks (call : SelectionCall) (known : Variables) :
    Task.allVisits known call.tasks = call.visits known := by
  cases call with
  | field key declared site => exact List.append_nil _
  | spread name path level inherited => rfl

/-- The machine comes to its end with the stack that it started with, and with the outcome of the
call. -/
theorem machine_leads (call : SelectionCall) (assembly : Assembly) :
    ∃ final, Machine.Leads assembly.scope (call.machine assembly) final ∧ final.tasks = [] ∧
      final.opened = assembly.expanding ∧ call.run assembly = call.settled assembly final := by
  obtain ⟨final, leads, finished, stack, ran⟩ := Machine.starting_leads assembly call.closing_tasks
  refine ⟨final, leads, finished, stack, ?_⟩
  rw [call.run_eq, ← call.allVisits_tasks, ran, settled, stack]
  cases final.fault <;> rfl

/-- What holds of the machine at each moment of the call. Where the call goes on, it opens a further
fragment, or one task gives way to less than it consists of. -/
structure Bounded (scope : Scope) (machine : Machine) : Prop where
  distinct : machine.opened.Nodup
  registered : ∀ name ∈ machine.opened, name ∈ scope.fragments.keys
  incomplete : ∀ name ∈ machine.opened, name ∉ machine.progress.definitions.keys
  depth : machine.opened.length ≤ scope.fragments.size
  step : machine.tasks ≠ [] → Machine.Step scope machine (machine.next scope)
  falls : machine.tasks ≠ [] → (machine.next scope).potential scope < machine.potential scope

theorem nested_machine (call : SelectionCall) {assembly : Assembly} (idle : assembly.expanding = []) :
    (call.machine assembly).Nested assembly.scope where
  stack := by
    rw [machine, call.closing_tasks, idle]
    rfl
  distinct := by
    rw [machine, idle]
    exact List.nodup_nil
  registered name member := by
    rw [machine, idle] at member
    cases member
  incomplete name member := by
    rw [machine, idle] at member
    cases member

/-- Every call ends, on any registry. -/
theorem terminates (call : SelectionCall) (assembly : Assembly) (idle : assembly.expanding = []) :
    (∀ steps, Bounded assembly.scope ((call.machine assembly).run assembly.scope steps)) ∧
    ∃ final, (call.machine assembly).run assembly.scope
        ((call.machine assembly).potential assembly.scope) = final ∧
      final.tasks = [] ∧ final.opened = [] ∧ call.run assembly = call.settled assembly final := by
  have start := call.nested_machine idle
  constructor
  · intro steps
    have nested := start.run steps
    exact ⟨nested.distinct, nested.registered, nested.incomplete, nested.depth, Machine.step_next,
      fun pending => Machine.potential_step nested (Machine.step_next pending)⟩
  · obtain ⟨final, leads, finished, stack, ran⟩ := call.machine_leads assembly
    have ended := Machine.run_finishes start (Nat.le_refl _)
    exact ⟨final, leads.final_eq finished ended, finished, stack.trans idle, ran⟩

theorem loopedAssembly_terminates :
    loopedAssembly.expanding = [] ∧
    ((spread "A" .root 0 none).machine loopedAssembly).potential loopedAssembly.scope = 6 ∧
    (((spread "A" .root 0 none).machine loopedAssembly).run loopedAssembly.scope 3).opened =
      ["A", "B"] ∧
    (∀ steps, Bounded loopedAssembly.scope
      (((spread "A" .root 0 none).machine loopedAssembly).run loopedAssembly.scope steps)) ∧
    ∃ final, ((spread "A" .root 0 none).machine loopedAssembly).run loopedAssembly.scope 6 = final ∧
      final.tasks = [] ∧ final.opened = [] ∧
      (spread "A" .root 0 none).run loopedAssembly =
        (spread "A" .root 0 none).settled loopedAssembly final := by
  have bound : ((spread "A" .root 0 none).machine loopedAssembly).potential
      loopedAssembly.scope = 6 := by
    decide +kernel
  obtain ⟨bounded, ends⟩ := terminates (spread "A" .root 0 none) loopedAssembly rfl
  rw [bound] at ends
  exact ⟨rfl, bound, by decide +kernel, bounded, ends⟩

end SelectionCall

end GraphRequest
