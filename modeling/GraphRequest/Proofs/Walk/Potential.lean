import GraphRequest.Proofs.Walk.Machine
import Mathlib.Data.List.Nodup
import Mathlib.Data.List.Perm.Subperm

/-!
How much a machine has left to do. A step takes one task apart, and what a fragment consists of leaves
the reserve when the fragment is opened. So the potential falls with every step, whatever the
fragments include.
-/

namespace GraphRequest

mutual

def DeclaredField.weight : DeclaredField → Nat
  | mk attributes nested => attributes.spreads.length + weightAll nested + 1

def DeclaredField.weightAll : List (String × DeclaredField) → Nat
  | [] => 0
  | (_, declared) :: rest => weight declared + weightAll rest

end

def Fragment.weight (fragment : Fragment) : Nat :=
  fragment.includes.length + DeclaredField.weightAll fragment.fields.entries + 1

namespace Task

def weight : Task → Nat
  | field _ _ declared => declared.weight
  | spread _ _ => 1
  | close _ _ => 1

def load : List Task → Nat
  | [] => 0
  | task :: rest => task.weight + load rest

@[simp] theorem load_nil : load [] = 0 := rfl

@[simp] theorem load_cons (task : Task) (rest : List Task) :
    load (task :: rest) = task.weight + load rest := rfl

@[simp] theorem load_append (first second : List Task) :
    load (first ++ second) = load first + load second := by
  induction first with
  | nil => simp
  | cons task rest ih => simp [ih, Nat.add_assoc]

@[simp] theorem load_spreads (site : Site) (names : List String) :
    load (spreads site names) = names.length := by
  induction names with
  | nil => rfl
  | cons name rest ih =>
      rw [List.length_cons, ← ih, Nat.add_comm]
      rfl

@[simp] theorem load_fields (site : Site) (declared : List (String × DeclaredField)) :
    load (fields site declared) = DeclaredField.weightAll declared := by
  induction declared with
  | nil => rfl
  | cons entry rest ih =>
      rw [DeclaredField.weightAll, ← ih]
      rfl

theorem weight_pos (task : Task) : 0 < task.weight := by
  cases task with
  | field site key declared => cases declared; exact Nat.succ_pos _
  | spread | close => exact Nat.one_pos

end Task

theorem Fragment.load_tasks (fragment : Fragment) (site : Site) :
    Task.load (fragment.tasks site) + 1 = fragment.weight := by
  rw [tasks, Task.load_append, Task.load_spreads, Task.load_fields, weight]

namespace Fragments

/-- What the fragments consist of that are not among the names. -/
def reserveOf (taken : List String) : List (String × Fragment) → Nat
  | [] => 0
  | (name, fragment) :: others => (if name ∈ taken then 0 else fragment.weight) + reserveOf taken others

def reserve (fragments : Fragments) (taken : List String) : Nat :=
  reserveOf taken fragments.entries

variable {taken : List String} {entries : List (String × Fragment)} {name : String}
  {fragment : Fragment}

theorem reserveOf_congr {others : List String} (same : ∀ name, name ∈ taken ↔ name ∈ others) :
    reserveOf taken entries = reserveOf others entries := by
  induction entries with
  | nil => rfl
  | cons entry rest ih => simp only [reserveOf, same, ih]

theorem reserveOf_of_absent (absent : name ∉ Entries.keys entries) :
    reserveOf (name :: taken) entries = reserveOf taken entries := by
  induction entries with
  | nil => rfl
  | cons entry rest ih =>
      obtain ⟨key, first⟩ := entry
      obtain ⟨different, later⟩ := not_or.mp (mt List.mem_cons.mpr absent)
      simp only [reserveOf, ih later, List.mem_cons, Ne.symm different, false_or]

theorem reserveOf_cons (distinct : (Entries.keys entries).Nodup)
    (found : Entries.get? entries name = some fragment) (free : name ∉ taken) :
    reserveOf (name :: taken) entries + fragment.weight = reserveOf taken entries := by
  induction entries with
  | nil => cases found
  | cons entry rest ih =>
      obtain ⟨key, first⟩ := entry
      have apart := List.nodup_cons.mp distinct
      rw [Entries.get?] at found
      by_cases same : key = name
      · subst same
        rw [if_pos rfl, Option.some.injEq] at found
        subst found
        rw [reserveOf, reserveOf, reserveOf_of_absent apart.1, if_pos List.mem_cons_self, if_neg free]
        omega
      · rw [if_neg same] at found
        have later := ih apart.2 found
        simp only [reserveOf, List.mem_cons, same, false_or] at later ⊢
        omega

theorem reserve_congr {fragments : Fragments} {others : List String}
    (same : ∀ name, name ∈ taken ↔ name ∈ others) :
    fragments.reserve taken = fragments.reserve others :=
  reserveOf_congr same

theorem reserve_cons {fragments : Fragments} (found : fragments.get? name = some fragment)
    (free : name ∉ taken) :
    fragments.reserve (name :: taken) + fragment.weight = fragments.reserve taken :=
  reserveOf_cons fragments.distinct found free

end Fragments

namespace Machine

open Assembly

/-- What one step can do. -/
inductive Step (scope : Scope) : Machine → Machine → Prop
  /-- a task gives way to smaller ones inside of it, or to none -/
  | inside {progress after opened task rest fault} (inner : List Task)
      (plain : Task.closing [task] = []) (within : Task.closing inner = [])
      (smaller : Task.load inner < task.weight) (same : after.definitions = progress.definitions) :
      Step scope ⟨progress, opened, task :: rest, none⟩ ⟨after, opened, inner ++ rest, fault⟩
  | opens {progress opened name site rest fragment fault}
      (absent : name ∉ progress.definitions.keys) (closed : name ∉ opened)
      (found : scope.fragments.get? name = some fragment) :
      Step scope ⟨progress, opened, .spread name site :: rest, none⟩
        ⟨progress, opened ++ [name], fragment.tasks site ++ .close name fragment :: rest, fault⟩
  | defines {progress opened name fragment rest} :
      Step scope ⟨progress, opened, .close name fragment :: rest, none⟩
        ⟨progress.defined name fragment.node, opened.dropLast, rest, none⟩
  | drops {progress opened task rest cause} (plain : Task.closing [task] = []) :
      Step scope ⟨progress, opened, task :: rest, some cause⟩ ⟨progress, opened, rest, some cause⟩
  | pops {progress opened name fragment rest cause} :
      Step scope ⟨progress, opened, .close name fragment :: rest, some cause⟩
        ⟨progress, opened.dropLast, rest, some cause⟩

variable {scope : Scope} {machine after : Machine}

theorem step_next (pending : machine.tasks ≠ []) : Step scope machine (machine.next scope) := by
  obtain ⟨progress, opened, tasks, fault⟩ := machine
  cases tasks with
  | nil => exact absurd rfl pending
  | cons task rest =>
      cases fault with
      | some cause =>
          cases task with
          | close name fragment => exact .pops
          | field | spread => exact .drops rfl
      | none =>
          cases task with
          | close name fragment => exact .defines
          | field site key declared =>
              obtain ⟨attributes, nested⟩ := declared
              simp only [next, perform]
              cases Expectation.of site key ⟨attributes, nested⟩ with
              | error cause => exact .inside [] rfl rfl (Task.weight_pos _) rfl
              | ok e =>
                  cases checkHead scope.known attributes with
                  | error cause => exact .inside [] rfl rfl (Task.weight_pos _) rfl
                  | ok =>
                      refine .inside _ rfl (by simp [Task.closing_append]) ?_ rfl
                      rw [Task.load_append, Task.load_spreads, Task.load_fields, Task.weight,
                        DeclaredField.weight]
                      exact Nat.lt_succ_self _
          | spread name site =>
              simp only [next, perform]
              split
              · exact .inside [] rfl rfl Nat.one_pos rfl
              · next absent =>
                  split
                  · exact .inside [] rfl rfl Nat.one_pos rfl
                  · next closed =>
                      split
                      · exact .inside [] rfl rfl Nat.one_pos rfl
                      · next fragment found => exact .opens absent closed found

/-- The stack holds the fragments whose ends are still to come; these are registered and not yet
defined. -/
structure Nested (scope : Scope) (machine : Machine) : Prop where
  stack : machine.opened = (Task.closing machine.tasks).reverse
  distinct : machine.opened.Nodup
  registered : ∀ name ∈ machine.opened, name ∈ scope.fragments.keys
  incomplete : ∀ name ∈ machine.opened, name ∉ machine.progress.definitions.keys

namespace Nested

theorem closing_cons (task : Task) (rest : List Task) :
    Task.closing (task :: rest) = Task.closing [task] ++ Task.closing rest :=
  Task.closing_append [task] rest

theorem top {progress : Progress} {opened : List String} {name : String} {fragment : Fragment}
    {rest : List Task} {fault : Option RequestError}
    (nested : Nested scope ⟨progress, opened, .close name fragment :: rest, fault⟩) :
    opened = (Task.closing rest).reverse ++ [name] ∧ opened.dropLast = (Task.closing rest).reverse := by
  have stack : opened = (name :: Task.closing rest).reverse := nested.stack
  rw [List.reverse_cons] at stack
  rw [stack, List.dropLast_concat]
  exact ⟨rfl, rfl⟩

theorem step (nested : Nested scope machine) (step : Step scope machine after) :
    Nested scope after := by
  cases step with
  | inside inner plain within smaller same =>
      have stack := nested.stack
      simp only [closing_cons, plain, List.nil_append] at stack
      refine ⟨?_, nested.distinct, nested.registered, ?_⟩
      · simp only [Task.closing_append, within, List.nil_append, stack]
      · rw [same]
        exact nested.incomplete
  | @opens progress opened name site rest fragment fault absent closed found =>
      have stack : opened = (Task.closing rest).reverse := nested.stack
      refine ⟨?_, ?_, ?_, ?_⟩
      · simp only [Task.closing_append, Fragment.closing_tasks, List.nil_append, Task.closing,
          List.reverse_cons, stack]
      · refine List.nodup_append.mpr ⟨nested.distinct, List.nodup_singleton name, ?_⟩
        intro other early last member same
        exact closed (List.mem_singleton.mp member ▸ same ▸ early)
      · exact List.forall_mem_append.mpr
          ⟨nested.registered, List.forall_mem_singleton.mpr (mem_keys_of_get? found)⟩
      · exact List.forall_mem_append.mpr ⟨nested.incomplete, List.forall_mem_singleton.mpr absent⟩
  | @defines progress opened name fragment rest =>
      obtain ⟨split, popped⟩ := nested.top
      have distinct := nested.distinct
      have registered := nested.registered
      have incomplete := nested.incomplete
      simp only [split, List.forall_mem_append] at distinct registered incomplete
      refine ⟨popped, ?_, ?_, ?_⟩
      · rw [popped]
        exact (List.nodup_append.mp distinct).1
      · rw [popped]
        exact registered.1
      · rw [popped]
        intro other member
        -- what is popped lies once on the stack, so what it defines is not below it
        have different : other ≠ name :=
          (List.nodup_append.mp distinct).2.2 other member name List.mem_cons_self
        rw [Progress.defined, OrderedMap.keys_insert, if_neg (incomplete.2 name List.mem_cons_self),
          List.mem_append, List.mem_singleton]
        exact fun present => present.elim (incomplete.1 other member) different
  | drops plain =>
      have stack := nested.stack
      rw [closing_cons, plain] at stack
      exact ⟨stack, nested.distinct, nested.registered, nested.incomplete⟩
  | @pops progress opened name fragment rest cause =>
      obtain ⟨split, popped⟩ := nested.top
      have below : ∀ other ∈ opened.dropLast, other ∈ opened := (List.dropLast_sublist _).subset
      exact ⟨popped, nested.distinct.sublist (List.dropLast_sublist _),
        fun other member => nested.registered other (below other member),
        fun other member => nested.incomplete other (below other member)⟩

theorem next (nested : Nested scope machine) : Nested scope (machine.next scope) := by
  by_cases finished : machine.tasks = []
  · have stays : machine.next scope = machine := run_of_finished finished 1
    rwa [stays]
  · exact nested.step (step_next finished)

theorem run (nested : Nested scope machine) (steps : Nat) : Nested scope (machine.run scope steps) := by
  induction steps with
  | zero => exact nested
  | succ steps ih =>
      rw [run_succ]
      exact ih.next

/-- Fragments are never nested deeper than there are fragments. -/
theorem depth (nested : Nested scope machine) : machine.opened.length ≤ scope.fragments.size := by
  have fits := (nested.distinct.subperm nested.registered).length_le
  rwa [OrderedMap.keys, Entries.keys, List.length_map] at fits

end Nested

def taken (machine : Machine) : List String :=
  machine.opened ++ machine.progress.definitions.keys

/-- After a fault nothing is opened. -/
def potential (scope : Scope) (machine : Machine) : Nat :=
  Task.load machine.tasks +
    match machine.fault with
    | none => scope.fragments.reserve machine.taken
    | some _ => 0

theorem potential_le (progress : Progress) (opened : List String) (tasks : List Task)
    (fault : Option RequestError) :
    potential scope ⟨progress, opened, tasks, fault⟩ ≤
      potential scope ⟨progress, opened, tasks, none⟩ := by
  cases fault with
  | none => exact Nat.le_refl _
  | some cause => exact Nat.le_add_right _ _

theorem potential_step (nested : Nested scope machine) (step : Step scope machine after) :
    after.potential scope < machine.potential scope := by
  cases step with
  | @inside progress after opened task rest fault inner plain within smaller same =>
      apply Nat.lt_of_le_of_lt (potential_le _ _ _ _)
      simp only [potential, taken, same, Task.load_append, Task.load_cons]
      omega
  | @opens progress opened name site rest fragment fault absent closed found =>
      apply Nat.lt_of_le_of_lt (potential_le _ _ _ _)
      have free : name ∉ opened ++ progress.definitions.keys := by
        simp only [List.mem_append, closed, absent, or_self, not_false_iff]
      have moved := Fragments.reserve_cons found free
      have taken : scope.fragments.reserve ((opened ++ [name]) ++ progress.definitions.keys) =
          scope.fragments.reserve (name :: (opened ++ progress.definitions.keys)) :=
        Fragments.reserve_congr fun other => by simp [or_left_comm]
      have whole := fragment.load_tasks site
      simp only [potential, Machine.taken, taken, Task.load_append, Task.load_cons, Task.weight]
      omega
  | @defines progress opened name fragment rest =>
      obtain ⟨split, popped⟩ := nested.top
      have absent := nested.incomplete name (split ▸ List.mem_append_right _ List.mem_cons_self)
      have taken : scope.fragments.reserve (opened.dropLast ++
            (progress.defined name fragment.node).definitions.keys) =
          scope.fragments.reserve (opened ++ progress.definitions.keys) := by
        rw [popped, split, Progress.defined, OrderedMap.keys_insert, if_neg absent]
        exact Fragments.reserve_congr fun other => by
          simp only [List.mem_append, List.mem_singleton]
          grind
      simp only [potential, Machine.taken, taken, Task.load_cons, Task.weight]
      omega
  | @drops progress opened task rest cause plain =>
      have positive := task.weight_pos
      simp only [potential, Task.load_cons]
      omega
  | pops =>
      simp only [potential, Task.load_cons, Task.weight]
      omega

/-- The potential bounds the number of steps. -/
theorem run_finishes (nested : Nested scope machine) {steps : Nat}
    (enough : machine.potential scope ≤ steps) : (machine.run scope steps).tasks = [] := by
  induction steps generalizing machine with
  | zero =>
      by_contra pending
      have falls := potential_step nested (step_next pending)
      omega
  | succ steps ih =>
      by_cases finished : machine.tasks = []
      · rwa [run_of_finished finished]
      · have falls := potential_step nested (step_next finished)
        rw [run, Function.iterate_succ_apply]
        exact ih nested.next (by omega)

end Machine

end GraphRequest
