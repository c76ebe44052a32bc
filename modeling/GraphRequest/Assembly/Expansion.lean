import GraphRequest.Assembly.Selection

/-!
Expanding fragments. A fragment is expanded at its first spread only, and never inside itself: the
registered fragments that are not being expanded become fewer with every nested expansion.
-/

namespace GraphRequest

structure Scope where
  known : Variables
  fragments : Fragments

namespace Assembly

def recurrence (expanding : List String) (name : String) : RequestError :=
  match expanding.dropWhile (· ≠ name) with
  | [_] => .selfInclusion name
  | cycle => .cyclicFragments (cycle ++ [name])

def unopened (fragments : Fragments) (expanding : List String) : List String :=
  fragments.keys.filter (· ∉ expanding)

theorem mem_keys_of_get? {fragments : Fragments} {name : String} {fragment : Fragment}
    (found : fragments.get? name = some fragment) : name ∈ fragments.keys :=
  (fragments.contains_iff name).mp (by simp [OrderedMap.contains, found])

theorem unopened_append (fragments : Fragments) (expanding : List String) (name : String) :
    unopened fragments (expanding ++ [name]) = (unopened fragments expanding).filter (· ≠ name) := by
  simp only [unopened, List.filter_filter]
  congr 1
  funext key
  by_cases same : key = name <;> by_cases opened : key ∈ expanding <;> simp [same, opened]

theorem unopened_lt {fragments : Fragments} {expanding : List String} {name : String}
    (closed : name ∉ expanding) (present : name ∈ fragments.keys) :
    (unopened fragments (expanding ++ [name])).length < (unopened fragments expanding).length := by
  rw [unopened_append]
  exact List.length_filter_lt_length_iff_exists.mpr
    ⟨name, by simp [unopened, closed, present], by simp⟩

def expandFragment (scope : Scope) (expanding : List String) : Expander := fun name site => do
  if ← Progress.isDefined name then return
  if closed : name ∈ expanding then throw (recurrence expanding name)
  else
    match found : scope.fragments.get? name with
    | none => throw (.unknownFragment name)
    | some fragment =>
        have := unopened_lt closed (mem_keys_of_get? found)
        defineFragment scope.known (expandFragment scope (expanding ++ [name])) name fragment site
termination_by (unopened scope.fragments expanding).length

theorem expandFragment_run (scope : Scope) (expanding : List String) (name : String) (site : Site)
    (progress : Progress) :
    expandFragment scope expanding name site progress =
      if progress.definitions.contains name then .ok () progress
      else if name ∈ expanding then .error (recurrence expanding name) progress
      else
        match scope.fragments.get? name with
        | none => .error (.unknownFragment name) progress
        | some fragment =>
            defineFragment scope.known (expandFragment scope (expanding ++ [name])) name fragment
              site progress := by
  rw [expandFragment, bind_run, Progress.isDefined_run]
  cases complete : progress.definitions.contains name with
  | true => rfl
  | false =>
      by_cases opened : name ∈ expanding
      · simp [opened, throw_run]
      · simp only [opened, Bool.false_eq_true, if_false, dite_false]
        split
        · next found => rw [found]; rfl
        · next fragment found => rw [found]

end Assembly

end GraphRequest
