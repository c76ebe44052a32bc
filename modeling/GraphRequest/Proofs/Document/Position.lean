import GraphRequest.Proofs.Walk.Visit
import GraphRequest.Path

/-!
Positions of fields in a document: the keys that lead to a field from the root, and its level.
-/

namespace GraphRequest

/-- The response keys of a path; positions in lists are left out. -/
def Path.keys (path : Path) : List String :=
  path.steps.filterMap fun
    | .key name => some name
    | .index => none

theorem Path.keys_extend (path : Path) (responseKey : String) (isList : Bool) :
    (path.extend responseKey isList).keys = path.keys ++ [responseKey] := by
  rw [Path.keys, Path.extend, List.filterMap_append]
  cases isList <;> rfl

namespace Document

def FieldHead.responseKey (head : FieldHead) : String :=
  head.aliasName.getD head.name

/-- From the roots, response keys lead to a list of selections. A field takes a key, and the
definition of a fragment is entered where it is spread without taking one. -/
inductive Leads (definitions : List Fragment) (roots : List Selection) :
    List String → List Selection → Prop
  | root : Leads definitions roots [] roots
  | inside {keys held head inner} (leads : Leads definitions roots keys held)
      (member : .field head inner ∈ held) :
      Leads definitions roots (keys ++ [head.responseKey]) inner
  | through {keys held definition} (leads : Leads definitions roots keys held)
      (member : .spread definition.name ∈ held) (defined : definition ∈ definitions) :
      Leads definitions roots keys definition.selections

namespace Selection

mutual

def slots (level : Nat) : Selection → List (String × Nat)
  | scalar _ => []
  | spread _ => []
  | field head selections => (head.responseKey, level) :: allSlots (level + 1) selections

def allSlots (level : Nat) : List Selection → List (String × Nat)
  | [] => []
  | selection :: rest => slots level selection ++ allSlots level rest

end

theorem allSlots_append (level : Nat) (first second : List Selection) :
    allSlots level (first ++ second) = allSlots level first ++ allSlots level second := by
  induction first with
  | nil => rfl
  | cons selection rest ih =>
      rw [List.cons_append, allSlots, allSlots, ih, List.append_assoc]

theorem allSlots_leaves (level : Nat) (scalars spreads : List String) :
    allSlots level (Assembly.leaves scalars spreads) = [] := by
  have scalarSlots : allSlots level (scalars.map .scalar) = [] := by
    induction scalars with
    | nil => rfl
    | cons name rest ih => rw [List.map_cons, allSlots, slots, ih, List.append_nil]
  have spreadSlots : allSlots level (spreads.map .spread) = [] := by
    induction spreads with
    | nil => rfl
    | cons name rest ih => rw [List.map_cons, allSlots, slots, ih, List.append_nil]
  rw [Assembly.leaves, allSlots_append, scalarSlots, spreadSlots, List.append_nil]

end Selection

end Document

end GraphRequest
