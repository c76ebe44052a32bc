import GraphRequest.Operation.Basic
import GraphRequest.Proofs.Walk.Writable

/-!
The leaves of values, and the values that stand in declarations. A value can be written exactly if
each of its references is declared and each of its floats is finite.
-/

namespace GraphRequest

namespace Value

mutual

/-- What a value holds at any depth besides lists and objects, from left to right. -/
def leaves : Value → List Value
  | list items => itemLeaves items
  | object entries => entryLeaves entries
  | value => [value]

def itemLeaves : List Value → List Value
  | [] => []
  | item :: rest => leaves item ++ itemLeaves rest

def entryLeaves : List (String × Value) → List Value
  | [] => []
  | (_, value) :: rest => leaves value ++ entryLeaves rest

end

theorem mem_entryLeaves {entries : List (String × Value)} {leaf : Value} :
    leaf ∈ entryLeaves entries ↔ ∃ entry ∈ entries, leaf ∈ entry.2.leaves := by
  induction entries with
  | nil => simp [entryLeaves]
  | cons entry rest ih => simp [entryLeaves, ih]

/-- A reference needs a declared name, and a float has to be finite. -/
def LeafWritable (names : List String) : Value → Prop
  | reference name => name ∈ names
  | float number => number.isFinite
  | _ => True

def Writable (names : List String) (value : Value) : Prop :=
  ∀ leaf ∈ value.leaves, LeafWritable names leaf

variable {known : Variables}

mutual

theorem check_eq_ok_iff : (value : Value) →
    check known value = .ok () ↔ value.Writable known.keys
  | reference name => by
      simp only [check, Writable, leaves, List.forall_mem_singleton, LeafWritable,
        ← OrderedMap.contains_iff]
      split <;> simp_all
  | float number => by
      simp only [check, Writable, leaves, List.forall_mem_singleton, LeafWritable]
      split <;> simp_all
  | list items => by
      rw [check, Writable, leaves]
      exact checkItems_eq_ok_iff items
  | object entries => by
      rw [check, Writable, leaves]
      exact checkEntries_eq_ok_iff entries
  | int _ | string _ | bool _ | null | enum _ => by simp [check, Writable, leaves, LeafWritable]

theorem checkItems_eq_ok_iff : (items : List Value) →
    checkItems known items = .ok () ↔ ∀ leaf ∈ itemLeaves items, LeafWritable known.keys leaf
  | [] => by simp [checkItems, itemLeaves]
  | item :: rest => by
      rw [checkItems, both_eq_ok, itemLeaves, List.forall_mem_append,
        check_eq_ok_iff item, checkItems_eq_ok_iff rest]
      rfl

theorem checkEntries_eq_ok_iff : (entries : List (String × Value)) →
    checkEntries known entries = .ok () ↔ ∀ leaf ∈ entryLeaves entries, LeafWritable known.keys leaf
  | [] => by simp [checkEntries, entryLeaves]
  | (_, value) :: rest => by
      rw [checkEntries, both_eq_ok, entryLeaves, List.forall_mem_append,
        check_eq_ok_iff value, checkEntries_eq_ok_iff rest]
      rfl

end

mutual

theorem hasReference_iff : (value : Value) →
    value.hasReference ↔ ∃ name, reference name ∈ value.leaves
  | list items => anyItem_iff items
  | object entries => anyEntry_iff entries
  | reference _ | float _ | int _ | string _ | bool _ | null | enum _ => by
      simp [hasReference, leaves]

theorem anyItem_iff : (items : List Value) →
    anyItem items ↔ ∃ name, reference name ∈ itemLeaves items
  | [] => by simp [anyItem, itemLeaves]
  | item :: rest => by
      simp only [anyItem, itemLeaves, Bool.or_eq_true, List.mem_append, exists_or,
        hasReference_iff item, anyItem_iff rest]

theorem anyEntry_iff : (entries : List (String × Value)) →
    anyEntry entries ↔ ∃ name, reference name ∈ entryLeaves entries
  | [] => by simp [anyEntry, entryLeaves]
  | (_, value) :: rest => by
      simp only [anyEntry, entryLeaves, Bool.or_eq_true, List.mem_append, exists_or,
        hasReference_iff value, anyEntry_iff rest]

end

end Value

theorem Value.checkEntries_eq_ok (known : Variables) (entries : List (String × Value)) :
    checkEntries known entries = .ok () ↔
      ∀ value ∈ entries.map Prod.snd, value.Writable known.keys := by
  induction entries with
  | nil => simp [checkEntries]
  | cons entry rest ih =>
      rw [checkEntries, both_eq_ok, check_eq_ok_iff, ih, List.map_cons, List.forall_mem_cons]

def Directive.values (directive : Directive) : List Value :=
  directive.arguments.values

def Directive.allValues (directives : List Directive) : List Value :=
  directives.flatMap Directive.values

theorem Directive.checkAll_eq_ok (known : Variables) (directives : List Directive) :
    checkAll known directives = .ok () ↔
      ∀ value ∈ allValues directives, value.Writable known.keys := by
  induction directives with
  | nil => simp [checkAll, allValues]
  | cons directive rest ih =>
      rw [checkAll, both_eq_ok, ih, check, Value.checkEntries_eq_ok, allValues, allValues,
        List.flatMap_cons, List.forall_mem_append]
      rfl

def FieldAttributes.values (attributes : FieldAttributes) : List Value :=
  attributes.argumentEntries.map Prod.snd ++ Directive.allValues attributes.directives

theorem Assembly.checkHead_eq_ok_iff (known : Variables) (attributes : FieldAttributes) :
    checkHead known attributes = .ok () ↔
      ∀ value ∈ attributes.values, value.Writable known.keys := by
  rw [checkHead, both_eq_ok, Value.checkEntries_eq_ok, Directive.checkAll_eq_ok,
    FieldAttributes.values, List.forall_mem_append]

namespace DeclaredField

mutual

def values : DeclaredField → List Value
  | mk attributes nested => attributes.values ++ allValues nested

def allValues : List (String × DeclaredField) → List Value
  | [] => []
  | (_, declared) :: rest => values declared ++ allValues rest

end

mutual

theorem writable_iff (known : Variables) : (declared : DeclaredField) →
    declared.Writable known ↔ ∀ value ∈ declared.values, value.Writable known.keys
  | mk attributes nested => by
      rw [Writable, values, List.forall_mem_append, Assembly.checkHead_eq_ok_iff,
        allWritable_iff known nested]

theorem allWritable_iff (known : Variables) : (declared : List (String × DeclaredField)) →
    AllWritable known declared ↔ ∀ value ∈ allValues declared, value.Writable known.keys
  | [] => by simp [AllWritable, allValues]
  | (_, declared) :: rest => by
      rw [AllWritable, allValues, List.forall_mem_append, writable_iff known declared,
        allWritable_iff known rest]

end

end DeclaredField

end GraphRequest
