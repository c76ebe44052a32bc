/-!
Maps that remember the order in which their keys first arrived. `keys_insert` and `get?_insert`
describe insertion through the two views of a map: its keys in order, and look-up.
-/

namespace GraphRequest

variable {κ α β : Type}

namespace Entries

def keys (entries : List (κ × α)) : List κ :=
  entries.map Prod.fst

def get? [DecidableEq κ] (entries : List (κ × α)) (key : κ) : Option α :=
  match entries with
  | [] => none
  | (k, a) :: rest => if k = key then some a else get? rest key

/-- A key that is present keeps its place and takes the new value; a new key goes to the end. -/
def insert [DecidableEq κ] (entries : List (κ × α)) (key : κ) (value : α) : List (κ × α) :=
  match entries with
  | [] => [(key, value)]
  | (k, a) :: rest => if k = key then (k, value) :: rest else (k, a) :: insert rest key value

def ofList [DecidableEq κ] (pairs : List (κ × α)) : List (κ × α) :=
  pairs.foldl (fun entries pair => insert entries pair.1 pair.2) []

theorem keys_map (entries : List (κ × α)) (f : α → β) :
    keys (entries.map fun entry => (entry.1, f entry.2)) = keys entries := by
  simp [keys]

variable [DecidableEq κ]

theorem keys_insert (entries : List (κ × α)) (key : κ) (value : α) :
    keys (insert entries key value) =
      if key ∈ keys entries then keys entries else keys entries ++ [key] := by
  induction entries with
  | nil => simp [keys, insert]
  | cons head tail ih =>
      obtain ⟨k, a⟩ := head
      simp only [keys] at ih
      by_cases same : k = key
      · simp [keys, insert, same]
      · have other : ¬key = k := fun h => same h.symm
        simp only [insert, same, if_false, keys, List.map_cons, ih, List.mem_cons, other, false_or]
        by_cases seen : key ∈ List.map Prod.fst tail <;> simp [seen]

theorem get?_insert (entries : List (κ × α)) (key other : κ) (value : α) :
    get? (insert entries key value) other = if key = other then some value else get? entries other := by
  induction entries with
  | nil => simp [insert, get?]
  | cons head tail ih =>
      obtain ⟨k, a⟩ := head
      by_cases same : k = key
      · subst same
        by_cases here : k = other <;> simp [insert, get?, here]
      · by_cases here : k = other
        · subst here
          have apart : ¬key = k := fun h => same h.symm
          simp [insert, get?, same, apart]
        · simp [insert, get?, same, here, ih]

theorem insert_of_absent {entries : List (κ × α)} {key : κ} (absent : key ∉ keys entries)
    (value : α) : insert entries key value = entries ++ [(key, value)] := by
  induction entries with
  | nil => rfl
  | cons head tail ih =>
      obtain ⟨k, a⟩ := head
      have other : ¬k = key := fun same => absent (by simp [keys, same])
      have later : key ∉ keys tail := fun present => absent (List.mem_cons_of_mem _ present)
      simp [insert, other, ih later]

theorem nodup_keys_insert {entries : List (κ × α)} (distinct : (keys entries).Nodup) (key : κ)
    (value : α) : (keys (insert entries key value)).Nodup := by
  rw [keys_insert]
  split
  · exact distinct
  · next fresh =>
      refine List.nodup_append.mpr ⟨distinct, by simp, ?_⟩
      intro a here b there same
      simp only [List.mem_singleton] at there
      exact fresh (there ▸ same ▸ here)

theorem get?_isSome_iff (entries : List (κ × α)) (key : κ) :
    (get? entries key).isSome ↔ key ∈ keys entries := by
  induction entries with
  | nil => simp [get?, keys]
  | cons head tail ih =>
      obtain ⟨k, a⟩ := head
      by_cases same : k = key
      · simp [get?, keys, same]
      · have other : ¬key = k := fun h => same h.symm
        simpa [get?, keys, same, other] using ih

theorem mem_insert {entries : List (κ × α)} {key : κ} {value : α} {entry : κ × α}
    (member : entry ∈ insert entries key value) : entry ∈ entries ∨ entry = (key, value) := by
  induction entries with
  | nil => exact .inr (List.mem_singleton.mp member)
  | cons head tail ih =>
      rw [insert] at member
      split at member
      · next same =>
          subst same
          rcases List.mem_cons.mp member with rfl | later
          · exact .inr rfl
          · exact .inl (List.mem_cons_of_mem _ later)
      · rcases List.mem_cons.mp member with rfl | later
        · exact .inl List.mem_cons_self
        · exact (ih later).imp_left (List.mem_cons_of_mem _)

theorem mem_of_get? {entries : List (κ × α)} {key : κ} {value : α}
    (found : get? entries key = some value) : (key, value) ∈ entries := by
  induction entries with
  | nil => cases found
  | cons head tail ih =>
      obtain ⟨k, a⟩ := head
      rw [get?] at found
      split at found
      · next same =>
          subst same
          cases found
          exact List.mem_cons_self
      · exact List.mem_cons_of_mem _ (ih found)

end Entries

/-- Entries in the order in which their keys were first inserted, each key once. -/
structure OrderedMap (κ α : Type) where
  entries : List (κ × α)
  distinct : (Entries.keys entries).Nodup
  deriving Repr

namespace OrderedMap

def empty : OrderedMap κ α := ⟨[], List.nodup_nil⟩

instance : Inhabited (OrderedMap κ α) := ⟨empty⟩
instance : EmptyCollection (OrderedMap κ α) := ⟨empty⟩

instance [DecidableEq κ] [DecidableEq α] : DecidableEq (OrderedMap κ α) := fun a b =>
  decidable_of_iff (a.entries = b.entries) (by cases a; cases b; simp)

def keys (map : OrderedMap κ α) : List κ :=
  Entries.keys map.entries

def values (map : OrderedMap κ α) : List α :=
  map.entries.map Prod.snd

def size (map : OrderedMap κ α) : Nat :=
  map.entries.length

def isEmpty (map : OrderedMap κ α) : Bool :=
  map.entries.isEmpty

def mapValues (f : α → β) (map : OrderedMap κ α) : OrderedMap κ β :=
  ⟨map.entries.map fun entry => (entry.1, f entry.2), by
    rw [Entries.keys_map]; exact map.distinct⟩

@[simp] theorem keys_empty : (empty : OrderedMap κ α).keys = [] := rfl

theorem eq_of_entries {first second : OrderedMap κ α} (same : first.entries = second.entries) :
    first = second := by
  cases first
  cases second
  cases same
  rfl

variable [DecidableEq κ]

def get? (map : OrderedMap κ α) (key : κ) : Option α :=
  Entries.get? map.entries key

def contains (map : OrderedMap κ α) (key : κ) : Bool :=
  (map.get? key).isSome

def insert (map : OrderedMap κ α) (key : κ) (value : α) : OrderedMap κ α :=
  ⟨Entries.insert map.entries key value, Entries.nodup_keys_insert map.distinct key value⟩

def ofList (pairs : List (κ × α)) : OrderedMap κ α :=
  pairs.foldl (fun map pair => map.insert pair.1 pair.2) empty

theorem keys_insert (map : OrderedMap κ α) (key : κ) (value : α) :
    (map.insert key value).keys = if key ∈ map.keys then map.keys else map.keys ++ [key] :=
  Entries.keys_insert map.entries key value

theorem get?_insert (map : OrderedMap κ α) (key other : κ) (value : α) :
    (map.insert key value).get? other = if key = other then some value else map.get? other :=
  Entries.get?_insert map.entries key other value

theorem entries_insert_of_absent {map : OrderedMap κ α} {key : κ} (absent : key ∉ map.keys)
    (value : α) : (map.insert key value).entries = map.entries ++ [(key, value)] :=
  Entries.insert_of_absent absent value

theorem contains_iff (map : OrderedMap κ α) (key : κ) : map.contains key ↔ key ∈ map.keys :=
  Entries.get?_isSome_iff map.entries key

end OrderedMap

end GraphRequest
