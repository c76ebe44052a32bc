import GraphRequest.OrderedMap
import Mathlib.Data.List.Induction
import Mathlib.Data.List.Nodup
import Mathlib.Data.List.Perm.Basic

/-!
What stands under a key: where the keys are distinct, where the entries stand in another order, and
where of several entries under one key the last counts.
-/

namespace GraphRequest

theorem filter_eq_of_perm {α : Type} {p : α → Bool} {first second : List α}
    (moved : first.Perm second) (short : (first.filter p).length ≤ 1) :
    first.filter p = second.filter p := by
  have kept := moved.filter p
  rcases known : first.filter p with _ | ⟨one, _ | ⟨_, _⟩⟩
  · rw [known] at kept
    exact kept.nil_eq
  · rw [known] at kept
    exact (List.perm_singleton.mp kept.symm).symm
  · rw [known] at short
    simp at short

namespace Entries

variable {κ α β : Type} [DecidableEq κ]

theorem get?_map (entries : List (κ × α)) (f : κ → α → β) (key : κ) :
    get? (entries.map fun entry => (entry.1, f entry.1 entry.2)) key =
      (get? entries key).map (f key) := by
  induction entries with
  | nil => rfl
  | cons head tail ih =>
      obtain ⟨k, a⟩ := head
      by_cases same : k = key
      · subst same
        simp [get?]
      · simp [get?, same, ih]

theorem get?_eq_head? (entries : List (κ × α)) (key : κ) :
    get? entries key = (entries.filter (·.1 ∈ [key])).head?.map Prod.snd := by
  induction entries with
  | nil => rfl
  | cons head tail ih =>
      obtain ⟨k, a⟩ := head
      by_cases same : k = key <;> simp_all [get?]

theorem get?_of_mem {entries : List (κ × α)} (distinct : (keys entries).Nodup) {entry : κ × α}
    (member : entry ∈ entries) : get? entries entry.1 = some entry.2 := by
  cases found : get? entries entry.1 with
  | none =>
      have present := (get?_isSome_iff entries entry.1).mpr (List.mem_map_of_mem member)
      rw [found] at present
      cases present
  | some other =>
      -- two entries of one key are the same
      have same := List.inj_on_of_nodup_map distinct (mem_of_get? found) member rfl
      rw [← same]

theorem length_filter_le_one {entries : List (κ × α)} {known : List κ}
    (distinct : (keys entries).Nodup)
    (single : ∀ first ∈ known, ∀ second ∈ known, first ∈ keys entries → second ∈ keys entries →
      first = second) :
    (entries.filter (·.1 ∈ known)).length ≤ 1 := by
  have apart : (keys (entries.filter (·.1 ∈ known))).Nodup :=
    distinct.sublist (List.filter_sublist.map Prod.fst)
  have found : ∀ entry ∈ entries.filter (·.1 ∈ known),
      entry.1 ∈ known ∧ entry.1 ∈ keys entries := by
    intro entry member
    obtain ⟨there, held⟩ := List.mem_filter.mp member
    exact ⟨by simpa using held, List.mem_map_of_mem there⟩
  rcases kept : entries.filter (·.1 ∈ known) with _ | ⟨first, _ | ⟨second, rest⟩⟩
  · rw [kept]
    exact Nat.zero_le 1
  · rw [kept]
    exact Nat.le_refl 1
  · rw [kept] at apart found
    obtain ⟨firstKnown, firstThere⟩ := found first List.mem_cons_self
    obtain ⟨secondKnown, secondThere⟩ := found second (List.mem_cons_of_mem _ List.mem_cons_self)
    have same := single _ firstKnown _ secondKnown firstThere secondThere
    simp [keys, same] at apart

theorem insert_map (form : α → β) (entries : List (κ × α)) (key : κ) (value : α) :
    insert (entries.map fun entry => (entry.1, form entry.2)) key (form value) =
      (insert entries key value).map fun entry => (entry.1, form entry.2) := by
  induction entries with
  | nil => rfl
  | cons entry rest ih =>
      simp only [List.map_cons, insert, ih]
      split <;> rfl

theorem ofList_map (form : α → β) (pairs : List (κ × α)) :
    ofList (pairs.map fun pair => (pair.1, form pair.2)) =
      (ofList pairs).map fun entry => (entry.1, form entry.2) := by
  induction pairs using List.reverseRecOn with
  | nil => rfl
  | append_singleton front pair ih =>
      simp only [ofList, List.map_append, List.foldl_append] at ih ⊢
      rw [ih]
      exact insert_map form _ pair.1 pair.2

theorem ofList_of_distinct {pairs : List (κ × α)} (distinct : (keys pairs).Nodup) :
    ofList pairs = pairs := by
  induction pairs using List.reverseRecOn with
  | nil => rfl
  | append_singleton front pair ih =>
      rw [keys, List.map_append, List.nodup_append] at distinct
      have absent : pair.1 ∉ keys front := fun present =>
        distinct.2.2 pair.1 present pair.1 List.mem_cons_self rfl
      rw [ofList, List.foldl_append, ← ofList, ih distinct.1, List.foldl_cons, List.foldl_nil,
        insert_of_absent absent]

section Last

variable {keys : List κ} {key : κ}

/-- What the last entry under one of the keys holds. -/
def last? (keys : List κ) (entries : List (κ × α)) : Option α :=
  (entries.filter fun entry => entry.1 ∈ keys).getLast?.map Prod.snd

theorem last?_skip {a : α} {rest : List (κ × α)} (other : key ∉ keys) :
    last? keys ((key, a) :: rest) = last? keys rest := by
  rw [last?, List.filter_cons_of_neg (by simpa using other), last?]

theorem last?_take {a : α} {rest : List (κ × α)} (known : key ∈ keys) :
    last? keys ((key, a) :: rest) = some ((last? keys rest).getD a) := by
  rw [last?, List.filter_cons_of_pos (by simpa using known), List.getLast?_cons, last?]
  cases (rest.filter fun entry => entry.1 ∈ keys).getLast? <;> rfl

theorem last?_append (front rest : List (κ × α)) :
    last? keys (front ++ rest) = (last? keys rest).or (last? keys front) := by
  rw [last?, List.filter_append, List.getLast?_append, Option.map_or]
  rfl

theorem last?_map (form : α → β) (entries : List (κ × α)) :
    last? keys (entries.map fun entry => (entry.1, form entry.2)) =
      (last? keys entries).map form := by
  rw [last?, List.filter_map, List.getLast?_map, Option.map_map, last?, Option.map_map]
  rfl

theorem get?_ofList (pairs : List (κ × α)) (key : κ) :
    get? (ofList pairs) key = last? [key] pairs := by
  induction pairs using List.reverseRecOn with
  | nil => rfl
  | append_singleton front pair ih =>
      rw [ofList, List.foldl_append, ← ofList, List.foldl_cons, List.foldl_nil, get?_insert, ih,
        last?_append]
      by_cases same : pair.1 = key
      · rw [if_pos same, last?_take (by simp [same])]
        rfl
      · rw [if_neg same, last?_skip (by simpa using same)]
        rfl

variable {relates : α → β → Prop}

theorem rel_last?_cons {a : α} {b : β} {rest : List (κ × α)} {others : List (κ × β)}
    (first : relates a b)
    (later : Option.Rel relates (last? keys rest) (last? keys others)) :
    Option.Rel relates (last? keys ((key, a) :: rest)) (last? keys ((key, b) :: others)) := by
  by_cases known : key ∈ keys
  · rw [last?_take known, last?_take known]
    generalize last? keys rest = lastRest, last? keys others = lastOther at later
    cases later with
    | some same => exact .some same
    | none => exact .some first
  · rw [last?_skip known, last?_skip known]
    exact later

theorem rel_last? (keys : List κ) {entries : List (κ × α)} {others : List (κ × β)}
    (related : List.Forall₂ (fun entry other => entry.1 = other.1 ∧ relates entry.2 other.2) entries
      others) : Option.Rel relates (last? keys entries) (last? keys others) := by
  induction related with
  | nil => exact .none
  | @cons entry other _ _ first _ ih =>
      obtain ⟨key, a⟩ := entry
      obtain ⟨_, b⟩ := other
      obtain ⟨rfl, first⟩ := first
      exact rel_last?_cons first ih

end Last

end Entries

namespace OrderedMap

variable {κ α : Type} [DecidableEq κ]

def insertAll (map : OrderedMap κ α) (pairs : List (κ × α)) : OrderedMap κ α :=
  pairs.foldl (fun map pair => map.insert pair.1 pair.2) map

theorem get?_insertAll (map : OrderedMap κ α) (pairs : List (κ × α)) (key : κ) :
    (map.insertAll pairs).get? key = (Entries.last? [key] pairs).or (map.get? key) := by
  induction pairs generalizing map with
  | nil => rfl
  | cons pair rest ih =>
      rw [insertAll, List.foldl_cons, ← insertAll, ih, get?_insert]
      by_cases same : pair.1 = key
      · rw [if_pos same, Entries.last?_take (by simp [same])]
        cases Entries.last? [key] rest <;> rfl
      · rw [if_neg same, Entries.last?_skip (by simpa using same)]

theorem get?_ofList (pairs : List (κ × α)) (key : κ) :
    (OrderedMap.ofList pairs).get? key = Entries.last? [key] pairs := by
  rw [ofList, ← insertAll, get?_insertAll]
  exact Option.or_none

theorem get?_eq_last? (map : OrderedMap κ α) (key : κ) :
    map.get? key = Entries.last? [key] map.entries := by
  rw [← Entries.get?_ofList, Entries.ofList_of_distinct map.distinct]
  rfl

end OrderedMap

/-- One step of a path into a list or an object. -/
inductive ValueStep
  | item (index : Nat)
  | entry (key : String)

end GraphRequest
