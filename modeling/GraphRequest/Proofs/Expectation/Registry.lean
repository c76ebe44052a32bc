import GraphRequest.Proofs.Document.Position
import GraphRequest.Proofs.Walk.Reference

/-!
The expectations that are kept of those met on a walk, and the slots in which they are kept: on a walk
without faults these are the slots of the fields that are written.
-/

namespace GraphRequest

namespace Expectations

theorem mem_entries_putAll {expectations : Expectations} {met : List Expectation}
    {entry : ResponseSlot × Expectation} (kept : entry ∈ (expectations.putAll met).entries) :
    entry ∈ expectations.entries ∨ entry.2 ∈ met ∧ entry.1 = entry.2.slot := by
  induction met generalizing expectations with
  | nil => exact .inl kept
  | cons first rest ih =>
      rcases ih kept with old | ⟨later, slotted⟩
      · rcases Entries.mem_insert old with old | rfl
        · exact .inl old
        · exact .inr ⟨List.mem_cons_self, rfl⟩
      · exact .inr ⟨List.mem_cons_of_mem _ later, slotted⟩

theorem mem_keys_putAll (expectations : Expectations) (met : List Expectation)
    (slot : ResponseSlot) :
    slot ∈ (expectations.putAll met).keys ↔
      slot ∈ expectations.keys ∨ slot ∈ met.map Expectation.slot := by
  induction met generalizing expectations with
  | nil => simp [putAll]
  | cons first rest ih =>
      have step := ih (expectations.put first)
      rw [putAll, List.foldl_cons, ← putAll, step, put, OrderedMap.keys_insert, List.map_cons,
        List.mem_cons]
      split <;> grind

end Expectations

namespace Visit

def meet? : Visit → Option Expectation
  | meet e => some e
  | _ => none

def meets (visits : List Visit) : List Expectation :=
  visits.filterMap meet?

theorem meets_cons (e : Expectation) (rest : List Visit) :
    meets (.meet e :: rest) = e :: meets rest := rfl

theorem meets_append (first second : List Visit) :
    meets (first ++ second) = meets first ++ meets second :=
  List.filterMap_append

theorem meets_spreads (names : List String) (site : Site) :
    meets (names.map (.spread · site)) = [] := by
  rw [meets, List.filterMap_map]
  exact List.filterMap_eq_nil_iff.mpr fun _ _ => rfl

theorem mem_meets {visits : List Visit} {e : Expectation} :
    e ∈ meets visits ↔ .meet e ∈ visits := by
  rw [meets, List.mem_filterMap]
  constructor
  · rintro ⟨visit, member, same⟩
    cases visit with
    | fault cause => cases same
    | meet other =>
        cases same
        exact member
    | spread name site => cases same
  · intro member
    exact ⟨_, member, rfl⟩

end Visit

open Visit Document.Selection

theorem Expectation.slot_eq {site : Site} {key : String} {attributes : FieldAttributes}
    {nested : List (String × DeclaredField)} {e : Expectation}
    (accepted : Expectation.of site key ⟨attributes, nested⟩ = .ok e) :
    e.slot = ((Assembly.head key attributes).responseKey, site.level) := by
  rw [eq_build accepted]
  rfl

namespace Assembly

mutual

theorem fieldVisits_slots (known : Variables) (site : Site) (key : String) :
    (declared : DeclaredField) → Faultless (fieldVisits known site key declared) →
    (meets (fieldVisits known site key declared)).map Expectation.slot =
      slots site.level (fieldNode key declared)
  | .mk attributes nested => by
      rw [fieldVisits]
      cases accepted : Expectation.of site key ⟨attributes, nested⟩ with
      | error cause =>
          intro faultless
          exact absurd List.mem_cons_self (faultless cause)
      | ok e =>
          have inner := Expectation.inner_level_eq accepted
          cases checked : checkHead known attributes with
          | error cause =>
              intro faultless
              exact absurd (List.mem_cons_of_mem _ List.mem_cons_self) (faultless cause)
          | ok =>
              intro faultless
              have deeper : Faultless (fieldsVisits known e.inner nested) := by
                intro cause member
                exact faultless cause (List.mem_cons_of_mem _ (List.mem_append_right _ member))
              have below := fieldsVisits_slots known e.inner nested deeper
              rw [inner] at below
              dsimp only
              rw [meets_cons, meets_append, meets_spreads, List.nil_append, List.map_cons, below,
                Expectation.slot_eq accepted, fieldNode, slots, allSlots_append, allSlots_leaves,
                List.nil_append]

theorem fieldsVisits_slots (known : Variables) (site : Site) :
    (declared : List (String × DeclaredField)) → Faultless (fieldsVisits known site declared) →
    (meets (fieldsVisits known site declared)).map Expectation.slot =
      allSlots site.level (fieldNodes declared)
  | [] => by
      intro _
      rfl
  | (key, declared) :: rest => by
      intro faultless
      rw [fieldsVisits] at faultless ⊢
      rw [meets_append, List.map_append, fieldNodes, allSlots,
        fieldVisits_slots known site key declared faultless.of_append.1,
        fieldsVisits_slots known site rest faultless.of_append.2]

end

end Assembly

theorem Fragment.visits_slots (known : Variables) (site : Site) (fragment : Fragment)
    (faultless : Faultless (fragment.visits known site)) :
    (meets (fragment.visits known site)).map Expectation.slot =
      allSlots site.level fragment.node.selections := by
  rw [visits] at faultless ⊢
  cases vacant : fragment.isEmpty with
  | true =>
      rw [vacant, if_pos rfl] at faultless
      exact absurd List.mem_cons_self (faultless _)
  | false =>
      rw [vacant, if_neg Bool.false_ne_true] at faultless
      rw [if_neg Bool.false_ne_true, meets_append, meets_spreads, List.nil_append,
        Assembly.fieldsVisits_slots known site _ faultless.of_append.2, node, allSlots_append,
        allSlots_leaves, List.nil_append]

end GraphRequest
