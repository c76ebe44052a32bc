import GraphRequest.Proofs.Expectation.InSync

/-!
Which positions of a response are expected. The fields of a fragment are met once, at the level of
its first spread; at other levels they are selected without being expected.
-/

namespace GraphRequest

open Document

/-- A selection set of the declarations, with the level of its fields: the root fields, what is
inside of a field, or a fragment that is spread there. -/
inductive Stands (lookup : String → Option Fragment) (roots : List (String × DeclaredField)) :
    Nat → List String → List (String × DeclaredField) → Prop
  | root : Stands lookup roots 1 [] roots
  | inside {level spreads fields key attributes nested} (outer : Stands lookup roots level spreads fields)
      (member : (key, .mk attributes nested) ∈ fields) :
      Stands lookup roots (level + 1) attributes.spreads nested
  | through {level spreads fields name fragment} (outer : Stands lookup roots level spreads fields)
      (member : name ∈ spreads) (found : lookup name = some fragment) :
      Stands lookup roots level fragment.includes fragment.fields.entries

def OperationDraft.LevelsUnique (operation : OperationDraft) (lookup : String → Option Fragment) : Prop :=
  ∀ name level other,
    Reached (referenceLevels lookup) (DeclaredField.allSpreadLevels 1 operation.fields.entries)
      (name, level) →
    Reached (referenceLevels lookup) (DeclaredField.allSpreadLevels 1 operation.fields.entries)
      (name, other) → level = other

/-- The slots of a result are those of the root fields and of each fragment at the level of its first
spread. They cover all positions if no fragment is spread at two levels. -/
structure Coverage (declared : List Fragment) (operation : Operation) (result : AssembledRequest) :
    Prop where
  exact : ∃ first, PostOrder Prod.fst (referenceLevels (Fragment.named? declared)) []
      (DeclaredField.allSpreadLevels 1 operation.fields.entries) first ∧
    ∀ slot, slot ∈ result.assembly.expectations.keys ↔
      slot ∈ Selection.allSlots 1 (Assembly.fieldNodes operation.fields.entries) ∨
      ∃ entry ∈ first, ∃ fragment, Fragment.named? declared entry.1 = some fragment ∧
        slot ∈ Selection.allSlots entry.2 fragment.node.selections
  covers : operation.LevelsUnique (Fragment.named? declared) → ∀ level spreads fields key field,
    Stands (Fragment.named? declared) operation.fields.entries level spreads fields →
    (key, field) ∈ fields →
    (field.attributes.responseKey key, level) ∈ result.assembly.expectations.keys

namespace DeclaredField

variable {fields : List (String × DeclaredField)} {key : String}

theorem slots_subset {declared : DeclaredField} (member : (key, declared) ∈ fields) (level : Nat) :
    Selection.slots level (Assembly.fieldNode key declared) ⊆
      Selection.allSlots level (Assembly.fieldNodes fields) := by
  induction fields with
  | nil => cases member
  | cons entry rest ih =>
      rw [Assembly.fieldNodes, Selection.allSlots]
      rcases List.mem_cons.mp member with rfl | later
      · exact List.subset_append_left _ _
      · exact List.subset_append_of_subset_right _ (ih later)

theorem spreadLevels_subset {declared : DeclaredField} (member : (key, declared) ∈ fields)
    (level : Nat) : declared.spreadLevels level ⊆ allSpreadLevels level fields := by
  induction fields with
  | nil => cases member
  | cons entry rest ih =>
      rw [allSpreadLevels]
      rcases List.mem_cons.mp member with rfl | later
      · exact List.subset_append_left _ _
      · exact List.subset_append_of_subset_right _ (ih later)

theorem slots_eq (level : Nat) (attributes : FieldAttributes)
    (nested : List (String × DeclaredField)) :
    Selection.slots level (Assembly.fieldNode key ⟨attributes, nested⟩) =
      (attributes.responseKey key, level) ::
        Selection.allSlots (level + 1) (Assembly.fieldNodes nested) := by
  rw [Assembly.fieldNode, Selection.slots, Selection.allSlots_append, Selection.allSlots_leaves]
  rfl

end DeclaredField

theorem Fragment.slots_node (level : Nat) (fragment : Fragment) :
    Selection.allSlots level fragment.node.selections =
      Selection.allSlots level (Assembly.fieldNodes fragment.fields.entries) := by
  rw [node, Selection.allSlots_append, Selection.allSlots_leaves, List.nil_append]

structure Accounted (lookup : String → Option Fragment) (roots : List (String × Nat))
    (kept : List ResponseSlot) (level : Nat) (spreads : List String)
    (fields : List (String × DeclaredField)) : Prop where
  slots : Selection.allSlots level (Assembly.fieldNodes fields) ⊆ kept
  spread : ∀ name ∈ spreads, Reached (referenceLevels lookup) roots (name, level)
  deeper : ∀ entry ∈ DeclaredField.allSpreadLevels level fields,
    Reached (referenceLevels lookup) roots entry

theorem Stands.accounted {lookup : String → Option Fragment}
    {roots fields : List (String × DeclaredField)} {kept : List ResponseSlot} {level : Nat}
    {spreads : List String} (stands : Stands lookup roots level spreads fields)
    (own : Selection.allSlots 1 (Assembly.fieldNodes roots) ⊆ kept)
    (inner : ∀ name level fragment,
      Reached (referenceLevels lookup) (DeclaredField.allSpreadLevels 1 roots) (name, level) →
      lookup name = some fragment →
      Selection.allSlots level (Assembly.fieldNodes fragment.fields.entries) ⊆ kept) :
    Accounted lookup (DeclaredField.allSpreadLevels 1 roots) kept level spreads fields := by
  induction stands with
  | root =>
      refine ⟨own, fun name member => ?_, fun entry => .root⟩
      cases member
  | @inside level spreads fields key attributes nested _ member ih =>
      have held := DeclaredField.slots_subset member level
      have below := DeclaredField.spreadLevels_subset member level
      rw [DeclaredField.slots_eq] at held
      rw [DeclaredField.spreadLevels] at below
      refine ⟨fun slot there => ?_, fun name there => ?_, fun entry there => ?_⟩
      · exact ih.slots (held (List.mem_cons_of_mem _ there))
      · exact ih.deeper _ (below (List.mem_append_left _ (List.mem_map_of_mem there)))
      · exact ih.deeper entry (below (List.mem_append_right _ there))
  | @through level spreads fields name fragment _ member found ih =>
      have reached := ih.spread name member
      have leads : ∀ entry ∈ fragment.referenceLevels level,
          Reached (referenceLevels lookup) (DeclaredField.allSpreadLevels 1 roots) entry := by
        intro entry there
        apply reached.step
        rw [referenceLevels, found]
        exact there
      refine ⟨inner name level fragment reached found, fun other there => ?_, fun entry there => ?_⟩
      · exact leads _ (List.mem_append_left _ (List.mem_map_of_mem there))
      · exact leads entry (List.mem_append_right _ there)

theorem Assembles.mem_slots_iff {declared : List Fragment} {operation : Operation}
    {result : AssembledRequest} {progress : Progress} {log : List (String × Site)}
    (assembles : Assembles declared operation result progress)
    (logged : Logged result.assembly.scope { definitions := .empty }
      (Assembly.fieldsVisits result.assembly.known Site.root operation.fields.entries) progress
      [] log) (slot : ResponseSlot) :
    slot ∈ result.assembly.expectations.keys ↔
      slot ∈ Selection.allSlots 1 (Assembly.fieldNodes operation.fields.entries) ∨
      ∃ entry ∈ log.map Assembly.levelOf, ∃ fragment,
        Fragment.named? declared entry.1 = some fragment ∧
        slot ∈ Selection.allSlots entry.2 fragment.node.selections := by
  have own : (Visit.meets (Assembly.fieldsVisits result.assembly.known Site.root
      operation.fields.entries)).map Expectation.slot =
      Selection.allSlots 1 (Assembly.fieldNodes operation.fields.entries) :=
    Assembly.fieldsVisits_slots _ _ _ assembles.run.faultless
  have entered : ∀ entry ∈ log, ∃ fragment,
      Fragment.named? declared entry.1 = some fragment ∧
      (Visit.meets (result.assembly.scope.visitsAt entry)).map Expectation.slot =
        Selection.allSlots entry.2.level fragment.node.selections := by
    intro entry member
    obtain ⟨_, fragment, found, faultless, -⟩ := logged.defines_of_mem member
    refine ⟨fragment, assembles.lookup ▸ found, ?_⟩
    rw [Scope.visitsAt_found found]
    exact fragment.visits_slots _ _ faultless
  rw [assembles.expectations, Expectations.mem_keys_putAll, OrderedMap.keys_empty, ← own]
  constructor
  · rintro (early | met)
    · cases early
    · obtain ⟨e, there, rfl⟩ := List.mem_map.mp met
      rcases (logged.met e).mp there with early | here | ⟨entry, member, there⟩
      · cases early
      · exact .inl (List.mem_map_of_mem (Visit.mem_meets.mpr here))
      · obtain ⟨fragment, found, slots⟩ := entered entry member
        refine .inr ⟨Assembly.levelOf entry, List.mem_map_of_mem member, fragment, found, ?_⟩
        rw [Assembly.levelOf, ← slots]
        exact List.mem_map_of_mem (Visit.mem_meets.mpr there)
  · rintro (own | ⟨levelled, member, fragment, found, inside⟩)
    · obtain ⟨e, met, rfl⟩ := List.mem_map.mp own
      exact .inr (List.mem_map_of_mem ((logged.met e).mpr (.inr (.inl (Visit.mem_meets.mp met)))))
    · obtain ⟨entry, logs, rfl⟩ := List.mem_map.mp member
      obtain ⟨other, same, slots⟩ := entered entry logs
      cases found.symm.trans same
      rw [Assembly.levelOf, ← slots] at inside
      obtain ⟨e, met, rfl⟩ := List.mem_map.mp inside
      exact .inr (List.mem_map_of_mem
        ((logged.met e).mpr (.inr (.inr ⟨entry, logs, Visit.mem_meets.mp met⟩))))

theorem assembleOne_coverage {declared : List Fragment} {operation : Operation}
    {result : AssembledRequest} (assembled : assembleOne declared operation = .ok result) :
    Coverage declared operation result := by
  obtain ⟨progress, assembles⟩ := assembleOne_eq_ok assembled
  obtain ⟨log, logged⟩ := assembles.logged
  have order : PostOrder Prod.fst (referenceLevels (Fragment.named? declared)) []
      (DeclaredField.allSpreadLevels 1 operation.fields.entries) (log.map Assembly.levelOf) := by
    rw [← assembles.lookup, ← assembles.spreadLevels]
    exact logged.levels
  have slots := assembles.mem_slots_iff logged
  refine ⟨⟨_, order, slots⟩, fun levelled level spreads fields key field stands member => ?_⟩
  have inner : ∀ name level fragment,
      Reached (referenceLevels (Fragment.named? declared))
        (DeclaredField.allSpreadLevels 1 operation.fields.entries) (name, level) →
      Fragment.named? declared name = some fragment →
      Selection.allSlots level (Assembly.fieldNodes fragment.fields.entries) ⊆
        result.assembly.expectations.keys := by
    intro name level fragment reached found slot there
    have named : Reached (references (Fragment.named? declared)) _ name :=
      reached.map Prod.fst (referenceLevels_names (Fragment.named? declared))
    have names := order.named (referenceLevels_names (Fragment.named? declared))
    obtain ⟨entry, member, rfl⟩ := List.mem_map.mp ((names.mem_iff_reached name).mpr named)
    -- the first spread of the fragment is at this level, since all of its spreads are
    have again := (order.reached entry member).resolve_left List.not_mem_nil
    rw [levelled entry.1 level entry.2 reached again, ← fragment.slots_node] at there
    exact (slots slot).mpr (.inr ⟨entry, member, fragment, found, there⟩)
  have accounted := stands.accounted (fun slot own => (slots slot).mpr (.inl own)) inner
  apply accounted.slots
  apply DeclaredField.slots_subset member
  cases field
  rw [DeclaredField.slots_eq]
  exact List.mem_cons_self

/-- The positions that the results of all operations cover. -/
theorem assemble_coverage {parts : List Part} {results : List AssembledRequest}
    (assembled : assemble parts = .ok results) :
    List.Forall₂ (fun operation result => Coverage (Part.fragments parts) operation result)
      (Part.operations parts) results :=
  (assemble_eq_ok assembled).imp fun _ _ => assembleOne_coverage

def personFragment : Fragment where
  name := "Person"
  typeCondition := "Person"
  fields := ⟨[("pet", .mk { scalars := some ["name"] } [])], by decide⟩

def besideOperation : Operation where
  type := .query
  fields := ⟨[("viewer", .mk { spreads := ["Person"] } []),
    ("owner", .mk { spreads := ["Person"] } [])], by decide⟩
  nonempty := by decide
  single := by decide

theorem besideOperation_coverage :
    besideOperation.LevelsUnique (Fragment.named? [personFragment]) ∧
    ∃ results, assemble [.fragment personFragment, .operation besideOperation] = .ok results ∧
      List.Forall₂ (Coverage [personFragment]) [besideOperation] results := by
  have reached : ∀ entry, Reached (referenceLevels (Fragment.named? [personFragment]))
      (DeclaredField.allSpreadLevels 1 besideOperation.fields.entries) entry →
      entry ∈ [("Person", 2)] :=
    fun entry => Reached.mem_of_closed (by decide) (by decide)
  refine ⟨fun name level other first second => ?_, ?_⟩
  · have here := List.mem_singleton.mp (reached _ first)
    have there := List.mem_singleton.mp (reached _ second)
    cases here
    cases there
    rfl
  · have assembled : ∃ results,
        assemble [.fragment personFragment, .operation besideOperation] = .ok results :=
      exists_of_isOk (by decide +kernel)
    obtain ⟨results, assembled⟩ := assembled
    exact ⟨results, assembled, assemble_coverage assembled⟩

def withinOperation : Operation where
  type := .query
  fields := ⟨[("viewer", .mk { spreads := ["Person"] }
    [("friend", .mk { spreads := ["Person"] } [])])], by decide⟩
  nonempty := by decide
  single := by decide

/-- A field is selected inside of the friend, and nothing is expected of it there. -/
theorem withinOperation_not_covered :
    ∃ result, assemble [.fragment personFragment, .operation withinOperation] = .ok [result] ∧
      ∃ level spreads fields key field,
        Stands (Fragment.named? [personFragment]) withinOperation.fields.entries level spreads
          fields ∧
        (key, field) ∈ fields ∧
        (field.attributes.responseKey key, level) ∉ result.assembly.expectations.keys := by
  have slots : (assemble [.fragment personFragment, .operation withinOperation]).toOption.map
      (List.map fun result => result.assembly.expectations.keys) =
      some [[("viewer", 1), ("pet", 2), ("friend", 2)]] := by
    decide +kernel
  have friend : Stands (Fragment.named? [personFragment]) withinOperation.fields.entries 3
      ["Person"] [] :=
    .inside (.inside .root List.mem_cons_self) List.mem_cons_self
  have found : Fragment.named? [personFragment] "Person" = some personFragment := rfl
  cases assembled : assemble [.fragment personFragment, .operation withinOperation] with
  | error cause =>
      rw [assembled] at slots
      cases slots
  | ok results =>
      rw [assembled] at slots
      obtain ⟨result, rfl, keys⟩ := List.map_eq_singleton_iff.mp (Option.some.inj slots)
      refine ⟨result, rfl, 3, _, _, "pet", _, .through friend List.mem_cons_self found,
        List.mem_cons_self, ?_⟩
      rw [keys]
      decide

end GraphRequest
