import GraphRequest.Proofs.Document.Position
import GraphRequest.Proofs.Expectation.LastWrite
import GraphRequest.Proofs.Expectation.Registered
import GraphRequest.Proofs.Expectation.Registry

/-!
Places and levels of expectations. From one level to the next a path grows by one response key, which
a position follows if the field yields a list.
-/

namespace GraphRequest

namespace PathStep

def Adjoins (first second : PathStep) : Prop :=
  ¬(first = .index ∧ second = .index)

/-- The steps from an object to a place inside of it. They begin with a response key. -/
structure Lead (steps : List PathStep) : Prop where
  first : ∀ step ∈ steps.head?, step ≠ .index
  apart : steps.IsChain Adjoins

theorem lead_field (name : String) (isList : Bool) :
    Lead (.key name :: if isList then [.index] else []) := by
  constructor
  · rintro step ⟨⟩
    simp
  · cases isList <;> simp [Adjoins]

theorem Lead.append {steps more : List PathStep} (lead : Lead steps) (onward : Lead more) :
    Lead (steps ++ more) where
  first step := by
    cases steps with
    | nil => exact onward.first step
    | cons head rest => exact lead.first step
  apart := by
    refine List.isChain_append.mpr ⟨lead.apart, onward.apart, ?_⟩
    intro _ _ next follows same
    exact onward.first next follows same.2

end PathStep

theorem Path.getLast?_extend (path : Path) (responseKey : String) (isList : Bool) :
    (path.extend responseKey isList).steps.getLast? = some .index ↔ isList := by
  cases isList <;> simp [extend]

/-- The site lies at `base` or inside of a field there. Its path has as many keys more as its level is
below. -/
structure Site.Within (base site : Site) : Prop where
  path : ∃ steps, site.path.steps = base.path.steps ++ steps ∧ PathStep.Lead steps
  level : site.path.keys.length + base.level = base.path.keys.length + site.level

theorem Site.within_self (base : Site) : base.Within base where
  path := ⟨[], (List.append_nil _).symm, ⟨by simp, .nil⟩⟩
  level := rfl

namespace PlacedField

variable {base : Site} {placed : PlacedField}

theorem path_eq (placed : PlacedField) :
    placed.expectation.path = placed.site.path.extend (placed.declared.attributes.responseKey placed.key)
      (placed.declared.attributes.yieldsList placed.key) := rfl

theorem exists_lead (within : base.Within placed.site) :
    ∃ steps, placed.expectation.path.steps = base.path.steps ++ steps ∧ steps ≠ [] ∧
      PathStep.Lead steps := by
  obtain ⟨steps, path, lead⟩ := within.path
  have onward := PathStep.lead_field (placed.declared.attributes.responseKey placed.key)
    (placed.declared.attributes.yieldsList placed.key)
  refine ⟨_, ?_, List.append_ne_nil_of_right_ne_nil steps (List.cons_ne_nil _ _), lead.append onward⟩
  rw [path_eq, Path.extend, path, List.append_assoc]

theorem length_keys (placed : PlacedField) :
    placed.expectation.path.keys.length = placed.site.path.keys.length + 1 := by
  rw [path_eq, Path.keys_extend, List.length_append, List.length_singleton]

end PlacedField

theorem Site.within_handedDown (base : Site) :
    HandedDown fun _ site => base.Within site := by
  intro outer placed within
  obtain ⟨steps, path, -, lead⟩ := PlacedField.exists_lead within
  refine ⟨⟨steps, path, lead⟩, ?_⟩
  have level : placed.inner.level = placed.site.level + 1 := rfl
  have keys : placed.inner.path.keys.length = placed.site.path.keys.length + 1 := placed.length_keys
  have same := within.level
  omega

theorem ShapeEvidence.yieldsList_of_shape {attributes : FieldAttributes} {hasFields : Bool}
    {key : String} {inherited : Option String}
    (shaped : (attributes.evidence hasFields key inherited).shape ∈ [.edges, .nodeList]) :
    attributes.yieldsList key := by
  rw [shape] at shaped
  simp only [FieldAttributes.evidence] at shaped
  grind [FieldAttributes.yieldsList]

namespace SelectionCall

/-- By how much the number of keys in a path is ahead of the level, for what the call registers. The
fields of a spread are one level below the spread. -/
def lead : SelectionCall → Int
  | field _ _ site => site.path.keys.length + 1 - site.level
  | spread _ path level _ => path.keys.length - level

/-- The place and the level at which a field that the call comes to is expected. -/
structure Books (call : SelectionCall) (placed : PlacedField) : Prop where
  path : ∃ name steps, placed.expectation.path.steps = call.site.path.steps ++ .key name :: steps ∧
    (PathStep.key name :: steps).IsChain PathStep.Adjoins
  level : (placed.expectation.path.keys.length : Int) - placed.expectation.level = call.lead
  responseKey : placed.expectation.responseKey =
    placed.declared.attributes.aliasName.getD placed.key
  lastKey : placed.expectation.path.keys.getLast? = some placed.expectation.responseKey
  position : placed.expectation.path.steps.getLast? = some .index ↔
    placed.expectation.key = "edges" ∨ placed.declared.attributes.flags.edges ∨
      placed.declared.attributes.flags.list
  shaped : placed.expectation.shape ∈ [.edges, .nodeList] →
    placed.expectation.path.steps.getLast? = some .index

theorem books_of_within {call : SelectionCall} {placed : PlacedField}
    (within : call.site.Within placed.site) : call.Books placed where
  path := by
    obtain ⟨steps, path, present, lead⟩ := PlacedField.exists_lead within
    cases steps with
    | nil => exact absurd rfl present
    | cons step rest =>
        cases step with
        | index => exact absurd rfl (lead.first .index rfl)
        | key name => exact ⟨name, rest, path, lead.apart⟩
  level := by
    have keys := placed.length_keys
    have level : placed.expectation.level = placed.site.level := rfl
    have same := within.level
    cases call with
    | field key declared site =>
        simp only [SelectionCall.site, lead] at same ⊢
        omega
    | spread name path below inherited =>
        simp only [SelectionCall.site, lead] at same ⊢
        omega
  responseKey := rfl
  lastKey := by
    rw [PlacedField.path_eq, Path.keys_extend, List.getLast?_concat]
    rfl
  position := by
    rw [PlacedField.path_eq, Path.getLast?_extend, FieldAttributes.yieldsList]
    simp only [Bool.or_eq_true, decide_eq_true_eq, or_assoc]
    rfl
  shaped shape := by
    rw [PlacedField.path_eq, Path.getLast?_extend]
    exact ShapeEvidence.yieldsList_of_shape shape

end SelectionCall

theorem OperationDraft.within_root (operation : OperationDraft) (fragments : Fragments) :
    ∀ placed ∈ operation.preorder fragments, Site.root.Within placed.site := by
  have whole : (Waypoint.lineal fragments []
      (DeclaredField.lineages [] Site.root operation.fields.entries)).map Prod.snd =
      operation.preorder fragments := by
    rw [Waypoint.lineal_preorder, DeclaredField.lineages_routes]
    rfl
  rw [← whole, List.forall_mem_map]
  have down := Site.root.within_handedDown
  exact Waypoint.lineal_induct down fragments [] _
    (DeclaredField.lineages_induct down Site.root.within_self _)

/-- The level of every expectation is the number of keys in its path. -/
def Assembly.Levelled (assembly : Assembly) : Prop :=
  ∀ entry ∈ assembly.expectations.entries, entry.2.level = entry.2.path.keys.length

theorem assembleOne_levelled {declared : List Fragment} {operation : Operation}
    {result : AssembledRequest} (assembled : assembleOne declared operation = .ok result) :
    result.assembly.Levelled := by
  intro entry kept
  obtain ⟨progress, assembles⟩ := assembleOne_eq_ok assembled
  obtain ⟨met, -⟩ := assembles.run.operation_preorder
  rw [assembles.expectations] at kept
  have there := ((Expectations.mem_entries_putAll kept).resolve_left List.not_mem_nil).1
  rw [met] at there
  obtain ⟨placed, member, same⟩ := List.mem_map.mp there
  have within := (operation.within_root _ placed member).level
  have keys := placed.length_keys
  have level : placed.expectation.level = placed.site.level := rfl
  have root : Site.root.level = 1 ∧ Site.root.path.keys.length = 0 := ⟨rfl, rfl⟩
  rw [← same]
  omega

/-- Whatever a call registers is booked under the place and the level where it is selected, also if
the call fails. Requests start at the root, so that their levels are numbers of keys. -/
theorem registered_booked :
    (∀ (call : SelectionCall) (assembly : Assembly), ∃ fields, call.Registers assembly fields ∧
      ∀ placed ∈ fields, call.Books placed) ∧
    ∀ parts results, assemble parts = .ok results →
      ∀ result ∈ results, result.assembly.Levelled := by
  constructor
  · intro call assembly
    obtain ⟨fields, registers⟩ := call.exists_registers assembly
    refine ⟨fields, registers, fun placed member => SelectionCall.books_of_within ?_⟩
    have reached := registers.first.subset member
    rw [← call.lineal_preorder, List.mem_map] at reached
    obtain ⟨entry, there, rfl⟩ := reached
    exact call.lineal_induct call.site.within_handedDown call.site.within_self assembly entry there
  · intro parts results assembled result member
    obtain ⟨operation, alone⟩ := exists_assembleOne assembled result member
    exact assembleOne_levelled alone

def memberAssembly : Assembly :=
  (Call.fragment { name := "Member", typeCondition := "User", includes := ["Badges"] }).after
    ((Call.fragment {
        name := "Badges"
        typeCondition := "User"
        fields := ⟨[("badges", .mk { scalars := some ["label"], flags.list := true } [])],
          by decide⟩ }).after (.new "Query"))

def crewCall : SelectionCall :=
  .field "team" (.mk { aliasName := some "crew", spreads := ["Member"] } [("leaderNode", .empty)])
    ⟨Path.root.extend "org" false, 4, none⟩

theorem crewCall_booked :
    failure? (crewCall.run memberAssembly) = some (.nothingSelected "org.crew.leaderNode") ∧
    (finalState (crewCall.run memberAssembly)).expectations.values.map
        (fun e => (e.path.text, e.level)) =
      [("org.crew", 4), ("org.crew.badges.#", 5)] ∧
    (∃ fields, crewCall.Registers memberAssembly fields ∧
      ∀ placed ∈ fields, crewCall.Books placed) ∧
    ∃ results, assemble [.fragment authorFragment, .operation feedOperation] = .ok results ∧
      ∀ result ∈ results, result.assembly.Levelled := by
  obtain ⟨results, assembled⟩ : ∃ results,
      assemble [.fragment authorFragment, .operation feedOperation] = .ok results :=
    exists_of_isOk (by decide +kernel)
  exact ⟨by decide +kernel, by decide +kernel, registered_booked.1 crewCall memberAssembly, results,
    assembled, registered_booked.2 _ results assembled⟩

end GraphRequest
