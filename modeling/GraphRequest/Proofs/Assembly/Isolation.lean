import GraphRequest.Proofs.Assembly.Acceptance
import GraphRequest.Proofs.Fragment.Registration
import GraphRequest.Proofs.Walk.Agreement

/-!
Operations do not see each other, and they see only those fragments that they need. In a list of parts
an operation becomes what it becomes alone with the fragments, wherever these stand.
-/

namespace GraphRequest

def onState {ε σ α : Type} (change : σ → σ) : EStateM.Result ε σ α → EStateM.Result ε σ α
  | .ok a state => .ok a (change state)
  | .error e state => .error e (change state)

namespace Assembly

theorem keepVariable_register (name : String) (first : Variable) (registry : Fragments)
    (assembly : Assembly) :
    keepVariable name first (assembly.register registry) =
      (keepVariable name first assembly).register registry := by
  rw [keepVariable, keepVariable, register]
  split <;> rfl

theorem introduceVariables_register (declared : List (String × DeclaredVariable))
    (registry : Fragments) (assembly : Assembly) :
    introduceVariables declared (assembly.register registry) =
      onState (register registry) (introduceVariables declared assembly) := by
  induction declared generalizing assembly with
  | nil => rfl
  | cons entry rest ih =>
      obtain ⟨name, declared⟩ := entry
      rw [introduceVariables_cons_run, introduceVariables_cons_run]
      cases declared.named name with
      | error cause => rfl
      | ok named =>
          dsimp only
          rw [keepVariable_register, ih]
          cases introduceVariables rest (keepVariable name named assembly) <;> rfl

/-- A registry may be exchanged for one that provides the same under all names that are needed. -/
theorem selectFields_register {declared : List (String × DeclaredField)} {site : Site}
    {assembly : Assembly} {registry : Fragments} {pool : String → Prop}
    (agrees : assembly.scope.AgreesOn pool (assembly.register registry).scope)
    (within : Visit.Within pool (fieldsVisits assembly.known site declared)) :
    selectFields declared site (assembly.register registry) =
      onState (register registry) (selectFields declared site assembly) := by
  have same := @performAll_transfer pool assembly.scope (assembly.register registry).scope
    assembly.expanding { definitions := assembly.definitions } _ agrees within
  have known : (assembly.register registry).known = assembly.known := rfl
  have expanding : (assembly.register registry).expanding = assembly.expanding := rfl
  have definitions : (assembly.register registry).definitions = assembly.definitions := rfl
  rw [selectFields_eq, selectFields_eq, known, expanding, definitions, same]
  cases Visit.performAll (expandFragment assembly.scope assembly.expanding)
    (fieldsVisits assembly.known site declared) { definitions := assembly.definitions } <;> rfl

end Assembly

theorem Operation.assemble_register (operation : Operation) (base : Assembly) {registry : Fragments}
    (agrees : ∀ name, operation.Needs base.fragments.get? name →
      registry.get? name = base.fragments.get? name) :
    operation.assemble (base.register registry) =
      onState (Assembly.register registry) (operation.assemble base) := by
  rw [Operation.assemble, bind_run, bind_run, Assembly.introduceVariables_register]
  cases introduced : Assembly.introduceVariables operation.inputs.entries base with
  | error cause after => rfl
  | ok definitions middle =>
      obtain ⟨-, -, known, rfl⟩ := Assembly.introduceVariables_eq_ok introduced
      have scopes : (Assembly.scope { base with known }).AgreesOn
          (operation.Needs base.fragments.get?)
          (Assembly.register registry { base with known }).scope :=
        ⟨rfl, agrees, fun _ needed _ leads => needed.step leads⟩
      have selected := Assembly.selectFields_register scopes fun spread member =>
        .root (Assembly.fieldsVisits_spreadNames known Site.root operation.fields.entries spread member)
      dsimp only [onState]
      rw [bind_run, bind_run, selected]
      cases Assembly.selectFields operation.fields.entries Site.root { base with known } with
      | error cause after => rfl
      | ok selections after =>
          have same : (after.register registry).known = after.known := rfl
          dsimp only [onState]
          rw [Assembly.get_bind_run, Assembly.get_bind_run, same, bind_run, bind_run]
          cases Directive.checkAll after.known operation.directives <;> rfl

namespace AssembledRequest

def unregistered (result : AssembledRequest) : AssembledRequest :=
  { result with assembly := result.assembly.register .empty }

end AssembledRequest

theorem assembleOne_of_registered {declared : List Fragment} {operation : Operation}
    {base : Assembly} (registered : Assembly.introduceFragments declared
      (.new operation.effectiveName) = .ok () base) :
    assembleOne declared operation =
      match operation.assemble base with
      | .ok document assembly => .ok (.of document assembly)
      | .error cause _ => .error cause := by
  cases assembled : operation.assemble base <;>
    simp only [assembleOne, bind_run, registered, assembled]

theorem assembleOne_congr {declared others : List Fragment} {operation : Operation}
    (registrable : Fragment.Registrable declared) (alsoRegistrable : Fragment.Registrable others)
    (agrees : ∀ name, operation.Needs (Fragment.named? declared) name →
      Fragment.named? others name = Fragment.named? declared name) :
    (assembleOne others operation).map AssembledRequest.unregistered =
      (assembleOne declared operation).map AssembledRequest.unregistered := by
  obtain ⟨registry, registered, found⟩ := registrable.registered operation.effectiveName
  obtain ⟨other, otherRegistered, otherFound⟩ := alsoRegistrable.registered operation.effectiveName
  rw [← found, ← otherFound] at agrees
  have moved : operation.assemble ((Assembly.new operation.effectiveName).register other) =
      onState (Assembly.register other)
        (operation.assemble ((Assembly.new operation.effectiveName).register registry)) :=
    operation.assemble_register ((Assembly.new operation.effectiveName).register registry) agrees
  rw [assembleOne_of_registered registered, assembleOne_of_registered otherRegistered, moved]
  cases operation.assemble ((Assembly.new operation.effectiveName).register registry) <;> rfl

theorem assembleEach_congr {declared others : List Fragment} {operations : List Operation}
    (each : ∀ operation ∈ operations,
      (assembleOne others operation).map AssembledRequest.unregistered =
        (assembleOne declared operation).map AssembledRequest.unregistered) :
    (assembleEach others operations).map (List.map AssembledRequest.unregistered) =
      (assembleEach declared operations).map (List.map AssembledRequest.unregistered) := by
  -- what is left of a list is put together from what is left of its operations
  have listed : ∀ fragments operation rest,
      (assembleEach fragments (operation :: rest)).map (List.map AssembledRequest.unregistered) =
        (do
          let first ← (assembleOne fragments operation).map AssembledRequest.unregistered
          let later ← (assembleEach fragments rest).map (List.map AssembledRequest.unregistered)
          return first :: later) := by
    intro fragments operation rest
    rw [assembleEach]
    cases assembleOne fragments operation with
    | error cause => rfl
    | ok first => cases assembleEach fragments rest <;> rfl
  induction operations with
  | nil => rfl
  | cons operation rest ih =>
      rw [List.forall_mem_cons] at each
      rw [listed, listed, each.1, ih each.2]

def Part.alone (declared : List Fragment) (operation : Operation) : List Part :=
  declared.map .fragment ++ [.operation operation]

theorem assemble_alone (declared : List Fragment) (operation : Operation) :
    assemble (Part.alone declared operation) =
      (assembleOne declared operation).map fun result => [result] := by
  have fragments : Part.fragments (Part.alone declared operation) = declared := by
    rw [Part.alone, Part.fragments, List.filterMap_append, List.filterMap_map]
    simp
  have operations : Part.operations (Part.alone declared operation) = [operation] := by
    rw [Part.alone, Part.operations, List.filterMap_append, List.filterMap_map]
    simp
  rw [assemble, fragments, operations, assembleEach]
  cases assembleOne declared operation <;> rfl

theorem assembleEach_ok_iff {declared : List Fragment} {operations : List Operation} :
    (∃ results, assembleEach declared operations = .ok results) ↔
      ∀ operation ∈ operations, ∃ result, assembleOne declared operation = .ok result := by
  simp only [assembleEach_eq_ok_iff]
  induction operations with
  | nil => simp
  | cons operation rest ih =>
      rw [List.forall_mem_cons, ← ih]
      constructor
      · rintro ⟨_, each⟩
        cases each with
        | cons first others => exact ⟨⟨_, first⟩, _, others⟩
      · rintro ⟨⟨_, first⟩, _, others⟩
        exact ⟨_, .cons first others⟩

theorem assembleEach_eq_error {declared : List Fragment} {operations : List Operation}
    {cause : RequestError} (failed : assembleEach declared operations = .error cause) :
    ∃ before operation after, operations = before ++ operation :: after ∧
      (∀ earlier ∈ before, ∃ result, assembleOne declared earlier = .ok result) ∧
      assembleOne declared operation = .error cause := by
  induction operations with
  | nil => cases failed
  | cons operation rest ih =>
      rw [assembleEach] at failed
      cases first : assembleOne declared operation with
      | error other =>
          rw [first] at failed
          cases failed
          exact ⟨[], operation, rest, rfl, by simp, first⟩
      | ok result =>
          cases others : assembleEach declared rest with
          | ok later =>
              rw [first, others] at failed
              cases failed
          | error other =>
              rw [first, others] at failed
              cases failed
              obtain ⟨before, later, after, rfl, earlier, fails⟩ := ih others
              exact ⟨operation :: before, later, after, rfl,
                List.forall_mem_cons.mpr ⟨⟨result, first⟩, earlier⟩, fails⟩

/-- What becomes of a list of parts, told by what becomes of each operation alone. -/
structure Isolated (parts : List Part) : Prop where
  ok_iff : (∃ results, assemble parts = .ok results) ↔
    ∀ operation ∈ Part.operations parts,
      ∃ results, assemble (Part.alone (Part.fragments parts) operation) = .ok results
  results : ∀ results, assemble parts = .ok results →
    List.Forall₂
      (fun operation result =>
        assemble (Part.alone (Part.fragments parts) operation) = .ok [result])
      (Part.operations parts) results
  fails : ∀ cause, assemble parts = .error cause →
    ∃ before operation after, Part.operations parts = before ++ operation :: after ∧
      (∀ earlier ∈ before,
        ∃ results, assemble (Part.alone (Part.fragments parts) earlier) = .ok results) ∧
      assemble (Part.alone (Part.fragments parts) operation) = .error cause

structure Spare (declared : List Fragment) (operation : Operation) (extra : List Fragment) : Prop where
  fresh : ∀ fragment ∈ extra, fragment.name ∉ declared.map Fragment.name
  distinct : (extra.map Fragment.name).Nodup
  apart : ∀ fragment ∈ extra, fragment.name ∉ fragment.includes
  unneeded : ∀ fragment ∈ extra, ¬operation.Needs (Fragment.named? declared) fragment.name

/-- What becomes of an operation alone with the fragments of a list of parts: the error, or the
result. The registry, which lists the fragments in their order, does not count. -/
def outcome (parts : List Part) (operation : Operation) :
    Except RequestError (List AssembledRequest) :=
  (assemble (Part.alone (Part.fragments parts) operation)).map
    (List.map AssembledRequest.unregistered)

theorem outcome_eq (parts : List Part) (operation : Operation) :
    outcome parts operation =
      ((assembleOne (Part.fragments parts) operation).map AssembledRequest.unregistered).map
        fun result => [result] := by
  rw [outcome, assemble_alone]
  cases assembleOne (Part.fragments parts) operation <;> rfl

theorem assemble_alone_ok_iff {declared : List Fragment} {operation : Operation} :
    (∃ results, assemble (Part.alone declared operation) = .ok results) ↔
      ∃ result, assembleOne declared operation = .ok result := by
  rw [assemble_alone]
  cases assembleOne declared operation <;> simp [Except.map]

theorem isolated (parts : List Part) : Isolated parts where
  ok_iff := by
    simp only [assemble_alone_ok_iff]
    exact assembleEach_ok_iff
  results results assembled := by
    refine (assembleEach_eq_ok_iff.mp assembled).imp fun operation result alone => ?_
    rw [assemble_alone, alone]
    rfl
  fails cause failed := by
    obtain ⟨before, operation, after, split, earlier, fails⟩ := assembleEach_eq_error failed
    refine ⟨before, operation, after, split, fun other member => ?_, ?_⟩
    · exact assemble_alone_ok_iff.mpr (earlier other member)
    · rw [assemble_alone, fails]
      rfl

theorem Spare.assembleOne_unregistered {declared others extra : List Fragment}
    {operation : Operation} (spare : Spare declared operation extra)
    (registrable : Fragment.Registrable declared) (reordered : others.Perm (declared ++ extra)) :
    (assembleOne others operation).map AssembledRequest.unregistered =
      (assembleOne declared operation).map AssembledRequest.unregistered := by
  have enlarged := (registrable.append ⟨spare.distinct, spare.apart⟩ spare.fresh).perm reordered
  refine assembleOne_congr registrable enlarged fun name needed => ?_
  apply registrable.named?_eq enlarged reordered
  intro added
  obtain ⟨fragment, member, rfl⟩ := List.mem_map.mp added
  exact spare.unneeded fragment member needed

/-- Operations are isolated, and fragments may stand in any order and beside others that are not
needed. -/
theorem assemble_isolated (parts : List Part) :
    Isolated parts ∧ ∀ others extra name base,
      Assembly.introduceFragments (Part.fragments parts) (.new name) = .ok () base →
      (Part.fragments others).Perm (Part.fragments parts ++ extra) →
      (∀ operation, Spare (Part.fragments parts) operation extra →
        outcome others operation = outcome parts operation) ∧
      (Part.operations others = Part.operations parts →
        (∀ operation ∈ Part.operations parts, Spare (Part.fragments parts) operation extra) →
        (assemble others).map (List.map AssembledRequest.unregistered) =
          (assemble parts).map (List.map AssembledRequest.unregistered)) := by
  refine ⟨isolated parts, fun others extra name base registered reordered => ⟨?_, ?_⟩⟩
  · intro operation spare
    have registrable := Assembly.introduceFragments_new_iff.mp ⟨base, registered⟩
    rw [outcome_eq, outcome_eq, spare.assembleOne_unregistered registrable reordered]
  · intro operations spare
    have registrable := Assembly.introduceFragments_new_iff.mp ⟨base, registered⟩
    rw [assemble, assemble, operations]
    exact assembleEach_congr fun operation member =>
      (spare operation member).assembleOne_unregistered registrable reordered

def unusedFragment : Fragment where
  name := "Unused"
  typeCondition := "User"
  includes := ["User", "Missing"]

def scatteredParts : List Part :=
  .fragment unusedFragment :: sharedParts.reverse

theorem scatteredParts_outcome : ∃ operation base,
    Part.operations sharedParts = [operation] ∧ Part.operations scatteredParts = [operation] ∧
    Assembly.introduceFragments (Part.fragments sharedParts) (.new "Query") = .ok () base ∧
    (Part.fragments scatteredParts).Perm (Part.fragments sharedParts ++ [unusedFragment]) ∧
    Spare (Part.fragments sharedParts) operation [unusedFragment] ∧
    (outcome sharedParts operation).isOk = true ∧
    outcome scatteredParts operation = outcome sharedParts operation ∧
    (assemble scatteredParts).map (List.map AssembledRequest.unregistered) =
      (assemble sharedParts).map (List.map AssembledRequest.unregistered) := by
  have listed : Part.fragments scatteredParts =
      unusedFragment :: (Part.fragments sharedParts).reverse := rfl
  have reordered : (Part.fragments scatteredParts).Perm
      (Part.fragments sharedParts ++ [unusedFragment]) := by
    rw [listed]
    exact ((List.reverse_perm _).cons _).trans (List.perm_append_singleton _ _).symm
  have spare : ∀ operation ∈ Part.operations sharedParts,
      Spare (Part.fragments sharedParts) operation [unusedFragment] := by
    intro operation single
    obtain rfl := List.mem_singleton.mp single
    refine ⟨by decide, by decide, by decide, fun fragment member needed => ?_⟩
    rcases List.mem_singleton.mp member with rfl
    have pooled : unusedFragment.name ∈ ["Card", "User", "Base"] :=
      Reached.mem_of_closed (by decide) (by decide) needed
    exact absurd pooled (by decide)
  obtain ⟨alone, together⟩ :=
    (assemble_isolated sharedParts).2 scatteredParts _ "Query" _ rfl reordered
  exact ⟨_, _, rfl, rfl, rfl, reordered, spare _ List.mem_cons_self, by decide +kernel,
    alone _ (spare _ List.mem_cons_self), together rfl spare⟩

end GraphRequest
