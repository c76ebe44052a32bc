import GraphRequest.Proofs.Walk.Run
import GraphRequest.Request
import Mathlib.Data.List.Forall2

/-!
What a request that could be assembled consists of: the registered fragments, the variables that
values may refer to, and one completed run over the root fields.
-/

namespace GraphRequest

section Runs

variable {σ α β : Type}

theorem bind_eq_ok (step : EStateM RequestError σ α) (next : α → EStateM RequestError σ β)
    (state final : σ) (b : β) :
    (step >>= next) state = .ok b final ↔
      ∃ a middle, step state = .ok a middle ∧ next a middle = .ok b final := by
  rw [bind_run]
  cases step state <;> simp

theorem ofExcept_eq_ok (result : Except RequestError α) (state final : σ) (a : α) :
    ofExcept result state = .ok a final ↔ result = .ok a ∧ state = final := by
  rw [ofExcept_run]
  cases result <;> simp

theorem pure_eq_ok (a b : α) (state final : σ) :
    (pure a : EStateM RequestError σ α) state = .ok b final ↔ a = b ∧ state = final := by
  rw [pure_run, EStateM.Result.ok.injEq]

theorem exists_of_isOk {result : Except RequestError α} (ok : result.isOk = true) :
    ∃ a, result = .ok a := by
  cases result with
  | ok a => exact ⟨a, rfl⟩
  | error cause => cases ok

end Runs

namespace Assembly

theorem get_bind_run {β : Type} (next : Assembly → AssemblyM β) (assembly : Assembly) :
    (get >>= next) assembly = next assembly assembly := rfl

theorem advance_run {α : Type} (select : Scope → Expander → ProgressM α) (visits : List Visit)
    (node : α) (assembly : Assembly)
    (performs : ∀ expander, select assembly.scope expander = (do
      Visit.performAll expander visits
      return node)) :
    advance select assembly =
      match Visit.performAll (expandFragment assembly.scope assembly.expanding) visits
          { definitions := assembly.definitions } with
      | .ok _ progress => .ok node (assembly.settle progress)
      | .error cause progress => .error cause (assembly.settle progress) := by
  rw [advance, performs, bind_run]
  cases Visit.performAll (expandFragment assembly.scope assembly.expanding) visits
    { definitions := assembly.definitions } <;> rfl

theorem performed_eq_ok {α : Type} {visits : List Visit} {node a : α} {assembly after : Assembly}
    (ran : (match Visit.performAll (expandFragment assembly.scope assembly.expanding) visits
        { definitions := assembly.definitions } with
      | .ok _ progress => .ok node (assembly.settle progress)
      | .error cause progress => .error cause (assembly.settle progress)) =
        (.ok a after : EStateM.Result RequestError Assembly α)) :
    a = node ∧ ∃ progress,
      Completes assembly.scope assembly.expanding { definitions := assembly.definitions } visits
        progress ∧
      after = assembly.settle progress := by
  cases performed : Visit.performAll (expandFragment assembly.scope assembly.expanding) visits
      { definitions := assembly.definitions } with
  | error cause progress =>
      rw [performed] at ran
      cases ran
  | ok _ progress =>
      rw [performed] at ran
      cases ran
      exact ⟨rfl, progress, completes_of_performAll performed, rfl⟩

theorem selectFields_eq (declared : List (String × DeclaredField)) (site : Site)
    (assembly : Assembly) :
    selectFields declared site assembly =
      match Visit.performAll (expandFragment assembly.scope assembly.expanding)
          (fieldsVisits assembly.known site declared) { definitions := assembly.definitions } with
      | .ok _ progress => .ok (fieldNodes declared) (assembly.settle progress)
      | .error cause progress => .error cause (assembly.settle progress) :=
  advance_run _ _ _ _ fun expander => fieldSelections_eq_performAll _ expander site declared

theorem selectFields_eq_ok {declared : List (String × DeclaredField)} {site : Site}
    {assembly after : Assembly} {selections : List Document.Selection}
    (selected : selectFields declared site assembly = .ok selections after) :
    selections = fieldNodes declared ∧ ∃ progress,
      Completes assembly.scope assembly.expanding { definitions := assembly.definitions }
        (fieldsVisits assembly.known site declared) progress ∧
      after = assembly.settle progress := by
  rw [selectFields_eq] at selected
  exact performed_eq_ok selected

theorem add_eq_ok_iff {registry extended : Fragments} {fragment : Fragment} :
    registry.add fragment = .ok extended ↔
      fragment.name ∉ registry.keys ∧ fragment.name ∉ fragment.includes ∧
        registry.insert fragment.name fragment = extended := by
  rw [Fragments.add, ← OrderedMap.contains_iff]
  split
  · next taken => simp [taken]
  · next missing =>
      split
      · next included => simp [included]
      · next apart => simp [missing, apart]

theorem introduceFragment_eq_ok_iff {fragment : Fragment} {assembly after : Assembly} :
    introduceFragment fragment assembly = .ok () after ↔
      fragment.name ∉ assembly.fragments.keys ∧ fragment.name ∉ fragment.includes ∧
        { assembly with fragments := assembly.fragments.insert fragment.name fragment } = after := by
  rw [introduceFragment, get_bind_run, bind_eq_ok]
  constructor
  · rintro ⟨extended, _, accepted, changed⟩
    obtain ⟨added, rfl⟩ := (ofExcept_eq_ok _ _ _ _).mp accepted
    obtain ⟨absent, apart, rfl⟩ := add_eq_ok_iff.mp added
    cases changed
    exact ⟨absent, apart, rfl⟩
  · rintro ⟨absent, apart, rfl⟩
    have added := add_eq_ok_iff.mpr ⟨absent, apart, rfl⟩
    exact ⟨_, assembly, (ofExcept_eq_ok _ _ _ _).mpr ⟨added, rfl⟩, rfl⟩

theorem introduceFragments_eq_ok {declared : List Fragment} {assembly after : Assembly}
    (introduced : introduceFragments declared assembly = .ok () after) :
    ∃ registry : Fragments, after = { assembly with fragments := registry } ∧
      registry.entries = assembly.fragments.entries ++
        declared.map (fun fragment => (fragment.name, fragment)) := by
  induction declared generalizing assembly with
  | nil =>
      rcases (pure_eq_ok _ _ _ _).mp introduced with ⟨-, rfl⟩
      exact ⟨assembly.fragments, rfl, by simp⟩
  | cons fragment rest ih =>
      rcases (bind_eq_ok _ _ _ _ _).mp introduced with ⟨_, middle, first, others⟩
      obtain ⟨absent, -, rfl⟩ := introduceFragment_eq_ok_iff.mp first
      obtain ⟨registry, rfl, entries⟩ := ih others
      refine ⟨registry, rfl, ?_⟩
      rw [entries, OrderedMap.entries_insert_of_absent absent, List.map_cons, List.append_assoc]
      rfl

end Assembly

def DeclaredVariable.header (entry : String × DeclaredVariable) : Document.VariableDefinition :=
  ⟨entry.1, entry.2.typeName, !entry.2.nonNullable⟩

theorem DeclaredVariable.named_eq_ok {declared : DeclaredVariable} {name : String}
    {named : Variable} (accepted : declared.named name = .ok named) :
    '!' ∉ declared.typeName.toList ∧ declared.value.hasReference = false ∧
      named = ⟨name, ⟨declared.typeName, !declared.nonNullable⟩, declared.value⟩ := by
  rw [DeclaredVariable.named] at accepted
  split at accepted
  · cases accepted
  · next unmarked =>
      split at accepted
      · cases accepted
      · next independent =>
          exact ⟨unmarked, by simpa using independent, (Except.ok.inj accepted).symm⟩

namespace Assembly

theorem keepVariable_eq (name : String) (first : Variable) (assembly : Assembly) :
    ∃ known, keepVariable name first assembly = { assembly with known } := by
  rw [keepVariable]
  split
  · exact ⟨assembly.known, rfl⟩
  · exact ⟨_, rfl⟩

theorem introduceVariables_eq_ok {declared : List (String × DeclaredVariable)}
    {assembly after : Assembly} {definitions : List Document.VariableDefinition}
    (introduced : introduceVariables declared assembly = .ok definitions after) :
    definitions = declared.map DeclaredVariable.header ∧
      (∀ entry ∈ declared, '!' ∉ entry.2.typeName.toList) ∧
      ∃ known, after = { assembly with known } := by
  induction declared generalizing assembly definitions with
  | nil =>
      rcases (pure_eq_ok _ _ _ _).mp introduced with ⟨rfl, rfl⟩
      exact ⟨rfl, by simp, assembly.known, rfl⟩
  | cons entry rest ih =>
      rcases entry with ⟨name, declared⟩
      rcases (bind_eq_ok _ _ _ _ _).mp introduced with ⟨named, _, naming, keeping⟩
      rcases (ofExcept_eq_ok _ _ _ _).mp naming with ⟨accepted, rfl⟩
      obtain ⟨unmarked, -, rfl⟩ := DeclaredVariable.named_eq_ok accepted
      rcases (bind_eq_ok _ _ _ _ _).mp keeping with ⟨_, middle, kept, others⟩
      obtain ⟨first, keeps⟩ := keepVariable_eq name
        ⟨name, ⟨declared.typeName, !declared.nonNullable⟩, declared.value⟩ assembly
      have changed : middle = { assembly with known := first } := by
        rw [← keeps]
        cases kept
        rfl
      subst changed
      rcases (bind_eq_ok _ _ _ _ _).mp others with ⟨later, _, ran, listed⟩
      rcases (pure_eq_ok _ _ _ _).mp listed with ⟨rfl, rfl⟩
      obtain ⟨rfl, unmarkedRest, known, rfl⟩ := ih ran
      refine ⟨rfl, ?_, known, rfl⟩
      intro entry member
      rcases List.mem_cons.mp member with rfl | member
      · exact unmarked
      · exact unmarkedRest entry member

end Assembly

def Operation.document (operation : Operation) (definitions : Definitions) : Document where
  fragments := definitions.values
  operation := {
    type := operation.type
    name := operation.effectiveName
    definitions := operation.inputs.entries.map DeclaredVariable.header
    directives := operation.directives
    selections := Assembly.fieldNodes operation.fields.entries }

/-- The result of an operation, told by one completed run. -/
structure Assembles (declared : List Fragment) (operation : Operation) (result : AssembledRequest)
    (progress : Progress) : Prop where
  unmarked : ∀ entry ∈ operation.inputs.entries, '!' ∉ entry.2.typeName.toList
  registry : result.assembly.fragments.entries =
    declared.map fun fragment => (fragment.name, fragment)
  run : Completes result.assembly.scope [] { definitions := .empty }
    (Assembly.fieldsVisits result.assembly.known Site.root operation.fields.entries) progress
  directives : Directive.checkAll result.assembly.known operation.directives = .ok ()
  name : result.assembly.name = operation.effectiveName
  definitions : result.assembly.definitions = progress.definitions
  expectations : result.assembly.expectations = Expectations.putAll .empty progress.met
  document : result.document = operation.document progress.definitions
  result : result = .of result.document result.assembly

/-- An operation is assembled by introducing its variables, completing one run over its root fields
and checking its directives. -/
theorem Operation.assemble_eq_ok {operation : Operation} {base after : Assembly}
    {document : Document} (assembled : operation.assemble base = .ok document after) :
    ∃ known progress,
      Assembly.introduceVariables operation.inputs.entries base =
        .ok (operation.inputs.entries.map DeclaredVariable.header) { base with known } ∧
      Completes ⟨known, base.fragments⟩ base.expanding { definitions := base.definitions }
        (Assembly.fieldsVisits known Site.root operation.fields.entries) progress ∧
      Directive.checkAll known operation.directives = .ok () ∧
      document = operation.document progress.definitions ∧
      after = Assembly.settle { base with known } progress := by
  rw [Operation.assemble] at assembled
  rcases (bind_eq_ok _ _ _ _ _).mp assembled with ⟨definitions, _, inputs, composed⟩
  obtain ⟨rfl, -, known, rfl⟩ := Assembly.introduceVariables_eq_ok inputs
  rcases (bind_eq_ok _ _ _ _ _).mp composed with ⟨selections, _, selected, composed⟩
  obtain ⟨rfl, progress, run, rfl⟩ := Assembly.selectFields_eq_ok selected
  rw [Assembly.get_bind_run] at composed
  rcases (bind_eq_ok _ _ _ _ _).mp composed with ⟨_, _, checking, composed⟩
  rcases (ofExcept_eq_ok _ _ _ _).mp checking with ⟨checked, rfl⟩
  rw [Assembly.get_bind_run] at composed
  rcases (pure_eq_ok _ _ _ _).mp composed with ⟨rfl, rfl⟩
  exact ⟨known, progress, inputs, run, checked, rfl, rfl⟩

theorem assembleOne_eq_ok {declared : List Fragment} {operation : Operation}
    {result : AssembledRequest} (assembled : assembleOne declared operation = .ok result) :
    ∃ progress, Assembles declared operation result progress := by
  rw [assembleOne] at assembled
  split at assembled
  · next document assembly steps =>
      rcases (bind_eq_ok _ _ _ _ _).mp steps with ⟨_, introduced, fragments, composed⟩
      obtain ⟨registry, rfl, entries⟩ := Assembly.introduceFragments_eq_ok fragments
      obtain ⟨known, progress, inputs, run, checked, rfl, rfl⟩ := Operation.assemble_eq_ok composed
      obtain ⟨-, unmarked, -⟩ := Assembly.introduceVariables_eq_ok inputs
      rcases Except.ok.inj assembled with rfl
      exact ⟨progress, unmarked, entries, run, checked, rfl, rfl, rfl, rfl, rfl⟩
  · cases assembled

theorem assembleEach_eq_ok_iff {declared : List Fragment} {operations : List Operation}
    {results : List AssembledRequest} :
    assembleEach declared operations = .ok results ↔
      List.Forall₂ (fun operation result => assembleOne declared operation = .ok result)
        operations results := by
  induction operations generalizing results with
  | nil =>
      rw [assembleEach, List.forall₂_nil_left_iff, Except.ok.injEq]
      exact eq_comm
  | cons operation rest ih =>
      rw [assembleEach, List.forall₂_cons_left_iff]
      simp only [← ih]
      cases assembleOne declared operation with
      | error cause => simp [bind, Except.bind]
      | ok first =>
          cases assembleEach declared rest with
          | error cause => simp [bind, Except.bind]
          | ok later => simp [bind, Except.bind, pure, Except.pure, eq_comm]

theorem assemble_eq_ok {parts : List Part} {results : List AssembledRequest}
    (assembled : assemble parts = .ok results) :
    List.Forall₂ (fun operation result => assembleOne (Part.fragments parts) operation = .ok result)
      (Part.operations parts) results :=
  assembleEach_eq_ok_iff.mp assembled

theorem exists_assembleOne {parts : List Part} {results : List AssembledRequest}
    (assembled : assemble parts = .ok results) :
    ∀ result ∈ results, ∃ operation, assembleOne (Part.fragments parts) operation = .ok result := by
  have each : List.Forall₂ (fun result (_ : Operation) =>
      (∃ operation, assembleOne (Part.fragments parts) operation = .ok result) ∧ True)
      results (Part.operations parts) :=
    ((assemble_eq_ok assembled).imp fun operation _ one => ⟨⟨operation, one⟩, trivial⟩).flip
  exact ((List.forall₂_and_left _ _).mp each).1

end GraphRequest
