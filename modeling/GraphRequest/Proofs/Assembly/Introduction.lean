import GraphRequest.Proofs.Assembly.Success
import GraphRequest.Proofs.Walk.Completion

/-!
Exactly when an operation is assembled on top of registered fragments: its variables can be declared,
the visits of its root fields can be performed, and its directives can be written.
-/

namespace GraphRequest

structure DeclaredVariable.Declarable (declared : DeclaredVariable) : Prop where
  unmarked : '!' ∉ declared.typeName.toList
  independent : declared.value.hasReference = false

def DeclaredVariable.variableNamed (declared : DeclaredVariable) (name : String) : Variable :=
  ⟨name, ⟨declared.typeName, !declared.nonNullable⟩, declared.value⟩

theorem DeclaredVariable.named_of_declarable {declared : DeclaredVariable} (name : String)
    (declarable : declared.Declarable) :
    declared.named name = .ok (declared.variableNamed name) := by
  rw [named, if_neg declarable.unmarked, declarable.independent, if_neg Bool.false_ne_true]
  rfl

def OperationDraft.introduced (operation : OperationDraft) : Variables where
  entries := operation.inputs.entries.map fun entry => (entry.1, entry.2.variableNamed entry.1)
  distinct := by
    rw [Entries.keys, List.map_map]
    exact operation.inputs.distinct

theorem OperationDraft.introduced_keys (operation : OperationDraft) :
    operation.introduced.keys = operation.inputs.keys := by
  rw [OrderedMap.keys, introduced, Entries.keys, List.map_map]
  rfl

namespace Assembly

theorem introduceVariables_cons_run (name : String) (declared : DeclaredVariable)
    (rest : List (String × DeclaredVariable)) (assembly : Assembly) :
    introduceVariables ((name, declared) :: rest) assembly =
      match declared.named name with
      | .error cause => .error cause assembly
      | .ok named =>
          match introduceVariables rest (keepVariable name named assembly) with
          | .ok definitions after => .ok (⟨named.name, named.type⟩ :: definitions) after
          | .error cause after => .error cause after := by
  rw [introduceVariables, bind_run, ofExcept_run]
  cases declared.named name with
  | error cause => rfl
  | ok named =>
      dsimp only
      have modified : ∀ next : AssemblyM (List Document.VariableDefinition),
          (modify (keepVariable name named) >>= fun _ => next) assembly =
            next (keepVariable name named assembly) := fun _ => rfl
      rw [modified, bind_run]
      cases introduceVariables rest (keepVariable name named assembly) <;> rfl

theorem introduceVariables_declarable {declared : List (String × DeclaredVariable)}
    {assembly after : Assembly} {definitions : List Document.VariableDefinition}
    (introduced : introduceVariables declared assembly = .ok definitions after) :
    ∀ entry ∈ declared, entry.2.Declarable := by
  induction declared generalizing assembly definitions with
  | nil => simp
  | cons entry rest ih =>
      rcases entry with ⟨name, declared⟩
      rw [introduceVariables_cons_run] at introduced
      cases accepted : declared.named name with
      | error cause =>
          rw [accepted] at introduced
          cases introduced
      | ok named =>
          obtain ⟨unmarked, independent, -⟩ := DeclaredVariable.named_eq_ok accepted
          rw [accepted] at introduced
          dsimp only at introduced
          cases ran : introduceVariables rest (keepVariable name named assembly) with
          | error cause final =>
              rw [ran] at introduced
              cases introduced
          | ok later final =>
              rw [ran] at introduced
              cases introduced
              exact List.forall_mem_cons.mpr ⟨⟨unmarked, independent⟩, ih ran⟩

theorem introduceVariables_run {declared : List (String × DeclaredVariable)} {assembly : Assembly}
    (declarable : ∀ entry ∈ declared, entry.2.Declarable)
    (distinct : (assembly.known.keys ++ Entries.keys declared).Nodup) :
    ∃ known : Variables, known.entries = assembly.known.entries ++
        declared.map (fun entry => (entry.1, entry.2.variableNamed entry.1)) ∧
      introduceVariables declared assembly =
        .ok (declared.map DeclaredVariable.header) { assembly with known } := by
  induction declared generalizing assembly with
  | nil => exact ⟨assembly.known, by simp, rfl⟩
  | cons entry rest ih =>
      rcases entry with ⟨name, declared⟩
      rw [List.forall_mem_cons] at declarable
      have absent : name ∉ assembly.known.keys := by
        intro present
        exact (List.nodup_append.mp distinct).2.2 name present name List.mem_cons_self rfl
      have kept : keepVariable name (declared.variableNamed name) assembly = { assembly with
          known := assembly.known.insert name (declared.variableNamed name) } := by
        rw [keepVariable, if_neg]
        rwa [OrderedMap.contains_iff]
      have extended : ((assembly.known.insert name (declared.variableNamed name)).keys ++
          Entries.keys rest).Nodup := by
        rw [OrderedMap.keys_insert, if_neg absent, List.append_assoc]
        exact distinct
      obtain ⟨known, entries, ran⟩ := @ih { assembly with
        known := assembly.known.insert name (declared.variableNamed name) } declarable.2 extended
      refine ⟨known, ?_, ?_⟩
      · rw [entries, OrderedMap.entries_insert_of_absent absent, List.append_assoc]
        rfl
      · rw [introduceVariables_cons_run, DeclaredVariable.named_of_declarable name declarable.1]
        dsimp only
        rw [kept, ran]
        rfl

theorem selectFields_run {declared : List (String × DeclaredField)} {site : Site}
    {assembly : Assembly} {progress : Progress}
    (run : Completes assembly.scope assembly.expanding { definitions := assembly.definitions }
      (fieldsVisits assembly.known site declared) progress) :
    selectFields declared site assembly = .ok (fieldNodes declared) (assembly.settle progress) := by
  rw [selectFields_eq, run.performAll]

end Assembly

theorem Operation.introduce_run (operation : Operation) {base : Assembly}
    (bare : base.known = .empty)
    (declarable : ∀ entry ∈ operation.inputs.entries, entry.2.Declarable) :
    Assembly.introduceVariables operation.inputs.entries base =
      .ok (operation.inputs.entries.map DeclaredVariable.header)
        { base with known := operation.introduced } := by
  have distinct : (base.known.keys ++ Entries.keys operation.inputs.entries).Nodup := by
    rw [bare]
    exact operation.inputs.distinct
  obtain ⟨known, entries, ran⟩ := Assembly.introduceVariables_run declarable distinct
  have same : known = operation.introduced := by
    apply OrderedMap.eq_of_entries
    rw [entries, bare]
    rfl
  rw [ran, same]

theorem Operation.assemble_ok_iff (operation : Operation) {base : Assembly}
    (bare : base.known = .empty) :
    (∃ document after, operation.assemble base = .ok document after) ↔
      (∀ entry ∈ operation.inputs.entries, entry.2.Declarable) ∧
      (∃ progress, Completes ⟨operation.introduced, base.fragments⟩ base.expanding
        { definitions := base.definitions }
        (Assembly.fieldsVisits operation.introduced Site.root operation.fields.entries) progress) ∧
      Directive.checkAll operation.introduced operation.directives = .ok () := by
  rw [Operation.assemble]
  constructor
  · rintro ⟨document, after, assembled⟩
    obtain ⟨definitions, middle, inputs, composed⟩ := (bind_eq_ok _ _ _ _ _).mp assembled
    have declarable := Assembly.introduceVariables_declarable inputs
    rw [operation.introduce_run bare declarable] at inputs
    cases inputs
    obtain ⟨selections, settled, selected, checking⟩ := (bind_eq_ok _ _ _ _ _).mp composed
    obtain ⟨-, progress, run, rfl⟩ := Assembly.selectFields_eq_ok selected
    rw [Assembly.get_bind_run] at checking
    obtain ⟨_, _, checked, -⟩ := (bind_eq_ok _ _ _ _ _).mp checking
    exact ⟨declarable, ⟨progress, run⟩, ((ofExcept_eq_ok _ _ _ _).mp checked).1⟩
  · rintro ⟨declarable, ⟨progress, run⟩, checked⟩
    have selected := @Assembly.selectFields_run operation.fields.entries Site.root
      { base with known := operation.introduced } progress run
    have settled : ((Assembly.settle { base with known := operation.introduced } progress).known) =
      operation.introduced := rfl
    rw [bind_run, operation.introduce_run bare declarable]
    dsimp only
    rw [bind_run, selected]
    dsimp only
    rw [Assembly.get_bind_run, settled, bind_run, checked]
    exact ⟨_, _, rfl⟩

/-- An operation can be assembled on registered fragments exactly if its variables can be declared,
the visits of its root fields can be performed, and its directives can be written. -/
theorem assembleOne_ok_iff {declared : List Fragment} {operation : Operation} {base : Assembly}
    (registered : Assembly.introduceFragments declared (Assembly.new operation.effectiveName) =
      .ok () base) :
    (∃ result, assembleOne declared operation = .ok result) ↔
      (∀ entry ∈ operation.inputs.entries, entry.2.Declarable) ∧
      (∃ progress, Completes ⟨operation.introduced, base.fragments⟩ []
        { definitions := .empty }
        (Assembly.fieldsVisits operation.introduced Site.root operation.fields.entries) progress) ∧
      Directive.checkAll operation.introduced operation.directives = .ok () := by
  obtain ⟨registry, same, -⟩ := Assembly.introduceFragments_eq_ok registered
  have bare : base.known = .empty ∧ base.expanding = [] ∧ base.definitions = .empty := by
    rw [same]
    exact ⟨rfl, rfl, rfl⟩
  have assembled := operation.assemble_ok_iff bare.1
  rw [bare.2.1, bare.2.2] at assembled
  rw [← assembled, assembleOne, bind_run, registered]
  dsimp only
  cases operation.assemble base with
  | ok document after => simp
  | error cause after => simp

theorem assembleOne_introduced {declared : List Fragment} {operation : Operation}
    {result : AssembledRequest} (assembled : assembleOne declared operation = .ok result) :
    (∀ entry ∈ operation.inputs.entries, entry.2.Declarable) ∧
      result.assembly.known = operation.introduced := by
  rw [assembleOne] at assembled
  split at assembled
  · next document assembly steps =>
      obtain ⟨_, base, registered, composed⟩ := (bind_eq_ok _ _ _ _ _).mp steps
      obtain ⟨registry, rfl, -⟩ := Assembly.introduceFragments_eq_ok registered
      obtain ⟨known, progress, inputs, -, -, -, rfl⟩ := Operation.assemble_eq_ok composed
      have declarable := Assembly.introduceVariables_declarable inputs
      rw [operation.introduce_run rfl declarable] at inputs
      cases inputs
      rcases Except.ok.inj assembled with rfl
      exact ⟨declarable, rfl⟩
  · cases assembled

theorem assembleOne_payload {declared : List Fragment} {operation : Operation}
    {result : AssembledRequest} (assembled : assembleOne declared operation = .ok result) :
    result.request.payload = operation.inputs.mapValues DeclaredVariable.value := by
  rcases assembleOne_eq_ok assembled with ⟨progress, assembles⟩
  rcases assembleOne_introduced assembled with ⟨-, known⟩
  apply OrderedMap.eq_of_entries
  rw [assembles.result]
  change (result.assembly.known.entries.map fun entry => (entry.1, entry.2.value)) = _
  rw [known, OperationDraft.introduced, List.map_map]
  rfl

end GraphRequest
