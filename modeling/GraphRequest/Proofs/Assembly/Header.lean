import GraphRequest.Proofs.Assembly.Reachable
import GraphRequest.Proofs.Entries

/-!
The header of an operation beside the variables that an assembly keeps. The header is written from what
is declared, and the assembly keeps what came first under each name, so the two agree on types exactly
if no name comes back with another type.
-/

namespace GraphRequest

/-- Every variable is declared with the type of the one that is kept under its name. -/
def Assembly.HeaderAgrees (assembly : Assembly) (header : List Document.VariableDefinition) : Prop :=
  ∀ definition ∈ header, ∃ kept, assembly.known.get? definition.name = some kept ∧
    definition.type.text = kept.type.text

/-- The calls that write a header for declared variables: with or without the rest of an operation. -/
inductive Assembly.WritesHeader (assembly after : Assembly) :
    OrderedMap String DeclaredVariable → List Document.VariableDefinition → Prop
  | introduced {declared : OrderedMap String DeclaredVariable}
      {header : List Document.VariableDefinition}
      (introduced : introduceVariables declared.entries assembly = .ok header after) :
      WritesHeader assembly after declared header
  | assembled {operation : Operation} {document : Document}
      (assembled : operation.assemble assembly = .ok document after) :
      WritesHeader assembly after operation.inputs document.operation.definitions

namespace Assembly

theorem payload_get? (assembly : Assembly) (name : String) :
    assembly.payload.get? name = (assembly.known.get? name).map Variable.value :=
  Entries.get?_map assembly.known.entries (fun _ => Variable.value) name

theorem keepVariable_get? (name other : String) (first : Variable) (assembly : Assembly) :
    (keepVariable name first assembly).known.get? other =
      (assembly.known.get? other).or (if name = other then some first else none) := by
  rw [keepVariable]
  split
  · next taken =>
      by_cases same : name = other
      · subst same
        rw [OrderedMap.contains, Option.isSome_iff_exists] at taken
        obtain ⟨kept, found⟩ := taken
        rw [found, Option.some_or]
      · rw [if_neg same, Option.or_none]
  · next free =>
      rw [OrderedMap.get?_insert]
      by_cases same : name = other
      · subst same
        have absent : assembly.known.get? name = none := by
          simpa [OrderedMap.contains] using free
        rw [if_pos rfl, if_pos rfl, absent, Option.none_or]
      · rw [if_neg same, if_neg same, Option.or_none]

theorem introduceVariables_get? {declared : List (String × DeclaredVariable)}
    {assembly after : Assembly} {header : List Document.VariableDefinition}
    (introduced : introduceVariables declared assembly = .ok header after) (name : String) :
    after.known.get? name = (assembly.known.get? name).or
      ((Entries.get? declared name).map fun first => first.variableNamed name) := by
  induction declared generalizing assembly header with
  | nil =>
      obtain ⟨-, rfl⟩ := (pure_eq_ok _ _ _ _).mp introduced
      simp [Entries.get?]
  | cons entry rest ih =>
      obtain ⟨key, declared⟩ := entry
      have declarable := introduceVariables_declarable introduced (key, declared) List.mem_cons_self
      rw [introduceVariables_cons_run, DeclaredVariable.named_of_declarable key declarable]
        at introduced
      dsimp only at introduced
      split at introduced
      · next later final ran =>
          cases introduced
          rw [ih ran, keepVariable_get?, Option.or_assoc, Entries.get?]
          by_cases same : key = name
          · rw [if_pos same, if_pos same, Option.some_or, same, Option.map_some]
          · rw [if_neg same, if_neg same, Option.none_or]
      · cases introduced

theorem WritesHeader.inputs {assembly after : Assembly}
    {declared : OrderedMap String DeclaredVariable} {header : List Document.VariableDefinition}
    (writes : assembly.WritesHeader after declared header) :
    ∃ middle, introduceVariables declared.entries assembly = .ok header middle ∧
      after.known = middle.known := by
  cases writes with
  | introduced introduced => exact ⟨after, introduced, rfl⟩
  | assembled assembled =>
      obtain ⟨known, progress, introduced, -, -, rfl, rfl⟩ := Operation.assemble_eq_ok assembled
      exact ⟨_, introduced, rfl⟩

namespace WritesHeader

variable {assembly after : Assembly} {declared : OrderedMap String DeclaredVariable}
  {header : List Document.VariableDefinition}

theorem header_eq (writes : assembly.WritesHeader after declared header) :
    header = declared.entries.map DeclaredVariable.header := by
  obtain ⟨middle, introduced, -⟩ := writes.inputs
  exact (introduceVariables_eq_ok introduced).1

theorem known_get? (writes : assembly.WritesHeader after declared header) (name : String) :
    after.known.get? name = (assembly.known.get? name).or
      ((declared.get? name).map fun first => first.variableNamed name) := by
  obtain ⟨middle, introduced, kept⟩ := writes.inputs
  rw [kept]
  exact introduceVariables_get? introduced name

theorem agrees_iff (writes : assembly.WritesHeader after declared header) :
    after.HeaderAgrees header ↔
      ∀ entry ∈ declared.entries, ∀ kept, assembly.known.get? entry.1 = some kept →
        (DeclaredVariable.header entry).type.text = kept.type.text := by
  rw [HeaderAgrees, writes.header_eq, List.forall_mem_map]
  refine forall₂_congr fun entry member => ?_
  have own : declared.get? entry.1 = some entry.2 := Entries.get?_of_mem declared.distinct member
  have found : after.known.get? (DeclaredVariable.header entry).name =
      (assembly.known.get? entry.1).or (some (entry.2.variableNamed entry.1)) := by
    rw [DeclaredVariable.header, writes.known_get?, own, Option.map_some]
  rw [found]
  cases earlier : assembly.known.get? entry.1 with
  | none => simp [DeclaredVariable.header, DeclaredVariable.variableNamed]
  | some kept => simp

end WritesHeader

end Assembly

/-- A header is what was declared, and every name keeps and sends what came first under it. So header
and assembly agree exactly if each name that was taken before was taken with the declared type. -/
theorem Assembly.header_beside_known {assembly after : Assembly}
    {declared : OrderedMap String DeclaredVariable} {header : List Document.VariableDefinition}
    (writes : assembly.WritesHeader after declared header) :
    header = declared.entries.map DeclaredVariable.header ∧
    (∀ name, after.known.get? name = (assembly.known.get? name).or
      ((declared.get? name).map fun first => first.variableNamed name)) ∧
    (∀ name, after.payload.get? name = (after.known.get? name).map Variable.value) ∧
    (after.HeaderAgrees header ↔
      ∀ entry ∈ declared.entries, ∀ kept, assembly.known.get? entry.1 = some kept →
        (DeclaredVariable.header entry).type.text = kept.type.text) :=
  ⟨writes.header_eq, writes.known_get?, after.payload_get?, writes.agrees_iff⟩

def tokenKept : Assembly :=
  (Call.inputs ⟨[("token", ⟨.string "abc", "String", true⟩)], by decide⟩).after (.new "Test")

def tokenAgain : OrderedMap String DeclaredVariable :=
  ⟨[("token", ⟨.int 5, "Int", false⟩), ("first", ⟨.int 10, "Int", true⟩)], by decide⟩

def tokenAgainHeader : List Document.VariableDefinition :=
  [⟨"token", "Int", true⟩, ⟨"first", "Int", false⟩]

theorem tokenAgain_writesHeader :
    tokenKept.WritesHeader ((Call.inputs tokenAgain).after tokenKept) tokenAgain
      tokenAgainHeader :=
  .introduced rfl

theorem tokenAgain_beside_known :
    tokenKept.WritesHeader ((Call.inputs tokenAgain).after tokenKept) tokenAgain
      tokenAgainHeader ∧
    (((Call.inputs tokenAgain).after tokenKept).HeaderAgrees tokenAgainHeader ↔
      ∀ entry ∈ tokenAgain.entries, ∀ kept, tokenKept.known.get? entry.1 = some kept →
        (DeclaredVariable.header entry).type.text = kept.type.text) :=
  ⟨tokenAgain_writesHeader, (Assembly.header_beside_known tokenAgain_writesHeader).2.2.2⟩

/-- The second header declares an integer, and the string of the first call is sent for it. -/
theorem tokenAgain_not_agrees :
    Reachable tokenKept ∧
    Assembly.introduceVariables tokenAgain.entries tokenKept =
      .ok tokenAgainHeader ((Call.inputs tokenAgain).after tokenKept) ∧
    Document.VariableDefinition.listText tokenAgainHeader = "($token: Int, $first: Int!)" ∧
    ((((Call.inputs tokenAgain).after tokenKept).known.get? "token").map fun kept =>
      kept.type.text) = some "String!" ∧
    ((((Call.inputs tokenAgain).after tokenKept).payload.get? "token").any
      (Value.same (.string "abc"))) = true ∧
    ¬((Call.inputs tokenAgain).after tokenKept).HeaderAgrees tokenAgainHeader := by
  have typed : (((Call.inputs tokenAgain).after tokenKept).known.get? "token").map
      (fun kept => kept.type.text) = some "String!" := by decide +kernel
  refine ⟨.call (.new "Test") _, rfl, by decide +kernel, typed, by decide +kernel, fun agrees => ?_⟩
  obtain ⟨kept, found, same⟩ := agrees ⟨"token", "Int", true⟩ List.mem_cons_self
  rw [found, Option.map_some, ← same] at typed
  exact absurd typed (by decide)

/-- Every operation has an assembly of its own, so the header of a request agrees with the variables
that are sent along. -/
theorem assemble_headers_agree {parts : List Part} {results : List AssembledRequest}
    (assembled : assemble parts = .ok results) :
    ∀ result ∈ results, result.assembly.HeaderAgrees result.document.operation.definitions := by
  intro result member
  obtain ⟨operation, alone⟩ := exists_assembleOne assembled result member
  rw [assembleOne] at alone
  split at alone
  · next document assembly steps =>
      obtain ⟨_, base, registered, composed⟩ := (bind_eq_ok _ _ _ _ _).mp steps
      obtain ⟨registry, rfl, -⟩ := Assembly.introduceFragments_eq_ok registered
      rcases Except.ok.inj alone with rfl
      refine (Assembly.WritesHeader.assembled composed).agrees_iff.mpr ?_
      rintro entry - kept ⟨⟩
  · cases alone

end GraphRequest
