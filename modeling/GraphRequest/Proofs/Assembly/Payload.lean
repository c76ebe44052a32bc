import GraphRequest.Proofs.Assembly.Header
import GraphRequest.Proofs.Assembly.Introduction
import GraphRequest.Proofs.Declaration.Located
import GraphRequest.Proofs.Value.Portable

/-!
What the JSON of a request holds for the variables of an operation. Every value is sent in its own
shape, and null stands for nulls and for floats that are not finite.
-/

namespace GraphRequest

namespace Json

def child? : ValueStep → Json → Option Json
  | .item index, list items => items[index]?
  | .entry key, object entries => Entries.last? [key] entries
  | _, _ => none

def at? : List ValueStep → Json → Option Json
  | [], json => some json
  | step :: path, json => (json.child? step).bind (at? path)

end Json

namespace Value

theorem toJson_child? (step : ValueStep) (value : Value) :
    value.toJson.child? step = (value.child? step).map toJson := by
  cases value with
  | list items =>
      rw [toJson, itemsToJson_eq_map]
      cases step with
      | item index => exact List.getElem?_map
      | entry key => rfl
  | object entries =>
      rw [toJson, entriesToJson_eq_map]
      cases step with
      | item index => rfl
      | entry key => exact Entries.last?_map toJson entries
  | float number =>
      rw [toJson]
      split <;> cases step <;> rfl
  | reference _ | int _ | string _ | bool _ | null | enum _ => cases step <;> rfl

theorem toJson_at? (path : List ValueStep) (value : Value) :
    value.toJson.at? path = (value.at? path).map toJson := by
  induction path generalizing value with
  | nil => rfl
  | cons step path ih =>
      rw [Json.at?, at?, toJson_child?]
      cases value.child? step with
      | none => rfl
      | some inner => exact ih inner

theorem toJson_eq_null_iff (value : Value) :
    value.toJson = .null ↔ value = null ∨ ∃ number, value = float number ∧ ¬number.isFinite := by
  cases value with
  | float number =>
      rw [toJson]
      split
      · next finite => simp [finite]
      · next lost => simp [lost]
  | _ => simp [toJson]

end Value

/-- Null is sent exactly where null was declared. -/
def AssembledRequest.KeepsNulls (operation : Operation) (result : AssembledRequest) : Prop :=
  ∀ name path, result.request.toJson.at? (.entry "variables" :: .entry name :: path) = some .null ↔
    operation.valueAt? (.input name path) = some .null

/-- The JSON of a request holds, under the names of the variables of an operation, what was declared
for them. -/
structure SendsVariables (operation : Operation) (result : AssembledRequest) : Prop where
  values : ∀ name path,
    result.request.toJson.at? (.entry "variables" :: .entry name :: path) =
      (operation.valueAt? (.input name path)).map Value.toJson
  nulls : ∀ name path,
    result.request.toJson.at? (.entry "variables" :: .entry name :: path) = some .null ↔
      operation.valueAt? (.input name path) = some .null ∨
        ∃ number, operation.valueAt? (.input name path) = some (.float number) ∧ ¬number.isFinite
  keepsNulls : result.KeepsNulls operation ↔ ∀ name path number,
    operation.valueAt? (.input name path) = some (.float number) → number.isFinite
  text : (∀ entry ∈ operation.inputs.entries, entry.2.value.isRegular (Json.maxDepth - 2)) →
    (∀ entry ∈ operation.inputs.entries, ∀ leaf ∈ entry.2.value.leaves, leaf.leafReadsBack) →
    Json.read? result.request.toJson.text = some result.request.toJson

theorem Request.toJson_variable (request : Request) (name : String) (path : List ValueStep) :
    request.toJson.at? (.entry "variables" :: .entry name :: path) =
      ((request.payload.get? name).bind (Value.at? path)).map Value.toJson := by
  have held : request.toJson.child? (.entry "variables") =
      some (.object (Value.entriesToJson request.payload.entries)) := rfl
  have value : (Json.object (Value.entriesToJson request.payload.entries)).child? (.entry name) =
      (request.payload.get? name).map Value.toJson := by
    rw [Value.entriesToJson_eq_map, OrderedMap.get?_eq_last?]
    exact Entries.last?_map Value.toJson _
  rw [Json.at?, held, Option.bind_some, Json.at?, value]
  cases request.payload.get? name with
  | none => rfl
  | some found => exact Value.toJson_at? path found

theorem Request.isLegible_toJson {request : Request} {depth : Nat}
    (regular : ∀ entry ∈ request.payload.entries, entry.2.isRegular depth)
    (back : ∀ entry ∈ request.payload.entries, ∀ leaf ∈ entry.2.leaves, leaf.leafReadsBack) :
    request.toJson.isLegible (depth + 2) := by
  have payload : (Value.object request.payload.entries).isRegular (depth + 1) := by
    rw [Value.isRegular, Nat.add_sub_cancel, Value.entriesRegular_iff.mpr regular]
    simpa using request.payload.distinct
  have leaves : ∀ leaf ∈ (Value.object request.payload.entries).leaves, leaf.leafReadsBack := by
    intro leaf member
    rcases Value.mem_entryLeaves.mp member with ⟨entry, there, inside⟩
    exact back entry there leaf inside
  have held := Value.isLegible_toJson _ payload leaves
  have inside : Json.entriesLegible (depth + 1) [("operationName", .string request.operationName),
      ("query", .string request.query),
      ("variables", .object (Value.entriesToJson request.payload.entries))] := by
    rw [Value.toJson] at held
    rw [Json.entriesLegible, Json.entriesLegible, Json.entriesLegible, held]
    rfl
  have distinct : ["operationName", "query", "variables"].Nodup := by decide
  rw [Request.toJson, Json.isLegible, Bool.and_eq_true, Bool.and_eq_true]
  exact ⟨⟨by simp, decide_eq_true distinct⟩, inside⟩

theorem assembleOne_sendsVariables {declared : List Fragment} {operation : Operation}
    {result : AssembledRequest} (assembled : assembleOne declared operation = .ok result) :
    SendsVariables operation result := by
  have payload := assembleOne_payload assembled
  have values (name : String) (path : List ValueStep) :
      result.request.toJson.at? (.entry "variables" :: .entry name :: path) =
        (operation.valueAt? (.input name path)).map Value.toJson := by
    have found : result.request.payload.get? name =
        (operation.inputs.get? name).map DeclaredVariable.value := by
      rw [payload]
      exact Entries.get?_map operation.inputs.entries (fun _ => DeclaredVariable.value) name
    rw [Request.toJson_variable, found, Option.bind_map]
    rfl
  have nulls (name : String) (path : List ValueStep) :
      result.request.toJson.at? (.entry "variables" :: .entry name :: path) = some .null ↔
        operation.valueAt? (.input name path) = some .null ∨
          ∃ number, operation.valueAt? (.input name path) = some (.float number) ∧
            ¬number.isFinite := by
    rw [values]
    cases operation.valueAt? (.input name path) with
    | none => simp
    | some value => simp [Value.toJson_eq_null_iff]
  refine ⟨values, nulls, ?_, ?_⟩
  · constructor
    · intro keeps name path number stands
      by_contra lost
      have null := (keeps name path).mp ((nulls name path).mpr (.inr ⟨number, stands, lost⟩))
      rw [stands] at null
      cases null
    · intro finite name path
      rw [nulls]
      constructor
      · rintro (null | ⟨number, stands, lost⟩)
        · exact null
        · exact absurd (finite name path number stands) lost
      · exact .inl
  · intro regular back
    have legible : result.request.toJson.isLegible (Json.maxDepth - 2 + 2) := by
      apply Request.isLegible_toJson
      · rw [payload]
        exact List.forall_mem_map.mpr regular
      · rw [payload]
        exact List.forall_mem_map.mpr back
    exact Json.read?_text legible

/-- The requests of all operations send the variables of these. -/
theorem assemble_sendsVariables {parts : List Part} {results : List AssembledRequest}
    (assembled : assemble parts = .ok results) :
    List.Forall₂ SendsVariables (Part.operations parts) results :=
  (assemble_eq_ok assembled).imp fun _ _ => assembleOne_sendsVariables

def ratioOperation : Operation where
  type := .query
  inputs := ⟨[("ratio", ⟨.float .nan, "Float", true⟩),
    ("range", ⟨.object [("low", .null), ("steps", .list [.float (.ofDecimal false ⟨5, -1⟩),
      .float (.infinite false)])], "Range", false⟩)], by decide⟩
  fields := ⟨[("stats", .mk {
      arguments := some ⟨[("above", .reference "ratio")], by decide⟩
      scalars := some ["count"] } [])], by decide⟩
  nonempty := by decide
  single := by decide

theorem ratioOperation_sendsVariables : ∃ results, assemble [.operation ratioOperation] = .ok results ∧
    results.map (fun result => result.request.payload.keys) = [["ratio", "range"]] ∧
    List.Forall₂ SendsVariables [ratioOperation] results := by
  have keys : (assemble [.operation ratioOperation]).toOption.map
      (List.map fun result => result.request.payload.keys) = some [["ratio", "range"]] := by
    decide +kernel
  cases assembled : assemble [.operation ratioOperation] with
  | error cause =>
      rw [assembled] at keys
      cases keys
  | ok results =>
      rw [assembled] at keys
      exact ⟨results, rfl, Option.some.inj keys, assemble_sendsVariables assembled⟩

/-- The ratio is sent as null although it was not declared as null. -/
theorem ratioOperation_not_keepsNulls : ∃ results,
    assemble [.operation ratioOperation] = .ok results ∧
      ¬List.Forall₂ (fun operation result => result.KeepsNulls operation) [ratioOperation] results := by
  have accepted : ∃ results, assemble [.operation ratioOperation] = .ok results :=
    exists_of_isOk (by decide +kernel)
  rcases accepted with ⟨results, assembled⟩
  refine ⟨results, assembled, ?_⟩
  intro each
  cases assemble_eq_ok assembled with
  | cons one _ =>
      cases each with
      | cons keeps _ =>
          have finite := (assembleOne_sendsVariables one).keepsNulls.mp keeps "ratio" [] .nan rfl
          cases finite

end GraphRequest
