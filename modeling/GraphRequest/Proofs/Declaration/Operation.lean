import GraphRequest.Operation.Loading
import GraphRequest.Proofs.Declaration.Fragment

/-!
Which JSON trees declare an operation. Loading reads what is declared and refuses everything else.
-/

namespace GraphRequest

namespace Json

inductive DeclaresVariable : Json → DeclaredVariable → Prop
  | object {entries : List (String × Json)} {value : Value} {typeName : String} {nonNullable : Bool}
      (only : ∀ key ∈ Entries.keys entries, key ∈ ["value", "type", "nonNullable"])
      (valued : Given ["value"] (IsSome DeclaresValue) entries none (some value))
      (typed : Given ["type"] (IsSome IsString) entries none (some typeName))
      (marked : Given ["nonNullable"] IsBoolean entries false nonNullable) :
      DeclaresVariable (.object entries) { value, typeName, nonNullable }

def DeclareVariables (json : Json) (declared : List (String × DeclaredVariable)) : Prop :=
  ∃ entries, json = .object entries ∧
    List.Forall₂ (fun entry one => entry.1 = one.1 ∧ entry.2.DeclaresVariable one.2) entries declared

end Json

open Json

namespace OperationDraft

def controlKeys : List String :=
  ["__directives", "__operationName", "__variables"]

@[mk_iff]
structure GivenBy (draft : OperationDraft) (entries : List (String × Json))
    (start : OperationDraft) : Prop where
  type : draft.type = start.type
  name : Given ["__operationName"] (IsSome IsString) entries start.name draft.name
  directives : Given ["__directives"] IsDirectiveList entries start.directives draft.directives
  inputs : ∃ declared, Gathered "__variables" DeclareVariables entries declared ∧
    draft.inputs.entries = start.inputs.entries ++ declared
  fields : ∃ members, DeclareMembers controlKeys entries members ∧
    draft.fields = start.fields.insertAll members

end OperationDraft

/-- Every part of an operation may be left out. -/
inductive Json.DeclaresOperation (type : OperationType) : Json → OperationDraft → Prop
  | object {entries : List (String × Json)} {draft : OperationDraft}
      (given : draft.GivenBy entries { type }) :
      DeclaresOperation type (.object entries) draft

namespace DeclaredVariable

section Parts

variable {name key : String} {json : Json} {rest : List (String × Json)} {parts : Parts}

theorem partsOfJson_value :
    partsOfJson name (("value", json) :: rest) parts = (do
      let value ← Value.ofJson (Text.dotted "__variables" name) json
      partsOfJson name rest { parts with value := some value }) := by
  rw [partsOfJson.eq_def]
  rfl

theorem partsOfJson_type_iff {final : Parts} :
    partsOfJson name (("type", json) :: rest) parts = .ok final ↔ ∃ typeName,
      json.IsString typeName ∧
        partsOfJson name rest { parts with typeName := some typeName } = .ok final := by
  rw [partsOfJson.eq_def]
  cases json <;> simp [IsString]

theorem partsOfJson_marker_iff {final : Parts} :
    partsOfJson name (("nonNullable", json) :: rest) parts = .ok final ↔ ∃ nonNullable,
      json.IsBoolean nonNullable ∧
        partsOfJson name rest { parts with nonNullable } = .ok final := by
  rw [partsOfJson.eq_def]
  cases json <;> simp [IsBoolean]

theorem partsOfJson_other (unknown : key ∉ ["value", "type", "nonNullable"]) :
    partsOfJson name ((key, json) :: rest) parts =
      .error (.badVariable name (.unexpectedEntry key)) := by
  simp only [List.mem_cons, List.not_mem_nil, or_false, not_or] at unknown
  rw [partsOfJson.eq_def]
  simp [unknown]

end Parts

theorem partsOfJson_eq_ok_iff {name : String} {entries : List (String × Json)}
    {parts final : Parts} :
    partsOfJson name entries parts = .ok final ↔
      (∀ key ∈ Entries.keys entries, key ∈ ["value", "type", "nonNullable"]) ∧
      Given ["value"] (IsSome DeclaresValue) entries parts.value final.value ∧
      Given ["type"] (IsSome IsString) entries parts.typeName final.typeName ∧
      Given ["nonNullable"] IsBoolean entries parts.nonNullable final.nonNullable := by
  induction entries generalizing parts with
  | nil =>
      obtain ⟨_, _, _⟩ := parts
      obtain ⟨_, _, _⟩ := final
      simp only [partsOfJson, Given.nil_iff, Except.ok.injEq, Parts.mk.injEq, Entries.keys]
      simp [eq_comm]
  | cons entry rest ih =>
      obtain ⟨key, json⟩ := entry
      rw [Entries.keys, List.map_cons, List.forall_mem_cons]
      by_cases known : key ∈ ["value", "type", "nonNullable"]
      · rw [and_iff_right known]
        simp only [List.mem_cons, List.not_mem_nil, or_false] at known
        rcases known with rfl | rfl | rfl
        · rw [partsOfJson_value, except_bind_eq_ok]
          simp only [Value.ofJson_eq_ok_iff, ih, given_some_iff List.mem_cons_self,
            Given.skip_iff (show "value" ∉ ["type"] by decide),
            Given.skip_iff (show "value" ∉ ["nonNullable"] by decide)]
          constructor
          · rintro ⟨value, declares, only, valued, typed, marked⟩
            exact ⟨only, ⟨value, declares, valued⟩, typed, marked⟩
          · rintro ⟨only, ⟨value, declares, valued⟩, typed, marked⟩
            exact ⟨value, declares, only, valued, typed, marked⟩
        · rw [partsOfJson_type_iff]
          simp only [ih, given_some_iff List.mem_cons_self,
            Given.skip_iff (show "type" ∉ ["value"] by decide),
            Given.skip_iff (show "type" ∉ ["nonNullable"] by decide)]
          constructor
          · rintro ⟨typeName, text, only, valued, typed, marked⟩
            exact ⟨only, valued, ⟨typeName, text, typed⟩, marked⟩
          · rintro ⟨only, valued, ⟨typeName, text, typed⟩, marked⟩
            exact ⟨typeName, text, only, valued, typed, marked⟩
        · rw [partsOfJson_marker_iff]
          simp only [ih, Given.take_iff List.mem_cons_self,
            Given.skip_iff (show "nonNullable" ∉ ["value"] by decide),
            Given.skip_iff (show "nonNullable" ∉ ["type"] by decide)]
          constructor
          · rintro ⟨nonNullable, truth, only, valued, typed, marked⟩
            exact ⟨only, valued, typed, nonNullable, truth, marked⟩
          · rintro ⟨only, valued, typed, nonNullable, truth, marked⟩
            exact ⟨nonNullable, truth, only, valued, typed, marked⟩
      · rw [partsOfJson_other known]
        simp [known]

theorem ofParts_eq_ok_iff {name : String} {parts : Parts} {declared : DeclaredVariable} :
    ofParts name parts = .ok declared ↔
      parts = ⟨some declared.value, some declared.typeName, declared.nonNullable⟩ := by
  obtain ⟨value, typeName, nonNullable⟩ := parts
  obtain ⟨_, _, _⟩ := declared
  cases value with
  | none => simp [ofParts]
  | some value =>
      cases typeName with
      | none => simp [ofParts]
      | some typeName => simp [ofParts]

theorem ofJson_eq_ok_iff {name : String} {json : Json} {declared : DeclaredVariable} :
    ofJson name json = .ok declared ↔ json.DeclaresVariable declared := by
  cases json with
  | object entries =>
      rw [ofJson, except_bind_eq_ok]
      simp only [partsOfJson_eq_ok_iff, ofParts_eq_ok_iff]
      constructor
      · rintro ⟨_, ⟨only, valued, typed, marked⟩, rfl⟩
        exact .object only valued typed marked
      · rintro ⟨only, valued, typed, marked⟩
        exact ⟨_, ⟨only, valued, typed, marked⟩, rfl⟩
  | _ =>
      constructor
      · rintro ⟨⟩
      · rintro ⟨⟩

theorem entriesOfJson_eq_ok_iff {entries : List (String × Json)}
    {declared : List (String × DeclaredVariable)} :
    entriesOfJson entries = .ok declared ↔
      List.Forall₂ (fun entry one => entry.1 = one.1 ∧ entry.2.DeclaresVariable one.2) entries
        declared := by
  induction entries generalizing declared with
  | nil => simp [entriesOfJson, eq_comm]
  | cons entry rest ih =>
      obtain ⟨name, json⟩ := entry
      rw [entriesOfJson, List.forall₂_cons_left_iff]
      simp only [except_bind_eq_ok, except_pure_eq_ok, ofJson_eq_ok_iff, ih]
      constructor
      · rintro ⟨first, declares, others, later, rfl⟩
        exact ⟨(name, first), others, ⟨rfl, declares⟩, later, rfl⟩
      · rintro ⟨⟨_, first⟩, others, ⟨rfl, declares⟩, later, rfl⟩
        exact ⟨first, declares, others, later, rfl⟩

theorem allOfJson_eq_ok_iff {json : Json} {declared : List (String × DeclaredVariable)} :
    allOfJson json = .ok declared ↔ json.DeclareVariables declared := by
  cases json with
  | object entries => simp [allOfJson, DeclareVariables, entriesOfJson_eq_ok_iff]
  | _ => simp [allOfJson, DeclareVariables]

end DeclaredVariable

namespace OperationDraft

theorem withVariables_eq_ok_iff {declared : List (String × DeclaredVariable)}
    {draft final : OperationDraft} :
    withVariables declared draft = .ok final ↔ ∃ inputs : OrderedMap String DeclaredVariable,
      inputs.entries = draft.inputs.entries ++ declared ∧ final = { draft with inputs } := by
  induction declared generalizing draft with
  | nil =>
      rw [withVariables, Except.ok.injEq]
      constructor
      · rintro rfl
        exact ⟨draft.inputs, by simp, rfl⟩
      · rintro ⟨inputs, same, rfl⟩
        rw [List.append_nil] at same
        rw [OrderedMap.eq_of_entries same]
  | cons entry rest ih =>
      obtain ⟨name, declared⟩ := entry
      rw [withVariables, except_bind_eq_ok]
      constructor
      · rintro ⟨middle, added, others⟩
        rw [withVariable] at added
        split at added
        · cases added
        · next free =>
            cases added
            rw [OrderedMap.contains_iff] at free
            obtain ⟨inputs, same, rfl⟩ := ih.mp others
            refine ⟨inputs, ?_, rfl⟩
            rw [same, OrderedMap.entries_insert_of_absent free, List.append_assoc]
            rfl
      · rintro ⟨inputs, same, rfl⟩
        have distinct := inputs.distinct
        have free : name ∉ draft.inputs.keys := by
          rw [same, Entries.keys, List.map_append, List.nodup_append] at distinct
          exact fun taken => distinct.2.2 name taken name List.mem_cons_self rfl
        refine ⟨{ draft with inputs := draft.inputs.insert name declared }, ?_,
          ih.mpr ⟨inputs, ?_, rfl⟩⟩
        · rw [withVariable, if_neg (by rwa [OrderedMap.contains_iff])]
        · rw [same, OrderedMap.entries_insert_of_absent free, List.append_assoc]
          rfl

section Entries

variable {key : String} {json : Json} {rest : List (String × Json)} {draft : OperationDraft}

theorem ofEntries_directives :
    ofEntries (("__directives", json) :: rest) draft = (do
      ofEntries rest (draft.withDirectives (← Directive.listOfJson "" json))) := by
  simp [ofEntries, directivesKey]

theorem ofEntries_name :
    ofEntries (("__operationName", json) :: rest) draft = (do
      ofEntries rest
        (draft.withName (some (← Attribute.string "__operationName" "" json)))) := by
  simp [ofEntries, directivesKey, nameKey]

theorem ofEntries_variables :
    ofEntries (("__variables", json) :: rest) draft = (do
      ofEntries rest (← withVariables (← DeclaredVariable.allOfJson json) draft)) := by
  simp [ofEntries, directivesKey, nameKey, variablesKey]

theorem ofEntries_field (unknown : key ∉ controlKeys) :
    ofEntries ((key, json) :: rest) draft =
      if isFieldKey key then do
        ofEntries rest (draft.withField key (← DeclaredField.ofJson key json))
      else .error (.unknownAttribute key "") := by
  simp only [controlKeys, List.mem_cons, List.not_mem_nil, or_false, not_or] at unknown
  simp [ofEntries, directivesKey, nameKey, variablesKey, unknown]

end Entries

namespace GivenBy

variable {key : String} {json : Json} {rest : List (String × Json)} {start draft : OperationDraft}

theorem nil_iff : draft.GivenBy [] start ↔ draft = start := by
  rw [givenBy_iff]
  simp only [Given.nil_iff, Gathered.nil_iff, declareMembers_nil_iff, exists_eq_left,
    List.append_nil]
  constructor
  · obtain ⟨_, _, _, _, _⟩ := start
    obtain ⟨_, _, _, _, _⟩ := draft
    rintro ⟨rfl, rfl, rfl, same, rfl⟩
    cases OrderedMap.eq_of_entries same
    rfl
  · rintro rfl
    exact ⟨rfl, rfl, rfl, rfl, rfl⟩

theorem directives_iff :
    draft.GivenBy (("__directives", json) :: rest) start ↔
      ∃ held, json.IsDirectiveList held ∧ draft.GivenBy rest (start.withDirectives held) := by
  simp only [givenBy_iff, Given.take_iff List.mem_cons_self,
    Given.skip_iff (show "__directives" ∉ ["__operationName"] by decide),
    Gathered.skip_iff (show "__directives" ≠ "__variables" by decide),
    declareMembers_control_iff (show "__directives" ∈ controlKeys by decide)]
  constructor
  · rintro ⟨type, name, ⟨held, holding, directives⟩, others⟩
    exact ⟨held, holding, type, name, directives, others⟩
  · rintro ⟨held, holding, type, name, directives, others⟩
    exact ⟨type, name, ⟨held, holding, directives⟩, others⟩

theorem name_iff :
    draft.GivenBy (("__operationName", json) :: rest) start ↔
      ∃ held, json.IsString held ∧ draft.GivenBy rest (start.withName (some held)) := by
  simp only [givenBy_iff, given_some_iff List.mem_cons_self,
    Given.skip_iff (show "__operationName" ∉ ["__directives"] by decide),
    Gathered.skip_iff (show "__operationName" ≠ "__variables" by decide),
    declareMembers_control_iff (show "__operationName" ∈ controlKeys by decide)]
  constructor
  · rintro ⟨type, ⟨held, holding, name⟩, others⟩
    exact ⟨held, holding, type, name, others⟩
  · rintro ⟨held, holding, type, name, others⟩
    exact ⟨type, ⟨held, holding, name⟩, others⟩

theorem variables_iff :
    draft.GivenBy (("__variables", json) :: rest) start ↔
      ∃ declared, json.DeclareVariables declared ∧
        ∃ middle, withVariables declared start = .ok middle ∧ draft.GivenBy rest middle := by
  simp only [givenBy_iff, withVariables_eq_ok_iff, Gathered.take_iff,
    Given.skip_iff (show "__variables" ∉ ["__operationName"] by decide),
    Given.skip_iff (show "__variables" ∉ ["__directives"] by decide),
    declareMembers_control_iff (show "__variables" ∈ controlKeys by decide)]
  constructor
  · rintro ⟨type, name, directives, ⟨_, ⟨group, later, declares, gathered, rfl⟩, same⟩, fields⟩
    rw [← List.append_assoc] at same
    have distinct : (Entries.keys (start.inputs.entries ++ group)).Nodup := by
      have whole := draft.inputs.distinct
      rw [same, Entries.keys, List.map_append] at whole
      exact (List.nodup_append.mp whole).1
    exact ⟨group, declares, _, ⟨⟨_, distinct⟩, rfl, rfl⟩, type, name, directives,
      ⟨later, gathered, same⟩, fields⟩
  · rintro ⟨group, declares, _, ⟨middle, before, rfl⟩, type, name, directives,
      ⟨later, gathered, same⟩, fields⟩
    refine ⟨type, name, directives, ⟨_, ⟨group, later, declares, gathered, rfl⟩, ?_⟩, fields⟩
    rw [same, before, List.append_assoc]

theorem field_iff (unknown : key ∉ controlKeys) :
    draft.GivenBy ((key, json) :: rest) start ↔
      IsFieldName key ∧ ∃ field, json.DeclaresField field ∧
        draft.GivenBy rest (start.withField key field) := by
  have noName : key ∉ ["__operationName"] := fun same => unknown (by simp_all [controlKeys])
  have noDirectives : key ∉ ["__directives"] := fun same => unknown (by simp_all [controlKeys])
  have noVariables : key ≠ "__variables" := fun same => unknown (by simp_all [controlKeys])
  simp only [givenBy_iff, declareMembers_field_iff unknown, Given.skip_iff noName,
    Given.skip_iff noDirectives, Gathered.skip_iff noVariables]
  constructor
  · rintro ⟨type, name, directives, inputs, _, ⟨named, field, first, later, others, rfl⟩, same⟩
    exact ⟨named, field, first, type, name, directives, inputs, later, others, same⟩
  · rintro ⟨named, field, first, type, name, directives, inputs, later, others, same⟩
    exact ⟨type, name, directives, inputs, _, ⟨named, field, first, later, others, rfl⟩, same⟩

end GivenBy

theorem ofEntries_eq_ok_iff {entries : List (String × Json)} {start draft : OperationDraft} :
    ofEntries entries start = .ok draft ↔ draft.GivenBy entries start := by
  induction entries generalizing start with
  | nil => rw [ofEntries, Except.ok.injEq, GivenBy.nil_iff, eq_comm]
  | cons entry rest ih =>
      obtain ⟨key, json⟩ := entry
      by_cases known : key ∈ controlKeys
      · simp only [controlKeys, List.mem_cons, List.not_mem_nil, or_false] at known
        rcases known with rfl | rfl | rfl
        · rw [ofEntries_directives, except_bind_eq_ok, GivenBy.directives_iff]
          simp only [Directive.listOfJson_eq_ok_iff, ih]
        · rw [ofEntries_name, except_bind_eq_ok, GivenBy.name_iff]
          simp only [Attribute.string_eq_ok_iff, ih]
        · rw [ofEntries_variables, except_bind_eq_ok, GivenBy.variables_iff]
          simp only [except_bind_eq_ok, DeclaredVariable.allOfJson_eq_ok_iff, ih]
      · rw [ofEntries_field known, fieldEntry_eq_ok_iff, GivenBy.field_iff known]
        simp only [DeclaredField.ofJson_eq_ok_iff, ih]

theorem load_eq_ok_iff {type : OperationType} {json : Json} {draft : OperationDraft} :
    load type json = .ok draft ↔ json.DeclaresOperation type draft := by
  cases json with
  | object entries =>
      rw [load, ofEntries_eq_ok_iff]
      constructor
      · exact .object
      · rintro ⟨given⟩
        exact given
  | _ =>
      constructor
      · rintro ⟨⟩
      · rintro ⟨⟩

end OperationDraft

/-- Loading accepts exactly the trees that declare something, and it yields what they declare. The
fields of a field stand in the order of their keys. -/
theorem load_ok_iff_declares :
    (∀ json field, DeclaredField.load json = .ok field ↔ json.DeclaresField field) ∧
    (∀ json fragment, Fragment.load json = .ok fragment ↔ json.DeclaresFragment fragment) ∧
    (∀ type json draft,
      OperationDraft.load type json = .ok draft ↔ json.DeclaresOperation type draft) ∧
    ∀ entries field, (Json.object entries).DeclaresField field → (Entries.keys entries).Nodup →
      Entries.keys field.fields = (Entries.keys entries).filter (· ∉ FieldAttributes.controlKeys) :=
  ⟨fun json _ => DeclaredField.ofJson_eq_ok_iff "" json,
    fun _ _ => Fragment.load_eq_ok_iff,
    fun _ _ _ => OperationDraft.load_eq_ok_iff,
    fun _ _ => DeclaresField.keys_eq⟩

def bookEntries : List (String × Json) :=
  [("__params", .object [("first", .integer 3)]), ("title", .object [("__alias", .string "name")]),
    ("__args", .object [("order", .object [("__enum", .string "NAME")])]),
    ("__typename", .object [])]

def bookField : DeclaredField :=
  ⟨{ arguments := some ⟨[("order", .enum "NAME")], by decide⟩ },
    [("title", ⟨{ aliasName := some "name" }, []⟩), ("__typename", .empty)]⟩

theorem bookField_declared :
    DeclaredField.load (.object bookEntries) = .ok bookField ∧
    (Json.object bookEntries).DeclaresField bookField ∧
    (Entries.keys bookEntries).Nodup ∧
    Entries.keys bookField.fields =
      (Entries.keys bookEntries).filter (· ∉ FieldAttributes.controlKeys) := by
  have read : DeclaredField.load (.object bookEntries) = .ok bookField := by rfl
  have declares := (load_ok_iff_declares.1 (.object bookEntries) bookField).mp read
  have distinct : (Entries.keys bookEntries).Nodup := by decide
  exact ⟨read, declares, distinct, load_ok_iff_declares.2.2.2 bookEntries bookField declares distinct⟩

end GraphRequest
