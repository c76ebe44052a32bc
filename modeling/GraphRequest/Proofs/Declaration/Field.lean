import GraphRequest.Field.Loading
import GraphRequest.Proofs.Declaration.Attribute
import GraphRequest.Proofs.Json.Spelled

/-!
Which JSON trees declare a field. The entries of an object give attributes under the keys of these, and
declare fields under all keys that may be names of fields.
-/

namespace GraphRequest

/-- Two underscores are left to control attributes and to the fields that every schema has. -/
def IsFieldName (key : String) : Prop :=
  key = "__schema" ∨ key = "__type" ∨ key = "__typename" ∨ ¬['_', '_'] <+: key.toList

namespace FieldAttributes

open Json

def controlKeys : List String :=
  ["__alias", "__args", "__params", "__connection", "__directives", "__edges", "__fragments",
    "__list", "__node", "__scalars", "__toLocalType"]

/-- What the entries of an object give. Attributes that they do not give are those of `start`. -/
@[mk_iff]
structure GivenBy (attributes : FieldAttributes) (entries : List (String × Json))
    (start : FieldAttributes) : Prop where
  aliasName : Given ["__alias"] (IsSome IsString) entries start.aliasName attributes.aliasName
  arguments : Given ["__args", "__params"] (IsSome IsArguments) entries start.arguments
    attributes.arguments
  directives : Given ["__directives"] IsDirectiveList entries start.directives attributes.directives
  spreads : Given ["__fragments"] IsStringList entries start.spreads attributes.spreads
  localType : Given ["__toLocalType"] (IsSome IsString) entries start.localType attributes.localType
  scalars : Given ["__scalars"] (IsSome IsStringList) entries start.scalars attributes.scalars
  connection : Given ["__connection"] IsBoolean entries start.flags.connection
    attributes.flags.connection
  edges : Given ["__edges"] IsBoolean entries start.flags.edges attributes.flags.edges
  list : Given ["__list"] IsBoolean entries start.flags.list attributes.flags.list
  node : Given ["__node"] IsBoolean entries start.flags.node attributes.flags.node

end FieldAttributes

namespace Json

mutual

/-- The tree declares the field. Under a key that comes again, the later field takes the place of the
earlier one. -/
inductive DeclaresField : Json → DeclaredField → Prop
  | object {entries : List (String × Json)} {attributes : FieldAttributes}
      {members : List (String × DeclaredField)} (given : attributes.GivenBy entries {})
      (declared : DeclareMembers FieldAttributes.controlKeys entries members) :
      DeclaresField (.object entries) ⟨attributes, Entries.ofList members⟩

inductive DeclareMembers :
    List String → List (String × Json) → List (String × DeclaredField) → Prop
  | nil {controls : List String} : DeclareMembers controls [] []
  | control {controls : List String} {key : String} {json : Json} {rest : List (String × Json)}
      {members : List (String × DeclaredField)} (known : key ∈ controls)
      (others : DeclareMembers controls rest members) :
      DeclareMembers controls ((key, json) :: rest) members
  | field {controls : List String} {key : String} {json : Json} {field : DeclaredField}
      {rest : List (String × Json)} {members : List (String × DeclaredField)}
      (unknown : key ∉ controls) (named : IsFieldName key) (first : DeclaresField json field)
      (others : DeclareMembers controls rest members) :
      DeclareMembers controls ((key, json) :: rest) ((key, field) :: members)

end

end Json

theorem isFieldKey_iff {key : String} : isFieldKey key = true ↔ IsFieldName key := by
  simp [isFieldKey, metaFields, IsFieldName, or_assoc, ← List.isPrefixOf_iff_prefix]

theorem fieldEntry_eq_ok_iff {α β : Type} {key : String} {read : Except RequestError α}
    {next : α → Except RequestError β} {cause : RequestError} {b : β} :
    (if isFieldKey key then read >>= next else .error cause) = .ok b ↔
      IsFieldName key ∧ ∃ a, read = .ok a ∧ next a = .ok b := by
  rw [← isFieldKey_iff]
  split
  · next named => rw [except_bind_eq_ok, and_iff_right named]
  · next unnamed => simp [unnamed]

namespace FieldAttributes.GivenBy

open Json

variable {key : String} {json : Json} {rest : List (String × Json)}
  {start attributes : FieldAttributes}

theorem nil_iff : attributes.GivenBy [] start ↔ attributes = start := by
  obtain ⟨_, _, _, _, _, _, flags⟩ := attributes
  obtain ⟨_, _, _, _, _, _, startFlags⟩ := start
  cases flags
  cases startFlags
  simp only [givenBy_iff, Given.nil_iff, FieldAttributes.mk.injEq, ShapeHints.mk.injEq]

theorem skip_iff (unknown : key ∉ FieldAttributes.controlKeys) :
    attributes.GivenBy ((key, json) :: rest) start ↔ attributes.GivenBy rest start := by
  simp only [FieldAttributes.controlKeys, List.mem_cons, List.not_mem_nil, or_false, not_or]
    at unknown
  simp [givenBy_iff, Given.skip_iff, unknown]

theorem take_iff (path : String) (control : FieldControl) :
    attributes.GivenBy ((control.key, json) :: rest) start ↔
      ∃ middle, control.apply path json start = .ok middle ∧ attributes.GivenBy rest middle := by
  cases control <;>
    simp [FieldControl.apply, FieldControl.key, except_map_eq_ok, Attribute.string_eq_ok_iff,
      Attribute.boolean_eq_ok_iff, Attribute.stringList_eq_ok_iff, Attribute.arguments_eq_ok_iff,
      Directive.listOfJson_eq_ok_iff, givenBy_iff, Given.skip_iff, Given.take_iff, IsSome] <;>
    -- what is held is named on the left inside of one attribute, and on the right for all of them
    aesop

end FieldAttributes.GivenBy

theorem FieldControl.key_of_ofKey? {key : String} {control : FieldControl}
    (found : ofKey? key = some control) : control.key = key := by
  simpa using List.find?_some found

theorem FieldControl.ofKey?_key (control : FieldControl) : ofKey? control.key = some control := by
  cases control <;> rfl

theorem FieldControl.ofKey?_eq_none_iff {key : String} :
    ofKey? key = none ↔ key ∉ FieldAttributes.controlKeys := by
  rw [ofKey?, List.find?_eq_none]
  simp [all, FieldControl.key, FieldAttributes.controlKeys, eq_comm]

theorem FieldControl.key_mem (control : FieldControl) :
    control.key ∈ FieldAttributes.controlKeys := by
  cases control <;> simp [FieldControl.key, FieldAttributes.controlKeys]

namespace Json

variable {controls : List String} {key : String} {json : Json} {rest : List (String × Json)}
  {members : List (String × DeclaredField)}

theorem declareMembers_nil_iff : DeclareMembers controls [] members ↔ members = [] := by
  constructor
  · rintro ⟨⟩
    rfl
  · rintro rfl
    exact .nil

theorem declareMembers_control_iff (known : key ∈ controls) :
    DeclareMembers controls ((key, json) :: rest) members ↔ DeclareMembers controls rest members := by
  constructor
  · intro declared
    cases declared with
    | control _ others => exact others
    | field unknown => exact absurd known unknown
  · exact .control known

theorem declareMembers_field_iff (unknown : key ∉ controls) :
    DeclareMembers controls ((key, json) :: rest) members ↔
      IsFieldName key ∧ ∃ field, DeclaresField json field ∧
        ∃ later, DeclareMembers controls rest later ∧ members = (key, field) :: later := by
  constructor
  · intro declared
    cases declared with
    | control known => exact absurd known unknown
    | field _ named first others => exact ⟨named, _, first, _, others, rfl⟩
  · rintro ⟨named, field, first, later, others, rfl⟩
    exact .field unknown named first others

theorem DeclareMembers.keys_eq {entries : List (String × Json)}
    (declared : DeclareMembers controls entries members) :
    Entries.keys members = (Entries.keys entries).filter (· ∉ controls) := by
  induction entries generalizing members with
  | nil =>
      obtain rfl := declareMembers_nil_iff.mp declared
      rfl
  | cons entry rest ih =>
      obtain ⟨key, json⟩ := entry
      have first : Entries.keys ((key, json) :: rest) = key :: Entries.keys rest := rfl
      by_cases known : key ∈ controls
      · have others := (declareMembers_control_iff known).mp declared
        rw [first, List.filter_cons_of_neg (by simpa using known), ih others]
      · obtain ⟨-, field, -, later, others, rfl⟩ := (declareMembers_field_iff known).mp declared
        rw [first, List.filter_cons_of_pos (by simpa using known), ← ih others]
        rfl

theorem DeclaresField.keys_eq {entries : List (String × Json)} {field : DeclaredField}
    (declares : DeclaresField (.object entries) field)
    (distinct : (Entries.keys entries).Nodup) :
    Entries.keys field.fields = (Entries.keys entries).filter (· ∉ FieldAttributes.controlKeys) := by
  cases declares with
  | @object _ _ members given declared =>
      have kept : (Entries.keys members).Nodup := by
        rw [declared.keys_eq]
        exact distinct.filter _
      rw [DeclaredField.fields, Entries.ofList_of_distinct kept, declared.keys_eq]

end Json

namespace DeclaredField

open Json

def withFields (field : DeclaredField) (members : List (String × DeclaredField)) : DeclaredField :=
  ⟨field.attributes, members.foldl (fun fields pair => Entries.insert fields pair.1 pair.2)
    field.fields⟩

mutual

theorem ofJson_eq_ok_iff (path : String) : (json : Json) → {field : DeclaredField} →
    (ofJson path json = .ok field ↔ DeclaresField json field)
  | .object entries, field => by
      rw [ofJson, ofEntries_eq_ok_iff path entries]
      constructor
      · rintro ⟨attributes, members, given, declared, rfl⟩
        exact .object given declared
      · rintro ⟨given, declared⟩
        exact ⟨_, _, given, declared, rfl⟩
  | .null, field | .bool _, field | .integer _, field | .float _, field | .string _, field
  | .list _, field => by
      rw [ofJson]
      · constructor
        · rintro ⟨⟩
        · rintro ⟨⟩
      · simp

theorem ofEntries_eq_ok_iff (path : String) : (entries : List (String × Json)) →
    {start final : DeclaredField} →
    (ofEntries path entries start = .ok final ↔ ∃ attributes members,
      attributes.GivenBy entries start.attributes ∧
      DeclareMembers FieldAttributes.controlKeys entries members ∧
      final = withFields ⟨attributes, start.fields⟩ members)
  | [], ⟨attributes, fields⟩, final => by
      rw [ofEntries, Except.ok.injEq]
      simp [FieldAttributes.GivenBy.nil_iff, declareMembers_nil_iff, withFields,
        DeclaredField.attributes, DeclaredField.fields, eq_comm]
  | (key, json) :: rest, start, final => by
      rw [ofEntries]
      cases found : FieldControl.ofKey? key with
      | some control =>
          obtain rfl := FieldControl.key_of_ofKey? found
          simp only [except_bind_eq_ok, ofEntries_eq_ok_iff path rest,
            FieldAttributes.GivenBy.take_iff path control,
            declareMembers_control_iff control.key_mem]
          constructor
          · rintro ⟨middle, applied, attributes, members, given, declared, rfl⟩
            exact ⟨attributes, members, ⟨middle, applied, given⟩, declared, rfl⟩
          · rintro ⟨attributes, members, ⟨middle, applied, given⟩, declared, rfl⟩
            exact ⟨middle, applied, attributes, members, given, declared, rfl⟩
      | none =>
          have unknown := FieldControl.ofKey?_eq_none_iff.mp found
          simp only [FieldAttributes.GivenBy.skip_iff unknown, declareMembers_field_iff unknown]
          simp only [fieldEntry_eq_ok_iff, ofJson_eq_ok_iff _ json, ofEntries_eq_ok_iff path rest]
          constructor
          · rintro ⟨named, field, first, attributes, later, given, others, rfl⟩
            exact ⟨attributes, _, given, ⟨named, field, first, later, others, rfl⟩, rfl⟩
          · rintro ⟨attributes, _, given, ⟨named, field, first, later, others, rfl⟩, rfl⟩
            exact ⟨named, field, first, attributes, later, given, others, rfl⟩

end

end DeclaredField

end GraphRequest
