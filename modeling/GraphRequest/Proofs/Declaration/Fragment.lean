import GraphRequest.Fragment.Loading
import GraphRequest.Proofs.Declaration.Field

/-!
Which JSON trees declare a fragment.
-/

namespace GraphRequest

open Json

namespace Fragment

/-- The keys of a fragment under which no field is declared. `__typename` is one of them. -/
def controlKeys : List String :=
  ["__fragmentName", "__typename", "__fragments", "__scalars"]

@[mk_iff]
structure GivenBy (fragment : Fragment) (entries : List (String × Json)) (start : Fragment) :
    Prop where
  name : fragment.name = start.name
  typeCondition : fragment.typeCondition = start.typeCondition
  scalars : Given ["__scalars"] IsStringList entries start.scalars fragment.scalars
  includes : Given ["__fragments"] IsStringList entries start.includes fragment.includes
  fields : ∃ members, DeclareMembers controlKeys entries members ∧
    fragment.fields = start.fields.insertAll members

end Fragment

inductive Json.DeclaresFragment : Json → Fragment → Prop
  | object {entries : List (String × Json)} {name typeCondition : String} {fragment : Fragment}
      (named : Entries.get? entries "__fragmentName" = some (.string name))
      (typed : Entries.get? entries "__typename" = some (.string typeCondition))
      (given : fragment.GivenBy entries { name, typeCondition }) :
      DeclaresFragment (.object entries) fragment

namespace Fragment

section Entries

variable {key : String} {json : Json} {rest : List (String × Json)} {fragment : Fragment}

theorem ofEntries_head (naming : key = "__fragmentName" ∨ key = "__typename") :
    ofEntries ((key, json) :: rest) fragment = ofEntries rest fragment := by
  rcases naming with rfl | rfl <;> simp [ofEntries, nameKey, typeKey]

theorem ofEntries_includes :
    ofEntries (("__fragments", json) :: rest) fragment = (do
      let includes ← Attribute.stringList "__fragments" fragment.name json
      ofEntries rest { fragment with includes }) := by
  simp [ofEntries, nameKey, typeKey, includesKey]

theorem ofEntries_scalars :
    ofEntries (("__scalars", json) :: rest) fragment = (do
      let scalars ← Attribute.stringList "__scalars" fragment.name json
      ofEntries rest { fragment with scalars }) := by
  simp [ofEntries, nameKey, typeKey, includesKey, scalarsKey]

theorem ofEntries_field (unknown : key ∉ controlKeys) :
    ofEntries ((key, json) :: rest) fragment =
      if isFieldKey key then do
        let field ← DeclaredField.ofJson (Text.dotted fragment.name key) json
        ofEntries rest (fragment.withField key field)
      else .error (.unknownAttribute key fragment.name) := by
  simp only [controlKeys, List.mem_cons, List.not_mem_nil, or_false, not_or] at unknown
  simp [ofEntries, nameKey, typeKey, includesKey, scalarsKey, unknown]

end Entries

namespace GivenBy

variable {key : String} {json : Json} {rest : List (String × Json)} {start fragment : Fragment}

theorem nil_iff : fragment.GivenBy [] start ↔ fragment = start := by
  obtain ⟨_, _, _, _, _⟩ := start
  obtain ⟨_, _, _, _, _⟩ := fragment
  simp [givenBy_iff, Given.nil_iff, declareMembers_nil_iff, OrderedMap.insertAll]

theorem head_iff (naming : key = "__fragmentName" ∨ key = "__typename") :
    fragment.GivenBy ((key, json) :: rest) start ↔ fragment.GivenBy rest start := by
  rcases naming with rfl | rfl <;>
    simp [givenBy_iff, Given.skip_iff, declareMembers_control_iff, controlKeys]

theorem includes_iff :
    fragment.GivenBy (("__fragments", json) :: rest) start ↔
      ∃ held, json.IsStringList held ∧ fragment.GivenBy rest { start with includes := held } := by
  simp only [givenBy_iff, Given.take_iff List.mem_cons_self,
    Given.skip_iff (show "__fragments" ∉ ["__scalars"] by decide),
    declareMembers_control_iff (show "__fragments" ∈ controlKeys by decide)]
  constructor
  · rintro ⟨name, typeCondition, scalars, ⟨held, holding, includes⟩, fields⟩
    exact ⟨held, holding, name, typeCondition, scalars, includes, fields⟩
  · rintro ⟨held, holding, name, typeCondition, scalars, includes, fields⟩
    exact ⟨name, typeCondition, scalars, ⟨held, holding, includes⟩, fields⟩

theorem scalars_iff :
    fragment.GivenBy (("__scalars", json) :: rest) start ↔
      ∃ held, json.IsStringList held ∧ fragment.GivenBy rest { start with scalars := held } := by
  simp only [givenBy_iff, Given.take_iff List.mem_cons_self,
    Given.skip_iff (show "__scalars" ∉ ["__fragments"] by decide),
    declareMembers_control_iff (show "__scalars" ∈ controlKeys by decide)]
  constructor
  · rintro ⟨name, typeCondition, ⟨held, holding, scalars⟩, others⟩
    exact ⟨held, holding, name, typeCondition, scalars, others⟩
  · rintro ⟨held, holding, name, typeCondition, scalars, others⟩
    exact ⟨name, typeCondition, ⟨held, holding, scalars⟩, others⟩

theorem field_iff (unknown : key ∉ controlKeys) :
    fragment.GivenBy ((key, json) :: rest) start ↔
      IsFieldName key ∧ ∃ field, json.DeclaresField field ∧
        fragment.GivenBy rest (start.withField key field) := by
  have noScalars : key ∉ ["__scalars"] := fun same => unknown (by simp_all [controlKeys])
  have noIncludes : key ∉ ["__fragments"] := fun same => unknown (by simp_all [controlKeys])
  simp only [givenBy_iff, declareMembers_field_iff unknown, Given.skip_iff noScalars,
    Given.skip_iff noIncludes]
  constructor
  · rintro ⟨name, typeCondition, scalars, includes, _, ⟨named, field, first, later, others, rfl⟩,
      same⟩
    exact ⟨named, field, first, name, typeCondition, scalars, includes, later, others, same⟩
  · rintro ⟨named, field, first, name, typeCondition, scalars, includes, later, others, same⟩
    exact ⟨name, typeCondition, scalars, includes, _, ⟨named, field, first, later, others, rfl⟩,
      same⟩

end GivenBy

theorem ofEntries_eq_ok_iff {entries : List (String × Json)} {start fragment : Fragment} :
    ofEntries entries start = .ok fragment ↔ fragment.GivenBy entries start := by
  induction entries generalizing start with
  | nil => rw [ofEntries, Except.ok.injEq, GivenBy.nil_iff, eq_comm]
  | cons entry rest ih =>
      obtain ⟨key, json⟩ := entry
      by_cases known : key ∈ controlKeys
      · simp only [controlKeys, List.mem_cons, List.not_mem_nil, or_false] at known
        rcases known with rfl | rfl | rfl | rfl
        · rw [ofEntries_head (.inl rfl), ih, GivenBy.head_iff (.inl rfl)]
        · rw [ofEntries_head (.inr rfl), ih, GivenBy.head_iff (.inr rfl)]
        · rw [ofEntries_includes, except_bind_eq_ok, GivenBy.includes_iff]
          simp only [Attribute.stringList_eq_ok_iff, ih]
        · rw [ofEntries_scalars, except_bind_eq_ok, GivenBy.scalars_iff]
          simp only [Attribute.stringList_eq_ok_iff, ih]
      · rw [ofEntries_field known, fieldEntry_eq_ok_iff, GivenBy.field_iff known]
        simp only [DeclaredField.ofJson_eq_ok_iff, ih]

theorem required_eq_ok_iff {entries : List (String × Json)} {key path text : String} :
    required entries key path = .ok text ↔ Entries.get? entries key = some (.string text) := by
  rw [required]
  cases Entries.get? entries key with
  | none => simp
  | some json => simp [Attribute.string_eq_ok_iff, IsString]

theorem load_eq_ok_iff {json : Json} {fragment : Fragment} :
    load json = .ok fragment ↔ json.DeclaresFragment fragment := by
  cases json with
  | object entries =>
      rw [load]
      simp only [except_bind_eq_ok, required_eq_ok_iff, ofEntries_eq_ok_iff]
      constructor
      · rintro ⟨name, named, typeCondition, typed, given⟩
        exact .object named typed given
      · rintro ⟨named, typed, given⟩
        exact ⟨_, named, _, typed, given⟩
  | _ =>
      constructor
      · rintro ⟨⟩
      · rintro ⟨⟩

end Fragment

end GraphRequest
