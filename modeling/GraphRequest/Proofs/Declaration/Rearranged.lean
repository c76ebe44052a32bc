import GraphRequest.Proofs.Declaration.Operation
import GraphRequest.Proofs.Entries

/-!
Declarations whose entries stand in another order. Each attribute is read from its own key, and
fields from all others, so only the order of the fields is kept in what is declared.
-/

namespace GraphRequest

variable {α : Type} {controls keys : List String} {entries inner others : List (String × Json)}

theorem Given.filtered_iff {holds : Json → α → Prop} {default value : α} :
    Given keys holds (entries.filter (·.1 ∈ keys)) default value ↔
      Given keys holds entries default value := by
  constructor
  · intro given
    exact ⟨by simpa using given.each, by simpa using given.last⟩
  · intro given
    exact ⟨by simpa using given.each, by simpa using given.last⟩

namespace Json

def declaresMember (controls : List String) (entry : String × Json) : Bool :=
  entry.1 ∉ controls && isFieldKey entry.1

mutual

/-- The declaration of a field with its entries moved around. -/
inductive Rearranged : Json → Json → Prop
  | same (json : Json) : Rearranged json json
  | object {entries others : List (String × Json)}
      (moved : RearrangedEntries FieldAttributes.controlKeys entries others) :
      Rearranged (.object entries) (.object others)

/-- The entries of a declaration, each key once, are moved around, and so are those of the fields in
it. The fields keep their order, and arguments are given under one key only. -/
inductive RearrangedEntries :
    List String → List (String × Json) → List (String × Json) → Prop
  | moved {controls : List String} {entries inner others : List (String × Json)}
      (distinct : (Entries.keys entries).Nodup)
      (single : ¬("__args" ∈ Entries.keys entries ∧ "__params" ∈ Entries.keys entries))
      (inside : RearrangedInside controls entries inner) (moved : inner.Perm others)
      (ordered : inner.filter (declaresMember controls) = others.filter (declaresMember controls)) :
      RearrangedEntries controls entries others

/-- The entries stay in their places, and what is moved around stands in the fields. -/
inductive RearrangedInside :
    List String → List (String × Json) → List (String × Json) → Prop
  | nil {controls : List String} : RearrangedInside controls [] []
  | keep {controls : List String} {entry : String × Json} {rest inner : List (String × Json)}
      (others : RearrangedInside controls rest inner) :
      RearrangedInside controls (entry :: rest) (entry :: inner)
  | field {controls : List String} {key : String} {json other : Json}
      {rest inner : List (String × Json)} (unknown : key ∉ controls)
      (first : Rearranged json other) (others : RearrangedInside controls rest inner) :
      RearrangedInside controls ((key, json) :: rest) ((key, other) :: inner)

end

theorem declareMembers_iff_filter {members : List (String × DeclaredField)} :
    DeclareMembers controls entries members ↔
      (∀ entry ∈ entries, entry.1 ∉ controls → IsFieldName entry.1) ∧
        DeclareMembers controls (entries.filter (declaresMember controls)) members := by
  induction entries generalizing members with
  | nil => simp
  | cons entry rest ih =>
      obtain ⟨key, json⟩ := entry
      rw [List.forall_mem_cons]
      by_cases known : key ∈ controls
      · rw [declareMembers_control_iff known, ih,
          List.filter_cons_of_neg (by simp [declaresMember, known])]
        simp [known]
      · rw [declareMembers_field_iff known]
        by_cases named : IsFieldName key
        · have kept : declaresMember controls (key, json) := by
            simp [declaresMember, known, isFieldKey_iff.mpr named]
          rw [List.filter_cons_of_pos kept, declareMembers_field_iff known]
          simp only [ih, named, known]
          constructor
          · rintro ⟨-, field, first, later, ⟨names, others⟩, rfl⟩
            exact ⟨⟨fun _ => trivial, names⟩, trivial, field, first, later, others, rfl⟩
          · rintro ⟨⟨-, names⟩, -, field, first, later, others, rfl⟩
            exact ⟨trivial, field, first, later, ⟨names, others⟩, rfl⟩
        · simp [named, known]

theorem declareMembers_iff_of_perm (moved : inner.Perm others)
    (ordered : inner.filter (declaresMember controls) = others.filter (declaresMember controls))
    {members : List (String × DeclaredField)} :
    DeclareMembers controls inner members ↔ DeclareMembers controls others members := by
  calc
    _ ↔ (∀ entry ∈ inner, entry.1 ∉ controls → IsFieldName entry.1) ∧
        DeclareMembers controls (inner.filter (declaresMember controls)) members :=
      declareMembers_iff_filter
    _ ↔ (∀ entry ∈ others, entry.1 ∉ controls → IsFieldName entry.1) ∧
        DeclareMembers controls (others.filter (declaresMember controls)) members := by
      simp only [ordered, moved.mem_iff]
    _ ↔ _ := declareMembers_iff_filter.symm

/-- Lists of entries that declare the same: they agree on every attribute and on the fields. -/
structure Alike (controls : List String) (entries others : List (String × Json)) : Prop where
  held : ∀ key ∈ controls, entries.filter (·.1 ∈ [key]) = others.filter (·.1 ∈ [key])
  arguments : "__args" ∈ controls → "__params" ∈ controls →
    entries.filter (·.1 ∈ ["__args", "__params"]) = others.filter (·.1 ∈ ["__args", "__params"])
  members : ∀ members,
    DeclareMembers controls entries members ↔ DeclareMembers controls others members

theorem RearrangedInside.filter_eq (known : keys ⊆ controls) :
    {entries inner : List (String × Json)} → RearrangedInside controls entries inner →
      entries.filter (·.1 ∈ keys) = inner.filter (·.1 ∈ keys)
  | _, _, .nil => rfl
  | _, _, .keep others => by
      rw [List.filter_cons, List.filter_cons, others.filter_eq known]
  | _, _, .field unknown _ others => by
      have other := fun there => unknown (known there)
      rw [List.filter_cons_of_neg (by simpa using other),
        List.filter_cons_of_neg (by simpa using other), others.filter_eq known]

namespace Alike

theorem given_iff (alike : Alike controls entries others) (key : String) (known : key ∈ controls)
    {holds : Json → α → Prop} {default value : α} :
    Given [key] holds entries default value ↔ Given [key] holds others default value := by
  rw [← Given.filtered_iff, alike.held key known, Given.filtered_iff]

theorem given_arguments_iff (alike : Alike controls entries others) (args : "__args" ∈ controls)
    (params : "__params" ∈ controls) {holds : Json → α → Prop} {default value : α} :
    Given ["__args", "__params"] holds entries default value ↔
      Given ["__args", "__params"] holds others default value := by
  rw [← Given.filtered_iff, alike.arguments args params, Given.filtered_iff]

theorem gathered_iff (alike : Alike controls entries others) (key : String) (known : key ∈ controls)
    {holds : Json → List α → Prop} {items : List α} :
    Gathered key holds entries items ↔ Gathered key holds others items := by
  have same : entries.filter (·.1 = key) = others.filter (·.1 = key) := by
    simpa using alike.held key known
  rw [Gathered, Gathered, same]

theorem get?_eq (alike : Alike controls entries others) (key : String) (known : key ∈ controls) :
    Entries.get? entries key = Entries.get? others key := by
  rw [Entries.get?_eq_head?, alike.held key known, ← Entries.get?_eq_head?]

theorem givenBy_field (alike : Alike FieldAttributes.controlKeys entries others)
    {attributes start : FieldAttributes} :
    attributes.GivenBy entries start ↔ attributes.GivenBy others start := by
  rw [FieldAttributes.givenBy_iff, FieldAttributes.givenBy_iff,
    alike.given_iff "__alias" (by decide), alike.given_arguments_iff (by decide) (by decide),
    alike.given_iff "__directives" (by decide), alike.given_iff "__fragments" (by decide),
    alike.given_iff "__toLocalType" (by decide), alike.given_iff "__scalars" (by decide),
    alike.given_iff "__connection" (by decide), alike.given_iff "__edges" (by decide),
    alike.given_iff "__list" (by decide), alike.given_iff "__node" (by decide)]

theorem givenBy_fragment (alike : Alike Fragment.controlKeys entries others)
    {fragment start : Fragment} :
    fragment.GivenBy entries start ↔ fragment.GivenBy others start := by
  rw [Fragment.givenBy_iff, Fragment.givenBy_iff, alike.given_iff "__scalars" (by decide),
    alike.given_iff "__fragments" (by decide)]
  simp only [alike.members]

theorem givenBy_operation (alike : Alike OperationDraft.controlKeys entries others)
    {draft start : OperationDraft} : draft.GivenBy entries start ↔ draft.GivenBy others start := by
  rw [OperationDraft.givenBy_iff, OperationDraft.givenBy_iff,
    alike.given_iff "__operationName" (by decide), alike.given_iff "__directives" (by decide)]
  simp only [alike.gathered_iff "__variables" (by decide), alike.members]

theorem declaresField_iff (alike : Alike FieldAttributes.controlKeys entries others)
    {field : DeclaredField} :
    DeclaresField (.object entries) field ↔ DeclaresField (.object others) field := by
  constructor
  · rintro ⟨given, declared⟩
    exact .object (alike.givenBy_field.mp given) ((alike.members _).mp declared)
  · rintro ⟨given, declared⟩
    exact .object (alike.givenBy_field.mpr given) ((alike.members _).mpr declared)

theorem declaresFragment_iff (alike : Alike Fragment.controlKeys entries others)
    {fragment : Fragment} :
    DeclaresFragment (.object entries) fragment ↔ DeclaresFragment (.object others) fragment := by
  have sameName := alike.get?_eq "__fragmentName" (by decide)
  have sameType := alike.get?_eq "__typename" (by decide)
  constructor
  · rintro ⟨named, typed, given⟩
    exact .object (sameName ▸ named) (sameType ▸ typed) (alike.givenBy_fragment.mp given)
  · rintro ⟨named, typed, given⟩
    exact .object (sameName ▸ named) (sameType ▸ typed) (alike.givenBy_fragment.mpr given)

theorem declaresOperation_iff (alike : Alike OperationDraft.controlKeys entries others)
    {type : OperationType} {draft : OperationDraft} :
    DeclaresOperation type (.object entries) draft ↔
      DeclaresOperation type (.object others) draft := by
  constructor
  · rintro ⟨given⟩
    exact .object (alike.givenBy_operation.mp given)
  · rintro ⟨given⟩
    exact .object (alike.givenBy_operation.mpr given)

end Alike

theorem RearrangedEntries.filter_eq (moved : RearrangedEntries controls entries others)
    (known : keys ⊆ controls)
    (single : ∀ first ∈ keys, ∀ second ∈ keys, first ∈ Entries.keys entries →
      second ∈ Entries.keys entries → first = second) :
    entries.filter (·.1 ∈ keys) = others.filter (·.1 ∈ keys) := by
  cases moved with
  | moved distinct _ inside moved =>
      have short := Entries.length_filter_le_one distinct single
      rw [inside.filter_eq known] at short ⊢
      exact filter_eq_of_perm moved short

theorem RearrangedEntries.arguments_eq (moved : RearrangedEntries controls entries others)
    (args : "__args" ∈ controls) (params : "__params" ∈ controls) :
    entries.filter (·.1 ∈ ["__args", "__params"]) =
      others.filter (·.1 ∈ ["__args", "__params"]) := by
  apply moved.filter_eq (by simp [args, params])
  cases moved with
  | moved _ single =>
      simp only [List.mem_cons, List.not_mem_nil, or_false]
      rintro _ (rfl | rfl) _ (rfl | rfl) there also
      · rfl
      · exact absurd ⟨there, also⟩ single
      · exact absurd ⟨also, there⟩ single
      · rfl

mutual

theorem Rearranged.declaresField_iff : {json other : Json} → Rearranged json other →
    (field : DeclaredField) → (DeclaresField json field ↔ DeclaresField other field)
  | _, _, .same _, _ => Iff.rfl
  | _, _, .object moved, _ => moved.alike.declaresField_iff

theorem RearrangedEntries.alike : {controls : List String} →
    {entries others : List (String × Json)} → RearrangedEntries controls entries others → Alike controls entries others
  | _, _, _, .moved distinct single inside moved ordered =>
      have rearranged := RearrangedEntries.moved distinct single inside moved ordered
      ⟨fun key known => rearranged.filter_eq (by simpa using known) (by simp),
        rearranged.arguments_eq,
        fun members => (inside.declareMembers_iff members).trans
          (declareMembers_iff_of_perm moved ordered)⟩

theorem RearrangedInside.declareMembers_iff : {controls : List String} →
    {entries inner : List (String × Json)} → RearrangedInside controls entries inner →
      (members : List (String × DeclaredField)) →
        (DeclareMembers controls entries members ↔ DeclareMembers controls inner members)
  | _, _, _, .nil, _ => Iff.rfl
  | controls, _, _, @RearrangedInside.keep _ (key, json) _ _ others, members => by
      by_cases known : key ∈ controls
      · rw [declareMembers_control_iff known, declareMembers_control_iff known,
          others.declareMembers_iff]
      · simp only [declareMembers_field_iff known, others.declareMembers_iff]
  | _, _, _, .field unknown first others, members => by
      simp only [declareMembers_field_iff unknown, first.declaresField_iff,
        others.declareMembers_iff]

end

end Json

open Json

/-- A declaration is accepted or not wherever its control keys stand, and the same is declared.
Fields, and what they are given as arguments and directives, are in the same order. -/
theorem load_rearranged :
    (∀ json other, Rearranged json other → ∀ field,
      DeclaredField.load json = .ok field ↔ DeclaredField.load other = .ok field) ∧
    (∀ entries others, RearrangedEntries Fragment.controlKeys entries others → ∀ fragment,
      Fragment.load (.object entries) = .ok fragment ↔
        Fragment.load (.object others) = .ok fragment) ∧
    ∀ type entries others, RearrangedEntries OperationDraft.controlKeys entries others → ∀ draft,
      OperationDraft.load type (.object entries) = .ok draft ↔
        OperationDraft.load type (.object others) = .ok draft := by
  refine ⟨?fields, ?fragments, ?operations⟩
  case fields =>
    intro json other rearranged field
    rw [DeclaredField.load, DeclaredField.ofJson_eq_ok_iff, rearranged.declaresField_iff field,
      DeclaredField.load, DeclaredField.ofJson_eq_ok_iff]
  case fragments =>
    intro entries others rearranged fragment
    rw [Fragment.load_eq_ok_iff, rearranged.alike.declaresFragment_iff, Fragment.load_eq_ok_iff]
  case operations =>
    intro type entries others rearranged draft
    rw [OperationDraft.load_eq_ok_iff, rearranged.alike.declaresOperation_iff,
      OperationDraft.load_eq_ok_iff]

def petsEntries : List (String × Json) :=
  [("__args", .object [("first", .integer 2), ("order", .object [("__enum", .string "NAME")])]),
    ("__scalars", .list [.string "id", .string "name"])]

def petsField : DeclaredField :=
  ⟨{ arguments := some ⟨[("first", .int 2), ("order", .enum "NAME")], by decide⟩,
      scalars := some ["id", "name"] }, []⟩

def ownerEntries : List (String × Json) :=
  [("__alias", .string "keeper"), ("pets", .object petsEntries), ("__list", .bool true),
    ("home", .object [])]

def movedOwnerEntries : List (String × Json) :=
  [("pets", .object petsEntries.reverse), ("__alias", .string "keeper"), ("home", .object []),
    ("__list", .bool true)]

def ownerField : DeclaredField :=
  ⟨{ aliasName := some "keeper", flags.list := true }, [("pets", petsField), ("home", .empty)]⟩

def ownerFragment : Fragment :=
  { name := "Owner", typeCondition := "User", fields := ⟨[("pets", petsField)], by decide⟩ }

def ownerDraft : OperationDraft :=
  { type := .query, name := some "Pets", fields := ⟨[("pets", petsField)], by decide⟩ }

theorem ownerEntries_load_rearranged :
    Rearranged (.object ownerEntries) (.object movedOwnerEntries) ∧
    DeclaredField.load (.object ownerEntries) = .ok ownerField ∧
    DeclaredField.load (.object movedOwnerEntries) = .ok ownerField ∧
    Fragment.load (.object [("pets", .object petsEntries.reverse),
      ("__fragmentName", .string "Owner"), ("__typename", .string "User")]) = .ok ownerFragment ∧
    OperationDraft.load .query (.object [("pets", .object petsEntries.reverse),
      ("__operationName", .string "Pets")]) = .ok ownerDraft := by
  have pets : Rearranged (.object petsEntries) (.object petsEntries.reverse) :=
    .object (.moved (by decide) (by decide) (.keep (.keep .nil)) (.swap _ _ _) rfl)
  have owner : Rearranged (.object ownerEntries) (.object movedOwnerEntries) :=
    .object (.moved (by decide) (by decide) (.keep (.field (by decide) pets (.keep (.keep .nil))))
      ((List.Perm.swap _ _ _).trans (.cons _ (.cons _ (.swap _ _ _)))) rfl)
  have fragment : RearrangedEntries Fragment.controlKeys
      [("__fragmentName", .string "Owner"), ("__typename", .string "User"),
        ("pets", .object petsEntries)]
      [("pets", .object petsEntries.reverse), ("__fragmentName", .string "Owner"),
        ("__typename", .string "User")] :=
    .moved (by decide) (by decide) (.keep (.keep (.field (by decide) pets .nil)))
      (.trans (.cons _ (.swap _ _ _)) (.swap _ _ _)) rfl
  have operation : RearrangedEntries OperationDraft.controlKeys
      [("__operationName", .string "Pets"), ("pets", .object petsEntries)]
      [("pets", .object petsEntries.reverse), ("__operationName", .string "Pets")] :=
    .moved (by decide) (by decide) (.keep (.field (by decide) pets .nil)) (.swap _ _ _) rfl
  have loaded : DeclaredField.load (.object ownerEntries) = .ok ownerField := by rfl
  obtain ⟨fields, fragments, operations⟩ := load_rearranged
  refine ⟨owner, loaded, (fields _ _ owner _).mp loaded, ?_, ?_⟩
  · exact (fragments _ _ fragment ownerFragment).mp rfl
  · exact (operations .query _ _ operation ownerDraft).mp rfl

end GraphRequest
