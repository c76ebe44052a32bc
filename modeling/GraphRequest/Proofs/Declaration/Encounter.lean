import GraphRequest.Proofs.Declaration.Operation
import GraphRequest.Proofs.Json.Spelled

/-!
Loading reads the entries of a declaration in their order and stops at the first fault. It comes to a
number token if everything that is read before the token is well formed.
-/

namespace GraphRequest

namespace Json.Spelled

/-- Reading the value at `path` comes to the token, which stands at `place`. -/
inductive ValueComesTo (token : NumberToken) : (path : String) → Spelled → (place : String) → Prop
  | here {path : String} : ValueComesTo token path (.number token) path
  | item {path place : String} {front rest : List Spelled} {item : Spelled} {values : List Value}
      (before : DeclareItems (itemsJson front) values)
      (inside : ValueComesTo token path item place) :
      ValueComesTo token path (.list (front ++ item :: rest)) place
  | entry {path place key : String} {front rest : List (String × Spelled)} {item : Spelled}
      {values : List (String × Value)}
      (noReference : "__fromVariable" ∉ Entries.keys (front ++ (key, item) :: rest))
      (noEnum : "__enum" ∉ Entries.keys (front ++ (key, item) :: rest))
      (before : DeclareEntries (entriesJson front) values)
      (inside : ValueComesTo token (Text.dotted path key) item place) :
      ValueComesTo token path (.object (front ++ (key, item) :: rest)) place

/-- Reading the arguments comes to the token. The argument of a name stands at `pathOf name`. -/
inductive ArgumentsComeTo (token : NumberToken) (pathOf : String → String) :
    Spelled → (place : String) → Prop
  | argument {place name : String} {front rest : List (String × Spelled)} {item : Spelled}
      {values : List (String × Value)} (before : DeclareEntries (entriesJson front) values)
      (inside : ValueComesTo token (pathOf name) item place) :
      ArgumentsComeTo token pathOf (.object (front ++ (name, item) :: rest)) place

inductive DirectiveComesTo (token : NumberToken) (path : String) : Spelled → (place : String) → Prop
  | arguments {place name : String} {front rest : List (String × Spelled)} {held : Spelled}
      {values : List (String × Value)}
      (named : Entries.get? (entriesJson (front ++ ("args", held) :: rest)) "name" =
        some (.string name))
      (only : ∀ key ∈ Entries.keys front, key = "name" ∨ key = "args")
      (before : Gathered "args" DeclareArguments (entriesJson front) values)
      (inside : ArgumentsComeTo token (fun key => Text.dotted path ("@" ++ name ++ "." ++ key)) held
        place) :
      DirectiveComesTo token path (.object (front ++ ("args", held) :: rest)) place

inductive DirectivesComeTo (token : NumberToken) (path : String) : Spelled → (place : String) → Prop
  | directive {place : String} {front rest : List Spelled} {item : Spelled}
      {directives : List Directive}
      (before : List.Forall₂ DeclaresDirective (itemsJson front) directives)
      (inside : DirectiveComesTo token path item place) :
      DirectivesComeTo token path (.list (front ++ item :: rest)) place

/-- Reading the field at `path` comes to the token. The entries before it declare a field by
themselves. -/
inductive FieldComesTo (token : NumberToken) : (path : String) → Spelled → (place : String) → Prop
  | arguments {path place key : String} {front rest : List (String × Spelled)} {held : Spelled}
      {field : DeclaredField} (before : DeclaresField (.object (entriesJson front)) field)
      (known : key ∈ ["__args", "__params"])
      (inside : ArgumentsComeTo token (Text.dotted path) held place) :
      FieldComesTo token path (.object (front ++ (key, held) :: rest)) place
  | directives {path place : String} {front rest : List (String × Spelled)} {held : Spelled}
      {field : DeclaredField} (before : DeclaresField (.object (entriesJson front)) field)
      (inside : DirectivesComeTo token path held place) :
      FieldComesTo token path (.object (front ++ ("__directives", held) :: rest)) place
  | field {path place key : String} {front rest : List (String × Spelled)} {held : Spelled}
      {field : DeclaredField} (before : DeclaresField (.object (entriesJson front)) field)
      (unknown : key ∉ FieldAttributes.controlKeys) (named : IsFieldName key)
      (inside : FieldComesTo token (Text.dotted path key) held place) :
      FieldComesTo token path (.object (front ++ (key, held) :: rest)) place

/-- The name and the type of a fragment are looked for before anything else. -/
inductive FragmentComesTo (token : NumberToken) : Spelled → (place : String) → Prop
  | field {place key name typeCondition : String} {front rest : List (String × Spelled)}
      {held : Spelled} {fragment : Fragment}
      (named : Entries.get? (entriesJson (front ++ (key, held) :: rest)) "__fragmentName" =
        some (.string name))
      (typed : Entries.get? (entriesJson (front ++ (key, held) :: rest)) "__typename" =
        some (.string typeCondition))
      (before : fragment.GivenBy (entriesJson front) { name, typeCondition })
      (unknown : key ∉ Fragment.controlKeys) (fieldName : IsFieldName key)
      (inside : FieldComesTo token (Text.dotted name key) held place) :
      FragmentComesTo token (.object (front ++ (key, held) :: rest)) place

inductive VariableComesTo (token : NumberToken) (name : String) : Spelled → (place : String) → Prop
  | value {place : String} {front rest : List (String × Spelled)} {held : Spelled}
      {value : Option Value} {typeName : Option String} {nonNullable : Bool}
      (only : ∀ key ∈ Entries.keys front, key ∈ ["value", "type", "nonNullable"])
      (valued : Given ["value"] (IsSome DeclaresValue) (entriesJson front) none value)
      (typed : Given ["type"] (IsSome IsString) (entriesJson front) none typeName)
      (marked : Given ["nonNullable"] IsBoolean (entriesJson front) false nonNullable)
      (inside : ValueComesTo token (Text.dotted "__variables" name) held place) :
      VariableComesTo token name (.object (front ++ ("value", held) :: rest)) place

inductive VariablesComeTo (token : NumberToken) : Spelled → (place : String) → Prop
  | input {place name : String} {front rest : List (String × Spelled)} {held : Spelled}
      {declared : List (String × DeclaredVariable)}
      (before : DeclareVariables (.object (entriesJson front)) declared)
      (inside : VariableComesTo token name held place) :
      VariablesComeTo token (.object (front ++ (name, held) :: rest)) place

inductive OperationComesTo (token : NumberToken) (type : OperationType) :
    Spelled → (place : String) → Prop
  | directives {place : String} {front rest : List (String × Spelled)} {held : Spelled}
      {draft : OperationDraft} (before : DeclaresOperation type (.object (entriesJson front)) draft)
      (inside : DirectivesComeTo token "" held place) :
      OperationComesTo token type (.object (front ++ ("__directives", held) :: rest)) place
  | inputs {place : String} {front rest : List (String × Spelled)} {held : Spelled}
      {draft : OperationDraft} (before : DeclaresOperation type (.object (entriesJson front)) draft)
      (inside : VariablesComeTo token held place) :
      OperationComesTo token type (.object (front ++ ("__variables", held) :: rest)) place
  | field {place key : String} {front rest : List (String × Spelled)} {held : Spelled}
      {draft : OperationDraft} (before : DeclaresOperation type (.object (entriesJson front)) draft)
      (unknown : key ∉ OperationDraft.controlKeys) (named : IsFieldName key)
      (inside : FieldComesTo token key held place) :
      OperationComesTo token type (.object (front ++ (key, held) :: rest)) place

theorem itemsJson_split (front rest : List Spelled) (item : Spelled) :
    itemsJson (front ++ item :: rest) = itemsJson front ++ item.json :: itemsJson rest := by
  simp only [itemsJson_eq_map, List.map_append, List.map_cons]

theorem entriesJson_split (front rest : List (String × Spelled)) (key : String) (held : Spelled) :
    entriesJson (front ++ (key, held) :: rest) =
      entriesJson front ++ (key, held.json) :: entriesJson rest := by
  simp only [entriesJson_eq_map, List.map_append, List.map_cons]

theorem keys_entriesJson (entries : List (String × Spelled)) :
    Entries.keys (entriesJson entries) = Entries.keys entries := by
  rw [entriesJson_eq_map, Entries.keys_map]

end Json.Spelled

open Json

variable {path key : String} {json : Json} {cause : RequestError}

theorem except_bind_error {α β : Type} {result : Except RequestError α}
    {next : α → Except RequestError β} (failed : result = .error cause) :
    (result >>= next) = .error cause := by
  rw [failed]
  rfl

theorem except_bind_ok {α β : Type} {result : Except RequestError α}
    {next : α → Except RequestError β} {a : α} (passed : result = .ok a) :
    (result >>= next) = next a := by
  rw [passed]
  rfl

namespace Value

theorem itemsOfJson_error {front rest : List Json} {values : List Value}
    (before : DeclareItems front values) (failed : ofJson path json = .error cause) :
    itemsOfJson path (front ++ json :: rest) = .error cause := by
  induction front generalizing values with
  | nil => exact except_bind_error failed
  | cons item front ih =>
      cases before with
      | cons first others =>
          rw [List.cons_append, itemsOfJson, except_bind_ok ((ofJson_eq_ok_iff path item).mpr first)]
          exact except_bind_error (ih others)

theorem entriesOfJson_error {front rest : List (String × Json)} {values : List (String × Value)}
    (before : DeclareEntries front values)
    (failed : ofJson (Text.dotted path key) json = .error cause) :
    entriesOfJson path (front ++ (key, json) :: rest) = .error cause := by
  induction front generalizing values with
  | nil => exact except_bind_error failed
  | cons entry front ih =>
      obtain ⟨other, item⟩ := entry
      cases before with
      | cons first others =>
          rw [List.cons_append, entriesOfJson, except_bind_ok ((ofJson_eq_ok_iff _ item).mpr first)]
          exact except_bind_error (ih others)

end Value

namespace Directive

theorem argumentsOfJson_error {name : String} {front rest : List (String × Json)}
    {values : List (String × Value)} {directive : Directive} (before : DeclareEntries front values)
    (failed : Value.ofJson (Text.dotted path ("@" ++ name ++ "." ++ key)) json = .error cause) :
    argumentsOfJson path name (front ++ (key, json) :: rest) directive = .error cause := by
  induction front generalizing values directive with
  | nil => exact except_bind_error failed
  | cons entry front ih =>
      obtain ⟨other, item⟩ := entry
      cases before with
      | cons first others =>
          rw [List.cons_append, argumentsOfJson,
            except_bind_ok ((Value.ofJson_eq_ok_iff _ item).mpr first)]
          exact ih others

theorem entriesOfJson_append (front rest : List (String × Json)) (directive : Directive) :
    entriesOfJson path (front ++ rest) directive =
      entriesOfJson path front directive >>= entriesOfJson path rest := by
  induction front generalizing directive with
  | nil => rfl
  | cons entry front ih =>
      obtain ⟨key, json⟩ := entry
      rw [List.cons_append, entriesOfJson.eq_def, entriesOfJson.eq_def path ((key, json) :: front)]
      simp only [ih]
      split
      · rfl
      · split
        · cases json <;> simp [bind_assoc] <;> rfl
        · rfl

theorem allOfJson_error {front rest : List Json} {directives : List Directive}
    (before : List.Forall₂ DeclaresDirective front directives)
    (failed : ofJson path json = .error cause) :
    allOfJson path (front ++ json :: rest) = .error cause := by
  induction front generalizing directives with
  | nil => exact except_bind_error failed
  | cons item front ih =>
      cases before with
      | cons first others =>
          rw [List.cons_append, allOfJson, except_bind_ok (ofJson_eq_ok_iff.mpr first)]
          exact except_bind_error (ih others)

end Directive

theorem DeclaredField.ofEntries_append (front rest : List (String × Json)) (field : DeclaredField) :
    ofEntries path (front ++ rest) field = ofEntries path front field >>= ofEntries path rest := by
  induction front generalizing field with
  | nil => rw [ofEntries]; rfl
  | cons entry front ih =>
      obtain ⟨key, json⟩ := entry
      rw [List.cons_append, ofEntries, ofEntries]
      simp only [ih]
      split
      · simp only [bind_assoc]
      · split
        · simp only [bind_assoc]
        · rfl

theorem Fragment.ofEntries_append (front rest : List (String × Json)) (fragment : Fragment) :
    ofEntries (front ++ rest) fragment = ofEntries front fragment >>= ofEntries rest := by
  induction front generalizing fragment with
  | nil => rfl
  | cons entry front ih =>
      obtain ⟨key, json⟩ := entry
      rw [List.cons_append, ofEntries, ofEntries]
      simp only [ih]
      repeat' split
      all_goals first | rfl | simp only [bind_assoc]

theorem OperationDraft.ofEntries_append (front rest : List (String × Json)) (draft : OperationDraft) :
    ofEntries (front ++ rest) draft = ofEntries front draft >>= ofEntries rest := by
  induction front generalizing draft with
  | nil => rfl
  | cons entry front ih =>
      obtain ⟨key, json⟩ := entry
      rw [List.cons_append, ofEntries, ofEntries]
      simp only [ih]
      repeat' split
      all_goals first | rfl | simp only [bind_assoc]

namespace DeclaredVariable

theorem partsOfJson_append {name : String} (front rest : List (String × Json)) (parts : Parts) :
    partsOfJson name (front ++ rest) parts =
      partsOfJson name front parts >>= partsOfJson name rest := by
  induction front generalizing parts with
  | nil => rfl
  | cons entry front ih =>
      obtain ⟨key, json⟩ := entry
      rw [List.cons_append, partsOfJson.eq_def, partsOfJson.eq_def name ((key, json) :: front)]
      simp only [ih]
      repeat' split
      all_goals first | rfl | simp only [bind_assoc]

theorem entriesOfJson_error {front rest : List (String × Json)}
    {declared : List (String × DeclaredVariable)}
    (before : DeclareVariables (.object front) declared) (failed : ofJson key json = .error cause) :
    entriesOfJson (front ++ (key, json) :: rest) = .error cause := by
  obtain ⟨_, ⟨⟩, each⟩ := before
  induction front generalizing declared with
  | nil => exact except_bind_error failed
  | cons entry front ih =>
      obtain ⟨other, item⟩ := entry
      cases each with
      | cons first others =>
          rw [List.cons_append, entriesOfJson, except_bind_ok (ofJson_eq_ok_iff.mpr first.2)]
          exact except_bind_error (ih others)

end DeclaredVariable

namespace Json.Spelled

section Split

variable {front rest : List (String × Spelled)} {held : Spelled}

theorem field_split {field : DeclaredField}
    (before : DeclaresField (.object (entriesJson front)) field) :
    DeclaredField.ofJson path (object (front ++ (key, held) :: rest)).json =
      DeclaredField.ofEntries path ((key, held.json) :: entriesJson rest) field := by
  have passed := (DeclaredField.ofJson_eq_ok_iff path _).mpr before
  rw [DeclaredField.ofJson] at passed
  rw [json, entriesJson_split, DeclaredField.ofJson, DeclaredField.ofEntries_append,
    except_bind_ok passed]

theorem operation_split {type : OperationType} {draft : OperationDraft}
    (before : DeclaresOperation type (.object (entriesJson front)) draft) :
    OperationDraft.load type (object (front ++ (key, held) :: rest)).json =
      OperationDraft.ofEntries ((key, held.json) :: entriesJson rest) draft := by
  have passed := OperationDraft.load_eq_ok_iff.mpr before
  rw [OperationDraft.load] at passed
  rw [json, entriesJson_split, OperationDraft.load, OperationDraft.ofEntries_append,
    except_bind_ok passed]

theorem control_error (control : FieldControl) {field : DeclaredField}
    (before : DeclaresField (.object (entriesJson front)) field)
    (failed : ∀ attributes, control.apply path held.json attributes = .error cause) :
    DeclaredField.ofJson path (object (front ++ (control.key, held) :: rest)).json = .error cause := by
  rw [field_split before, DeclaredField.ofEntries, control.ofKey?_key]
  exact except_bind_error (failed field.attributes)

end Split

section Overflow

variable {token : NumberToken} {tree : Spelled} {place : String} {n : Int}
  (valued : token.value = .integer n) (large : Value.fitsInt64 n = false)

include valued large

theorem ValueComesTo.error (comes : ValueComesTo token path tree place) :
    Value.ofJson path tree.json = .error (.integerOverflow n place) := by
  induction comes with
  | here =>
      rw [json, valued, Value.ofJson, large]
      rfl
  | item before _ ih =>
      rw [json, itemsJson_split, Value.ofJson, Value.itemsOfJson_error before ih]
      rfl
  | @entry path _ key front rest item _ noReference noEnum before _ ih =>
      rw [← keys_entriesJson] at noReference noEnum
      have free : Value.tagged? path (entriesJson (front ++ (key, item) :: rest)) = .ok none :=
        Value.tagged?_eq_ok_iff.mpr (.inr (.inr ⟨noReference, noEnum, rfl⟩))
      rw [json, Value.ofJson, except_bind_ok free, entriesJson_split]
      exact except_bind_error (Value.entriesOfJson_error before ih)

theorem DirectiveComesTo.error (comes : DirectiveComesTo token path tree place) :
    Directive.ofJson path tree.json = .error (.integerOverflow n place) := by
  cases comes with
  | @arguments _ name front rest held values named only before inside =>
      cases inside with
      | argument earlier inside =>
          have failed := inside.error valued large
          rw [json, Directive.ofJson, named]
          simp only
          rw [← keys_entriesJson] at only
          have passed : Directive.entriesOfJson path (entriesJson front) ⟨name, .empty⟩ =
              .ok (Directive.withArguments ⟨name, .empty⟩ values) :=
            Directive.entriesOfJson_eq_ok_iff.mpr ⟨only, values, before, rfl⟩
          rw [entriesJson_split, Directive.entriesOfJson_append, except_bind_ok passed]
          rw [Directive.entriesOfJson.eq_def]
          simp only [show ("args" = "name") = False by decide, if_false, if_true, json, entriesJson_split]
          exact except_bind_error (Directive.argumentsOfJson_error earlier failed)

theorem DirectivesComeTo.error (comes : DirectivesComeTo token path tree place) :
    Directive.listOfJson path tree.json = .error (.integerOverflow n place) := by
  cases comes with
  | directive before inside =>
      rw [json, itemsJson_split, Directive.listOfJson]
      exact Directive.allOfJson_error before (inside.error valued large)

theorem ArgumentsComeTo.error (comes : ArgumentsComeTo token (Text.dotted path) tree place) :
    Attribute.arguments key path tree.json = .error (.integerOverflow n place) := by
  cases comes with
  | argument before inside =>
      rw [json, entriesJson_split, Attribute.arguments,
        Value.entriesOfJson_error before (inside.error valued large)]
      rfl

theorem FieldComesTo.error (comes : FieldComesTo token path tree place) :
    DeclaredField.ofJson path tree.json = .error (.integerOverflow n place) := by
  induction comes with
  | arguments before known inside =>
      simp only [List.mem_cons, List.not_mem_nil, or_false] at known
      rcases known with rfl | rfl
      · exact control_error .args before fun _ =>
          except_bind_error (inside.error valued large)
      · exact control_error .params before fun _ =>
          except_bind_error (inside.error valued large)
  | directives before inside =>
      exact control_error .directives before fun _ =>
        except_bind_error (inside.error valued large)
  | field before unknown named _ ih =>
      rw [field_split before, DeclaredField.ofEntries, FieldControl.ofKey?_eq_none_iff.mpr unknown]
      simp only [isFieldKey_iff.mpr named, if_true]
      exact except_bind_error ih

theorem FragmentComesTo.error (comes : FragmentComesTo token tree place) :
    Fragment.load tree.json = .error (.integerOverflow n place) := by
  cases comes with
  | @field _ key name typeCondition front rest held fragment named typed before unknown fieldName
      inside =>
      have hasName : Fragment.required _ Fragment.nameKey "" = .ok name :=
        Fragment.required_eq_ok_iff.mpr named
      have hasType : Fragment.required _ Fragment.typeKey name = .ok typeCondition :=
        Fragment.required_eq_ok_iff.mpr typed
      rw [json, Fragment.load, except_bind_ok hasName, except_bind_ok hasType, entriesJson_split,
        Fragment.ofEntries_append, except_bind_ok (Fragment.ofEntries_eq_ok_iff.mpr before),
        Fragment.ofEntries_field unknown, if_pos (isFieldKey_iff.mpr fieldName), before.name]
      exact except_bind_error (inside.error valued large)

theorem VariableComesTo.error {name : String} (comes : VariableComesTo token name tree place) :
    DeclaredVariable.ofJson name tree.json = .error (.integerOverflow n place) := by
  cases comes with
  | @value _ front rest held value typeName nonNullable only earlier typed marked inside =>
      rw [← keys_entriesJson] at only
      have passed : DeclaredVariable.partsOfJson name (entriesJson front) {} =
          .ok ⟨value, typeName, nonNullable⟩ :=
        DeclaredVariable.partsOfJson_eq_ok_iff.mpr ⟨only, earlier, typed, marked⟩
      rw [json, entriesJson_split, DeclaredVariable.ofJson, DeclaredVariable.partsOfJson_append,
        except_bind_ok passed, DeclaredVariable.partsOfJson_value,
        except_bind_error (inside.error valued large)]
      rfl

theorem VariablesComeTo.error (comes : VariablesComeTo token tree place) :
    DeclaredVariable.allOfJson tree.json = .error (.integerOverflow n place) := by
  cases comes with
  | input before inside =>
      rw [json, entriesJson_split, DeclaredVariable.allOfJson]
      exact DeclaredVariable.entriesOfJson_error before (inside.error valued large)

theorem OperationComesTo.error {type : OperationType}
    (comes : OperationComesTo token type tree place) :
    OperationDraft.load type tree.json = .error (.integerOverflow n place) := by
  cases comes with
  | directives before inside =>
      rw [operation_split before, OperationDraft.ofEntries_directives]
      exact except_bind_error (inside.error valued large)
  | inputs before inside =>
      rw [operation_split before, OperationDraft.ofEntries_variables]
      exact except_bind_error (inside.error valued large)
  | field before unknown named inside =>
      rw [operation_split before, OperationDraft.ofEntries_field unknown,
        if_pos (isFieldKey_iff.mpr named)]
      exact except_bind_error (inside.error valued large)

end Overflow

end Json.Spelled

end GraphRequest
