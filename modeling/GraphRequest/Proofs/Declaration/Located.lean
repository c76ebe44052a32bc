import GraphRequest.Proofs.Declaration.Operation
import GraphRequest.Proofs.Entries
import GraphRequest.Proofs.Json.Spelled

/-!
Where values stand in the text of a declaration, and where they stand in what is loaded from it. Of
entries under one key the last one counts, and so does the last of the two attributes for arguments.
-/

namespace GraphRequest

open Json

namespace Json.Spelled

def under? (keys : List String) : Spelled → Option Spelled
  | object entries => Entries.last? keys entries
  | _ => none

def child? : ValueStep → Spelled → Option Spelled
  | .item index, list items => items[index]?
  | .entry key, tree => tree.under? [key]
  | _, _ => none

def at? : List ValueStep → Spelled → Option Spelled
  | [], tree => some tree
  | step :: path, tree => (tree.child? step).bind (at? path)

end Json.Spelled

namespace Value

def child? : ValueStep → Value → Option Value
  | .item index, list items => items[index]?
  | .entry key, object entries => Entries.last? [key] entries
  | _, _ => none

def at? : List ValueStep → Value → Option Value
  | [], value => some value
  | step :: path, value => (value.child? step).bind (at? path)

def argumentAt? (name : String) (path : List ValueStep) (arguments : OrderedMap String Value) :
    Option Value :=
  (arguments.get? name).bind (at? path)

end Value

def Directive.valueAt? (index : Nat) (name : String) (path : List ValueStep)
    (directives : List Directive) : Option Value :=
  directives[index]?.bind fun directive => Value.argumentAt? name path directive.arguments

/-- Where a value may be declared for a field, or for one of the fields inside it. -/
inductive FieldPlace
  | argument (name : String) (path : List ValueStep)
  | directive (index : Nat) (name : String) (path : List ValueStep)
  | inside (key : String) (place : FieldPlace)

inductive OperationPlace
  | directive (index : Nat) (name : String) (path : List ValueStep)
  | input (name : String) (path : List ValueStep)
  | field (key : String) (place : FieldPlace)

namespace Json.Spelled

def directiveAt? (index : Nat) (name : String) (path : List ValueStep) (tree : Spelled) :
    Option Spelled :=
  (tree.under? ["__directives"]).bind (at? (.item index :: .entry "args" :: .entry name :: path))

def member? (controls : List String) (key : String) (tree : Spelled) : Option Spelled :=
  if key ∈ controls then none else tree.under? [key]

def inField? : FieldPlace → Spelled → Option Spelled
  | .argument name path, tree => (tree.under? ["__args", "__params"]).bind (at? (.entry name :: path))
  | .directive index name path, tree => tree.directiveAt? index name path
  | .inside key place, tree => (tree.member? FieldAttributes.controlKeys key).bind (inField? place)

def inFragment? (key : String) (place : FieldPlace) (tree : Spelled) : Option Spelled :=
  (tree.member? Fragment.controlKeys key).bind (inField? place)

def inOperation? : OperationPlace → Spelled → Option Spelled
  | .directive index name path, tree => tree.directiveAt? index name path
  | .input name path, tree =>
      (tree.under? ["__variables"]).bind (at? (.entry name :: .entry "value" :: path))
  | .field key place, tree => (tree.member? OperationDraft.controlKeys key).bind (inField? place)

end Json.Spelled

def DeclaredField.valueAt? : FieldPlace → DeclaredField → Option Value
  | .argument name path, field => field.attributes.arguments.bind (Value.argumentAt? name path)
  | .directive index name path, field => Directive.valueAt? index name path field.attributes.directives
  | .inside key place, field => (Entries.get? field.fields key).bind (valueAt? place)

def Fragment.valueAt? (key : String) (place : FieldPlace) (fragment : Fragment) : Option Value :=
  (fragment.fields.get? key).bind (DeclaredField.valueAt? place)

def OperationDraft.valueAt? : OperationPlace → OperationDraft → Option Value
  | .directive index name path, draft => Directive.valueAt? index name path draft.directives
  | .input name path, draft => (draft.inputs.get? name).bind fun declared => declared.value.at? path
  | .field key place, draft => (draft.fields.get? key).bind (DeclaredField.valueAt? place)

namespace Json

def NumberToken.Declares (token : NumberToken) (value? : Option Value) : Prop :=
  ∃ value ∈ value?, DeclaresValue token.value value

theorem NumberToken.value_ne_string (token : NumberToken) (text : String) :
    token.value ≠ .string text := by
  intro same
  have valued := token.valued
  rw [Numeral.value, same] at valued
  repeat' split at valued
  all_goals simp at valued

end Json

section Related

variable {α β : Type} {relates : α → β → Prop}

theorem exists_of_rel {a : α} {b? : Option β} (related : Option.Rel relates (some a) b?) :
    ∃ b, b? = some b ∧ relates a b := by
  cases related with
  | some same => exact ⟨_, rfl, same⟩

theorem rel_getElem? {items : List α} {others : List β}
    (related : List.Forall₂ relates items others) (index : Nat) :
    Option.Rel relates items[index]? others[index]? := by
  induction related generalizing index with
  | nil => exact .none
  | cons first _ ih =>
      cases index with
      | zero => exact .some first
      | succ index => exact ih index

end Related

namespace Json

theorem DeclareItems.forall₂ {items : List Json} {values : List Value}
    (declared : DeclareItems items values) : List.Forall₂ DeclaresValue items values := by
  induction items generalizing values with
  | nil =>
      cases declared
      exact .nil
  | cons item rest ih =>
      cases declared with
      | cons first others => exact .cons first (ih others)

theorem DeclareEntries.forall₂ {entries : List (String × Json)} {values : List (String × Value)}
    (declared : DeclareEntries entries values) :
    List.Forall₂ (fun entry value => entry.1 = value.1 ∧ DeclaresValue entry.2 value.2) entries
      values := by
  induction entries generalizing values with
  | nil =>
      cases declared
      exact .nil
  | cons entry rest ih =>
      cases declared with
      | cons first others => exact .cons ⟨rfl, first⟩ (ih others)

theorem DeclareMembers.rel_last? {controls : List String} {key : String}
    {entries : List (String × Json)} {members : List (String × DeclaredField)}
    (unknown : key ∉ controls) (declared : DeclareMembers controls entries members) :
    Option.Rel DeclaresField (Entries.last? [key] entries) (Entries.last? [key] members) := by
  induction entries generalizing members with
  | nil =>
      cases declared
      exact .none
  | cons entry rest ih =>
      cases declared with
      | @control _ other _ _ _ known others =>
          have apart : other ∉ [key] := fun same => unknown (List.mem_singleton.mp same ▸ known)
          rw [Entries.last?_skip apart]
          exact ih others
      | field _ _ first others => exact Entries.rel_last?_cons first (ih others)

end Json

theorem Given.of_last? {α : Type} {keys : List String} {holds : Json → α → Prop}
    {entries : List (String × Json)} {default value : α} {json : Json}
    (given : Given keys holds entries default value)
    (found : Entries.last? keys entries = some json) : holds json value := by
  have last := given.last
  obtain ⟨entry, there, rfl⟩ := Option.map_eq_some_iff.mp found
  rw [there] at last
  exact last

theorem Gathered.of_last? {α : Type} {key : String} {holds : Json → List α → Prop}
    {entries : List (String × Json)} {items : List α} {json : Json}
    (gathered : Gathered key holds entries items)
    (found : Entries.last? [key] entries = some json) :
    ∃ front group, holds json group ∧ items = front ++ group := by
  obtain ⟨groups, held, rfl⟩ := gathered
  obtain ⟨entry, there, rfl⟩ := Option.map_eq_some_iff.mp found
  simp only [List.mem_singleton] at there
  obtain ⟨before, split⟩ := List.getLast?_eq_some_iff.mp there
  rw [split] at held
  have behind := List.forall₂_drop_append _ _ _ held.flip
  obtain ⟨group, _, holding, ⟨⟩, last⟩ := List.forall₂_cons_right_iff.mp behind
  refine ⟨(groups.take before.length).flatten, group, holding, ?_⟩
  calc
    groups.flatten = (groups.take before.length ++ groups.drop before.length).flatten := by
      rw [List.take_append_drop]
    _ = (groups.take before.length).flatten ++ group := by
      rw [last, List.flatten_append, List.flatten_singleton]

namespace Json

open Spelled

variable {tree found : Spelled} {token : NumberToken} {path : List ValueStep} {name : String}

theorem Spelled.string_of_at? {text : String} (isText : tree.json = .string text)
    (stands : tree.at? path = some found) : found.json = .string text := by
  cases path with
  | nil =>
      cases stands
      exact isText
  | cons step path =>
      cases tree with
      | string _ => cases step <;> cases stands
      | number token => cases step <;> cases stands
      | _ => cases isText

theorem Spelled.last?_entriesJson (keys : List String) {entries : List (String × Spelled)}
    (last : Entries.last? keys entries = some found) :
    Entries.last? keys (entriesJson entries) = some found.json := by
  rw [entriesJson_eq_map, Entries.last?_map, last]
  rfl

/-- What stands in a declared value is declared in the same place, but for the names of variables and
enum literals. -/
theorem DeclaresValue.child? {step : ValueStep} {child : Spelled} {value : Value}
    (declares : DeclaresValue tree.json value) (under : tree.child? step = some child) :
    (∃ text, child.json = .string text) ∨
      ∃ inner, value.child? step = some inner ∧ DeclaresValue child.json inner := by
  cases tree with
  | list items =>
      cases step with
      | item index =>
          rw [json, itemsJson_eq_map] at declares
          cases declares with
          | @list _ values each =>
              have related := rel_getElem? each.forall₂ index
              rw [List.getElem?_map, show items[index]? = some child from under] at related
              exact .inr (exists_of_rel related)
      | entry key => cases under
  | object entries =>
      cases step with
      | item index => cases under
      | entry key =>
          have last := last?_entriesJson [key] under
          rw [json] at declares
          generalize entriesJson entries = held at declares last
          cases declares with
          | reference name => exact .inl ⟨name, by simp_all [Entries.last?]⟩
          | enum name => exact .inl ⟨name, by simp_all [Entries.last?]⟩
          | @object _ values _ _ each =>
              have related := Entries.rel_last? [key] each.forall₂
              rw [last] at related
              exact .inr (exists_of_rel related)
  | _ => cases step <;> cases under

theorem DeclaresValue.at? {value : Value} (declares : DeclaresValue tree.json value)
    (stands : tree.at? path = some (.number token)) : token.Declares (value.at? path) := by
  induction path generalizing tree value with
  | nil =>
      cases stands
      exact ⟨value, rfl, declares⟩
  | cons step path ih =>
      obtain ⟨child, under, stands⟩ := Option.bind_eq_some_iff.mp stands
      rcases declares.child? under with ⟨text, isText⟩ | ⟨inner, there, declares⟩
      · exact absurd (string_of_at? isText stands) (token.value_ne_string text)
      · rw [Value.at?, there]
        exact ih declares stands

theorem Spelled.of_under? {keys : List String} {entries : List (String × Json)}
    (isObject : tree.json = .object entries) (under : tree.under? keys = some found) :
    Entries.last? keys entries = some found.json := by
  cases tree with
  | object held =>
      cases isObject
      exact last?_entriesJson keys under
  | number token => cases under
  | _ => cases isObject

theorem DeclareArguments.at? {arguments : List (String × Value)}
    (declared : tree.json.DeclareArguments arguments)
    (stands : tree.at? (.entry name :: path) = some (.number token)) :
    ∃ value, Entries.last? [name] arguments = some value ∧ token.Declares (value.at? path) := by
  obtain ⟨entries, isObject, each⟩ := declared
  obtain ⟨child, under, stands⟩ := Option.bind_eq_some_iff.mp stands
  have related := Entries.rel_last? [name] each.forall₂
  rw [of_under? isObject under] at related
  obtain ⟨value, there, declares⟩ := exists_of_rel related
  exact ⟨value, there, declares.at? stands⟩

theorem IsArguments.at? {map : OrderedMap String Value} (declared : tree.json.IsArguments map)
    (stands : tree.at? (.entry name :: path) = some (.number token)) :
    token.Declares (Value.argumentAt? name path map) := by
  obtain ⟨arguments, declared, rfl⟩ := declared
  obtain ⟨value, last, declares⟩ := DeclareArguments.at? declared stands
  rw [Value.argumentAt?, OrderedMap.get?_ofList, last]
  exact declares

theorem DeclaresDirective.at? {directive : Directive} (declares : tree.json.DeclaresDirective directive)
    (stands : tree.at? (.entry "args" :: .entry name :: path) = some (.number token)) :
    token.Declares (Value.argumentAt? name path directive.arguments) := by
  obtain ⟨child, under, stands⟩ := Option.bind_eq_some_iff.mp stands
  generalize isObject : tree.json = json at declares
  cases declares with
  | object _ _ gathered =>
      obtain ⟨front, group, declared, rfl⟩ := gathered.of_last? (of_under? isObject under)
      obtain ⟨value, last, declares⟩ := DeclareArguments.at? declared stands
      rw [Value.argumentAt?, OrderedMap.get?_ofList, Entries.last?_append, last]
      exact declares

theorem IsDirectiveList.at? {directives : List Directive} {index : Nat}
    (declared : tree.json.IsDirectiveList directives)
    (stands : tree.at? (.item index :: .entry "args" :: .entry name :: path) = some (.number token)) :
    token.Declares (Directive.valueAt? index name path directives) := by
  obtain ⟨items, isList, each⟩ := declared
  obtain ⟨child, under, inside⟩ := Option.bind_eq_some_iff.mp stands
  cases tree with
  | list held =>
      cases isList
      have related := rel_getElem? each index
      rw [itemsJson_eq_map, List.getElem?_map, show held[index]? = some child from under] at related
      obtain ⟨directive, there, declares⟩ := exists_of_rel related
      rw [Directive.valueAt?, there]
      exact declares.at? inside
  | number token => cases under
  | _ => cases isList

theorem Given.directiveAt? {entries : List (String × Json)} {default directives : List Directive}
    {index : Nat} (isObject : tree.json = .object entries)
    (given : Given ["__directives"] IsDirectiveList entries default directives)
    (stands : tree.directiveAt? index name path = some (.number token)) :
    token.Declares (Directive.valueAt? index name path directives) := by
  obtain ⟨child, under, stands⟩ := Option.bind_eq_some_iff.mp stands
  exact IsDirectiveList.at? (given.of_last? (of_under? isObject under)) stands

theorem DeclareMembers.member? {controls : List String} {key : String} {child : Spelled}
    {entries : List (String × Json)} {members : List (String × DeclaredField)}
    (isObject : tree.json = .object entries) (declared : DeclareMembers controls entries members)
    (under : tree.member? controls key = some child) :
    ∃ field, Entries.last? [key] members = some field ∧ child.json.DeclaresField field := by
  rw [Spelled.member?] at under
  split at under
  · cases under
  · next unknown =>
      have related := declared.rel_last? unknown
      rw [of_under? isObject under] at related
      exact exists_of_rel related

theorem DeclaresField.valueAt? {place : FieldPlace} {field : DeclaredField}
    (declares : tree.json.DeclaresField field)
    (stands : tree.inField? place = some (.number token)) :
    token.Declares (field.valueAt? place) := by
  induction place generalizing tree field with
  | argument name path =>
      obtain ⟨child, under, stands⟩ := Option.bind_eq_some_iff.mp stands
      generalize isObject : tree.json = json at declares
      cases declares with
      | object given _ =>
          obtain ⟨map, isMap, declared⟩ := given.arguments.of_last? (of_under? isObject under)
          rw [DeclaredField.valueAt?, DeclaredField.attributes, isMap]
          exact IsArguments.at? declared stands
  | directive index name path =>
      generalize isObject : tree.json = json at declares
      cases declares with
      | object given _ => exact Given.directiveAt? isObject given.directives stands
  | inside key place ih =>
      obtain ⟨child, under, stands⟩ := Option.bind_eq_some_iff.mp stands
      generalize isObject : tree.json = json at declares
      cases declares with
      | object _ declared =>
          obtain ⟨field, there, declares⟩ := declared.member? isObject under
          rw [DeclaredField.valueAt?, DeclaredField.fields, Entries.get?_ofList, there]
          exact ih declares stands

theorem DeclaresFragment.valueAt? {key : String} {place : FieldPlace} {fragment : Fragment}
    (declares : tree.json.DeclaresFragment fragment)
    (stands : tree.inFragment? key place = some (.number token)) :
    token.Declares (fragment.valueAt? key place) := by
  obtain ⟨child, under, stands⟩ := Option.bind_eq_some_iff.mp stands
  generalize isObject : tree.json = json at declares
  cases declares with
  | object _ _ given =>
      obtain ⟨members, declared, same⟩ := given.fields
      obtain ⟨field, there, declares⟩ := declared.member? isObject under
      rw [Fragment.valueAt?, same, OrderedMap.get?_insertAll, there]
      exact declares.valueAt? stands

theorem DeclaresVariable.valueAt? {declared : DeclaredVariable}
    (declares : tree.json.DeclaresVariable declared)
    (stands : tree.at? (.entry "value" :: path) = some (.number token)) :
    token.Declares (declared.value.at? path) := by
  obtain ⟨child, under, stands⟩ := Option.bind_eq_some_iff.mp stands
  generalize isObject : tree.json = json at declares
  cases declares with
  | object _ valued _ _ =>
      obtain ⟨value, same, declares⟩ := valued.of_last? (of_under? isObject under)
      cases same
      exact declares.at? stands

theorem DeclareVariables.valueAt? {declared : List (String × DeclaredVariable)}
    (declares : tree.json.DeclareVariables declared)
    (stands : tree.at? (.entry name :: .entry "value" :: path) = some (.number token)) :
    ∃ one, Entries.last? [name] declared = some one ∧ token.Declares (one.value.at? path) := by
  obtain ⟨entries, isObject, each⟩ := declares
  obtain ⟨child, under, stands⟩ := Option.bind_eq_some_iff.mp stands
  have related := Entries.rel_last? [name] each
  rw [of_under? isObject under] at related
  obtain ⟨one, there, declares⟩ := exists_of_rel related
  exact ⟨one, there, declares.valueAt? stands⟩

theorem DeclaresOperation.valueAt? {type : OperationType} {place : OperationPlace}
    {draft : OperationDraft} (declares : tree.json.DeclaresOperation type draft)
    (stands : tree.inOperation? place = some (.number token)) :
    token.Declares (draft.valueAt? place) := by
  generalize isObject : tree.json = json at declares
  cases declares with
  | object given =>
      cases place with
      | directive index name path => exact Given.directiveAt? isObject given.directives stands
      | input name path =>
          obtain ⟨child, under, stands⟩ := Option.bind_eq_some_iff.mp stands
          obtain ⟨declared, gathered, same⟩ := given.inputs
          obtain ⟨front, group, declares, rfl⟩ := gathered.of_last? (of_under? isObject under)
          obtain ⟨one, last, declares⟩ := DeclareVariables.valueAt? declares stands
          rw [OperationDraft.valueAt?, OrderedMap.get?_eq_last?, same, Entries.last?_append,
            Entries.last?_append, last]
          exact declares
      | field key place =>
          obtain ⟨child, under, stands⟩ := Option.bind_eq_some_iff.mp stands
          obtain ⟨members, declared, same⟩ := given.fields
          obtain ⟨field, there, declares⟩ := declared.member? isObject under
          rw [OperationDraft.valueAt?, same, OrderedMap.get?_insertAll, there]
          exact declares.valueAt? stands

end Json

end GraphRequest
