import GraphRequest.Attribute
import GraphRequest.Directive.Loading
import GraphRequest.Proofs.Declaration.Value
import GraphRequest.Proofs.Entries
import Mathlib.Data.List.Forall2

/-!
What the entries of an object hold under given keys, and what attributes and directives may hold. An
attribute may be given more than once; then the last one counts. The arguments of a directive are
gathered.
-/

namespace GraphRequest

variable {α : Type}

/-- All entries under the keys hold something, and the value is what the last of them holds. Without
such an entry it is the default. -/
structure Given (keys : List String) (holds : Json → α → Prop) (entries : List (String × Json))
    (default value : α) : Prop where
  each : ∀ entry ∈ entries, entry.1 ∈ keys → ∃ held, holds entry.2 held
  last : match (entries.filter fun entry => entry.1 ∈ keys).getLast? with
    | none => value = default
    | some entry => holds entry.2 value

/-- The items are what all entries under the key hold, one behind the other. -/
def Gathered (key : String) (holds : Json → List α → Prop) (entries : List (String × Json))
    (items : List α) : Prop :=
  ∃ groups, List.Forall₂ (fun entry group => holds entry.2 group)
    (entries.filter fun entry => entry.1 = key) groups ∧ items = groups.flatten

namespace Given

variable {keys : List String} {holds : Json → α → Prop} {key : String} {json : Json}
  {rest : List (String × Json)} {default value : α}

theorem nil_iff : Given keys holds [] default value ↔ value = default :=
  ⟨fun given => given.last, fun same => ⟨by simp, same⟩⟩

theorem skip_iff (other : key ∉ keys) :
    Given keys holds ((key, json) :: rest) default value ↔ Given keys holds rest default value := by
  have filtered : ((key, json) :: rest).filter (fun entry => entry.1 ∈ keys) =
      rest.filter fun entry => entry.1 ∈ keys := List.filter_cons_of_neg (by simpa using other)
  constructor
  · rintro ⟨each, last⟩
    rw [filtered] at last
    exact ⟨fun entry member => each entry (List.mem_cons_of_mem _ member), last⟩
  · rintro ⟨each, last⟩
    refine ⟨List.forall_mem_cons.mpr ⟨fun known => absurd known other, each⟩, ?_⟩
    rwa [filtered]

theorem take_iff (known : key ∈ keys) :
    Given keys holds ((key, json) :: rest) default value ↔
      ∃ held, holds json held ∧ Given keys holds rest held value := by
  have filtered : ((key, json) :: rest).filter (fun entry => entry.1 ∈ keys) =
      (key, json) :: rest.filter fun entry => entry.1 ∈ keys :=
    List.filter_cons_of_pos (by simpa using known)
  constructor
  · rintro ⟨each, last⟩
    obtain ⟨first, others⟩ := List.forall_mem_cons.mp each
    rw [filtered, List.getLast?_cons] at last
    cases later : (rest.filter fun entry => entry.1 ∈ keys).getLast? with
    | none =>
        rw [later] at last
        exact ⟨value, last, others, by rw [later]⟩
    | some entry =>
        rw [later] at last
        obtain ⟨held, holding⟩ := first known
        exact ⟨held, holding, others, by rw [later]; exact last⟩
  · rintro ⟨held, holding, each, last⟩
    refine ⟨List.forall_mem_cons.mpr ⟨fun _ => ⟨held, holding⟩, each⟩, ?_⟩
    rw [filtered, List.getLast?_cons]
    cases later : (rest.filter fun entry => entry.1 ∈ keys).getLast? with
    | none =>
        rw [later] at last
        exact last ▸ holding
    | some entry =>
        rw [later] at last
        exact last

end Given

namespace Gathered

variable {holds : Json → List α → Prop} {key other : String} {json : Json}
  {rest : List (String × Json)} {items : List α}

theorem nil_iff : Gathered key holds [] items ↔ items = [] := by
  simp [Gathered]

theorem skip_iff (apart : other ≠ key) :
    Gathered key holds ((other, json) :: rest) items ↔ Gathered key holds rest items := by
  rw [Gathered, List.filter_cons_of_neg (by simpa using apart)]
  rfl

theorem take_iff :
    Gathered key holds ((key, json) :: rest) items ↔
      ∃ group later, holds json group ∧ Gathered key holds rest later ∧ items = group ++ later := by
  rw [Gathered, List.filter_cons_of_pos (by simp)]
  simp only [List.forall₂_cons_left_iff]
  constructor
  · rintro ⟨_, ⟨group, groups, holding, others, rfl⟩, rfl⟩
    exact ⟨group, groups.flatten, holding, ⟨groups, others, rfl⟩, List.flatten_cons⟩
  · rintro ⟨group, _, holding, ⟨groups, others, rfl⟩, rfl⟩
    exact ⟨group :: groups, ⟨group, groups, holding, others, rfl⟩, List.flatten_cons.symm⟩

end Gathered

namespace Json

def IsString (json : Json) (text : String) : Prop :=
  json = .string text

def IsBoolean (json : Json) (value : Bool) : Prop :=
  json = .bool value

def IsStringList (json : Json) (texts : List String) : Prop :=
  json = .list (texts.map .string)

def DeclareArguments (json : Json) (arguments : List (String × Value)) : Prop :=
  ∃ entries, json = .object entries ∧ DeclareEntries entries arguments

def IsSome (holds : Json → α → Prop) (json : Json) (held : Option α) : Prop :=
  ∃ value ∈ held, holds json value

theorem given_some_iff {keys : List String} {holds : Json → α → Prop} {key : String} {json : Json}
    {rest : List (String × Json)} {default value : Option α} (known : key ∈ keys) :
    Given keys (IsSome holds) ((key, json) :: rest) default value ↔
      ∃ held, holds json held ∧ Given keys (IsSome holds) rest (some held) value := by
  simp [Given.take_iff known, IsSome]

def IsArguments (json : Json) (map : OrderedMap String Value) : Prop :=
  ∃ arguments, json.DeclareArguments arguments ∧ map = .ofList arguments

inductive DeclaresDirective : Json → Directive → Prop
  | object {entries : List (String × Json)} {name : String} {arguments : List (String × Value)}
      (named : Entries.get? entries "name" = some (.string name))
      (only : ∀ key ∈ Entries.keys entries, key = "name" ∨ key = "args")
      (gathered : Gathered "args" DeclareArguments entries arguments) :
      DeclaresDirective (.object entries) ⟨name, .ofList arguments⟩

def IsDirectiveList (json : Json) (directives : List Directive) : Prop :=
  ∃ items, json = .list items ∧ List.Forall₂ DeclaresDirective items directives

end Json

namespace Attribute

open Json

variable {key path : String} {json : Json}

theorem string_eq_ok_iff {text : String} : string key path json = .ok text ↔ json.IsString text := by
  cases json <;> simp [string, IsString]

theorem boolean_eq_ok_iff {value : Bool} :
    boolean key path json = .ok value ↔ json.IsBoolean value := by
  cases json <;> simp [boolean, IsBoolean]

theorem strings?_eq_some_iff {items : List Json} {texts : List String} :
    strings? items = some texts ↔ items = texts.map .string := by
  induction items generalizing texts with
  | nil => simp [strings?, eq_comm]
  | cons item rest ih =>
      cases item with
      | string text => cases texts <;> simp [strings?, ih, and_comm]
      | _ => cases texts <;> simp [strings?]

theorem stringList_eq_ok_iff {texts : List String} :
    stringList key path json = .ok texts ↔ json.IsStringList texts := by
  cases json with
  | list items =>
      rw [stringList, IsStringList, Json.list.injEq, ← strings?_eq_some_iff]
      cases strings? items <;> simp
  | _ => simp [stringList, IsStringList]

theorem arguments_eq_ok_iff {map : OrderedMap String Value} :
    arguments key path json = .ok map ↔ json.IsArguments map := by
  cases json with
  | object entries =>
      rw [arguments, except_map_eq_ok]
      simp only [Value.entriesOfJson_eq_ok_iff, IsArguments, DeclareArguments, Json.object.injEq,
        exists_eq_left', eq_comm (b := map)]
  | _ => simp [arguments, IsArguments, DeclareArguments]

end Attribute

namespace Directive

open Json

variable {path : String}

def withArguments (directive : Directive) (arguments : List (String × Value)) : Directive :=
  { directive with arguments := directive.arguments.insertAll arguments }

theorem withArguments_append (directive : Directive) (first second : List (String × Value)) :
    directive.withArguments (first ++ second) =
      (directive.withArguments first).withArguments second := by
  rw [withArguments, OrderedMap.insertAll, List.foldl_append]
  rfl

theorem argumentsOfJson_eq_ok_iff {name : String} {entries : List (String × Json)}
    {directive final : Directive} :
    argumentsOfJson path name entries directive = .ok final ↔
      ∃ arguments, DeclareEntries entries arguments ∧
        final = directive.withArguments arguments := by
  induction entries generalizing directive with
  | nil =>
      rw [argumentsOfJson, Except.ok.injEq]
      constructor
      · rintro rfl
        exact ⟨[], .nil, rfl⟩
      · rintro ⟨_, ⟨⟩, rfl⟩
        rfl
  | cons entry rest ih =>
      obtain ⟨key, json⟩ := entry
      rw [argumentsOfJson]
      simp only [except_bind_eq_ok, Value.ofJson_eq_ok_iff, ih]
      constructor
      · rintro ⟨value, first, arguments, others, rfl⟩
        exact ⟨(key, value) :: arguments, .cons first others, rfl⟩
      · rintro ⟨_, ⟨⟩, rfl⟩
        next value arguments first others => exact ⟨value, first, arguments, others, rfl⟩

theorem entriesOfJson_arguments_iff {json : Json} {rest : List (String × Json)}
    {directive final : Directive} :
    entriesOfJson path (("args", json) :: rest) directive = .ok final ↔
      ∃ arguments, json.DeclareArguments arguments ∧
        entriesOfJson path rest (directive.withArguments arguments) = .ok final := by
  rw [entriesOfJson.eq_def]
  cases json with
  | object entries =>
      simp only [show ("args" = "name") = False by decide, if_false, if_true, except_bind_eq_ok,
        argumentsOfJson_eq_ok_iff, DeclareArguments, Json.object.injEq, exists_eq_left']
      constructor
      · rintro ⟨_, ⟨arguments, declared, rfl⟩, read⟩
        exact ⟨arguments, declared, read⟩
      · rintro ⟨arguments, declared, read⟩
        exact ⟨_, ⟨arguments, declared, rfl⟩, read⟩
  | _ => simp [DeclareArguments]

theorem entriesOfJson_eq_ok_iff {entries : List (String × Json)} {directive final : Directive} :
    entriesOfJson path entries directive = .ok final ↔
      (∀ key ∈ Entries.keys entries, key = "name" ∨ key = "args") ∧
      ∃ arguments, Gathered "args" DeclareArguments entries arguments ∧
        final = directive.withArguments arguments := by
  induction entries generalizing directive with
  | nil =>
      rw [entriesOfJson, Except.ok.injEq]
      simp only [Gathered.nil_iff, exists_eq_left]
      simp [Entries.keys, withArguments, OrderedMap.insertAll, eq_comm]
  | cons entry rest ih =>
      obtain ⟨key, json⟩ := entry
      rw [Entries.keys, List.map_cons, List.forall_mem_cons]
      by_cases naming : key = "name"
      · subst naming
        rw [entriesOfJson.eq_def]
        simp only [Gathered.skip_iff (show "name" ≠ "args" by decide), if_pos, ih, true_or, true_and,
          Entries.keys]
      · by_cases arguing : key = "args"
        · subst arguing
          rw [entriesOfJson_arguments_iff]
          simp only [ih, Gathered.take_iff, or_true, true_and]
          constructor
          · rintro ⟨first, declared, only, later, gathered, rfl⟩
            exact ⟨only, _, ⟨first, later, declared, gathered, rfl⟩,
              (withArguments_append directive first later).symm⟩
          · rintro ⟨only, _, ⟨first, later, declared, gathered, rfl⟩, rfl⟩
            exact ⟨first, declared, only, later, gathered, withArguments_append directive first later⟩
        · rw [entriesOfJson.eq_def]
          simp [naming, arguing]

theorem ofJson_eq_ok_iff {json : Json} {directive : Directive} :
    ofJson path json = .ok directive ↔ json.DeclaresDirective directive := by
  constructor
  · intro read
    cases json with
    | object entries =>
        rw [ofJson] at read
        split at read
        · next name named =>
            obtain ⟨only, arguments, gathered, rfl⟩ := entriesOfJson_eq_ok_iff.mp read
            exact .object named only gathered
        · cases read
    | _ => cases read
  · rintro ⟨named, only, gathered⟩
    rw [ofJson, named]
    exact entriesOfJson_eq_ok_iff.mpr ⟨only, _, gathered, rfl⟩

theorem allOfJson_eq_ok_iff {items : List Json} {directives : List Directive} :
    allOfJson path items = .ok directives ↔ List.Forall₂ DeclaresDirective items directives := by
  induction items generalizing directives with
  | nil => simp [allOfJson, eq_comm]
  | cons item rest ih =>
      rw [allOfJson, List.forall₂_cons_left_iff]
      simp only [except_bind_eq_ok, except_pure_eq_ok, ofJson_eq_ok_iff, ih]
      constructor
      · rintro ⟨first, declared, others, later, rfl⟩
        exact ⟨first, others, declared, later, rfl⟩
      · rintro ⟨first, others, declared, later, rfl⟩
        exact ⟨first, declared, others, later, rfl⟩

theorem listOfJson_eq_ok_iff {json : Json} {directives : List Directive} :
    listOfJson path json = .ok directives ↔ json.IsDirectiveList directives := by
  cases json with
  | list items =>
      rw [listOfJson, allOfJson_eq_ok_iff]
      simp [IsDirectiveList]
  | _ => simp [listOfJson, IsDirectiveList]

end Directive

end GraphRequest
