import GraphRequest.Proofs.Assembly.Success
import GraphRequest.Proofs.Name.Rule
import GraphRequest.Proofs.Number.Plain

/-!
Where names are neither empty nor hold white space or quotes, the text of a document is solid.
-/

namespace GraphRequest

open Text

def NameRule.IsPlain (rule : NameRule) : Prop :=
  ∀ kind name, rule kind name → isPlain name

variable {rule : NameRule}

namespace Value

theorem solid_bracketed {opening closing : Char} {texts : List String}
    (opens : isPlainChar opening) (closes : isPlainChar closing)
    (solid : ∀ text ∈ texts, Solid text.toList) :
    Solid (opening :: ((", ".intercalate texts).toList ++ [closing])) where
  toKept := .cons opens ((Kept.commas solid).append (.cons closes .nil))
  front := ⟨opening, rfl, (isPlainChar_iff.mp opens).1⟩

mutual

theorem solid_source (plain : rule.IsPlain) : (value : Value) → value.obeys rule →
    Solid value.source.toList
  | reference name => by
      intro named
      rw [source, String.toList_append]
      refine ⟨.append (.of_plain (by decide)) (Solid.of_plain (plain _ _ named)).toKept, ?_⟩
      exact ⟨'$', rfl, by decide⟩
  | int value => fun _ => solid_intRepr _
  | float value => fun _ => FloatFormat.solid_text _ _
  | string value => fun _ => .quote value
  | bool value => fun _ => by cases value <;> exact .of_plain (by decide)
  | null => fun _ => .of_plain (by decide)
  | enum name => fun named => .of_plain (plain _ _ named)
  | list items => by
      intro named
      rw [source, String.toList_append, String.toList_append, List.append_assoc]
      exact solid_bracketed (by decide) (by decide) (solid_itemSources plain items named)
  | object entries => by
      intro named
      rw [source, String.toList_append, String.toList_append, List.append_assoc]
      exact solid_bracketed (by decide) (by decide) (solid_entrySources plain entries named)

theorem solid_itemSources (plain : rule.IsPlain) : (items : List Value) → allObey rule items →
    ∀ text ∈ itemSources items, Solid text.toList
  | [] => by
      intro _ text member
      cases member
  | item :: rest => by
      intro named text member
      rw [allObey, Bool.and_eq_true] at named
      rcases List.mem_cons.mp member with rfl | later
      · exact solid_source plain item named.1
      · exact solid_itemSources plain rest named.2 text later

theorem solid_entrySources (plain : rule.IsPlain) : (entries : List (String × Value)) →
    entriesObey rule entries → ∀ text ∈ entrySources entries, Solid text.toList
  | [] => by
      intro _ text member
      cases member
  | (key, value) :: rest => by
      intro named text member
      rw [entriesObey, Bool.and_eq_true, Bool.and_eq_true] at named
      rcases List.mem_cons.mp member with rfl | later
      · have colon : Kept [':'] := .of_plain (by decide)
        rw [String.toList_append, String.toList_append, List.append_assoc]
        exact (Solid.of_plain (plain _ _ named.1.1)).append
          (colon.append (solid_source plain value named.1.2).space)
      · exact solid_entrySources plain rest named.2 text later

end

theorem solid_argumentsSource (plain : rule.IsPlain) {entries : List (String × Value)}
    (named : entriesObey rule entries) :
    argumentsSource entries = "" ∨ Solid (argumentsSource entries).toList := by
  rw [argumentsSource]
  split
  · exact .inl rfl
  · right
    rw [String.toList_append, String.toList_append, List.append_assoc]
    exact solid_bracketed (by decide) (by decide) (solid_entrySources plain entries named)

end Value

theorem Directive.solid_source (plain : rule.IsPlain) {directive : Directive}
    (named : directive.obeys rule) : Solid directive.source.toList := by
  rw [Directive.obeys, Bool.and_eq_true] at named
  have arguments : Kept (Value.argumentsSource directive.arguments.entries).toList := by
    rcases Value.solid_argumentsSource plain named.2 with none | solid
    · rw [none]
      exact .nil
    · exact solid.toKept
  rw [source, String.toList_append, String.toList_append, List.append_assoc]
  refine ⟨.append (.of_plain (by decide)) ?_, '@', rfl, by decide⟩
  exact ((Solid.of_plain (plain _ _ named.1)).append arguments).toKept

def SolidWords (words : List String) : Prop :=
  ∀ word ∈ words, word ≠ "" → Solid word.toList

namespace SolidWords

variable {first second words : List String}

theorem append (left : SolidWords first) (right : SolidWords second) :
    SolidWords (first ++ second) := by
  intro word member
  rcases List.mem_append.mp member with early | late
  · exact left word early
  · exact right word late

theorem of_plain (plain : ∀ word ∈ words, isPlain word) : SolidWords words :=
  fun word member _ => .of_plain (plain word member)

theorem block (inside : SolidWords words) : SolidWords (Document.block words) := by
  have opens : SolidWords ["\x7b"] := .of_plain (by decide)
  exact opens.append (inside.append (.of_plain (by decide)))

theorem directives (plain : rule.IsPlain) {directives : List Directive}
    (named : directives.all (Directive.obeys rule)) :
    SolidWords (directives.map Directive.source) := by
  intro word member _
  rcases List.mem_map.mp member with ⟨directive, present, rfl⟩
  exact Directive.solid_source plain (List.all_eq_true.mp named directive present)

end SolidWords

namespace Assembly

theorem solidWords_head (plain : rule.IsPlain) {key : String} {attributes : FieldAttributes}
    (keyed : rule .plain key) (named : attributes.obeys rule) :
    SolidWords (head key attributes).words := by
  simp only [FieldAttributes.obeys, Bool.and_eq_true] at named
  rcases named with ⟨⟨⟨⟨aliased, arguments⟩, directives⟩, -⟩, -⟩
  have name := Solid.of_plain (plain _ _ keyed)
  intro word member present
  rw [Document.FieldHead.words, head] at member
  rcases List.mem_cons.mp member with rfl | member
  · cases same : attributes.aliasName with
    | none => exact name
    | some aliasName =>
        rw [same] at aliased
        have colon : Kept [':'] := .of_plain (by decide)
        rw [String.toList_append, String.toList_append, List.append_assoc]
        exact (Solid.of_plain (plain _ _ aliased)).append (colon.append name.space)
  · rcases List.mem_cons.mp member with rfl | member
    · exact (Value.solid_argumentsSource plain arguments).resolve_left present
    · exact SolidWords.directives plain directives word member present

theorem solidWords_leaves (plain : rule.IsPlain) {scalars spreads : List String}
    (scalarsNamed : scalars.all (rule .plain)) (spreadsNamed : spreads.all (rule .fragment)) :
    SolidWords (Document.Selection.allWords (leaves scalars spreads)) := by
  rw [allWords_leaves]
  refine .append (.of_plain fun word member => plain _ _ (List.all_eq_true.mp scalarsNamed word member)) ?_
  intro word member _
  rcases List.mem_map.mp member with ⟨name, present, rfl⟩
  have solid := Solid.of_plain (plain _ _ (List.all_eq_true.mp spreadsNamed name present))
  rw [String.toList_append]
  exact ⟨.append (.of_plain (by decide)) solid.toKept, '.', rfl, by decide⟩

mutual

theorem solidWords_fieldNode (plain : rule.IsPlain) (key : String) : (declared : DeclaredField) →
    declared.obeys rule key → SolidWords (fieldNode key declared).words
  | .mk attributes nested => by
      intro named
      rw [DeclaredField.obeys, Bool.and_eq_true, Bool.and_eq_true] at named
      rcases named with ⟨⟨keyed, own⟩, inside⟩
      have deeper := solidWords_fieldNodes plain nested inside
      have first := solidWords_head plain keyed own
      simp only [FieldAttributes.obeys, Bool.and_eq_true] at own
      have leaves := solidWords_leaves plain own.1.2 own.2
      rw [fieldNode, Document.Selection.words]
      apply first.append
      split
      · intro word member
        cases member
      · rw [Document.Selection.allWords_append]
        exact (leaves.append deeper).block

theorem solidWords_fieldNodes (plain : rule.IsPlain) : (declared : List (String × DeclaredField)) →
    DeclaredField.allObey rule declared →
    SolidWords (Document.Selection.allWords (fieldNodes declared))
  | [] => by
      intro _ word member
      cases member
  | (key, declared) :: rest => by
      intro named
      rw [DeclaredField.allObey, Bool.and_eq_true] at named
      rw [fieldNodes, Document.Selection.allWords]
      exact (solidWords_fieldNode plain key declared named.1).append
        (solidWords_fieldNodes plain rest named.2)

end

end Assembly

theorem DeclaredVariable.solid_header (plain : rule.IsPlain) {entry : String × DeclaredVariable}
    (named : rule .plain entry.1) (typed : Solid entry.2.typeName.toList) :
    Solid (Document.VariableDefinition.text (header entry)).toList := by
  have type : Solid (header entry).type.text.toList := by
    rw [TypeReference.text]
    split
    · exact typed
    · rw [String.toList_append]
      exact typed.append (.of_plain (by decide))
  have name : Kept entry.1.toList := (Solid.of_plain (plain _ _ named)).toKept
  have colon : Kept [':'] := .of_plain (by decide)
  rw [Document.VariableDefinition.text, String.toList_append, String.toList_append,
    String.toList_append, List.append_assoc, List.append_assoc]
  refine ⟨.append (.of_plain (by decide)) (name.append (colon.append type.space)), ?_⟩
  exact ⟨'$', rfl, by decide⟩

theorem Fragment.solidWords_node (plain : rule.IsPlain) {fragment : Fragment}
    (named : fragment.obeys rule) : SolidWords fragment.node.words := by
  simp only [Fragment.obeys, Bool.and_eq_true] at named
  rcases named with ⟨⟨⟨⟨name, typeCondition⟩, scalars⟩, includes⟩, fields⟩
  rw [Document.Fragment.words, Fragment.node, Document.Selection.allWords_append]
  refine .append (.of_plain ?_) (SolidWords.block ((Assembly.solidWords_leaves plain scalars
    includes).append (Assembly.solidWords_fieldNodes plain _ fields)))
  simp only [List.forall_mem_cons]
  exact ⟨by decide, plain _ _ name, by decide, plain _ _ typeCondition, by simp⟩

namespace Operation

variable {operation : Operation} {definitions : Definitions}

theorem isPlain_effectiveName (plain : rule.IsPlain) (named : operation.name.all (rule .plain)) :
    isPlain operation.effectiveName := by
  rw [OperationDraft.effectiveName]
  cases given : operation.name with
  | none => cases operation.type <;> decide
  | some name =>
      rw [given] at named
      exact plain _ _ named

theorem solid_inputs (plain : rule.IsPlain) (named : operation.inputs.keys.all (rule .plain))
    (typed : ∀ entry ∈ operation.inputs.entries, Solid entry.2.typeName.toList) :
    Document.VariableDefinition.listText (operation.inputs.entries.map DeclaredVariable.header) = "" ∨
      Solid (Document.VariableDefinition.listText
        (operation.inputs.entries.map DeclaredVariable.header)).toList := by
  rw [Document.VariableDefinition.listText]
  split
  · exact .inl rfl
  · right
    rw [String.toList_append, String.toList_append, List.append_assoc]
    apply Value.solid_bracketed (by decide) (by decide)
    intro text member
    rcases List.mem_map.mp member with ⟨definition, declared, rfl⟩
    rcases List.mem_map.mp declared with ⟨entry, present, rfl⟩
    have key : rule .plain entry.1 := List.all_eq_true.mp named _ (List.mem_map_of_mem present)
    exact DeclaredVariable.solid_header plain key (typed entry present)

theorem solidWords (plain : rule.IsPlain) (named : operation.obeys rule)
    (typed : ∀ entry ∈ operation.inputs.entries, Solid entry.2.typeName.toList) :
    SolidWords (operation.document definitions).operation.words := by
  simp only [OperationDraft.obeys, Bool.and_eq_true] at named
  rcases named with ⟨⟨⟨name, inputs⟩, directives⟩, fields⟩
  rw [Document.Operation.words]
  refine .append (.append ?_ (.directives plain directives))
    (SolidWords.block (Assembly.solidWords_fieldNodes plain _ fields))
  simp only [SolidWords, List.forall_mem_cons]
  refine ⟨fun _ => ?_, fun _ => ?_, fun present => ?_, by simp⟩
  · refine .of_plain ?_
    cases (operation.document definitions).operation.type <;> decide
  · exact .of_plain (isPlain_effectiveName plain name)
  · exact (solid_inputs plain inputs typed).resolve_left present

theorem solid_document (plain : rule.IsPlain) {emitted : List Fragment}
    (nodes : (operation.document definitions).fragments = emitted.map Fragment.node)
    (fragments : ∀ fragment ∈ emitted, fragment.obeys rule) (named : operation.obeys rule)
    (typed : ∀ entry ∈ operation.inputs.entries, Solid entry.2.typeName.toList) :
    Solid (operation.document definitions).text.toList := by
  apply solid_joinWords
  · apply SolidWords.append _ (solidWords plain named typed)
    rw [nodes, List.map_map]
    intro word member
    rcases List.mem_flatten.mp member with ⟨words, row, inside⟩
    rcases List.mem_map.mp row with ⟨fragment, present, rfl⟩
    exact Fragment.solidWords_node plain (fragments fragment present) word inside
  · refine ⟨operation.type.keyword, ?_, by cases operation.type <;> decide⟩
    exact List.mem_append_right _ List.mem_cons_self

end Operation

end GraphRequest
