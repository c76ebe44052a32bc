import GraphRequest.Proofs.Assembly.Success
import GraphRequest.Proofs.Grammar.Constants
import GraphRequest.Proofs.Grammar.Layout
import GraphRequest.Proofs.Grammar.Tree
import GraphRequest.Proofs.Walk.Writable

/-!
What is written for a declaration spells the tokens of its syntax tree, as long as its names are
those of the grammar and its values can be written.
-/

namespace GraphRequest

open Grammar

theorem grammatical_isName (kind : NameKind) {name : String} (named : grammatical kind name) :
    isName name := by
  cases kind with
  | plain => exact named
  | fragment | enum =>
      rw [grammatical, Bool.and_eq_true] at named
      exact named.1

namespace Grammar

namespace Spells

variable {text more : List Char} {tokens others : List Token}

theorem closed {closing : Char} (inside : Spells text tokens) (closes : closing ∈ marks) :
    Spells (text ++ [closing]) (tokens ++ [.mark closing]) :=
  inside.append (.mark closes .nil) (separate_cons (separates_mark closes))

theorem labelled {label content : String} (named : isName label)
    (value : Spells content.toList tokens) :
    Spells (label ++ ": " ++ content).toList (.name label :: .mark ':' :: tokens) := by
  rw [String.toList_append, String.toList_append, List.append_assoc]
  exact (Spells.name named).append (.mark (by decide) (.ignore (by decide) value))
    (separate_cons (by decide))

end Spells

end Grammar

variable {known : Variables}

namespace Value

mutual

theorem spells_source : (value : Value) → value.obeys grammatical → check known value = .ok () →
    Spells value.source.toList value.literal.tokens
  | reference name => by
      intro named _
      rw [source, String.toList_append]
      exact .mark (by decide) (.name named)
  | int value => fun _ _ => .int value.toInt
  | float value => by
      intro _ checked
      rw [check] at checked
      split at checked
      · next finite => exact .float floatFormat finite
      · cases checked
  | string value => fun _ _ => .string value
  | bool value => fun _ _ => by cases value <;> exact .name (by decide)
  | null => fun _ _ => .name (by decide)
  | enum name => fun named _ => .name (grammatical_isName .enum named)
  | list items => by
      intro named checked
      rw [source, String.toList_append, String.toList_append, List.append_assoc]
      exact .mark (by decide) ((row_itemSources items named checked).commas.closed (by decide))
  | object entries => by
      intro named checked
      rw [source, String.toList_append, String.toList_append, List.append_assoc]
      exact .mark (by decide) ((row_entrySources entries named checked).commas.closed (by decide))

theorem row_itemSources : (items : List Value) → allObey grammatical items →
    checkItems known items = .ok () →
    Row (itemSources items) (Literal.itemTokens (itemLiterals items))
  | [] => fun _ _ => .nil
  | item :: rest => by
      intro named checked
      rw [allObey, Bool.and_eq_true] at named
      obtain ⟨first, others⟩ := checkItems_cons checked
      exact .cons (spells_source item named.1 first) (row_itemSources rest named.2 others)

theorem row_entrySources : (entries : List (String × Value)) → entriesObey grammatical entries →
    checkEntries known entries = .ok () →
    Row (entrySources entries) (Literal.entryTokens (entryLiterals entries))
  | [] => fun _ _ => .nil
  | (key, value) :: rest => by
      intro named checked
      rw [entriesObey, Bool.and_eq_true, Bool.and_eq_true] at named
      obtain ⟨first, others⟩ := checkEntries_cons checked
      have entry := Spells.labelled named.1.1 (spells_source value named.1.2 first)
      exact Row.cons entry (row_entrySources rest named.2 others)

end

theorem spells_argumentsSource {entries : List (String × Value)}
    (named : entriesObey grammatical entries) (checked : checkEntries known entries = .ok ()) :
    Spells (argumentsSource entries).toList (Literal.argumentTokens (entryLiterals entries)) ∧
      Separate (argumentsSource entries).toList := by
  cases entries with
  | nil => exact ⟨.nil, separate_nil⟩
  | cons entry rest =>
      rw [argumentsSource, if_neg (by simp), String.toList_append, String.toList_append,
        List.append_assoc]
      exact ⟨.mark (by decide) ((row_entrySources _ named checked).commas.closed (by decide)),
        separate_cons (by decide)⟩

end Value

theorem Directive.spells_source {directive : Directive} (named : directive.obeys grammatical)
    (checked : directive.check known = .ok ()) :
    Spells directive.source.toList directive.node.tokens := by
  rw [Directive.obeys, Bool.and_eq_true] at named
  obtain ⟨arguments, separate⟩ := Value.spells_argumentsSource named.2 checked
  rw [source, String.toList_append, String.toList_append, List.append_assoc]
  exact .mark (by decide) ((Spells.name named.1).append arguments separate)

theorem Directive.row_source {directives : List Directive}
    (named : directives.all (Directive.obeys grammatical))
    (checked : checkAll known directives = .ok ()) :
    Row (directives.map source) (DirectiveNode.allTokens (directives.map node)) := by
  induction directives with
  | nil => exact .nil
  | cons directive rest ih =>
      rw [List.all_cons, Bool.and_eq_true] at named
      obtain ⟨first, others⟩ := checkAll_cons checked
      exact .cons (spells_source named.1 first) (ih named.2 others)

namespace Grammar

theorem Row.block {words : List String} {tokens : List Token} (inside : Row words tokens) :
    Row (Document.block words) (blockTokens tokens) := by
  have opens : Spells "\x7b".toList [.mark '\x7b'] := .mark (by decide) .nil
  have closes : Spells "\x7d".toList [.mark '\x7d'] := .mark (by decide) .nil
  exact Row.cons opens (inside.append (.single closes))

theorem Selection.allTokens_append (first second : List Selection) :
    allTokens (first ++ second) = allTokens first ++ allTokens second := by
  induction first with
  | nil => rfl
  | cons selection rest ih => rw [List.cons_append, allTokens, allTokens, ih, List.append_assoc]

end Grammar

namespace Assembly

theorem row_head {key : String} {attributes : FieldAttributes} (keyed : isName key)
    (named : attributes.obeys grammatical) (checked : checkHead known attributes = .ok ()) :
    Row (head key attributes).words
      ((attributes.aliasName.elim [] fun aliasName => [.name aliasName, .mark ':']) ++ .name key ::
        (Literal.argumentTokens (Value.entryLiterals attributes.argumentEntries) ++
          DirectiveNode.allTokens (attributes.directives.map Directive.node))) := by
  simp only [FieldAttributes.obeys, Bool.and_eq_true] at named
  rcases named with ⟨⟨⟨⟨aliased, arguments⟩, directives⟩, -⟩, -⟩
  obtain ⟨argumentsChecked, directivesChecked⟩ := checkHead_eq_ok checked
  have rest := Row.cons (Value.spells_argumentsSource arguments argumentsChecked).1
    (Directive.row_source directives directivesChecked)
  rw [Document.FieldHead.words, head]
  cases same : attributes.aliasName with
  | none =>
      rw [Option.elim_none, List.nil_append]
      exact Row.cons (Spells.name keyed) rest
  | some aliasName =>
      rw [same] at aliased
      have row := Row.cons (Spells.labelled aliased (.name keyed)) rest
      exact row

theorem row_leaves {scalars spreads : List String} (scalarsNamed : scalars.all (grammatical .plain))
    (spreadsNamed : spreads.all (grammatical .fragment)) :
    Row (Document.Selection.allWords (leaves scalars spreads))
      (Grammar.Selection.allTokens (leafTrees scalars spreads)) := by
  have first : Row scalars (Grammar.Selection.allTokens
      (scalars.map fun name => .field none name [] [] [])) := by
    induction scalars with
    | nil => exact .nil
    | cons name rest ih =>
        rw [List.all_cons, Bool.and_eq_true] at scalarsNamed
        exact .cons (.name scalarsNamed.1) (ih scalarsNamed.2)
  have second : Row (spreads.map ("..." ++ ·)) (Grammar.Selection.allTokens
      (spreads.map (.spread · []))) := by
    induction spreads with
    | nil => exact .nil
    | cons name rest ih =>
        rw [List.all_cons, Bool.and_eq_true] at spreadsNamed
        have spelled : Spells ("..." ++ name).toList [.spread, .name name] := by
          rw [String.toList_append]
          exact .spread (.name (grammatical_isName .fragment spreadsNamed.1))
        exact Row.cons spelled (ih spreadsNamed.2)
  rw [allWords_leaves, leafTrees, Selection.allTokens_append]
  exact first.append second

mutual

theorem row_fieldNode (key : String) : (declared : DeclaredField) →
    declared.obeys grammatical key → declared.Writable known →
    Row (fieldNode key declared).words (declared.tree key).tokens
  | .mk attributes nested => by
      intro named writable
      rw [DeclaredField.obeys, Bool.and_eq_true, Bool.and_eq_true] at named
      rcases named with ⟨⟨keyed, own⟩, inside⟩
      rw [DeclaredField.Writable] at writable
      have first := row_head keyed own writable.1
      have deeper := row_fieldNodes nested inside writable.2
      simp only [FieldAttributes.obeys, Bool.and_eq_true] at own
      have inner := (row_leaves own.1.2 own.2).append deeper
      rw [← Document.Selection.allWords_append, ← Selection.allTokens_append] at inner
      have nonempty : (leaves attributes.scalarNames attributes.spreads ++ fieldNodes nested).isEmpty =
          (leafTrees attributes.scalarNames attributes.spreads ++
            DeclaredField.trees nested).isEmpty := by
        cases attributes.scalarNames <;> cases attributes.spreads <;> cases nested <;> rfl
      have body : Row
          (if (leaves attributes.scalarNames attributes.spreads ++ fieldNodes nested).isEmpty then []
            else Document.block (Document.Selection.allWords
              (leaves attributes.scalarNames attributes.spreads ++ fieldNodes nested)))
          (if (leafTrees attributes.scalarNames attributes.spreads ++
              DeclaredField.trees nested).isEmpty then []
            else blockTokens (Selection.allTokens
              (leafTrees attributes.scalarNames attributes.spreads ++
                DeclaredField.trees nested))) := by
        rw [nonempty]
        split
        · exact .nil
        · exact inner.block
      have row := first.append body
      rw [List.append_assoc, List.cons_append] at row
      exact row

theorem row_fieldNodes : (declared : List (String × DeclaredField)) →
    DeclaredField.allObey grammatical declared → DeclaredField.AllWritable known declared →
    Row (Document.Selection.allWords (fieldNodes declared))
      (Grammar.Selection.allTokens (DeclaredField.trees declared))
  | [] => fun _ _ => .nil
  | (key, declared) :: rest => by
      intro named writable
      rw [DeclaredField.allObey, Bool.and_eq_true] at named
      rw [DeclaredField.AllWritable] at writable
      exact (row_fieldNode key declared named.1 writable.1).append
        (row_fieldNodes rest named.2 writable.2)

end

end Assembly

theorem Fragment.row_node {fragment : Fragment} (named : fragment.obeys grammatical)
    (writable : DeclaredField.AllWritable known fragment.fields.entries) :
    Row fragment.node.words fragment.tree.tokens := by
  simp only [Fragment.obeys, Bool.and_eq_true] at named
  rcases named with ⟨⟨⟨⟨name, typeCondition⟩, scalars⟩, includes⟩, fields⟩
  have inner := (Assembly.row_leaves scalars includes).append
    (Assembly.row_fieldNodes _ fields writable)
  rw [← Document.Selection.allWords_append, ← Selection.allTokens_append] at inner
  have first : Spells "fragment".toList [.name "fragment"] := .name (by decide)
  have third : Spells "on".toList [.name "on"] := .name (by decide)
  have own := Spells.name (grammatical_isName .fragment name)
  have row := Row.cons first (.cons own (.cons third (.cons (.name typeCondition) inner.block)))
  exact row

theorem DeclaredVariable.spells_header {entry : String × DeclaredVariable} {type : TypeNode}
    (named : isName entry.1) (written : type.WrittenAs entry.2.typeName) :
    Spells (Document.VariableDefinition.text (header entry)).toList (node entry type).tokens := by
  have bare := written.layout.spells
  have spelled : Spells (header entry).type.text.toList (node entry type).type.tokens := by
    rw [header, TypeReference.text, node]
    cases entry.2.nonNullable with
    | true =>
        simp only [Bool.not_true, Bool.false_eq_true, if_false, if_true, String.toList_append]
        exact bare.closed (by decide)
    | false =>
        simp only [Bool.not_false, Bool.false_eq_true, if_false, if_true]
        exact bare
  have labelled := Spells.labelled named spelled
  have text : Document.VariableDefinition.text (header entry) =
      "$" ++ (entry.1 ++ ": " ++ (header entry).type.text) := by
    rw [Document.VariableDefinition.text, header, String.append_assoc, String.append_assoc,
      String.append_assoc]
  have tokens : (node entry type).tokens =
      .mark '$' :: .name entry.1 :: .mark ':' :: (node entry type).type.tokens := by
    simp [VariableNode.tokens, node, fallbackTokens, DirectiveNode.allTokens]
  rw [text, tokens, String.toList_append]
  exact .mark (by decide) labelled

def TypesOf (entries : List (String × DeclaredVariable)) (types : List TypeNode) : Prop :=
  List.Forall₂ (fun entry type => type.WrittenAs entry.2.typeName) entries types

theorem exists_typesOf {entries : List (String × DeclaredVariable)}
    (typed : ∀ entry ∈ entries, IsTypeText entry.2.typeName) : ∃ types, TypesOf entries types := by
  induction entries with
  | nil => exact ⟨[], .nil⟩
  | cons entry rest ih =>
      obtain ⟨type, own⟩ := typed entry List.mem_cons_self
      obtain ⟨types, others⟩ := ih fun other later => typed other (List.mem_cons_of_mem _ later)
      exact ⟨type :: types, .cons own others⟩

theorem TypesOf.mem {entries : List (String × DeclaredVariable)} {types : List TypeNode}
    (typed : TypesOf entries types) {type : TypeNode} (member : type ∈ types) :
    ∃ entry ∈ entries, type.WrittenAs entry.2.typeName := by
  induction typed with
  | nil => cases member
  | @cons entry first entries types own _ ih =>
      rcases List.mem_cons.mp member with rfl | later
      · exact ⟨entry, List.mem_cons_self, own⟩
      · obtain ⟨other, present, written⟩ := ih later
        exact ⟨other, List.mem_cons_of_mem _ present, written⟩

theorem DeclaredVariable.row_headers {entries : List (String × DeclaredVariable)}
    {types : List TypeNode} (named : ∀ entry ∈ entries, isName entry.1)
    (typed : TypesOf entries types) :
    Row ((entries.map header).map Document.VariableDefinition.text)
      ((List.zipWith node entries types).flatMap VariableNode.tokens) := by
  induction typed with
  | nil => exact .nil
  | @cons entry type entries types first _ ih =>
      exact .cons (spells_header (named entry List.mem_cons_self) first)
        (ih fun other later => named other (List.mem_cons_of_mem _ later))

namespace Operation

variable {operation : Operation} {definitions : Definitions} {types : List TypeNode}

theorem isName_effectiveName (named : operation.name.all (grammatical .plain)) :
    isName operation.effectiveName := by
  rw [OperationDraft.effectiveName]
  cases given : operation.name with
  | none => cases operation.type <;> decide
  | some name =>
      rw [given] at named
      exact named

theorem spells_inputs (named : operation.inputs.keys.all (grammatical .plain))
    (typed : TypesOf operation.inputs.entries types) :
    Spells (Document.VariableDefinition.listText
        (operation.inputs.entries.map DeclaredVariable.header)).toList
      (VariableNode.listTokens
        (List.zipWith DeclaredVariable.node operation.inputs.entries types)) := by
  have inside := (DeclaredVariable.row_headers (fun entry present =>
    List.all_eq_true.mp named _ (List.mem_map_of_mem present)) typed).commas
  rw [Document.VariableDefinition.listText, VariableNode.listTokens]
  generalize operation.inputs.entries = entries at typed inside ⊢
  cases typed with
  | nil => exact .nil
  | cons first rest =>
      rw [if_neg (by simp), if_neg (by simp), String.toList_append, String.toList_append,
        List.append_assoc]
      exact .mark (by decide) (inside.closed (by decide))

theorem row_document (named : operation.obeys grammatical)
    (typed : TypesOf operation.inputs.entries types)
    (directivesChecked : Directive.checkAll known operation.directives = .ok ())
    (writable : DeclaredField.AllWritable known operation.fields.entries) :
    Row (operation.document definitions).operation.words (operation.tree types).tokens := by
  simp only [OperationDraft.obeys, Bool.and_eq_true] at named
  rcases named with ⟨⟨⟨name, inputs⟩, directives⟩, fields⟩
  have keyword : Spells operation.type.keyword.toList [.name operation.type.keyword] := by
    cases operation.type <;> exact .name (by decide)
  have own := Spells.name (isName_effectiveName name)
  have body := (Assembly.row_fieldNodes _ fields writable).block
  have row := Row.cons keyword (.cons own (.cons (spells_inputs inputs typed)
    ((Directive.row_source directives directivesChecked).append body)))
  rw [Document.Operation.words, tree, Definition.tokens, Option.elim_some, List.append_assoc,
    List.append_assoc, List.append_assoc]
  exact row

end Operation

end GraphRequest
