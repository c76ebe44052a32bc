import GraphRequest.Proofs.Grammar.Tree
import GraphRequest.Proofs.Value.Leaf

/-!
The variables that syntax trees refer to, wherever a value can stand in them. The trees of
declarations refer to the variables that the declared values refer to, in the same order.
-/

namespace GraphRequest

namespace Value

def reference? : Value → Option String
  | reference name => some name
  | _ => none

def references (value : Value) : List String :=
  value.leaves.filterMap reference?

def allReferences (values : List Value) : List String :=
  values.flatMap references

theorem mem_references {value : Value} {name : String} :
    name ∈ value.references ↔ .reference name ∈ value.leaves := by
  rw [references, List.mem_filterMap]
  constructor
  · rintro ⟨leaf, member, refers⟩
    cases leaf with
    | reference other =>
        cases refers
        exact member
    | _ => cases refers
  · intro member
    exact ⟨_, member, rfl⟩

theorem Writable.references_subset {names : List String} {value : Value}
    (writable : value.Writable names) : value.references ⊆ names :=
  fun _ member => writable _ (mem_references.mp member)

theorem allReferences_append (first second : List Value) :
    allReferences (first ++ second) = allReferences first ++ allReferences second :=
  List.flatMap_append

theorem allReferences_subset {names : List String} {values : List Value}
    (writable : ∀ value ∈ values, value.Writable names) : allReferences values ⊆ names := by
  intro name member
  obtain ⟨value, there, refers⟩ := List.mem_flatMap.mp member
  exact (writable value there).references_subset refers

end Value

namespace Grammar

namespace Literal

mutual

def references : Literal → List String
  | reference name => [name]
  | list items => itemReferences items
  | object entries => entryReferences entries
  | _ => []

def itemReferences : List Literal → List String
  | [] => []
  | item :: rest => references item ++ itemReferences rest

def entryReferences : List (String × Literal) → List String
  | [] => []
  | (_, value) :: rest => references value ++ entryReferences rest

end

end Literal

def DirectiveNode.references (directives : List DirectiveNode) : List String :=
  directives.flatMap fun directive => Literal.entryReferences directive.arguments

def VariableNode.references (node : VariableNode) : List String :=
  node.fallback.elim [] Literal.references ++ DirectiveNode.references node.directives

namespace Selection

mutual

def references : Selection → List String
  | field _ _ arguments directives selections =>
      Literal.entryReferences arguments ++ DirectiveNode.references directives ++
        allReferences selections
  | spread _ directives => DirectiveNode.references directives
  | inline _ directives selections =>
      DirectiveNode.references directives ++ allReferences selections

def allReferences : List Selection → List String
  | [] => []
  | selection :: rest => references selection ++ allReferences rest

end

theorem allReferences_append (first second : List Selection) :
    allReferences (first ++ second) = allReferences first ++ allReferences second := by
  induction first with
  | nil => rfl
  | cons selection rest ih =>
      rw [List.cons_append, allReferences, allReferences, ih, List.append_assoc]

end Selection

def Definition.references : Definition → List String
  | operation _ _ inputs directives selections =>
      inputs.flatMap VariableNode.references ++ DirectiveNode.references directives ++
        Selection.allReferences selections
  | fragment _ _ directives selections =>
      DirectiveNode.references directives ++ Selection.allReferences selections

end Grammar

open Grammar (DirectiveNode VariableNode TypeNode)

namespace Value

mutual

theorem references_literal : (value : Value) → value.literal.references = value.references
  | list items => references_itemLiterals items
  | object entries => references_entryLiterals entries
  | reference _ | int _ | float _ | string _ | bool _ | null | enum _ => rfl

theorem references_itemLiterals : (items : List Value) →
    Grammar.Literal.itemReferences (itemLiterals items) = (itemLeaves items).filterMap reference?
  | [] => rfl
  | item :: rest => by
      rw [itemLiterals, Grammar.Literal.itemReferences, itemLeaves, List.filterMap_append,
        references_literal item, references_itemLiterals rest, references]

theorem references_entryLiterals : (entries : List (String × Value)) →
    Grammar.Literal.entryReferences (entryLiterals entries) =
      (entryLeaves entries).filterMap reference?
  | [] => rfl
  | (_, value) :: rest => by
      rw [entryLiterals, Grammar.Literal.entryReferences, entryLeaves, List.filterMap_append,
        references_literal value, references_entryLiterals rest, references]

end

theorem filterMap_entryLeaves (entries : List (String × Value)) :
    (entryLeaves entries).filterMap reference? = allReferences (entries.map Prod.snd) := by
  induction entries with
  | nil => rfl
  | cons entry rest ih =>
      rw [entryLeaves, List.filterMap_append, ih, List.map_cons, allReferences, allReferences,
        List.flatMap_cons, references]

end Value

theorem Directive.references_nodes (directives : List Directive) :
    DirectiveNode.references (directives.map Directive.node) =
      Value.allReferences (allValues directives) := by
  induction directives with
  | nil => rfl
  | cons directive rest ih =>
      have own : Grammar.Literal.entryReferences directive.node.arguments =
          Value.allReferences directive.values := by
        rw [node, Value.references_entryLiterals, Value.filterMap_entryLeaves]
        rfl
      rw [List.map_cons, DirectiveNode.references, List.flatMap_cons, ← DirectiveNode.references,
        ih, own, allValues, allValues, List.flatMap_cons, Value.allReferences_append]

theorem references_leafTrees (scalars spreads : List String) :
    Grammar.Selection.allReferences (leafTrees scalars spreads) = [] := by
  have first : Grammar.Selection.allReferences
      (scalars.map fun name => .field none name [] [] []) = [] := by
    induction scalars with
    | nil => rfl
    | cons name rest ih => exact ih
  have second : Grammar.Selection.allReferences (spreads.map (.spread · [])) = [] := by
    induction spreads with
    | nil => rfl
    | cons name rest ih => exact ih
  rw [leafTrees, Grammar.Selection.allReferences_append, first, second, List.append_nil]

namespace DeclaredField

mutual

theorem references_tree (key : String) : (declared : DeclaredField) →
    (declared.tree key).references = Value.allReferences declared.values
  | mk attributes nested => by
      rw [tree, Grammar.Selection.references, Grammar.Selection.allReferences_append,
        references_leafTrees, List.nil_append, references_trees nested, values,
        FieldAttributes.values, Value.references_entryLiterals, Value.filterMap_entryLeaves,
        Directive.references_nodes, Value.allReferences_append, Value.allReferences_append]

theorem references_trees : (declared : List (String × DeclaredField)) →
    Grammar.Selection.allReferences (trees declared) = Value.allReferences (allValues declared)
  | [] => rfl
  | (key, declared) :: rest => by
      rw [trees, Grammar.Selection.allReferences, allValues, Value.allReferences_append,
        references_tree key declared, references_trees rest]

end

end DeclaredField

theorem Fragment.references_tree (fragment : Fragment) :
    fragment.tree.references =
      Value.allReferences (DeclaredField.allValues fragment.fields.entries) := by
  rw [tree, Grammar.Definition.references, Grammar.Selection.allReferences_append,
    references_leafTrees, List.nil_append, DeclaredField.references_trees]
  rfl

theorem Operation.references_tree (operation : Operation) (types : List TypeNode) :
    (operation.tree types).references =
      Value.allReferences (Directive.allValues operation.directives ++
        DeclaredField.allValues operation.fields.entries) := by
  have header : (List.zipWith DeclaredVariable.node operation.inputs.entries types).flatMap
      VariableNode.references = [] := by
    rw [List.flatMap_eq_nil_iff, ← List.map_uncurry_zip_eq_zipWith, List.forall_mem_map]
    exact fun _ _ => rfl
  rw [tree, Grammar.Definition.references, header, List.nil_append, Directive.references_nodes,
    DeclaredField.references_trees, Value.allReferences_append]

end GraphRequest
