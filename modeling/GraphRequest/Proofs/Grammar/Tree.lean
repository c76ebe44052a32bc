import GraphRequest.Proofs.Grammar.Syntax
import GraphRequest.Proofs.Name.Rule

/-!
The syntax trees that declarations ask for. Those of declarations with names of the grammar are
proper.
-/

namespace GraphRequest

open Grammar (Literal TypeNode DirectiveNode VariableNode isName)

/-- The rule of the grammar: all names are Names, and some words mean something else where a fragment
or an enum value is named. -/
def grammatical : NameRule
  | .plain, name => isName name
  | .fragment, name => isName name && name ≠ "on"
  | .enum, name => isName name && name ∉ ["true", "false", "null"]

namespace Value

mutual

def literal : Value → Literal
  | reference name => .reference name
  | int value => .int value.toInt
  | float value => .float value
  | string value => .string value
  | bool value => .bool value
  | null => .null
  | enum name => .enum name
  | list items => .list (itemLiterals items)
  | object entries => .object (entryLiterals entries)

def itemLiterals : List Value → List Literal
  | [] => []
  | item :: rest => literal item :: itemLiterals rest

def entryLiterals : List (String × Value) → List (String × Literal)
  | [] => []
  | (key, value) :: rest => (key, literal value) :: entryLiterals rest

end

mutual

theorem literal_isProper : (value : Value) → value.obeys grammatical → value.literal.isProper false
  | reference name => fun _ => rfl
  | enum name => by
      intro named
      rw [obeys, grammatical, Bool.and_eq_true] at named
      exact named.2
  | list items => fun named => itemLiterals_proper items named
  | object entries => fun named => entryLiterals_proper entries named
  | int _ | float _ | string _ | bool _ | null => fun _ => rfl

theorem itemLiterals_proper : (items : List Value) → allObey grammatical items →
    Literal.allProper false (itemLiterals items)
  | [] => fun _ => rfl
  | item :: rest => by
      intro named
      rw [allObey, Bool.and_eq_true] at named
      rw [itemLiterals, Literal.allProper, literal_isProper item named.1,
        itemLiterals_proper rest named.2]
      rfl

theorem entryLiterals_proper : (entries : List (String × Value)) →
    entriesObey grammatical entries → Literal.entriesProper false (entryLiterals entries)
  | [] => fun _ => rfl
  | (key, value) :: rest => by
      intro named
      rw [entriesObey, Bool.and_eq_true, Bool.and_eq_true] at named
      rw [entryLiterals, Literal.entriesProper, literal_isProper value named.1.2,
        entryLiterals_proper rest named.2]
      rfl

end

end Value

def Directive.node (directive : Directive) : DirectiveNode where
  name := directive.name
  arguments := Value.entryLiterals directive.arguments.entries

theorem Directive.nodes_proper {directives : List Directive}
    (named : directives.all (Directive.obeys grammatical)) :
    DirectiveNode.allProper false (directives.map Directive.node) := by
  rw [DirectiveNode.allProper, List.all_map]
  rw [List.all_eq_true] at named ⊢
  intro directive member
  have own := named directive member
  rw [Directive.obeys, Bool.and_eq_true] at own
  exact Value.entryLiterals_proper _ own.2

def leafTrees (scalars spreads : List String) : List Grammar.Selection :=
  scalars.map (fun name => .field none name [] [] []) ++ spreads.map (.spread · [])

namespace DeclaredField

mutual

def tree (key : String) : DeclaredField → Grammar.Selection
  | mk attributes nested =>
      .field attributes.aliasName key (Value.entryLiterals attributes.argumentEntries)
        (attributes.directives.map Directive.node)
        (leafTrees attributes.scalarNames attributes.spreads ++ trees nested)

def trees : List (String × DeclaredField) → List Grammar.Selection
  | [] => []
  | (key, declared) :: rest => tree key declared :: trees rest

end

end DeclaredField

def Fragment.tree (fragment : Fragment) : Grammar.Definition :=
  .fragment fragment.name fragment.typeCondition []
    (leafTrees fragment.scalars fragment.includes ++ DeclaredField.trees fragment.fields.entries)

def DeclaredVariable.node (entry : String × DeclaredVariable) (type : TypeNode) : VariableNode where
  name := entry.1
  type := if entry.2.nonNullable then .nonNull type else type
  fallback := none
  directives := []

def Operation.tree (operation : Operation) (types : List TypeNode) : Grammar.Definition :=
  .operation operation.type (some operation.effectiveName)
    (List.zipWith DeclaredVariable.node operation.inputs.entries types)
    (operation.directives.map Directive.node) (DeclaredField.trees operation.fields.entries)

section Proper

open Grammar.Selection (allProper)

theorem allProper_append (first second : List Grammar.Selection) :
    allProper (first ++ second) = (allProper first && allProper second) := by
  induction first with
  | nil => rfl
  | cons selection rest ih => rw [List.cons_append, allProper, allProper, ih, Bool.and_assoc]

theorem leafTrees_proper {scalars spreads : List String}
    (named : spreads.all (grammatical .fragment)) : allProper (leafTrees scalars spreads) := by
  have first : allProper (scalars.map fun name => .field none name [] [] []) := by
    induction scalars with
    | nil => rfl
    | cons name rest ih => exact ih
  have second : allProper (spreads.map (.spread · [])) := by
    induction spreads with
    | nil => rfl
    | cons name rest ih =>
        rw [List.all_cons, grammatical, Bool.and_eq_true, Bool.and_eq_true] at named
        rw [List.map_cons, allProper, ih named.2, Grammar.Selection.isProper, named.1.2]
        rfl
  rw [leafTrees, allProper_append, first, second]
  rfl

namespace DeclaredField

mutual

theorem tree_isProper (key : String) : (declared : DeclaredField) →
    declared.obeys grammatical key → (declared.tree key).isProper
  | mk attributes nested => by
      intro named
      rw [obeys, FieldAttributes.obeys] at named
      simp only [Bool.and_eq_true] at named
      rcases named with ⟨⟨-, ⟨⟨⟨⟨-, arguments⟩, directives⟩, -⟩, spreads⟩⟩, inside⟩
      rw [tree, Grammar.Selection.isProper, Value.entryLiterals_proper _ arguments,
        Directive.nodes_proper directives, allProper_append, leafTrees_proper spreads,
        trees_proper nested inside]
      rfl

theorem trees_proper : (declared : List (String × DeclaredField)) →
    allObey grammatical declared → allProper (trees declared)
  | [] => fun _ => rfl
  | (key, declared) :: rest => by
      intro named
      rw [allObey, Bool.and_eq_true] at named
      rw [trees, allProper, tree_isProper key declared named.1, trees_proper rest named.2]
      rfl

end

theorem trees_isEmpty (declared : List (String × DeclaredField)) :
    (trees declared).isEmpty = declared.isEmpty := by
  cases declared <;> rfl

theorem selections_isEmpty (scalars spreads : List String) (declared : List (String × DeclaredField)) :
    (leafTrees scalars spreads ++ trees declared).isEmpty =
      (scalars.isEmpty && spreads.isEmpty && declared.isEmpty) := by
  cases scalars <;> cases spreads <;> cases declared <;> rfl

end DeclaredField

theorem Fragment.tree_isProper {fragment : Fragment} (named : fragment.obeys grammatical)
    (present : fragment.isEmpty = false) : fragment.tree.isProper := by
  rw [Fragment.obeys] at named
  simp only [Bool.and_eq_true] at named
  rcases named with ⟨⟨⟨⟨name, -⟩, -⟩, includes⟩, fields⟩
  rw [grammatical, Bool.and_eq_true] at name
  have some : (leafTrees fragment.scalars fragment.includes ++
      DeclaredField.trees fragment.fields.entries).isEmpty = false := by
    rw [Fragment.isEmpty, OrderedMap.isEmpty] at present
    rw [DeclaredField.selections_isEmpty, Bool.and_right_comm]
    exact present
  rw [tree, Grammar.Definition.isProper, name.2, some, allProper_append, leafTrees_proper includes,
    DeclaredField.trees_proper _ fields]
  rfl

theorem DeclaredVariable.node_isProper (entry : String × DeclaredVariable) {type : TypeNode}
    (proper : type.isProper) (unmarked : .mark '!' ∉ type.tokens) : (node entry type).isProper := by
  have marked : (TypeNode.nonNull type).isProper := by
    cases type with
    | named name => exact proper
    | list inner => exact proper
    | nonNull inner => exact absurd (List.mem_append_right _ List.mem_cons_self) unmarked
  rw [VariableNode.isProper, node]
  cases entry.2.nonNullable with
  | true => simpa [DirectiveNode.allProper] using marked
  | false => simpa [DirectiveNode.allProper] using proper

theorem Operation.tree_isProper {operation : Operation} (named : operation.obeys grammatical)
    {types : List TypeNode} (proper : ∀ type ∈ types, type.isProper ∧ .mark '!' ∉ type.tokens) :
    (operation.tree types).isProper := by
  rw [OperationDraft.obeys] at named
  simp only [Bool.and_eq_true] at named
  rcases named with ⟨⟨-, directives⟩, fields⟩
  have inputs : (List.zipWith DeclaredVariable.node operation.inputs.entries types).all
      VariableNode.isProper := by
    rw [← List.map_uncurry_zip_eq_zipWith, List.all_map, List.all_eq_true]
    intro pair member
    obtain ⟨own, unmarked⟩ := proper pair.2 (List.of_mem_zip member).2
    exact DeclaredVariable.node_isProper pair.1 own unmarked
  have some : operation.fields.entries.isEmpty = false := by
    rw [List.isEmpty_eq_false_iff, ← List.length_pos_iff]
    exact operation.nonempty
  rw [tree, Grammar.Definition.isProper, inputs, Directive.nodes_proper directives,
    DeclaredField.trees_isEmpty, some, DeclaredField.trees_proper _ fields]
  rfl

end Proper

end GraphRequest
