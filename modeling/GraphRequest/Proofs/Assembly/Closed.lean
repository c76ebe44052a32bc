import GraphRequest.Proofs.Assembly.Introduction
import GraphRequest.Proofs.Grammar.Faithful
import GraphRequest.Proofs.Grammar.Uses

/-!
Requests are closed over their variables: the payload, the header of the operation and the references
in its text are about the same variables.
-/

namespace GraphRequest

open Grammar (TypeNode VariableNode IsTypeText)

/-- The tree declares the variable of the entry and nothing else. Its type is the declared one, which
is marked only if it does not admit null. -/
structure DeclaredVariable.HeadedBy (entry : String × DeclaredVariable) (node : VariableNode) :
    Prop where
  name : node.name = entry.1
  type : ∃ type : TypeNode, type.WrittenAs entry.2.typeName ∧ .mark '!' ∉ type.tokens ∧
    node.type = if entry.2.nonNullable then .nonNull type else type
  plain : node.fallback = none ∧ node.directives = []

/-- The text ends with the operation, and the trees are all that its header declares. Behind the name
and the header there are no parentheses, so there are none if nothing is declared. -/
def Operation.HeaderReads (operation : Operation) (text : String) (nodes : List VariableNode) : Prop :=
  ∃ fragments directives selections rest,
    Grammar.read? text = some (fragments ++
      [.operation operation.type (some operation.effectiveName) nodes directives selections]) ∧
    Grammar.lex text.toList = some (fragments.flatMap Grammar.Definition.tokens ++
      .name operation.type.keyword :: .name operation.effectiveName ::
        (VariableNode.listTokens nodes ++ rest)) ∧
    rest.head? ≠ some (.mark '(')

/-- The variables of a request are those that the operation declares, in the payload as in the
header, and whatever is written refers to no others. -/
structure Closed (declared : List Fragment) (operation : Operation) (result : AssembledRequest) :
    Prop where
  payload : result.request.payload.entries =
    operation.inputs.entries.map fun entry => (entry.1, entry.2.value)
  independent : ∀ entry ∈ result.request.payload.entries, entry.2.references = []
  header : ∃ nodes, List.Forall₂ DeclaredVariable.HeadedBy operation.inputs.entries nodes ∧
    operation.HeaderReads result.request.query nodes
  operationUses : Value.allReferences (Directive.allValues operation.directives ++
    DeclaredField.allValues operation.fields.entries) ⊆ result.request.payload.keys
  fragmentUses : ∀ name ∈ result.assembly.definitions.keys, ∃ fragment,
    Fragment.named? declared name = some fragment ∧
      Value.allReferences (DeclaredField.allValues fragment.fields.entries) ⊆
        result.request.payload.keys
  uses : ∃ definitions, Grammar.read? result.request.query = some definitions ∧
    ∀ definition ∈ definitions, definition.references ⊆ result.request.payload.keys

theorem DeclaredVariable.Declarable.references_eq_nil {declared : DeclaredVariable}
    (declarable : declared.Declarable) : declared.value.references = [] := by
  rw [List.eq_nil_iff_forall_not_mem]
  intro name member
  have depends := (Value.hasReference_iff _).mpr ⟨name, Value.mem_references.mp member⟩
  rw [declarable.independent] at depends
  cases depends

theorem TypesOf.headedBy {entries : List (String × DeclaredVariable)} {types : List TypeNode}
    (typed : TypesOf entries types) (unmarked : ∀ entry ∈ entries, '!' ∉ entry.2.typeName.toList) :
    List.Forall₂ DeclaredVariable.HeadedBy entries
      (List.zipWith DeclaredVariable.node entries types) := by
  induction typed with
  | nil => exact .nil
  | @cons entry type _ _ written _ ih =>
      rw [List.forall_mem_cons] at unmarked
      have bare : .mark '!' ∉ type.tokens := fun marked =>
        unmarked.1 (written.layout.mem_of_mark marked)
      exact .cons ⟨rfl, ⟨type, written, bare, rfl⟩, rfl, rfl⟩ (ih unmarked.2)

theorem head?_directiveTokens (directives : List Grammar.DirectiveNode)
    (inside : List Grammar.Token) :
    (Grammar.DirectiveNode.allTokens directives ++ Grammar.blockTokens inside).head? ≠
      some (.mark '(') := by
  cases directives with
  | nil => simp [Grammar.DirectiveNode.allTokens, Grammar.blockTokens]
  | cons first rest => simp [Grammar.DirectiveNode.allTokens, Grammar.DirectiveNode.tokens]

theorem Lexed.headerReads {declared emitted : List Fragment} {operation : Operation}
    {result : AssembledRequest} {types : List TypeNode}
    (lexed : Lexed declared operation result emitted types) :
    operation.HeaderReads result.request.query
      (List.zipWith DeclaredVariable.node operation.inputs.entries types) := by
  have behind := head?_directiveTokens (operation.directives.map Directive.node)
    (Grammar.Selection.allTokens (DeclaredField.trees operation.fields.entries))
  refine ⟨_, _, _, _, lexed.read, ?_, behind⟩
  rw [lexed.tokens, List.flatMap_append, List.flatMap_singleton, Operation.tree,
    Grammar.Definition.tokens, Option.elim_some, List.append_assoc, List.append_assoc]
  rfl

theorem assembleOne_closed {declared : List Fragment} {operation : Operation}
    {result : AssembledRequest} (assembled : assembleOne declared operation = .ok result)
    (fragmentsNamed : ∀ fragment ∈ declared, fragment.obeys grammatical)
    (named : operation.obeys grammatical)
    (typed : ∀ entry ∈ operation.inputs.entries, IsTypeText entry.2.typeName) :
    Closed declared operation result := by
  obtain ⟨progress, assembles⟩ := assembleOne_eq_ok assembled
  obtain ⟨declarable, known⟩ := assembleOne_introduced assembled
  obtain ⟨emitted, types, lexed⟩ := assembleOne_lexed assembled fragmentsNamed named typed
  have payload : result.request.payload.entries =
      operation.inputs.entries.map fun entry => (entry.1, entry.2.value) := by
    rw [assembleOne_payload assembled]
    rfl
  have keys : result.request.payload.keys = result.assembly.known.keys := by
    rw [known, OperationDraft.introduced_keys, OrderedMap.keys, payload, Entries.keys, List.map_map]
    rfl
  have operationUses : Value.allReferences (Directive.allValues operation.directives ++
      DeclaredField.allValues operation.fields.entries) ⊆ result.request.payload.keys := by
    have directives := (Directive.checkAll_eq_ok _ _).mp assembles.directives
    have fields := (DeclaredField.allWritable_iff _ _).mp
      (DeclaredField.allWritable_of_faultless _ _ assembles.run.faultless)
    rw [keys]
    exact Value.allReferences_subset (List.forall_mem_append.mpr ⟨directives, fields⟩)
  have fragmentUses : ∀ fragment ∈ emitted,
      Value.allReferences (DeclaredField.allValues fragment.fields.entries) ⊆
        result.request.payload.keys := by
    intro fragment member
    rw [keys]
    exact Value.allReferences_subset
      ((DeclaredField.allWritable_iff _ _).mp (lexed.writable fragment member))
  refine ⟨payload, ?_, ⟨_, lexed.variableTypes.headedBy assembles.unmarked, lexed.headerReads⟩,
    operationUses, ?_, ⟨_, lexed.read, ?_⟩⟩
  · rw [payload, List.forall_mem_map]
    exact fun entry member => (declarable entry member).references_eq_nil
  · rw [lexed.emission, List.forall_mem_map]
    exact fun fragment member =>
      ⟨fragment, lexed.registered fragment member, fragmentUses fragment member⟩
  · rw [List.forall_mem_append, List.forall_mem_map, List.forall_mem_singleton,
      operation.references_tree]
    refine ⟨fun fragment member => ?_, operationUses⟩
    rw [fragment.references_tree]
    exact fragmentUses fragment member

/-- Where all names are those of the grammar, every request is closed over the variables of its
operation. -/
theorem assemble_closed {parts : List Part} {results : List AssembledRequest}
    (named : WellNamed grammatical IsTypeText parts) (assembled : assemble parts = .ok results) :
    List.Forall₂ (fun operation result => Closed (Part.fragments parts) operation result)
      (Part.operations parts) results := by
  have each := (List.forall₂_and_left _ _).mpr ⟨fun _ member => member, assemble_eq_ok assembled⟩
  exact each.imp fun operation result ⟨member, one⟩ =>
    assembleOne_closed one named.fragments (named.operations operation member)
      (named.types operation member)

def filteredParts : List Part :=
  [.fragment {
      name := "Friend"
      typeCondition := "User"
      fields := ⟨[("pets", .mk {
          arguments := some ⟨[("filter", .object [("kinds", .list [.reference "kind", .null])])],
            by decide⟩
          directives := [⟨"include", ⟨[("if", .reference "pets")], by decide⟩⟩]
          scalars := some ["name"]
          flags.list := true } [])], by decide⟩ },
    .operation {
      type := .query
      name := some "Friends"
      inputs := ⟨[("kind", ⟨.enum "CAT", "Kind", false⟩), ("pets", ⟨.bool true, "Boolean", true⟩)],
        by decide⟩
      directives := [⟨"cached", ⟨[("unless", .reference "pets")], by decide⟩⟩]
      fields := ⟨[("viewer", .mk { spreads := ["Friend"] } [])], by decide⟩
      nonempty := by decide
      single := by decide },
    .operation {
      type := .mutation
      fields := ⟨[("touch", .mk { scalars := some ["id"] } [])], by decide⟩
      nonempty := by decide
      single := by decide }]

theorem filteredParts_closed : WellNamed grammatical IsTypeText filteredParts ∧
    ∃ results, assemble filteredParts = .ok results ∧
      results.map (fun result => result.request.payload.keys) = [["kind", "pets"], []] ∧
      List.Forall₂ (fun operation result => Closed (Part.fragments filteredParts) operation result)
        (Part.operations filteredParts) results := by
  have named : WellNamed grammatical IsTypeText filteredParts := by
    refine ⟨by decide +kernel, by decide +kernel, ?_⟩
    intro operation member
    rcases List.mem_cons.mp member with rfl | member
    · rw [List.forall_mem_cons, List.forall_mem_singleton]
      exact ⟨⟨.named "Kind", by decide, by decide +kernel, by decide⟩,
        .named "Boolean", by decide, by decide +kernel, by decide⟩
    · rw [List.mem_singleton.mp member]
      exact List.forall_mem_nil _
  have keys : (assemble filteredParts).toOption.map
      (List.map fun result => result.request.payload.keys) = some [["kind", "pets"], []] := by
    decide +kernel
  cases assembled : assemble filteredParts with
  | error cause =>
      rw [assembled] at keys
      cases keys
  | ok results =>
      rw [assembled] at keys
      exact ⟨named, results, rfl, Option.some.inj keys, assemble_closed named assembled⟩

end GraphRequest
