import GraphRequest.Proofs.Fragment.Needed
import GraphRequest.Proofs.Grammar.RoundTrip
import GraphRequest.Proofs.Grammar.Written

/-!
The text of a request is read as what was declared: the fragments in the order in which their
definitions were completed, and then the operation.
-/

namespace GraphRequest

open Grammar (TypeNode IsTypeText Row)

/-- The text of a result is read as the trees of the fragments that were emitted, in their order, and
of the operation. -/
structure Faithful (declared : List Fragment) (operation : Operation) (result : AssembledRequest)
    (emitted : List Fragment) (types : List TypeNode) : Prop where
  fragments : ∀ fragment ∈ emitted, fragment ∈ declared
  emission : result.assembly.definitions.keys = emitted.map Fragment.name
  variableTypes : TypesOf operation.inputs.entries types
  name : result.request.operationName = operation.effectiveName
  tree : Grammar.read? result.request.query =
    some (emitted.map Fragment.tree ++ [operation.tree types])

theorem row_nodes {known : Variables} {emitted : List Fragment}
    (named : ∀ fragment ∈ emitted, fragment.obeys grammatical)
    (writable : ∀ fragment ∈ emitted, DeclaredField.AllWritable known fragment.fields.entries) :
    Row ((emitted.map Fragment.node).map Document.Fragment.words).flatten
      ((emitted.map Fragment.tree).flatMap Grammar.Definition.tokens) := by
  induction emitted with
  | nil => exact .nil
  | cons fragment rest ih =>
      exact (Fragment.row_node (named fragment List.mem_cons_self)
        (writable fragment List.mem_cons_self)).append
          (ih (fun other later => named other (List.mem_cons_of_mem _ later))
            fun other later => writable other (List.mem_cons_of_mem _ later))

structure Lexed (declared : List Fragment) (operation : Operation) (result : AssembledRequest)
    (emitted : List Fragment) (types : List TypeNode) : Prop where
  registered : ∀ fragment ∈ emitted, Fragment.named? declared fragment.name = some fragment
  writable : ∀ fragment ∈ emitted,
    DeclaredField.AllWritable result.assembly.known fragment.fields.entries
  emission : result.assembly.definitions.keys = emitted.map Fragment.name
  variableTypes : TypesOf operation.inputs.entries types
  tokens : Grammar.lex result.request.query.toList =
    some ((emitted.map Fragment.tree ++ [operation.tree types]).flatMap Grammar.Definition.tokens)
  proper : ∀ definition ∈ emitted.map Fragment.tree ++ [operation.tree types], definition.isProper

theorem Lexed.read {declared emitted : List Fragment} {operation : Operation}
    {result : AssembledRequest} {types : List TypeNode}
    (lexed : Lexed declared operation result emitted types) :
    Grammar.read? result.request.query =
      some (emitted.map Fragment.tree ++ [operation.tree types]) :=
  Grammar.read?_of_lex lexed.tokens lexed.proper (by simp)

theorem assembleOne_lexed {declared : List Fragment} {operation : Operation}
    {result : AssembledRequest} (assembled : assembleOne declared operation = .ok result)
    (fragmentsNamed : ∀ fragment ∈ declared, fragment.obeys grammatical)
    (named : operation.obeys grammatical)
    (typed : ∀ entry ∈ operation.inputs.entries, IsTypeText entry.2.typeName) :
    ∃ emitted types, Lexed declared operation result emitted types := by
  obtain ⟨progress, assembles⟩ := assembleOne_eq_ok assembled
  rcases assembles.logged with ⟨log, logged⟩
  obtain ⟨emitted, nodes, names, registered⟩ := assembles.emitted logged
  obtain ⟨types, variableTypes⟩ := exists_typesOf typed
  have emittedNamed : ∀ fragment ∈ emitted, fragment.obeys grammatical := fun fragment member =>
    fragmentsNamed fragment (List.mem_of_find?_eq_some (registered fragment member).1)
  have writable : ∀ fragment ∈ emitted, fragment.isEmpty = false ∧
      DeclaredField.AllWritable result.assembly.known fragment.fields.entries := by
    intro fragment member
    obtain ⟨-, site, faultless⟩ := registered fragment member
    exact Fragment.writable_of_faultless faultless
  have proper : ∀ type ∈ types, type.isProper ∧ .mark '!' ∉ type.tokens := by
    intro type member
    obtain ⟨entry, present, written⟩ := variableTypes.mem member
    exact ⟨written.proper, fun marked =>
      assembles.unmarked entry present (written.layout.mem_of_mark marked)⟩
  have query : result.request.query =
      Text.collapse (operation.document progress.definitions).text := by
    rw [← assembles.document]
    exact congrArg (fun result => result.request.query) assembles.result
  have row : Row (operation.document progress.definitions).words
      ((emitted.map Fragment.tree ++ [operation.tree types]).flatMap Grammar.Definition.tokens) := by
    rw [assembles.document] at nodes
    rw [Document.words, nodes, List.flatMap_append, List.flatMap_singleton]
    exact (row_nodes emittedNamed fun fragment member => (writable fragment member).2).append
      (Operation.row_document named variableTypes assembles.directives
        (DeclaredField.allWritable_of_faultless _ _ assembles.run.faultless))
  refine ⟨emitted, types, fun fragment member => (registered fragment member).1,
    fun fragment member => (writable fragment member).2, ?_, variableTypes, ?_, ?_⟩
  · rw [assembles.definitions, logged.keys, names]
    rfl
  · rw [query]
    exact row.joinWords.lex_collapse
  · intro definition member
    rcases List.mem_append.mp member with first | last
    · rcases List.mem_map.mp first with ⟨fragment, present, rfl⟩
      exact Fragment.tree_isProper (emittedNamed fragment present) (writable fragment present).1
    · rw [List.mem_singleton.mp last]
      exact Operation.tree_isProper named proper

theorem assembleOne_faithful {declared : List Fragment} {operation : Operation}
    {result : AssembledRequest} (assembled : assembleOne declared operation = .ok result)
    (fragmentsNamed : ∀ fragment ∈ declared, fragment.obeys grammatical)
    (named : operation.obeys grammatical)
    (typed : ∀ entry ∈ operation.inputs.entries, IsTypeText entry.2.typeName) :
    ∃ emitted types, Faithful declared operation result emitted types := by
  obtain ⟨progress, assembles⟩ := assembleOne_eq_ok assembled
  obtain ⟨emitted, types, lexed⟩ := assembleOne_lexed assembled fragmentsNamed named typed
  refine ⟨emitted, types, fun fragment member => ?_, lexed.emission, lexed.variableTypes, ?_,
    lexed.read⟩
  · exact List.mem_of_find?_eq_some (lexed.registered fragment member)
  · rw [← assembles.name]
    exact congrArg (fun result => result.request.operationName) assembles.result

/-- Where all names are those of the grammar, the text of every request is read as what was
declared. -/
theorem assemble_faithful {parts : List Part} {results : List AssembledRequest}
    (named : WellNamed grammatical IsTypeText parts) (assembled : assemble parts = .ok results) :
    List.Forall₂ (fun operation result => ∃ emitted types,
        Faithful (Part.fragments parts) operation result emitted types)
      (Part.operations parts) results := by
  have each := (List.forall₂_and_left _ _).mpr ⟨fun _ member => member, assemble_eq_ok assembled⟩
  exact each.imp fun operation result ⟨member, one⟩ =>
    assembleOne_faithful one named.fragments (named.operations operation member)
      (named.types operation member)

def spelledParts : List Part :=
  [.fragment {
      name := "Card"
      typeCondition := "User"
      scalars := ["name"]
      fields := ⟨[("pets", .mk {
          arguments := some ⟨[("first", .int (-3)), ("ratio", .float (.ofDecimal false ⟨15, -1⟩)),
            ("kind", .list [.enum "CAT", .null])], by decide⟩
          scalars := some ["id"]
          flags.list := true } [])], by decide⟩ },
    .operation {
      type := .query
      name := some "Find"
      inputs := ⟨[("ids", ⟨.list [], " [ID ]", true⟩), ("deep", ⟨.bool true, "Boolean", false⟩)],
        by decide⟩
      directives := [⟨"live", .empty⟩]
      fields := ⟨[("user", .mk {
          aliasName := some "me"
          arguments := some ⟨[("where", .object [("ids", .reference "ids"),
            ("text", .string "a  \"b\" ) \n #"), ("deep", .bool true)])], by decide⟩
          directives := [⟨"skip", ⟨[("if", .reference "deep")], by decide⟩⟩]
          spreads := ["Card"] } [])], by decide⟩
      nonempty := by decide
      single := by decide }]

theorem spelledParts_faithful : WellNamed grammatical IsTypeText spelledParts ∧
    ∃ results, assemble spelledParts = .ok results ∧
      List.Forall₂ (fun operation result => ∃ emitted types,
          Faithful (Part.fragments spelledParts) operation result emitted types)
        (Part.operations spelledParts) results := by
  have named : WellNamed grammatical IsTypeText spelledParts := by
    refine ⟨by decide +kernel, by decide +kernel, fun operation member => ?_⟩
    rw [List.mem_singleton.mp member, List.forall_mem_cons, List.forall_mem_singleton]
    exact ⟨⟨.list (.named "ID"), by decide, by decide +kernel, by decide⟩,
      .named "Boolean", by decide, by decide +kernel, by decide⟩
  have succeeds : (assemble spelledParts).toOption.isSome := by decide +kernel
  cases assembled : assemble spelledParts with
  | error cause =>
      rw [assembled] at succeeds
      cases succeeds
  | ok results => exact ⟨named, results, rfl, assemble_faithful named assembled⟩

end GraphRequest
