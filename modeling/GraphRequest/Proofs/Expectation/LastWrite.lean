import GraphRequest.Proofs.Assembly.Acceptance
import GraphRequest.Proofs.Assembly.Reachable
import GraphRequest.Proofs.Walk.Preorder

/-!
What is kept of all that a walk expects: in each slot the expectation of the last field that the walk
comes to, and the slots in the order of their first fields.
-/

namespace GraphRequest

namespace Expectations

theorem putAll_concat (expectations : Expectations) (met : List Expectation) (e : Expectation) :
    expectations.putAll (met ++ [e]) = (expectations.putAll met).put e := by
  rw [putAll, List.foldl_append]
  rfl

/-- The last write wins. -/
theorem get?_putAll (met : List Expectation) (slot : ResponseSlot) :
    (putAll .empty met).get? slot = (met.filter (·.slot = slot)).getLast? := by
  induction met using List.reverseRecOn with
  | nil => rfl
  | append_singleton met e ih =>
      rw [putAll_concat, put, OrderedMap.get?_insert, ih, List.filter_append, List.getLast?_append,
        List.filter_singleton]
      by_cases same : e.slot = slot <;> simp [same]

/-- The first write decides the place. -/
theorem keys_putAll (met : List Expectation) :
    (putAll .empty met).keys = (met.map Expectation.slot).eraseDups := by
  induction met using List.reverseRecOn with
  | nil => rfl
  | append_singleton met e ih =>
      rw [putAll_concat, put, OrderedMap.keys_insert, ih, List.map_append, List.eraseDups_append,
        List.map_singleton, List.removeAll, List.filter_singleton]
      generalize met.map Expectation.slot = slots
      by_cases early : e.slot ∈ slots
      · rw [if_pos (List.mem_eraseDups.mpr early)]
        simp [early]
      · rw [if_neg fun again => early (List.mem_eraseDups.mp again)]
        simp [early, List.eraseDups_cons]

end Expectations

def OperationDraft.preorder (operation : OperationDraft) (fragments : Fragments) :
    List PlacedField :=
  Waypoint.preorder fragments [] operation.route

/-- The expectations of an assembly are those of the fields that come last in their slots. -/
structure Assembly.LastWritten (assembly : Assembly) (fields : List PlacedField) : Prop where
  accepted : ∀ placed ∈ fields,
    Expectation.of placed.site placed.key placed.declared = .ok placed.expectation
  last : ∀ responseKey level, assembly.expectation? responseKey level =
    (fields.filter (·.slot = (responseKey, level))).getLast?.map PlacedField.expectation
  order : assembly.expectations.keys = (fields.map PlacedField.slot).eraseDups

theorem Assembly.LastWritten.of_met {assembly : Assembly} {fields : List PlacedField}
    (accepted : ∀ placed ∈ fields,
      Expectation.of placed.site placed.key placed.declared = .ok placed.expectation)
    (met : assembly.expectations = .putAll .empty (fields.map PlacedField.expectation)) :
    assembly.LastWritten fields where
  accepted := accepted
  last responseKey level := by
    rw [expectation?, met, Expectations.get?_putAll, List.filter_map, List.getLast?_map]
    rfl
  order := by
    rw [met, Expectations.keys_putAll, List.map_map]
    rfl

theorem Completes.operation_preorder {operation : OperationDraft} {scope : Scope}
    {progress : Progress} (run : Completes scope [] { definitions := .empty }
      (Assembly.fieldsVisits scope.known Site.root operation.fields.entries) progress) :
    progress.met = (operation.preorder scope.fragments).map PlacedField.expectation ∧
      ∀ placed ∈ operation.preorder scope.fragments,
        Expectation.of placed.site placed.key placed.declared = .ok placed.expectation := by
  have passed := DeclaredField.routes_passed Site.root _ run.faultless
  have start : Seen [] [] { definitions := .empty } := by simp [Seen]
  obtain ⟨later, fields, -, met, preordered⟩ :=
    run.preordered (DeclaredField.fieldsVisits_of_passed Site.root _ passed) passed start
  have whole : operation.preorder scope.fragments = fields := by
    have ahead := preordered.ahead []
    rwa [List.append_nil, Waypoint.preorder, List.append_nil] at ahead
  rw [whole]
  exact ⟨met, preordered.accepted⟩

/-- The expectations of an operation that is assembled on registered fragments. -/
theorem Operation.assemble_lastWritten {declared : List Fragment} {name : String} {operation : Operation}
    {base after : Assembly} {document : Document}
    (registered : Assembly.introduceFragments declared (.new name) = .ok () base)
    (assembled : operation.assemble base = .ok document after) :
    after.LastWritten (operation.preorder base.fragments) := by
  obtain ⟨registry, rfl, -⟩ := Assembly.introduceFragments_eq_ok registered
  obtain ⟨known, progress, -, run, -, -, rfl⟩ := Operation.assemble_eq_ok assembled
  obtain ⟨met, accepted⟩ := run.operation_preorder
  refine .of_met accepted ?_
  rw [← met]
  rfl

def authorFragment : Fragment where
  name := "Author"
  typeCondition := "Content"
  fields := ⟨[("author", .mk { scalars := some ["name"] } [])], by decide⟩

def authorAssembly : Assembly :=
  { Assembly.new "Query" with fragments := OrderedMap.empty.insert "Author" authorFragment }

def authoredConnection (localType : String) : DeclaredField :=
  .mk {} [("edges", .mk {}
    [("node", .mk { localType := some localType, spreads := ["Author"] } [])])]

def feedOperation : Operation where
  type := .query
  fields := ⟨[("posts", authoredConnection "Post"), ("photos", authoredConnection "Photo")],
    by decide⟩
  nonempty := by decide
  single := by decide

theorem feedOperation_lastWritten : ∃ document after,
    Assembly.introduceFragments [authorFragment] (.new "Query") = .ok () authorAssembly ∧
    feedOperation.assemble authorAssembly = .ok document after ∧
    after.LastWritten (feedOperation.preorder authorAssembly.fragments) ∧
    after.expectations.keys =
      [("posts", 1), ("edges", 2), ("node", 3), ("author", 4), ("photos", 1)] ∧
    after.expectations.values.map (fun e => e.path.text) =
      ["posts", "photos.edges.#", "photos.edges.#.node", "posts.edges.#.node.author", "photos"] := by
  have registered : Assembly.introduceFragments [authorFragment] (.new "Query") =
      .ok () authorAssembly := rfl
  have bare : authorAssembly.known = .empty := rfl
  have accepted : ∃ result, assembleOne [authorFragment] feedOperation = .ok result :=
    exists_of_isOk (by decide +kernel)
  have keys : (finalState (feedOperation.assemble authorAssembly)).expectations.keys =
      [("posts", 1), ("edges", 2), ("node", 3), ("author", 4), ("photos", 1)] := by
    decide +kernel
  have paths : (finalState (feedOperation.assemble authorAssembly)).expectations.values.map
      (fun e => e.path.text) =
      ["posts", "photos.edges.#", "photos.edges.#.node", "posts.edges.#.node.author",
        "photos"] := by
    decide +kernel
  obtain ⟨document, after, assembled⟩ :=
    (feedOperation.assemble_ok_iff bare).mpr ((assembleOne_ok_iff registered).mp accepted)
  rw [assembled] at keys paths
  exact ⟨document, after, registered, assembled,
    Operation.assemble_lastWritten registered assembled, keys, paths⟩

end GraphRequest
