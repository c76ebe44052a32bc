import GraphRequest.Proofs.Assembly.Success
import GraphRequest.Proofs.Document.Marked
import GraphRequest.Proofs.Walk.Log

/-!
The definitions in a document are those of the fragments that the operation needs, each once, in the
post-order of the depth-first walk from the root fields. Every declared spread is written once.
-/

namespace GraphRequest

def Fragment.named? (declared : List Fragment) (name : String) : Option Fragment :=
  declared.find? fun fragment => fragment.name = name

def OperationDraft.spreadNames (operation : OperationDraft) : List String :=
  DeclaredField.allSpreadNames operation.fields.entries

theorem get?_eq_named? {registry : Fragments} {declared : List Fragment}
    (entries : registry.entries = declared.map fun fragment => (fragment.name, fragment)) :
    registry.get? = Fragment.named? declared := by
  funext name
  rw [OrderedMap.get?, entries, Fragment.named?]
  clear entries
  induction declared with
  | nil => rfl
  | cons fragment rest ih =>
      rw [List.map_cons, Entries.get?, List.find?_cons, ih]
      by_cases same : fragment.name = name <;> simp [same]

theorem Fragment.name_of_named? {declared : List Fragment} {name : String} {fragment : Fragment}
    (found : Fragment.named? declared name = some fragment) : fragment.name = name := by
  simpa using List.find?_some found

theorem Defines.nodes {declared : List Fragment} {scope : Scope} {log : List (String × Site)}
    {added : List (String × Document.Fragment)}
    (lookup : scope.fragments.get? = Fragment.named? declared)
    (defines : List.Forall₂ (Defines scope) log added) :
    ∃ emitted : List Fragment, added.map Prod.snd = emitted.map Fragment.node ∧
      emitted.map Fragment.name = log.map Prod.fst ∧
      ∀ fragment ∈ emitted, Fragment.named? declared fragment.name = some fragment ∧
        ∃ site, Visit.Faultless (fragment.visits scope.known site) := by
  induction defines with
  | nil => exact ⟨[], rfl, rfl, by simp⟩
  | cons first _ ih =>
      rcases first with ⟨fragment, found, faultless, rfl⟩
      rcases ih with ⟨emitted, nodes, names, registered⟩
      rw [lookup] at found
      have own := Fragment.name_of_named? found
      refine ⟨fragment :: emitted, ?_, ?_, ?_⟩
      · rw [List.map_cons, List.map_cons, nodes]
      · rw [List.map_cons, List.map_cons, names, own]
      · intro other member
        rcases List.mem_cons.mp member with rfl | later
        · rw [own]
          exact ⟨found, _, faultless⟩
        · exact registered other later

theorem Logged.emitted {declared : List Fragment} {scope : Scope} {visits : List Visit}
    {progress : Progress} {log : List (String × Site)}
    (lookup : scope.fragments.get? = Fragment.named? declared)
    (logged : Logged scope { definitions := .empty } visits progress [] log) :
    ∃ emitted : List Fragment, progress.definitions.values = emitted.map Fragment.node ∧
      emitted.map Fragment.name = log.map Prod.fst ∧
      ∀ fragment ∈ emitted, Fragment.named? declared fragment.name = some fragment ∧
        ∃ site, Visit.Faultless (fragment.visits scope.known site) := by
  rcases logged.definitions with ⟨added, entries, defines⟩
  rcases Defines.nodes lookup defines with ⟨emitted, nodes, names, registered⟩
  refine ⟨emitted, ?_, names, registered⟩
  rw [OrderedMap.values, entries, ← nodes]
  rfl

namespace Assembles

variable {declared : List Fragment} {operation : Operation} {result : AssembledRequest}
  {progress : Progress}

theorem lookup (assembles : Assembles declared operation result progress) :
    result.assembly.scope.fragments.get? = Fragment.named? declared :=
  get?_eq_named? assembles.registry

theorem logged (assembles : Assembles declared operation result progress) :
    ∃ log, Logged result.assembly.scope { definitions := .empty }
      (Assembly.fieldsVisits result.assembly.known Site.root operation.fields.entries) progress
      [] log :=
  assembles.run.logged [] rfl

theorem spreadLevels (assembles : Assembles declared operation result progress) :
    (Visit.spreads (Assembly.fieldsVisits result.assembly.known Site.root
      operation.fields.entries)).map Assembly.levelOf =
      DeclaredField.allSpreadLevels 1 operation.fields.entries :=
  Assembly.fieldsVisits_spreadLevels _ _ _ assembles.run.faultless

theorem spreadNames (assembles : Assembles declared operation result progress) :
    (Visit.spreads (Assembly.fieldsVisits result.assembly.known Site.root
      operation.fields.entries)).map Prod.fst = operation.spreadNames := by
  rw [OperationDraft.spreadNames, ← DeclaredField.allSpreadLevels_names 1, ← assembles.spreadLevels,
    List.map_map]
  rfl

theorem emitted (assembles : Assembles declared operation result progress)
    {log : List (String × Site)}
    (logged : Logged result.assembly.scope { definitions := .empty }
      (Assembly.fieldsVisits result.assembly.known Site.root operation.fields.entries) progress
      [] log) :
    ∃ emitted : List Fragment, result.document.fragments = emitted.map Fragment.node ∧
      emitted.map Fragment.name = log.map Prod.fst ∧
      ∀ fragment ∈ emitted, Fragment.named? declared fragment.name = some fragment ∧
        ∃ site, Visit.Faultless (fragment.visits result.assembly.known site) := by
  rw [assembles.document]
  exact logged.emitted assembles.lookup

end Assembles

def sharedParts : List Part :=
  [.fragment {
      name := "User"
      typeCondition := "User"
      fields := ⟨[("friends", .mk { spreads := ["Card"] } [])], by decide⟩ },
    .fragment { name := "Card", typeCondition := "User", scalars := ["name"], includes := ["Base"] },
    .operation {
      type := .query
      fields := ⟨[("user", .mk { aliasName := some "me", spreads := ["Card", "User"] }
          [("pet", .mk { spreads := ["Base"] } [])]),
        ("users", .mk { localType := some "User", spreads := ["User"], flags.list := true } [])],
        by decide⟩
      nonempty := by decide
      single := by decide },
    .fragment { name := "Spare", typeCondition := "User", scalars := ["id"] },
    .fragment { name := "Base", typeCondition := "Node", scalars := ["id"] }]

end GraphRequest
