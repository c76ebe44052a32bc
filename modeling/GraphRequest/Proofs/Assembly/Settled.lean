import GraphRequest.Proofs.Assembly.Introduction
import GraphRequest.Proofs.Assembly.Reachable
import GraphRequest.Proofs.Fragment.Needed
import GraphRequest.Proofs.Name.Solid
import GraphRequest.Proofs.Text.Chunk

/-!
Collapsing does not change what is assembled: where all names are plain, the text of a document is
settled, whatever strings it holds.
-/

namespace GraphRequest

open Text (isPlain Settled)

def plainNames : NameRule :=
  fun _ => isPlain

theorem plainNames_isPlain : plainNames.IsPlain :=
  fun _ _ named => named

/-- An operation with plain names, assembled where only fragments with plain names are registered,
has a text that collapsing leaves as it is. -/
theorem Operation.assemble_settled {operation : Operation} {declared : List Fragment} {name : String}
    {base after : Assembly} {document : Document}
    (fragmentsNamed : ∀ fragment ∈ declared, fragment.obeys plainNames)
    (named : operation.obeys plainNames)
    (typed : ∀ entry ∈ operation.inputs.entries, isPlain entry.2.typeName)
    (registered : Assembly.introduceFragments declared (Assembly.new name) = .ok () base)
    (assembled : operation.assemble base = .ok document after) : Settled document.text := by
  rcases Assembly.introduceFragments_eq_ok registered with ⟨registry, rfl, entries⟩
  rcases Operation.assemble_eq_ok assembled with ⟨known, progress, -, run, -, rfl, -⟩
  rcases run.logged [] rfl with ⟨log, logged⟩
  have lookup : registry.get? = Fragment.named? declared := get?_eq_named? entries
  rcases logged.emitted lookup with ⟨emitted, nodes, -, found⟩
  have emittedNamed : ∀ fragment ∈ emitted, fragment.obeys plainNames := fun fragment member =>
    fragmentsNamed fragment (List.mem_of_find?_eq_some (found fragment member).1)
  apply Text.Solid.settled
  exact operation.solid_document plainNames_isPlain nodes emittedNamed named
    fun entry member => .of_plain (typed entry member)

def quotedFragment : Fragment where
  name := "Comments"
  typeCondition := "Post"
  fields := ⟨[("comments", .mk {
      arguments := some ⟨[("matching", .string "a  \\\" b\\")], by decide⟩
      scalars := some ["text"]
      flags.list := true } [])], by decide⟩

def quotedOperation : Operation where
  type := .query
  name := some "Search"
  inputs := ⟨[("limit", ⟨.int 5, "Int", true⟩)], by decide⟩
  fields := ⟨[("posts", .mk {
      aliasName := some "found"
      arguments := some ⟨[("title", .string " \"two\u00a0 words\"\n"), ("first", .reference "limit")],
        by decide⟩
      directives := [⟨"tagged", ⟨[("with", .list [.string "\\", .string "", .string "\t\u3000\""])],
        by decide⟩⟩]
      spreads := ["Comments"]
      flags.list := true } [])], by decide⟩
  nonempty := by decide
  single := by decide

def quotedAssembly : Assembly :=
  { Assembly.new "Search" with fragments := OrderedMap.empty.insert "Comments" quotedFragment }

theorem quotedOperation_settled : ∃ document after,
    Assembly.introduceFragments [quotedFragment] (.new "Search") = .ok () quotedAssembly ∧
      quotedOperation.assemble quotedAssembly = .ok document after ∧
      after.definitions.keys = ["Comments"] ∧ Settled document.text := by
  have registered : Assembly.introduceFragments [quotedFragment] (.new "Search") =
      .ok () quotedAssembly := rfl
  have bare : quotedAssembly.known = .empty := rfl
  have accepted : ∃ result, assembleOne [quotedFragment] quotedOperation = .ok result :=
    exists_of_isOk (by decide +kernel)
  have keys : (finalState (quotedOperation.assemble quotedAssembly)).definitions.keys =
      ["Comments"] := by
    decide +kernel
  rcases (quotedOperation.assemble_ok_iff bare).mpr ((assembleOne_ok_iff registered).mp accepted)
    with ⟨document, after, assembled⟩
  rw [assembled] at keys
  refine ⟨document, after, registered, assembled, keys, ?_⟩
  apply Operation.assemble_settled _ _ _ registered assembled
  · decide +kernel
  · decide +kernel
  · decide +kernel

end GraphRequest
