import GraphRequest.Proofs.Assembly.Reachable
import GraphRequest.Proofs.Walk.Lineage
import GraphRequest.Proofs.Walk.Visited

/-!
What a call registers, also if it fails: the expectations of the fields that it comes to, in their
pre-order and up to the fault.
-/

namespace GraphRequest

open Assembly Visit

namespace SelectionCall

def site : SelectionCall → Site
  | field _ _ site => site
  | spread _ path level inherited => ⟨path, level + 1, inherited⟩

def route : SelectionCall → List Waypoint
  | field key declared site => declared.route site key
  | spread name path level inherited => [.spread name ⟨path, level + 1, inherited⟩]

def lineage : SelectionCall → List (Lineal Waypoint)
  | field key declared site => declared.lineage [] site key
  | spread name path level inherited => [([], .spread name ⟨path, level + 1, inherited⟩)]

/-- The fields that the call comes to if nothing stops it. Fragments that are defined already are not
entered again. -/
def preorder (call : SelectionCall) (assembly : Assembly) : List PlacedField :=
  Waypoint.preorder assembly.fragments (assembly.definitions.keys ++ assembly.expanding) call.route

/-- The same with the fields that each field is inside of, from the field of the call on. -/
def lineal (call : SelectionCall) (assembly : Assembly) : List (Lineal PlacedField) :=
  Waypoint.lineal assembly.fragments (assembly.definitions.keys ++ assembly.expanding) call.lineage

theorem lineal_preorder (call : SelectionCall) (assembly : Assembly) :
    (call.lineal assembly).map Prod.snd = call.preorder assembly := by
  rw [lineal, Waypoint.lineal_preorder, preorder]
  cases call with
  | field key declared site => rw [lineage, DeclaredField.lineage_route, route]
  | spread name path level inherited => rfl

theorem lineal_induct {P : List PlacedField → Site → Prop} (down : HandedDown P)
    (call : SelectionCall) (start : P [] call.site) (assembly : Assembly) :
    ∀ entry ∈ call.lineal assembly, P entry.1 entry.2.site := by
  apply Waypoint.lineal_induct down
  cases call with
  | field key declared site => exact declared.lineage_induct down start
  | spread name path level inherited => exact List.forall_mem_singleton.mpr start

/-- The fields for which the call registers what it expects: all that it comes to if it succeeds, and
those before the fault if it fails. The pre-order tells also the field that is refused because it
contradicts the local type that it inherits. -/
structure Registers (call : SelectionCall) (assembly : Assembly) (fields : List PlacedField) :
    Prop where
  expectations : (finalState (call.run assembly)).expectations =
    assembly.expectations.putAll (fields.map PlacedField.expectation)
  all : ∀ node after, call.run assembly = .ok node after → fields = call.preorder assembly
  first : fields <+: call.preorder assembly
  conflict : ∀ path declared inherited after,
    call.run assembly = .error (.conflictingTypes path declared inherited) after →
    ∃ placed later, call.preorder assembly = fields ++ placed :: later ∧
      Expectation.of placed.site placed.key placed.declared =
        .error (.conflictingTypes path declared inherited)

theorem route_tracks (call : SelectionCall) (known : Variables) :
    Tracks call.route (call.visits known) := by
  cases call with
  | field key declared site => exact declared.route_tracks known site key
  | spread name path level inherited => exact Tracks.spreads [name] _

theorem route_passed (call : SelectionCall) {known : Variables}
    (faultless : Faultless (call.visits known)) :
    call.visits known = call.route.map Waypoint.visit ∧
      ∀ waypoint ∈ call.route, waypoint.Passed known := by
  cases call with
  | field key declared site =>
      have passed := declared.route_passed site key faultless
      exact ⟨declared.fieldVisits_of_passed site key passed, passed⟩
  | spread name path level inherited => exact ⟨rfl, Waypoint.passed_spreads known [name] _⟩

theorem exists_registers (call : SelectionCall) (assembly : Assembly) :
    ∃ fields, call.Registers assembly fields := by
  have marks : Seen (assembly.definitions.keys ++ assembly.expanding) assembly.expanding
      { definitions := assembly.definitions } := fun _ => List.mem_append
  cases ran : call.run assembly with
  | ok node after =>
      obtain ⟨-, progress, run, rfl⟩ := run_eq_ok ran
      obtain ⟨walked, passed⟩ := call.route_passed run.faultless
      obtain ⟨later, fields, -, met, preordered⟩ := run.preordered walked passed marks
      have whole : call.preorder assembly = fields := by
        have ahead := preordered.ahead []
        rwa [List.append_nil, Waypoint.preorder, List.append_nil] at ahead
      refine ⟨fields, ?_, fun _ _ _ => whole.symm, whole ▸ List.prefix_rfl, ?_⟩
      · rw [ran, finalState, Assembly.settle, met, List.nil_append]
      · intro path declared inherited after failed
        cases ran.symm.trans failed
  | error cause after =>
      obtain ⟨progress, run, rfl⟩ := run_eq_error ran
      obtain ⟨fields, met, order⟩ := run.preordered (call.route_tracks assembly.known) marks
      obtain ⟨later, whole, refused⟩ := order []
      rw [List.append_nil] at whole
      refine ⟨fields, ?_, ?_, ⟨later, whole.symm⟩, ?_⟩
      · rw [ran, finalState, Assembly.settle, met, List.nil_append]
      · intro node after succeeded
        cases ran.symm.trans succeeded
      · intro path declared inherited after failed
        cases ran.symm.trans failed
        obtain ⟨placed, next, same⟩ := refused rfl
        obtain ⟨rest, rfl⟩ := List.head?_eq_some_iff.mp next
        exact ⟨placed, rest, whole, same⟩

end SelectionCall

end GraphRequest
