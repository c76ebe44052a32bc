import GraphRequest.Proofs.Assembly.Introduction
import GraphRequest.Proofs.Fragment.Cycle
import GraphRequest.Proofs.Fragment.Needed
import GraphRequest.Proofs.Value.Leaf

/-!
Exactly when a request can be assembled, told by the declarations alone. Each fragment counts at one
site only, that of its first spread.
-/

namespace GraphRequest

namespace OperationDraft

variable (operation : OperationDraft) (lookup : String → Option Fragment)

def route : List Waypoint :=
  DeclaredField.routes Site.root operation.fields.entries

/-- Some spreads lead from the root fields to the fragment of the name. -/
def Needs (name : String) : Prop :=
  Reached (references lookup) operation.spreadNames name

/-- The needed fragments in the order of their completion, each with the site of its first spread. -/
def FirstSites (first : List (String × Site)) : Prop :=
  PostOrder Prod.fst (spreadSites lookup) [] (Waypoint.spreads operation.route) first

/-- The walk comes to the field at a site, among the root fields or in a fragment that it enters. -/
inductive Visits (site : Site) (key : String) (field : DeclaredField) : Prop
  | root (member : .field site key field ∈ operation.route)
  | within {first : List (String × Site)} {entry : String × Site}
      (sites : operation.FirstSites lookup first) (entered : entry ∈ first)
      (member : .field site key field ∈ routeAt lookup entry)

end OperationDraft

/-- What the declarations of an operation and of registered fragments have to comply with. -/
structure Acceptable (declared : List Fragment) (operation : Operation) : Prop where
  unmarked : ∀ entry ∈ operation.inputs.entries, '!' ∉ entry.2.typeName.toList
  independent : ∀ entry ∈ operation.inputs.entries, ∀ name,
    .reference name ∉ entry.2.value.leaves
  registered : ∀ name, operation.Needs (Fragment.named? declared) name →
    ∃ fragment, Fragment.named? declared name = some fragment
  filled : ∀ name fragment, operation.Needs (Fragment.named? declared) name →
    Fragment.named? declared name = some fragment →
    fragment.scalars ≠ [] ∨ fragment.fields.entries ≠ [] ∨ fragment.includes ≠ []
  acyclic : ∀ name, operation.Needs (Fragment.named? declared) name →
    ¬Relation.TransGen (Refers (Fragment.named? declared)) name name
  directives : ∀ value ∈ Directive.allValues operation.directives,
    value.Writable operation.inputs.keys
  values : ∀ value ∈ DeclaredField.allValues operation.fields.entries,
    value.Writable operation.inputs.keys
  fragmentValues : ∀ name fragment, operation.Needs (Fragment.named? declared) name →
    Fragment.named? declared name = some fragment →
    ∀ value ∈ DeclaredField.allValues fragment.fields.entries,
      value.Writable operation.inputs.keys
  admitted : ∀ site key field, operation.Visits (Fragment.named? declared) site key field →
    field.Admitted site key

section

variable {operation : OperationDraft} {lookup : String → Option Fragment}
  {first : List (String × Site)}

theorem OperationDraft.spreads_route (operation : OperationDraft) :
    (Waypoint.spreads operation.route).map Prod.fst = operation.spreadNames :=
  DeclaredField.spreads_routes Site.root operation.fields.entries

namespace OperationDraft.FirstSites

theorem names (sites : operation.FirstSites lookup first) :
    PostOrder id (references lookup) [] operation.spreadNames (first.map Prod.fst) := by
  rw [← operation.spreads_route]
  exact PostOrder.named sites (spreadSites_names lookup)

theorem mem_names_iff (sites : operation.FirstSites lookup first) (name : String) :
    name ∈ first.map Prod.fst ↔ operation.Needs lookup name :=
  sites.names.mem_iff_reached name

theorem acyclic (sites : operation.FirstSites lookup first) {name : String}
    (needed : operation.Needs lookup name) :
    ¬Relation.TransGen (Refers lookup) name name :=
  (sites.names.grounded .nil).acyclic ((sites.mem_names_iff name).mpr needed)

end OperationDraft.FirstSites

theorem OperationDraft.exists_firstSites {declared : List Fragment}
    (registered : ∀ name, operation.Needs (Fragment.named? declared) name →
      ∃ fragment, Fragment.named? declared name = some fragment)
    (acyclic : ∀ name, operation.Needs (Fragment.named? declared) name →
      ¬Relation.TransGen (Refers (Fragment.named? declared)) name name) :
    ∃ first, operation.FirstSites (Fragment.named? declared) first := by
  apply PostOrder.exists_final (spreadSites_names (Fragment.named? declared))
  intro entry member
  have needed : operation.Needs (Fragment.named? declared) entry.1 := by
    apply Reached.root
    rw [← operation.spreads_route]
    exact List.mem_map_of_mem member
  refine needed.acc (declared.map Fragment.name) (fun name needed => ?_) acyclic
  obtain ⟨fragment, found⟩ := registered name needed
  rw [← Fragment.name_of_named? found]
  exact List.mem_map_of_mem (List.mem_of_find?_eq_some found)

end

theorem Fragment.isEmpty_eq_false_iff (fragment : Fragment) :
    fragment.isEmpty = false ↔
      fragment.scalars ≠ [] ∨ fragment.fields.entries ≠ [] ∨ fragment.includes ≠ [] := by
  simp only [isEmpty, OrderedMap.isEmpty, Bool.and_eq_false_iff, List.isEmpty_eq_false_iff, or_assoc]

theorem DeclaredVariable.declarable_iff (declared : DeclaredVariable) :
    declared.Declarable ↔ '!' ∉ declared.typeName.toList ∧
      ∀ name, .reference name ∉ declared.value.leaves := by
  constructor
  · rintro ⟨unmarked, independent⟩
    refine ⟨unmarked, fun name member => ?_⟩
    rw [(Value.hasReference_iff _).mpr ⟨name, member⟩] at independent
    cases independent
  · rintro ⟨unmarked, independent⟩
    refine ⟨unmarked, ?_⟩
    cases depends : declared.value.hasReference with
    | false => rfl
    | true =>
        obtain ⟨name, member⟩ := (Value.hasReference_iff _).mp depends
        exact absurd member (independent name)

section

variable {declared : List Fragment} {operation : Operation} {fragments : Fragments}

theorem Acceptable.of_completes {progress : Progress}
    (lookup : fragments.get? = Fragment.named? declared)
    (declarable : ∀ entry ∈ operation.inputs.entries, entry.2.Declarable)
    (run : Completes ⟨operation.introduced, fragments⟩ [] { definitions := .empty }
      (Assembly.fieldsVisits operation.introduced Site.root operation.fields.entries) progress)
    (checked : Directive.checkAll operation.introduced operation.directives = .ok ()) :
    Acceptable declared operation := by
  obtain ⟨log, logged⟩ := run.logged [] rfl
  have passed := DeclaredField.routes_passed Site.root _ run.faultless
  have sites : operation.FirstSites (Fragment.named? declared) log := by
    have ordered := logged.sites
    rw [DeclaredField.fieldsVisits_of_passed Site.root _ passed, Waypoint.spreads_visits] at ordered
    rw [← lookup]
    exact ordered
  have entered : ∀ name, operation.Needs (Fragment.named? declared) name →
      ∃ site fragment, Fragment.named? declared name = some fragment ∧
        Visit.Faultless (fragment.visits operation.introduced site) := by
    intro name needed
    obtain ⟨entry, member, rfl⟩ := List.mem_map.mp ((sites.mem_names_iff name).mpr needed)
    obtain ⟨_, fragment, found, faultless, -⟩ := logged.defines_of_mem member
    exact ⟨entry.2, fragment, lookup ▸ found, faultless⟩
  have writable := DeclaredField.allWritable_of_faultless Site.root _ run.faultless
  rw [DeclaredField.allWritable_iff, operation.introduced_keys] at writable
  rw [Directive.checkAll_eq_ok, operation.introduced_keys] at checked
  refine ⟨?_, ?_, ?_, ?_, fun name => sites.acyclic, checked, writable, ?_, ?_⟩
  · intro entry member
    exact (declarable entry member).unmarked
  · intro entry member
    exact (entry.2.declarable_iff.mp (declarable entry member)).2
  · intro name needed
    obtain ⟨site, fragment, found, -⟩ := entered name needed
    exact ⟨fragment, found⟩
  · intro name fragment needed found
    obtain ⟨site, other, same, faultless⟩ := entered name needed
    cases found.symm.trans same
    exact fragment.isEmpty_eq_false_iff.mp (Fragment.writable_of_faultless faultless).1
  · intro name fragment needed found
    obtain ⟨site, other, same, faultless⟩ := entered name needed
    cases found.symm.trans same
    have inside := (Fragment.writable_of_faultless faultless).2
    rwa [DeclaredField.allWritable_iff, operation.introduced_keys] at inside
  · intro site key field visited
    cases visited with
    | root member => exact (passed _ member).1
    | @within first entry again present member =>
        -- there is one order only, so each of its entries was expanded by the run
        obtain rfl : first = log := sites.unique again
        obtain ⟨fragment, found, -, passed⟩ := logged.expandable present
        rw [routeAt, ← lookup, found] at member
        exact (passed _ member).1

theorem Acceptable.completes (acceptable : Acceptable declared operation)
    (lookup : fragments.get? = Fragment.named? declared) :
    ∃ progress, Completes ⟨operation.introduced, fragments⟩ [] { definitions := .empty }
      (Assembly.fieldsVisits operation.introduced Site.root operation.fields.entries) progress := by
  obtain ⟨first, sites⟩ := operation.exists_firstSites acceptable.registered acceptable.acyclic
  have needed : ∀ entry ∈ first, operation.Needs (Fragment.named? declared) entry.1 :=
    fun entry member => (sites.mem_names_iff entry.1).mp (List.mem_map_of_mem member)
  have expandable : ∀ entry ∈ first, Scope.Expandable ⟨operation.introduced, fragments⟩ entry := by
    intro entry member
    obtain ⟨fragment, found⟩ := acceptable.registered entry.1 (needed entry member)
    have filled := acceptable.filled entry.1 fragment (needed entry member) found
    have values := acceptable.fragmentValues entry.1 fragment (needed entry member) found
    rw [← operation.introduced_keys, ← DeclaredField.allWritable_iff] at values
    refine ⟨fragment, lookup ▸ found, fragment.isEmpty_eq_false_iff.mpr filled, ?_⟩
    refine Waypoint.passed_of_fields (fun site key field there => ?_) (Fragment.route_checked values)
    apply acceptable.admitted
    refine .within sites member ?_
    rw [routeAt, found]
    exact there
  have values := acceptable.values
  rw [← operation.introduced_keys, ← DeclaredField.allWritable_iff] at values
  have passed : ∀ waypoint ∈ operation.route, waypoint.Passed operation.introduced :=
    Waypoint.passed_of_fields (fun site key field there => acceptable.admitted _ _ _ (.root there))
      (DeclaredField.routes_checked Site.root _ values)
  have walk : PostOrder Prod.fst (spreadSites fragments.get?) [] (Waypoint.spreads operation.route)
      first := by
    rw [lookup]
    exact sites
  have performed : ∃ progress, Completes ⟨operation.introduced, fragments⟩ []
      { definitions := .empty } (operation.route.map Waypoint.visit) progress ∧
      progress.definitions.keys = first.map Prod.fst := by
    refine PostOrder.completes walk (fun entry member => .inr (expandable entry member)) ?_ ?_ rfl rfl
    · intro entry member
      rw [lookup]
      exact sites.acyclic (needed entry member)
    · intro name member
      cases member
  obtain ⟨progress, run, -⟩ := performed
  rw [DeclaredField.fieldsVisits_of_passed Site.root _ passed]
  exact ⟨progress, run⟩

theorem assembleOne_ok_iff_acceptable {base : Assembly}
    (registered : Assembly.introduceFragments declared (Assembly.new operation.effectiveName) =
      .ok () base) :
    (∃ result, assembleOne declared operation = .ok result) ↔ Acceptable declared operation := by
  have lookup : base.fragments.get? = Fragment.named? declared := by
    obtain ⟨registry, rfl, entries⟩ := Assembly.introduceFragments_eq_ok registered
    exact get?_eq_named? entries
  rw [assembleOne_ok_iff registered]
  constructor
  · rintro ⟨declarable, ⟨progress, run⟩, checked⟩
    exact .of_completes lookup declarable run checked
  · intro acceptable
    refine ⟨fun entry member => ?_, acceptable.completes lookup, ?_⟩
    · exact entry.2.declarable_iff.mpr
        ⟨acceptable.unmarked entry member, acceptable.independent entry member⟩
    · rw [Directive.checkAll_eq_ok, operation.introduced_keys]
      exact acceptable.directives

end

theorem assemble_single {parts : List Part} {operation : Operation}
    (single : Part.operations parts = [operation]) :
    (∃ results, assemble parts = .ok results) ↔
      ∃ result, assembleOne (Part.fragments parts) operation = .ok result := by
  rw [assemble, single, assembleEach]
  cases assembleOne (Part.fragments parts) operation with
  | ok result => simp [assembleEach, bind, Except.bind, pure, Except.pure]
  | error cause => simp [bind, Except.bind]

/-- One operation and fragments that can be registered are assembled exactly if what they declare is
acceptable. -/
theorem assemble_ok_iff_acceptable {parts : List Part} {operation : Operation} {base : Assembly}
    (single : Part.operations parts = [operation])
    (registered : Assembly.introduceFragments (Part.fragments parts)
      (Assembly.new operation.effectiveName) = .ok () base) :
    (∃ results, assemble parts = .ok results) ↔ Acceptable (Part.fragments parts) operation := by
  rw [assemble_single single]
  exact assembleOne_ok_iff_acceptable registered

theorem sharedParts_acceptable : ∃ operation base,
    Part.operations sharedParts = [operation] ∧
    Assembly.introduceFragments (Part.fragments sharedParts)
      (Assembly.new operation.effectiveName) = .ok () base ∧
    Acceptable (Part.fragments sharedParts) operation := by
  have assembled : ∃ results, assemble sharedParts = .ok results :=
    exists_of_isOk (by decide +kernel)
  exact ⟨_, _, rfl, rfl, (assemble_ok_iff_acceptable rfl rfl).mp assembled⟩

end GraphRequest
