import GraphRequest.Proofs.Assembly.Acceptance

/-!
The order of root fields. It decides where a fragment is spread first, and with it which local type
the fields of the fragment inherit; acceptance depends on the order in no other way.
-/

namespace GraphRequest

structure Operation.Reordered (first second : Operation) : Prop where
  fields : first.fields.entries.Perm second.fields.entries
  others : second.toOperationDraft = { first.toOperationDraft with fields := second.fields }

/-- All fields of the fragment are admitted if it is spread at the site. -/
def AdmittedAt (lookup : String → Option Fragment) (entry : String × Site) : Prop :=
  ∀ site key field, .field site key field ∈ routeAt lookup entry → field.Admitted site key

def OperationDraft.SpreadAt (operation : OperationDraft) (lookup : String → Option Fragment)
    (entry : String × Site) : Prop :=
  Reached (spreadSites lookup) (Waypoint.spreads operation.route) entry

/-- Each fragment is admitted at all sites where it is spread, or at none of them. -/
def OperationDraft.Uniform (operation : OperationDraft) (lookup : String → Option Fragment) : Prop :=
  ∀ name site other, operation.SpreadAt lookup (name, site) →
    operation.SpreadAt lookup (name, other) → AdmittedAt lookup (name, site) →
    AdmittedAt lookup (name, other)

namespace DeclaredField

theorem routes_eq_flatMap (site : Site) (declared : List (String × DeclaredField)) :
    routes site declared = declared.flatMap fun entry => entry.2.route site entry.1 := by
  induction declared with
  | nil => rfl
  | cons entry rest ih => rw [routes, ih, List.flatMap_cons]

theorem allValues_eq_flatMap (declared : List (String × DeclaredField)) :
    allValues declared = declared.flatMap fun entry => entry.2.values := by
  induction declared with
  | nil => rfl
  | cons entry rest ih => rw [allValues, ih, List.flatMap_cons]

end DeclaredField

theorem OperationDraft.SpreadAt.needs {operation : OperationDraft}
    {lookup : String → Option Fragment} {entry : String × Site}
    (spread : operation.SpreadAt lookup entry) : operation.Needs lookup entry.1 := by
  rw [OperationDraft.Needs, ← operation.spreads_route]
  exact Reached.map Prod.fst (spreadSites_names lookup) spread

namespace Operation.Reordered

variable {first second : Operation} {lookup : String → Option Fragment}

theorem symm (reordered : first.Reordered second) : second.Reordered first where
  fields := reordered.fields.symm
  others := by rw [reordered.others]

theorem inputs (reordered : first.Reordered second) : second.inputs = first.inputs := by
  rw [reordered.others]

theorem directives (reordered : first.Reordered second) :
    second.directives = first.directives := by
  rw [reordered.others]

theorem effectiveName (reordered : first.Reordered second) :
    second.effectiveName = first.effectiveName := by
  rw [OperationDraft.effectiveName, reordered.others]
  rfl

theorem route (reordered : first.Reordered second) : first.route.Perm second.route := by
  rw [OperationDraft.route, OperationDraft.route, DeclaredField.routes_eq_flatMap,
    DeclaredField.routes_eq_flatMap]
  exact reordered.fields.flatMap_right _

theorem spreads (reordered : first.Reordered second) :
    (Waypoint.spreads first.route).Perm (Waypoint.spreads second.route) :=
  reordered.route.filterMap _

theorem needs (reordered : first.Reordered second) {name : String}
    (needed : second.Needs lookup name) : first.Needs lookup name := by
  apply Reached.of_roots _ needed
  intro root member
  rw [← OperationDraft.spreads_route] at member ⊢
  exact (reordered.spreads.map Prod.fst).mem_iff.mpr member

theorem spreadAt (reordered : first.Reordered second) {entry : String × Site}
    (spread : second.SpreadAt lookup entry) : first.SpreadAt lookup entry :=
  Reached.of_roots (fun _ member => reordered.spreads.mem_iff.mpr member) spread

end Operation.Reordered

section

variable {declared : List Fragment} {first second : Operation}

theorem Acceptable.admittedAt (acceptable : Acceptable declared first) {name : String}
    (needed : first.Needs (Fragment.named? declared) name) :
    ∃ site, first.SpreadAt (Fragment.named? declared) (name, site) ∧
      AdmittedAt (Fragment.named? declared) (name, site) := by
  obtain ⟨order, sites⟩ := first.exists_firstSites acceptable.registered acceptable.acyclic
  obtain ⟨entry, member, rfl⟩ := List.mem_map.mp ((sites.mem_names_iff name).mpr needed)
  refine ⟨entry.2, (PostOrder.reached sites entry member).resolve_left (List.not_mem_nil), ?_⟩
  exact fun site key field there => acceptable.admitted site key field (.within sites member there)

theorem Acceptable.admittedAt_of_uniform (acceptable : Acceptable declared first)
    (uniform : first.Uniform (Fragment.named? declared)) {entry : String × Site}
    (spread : first.SpreadAt (Fragment.named? declared) entry) :
    AdmittedAt (Fragment.named? declared) entry := by
  obtain ⟨site, reached, admitted⟩ := acceptable.admittedAt spread.needs
  exact uniform entry.1 site entry.2 reached spread admitted

theorem Acceptable.of_reordered (acceptable : Acceptable declared first)
    (reordered : first.Reordered second) (uniform : first.Uniform (Fragment.named? declared)) :
    Acceptable declared second where
  unmarked := by
    rw [reordered.inputs]
    exact acceptable.unmarked
  independent := by
    rw [reordered.inputs]
    exact acceptable.independent
  registered name needed := acceptable.registered name (reordered.needs needed)
  filled name fragment needed := acceptable.filled name fragment (reordered.needs needed)
  acyclic name needed := acceptable.acyclic name (reordered.needs needed)
  directives := by
    rw [reordered.inputs, reordered.directives]
    exact acceptable.directives
  values := by
    have same : (DeclaredField.allValues first.fields.entries).Perm
        (DeclaredField.allValues second.fields.entries) := by
      rw [DeclaredField.allValues_eq_flatMap, DeclaredField.allValues_eq_flatMap]
      exact reordered.fields.flatMap_right _
    rw [reordered.inputs]
    exact fun value member => acceptable.values value (same.mem_iff.mpr member)
  fragmentValues := by
    rw [reordered.inputs]
    exact fun name fragment needed =>
      acceptable.fragmentValues name fragment (reordered.needs needed)
  admitted site key field visited := by
    cases visited with
    | root member =>
        exact acceptable.admitted site key field (.root (reordered.route.mem_iff.mpr member))
    | @within order entry sites entered member =>
        -- the first operation may enter the fragment at another site
        have spread : second.SpreadAt (Fragment.named? declared) entry :=
          (PostOrder.reached sites entry entered).resolve_left List.not_mem_nil
        exact acceptable.admittedAt_of_uniform uniform (reordered.spreadAt spread) site key field
          member

theorem OperationDraft.Uniform.of_reordered {lookup : String → Option Fragment}
    (uniform : first.Uniform lookup) (reordered : first.Reordered second) :
    second.Uniform lookup :=
  fun name site other reached spread =>
    uniform name site other (reordered.spreadAt reached) (reordered.spreadAt spread)

theorem acceptable_of_assembleOne {result : AssembledRequest}
    (assembled : assembleOne declared first = .ok result) :
    (∃ base, Assembly.introduceFragments declared (Assembly.new first.effectiveName) =
      .ok () base) ∧ Acceptable declared first := by
  cases registered : Assembly.introduceFragments declared (Assembly.new first.effectiveName) with
  | error cause after =>
      rw [assembleOne, bind_run, registered] at assembled
      cases assembled
  | ok _ base =>
      exact ⟨⟨base, rfl⟩, (assembleOne_ok_iff_acceptable registered).mp ⟨result, assembled⟩⟩

theorem assembleOne_of_reordered {result : AssembledRequest}
    (assembled : assembleOne declared first = .ok result) (reordered : first.Reordered second)
    (uniform : first.Uniform (Fragment.named? declared)) :
    ∃ other, assembleOne declared second = .ok other := by
  obtain ⟨⟨base, registered⟩, acceptable⟩ := acceptable_of_assembleOne assembled
  rw [← reordered.effectiveName] at registered
  exact (assembleOne_ok_iff_acceptable registered).mpr
    (acceptable.of_reordered reordered uniform)

end

/-- Where fragments are uniform, the order of the root fields does not decide whether a request can
be assembled, and a fragment that is not admitted at one of its sites prevents it in every order. -/
theorem assemble_reordered_iff {parts others : List Part} {first second : Operation}
    (single : Part.operations parts = [first]) (alone : Part.operations others = [second])
    (shared : Part.fragments others = Part.fragments parts) (reordered : first.Reordered second)
    (uniform : first.Uniform (Fragment.named? (Part.fragments parts))) :
    ((∃ results, assemble parts = .ok results) ↔ ∃ results, assemble others = .ok results) ∧
      ∀ entry, first.SpreadAt (Fragment.named? (Part.fragments parts)) entry →
        ¬AdmittedAt (Fragment.named? (Part.fragments parts)) entry →
        ∀ results, assemble others ≠ .ok results := by
  rw [assemble_single single, assemble_single alone, shared]
  refine ⟨⟨?_, ?_⟩, ?_⟩
  · rintro ⟨result, assembled⟩
    exact assembleOne_of_reordered assembled reordered uniform
  · rintro ⟨result, assembled⟩
    exact assembleOne_of_reordered assembled reordered.symm (uniform.of_reordered reordered)
  · intro entry spread refused results assembled
    obtain ⟨result, assembled⟩ := (assemble_single alone).mp ⟨results, assembled⟩
    rw [shared] at assembled
    exact refused ((acceptable_of_assembleOne assembled).2.admittedAt_of_uniform
      (uniform.of_reordered reordered) (reordered.symm.spreadAt spread))

/-- A record passes on no local type. -/
def viewerField : String × DeclaredField :=
  ("viewer", .mk { spreads := ["Owner"] } [])

/-- A list passes on its local type. -/
def postsField : String × DeclaredField :=
  ("posts", .mk { localType := some "Post", spreads := ["Owner"], flags.list := true } [])

def viewerFirst : Operation where
  type := .query
  fields := ⟨[viewerField, postsField], by decide⟩
  nonempty := by decide
  single := by decide

def postsFirst : Operation where
  type := .query
  fields := ⟨[postsField, viewerField], by decide⟩
  nonempty := by decide
  single := by decide

theorem viewerFirst_reordered : viewerFirst.Reordered postsFirst where
  fields := List.Perm.swap postsField viewerField []
  others := rfl

def namedOwner : Fragment where
  name := "Owner"
  typeCondition := "Entity"
  fields := ⟨[("name", .mk {} [])], by decide⟩

theorem namedOwner_admittedAt (entry : String × Site) :
    AdmittedAt (Fragment.named? [namedOwner]) entry := by
  intro site key field member
  rw [routeAt, Fragment.named?, List.find?_singleton] at member
  split at member
  · rcases List.mem_singleton.mp member with ⟨rfl, rfl, rfl⟩
    have scalar : DeclaredField.shapeAt (.mk {} []) entry.2 "name" = .scalar := by
      have plain : Text.mentions "name" "Node" = false ∧ Text.mentions "name" "node" = false := by
        decide
      simp [DeclaredField.shapeAt, DeclaredField.attributes, DeclaredField.fields,
        FieldAttributes.evidence, ShapeEvidence.shape, ShapeEvidence.mentionsNode,
        ShapeEvidence.hasContent, plain]
    refine ⟨fun needed => ?_, fun shaped => ?_⟩
    · rw [scalar] at needed
      cases needed
    · rw [scalar] at shaped
      cases shaped
  · cases member

theorem assemble_viewerFirst_iff_postsFirst :
    Part.operations [.fragment namedOwner, .operation viewerFirst] = [viewerFirst] ∧
    viewerFirst.Reordered postsFirst ∧
    viewerFirst.Uniform (Fragment.named? [namedOwner]) ∧
    ((∃ results, assemble [.fragment namedOwner, .operation viewerFirst] = .ok results) ↔
      ∃ results, assemble [.fragment namedOwner, .operation postsFirst] = .ok results) := by
  have uniform : viewerFirst.Uniform (Fragment.named? [namedOwner]) :=
    fun name _ other _ _ _ => namedOwner_admittedAt (name, other)
  have unordered := @assemble_reordered_iff [.fragment namedOwner, .operation viewerFirst]
    [.fragment namedOwner, .operation postsFirst] _ _ rfl rfl rfl viewerFirst_reordered uniform
  exact ⟨rfl, viewerFirst_reordered, uniform, unordered.1⟩

def userOwner : Fragment where
  name := "Owner"
  typeCondition := "Entity"
  fields := ⟨[("node", .mk { localType := some "User", scalars := some ["id"] } [])], by decide⟩

/-- The order of root fields does decide if a fragment is admitted at some of its sites only. -/
theorem assemble_viewerFirst_not_postsFirst :
    viewerFirst.Reordered postsFirst ∧
    (∃ results, assemble [.fragment userOwner, .operation viewerFirst] = .ok results) ∧
    assemble [.fragment userOwner, .operation postsFirst] =
      .error (.conflictingTypes "posts.#.node" "User" "Post") := by
  have refused : (match assemble [.fragment userOwner, .operation postsFirst] with
      | .ok _ => none
      | .error cause => some cause) = some (.conflictingTypes "posts.#.node" "User" "Post") := by
    decide +kernel
  refine ⟨viewerFirst_reordered, exists_of_isOk (by decide +kernel), ?_⟩
  cases ran : assemble [.fragment userOwner, .operation postsFirst] with
  | ok results =>
      rw [ran] at refused
      cases refused
  | error cause =>
      rw [ran] at refused
      rw [Option.some.inj refused]

end GraphRequest
