import GraphRequest.Proofs.Expectation.Registered
import GraphRequest.Proofs.Walk.Lineage

/-!
The local types of fields. A field inherits the local type of the innermost field around it that
declares one, if that field and all fields between pass it on.
-/

namespace GraphRequest

namespace PlacedField

def ownType (placed : PlacedField) : Option String :=
  placed.declared.attributes.localType

def shape (placed : PlacedField) : Shape :=
  placed.expectation.shape

def PassesOn (placed : PlacedField) : Prop :=
  placed.shape ∈ [.connection, .edges, .nodeList]

/-- A call hands the local type down to what is inside of the fields `outer`: the innermost of them
that declares a local type declares this one, or none of them does and the call brought it along. From
there on all of them pass it on. -/
def HandsDown (enforced : Option String) (outer : List PlacedField) (localType : String) : Prop :=
  (∃ front source between, outer = front ++ source :: between ∧ source.ownType = some localType ∧
    (∀ field ∈ source :: between, field.PassesOn) ∧ ∀ field ∈ between, field.ownType = none) ∨
  ((∀ field ∈ outer, field.ownType = none ∧ field.PassesOn) ∧ enforced = some localType)

/-- What a field inherits inside of `outer`, and what is expected of it. -/
structure LocalTypes (enforced : Option String) (outer : List PlacedField) (placed : PlacedField) :
    Prop where
  inherits : ∀ localType, placed.site.inherited = some localType ↔ HandsDown enforced outer localType
  expects : placed.expectation.localType =
    if placed.shape ∈ [.connection, .edges, .node, .nodeList] then
      placed.ownType.or placed.site.inherited
    else none

theorem expectation_localType (placed : PlacedField) :
    placed.expectation.localType =
      if placed.shape ∈ [.connection, .edges, .node, .nodeList] then
        placed.ownType.or placed.site.inherited
      else none := by
  change (if placed.shape.keepsLocalType then placed.ownType.or placed.site.inherited else none) = _
  cases placed.shape <;> rfl

/-- One step down: what a field passes on is its own local type, or else the one that it inherits. -/
theorem inner_inherited_iff (placed : PlacedField) (localType : String) :
    placed.inner.inherited = some localType ↔
      placed.PassesOn ∧ (placed.ownType = some localType ∨
        placed.ownType = none ∧ placed.site.inherited = some localType) := by
  change (if placed.shape.passesLocalType then
    (if placed.shape.keepsLocalType then placed.ownType.or placed.site.inherited else none)
    else none) = some localType ↔ _
  rw [PassesOn]
  cases placed.shape <;> simp [Shape.passesLocalType, Shape.keepsLocalType, Option.or_eq_some_iff]

theorem handsDown_nil (enforced : Option String) (localType : String) :
    HandsDown enforced [] localType ↔ enforced = some localType := by
  simp [HandsDown]

theorem handsDown_snoc (enforced : Option String) (outer : List PlacedField) (placed : PlacedField)
    (localType : String) :
    HandsDown enforced (outer ++ [placed]) localType ↔
      placed.PassesOn ∧ (placed.ownType = some localType ∨
        placed.ownType = none ∧ HandsDown enforced outer localType) := by
  constructor
  · rintro (⟨front, source, between, split, declares, passes, silent⟩ | ⟨silent, brought⟩)
    · rcases List.eq_nil_or_concat between with rfl | ⟨shorter, last, rfl⟩
      · obtain ⟨-, same⟩ := List.append_inj' split rfl
        cases same
        exact ⟨passes _ List.mem_cons_self, .inl declares⟩
      · rw [List.concat_eq_append, ← List.cons_append, ← List.append_assoc] at split
        obtain ⟨rfl, same⟩ := List.append_inj' split rfl
        cases same
        rw [List.concat_eq_append] at passes silent
        rw [← List.cons_append, List.forall_mem_append] at passes
        rw [List.forall_mem_append] at silent
        exact ⟨passes.2 _ List.mem_cons_self, .inr ⟨silent.2 _ List.mem_cons_self,
          .inl ⟨front, source, shorter, rfl, declares, passes.1, silent.1⟩⟩⟩
    · rw [List.forall_mem_append, List.forall_mem_singleton] at silent
      exact ⟨silent.2.2, .inr ⟨silent.2.1, .inr ⟨silent.1, brought⟩⟩⟩
  · rintro ⟨passes, declares | ⟨none, ⟨front, source, between, rfl, declares, passing, silent⟩ |
      ⟨silent, brought⟩⟩⟩
    · refine .inl ⟨outer, placed, [], rfl, declares, ?_, List.forall_mem_nil _⟩
      exact List.forall_mem_singleton.mpr passes
    · refine .inl ⟨front, source, between ++ [placed], ?_, declares, ?_, ?_⟩
      · rw [List.append_assoc, List.cons_append]
      · rw [← List.cons_append, List.forall_mem_append, List.forall_mem_singleton]
        exact ⟨passing, passes⟩
      · rw [List.forall_mem_append, List.forall_mem_singleton]
        exact ⟨silent, none⟩
    · refine .inr ⟨?_, brought⟩
      rw [List.forall_mem_append, List.forall_mem_singleton]
      exact ⟨silent, none, passes⟩

end PlacedField

def Site.InheritsFrom (enforced : Option String) (outer : List PlacedField) (site : Site) : Prop :=
  ∀ localType, site.inherited = some localType ↔ PlacedField.HandsDown enforced outer localType

theorem Site.inheritsFrom_handedDown (enforced : Option String) :
    HandedDown (Site.InheritsFrom enforced) := by
  intro outer placed inherits localType
  rw [PlacedField.handsDown_snoc, PlacedField.inner_inherited_iff, inherits localType]

/-- The local types of all fields that a call comes to: what they inherit, and what is expected of
them. Those that the call registers come first among them, also if the call fails. -/
theorem SelectionCall.localTypes (call : SelectionCall) (assembly : Assembly) :
    (∀ entry ∈ call.lineal assembly, entry.2.LocalTypes call.site.inherited entry.1) ∧
      ∃ fields, call.Registers assembly fields ∧
        call.preorder assembly = (call.lineal assembly).map Prod.snd := by
  obtain ⟨fields, registers⟩ := call.exists_registers assembly
  refine ⟨fun entry member => ?_, fields, registers, (call.lineal_preorder assembly).symm⟩
  have start : Site.InheritsFrom call.site.inherited [] call.site := fun localType =>
    (PlacedField.handsDown_nil _ localType).symm
  exact ⟨call.lineal_induct (Site.inheritsFrom_handedDown _) start assembly entry member,
    entry.2.expectation_localType⟩

def innerFragment : Fragment where
  name := "Inner"
  typeCondition := "UserEdge"
  fields := ⟨[("node", .mk { scalars := some ["id"] } [])], by decide⟩

def edgeAssembly : Assembly :=
  (Call.fragment { name := "Edge", typeCondition := "UserEdge", includes := ["Inner"] }).after
    ((Call.fragment innerFragment).after (.new "Query"))

def usersField : PlacedField where
  site := Site.root
  key := "users"
  declared := .mk { localType := some "User", flags.connection := true }
    [("edges", .mk { spreads := ["Edge"] } []),
      ("node", .mk { localType := some "Post", scalars := some ["id"] } [])]

def userEdgesField : PlacedField where
  site := usersField.inner
  key := "edges"
  declared := .mk { spreads := ["Edge"] } []

def userNodeField : PlacedField where
  site := userEdgesField.inner
  key := "node"
  declared := .mk { scalars := some ["id"] } []

def usersCall : SelectionCall :=
  .field usersField.key usersField.declared usersField.site

theorem usersCall_localTypes :
    failure? (usersCall.run edgeAssembly) =
      some (.conflictingTypes "users.node" "Post" "User") ∧
    (finalState (usersCall.run edgeAssembly)).expectations.values.map
        (fun e => (e.path.text, e.localType)) =
      [("users", some "User"), ("users.edges.#", some "User"),
        ("users.edges.#.node", some "User")] ∧
    ([usersField, userEdgesField], userNodeField) ∈ usersCall.lineal edgeAssembly ∧
    userNodeField.LocalTypes none [usersField, userEdgesField] := by
  have member : ([usersField, userEdgesField], userNodeField) ∈ usersCall.lineal edgeAssembly := by
    have edge : edgeAssembly.fragments.get? "Edge" =
        some { name := "Edge", typeCondition := "UserEdge", includes := ["Inner"] } := rfl
    have inner : edgeAssembly.fragments.get? "Inner" = some innerFragment := rfl
    obtain ⟨rest, route⟩ : ∃ rest, usersCall.lineage =
        ([], .field usersField.site usersField.key usersField.declared) ::
        ([usersField], .field userEdgesField.site userEdgesField.key userEdgesField.declared) ::
        ([usersField, userEdgesField], .spread "Edge" userEdgesField.inner) :: rest := ⟨_, rfl⟩
    rw [SelectionCall.lineal, route, Waypoint.lineal, Waypoint.lineal,
      Waypoint.lineal_first (by decide) edge]
    apply List.mem_cons_of_mem
    apply List.mem_cons_of_mem
    change _ ∈ Waypoint.lineal _ _
      (([usersField, userEdgesField], .spread "Inner" userEdgesField.inner) :: rest)
    rw [Waypoint.lineal_first (by decide) inner]
    change _ ∈ Waypoint.lineal _ _
      (([usersField, userEdgesField], .field userNodeField.site userNodeField.key
        userNodeField.declared) :: rest)
    rw [Waypoint.lineal]
    exact List.mem_cons_self
  exact ⟨by decide +kernel, by decide +kernel, member,
    (usersCall.localTypes edgeAssembly).1 _ member⟩

end GraphRequest
