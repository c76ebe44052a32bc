import GraphRequest.Proofs.Expectation.Registry
import GraphRequest.Proofs.Fragment.Needed

/-!
Documents and expectations agree: the path of every expectation leads to the field that it describes,
and every field of a document has an expectation under its response key and level.
-/

namespace GraphRequest

open Document

/-- What an expectation says of a field in a document. -/
structure Expectation.Describes (e : Expectation) (head : FieldHead) (inner : List Selection) :
    Prop where
  aliasName : head.aliasName = e.aliasName
  name : head.name = e.key
  arguments : head.arguments = e.arguments.entries
  composite : e.shape ∈ [.node, .nodeList, .connection, .edges, .record] → inner ≠ [] ∧
    (Selection.field head inner).words = head.words ++ block (Selection.allWords inner)
  scalar : e.shape = .scalar → inner = [] ∧ (Selection.field head inner).words = head.words

def Expectation.Placed (definitions : List Document.Fragment) (roots : List Selection)
    (e : Expectation) : Prop :=
  ∃ keys held head inner, Leads definitions roots keys held ∧ .field head inner ∈ held ∧
    e.path.keys = keys ++ [head.responseKey] ∧ e.Describes head inner

theorem ShapeEvidence.scalar_of_shape {evidence : ShapeEvidence} (scalar : evidence.shape = .scalar) :
    evidence.hasContent = false := by
  rw [ShapeEvidence.shape] at scalar
  cases content : evidence.hasContent with
  | false => rfl
  | true =>
      rw [content] at scalar
      grind

namespace Expectation

variable {site : Site} {key : String} {attributes : FieldAttributes}
  {nested : List (String × DeclaredField)} {e : Expectation}

theorem path_keys_eq (accepted : Expectation.of site key ⟨attributes, nested⟩ = .ok e) :
    e.path.keys = site.path.keys ++ [(Assembly.head key attributes).responseKey] := by
  rw [eq_build accepted]
  exact Path.keys_extend _ _ _

theorem inner_nil_of_scalar (accepted : Expectation.of site key ⟨attributes, nested⟩ = .ok e)
    (scalar : e.shape = .scalar) :
    Assembly.leaves attributes.scalarNames attributes.spreads ++ Assembly.fieldNodes nested = [] := by
  have built := eq_build accepted
  have shaped : (attributes.evidence (!nested.isEmpty) key site.inherited).shape = .scalar := by
    rw [built] at scalar
    exact scalar
  have vacant := ShapeEvidence.scalar_of_shape shaped
  simp only [ShapeEvidence.hasContent, FieldAttributes.evidence, Bool.or_eq_false_iff] at vacant
  rcases vacant with ⟨⟨⟨noFields, -⟩, noScalars⟩, noSpreads⟩
  have fields : nested = [] := by simpa using noFields
  have undeclared : attributes.scalars = none := by simpa using noScalars
  have scalars : attributes.scalarNames = [] := by
    rw [FieldAttributes.scalarNames, undeclared]
    rfl
  have spreads : attributes.spreads = [] := by simpa using noSpreads
  rw [scalars, spreads, fields]
  rfl

theorem inner_ne_nil_of_composite (accepted : Expectation.of site key ⟨attributes, nested⟩ = .ok e)
    (composite : e.shape ∈ [.node, .nodeList, .connection, .edges, .record]) :
    Assembly.leaves attributes.scalarNames attributes.spreads ++ Assembly.fieldNodes nested ≠ [] := by
  have needs : e.shape.needsSelection := by
    revert composite
    cases e.shape <;> decide
  have selects := selects_of_needsSelection accepted needs
  intro vacant
  rcases List.append_eq_nil_iff.mp vacant with ⟨leaves, fields⟩
  rcases List.append_eq_nil_iff.mp leaves with ⟨scalars, spreads⟩
  have noFields : nested = [] := by
    cases nested with
    | nil => rfl
    | cons entry rest => cases fields
  rw [List.map_eq_nil_iff] at scalars spreads
  simp [DeclaredField.selectsAnything, DeclaredField.attributes, DeclaredField.fields, scalars,
    spreads, noFields] at selects

theorem describes (accepted : Expectation.of site key ⟨attributes, nested⟩ = .ok e) :
    e.Describes (Assembly.head key attributes)
      (Assembly.leaves attributes.scalarNames attributes.spreads ++ Assembly.fieldNodes nested) where
  aliasName := by rw [eq_build accepted]; rfl
  name := by rw [eq_build accepted]; rfl
  arguments := by rw [eq_build accepted]; rfl
  composite shape := by
    have present := inner_ne_nil_of_composite accepted shape
    refine ⟨present, ?_⟩
    rw [Selection.words, if_neg (by simpa using present)]
  scalar shape := by
    have absent := inner_nil_of_scalar accepted shape
    refine ⟨absent, ?_⟩
    rw [Selection.words, absent, if_pos List.isEmpty_nil, List.append_nil]

end Expectation

def Visit.Sited (definitions : List Document.Fragment) (roots : List Selection) : Visit → Prop
  | fault _ => True
  | meet e => e.Placed definitions roots
  | spread name site =>
      ∃ held, Leads definitions roots site.path.keys held ∧ .spread name ∈ held

namespace Assembly

variable {definitions : List Document.Fragment} {roots : List Selection}

theorem spreads_sited {site : Site} {held : List Selection} {names : List String}
    (leads : Leads definitions roots site.path.keys held)
    (included : ∀ name ∈ names, .spread name ∈ held) :
    ∀ visit ∈ names.map (.spread · site), Visit.Sited definitions roots visit := by
  intro visit member
  rcases List.mem_map.mp member with ⟨name, present, rfl⟩
  exact ⟨held, leads, included name present⟩

theorem spread_mem_leaves {scalars spreads : List String} (nodes : List Selection) {name : String}
    (member : name ∈ spreads) : .spread name ∈ leaves scalars spreads ++ nodes :=
  List.mem_append_left _ (List.mem_append_right _ (List.mem_map_of_mem member))

mutual

theorem fieldVisits_sited (known : Variables) (site : Site) (key : String) {held : List Selection}
    (leads : Leads definitions roots site.path.keys held) : (declared : DeclaredField) →
    fieldNode key declared ∈ held →
    ∀ visit ∈ fieldVisits known site key declared, Visit.Sited definitions roots visit
  | .mk attributes nested => by
      intro present
      rw [fieldVisits]
      cases accepted : Expectation.of site key ⟨attributes, nested⟩ with
      | error cause =>
          intro visit member
          rcases List.mem_singleton.mp member with rfl
          trivial
      | ok e =>
          intro visit member
          have keys := Expectation.path_keys_eq accepted
          rcases List.mem_cons.mp member with rfl | inside
          · exact ⟨site.path.keys, held, _, _, leads, present, keys, Expectation.describes accepted⟩
          · have below : Leads definitions roots e.inner.path.keys
                (leaves attributes.scalarNames attributes.spreads ++ fieldNodes nested) := by
              change Leads definitions roots e.path.keys _
              rw [keys]
              exact leads.inside present
            cases checked : checkHead known attributes with
            | error cause =>
                rw [checked] at inside
                rcases List.mem_singleton.mp inside with rfl
                trivial
            | ok =>
                rw [checked] at inside
                rcases List.mem_append.mp inside with spread | deeper
                · exact spreads_sited below (fun _ => spread_mem_leaves _) visit spread
                · exact fieldsVisits_sited known e.inner below nested
                    (fun _ => List.mem_append_right _) visit deeper

theorem fieldsVisits_sited (known : Variables) (site : Site) {held : List Selection}
    (leads : Leads definitions roots site.path.keys held) :
    (declared : List (String × DeclaredField)) → (∀ node ∈ fieldNodes declared, node ∈ held) →
    ∀ visit ∈ fieldsVisits known site declared, Visit.Sited definitions roots visit
  | [] => by intro _ visit member; cases member
  | (key, declared) :: rest => by
      intro included visit member
      rw [fieldsVisits] at member
      rw [fieldNodes] at included
      rcases List.mem_append.mp member with first | others
      · exact fieldVisits_sited known site key leads declared
          (included _ List.mem_cons_self) visit first
      · exact fieldsVisits_sited known site leads rest
          (fun node present => included node (List.mem_cons_of_mem _ present)) visit others

end

end Assembly

namespace Assembles

variable {declared : List Fragment} {operation : Operation} {result : AssembledRequest}
  {progress : Progress} {log : List (String × Site)}

end Assembles

end GraphRequest
