import GraphRequest.Expectation

/-!
What is known of a field that is accepted at a site.
-/

namespace GraphRequest

def DeclaredField.shapeAt (field : DeclaredField) (site : Site) (key : String) : Shape :=
  (field.attributes.evidence (!field.fields.isEmpty) key site.inherited).shape

namespace Expectation

variable {site : Site} {key : String} {field : DeclaredField} {e : Expectation}

theorem of_eq_ok (accepted : Expectation.of site key field = .ok e) :
    e = build site key field.attributes (field.shapeAt site key) ∧
      ((field.shapeAt site key).needsSelection → field.selectsAnything) := by
  rw [Expectation.of] at accepted
  split at accepted
  · cases accepted
  · split at accepted
    · cases accepted
    · next demanded =>
        refine ⟨(Except.ok.inj accepted).symm, fun needs => ?_⟩
        have needed : (field.attributes.evidence (!field.fields.isEmpty) key
            site.inherited).shape.needsSelection = true := needs
        simpa [needed] using demanded

theorem eq_build (accepted : Expectation.of site key field = .ok e) :
    e = build site key field.attributes (field.shapeAt site key) :=
  (of_eq_ok accepted).1

theorem level_eq (accepted : Expectation.of site key field = .ok e) : e.level = site.level := by
  rw [eq_build accepted]
  rfl

theorem inner_level_eq (accepted : Expectation.of site key field = .ok e) :
    e.inner.level = site.level + 1 := by
  rw [← level_eq accepted]
  rfl

theorem selects_of_needsSelection (accepted : Expectation.of site key field = .ok e)
    (needs : e.shape.needsSelection) : field.selectsAnything := by
  obtain ⟨rfl, selects⟩ := of_eq_ok accepted
  exact selects needs

end Expectation

end GraphRequest
