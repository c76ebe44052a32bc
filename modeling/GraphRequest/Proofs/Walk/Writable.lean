import GraphRequest.Proofs.Walk.Reference

/-!
Where a walk meets no fault, all values on its way can be written.
-/

namespace GraphRequest

theorem both_eq_ok {first second : Except RequestError Unit} :
    (first >>= fun _ => second) = .ok () ↔ first = .ok () ∧ second = .ok () := by
  cases first <;> simp [bind, Except.bind]

variable {known : Variables}

namespace Value

theorem checkItems_cons {item : Value} {rest : List Value}
    (checked : checkItems known (item :: rest) = .ok ()) :
    check known item = .ok () ∧ checkItems known rest = .ok () :=
  both_eq_ok.mp checked

theorem checkEntries_cons {key : String} {value : Value} {rest : List (String × Value)}
    (checked : checkEntries known ((key, value) :: rest) = .ok ()) :
    check known value = .ok () ∧ checkEntries known rest = .ok () :=
  both_eq_ok.mp checked

end Value

theorem Directive.checkAll_cons {directive : Directive} {rest : List Directive}
    (checked : checkAll known (directive :: rest) = .ok ()) :
    directive.check known = .ok () ∧ checkAll known rest = .ok () :=
  both_eq_ok.mp checked

theorem Assembly.checkHead_eq_ok {attributes : FieldAttributes}
    (checked : checkHead known attributes = .ok ()) :
    Value.checkEntries known attributes.argumentEntries = .ok () ∧
      Directive.checkAll known attributes.directives = .ok () :=
  both_eq_ok.mp checked

namespace DeclaredField

mutual

def Writable (known : Variables) : DeclaredField → Prop
  | mk attributes nested =>
      Assembly.checkHead known attributes = .ok () ∧ AllWritable known nested

def AllWritable (known : Variables) : List (String × DeclaredField) → Prop
  | [] => True
  | (_, declared) :: rest => Writable known declared ∧ AllWritable known rest

end

mutual

theorem writable_of_faultless (site : Site) (key : String) : (declared : DeclaredField) →
    Visit.Faultless (Assembly.fieldVisits known site key declared) → declared.Writable known
  | mk attributes nested => by
      rw [Assembly.fieldVisits]
      cases Expectation.of site key ⟨attributes, nested⟩ with
      | error cause =>
          intro faultless
          exact absurd List.mem_cons_self (faultless cause)
      | ok e =>
          cases checked : Assembly.checkHead known attributes with
          | error cause =>
              intro faultless
              exact absurd (by simp) (faultless cause)
          | ok =>
              intro faultless
              refine ⟨checked, allWritable_of_faultless e.inner nested fun cause member => ?_⟩
              exact faultless cause (List.mem_cons_of_mem _ (List.mem_append_right _ member))

theorem allWritable_of_faultless (site : Site) : (declared : List (String × DeclaredField)) →
    Visit.Faultless (Assembly.fieldsVisits known site declared) → AllWritable known declared
  | [] => fun _ => trivial
  | (key, declared) :: rest => by
      intro faultless
      rw [Assembly.fieldsVisits] at faultless
      exact ⟨writable_of_faultless site key declared faultless.of_append.1,
        allWritable_of_faultless site rest faultless.of_append.2⟩

end

end DeclaredField

theorem Fragment.writable_of_faultless {fragment : Fragment} {site : Site}
    (faultless : Visit.Faultless (fragment.visits known site)) :
    fragment.isEmpty = false ∧ DeclaredField.AllWritable known fragment.fields.entries := by
  rw [visits] at faultless
  split at faultless
  · exact absurd List.mem_cons_self (faultless _)
  · next present =>
      exact ⟨by simpa using present,
        DeclaredField.allWritable_of_faultless site _ faultless.of_append.2⟩

end GraphRequest
