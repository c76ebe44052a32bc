import GraphRequest.Proofs.Declaration.Field

/-!
Why a control entry is refused. It does not hold what its attribute demands, or the fault stands
inside of arguments or directives.
-/

namespace GraphRequest

open Json

section Returned

variable {α β : Type} {result : Except RequestError α} {f : α → β}

theorem exists_bind_pure_eq_ok :
    (∃ b, (do return f (← result)) = .ok b) ↔ ∃ a, result = .ok a := by
  cases result <;> simp [bind, Except.bind, pure, Except.pure]

theorem bind_pure_eq_error {cause : RequestError} :
    (do return f (← result)) = .error cause ↔ result = .error cause := by
  cases result <;> simp [bind, Except.bind, pure, Except.pure]

end Returned

namespace AttributeRule

def Admits : AttributeRule → Json → Prop
  | string, json => ∃ text, json.IsString text
  | boolean, json => ∃ value, json.IsBoolean value
  | object, json => ∃ entries, json = .object entries
  | present, _ => True
  | soleEntry, json => ∃ tag name, json = .object [(tag, .string name)]

end AttributeRule

namespace FieldControl

def rule? : FieldControl → Option AttributeRule
  | aliasName | localType => some .string
  | connection | edges | list | node => some .boolean
  | args | params => some .object
  | directives | fragments | scalars => none

def Holds : FieldControl → Json → Prop
  | aliasName, json | localType, json => ∃ text, json.IsString text
  | connection, json | edges, json | list, json | node, json => ∃ value, json.IsBoolean value
  | args, json | params, json => ∃ map, json.IsArguments map
  | directives, json => ∃ directives, json.IsDirectiveList directives
  | fragments, json | scalars, json => ∃ texts, json.IsStringList texts

theorem exists_apply_iff (control : FieldControl) (path : String) (json : Json)
    (attributes : FieldAttributes) :
    (∃ applied, control.apply path json attributes = .ok applied) ↔ control.Holds json := by
  cases control <;>
    simp only [apply, Holds, exists_bind_pure_eq_ok, Attribute.string_eq_ok_iff,
      Attribute.boolean_eq_ok_iff, Attribute.stringList_eq_ok_iff, Attribute.arguments_eq_ok_iff,
      Directive.listOfJson_eq_ok_iff]

end FieldControl

namespace RequestError

/-- Whether the cause is one of those for which arguments and directives are refused, besides that
they are no objects at all. -/
def isInner : RequestError → Bool
  | integerOverflow _ _ | badDirective _ _ => true
  | badAttribute key _ _ => key = Value.referenceTag || key = Value.enumTag
  | _ => false

end RequestError

def FailsInside {α : Type} (result : Except RequestError α) : Prop :=
  ∀ cause, result = .error cause → cause.isInner

namespace FailsInside

variable {α β : Type} {result : Except RequestError α}

theorem ok (a : α) : FailsInside (.ok a) := by
  intro cause failed
  cases failed

theorem error {cause : RequestError} (inner : cause.isInner) :
    FailsInside (.error cause : Except RequestError α) := by
  intro other failed
  cases failed
  exact inner

theorem bind (first : FailsInside result) {next : α → Except RequestError β}
    (others : ∀ a, FailsInside (next a)) : FailsInside (result >>= next) := by
  cases result with
  | ok a => exact others a
  | error cause => exact error (first cause rfl)

theorem map (first : FailsInside result) (f : α → β) : FailsInside (f <$> result) := by
  cases result with
  | ok a => exact ok (f a)
  | error cause => exact error (first cause rfl)

end FailsInside

namespace Value

theorem soleName_failsInside {tag : String} (tagged : tag = referenceTag ∨ tag = enumTag)
    (path : String) (entries : List (String × Json)) : FailsInside (soleName tag path entries) := by
  have inner : (RequestError.badAttribute tag path .soleEntry).isInner := by
    simpa [RequestError.isInner] using tagged
  rw [soleName]
  split
  · exact .ok _
  · split
    · exact .ok _
    · exact .error inner
  · exact .error inner

theorem tagged?_failsInside (path : String) (entries : List (String × Json)) :
    FailsInside (tagged? path entries) := by
  apply (soleName_failsInside (.inl rfl) path entries).bind
  intro found
  cases found with
  | some name => exact .ok _
  | none => exact (soleName_failsInside (.inr rfl) path entries).bind fun _ => .ok _

mutual

theorem ofJson_failsInside (path : String) : (json : Json) → FailsInside (ofJson path json)
  | .integer n => by
      rw [ofJson]
      split
      · exact .ok _
      · exact .error rfl
  | .list items => (itemsOfJson_failsInside path items).map _
  | .object entries => by
      apply (tagged?_failsInside path entries).bind
      intro found
      cases found with
      | some value => exact .ok _
      | none => exact (entriesOfJson_failsInside path entries).bind fun _ => .ok _
  | .null | .bool _ | .float _ | .string _ => .ok _

theorem itemsOfJson_failsInside (path : String) : (items : List Json) →
    FailsInside (itemsOfJson path items)
  | [] => .ok _
  | item :: rest => by
      apply (ofJson_failsInside path item).bind
      intro value
      exact (itemsOfJson_failsInside path rest).bind fun _ => .ok _

theorem entriesOfJson_failsInside (path : String) : (entries : List (String × Json)) →
    FailsInside (entriesOfJson path entries)
  | [] => .ok _
  | (key, item) :: rest => by
      apply (ofJson_failsInside (Text.dotted path key) item).bind
      intro value
      exact (entriesOfJson_failsInside path rest).bind fun _ => .ok _

end

end Value

namespace Directive

theorem argumentsOfJson_failsInside (path name : String) (entries : List (String × Json))
    (directive : Directive) : FailsInside (argumentsOfJson path name entries directive) := by
  induction entries generalizing directive with
  | nil => exact .ok _
  | cons entry rest ih => exact (Value.ofJson_failsInside _ _).bind fun _ => ih _

theorem entriesOfJson_failsInside (path : String) (entries : List (String × Json))
    (directive : Directive) : FailsInside (entriesOfJson path entries directive) := by
  induction entries generalizing directive with
  | nil => exact .ok _
  | cons entry rest ih =>
      rw [entriesOfJson.eq_def]
      dsimp only
      split
      · exact ih _
      · split
        · split
          · exact (argumentsOfJson_failsInside path _ _ _).bind fun _ => ih _
          · exact .error rfl
        · exact .error rfl

theorem ofJson_failsInside (path : String) (json : Json) : FailsInside (ofJson path json) := by
  rw [ofJson.eq_def]
  split
  · split
    · exact entriesOfJson_failsInside path _ _
    · exact .error rfl
  · exact .error rfl

theorem allOfJson_failsInside (path : String) (items : List Json) :
    FailsInside (allOfJson path items) := by
  induction items with
  | nil => exact .ok _
  | cons item rest ih =>
      apply (ofJson_failsInside path item).bind
      intro directive
      exact ih.bind fun _ => .ok _

theorem listOfJson_failsInside (path : String) (json : Json) :
    FailsInside (listOfJson path json) := by
  cases json with
  | list items => exact allOfJson_failsInside path items
  | _ => exact .error rfl

end Directive

/-- Why an entry with a control key is refused, where the declaration stands at `path`. -/
inductive ControlFault (path : String) : FieldControl → Json → RequestError → Prop
  | rule {control : FieldControl} {rule : AttributeRule} {held : Json}
      (demanded : control.rule? = some rule) (broken : ¬rule.Admits held) :
      ControlFault path control held (.badAttribute control.key path rule)
  | list {control : FieldControl} {held : Json}
      (listed : control = .fragments ∨ control = .scalars)
      (broken : ∀ texts, ¬held.IsStringList texts) :
      ControlFault path control held (.badList control.key path)
  | inner {control : FieldControl} {held : Json} {cause : RequestError} (inner : cause.isInner) :
      ControlFault path control held cause

namespace Attribute

variable {key path : String} {json : Json} {cause : RequestError}

theorem string_eq_error (failed : string key path json = .error cause) :
    cause = .badAttribute key path .string ∧ ¬AttributeRule.string.Admits json := by
  cases json <;> simp_all [string, AttributeRule.Admits, IsString, eq_comm]

theorem boolean_eq_error (failed : boolean key path json = .error cause) :
    cause = .badAttribute key path .boolean ∧ ¬AttributeRule.boolean.Admits json := by
  cases json <;> simp_all [boolean, AttributeRule.Admits, IsBoolean, eq_comm]

theorem stringList_eq_error (failed : stringList key path json = .error cause) :
    cause = .badList key path ∧ ∀ texts, ¬json.IsStringList texts := by
  have refused : ∀ texts, ¬json.IsStringList texts := by
    intro texts listed
    rw [stringList_eq_ok_iff.mpr listed] at failed
    cases failed
  refine ⟨?_, refused⟩
  cases json with
  | list items =>
      rw [stringList] at failed
      split at failed
      · cases failed
      · cases failed
        rfl
  | _ =>
      cases failed
      rfl

theorem arguments_eq_error (failed : arguments key path json = .error cause) :
    cause = .badAttribute key path .object ∧ ¬AttributeRule.object.Admits json ∨ cause.isInner := by
  cases json with
  | object entries =>
      exact .inr ((Value.entriesOfJson_failsInside path entries).map OrderedMap.ofList cause failed)
  | _ =>
      cases failed
      simp [AttributeRule.Admits]

end Attribute

theorem FieldControl.fault_of_apply {control : FieldControl} {path : String} {json : Json}
    {attributes : FieldAttributes} {cause : RequestError}
    (failed : control.apply path json attributes = .error cause) :
    ControlFault path control json cause := by
  cases control <;> simp only [apply, bind_pure_eq_error] at failed
  case aliasName | localType =>
    obtain ⟨rfl, broken⟩ := Attribute.string_eq_error failed
    exact .rule rfl broken
  case connection | edges | list | node =>
    obtain ⟨rfl, broken⟩ := Attribute.boolean_eq_error failed
    exact .rule rfl broken
  case fragments =>
    obtain ⟨rfl, broken⟩ := Attribute.stringList_eq_error failed
    exact .list (.inl rfl) broken
  case scalars =>
    obtain ⟨rfl, broken⟩ := Attribute.stringList_eq_error failed
    exact .list (.inr rfl) broken
  case args | params =>
    rcases Attribute.arguments_eq_error failed with ⟨rfl, broken⟩ | inner
    · exact .rule rfl broken
    · exact .inner inner
  case directives => exact .inner (Directive.listOfJson_failsInside path json cause failed)

end GraphRequest
