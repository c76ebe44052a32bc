import GraphRequest.Proofs.Declaration.Refusal
import GraphRequest.Proofs.Entries

/-!
Where the loading of a field stops. The fault stands where its path leads to, it is a real one, and
all that is read before it is well formed.
-/

namespace GraphRequest

open Json

/-- The keys on a path, from the root on. The root itself has no path. -/
def Text.keysOf (path : String) : List String :=
  if path = "" then [] else (path.toList.splitOn '.').map String.ofList

/-- A key that can be told from a path: it takes some room, and no dot stands in it. -/
def Text.isPlainKey (key : String) : Bool :=
  key ≠ "" && '.' ∉ key.toList

theorem Text.keysOf_dotted {path key : String} (plain : isPlainKey key) :
    keysOf (dotted path key) = keysOf path ++ [key] := by
  obtain ⟨present, undotted⟩ : key ≠ "" ∧ '.' ∉ key.toList := by simpa [isPlainKey] using plain
  by_cases root : path = ""
  · simp [keysOf, dotted, root, present, List.splitOn_eq_singleton undotted]
  · have behind : path ++ "." ++ key ≠ "" := by simp [root]
    have split : (path ++ "." ++ key).toList.splitOn '.' =
        path.toList.splitOn '.' ++ key.toList.splitOn '.' := by
      rw [String.toList_append, String.toList_append, List.append_assoc]
      change (path.toList ++ '.' :: key.toList).splitOn '.' = _
      exact List.splitOnP_append_cons _ _ (beq_self_eq_true '.')
    rw [dotted, if_neg root, keysOf, if_neg behind, split, keysOf, if_neg root,
      List.splitOn_eq_singleton undotted]
    simp

namespace Json

/-- An entry that may stand in the declaration of a field. A control entry holds what it has to, and
any other one declares a field. -/
inductive WellFormedEntry : String × Json → Prop
  | control {control : FieldControl} {json : Json} (holds : control.Holds json) :
      WellFormedEntry (control.key, json)
  | field {key : String} {json : Json} {field : DeclaredField}
      (unknown : key ∉ FieldAttributes.controlKeys) (named : IsFieldName key)
      (declares : DeclaresField json field) : WellFormedEntry (key, json)

theorem wellFormed_control_iff (control : FieldControl) (json : Json) :
    WellFormedEntry (control.key, json) ↔ control.Holds json := by
  constructor
  · intro wellFormed
    generalize known : control.key = key at wellFormed
    cases wellFormed with
    | @control other _ holds =>
        have same : some control = some other := by
          rw [← control.ofKey?_key, known, other.ofKey?_key]
        cases same
        exact holds
    | field unknown => exact absurd (known ▸ control.key_mem) unknown
  · exact .control

theorem wellFormed_field_iff {key : String} (unknown : key ∉ FieldAttributes.controlKeys)
    (json : Json) :
    WellFormedEntry (key, json) ↔ IsFieldName key ∧ ∃ field, DeclaresField json field := by
  constructor
  · intro wellFormed
    cases wellFormed with
    | control => exact absurd (FieldControl.key_mem _) unknown
    | field _ named declares => exact ⟨named, _, declares⟩
  · rintro ⟨named, field, declares⟩
    exact .field unknown named declares

/-- Reading the declaration of a field comes to the tree that stands under the keys. The entries in
front of each key are well formed. -/
inductive ComesTo : Json → List String → Json → Prop
  | here {json : Json} : ComesTo json [] json
  | inside {front rest : List (String × Json)} {key : String} {held target : Json}
      {keys : List String} (before : ∀ entry ∈ front, WellFormedEntry entry)
      (unknown : key ∉ FieldAttributes.controlKeys) (named : IsFieldName key)
      (further : ComesTo held keys target) :
      ComesTo (.object (front ++ (key, held) :: rest)) (key :: keys) target

/-- What the declaration at `path` is refused for. The entries in front of the fault are well
formed. -/
inductive FaultAt (path : String) : Json → RequestError → Prop
  | notAnObject {json : Json} (scalar : ∀ entries, json ≠ .object entries) :
      FaultAt path json (.notAnObject path)
  | unknown {front rest : List (String × Json)} {key : String} {held : Json}
      (before : ∀ entry ∈ front, WellFormedEntry entry)
      (unknown : key ∉ FieldAttributes.controlKeys) (reserved : ¬IsFieldName key) :
      FaultAt path (.object (front ++ (key, held) :: rest)) (.unknownAttribute key path)
  | control {front rest : List (String × Json)} {control : FieldControl} {held : Json}
      {cause : RequestError} (before : ∀ entry ∈ front, WellFormedEntry entry)
      (fault : ControlFault path control held cause) :
      FaultAt path (.object (front ++ (control.key, held) :: rest)) cause

def placeOf (path : String) (keys : List String) : String :=
  keys.foldl Text.dotted path

def Refused (path : String) (json : Json) (cause : RequestError) : Prop :=
  ∃ keys target, ComesTo json keys target ∧ FaultAt (placeOf path keys) target cause

variable {path : String} {rest : List (String × Json)} {cause : RequestError}

theorem Refused.behind {entry : String × Json} (passed : WellFormedEntry entry)
    (refused : Refused path (.object rest) cause) :
    Refused path (.object (entry :: rest)) cause := by
  obtain ⟨keys, target, comes, fault⟩ := refused
  have more : ∀ front : List (String × Json), (∀ earlier ∈ front, WellFormedEntry earlier) →
      ∀ earlier ∈ entry :: front, WellFormedEntry earlier :=
    fun front before => List.forall_mem_cons.mpr ⟨passed, before⟩
  cases comes with
  | here =>
      refine ⟨[], _, .here, ?_⟩
      cases fault with
      | notAnObject scalar => exact absurd rfl (scalar rest)
      | unknown before unknown reserved => exact .unknown (more _ before) unknown reserved
      | control before fault => exact .control (more _ before) fault
  | inside before unknown named further =>
      exact ⟨_, target, .inside (more _ before) unknown named further, fault⟩

theorem Refused.inside {key : String} {held : Json} (unknown : key ∉ FieldAttributes.controlKeys)
    (named : IsFieldName key) (refused : Refused (Text.dotted path key) held cause) :
    Refused path (.object ((key, held) :: rest)) cause := by
  obtain ⟨keys, target, comes, fault⟩ := refused
  exact ⟨key :: keys, target, .inside (List.forall_mem_nil _) unknown named comes, fault⟩

end Json

namespace DeclaredField

theorem ofEntries_isOk_iff (path : String) (entries : List (String × Json))
    (field : DeclaredField) :
    (∃ final, ofEntries path entries field = .ok final) ↔
      ∀ entry ∈ entries, WellFormedEntry entry := by
  induction entries generalizing field with
  | nil => simp [ofEntries]
  | cons entry rest ih =>
      obtain ⟨key, json⟩ := entry
      rw [List.forall_mem_cons, ofEntries]
      cases found : FieldControl.ofKey? key with
      | some control =>
          obtain rfl := FieldControl.key_of_ofKey? found
          rw [wellFormed_control_iff, ← control.exists_apply_iff path json field.attributes]
          simp only [except_bind_eq_ok]
          constructor
          · rintro ⟨final, applied, passed, read⟩
            exact ⟨⟨applied, passed⟩, (ih _).mp ⟨final, read⟩⟩
          · rintro ⟨⟨applied, passed⟩, others⟩
            obtain ⟨final, read⟩ := (ih ⟨applied, field.fields⟩).mpr others
            exact ⟨final, applied, passed, read⟩
      | none =>
          rw [wellFormed_field_iff (FieldControl.ofKey?_eq_none_iff.mp found)]
          simp only [fieldEntry_eq_ok_iff, ofJson_eq_ok_iff]
          constructor
          · rintro ⟨final, named, inner, declares, read⟩
            exact ⟨⟨named, inner, declares⟩, (ih _).mp ⟨final, read⟩⟩
          · rintro ⟨⟨named, inner, declares⟩, others⟩
            obtain ⟨final, read⟩ := (ih (field.withField key inner)).mpr others
            exact ⟨final, named, inner, declares, read⟩

theorem load_isOk_iff_wellFormed (entries : List (String × Json)) :
    (∃ field, load (.object entries) = .ok field) ↔ ∀ entry ∈ entries, WellFormedEntry entry :=
  ofEntries_isOk_iff "" entries .empty

mutual

/-- A field that is not read has a first fault, and this is the cause that is given. -/
theorem refused_of_ofJson (path : String) : (json : Json) → {cause : RequestError} →
    ofJson path json = .error cause → Refused path json cause
  | .object entries, _ => fun failed => refused_of_ofEntries path entries failed
  | .null, _ | .bool _, _ | .integer _, _ | .float _, _ | .string _, _ | .list _, _ => by
      intro failed
      cases failed
      exact ⟨[], _, .here, .notAnObject (by simp)⟩

theorem refused_of_ofEntries (path : String) : (entries : List (String × Json)) →
    {field : DeclaredField} → {cause : RequestError} →
    ofEntries path entries field = .error cause → Refused path (.object entries) cause
  | [], _, _ => by
      intro failed
      cases failed
  | (key, json) :: rest, field, cause => by
      intro failed
      rw [ofEntries] at failed
      split at failed
      · next control found =>
          obtain rfl := FieldControl.key_of_ofKey? found
          cases applied : control.apply path json field.attributes with
          | error other =>
              rw [applied] at failed
              cases failed
              exact ⟨[], _, .here,
                .control (List.forall_mem_nil _) (FieldControl.fault_of_apply applied)⟩
          | ok attributes =>
              rw [applied] at failed
              exact (refused_of_ofEntries path rest failed).behind
                (.control ((control.exists_apply_iff path json _).mp ⟨_, applied⟩))
      · next found =>
          have unknown := FieldControl.ofKey?_eq_none_iff.mp found
          split at failed
          · next named =>
              have named := isFieldKey_iff.mp named
              cases read : ofJson (Text.dotted path key) json with
              | error other =>
                  rw [read] at failed
                  cases failed
                  exact (refused_of_ofJson _ json read).inside unknown named
              | ok inner =>
                  rw [read] at failed
                  exact (refused_of_ofEntries path rest failed).behind
                    (.field unknown named ((ofJson_eq_ok_iff _ json).mp read))
          · next unnamed =>
              cases failed
              exact ⟨[], _, .here, .unknown (List.forall_mem_nil _) unknown
                fun named => unnamed (isFieldKey_iff.mpr named)⟩

end

end DeclaredField

namespace Json

def fieldAt? : List String → Json → Option Json
  | [], json => some json
  | key :: keys, .object entries =>
      if key ∉ FieldAttributes.controlKeys && isFieldKey key then
        (Entries.get? entries key).bind (fieldAt? keys)
      else none
  | _ :: _, _ => none

mutual

/-- In the declaration and in the fields inside of it no key comes twice, and the names of the
fields can be told from a path. -/
def isNavigable : Json → Bool
  | .object entries => decide (Entries.keys entries).Nodup && entriesNavigable entries
  | _ => true

def entriesNavigable : List (String × Json) → Bool
  | [] => true
  | (key, json) :: rest =>
      (key ∈ FieldAttributes.controlKeys || !isFieldKey key ||
        Text.isPlainKey key && isNavigable json) && entriesNavigable rest

end

theorem entriesNavigable_iff (entries : List (String × Json)) :
    entriesNavigable entries ↔ ∀ entry ∈ entries, entry.1 ∉ FieldAttributes.controlKeys →
      IsFieldName entry.1 → Text.isPlainKey entry.1 ∧ entry.2.isNavigable := by
  induction entries with
  | nil => simp [entriesNavigable]
  | cons entry rest ih =>
      obtain ⟨key, json⟩ := entry
      rw [entriesNavigable, Bool.and_eq_true, ih, List.forall_mem_cons, ← isFieldKey_iff]
      apply and_congr_left'
      by_cases known : key ∈ FieldAttributes.controlKeys <;>
        cases named : isFieldKey key <;> simp [known]

theorem ComesTo.located {json target : Json} {keys : List String} (comes : ComesTo json keys target)
    (navigable : json.isNavigable) :
    json.fieldAt? keys = some target ∧
      ∀ path, Text.keysOf (placeOf path keys) = Text.keysOf path ++ keys := by
  induction comes with
  | here => exact ⟨rfl, fun path => (List.append_nil _).symm⟩
  | @inside front rest key held target keys before unknown named further ih =>
      rw [isNavigable, Bool.and_eq_true, decide_eq_true_iff] at navigable
      obtain ⟨distinct, inner⟩ := navigable
      obtain ⟨plain, inner⟩ := (entriesNavigable_iff _).mp inner (key, held) (by simp) unknown named
      obtain ⟨stands, placed⟩ := ih inner
      constructor
      · rw [fieldAt?, if_pos (by simp [unknown, isFieldKey_iff.mpr named]),
          Entries.get?_of_mem distinct (List.mem_append_right front List.mem_cons_self)]
        exact stands
      · intro path
        calc
          Text.keysOf (placeOf path (key :: keys))
            = Text.keysOf (Text.dotted path key) ++ keys := placed (Text.dotted path key)
          _ = Text.keysOf path ++ [key] ++ keys := by rw [Text.keysOf_dotted plain]
          _ = Text.keysOf path ++ key :: keys := by rw [List.append_assoc]; rfl

/-- The keys of the path lead to the target, and all that is read before it is well formed. -/
def LeadsTo (json : Json) (path : String) (target : Json) : Prop :=
  json.fieldAt? (Text.keysOf path) = some target ∧ ComesTo json (Text.keysOf path) target

/-- The keys of the path lead to an object with the entry, and all that is read before the entry is
well formed. -/
def LeadsToEntry (json : Json) (path key : String) (held : Json) : Prop :=
  ∃ front rest, json.LeadsTo path (.object (front ++ (key, held) :: rest)) ∧
    ∀ entry ∈ front, WellFormedEntry entry

end Json

theorem DeclaredField.faultAt_of_load {json : Json} {cause : RequestError}
    (navigable : json.isNavigable) (failed : load json = .error cause) :
    ∃ path target, json.LeadsTo path target ∧ FaultAt path target cause := by
  obtain ⟨keys, target, comes, fault⟩ := refused_of_ofJson "" json failed
  obtain ⟨stands, placed⟩ := comes.located navigable
  have same : Text.keysOf (placeOf "" keys) = keys := placed ""
  exact ⟨placeOf "" keys, target, ⟨by rw [same, stands], by rw [same]; exact comes⟩, fault⟩

/-- The path in an error leads through the fields to the fault, and all that is read before it is
well formed. What is no object, an unknown control key, what is no list of strings and what is of another
kind than its attribute demands is just that. -/
theorem load_error_located {json : Json} (navigable : json.isNavigable) :
    (∀ path, DeclaredField.load json = .error (.notAnObject path) →
      ∃ target, json.LeadsTo path target ∧ ∀ entries, target ≠ .object entries) ∧
    (∀ key path, DeclaredField.load json = .error (.unknownAttribute key path) →
      ∃ held, json.LeadsToEntry path key held ∧
        key ∉ FieldAttributes.controlKeys ∧ ¬IsFieldName key) ∧
    (∀ key path, DeclaredField.load json = .error (.badList key path) →
      ∃ held, json.LeadsToEntry path key held ∧
        key ∈ ["__fragments", "__scalars"] ∧ ∀ texts, ¬held.IsStringList texts) ∧
    ∀ key path rule, DeclaredField.load json = .error (.badAttribute key path rule) →
      key ≠ "__fromVariable" → key ≠ "__enum" →
        ∃ held control, json.LeadsToEntry path key held ∧
          control.key = key ∧ FieldControl.rule? control = some rule ∧ ¬rule.Admits held := by
  refine ⟨?notAnObject, ?unknown, ?list, ?rule⟩
  case notAnObject =>
    intro path failed
    obtain ⟨_, target, leads, fault⟩ := DeclaredField.faultAt_of_load navigable failed
    cases fault with
    | notAnObject scalar => exact ⟨target, leads, scalar⟩
    | control _ fault =>
        cases fault with
        | inner inner => cases inner
  case unknown =>
    intro key path failed
    obtain ⟨_, target, leads, fault⟩ := DeclaredField.faultAt_of_load navigable failed
    cases fault with
    | unknown before unknown reserved => exact ⟨_, ⟨_, _, leads, before⟩, unknown, reserved⟩
    | control _ fault =>
        cases fault with
        | inner inner => cases inner
  case list =>
    intro key path failed
    obtain ⟨_, target, leads, fault⟩ := DeclaredField.faultAt_of_load navigable failed
    cases fault with
    | control before fault =>
        cases fault with
        | list listed broken =>
            refine ⟨_, ⟨_, _, leads, before⟩, ?_, broken⟩
            rcases listed with rfl | rfl <;> decide
        | inner inner => cases inner
  case rule =>
    intro key path rule failed noReference noEnum
    obtain ⟨_, target, leads, fault⟩ := DeclaredField.faultAt_of_load navigable failed
    cases fault with
    | control before fault =>
        cases fault with
        | rule demanded broken => exact ⟨_, _, ⟨_, _, leads, before⟩, rfl, demanded, broken⟩
        | inner inner =>
            rw [RequestError.isInner, Bool.or_eq_true, decide_eq_true_iff,
              decide_eq_true_iff] at inner
            rcases inner with tagged | tagged
            · exact absurd tagged noReference
            · exact absurd tagged noEnum

def addressTree (last : String × Json) : Json :=
  .object [("__alias", .string "me"), ("friends", .object [("__list", .bool true)]),
    ("user", .object [("__scalars", .list [.string "id"]),
      ("address", .object [("street", .object []), last])])]

theorem addressTree_error_located :
    (DeclaredField.load (addressTree ("zip", .integer 7)) =
        .error (.notAnObject "user.address.zip") ∧
      ∃ target, (addressTree ("zip", .integer 7)).LeadsTo "user.address.zip" target ∧
        ∀ entries, target ≠ .object entries) ∧
    (DeclaredField.load (addressTree ("__zip", .object [])) =
        .error (.unknownAttribute "__zip" "user.address") ∧
      ∃ held, (addressTree ("__zip", .object [])).LeadsToEntry "user.address" "__zip" held ∧
        "__zip" ∉ FieldAttributes.controlKeys ∧ ¬IsFieldName "__zip") ∧
    (DeclaredField.load (addressTree ("__fragments", .list [.string "City", .null])) =
        .error (.badList "__fragments" "user.address") ∧
      ∃ held, (addressTree ("__fragments", .list [.string "City", .null])).LeadsToEntry
          "user.address" "__fragments" held ∧
        "__fragments" ∈ ["__fragments", "__scalars"] ∧ ∀ texts, ¬held.IsStringList texts) ∧
    DeclaredField.load (addressTree ("__params", .list [])) =
        .error (.badAttribute "__params" "user.address" .object) ∧
      ∃ held control,
        (addressTree ("__params", .list [])).LeadsToEntry "user.address" "__params" held ∧
        control.key = "__params" ∧ FieldControl.rule? control = some .object ∧
        ¬AttributeRule.object.Admits held := by
  have noObject := (load_error_located
    (show (addressTree ("zip", .integer 7)).isNavigable by decide +kernel)).1
  have unknown := (load_error_located
    (show (addressTree ("__zip", .object [])).isNavigable by decide +kernel)).2.1
  have noList := (load_error_located
    (show (addressTree ("__fragments", .list [.string "City", .null])).isNavigable by
      decide +kernel)).2.2.1
  have otherKind := (load_error_located
    (show (addressTree ("__params", .list [])).isNavigable by decide +kernel)).2.2.2
  exact ⟨⟨rfl, noObject _ rfl⟩, ⟨rfl, unknown _ _ rfl⟩, ⟨rfl, noList _ _ rfl⟩, rfl,
    otherKind _ _ _ rfl (by decide) (by decide)⟩

end GraphRequest
