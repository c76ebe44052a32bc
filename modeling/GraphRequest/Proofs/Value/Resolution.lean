import GraphRequest.Proofs.Grammar.Uses

/-!
References inside values. A reference is written by the name of the variable that it resolves to,
and the first leaf that cannot be written makes the whole value fail.
-/

namespace GraphRequest

/-- Every variable is kept under its own name. -/
def Variables.NamedByKey (known : Variables) : Prop :=
  ∀ entry ∈ known.entries, entry.2.name = entry.1

namespace Value

mutual

def resolved (known : Variables) : Value → Except RequestError String
  | reference name =>
      match known.get? name with
      | some found => .ok ("$" ++ found.name)
      | none => .error (.unknownVariable name)
  | float number =>
      if number.isFinite then .ok (floatFormat.text number) else .error (.unwritableFloat number)
  | list items => do
      return "[" ++ ", ".intercalate (← resolvedItems known items) ++ "]"
  | object entries => do
      return "\x7b" ++ ", ".intercalate (← resolvedEntries known entries) ++ "\x7d"
  | value => .ok value.source

def resolvedItems (known : Variables) : List Value → Except RequestError (List String)
  | [] => .ok []
  | item :: rest => do
      let text ← resolved known item
      return text :: (← resolvedItems known rest)

def resolvedEntries (known : Variables) : List (String × Value) → Except RequestError (List String)
  | [] => .ok []
  | (key, value) :: rest => do
      let text ← resolved known value
      return (key ++ ": " ++ text) :: (← resolvedEntries known rest)

end

/-- What a leaf is refused for. -/
inductive LeafFault (names : List String) : Value → RequestError → Prop
  | undeclared {name : String} (absent : name ∉ names) :
      LeafFault names (.reference name) (.unknownVariable name)
  | notFinite {number : Binary64} (large : number.isFinite = false) :
      LeafFault names (.float number) (.unwritableFloat number)

def leafFault? (names : List String) : Value → Option RequestError
  | reference name => if name ∈ names then none else some (.unknownVariable name)
  | float number => if number.isFinite then none else some (.unwritableFloat number)
  | _ => none

variable {names : List String}

theorem leafFault?_eq_none_iff (leaf : Value) :
    leafFault? names leaf = none ↔ LeafWritable names leaf := by
  cases leaf <;> simp [leafFault?, LeafWritable]

theorem leafFault?_eq_some_iff (leaf : Value) (cause : RequestError) :
    leafFault? names leaf = some cause ↔ LeafFault names leaf cause := by
  constructor
  · intro refused
    cases leaf with
    | reference name =>
        rw [leafFault?] at refused
        split at refused
        · cases refused
        · next absent =>
            cases refused
            exact .undeclared absent
    | float number =>
        rw [leafFault?] at refused
        split at refused
        · cases refused
        · next large =>
            cases refused
            exact .notFinite (by simpa using large)
    | _ => cases refused
  · intro fault
    cases fault with
    | undeclared absent => simp [leafFault?, absent]
    | notFinite large => simp [leafFault?, large]

def firstFault? (names : List String) (leaves : List Value) : Option RequestError :=
  leaves.findSome? (leafFault? names)

def verdict : Option RequestError → Except RequestError Unit
  | none => .ok ()
  | some cause => .error cause

theorem verdict_or (first second : Option RequestError) :
    verdict (first.or second) = (verdict first >>= fun _ => verdict second) := by
  cases first <;> rfl

theorem verdict_append (first second : List Value) :
    verdict (firstFault? names (first ++ second)) =
      (verdict (firstFault? names first) >>= fun _ => verdict (firstFault? names second)) := by
  rw [firstFault?, List.findSome?_append, verdict_or]
  rfl

variable {known : Variables}

mutual

theorem check_eq_verdict : (value : Value) →
    check known value = verdict (firstFault? known.keys value.leaves)
  | reference name => by
      by_cases there : name ∈ known.keys <;>
        simp [check, leaves, firstFault?, leafFault?, verdict, known.contains_iff, there]
  | float number => by
      cases finite : number.isFinite <;>
        simp [check, leaves, firstFault?, leafFault?, verdict, finite]
  | list items => by
      rw [check, leaves]
      exact checkItems_eq_verdict items
  | object entries => by
      rw [check, leaves]
      exact checkEntries_eq_verdict entries
  | int _ | string _ | bool _ | null | enum _ => by
      simp [check, leaves, firstFault?, leafFault?, verdict]

theorem checkItems_eq_verdict : (items : List Value) →
    checkItems known items = verdict (firstFault? known.keys (itemLeaves items))
  | [] => rfl
  | item :: rest => by
      rw [checkItems, itemLeaves, verdict_append, check_eq_verdict item, checkItems_eq_verdict rest]

theorem checkEntries_eq_verdict : (entries : List (String × Value)) →
    checkEntries known entries = verdict (firstFault? known.keys (entryLeaves entries))
  | [] => rfl
  | (_, value) :: rest => by
      rw [checkEntries, entryLeaves, verdict_append, check_eq_verdict value,
        checkEntries_eq_verdict rest]

end

theorem check_eq_error_iff (value : Value) (cause : RequestError) :
    check known value = .error cause ↔ ∃ before leaf after,
      value.leaves = before ++ leaf :: after ∧
      (∀ earlier ∈ before, LeafWritable known.keys earlier) ∧ LeafFault known.keys leaf cause := by
  have refused : check known value = .error cause ↔
      firstFault? known.keys value.leaves = some cause := by
    rw [check_eq_verdict]
    cases firstFault? known.keys value.leaves <;> simp [verdict]
  rw [refused, firstFault?, List.findSome?_eq_some_iff]
  simp only [leafFault?_eq_some_iff, leafFault?_eq_none_iff]
  constructor
  · rintro ⟨before, leaf, after, split, fault, sound⟩
    exact ⟨before, leaf, after, split, sound, fault⟩
  · rintro ⟨before, leaf, after, split, sound, fault⟩
    exact ⟨before, leaf, after, split, fault, sound⟩

theorem resolved_reference (named : known.NamedByKey) (name : String) :
    resolved known (reference name) = (do
      check known (reference name)
      return (reference name).source) := by
  rw [resolved, check, OrderedMap.contains]
  cases found : known.get? name with
  | none => rfl
  | some kept =>
      have same : kept.name = name := named (name, kept) (Entries.mem_of_get? found)
      simp only [same]
      rfl

mutual

/-- What is looked up under a name has that name, so the text does not depend on what is kept. -/
theorem resolved_eq (named : known.NamedByKey) : (value : Value) →
    resolved known value = (do
      check known value
      return value.source)
  | reference name => resolved_reference named name
  | float number => by
      rw [resolved, check]
      split <;> rfl
  | list items => by
      rw [resolved, resolvedItems_eq named items, check]
      cases checkItems known items <;> rfl
  | object entries => by
      rw [resolved, resolvedEntries_eq named entries, check]
      cases checkEntries known entries <;> rfl
  | int _ | string _ | bool _ | null | enum _ => rfl

theorem resolvedItems_eq (named : known.NamedByKey) : (items : List Value) →
    resolvedItems known items = (do
      checkItems known items
      return itemSources items)
  | [] => rfl
  | item :: rest => by
      rw [resolvedItems, resolved_eq named item, resolvedItems_eq named rest, checkItems]
      cases check known item with
      | error cause => rfl
      | ok => cases checkItems known rest <;> rfl

theorem resolvedEntries_eq (named : known.NamedByKey) :
    (entries : List (String × Value)) →
    resolvedEntries known entries = (do
      checkEntries known entries
      return entrySources entries)
  | [] => rfl
  | (key, value) :: rest => by
      rw [resolvedEntries, resolved_eq named value, resolvedEntries_eq named rest, checkEntries]
      cases check known value with
      | error cause => rfl
      | ok => cases checkEntries known rest <;> rfl

end

theorem resolved_eq_ok_iff (named : known.NamedByKey) (value : Value) (text : String) :
    resolved known value = .ok text ↔ value.Writable known.keys ∧ text = value.source := by
  rw [resolved_eq named value, ← check_eq_ok_iff]
  cases check known value <;> simp [bind, Except.bind, pure, Except.pure, eq_comm]

theorem resolved_eq_error_iff (named : known.NamedByKey) (value : Value)
    (cause : RequestError) :
    resolved known value = .error cause ↔ check known value = .error cause := by
  rw [resolved_eq named value]
  cases check known value <;> simp [bind, Except.bind, pure, Except.pure]

theorem writable_iff (value : Value) :
    value.Writable names ↔ (∀ name, .reference name ∈ value.leaves → name ∈ names) ∧
      ∀ number, .float number ∈ value.leaves → number.isFinite := by
  constructor
  · intro writable
    exact ⟨fun name => writable (.reference name), fun number => writable (.float number)⟩
  · rintro ⟨declared, finite⟩ leaf member
    cases leaf with
    | reference name => exact declared name member
    | float number => exact finite number member
    | _ => trivial

end Value

theorem Variables.exists_namedByKey (names : List String) :
    ∃ known : Variables, known.NamedByKey ∧ names ⊆ known.keys := by
  induction names with
  | nil => exact ⟨.empty, List.forall_mem_nil _, List.nil_subset _⟩
  | cons name rest ih =>
      obtain ⟨known, named, declared⟩ := ih
      refine ⟨known.insert name ⟨name, ⟨"ID", true⟩, .null⟩, ?_, ?_⟩
      · intro entry member
        rcases Entries.mem_insert member with earlier | rfl
        · exact named entry earlier
        · rfl
      · intro other member
        rw [OrderedMap.keys_insert]
        split
        · next there =>
            rcases List.mem_cons.mp member with rfl | later
            · exact there
            · exact declared later
        · rcases List.mem_cons.mp member with rfl | later
          · exact List.mem_append_right _ List.mem_cons_self
          · exact List.mem_append_left _ (declared later)

namespace Value

theorem hasReference_eq_false_iff (value : Value) :
    value.hasReference = false ↔ ∀ name, .reference name ∉ value.leaves := by
  rw [← Bool.not_eq_true, hasReference_iff, not_exists]

theorem hasReference_iff_depends {value : Value}
    (finite : ∀ number, .float number ∈ value.leaves → number.isFinite) :
    value.hasReference = false ↔ ∀ first second : Variables, first.NamedByKey →
      second.NamedByKey → value.resolved first = value.resolved second := by
  rw [hasReference_eq_false_iff]
  constructor
  · intro free first second firstNamed secondNamed
    have writable : ∀ names, value.Writable names := fun names =>
      (writable_iff value).mpr ⟨fun name member => absurd member (free name), finite⟩
    calc
      value.resolved first = .ok value.source :=
        (resolved_eq_ok_iff firstNamed value _).mpr ⟨writable _, rfl⟩
      _ = value.resolved second :=
        ((resolved_eq_ok_iff secondNamed value _).mpr ⟨writable _, rfl⟩).symm
  · intro same name member
    obtain ⟨known, named, declared⟩ := Variables.exists_namedByKey value.references
    have writable : value.Writable known.keys :=
      (writable_iff value).mpr ⟨fun other there => declared (mem_references.mpr there), finite⟩
    have text := (resolved_eq_ok_iff named value _).mpr ⟨writable, rfl⟩
    have nothing : Variables.NamedByKey .empty := List.forall_mem_nil _
    rw [same known .empty named nothing, resolved_eq_ok_iff nothing] at text
    exact List.not_mem_nil (text.1.references_subset (mem_references.mpr member))

/-- A value is written exactly if each reference at any depth has its variable and each float is
finite. Otherwise the first leaf without its variable, or the first that is no finite number, is at
fault. More variables do not change the text, and only values without references are written alike whatever
variables there are. -/
theorem references_resolve (value : Value) (known : Variables) (named : known.NamedByKey) :
    (value.resolved known = do
      check known value
      return value.source) ∧
    ((∃ text, value.resolved known = .ok text) ↔
      (∀ name, .reference name ∈ value.leaves → name ∈ known.keys) ∧
        ∀ number, .float number ∈ value.leaves → number.isFinite) ∧
    (∀ cause, value.resolved known = .error cause ↔ ∃ before leaf after,
      value.leaves = before ++ leaf :: after ∧
      (∀ earlier ∈ before, LeafWritable known.keys earlier) ∧ LeafFault known.keys leaf cause) ∧
    (∀ larger : Variables, larger.NamedByKey → known.keys ⊆ larger.keys →
      ∀ text, value.resolved known = .ok text → value.resolved larger = .ok text) ∧
    ((∀ number, .float number ∈ value.leaves → number.isFinite) →
      (value.hasReference = false ↔ ∀ first second : Variables, first.NamedByKey →
        second.NamedByKey → value.resolved first = value.resolved second)) := by
  refine ⟨resolved_eq named value, ?succeeds, ?fails, ?enlarged, hasReference_iff_depends⟩
  case succeeds =>
    rw [← writable_iff]
    simp [resolved_eq_ok_iff named]
  case fails =>
    intro cause
    rw [resolved_eq_error_iff named, check_eq_error_iff]
  case enlarged =>
    intro larger largerNamed more text written
    obtain ⟨writable, rfl⟩ := (resolved_eq_ok_iff named value text).mp written
    apply (resolved_eq_ok_iff largerNamed value _).mpr
    obtain ⟨declared, finite⟩ := (writable_iff value).mp writable
    exact ⟨(writable_iff value).mpr ⟨fun name there => more (declared name there), finite⟩, rfl⟩

def pageValue : Value :=
  .object [("after", .reference "cursor"), ("sizes", .list [.int 10, .reference "limit"])]

def cursorVariable : Variables :=
  ⟨[("cursor", ⟨"cursor", ⟨"ID", true⟩, .null⟩)], by decide⟩

def pageVariables : Variables :=
  ⟨[("limit", ⟨"limit", ⟨"Int", false⟩, .int 20⟩), ("cursor", ⟨"cursor", ⟨"String", true⟩, .null⟩)],
    by decide⟩

def feedVariables : Variables :=
  pageVariables.insert "feed" ⟨"feed", ⟨"ID", false⟩, .string "home"⟩

theorem pageValue_references_resolve :
    cursorVariable.NamedByKey ∧ pageVariables.NamedByKey ∧ feedVariables.NamedByKey ∧
    pageVariables.keys ⊆ feedVariables.keys ∧
    pageValue.resolved cursorVariable = .error (.unknownVariable "limit") ∧
    (∃ before leaf after, pageValue.leaves = before ++ leaf :: after ∧
      (∀ earlier ∈ before, LeafWritable cursorVariable.keys earlier) ∧
      LeafFault cursorVariable.keys leaf (.unknownVariable "limit")) ∧
    pageValue.resolved pageVariables = .ok pageValue.source ∧
    pageValue.resolved feedVariables = .ok pageValue.source ∧
    ¬∀ first second : Variables, first.NamedByKey → second.NamedByKey →
      pageValue.resolved first = pageValue.resolved second := by
  have cursorNamed : cursorVariable.NamedByKey := by unfold Variables.NamedByKey; decide
  have pageNamed : pageVariables.NamedByKey := by unfold Variables.NamedByKey; decide
  have feedNamed : feedVariables.NamedByKey := by unfold Variables.NamedByKey; decide
  have more : pageVariables.keys ⊆ feedVariables.keys := by decide
  have failed : pageValue.resolved cursorVariable = .error (.unknownVariable "limit") := by rfl
  have written : pageValue.resolved pageVariables = .ok pageValue.source := by rfl
  have finite : ∀ number, .float number ∈ pageValue.leaves → number.isFinite := by
    intro number member
    simp [pageValue, leaves, entryLeaves, itemLeaves] at member
  obtain ⟨-, -, fails, -, -⟩ := references_resolve pageValue cursorVariable cursorNamed
  obtain ⟨-, -, -, enlarged, depends⟩ := references_resolve pageValue pageVariables pageNamed
  refine ⟨cursorNamed, pageNamed, feedNamed, more, failed, (fails _).mp failed, written,
    enlarged feedVariables feedNamed more _ written, fun same => ?_⟩
  cases (depends finite).mpr same

end Value

end GraphRequest
