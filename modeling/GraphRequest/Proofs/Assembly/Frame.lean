import GraphRequest.Proofs.Fragment.Termination
import GraphRequest.Proofs.Assembly.Reachable

/-!
What calls leave alone, also if they fail. Definitions and slots of expectations are only added
behind those that are there; a fragment that could not be completed is not defined; and variables are
added up to the first that cannot be declared.
-/

namespace GraphRequest

theorem OrderedMap.keys_prefix_insert {κ α : Type} [DecidableEq κ] (map : OrderedMap κ α) (key : κ)
    (value : α) : map.keys <+: (map.insert key value).keys := by
  rw [keys_insert]
  split
  · exact List.prefix_rfl
  · exact List.prefix_append _ _

theorem Expectations.keys_prefix_putAll (expectations : Expectations) (met : List Expectation) :
    expectations.keys <+: (expectations.putAll met).keys := by
  induction met generalizing expectations with
  | nil => exact List.prefix_rfl
  | cons e rest ih => exact (expectations.keys_prefix_insert e.slot e).trans (ih (expectations.put e))

section Runs

variable {scope : Scope} {expanding : List String} {before after : Progress} {visits : List Visit}
  {cause : RequestError}

theorem Completes.definitions_prefix (run : Completes scope expanding before visits after) :
    before.definitions.entries <+: after.definitions.entries := by
  obtain ⟨finished, log, -, logged⟩ := run.exists_logged
  obtain ⟨added, entries, -⟩ := logged.definitions
  exact ⟨added, entries.symm⟩

theorem Progress.definitions_prefix_defined {middle : Progress} {name : String}
    (absent : name ∉ middle.definitions.keys) (definition : Document.Fragment) :
    middle.definitions.entries <+: (middle.defined name definition).definitions.entries := by
  rw [defined, OrderedMap.entries_insert_of_absent absent]
  exact List.prefix_append _ _

theorem Stops.definitions_prefix (run : Stops scope expanding before visits cause after) :
    before.definitions.entries <+: after.definitions.entries := by
  induction run with
  | fault | recur | unknown => exact List.prefix_rfl
  | meet _ ih => exact ih
  | reuse _ _ ih => exact ih
  | inside _ _ _ _ ih => exact ih
  | behind absent _ _ inside _ ih =>
      have missing := inside.opened_absent (List.mem_append_right _ List.mem_cons_self) absent
      exact (inside.definitions_prefix.trans (Progress.definitions_prefix_defined missing _)).trans ih

/-- No fragment is completed inside of itself, wherever the run stops. -/
theorem Stops.opened_absent (run : Stops scope expanding before visits cause after) {name : String}
    (opened : name ∈ expanding) (absent : name ∉ before.definitions.keys) :
    name ∉ after.definitions.keys := by
  induction run with
  | fault | recur | unknown => exact absent
  | meet _ ih => exact ih opened absent
  | reuse _ _ ih => exact ih opened absent
  | inside _ _ _ _ ih => exact ih (List.mem_append_left _ opened) absent
  | @behind _ _ other _ _ fragment middle _ _ _ closed _ inside _ ih =>
      apply ih opened
      have untouched := inside.opened_absent (List.mem_append_left _ opened) absent
      have different : name ≠ other := fun same => closed (same ▸ opened)
      rw [Progress.mem_keys_defined]
      exact fun present => present.elim untouched different

theorem Stops.spread_absent {name : String} {site : Site}
    (run : Stops scope expanding before [.spread name site] cause after) :
    name ∉ after.definitions.keys := by
  cases run with
  | reuse _ later => cases later
  | recur absent _ => exact absent
  | unknown absent _ _ => exact absent
  | inside absent _ _ within =>
      exact within.opened_absent (List.mem_append_right _ List.mem_cons_self) absent
  | behind _ _ _ _ later => cases later

end Runs

namespace Assembly

/-- What a call that adds selections leaves as it was. -/
structure Frame (before after : Assembly) : Prop where
  name : after.name = before.name
  known : after.known = before.known
  fragments : after.fragments = before.fragments
  expanding : after.expanding = before.expanding
  definitions : before.definitions.entries <+: after.definitions.entries
  expectations : before.expectations.keys <+: after.expectations.keys

theorem frame_settle {assembly : Assembly} {progress : Progress}
    (definitions : assembly.definitions.entries <+: progress.definitions.entries) :
    assembly.Frame (assembly.settle progress) where
  name := rfl
  known := rfl
  fragments := rfl
  expanding := rfl
  definitions := definitions
  expectations := assembly.expectations.keys_prefix_putAll progress.met

def added (known : Variables) (declared : List (String × DeclaredVariable)) :
    List (String × Variable) :=
  (declared.filter fun entry => entry.1 ∉ known.keys).map fun entry =>
    (entry.1, entry.2.variableNamed entry.1)

theorem added_cons {assembly : Assembly} {name : String} {declared : DeclaredVariable}
    {rest : List (String × DeclaredVariable)} (distinct : name ∉ Entries.keys rest) :
    let kept := keepVariable name (declared.variableNamed name) assembly
    kept.known.entries ++ added kept.known rest =
      assembly.known.entries ++ added assembly.known ((name, declared) :: rest) := by
  dsimp only
  rw [keepVariable]
  by_cases taken : name ∈ assembly.known.keys
  · rw [if_pos ((OrderedMap.contains_iff _ _).mpr taken), added, added,
      List.filter_cons_of_neg (by simpa using taken)]
  · rw [if_neg (by rwa [OrderedMap.contains_iff])]
    have others : ∀ entry ∈ rest, (decide (entry.1 ∉ (assembly.known.insert name
        (declared.variableNamed name)).keys)) = decide (entry.1 ∉ assembly.known.keys) := by
      intro entry member
      have different : entry.1 ≠ name := fun same => distinct (same ▸ List.mem_map_of_mem member)
      simp [OrderedMap.keys_insert, taken, different]
    rw [added, added, List.filter_cons_of_pos (by simpa using taken), List.filter_congr others,
      OrderedMap.entries_insert_of_absent taken, List.append_assoc]
    rfl

/-- The declared variables before the first that cannot be declared have been added, and nothing else
has changed. -/
def IntroducedUpTo (declared : List (String × DeclaredVariable)) (cause : RequestError)
    (before after : Assembly) : Prop :=
  ∃ front name refused rest, declared = front ++ (name, refused) :: rest ∧
    (∀ entry ∈ front, entry.2.Declarable) ∧ refused.named name = .error cause ∧
    ∃ known : Variables, after = { before with known } ∧
      known.entries = before.known.entries ++ added before.known front

theorem introduceVariables_eq_error {declared : List (String × DeclaredVariable)}
    {before after : Assembly} {cause : RequestError} (distinct : (Entries.keys declared).Nodup)
    (failed : introduceVariables declared before = .error cause after) :
    IntroducedUpTo declared cause before after := by
  induction declared generalizing before with
  | nil => cases failed
  | cons entry rest ih =>
      obtain ⟨name, declared⟩ := entry
      obtain ⟨fresh, others⟩ := List.nodup_cons.mp distinct
      rw [introduceVariables_cons_run] at failed
      cases accepted : declared.named name with
      | error other =>
          rw [accepted] at failed
          cases failed
          exact ⟨[], name, declared, rest, rfl, by simp, accepted, _, rfl,
            (List.append_nil _).symm⟩
      | ok named =>
          obtain ⟨unmarked, independent, same⟩ := DeclaredVariable.named_eq_ok accepted
          have introduced : named = declared.variableNamed name := same
          subst introduced
          rw [accepted] at failed
          dsimp only at failed
          cases ran : introduceVariables rest
              (keepVariable name (declared.variableNamed name) before) with
          | ok definitions final =>
              rw [ran] at failed
              cases failed
          | error other final =>
              rw [ran] at failed
              cases failed
              obtain ⟨front, bad, refused, behind, split, declarable, fails, known, same, entries⟩ :=
                ih others ran
              have apart : name ∉ Entries.keys front := by
                intro member
                rw [split, List.map_append] at fresh
                exact fresh (List.mem_append_left _ member)
              obtain ⟨kept, changed⟩ := keepVariable_eq name (declared.variableNamed name) before
              refine ⟨(name, declared) :: front, bad, refused, behind, congrArg (_ :: ·) split,
                List.forall_mem_cons.mpr ⟨⟨unmarked, independent⟩, declarable⟩, fails, known, ?_, ?_⟩
              · rw [same, changed]
              · rw [entries, added_cons apart]

/-- What a call may change, whether it succeeds or fails: for calls that add selections, which also
leave the stack behind as they found it, for spreads that fail, and for variables that cannot all be
declared. -/
theorem calls_framed (assembly : Assembly) :
    (∀ call : SelectionCall, assembly.Frame (finalState (call.run assembly)) ∧
      ∃ final, Machine.Leads assembly.scope (call.machine assembly) final ∧ final.tasks = [] ∧
        final.opened = assembly.expanding ∧ call.run assembly = call.settled assembly final) ∧
    (∀ name path level inherited cause after,
      (SelectionCall.spread name path level inherited).run assembly = .error cause after →
        name ∉ after.definitions.keys) ∧
    (∀ (declared : OrderedMap String DeclaredVariable) cause after,
      introduceVariables declared.entries assembly = .error cause after →
        IntroducedUpTo declared.entries cause assembly after) := by
  refine ⟨fun call => ⟨?_, call.machine_leads assembly⟩, ?_, ?_⟩
  · cases ran : call.run assembly with
    | ok node after =>
        obtain ⟨-, progress, run, rfl⟩ := SelectionCall.run_eq_ok ran
        exact frame_settle run.definitions_prefix
    | error cause after =>
        obtain ⟨progress, run, rfl⟩ := SelectionCall.run_eq_error ran
        exact frame_settle run.definitions_prefix
  · intro name path level inherited cause after ran
    obtain ⟨progress, run, rfl⟩ := SelectionCall.run_eq_error ran
    exact run.spread_absent
  · intro declared cause after failed
    exact introduceVariables_eq_error declared.distinct failed

def brokenAssembly : Assembly where
  name := "Query"
  known := ⟨[("token", ⟨"token", ⟨"String", false⟩, .string "t"⟩)], by decide⟩
  fragments := ⟨[
    ("Card", { name := "Card", typeCondition := "User", includes := ["Badge", "Photo"] }),
    ("Badge", { name := "Badge", typeCondition := "User", scalars := ["id"] })], by decide⟩

def brokenInputs : OrderedMap String DeclaredVariable :=
  ⟨[("token", ⟨.string "other", "String", false⟩), ("limit", ⟨.int 10, "Int", true⟩),
    ("user", ⟨.int 1, "ID!", false⟩), ("after", ⟨.null, "String", false⟩)], by decide⟩

theorem brokenAssembly_framed :
    (∃ cause after, (SelectionCall.spread "Card" .root 0 none).run brokenAssembly =
        .error cause after ∧
      brokenAssembly.Frame after ∧ after.definitions.keys = ["Badge"] ∧
      "Card" ∉ after.definitions.keys) ∧
    ∃ cause after, introduceVariables brokenInputs.entries brokenAssembly = .error cause after ∧
      IntroducedUpTo brokenInputs.entries cause brokenAssembly after ∧
      after.known.keys = ["token", "limit"] := by
  obtain ⟨framed, unfinished, introduced⟩ := calls_framed brokenAssembly
  constructor
  · have frame := (framed (.spread "Card" .root 0 none)).1
    have stops : (failure? ((SelectionCall.spread "Card" .root 0 none).run
        brokenAssembly)).isSome := by decide +kernel
    have keys : (finalState ((SelectionCall.spread "Card" .root 0 none).run
        brokenAssembly)).definitions.keys = ["Badge"] := by decide +kernel
    cases ran : (SelectionCall.spread "Card" .root 0 none).run brokenAssembly with
    | ok node after =>
        rw [ran] at stops
        cases stops
    | error cause after =>
        rw [ran] at frame keys
        exact ⟨cause, after, rfl, frame, keys, unfinished _ _ _ _ cause after ran⟩
  · have stops : (failure? (introduceVariables brokenInputs.entries brokenAssembly)).isSome := by
      decide +kernel
    have keys : (finalState (introduceVariables brokenInputs.entries brokenAssembly)).known.keys =
        ["token", "limit"] := by decide +kernel
    cases ran : introduceVariables brokenInputs.entries brokenAssembly with
    | ok definitions after =>
        rw [ran] at stops
        cases stops
    | error cause after =>
        rw [ran] at keys
        exact ⟨cause, after, rfl, introduced _ cause after ran, keys⟩

end Assembly

end GraphRequest
