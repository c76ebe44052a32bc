import GraphRequest.Proofs.Walk.Order
import GraphRequest.Proofs.Walk.Reference
import Mathlib.Data.List.Forall2

/-!
The log of a completed run: the fragments that it expands, each with the site of its first spread, in
the order in which their definitions are completed. Definitions and expectations are read off it.
-/

namespace GraphRequest

open Visit

namespace Scope

def visitsAt (scope : Scope) (entry : String × Site) : List Visit :=
  (scope.fragments.get? entry.1).elim [] (Fragment.visits scope.known entry.2)

def spreadsAt (scope : Scope) (entry : String × Site) : List (String × Site) :=
  spreads (scope.visitsAt entry)

theorem visitsAt_found {scope : Scope} {entry : String × Site} {fragment : Fragment}
    (found : scope.fragments.get? entry.1 = some fragment) :
    scope.visitsAt entry = fragment.visits scope.known entry.2 := by
  rw [visitsAt, found]
  rfl

end Scope

def Defines (scope : Scope) (entry : String × Site) (definition : String × Document.Fragment) :
    Prop :=
  ∃ fragment, scope.fragments.get? entry.1 = some fragment ∧
    Faultless (fragment.visits scope.known entry.2) ∧ definition = (entry.1, fragment.node)

/-- The run finishes the entries of `log` behind those that were finished before it. -/
structure Logged (scope : Scope) (before : Progress) (visits : List Visit) (after : Progress)
    (finished log : List (String × Site)) : Prop where
  walk : PostOrder Prod.fst scope.spreadsAt finished (spreads visits) (finished ++ log)
  definitions : ∃ added, after.definitions.entries = before.definitions.entries ++ added ∧
    List.Forall₂ (Defines scope) log added
  met : ∀ e, e ∈ after.met ↔
    e ∈ before.met ∨ .meet e ∈ visits ∨ ∃ entry ∈ log, .meet e ∈ scope.visitsAt entry

theorem Defines.names {scope : Scope} {log : List (String × Site)}
    {added : List (String × Document.Fragment)} (defines : List.Forall₂ (Defines scope) log added) :
    Entries.keys added = log.map Prod.fst := by
  induction defines with
  | nil => rfl
  | cons first _ ih =>
      rcases first with ⟨fragment, _, _, rfl⟩
      rw [Entries.keys, List.map_cons, List.map_cons, ← ih]
      rfl

namespace Completes

variable {scope : Scope} {expanding : List String} {before after : Progress}
  {visits : List Visit}

theorem opened_absent (run : Completes scope expanding before visits after) {name : String}
    (opened : name ∈ expanding) (absent : name ∉ before.definitions.keys) :
    name ∉ after.definitions.keys := by
  induction run with
  | done => exact absent
  | meet _ ih => exact ih opened absent
  | reuse _ _ ih => exact ih opened absent
  | @expand _ _ other _ _ fragment middle _ _ closed _ _ _ ihInside ihLater =>
      apply ihLater opened
      have untouched := ihInside (List.mem_append_left _ opened) absent
      have different : name ≠ other := fun same => closed (same ▸ opened)
      rw [Progress.defined, OrderedMap.keys_insert]
      split
      · exact untouched
      · simp [untouched, different]

theorem logged (run : Completes scope expanding before visits after)
    (finished : List (String × Site)) (named : before.definitions.keys = finished.map Prod.fst) :
    ∃ log, Logged scope before visits after finished log := by
  induction run generalizing finished with
  | @done _ before =>
      refine ⟨[], ?_, ⟨[], (List.append_nil _).symm, .nil⟩, by simp⟩
      rw [List.append_nil]
      exact .done
  | @meet _ before e rest after _ ih =>
      obtain ⟨log, walk, definitions, met⟩ := ih finished named
      refine ⟨log, walk, definitions, fun other => ?_⟩
      rw [met other]
      simp [Progress.metWith, or_assoc]
  | @reuse _ before name site rest after present _ ih =>
      obtain ⟨log, walk, definitions, met⟩ := ih finished named
      refine ⟨log, .pass (named ▸ present) walk, definitions, fun other => ?_⟩
      rw [met other]
      simp
  | @expand expanding before name site rest fragment middle after absent closed found inside _
      ihInside ihLater =>
      obtain ⟨inner, innerWalk, ⟨innerAdded, innerEntries, innerDefines⟩, innerMet⟩ :=
        ihInside finished named
      have missing : name ∉ middle.definitions.keys :=
        inside.opened_absent (List.mem_append_right _ List.mem_cons_self) absent
      have entries : (middle.defined name fragment.node).definitions.entries =
          before.definitions.entries ++ (innerAdded ++ [(name, fragment.node)]) := by
        rw [Progress.defined, OrderedMap.entries_insert_of_absent missing, innerEntries,
          List.append_assoc]
      have defines : List.Forall₂ (Defines scope) (inner ++ [(name, site)])
          (innerAdded ++ [(name, fragment.node)]) :=
        List.rel_append innerDefines (.cons ⟨fragment, found, inside.faultless, rfl⟩ .nil)
      have renamed : (middle.defined name fragment.node).definitions.keys =
          (finished ++ (inner ++ [(name, site)])).map Prod.fst := by
        rw [List.map_append, ← Defines.names defines, ← named, OrderedMap.keys, entries,
          Entries.keys, List.map_append]
        rfl
      obtain ⟨outer, outerWalk, ⟨outerAdded, outerEntries, outerDefines⟩, outerMet⟩ :=
        ihLater (finished ++ (inner ++ [(name, site)])) renamed
      have here : scope.visitsAt (name, site) = fragment.visits scope.known site :=
        Scope.visitsAt_found found
      refine ⟨inner ++ [(name, site)] ++ outer, ?_, ?_, fun e => ?_⟩
      · have extended : PostOrder Prod.fst scope.spreadsAt ((finished ++ inner) ++ [(name, site)])
            (spreads rest) (finished ++ (inner ++ [(name, site)] ++ outer)) := by
          simpa only [List.append_assoc] using outerWalk
        refine .finish (named ▸ absent) ?_ extended
        rw [Scope.spreadsAt, here]
        exact innerWalk
      · refine ⟨innerAdded ++ [(name, fragment.node)] ++ outerAdded, ?_,
          List.rel_append defines outerDefines⟩
        rw [outerEntries, entries, List.append_assoc]
      · rw [outerMet e]
        change e ∈ middle.met ∨ _ ↔ _
        rw [innerMet e]
        simp only [List.mem_append, List.mem_cons, reduceCtorEq, false_or,
          or_assoc, or_and_right, exists_or, exists_eq_left, here]
        grind

end Completes

namespace Logged

variable {scope : Scope} {before after : Progress} {visits : List Visit}
  {finished log : List (String × Site)}

theorem defines_of_mem (logged : Logged scope before visits after finished log)
    {entry : String × Site} (member : entry ∈ log) :
    ∃ definition, Defines scope entry definition := by
  rcases logged.definitions with ⟨added, -, defines⟩
  clear logged
  induction defines with
  | nil => cases member
  | cons first _ ih =>
      rcases List.mem_cons.mp member with rfl | later
      · exact ⟨_, first⟩
      · exact ih later

theorem levels (logged : Logged scope before visits after finished log) :
    PostOrder Prod.fst (referenceLevels scope.fragments.get?) (finished.map Assembly.levelOf)
      ((spreads visits).map Assembly.levelOf) ((finished ++ log).map Assembly.levelOf) := by
  apply logged.walk.map Assembly.levelOf (fun _ => rfl)
  intro entry member
  rcases List.mem_append.mp member with early | new
  · exact .inl early
  · obtain ⟨_, fragment, found, faultless, -⟩ := logged.defines_of_mem new
    right
    have levelled := fragment.visits_spreadLevels scope.known entry.2 faultless
    rw [Scope.spreadsAt, Scope.visitsAt_found found, levelled, referenceLevels, Assembly.levelOf,
      found]
    rfl

theorem names (logged : Logged scope before visits after finished log) :
    PostOrder id (references scope.fragments.get?) (finished.map Prod.fst)
      ((spreads visits).map Prod.fst) ((finished ++ log).map Prod.fst) := by
  have projected := logged.levels.named (referenceLevels_names scope.fragments.get?)
  rw [List.map_map, List.map_map, List.map_map] at projected
  exact projected

theorem keys (logged : Logged scope before visits after finished log) :
    after.definitions.keys = before.definitions.keys ++ log.map Prod.fst := by
  rcases logged.definitions with ⟨added, entries, defines⟩
  rw [OrderedMap.keys, OrderedMap.keys, entries, ← Defines.names defines]
  exact List.map_append

end Logged

end GraphRequest
