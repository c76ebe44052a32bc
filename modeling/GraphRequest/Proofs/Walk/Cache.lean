import GraphRequest.Proofs.Walk.Log

/-!
Runs on top of definitions that are there already. All runs, also those that stop, leave definitions
behind that are complete; and a run that completes without such definitions completes with them.
-/

namespace GraphRequest

open Assembly Visit

/-- Each definition is that of the fragment registered under its name, and the definitions that it
refers to stand before it. -/
structure Definitions.Sound (lookup : String → Option Fragment) (definitions : Definitions) :
    Prop where
  nodes : ∀ entry ∈ definitions.entries, ∃ fragment, lookup entry.1 = some fragment ∧
    entry.2 = fragment.node
  grounded : Grounded id (references lookup) definitions.keys

namespace Definitions.Sound

variable {lookup : String → Option Fragment} {definitions : Definitions}

theorem empty : Sound lookup .empty where
  nodes := by
    intro entry member
    cases member
  grounded := .nil

theorem insert {name : String} {fragment : Fragment} (sound : Sound lookup definitions)
    (absent : name ∉ definitions.keys) (found : lookup name = some fragment)
    (leads : ∀ target ∈ references lookup name, target ∈ definitions.keys) :
    Sound lookup (definitions.insert name fragment.node) where
  nodes := by
    intro entry member
    rw [OrderedMap.entries_insert_of_absent absent] at member
    rcases List.mem_append.mp member with early | last
    · exact sound.nodes entry early
    · rcases List.mem_singleton.mp last with rfl
      exact ⟨fragment, found, rfl⟩
  grounded := by
    rw [OrderedMap.keys_insert, if_neg absent]
    apply sound.grounded.snoc
    simpa using leads

theorem get?_eq {name : String} {definition : Document.Fragment} (sound : Sound lookup definitions)
    (found : definitions.get? name = some definition) :
    ∃ fragment, lookup name = some fragment ∧ definition = fragment.node :=
  sound.nodes (name, definition) (Entries.mem_of_get? found)

theorem closed {name target : String} (sound : Sound lookup definitions)
    (member : name ∈ definitions.keys) (leads : target ∈ references lookup name) :
    target ∈ definitions.keys :=
  sound.grounded.mem_of_reached (fun _ rooted => rooted) ((Reached.root member).step leads)

end Definitions.Sound

theorem Fragment.visits_names {known : Variables} {site : Site} {fragment : Fragment}
    (faultless : Faultless (fragment.visits known site)) :
    (spreads (fragment.visits known site)).map Prod.fst = fragment.references := by
  rw [← fragment.referenceLevels_names site.level, ← fragment.visits_spreadLevels known site
    faultless, List.map_map]
  rfl

theorem Progress.mem_keys_defined (progress : Progress) (name other : String)
    (definition : Document.Fragment) :
    other ∈ (progress.defined name definition).definitions.keys ↔
      other ∈ progress.definitions.keys ∨ other = name := by
  rw [defined, OrderedMap.keys_insert]
  split
  · next present => grind
  · rw [List.mem_append, List.mem_singleton]

variable {scope : Scope} {expanding : List String} {before after : Progress} {visits : List Visit}

namespace Completes

theorem exists_logged (run : Completes scope expanding before visits after) :
    ∃ finished log, before.definitions.keys = finished.map Prod.fst ∧
      Logged scope before visits after finished log := by
  have named : before.definitions.keys =
      (before.definitions.keys.map fun name => (name, Site.root)).map Prod.fst := by
    rw [List.map_map]
    exact (List.map_id _).symm
  obtain ⟨log, logged⟩ := run.logged _ named
  exact ⟨_, log, named, logged⟩

theorem keys_subset (run : Completes scope expanding before visits after) :
    before.definitions.keys ⊆ after.definitions.keys := by
  obtain ⟨finished, log, -, logged⟩ := run.exists_logged
  rw [logged.keys]
  exact List.subset_append_left _ _

theorem spreads_defined (run : Completes scope expanding before visits after) :
    ∀ spread ∈ spreads visits, spread.1 ∈ after.definitions.keys := by
  obtain ⟨finished, log, named, logged⟩ := run.exists_logged
  intro spread member
  have done := logged.names.pending_finished spread.1 (List.mem_map_of_mem member)
  rw [logged.keys, named, ← List.map_append]
  simpa using done

theorem keys_within (run : Completes scope expanding before visits after) {cached : List String}
    (closed : ∀ name ∈ cached, ∀ target ∈ references scope.fragments.get? name, target ∈ cached)
    (rooted : ∀ spread ∈ spreads visits, spread.1 ∈ cached) {name : String}
    (member : name ∈ after.definitions.keys) :
    name ∈ before.definitions.keys ∨ name ∈ cached := by
  obtain ⟨finished, log, named, logged⟩ := run.exists_logged
  rw [logged.keys, named, ← List.map_append] at member
  rw [named]
  refine (logged.names.reached name member).imp_right fun reached => ?_
  refine reached.mem_of_closed (fun root there => ?_) closed
  obtain ⟨spread, visited, rfl⟩ := List.mem_map.mp there
  exact rooted spread visited

theorem references_defined {name : String} {site : Site} {fragment : Fragment}
    (found : scope.fragments.get? name = some fragment)
    (inside : Completes scope expanding before (fragment.visits scope.known site) after) :
    ∀ target ∈ references scope.fragments.get? name, target ∈ after.definitions.keys := by
  intro target leads
  rw [references, found] at leads
  change target ∈ fragment.references at leads
  rw [← Fragment.visits_names inside.faultless] at leads
  obtain ⟨spread, member, rfl⟩ := List.mem_map.mp leads
  exact inside.spreads_defined spread member

theorem sound (run : Completes scope expanding before visits after)
    (start : Definitions.Sound scope.fragments.get? before.definitions) :
    Definitions.Sound scope.fragments.get? after.definitions := by
  induction run with
  | done => exact start
  | meet _ ih => exact ih start
  | reuse _ _ ih => exact ih start
  | expand absent _ found inside _ ihInside ihLater =>
      apply ihLater
      apply (ihInside start).insert _ found (references_defined found inside)
      exact inside.opened_absent (List.mem_append_right _ List.mem_cons_self) absent

/-- A run that completes also completes with further definitions there, and with fewer fragments
being expanded. The run leaves out what these definitions provide. -/
theorem warm (run : Completes scope expanding before visits after) {cached : List String}
    (closed : ∀ name ∈ cached, ∀ target ∈ references scope.fragments.get? name, target ∈ cached)
    {opened : List String} (fewer : opened ⊆ expanding) {start : Progress}
    (keys : ∀ name, name ∈ start.definitions.keys ↔
      name ∈ cached ∨ name ∈ before.definitions.keys) :
    ∃ final, Completes scope opened start visits final ∧
      ∀ name, name ∈ final.definitions.keys ↔ name ∈ cached ∨ name ∈ after.definitions.keys := by
  induction run generalizing opened start with
  | done => exact ⟨start, .done, keys⟩
  | @meet _ _ e _ _ _ ih =>
      obtain ⟨final, run, finalKeys⟩ := @ih opened fewer (start.metWith e) keys
      exact ⟨final, .meet run, finalKeys⟩
  | reuse present _ ih =>
      obtain ⟨final, run, finalKeys⟩ := ih fewer keys
      exact ⟨final, .reuse ((keys _).mpr (.inr present)) run, finalKeys⟩
  | @expand expanding before name site rest fragment middle after absent closedName found inside _
      ihInside ihLater =>
      by_cases there : name ∈ cached
      · -- all that the other run defines inside of the fragment is there
        have rooted : ∀ spread ∈ spreads (fragment.visits scope.known site), spread.1 ∈ cached := by
          intro spread member
          apply closed name there
          rw [references, found]
          exact fragment.visits_references _ _ spread member
        have same : ∀ other, other ∈ start.definitions.keys ↔
            other ∈ cached ∨ other ∈ (middle.defined name fragment.node).definitions.keys := by
          intro other
          rw [keys other, Progress.mem_keys_defined]
          constructor
          · exact Or.imp_right fun early => .inl (inside.keys_subset early)
          · rintro (provided | new | rfl)
            · exact .inl provided
            · exact (inside.keys_within closed rooted new).symm
            · exact .inl there
        obtain ⟨final, run, finalKeys⟩ := ihLater fewer same
        exact ⟨final, .reuse ((keys name).mpr (.inl there)) run, finalKeys⟩
      · have fresh : name ∉ start.definitions.keys := by
          rw [keys name]
          exact fun known => known.elim there absent
        have fewerInside : opened ++ [name] ⊆ expanding ++ [name] :=
          List.append_subset.mpr ⟨List.subset_append_of_subset_left _ fewer,
            List.subset_append_right _ _⟩
        obtain ⟨half, ran, halfKeys⟩ := ihInside fewerInside keys
        have same : ∀ other, other ∈ (half.defined name fragment.node).definitions.keys ↔
            other ∈ cached ∨ other ∈ (middle.defined name fragment.node).definitions.keys := by
          intro other
          rw [Progress.mem_keys_defined, Progress.mem_keys_defined, halfKeys other, or_assoc]
        obtain ⟨final, run, finalKeys⟩ := ihLater fewer same
        exact ⟨final, .expand fresh (fun opens => closedName (fewer opens)) found ran run, finalKeys⟩

end Completes

theorem Stops.sound {cause : RequestError} (run : Stops scope expanding before visits cause after)
    (start : Definitions.Sound scope.fragments.get? before.definitions) :
    Definitions.Sound scope.fragments.get? after.definitions := by
  induction run with
  | fault => exact start
  | meet _ ih => exact ih start
  | reuse _ _ ih => exact ih start
  | recur => exact start
  | unknown => exact start
  | inside _ _ _ _ ih => exact ih start
  | behind absent _ found inside _ ih =>
      apply ih
      apply (inside.sound start).insert _ found (Completes.references_defined found inside)
      exact inside.opened_absent (List.mem_append_right _ List.mem_cons_self) absent

end GraphRequest
