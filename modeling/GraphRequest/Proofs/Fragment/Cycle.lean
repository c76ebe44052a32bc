import GraphRequest.Proofs.Assembly.Success
import GraphRequest.Proofs.Walk.Fault
import GraphRequest.Proofs.Walk.Log
import Mathlib.Data.List.Chain

/-!
Cycles of fragments. What is reported is a cycle of declared references that the call reaches, and no
call succeeds that reaches a fragment on a cycle.
-/

namespace GraphRequest

inductive SelectionCall
  | field (key : String) (declared : DeclaredField) (site : Site)
  | spread (name : String) (path : Path) (level : Nat) (inherited : Option String)

namespace SelectionCall

def run : SelectionCall → AssemblyM Document.Selection
  | field key declared site => Assembly.selectField key declared site
  | spread name path level inherited => Assembly.spreadFragment name path level inherited

def roots : SelectionCall → List String
  | field _ declared _ => declared.spreadNames
  | spread name _ _ _ => [name]

def visits (known : Variables) : SelectionCall → List Visit
  | field key declared site => Assembly.fieldVisits known site key declared
  | spread name path level inherited => [.spread name ⟨path, level + 1, inherited⟩]

def node : SelectionCall → Document.Selection
  | field key declared _ => Assembly.fieldNode key declared
  | spread name _ _ _ => .spread name

theorem run_eq (call : SelectionCall) (assembly : Assembly) :
    call.run assembly =
      match Visit.performAll (Assembly.expandFragment assembly.scope assembly.expanding)
          (call.visits assembly.known) { definitions := assembly.definitions } with
      | .ok _ progress => .ok call.node (assembly.settle progress)
      | .error cause progress => .error cause (assembly.settle progress) := by
  cases call with
  | field key declared site =>
      rw [run, Assembly.selectField, Assembly.advance_run _
        (Assembly.fieldVisits assembly.known site key declared) (Assembly.fieldNode key declared)
        assembly fun expander => Assembly.fieldSelection_eq_performAll _ expander site key declared]
      rfl
  | spread name path level inherited =>
      have performs : ∀ expander : Expander, (do
          expander name ⟨path, level + 1, inherited⟩
          return .spread name) = (do
          Visit.performAll expander [.spread name ⟨path, level + 1, inherited⟩]
          return Document.Selection.spread name) := by
        intro expander
        simp only [Visit.performAll, Visit.perform, bind_assoc, pure_bind]
      rw [run, Assembly.spreadFragment, Assembly.advance_run _ _ _ assembly performs]
      rfl

theorem run_eq_ok {call : SelectionCall} {assembly after : Assembly} {node : Document.Selection}
    (ran : call.run assembly = .ok node after) :
    node = call.node ∧ ∃ progress, Completes assembly.scope assembly.expanding
      { definitions := assembly.definitions } (call.visits assembly.known) progress ∧
      after = assembly.settle progress := by
  rw [run_eq] at ran
  exact Assembly.performed_eq_ok ran

theorem completes_of_run {call : SelectionCall} {assembly after : Assembly}
    {node : Document.Selection} (ran : call.run assembly = .ok node after) :
    ∃ progress, Completes assembly.scope assembly.expanding
      { definitions := assembly.definitions } (call.visits assembly.known) progress := by
  obtain ⟨-, progress, run, -⟩ := run_eq_ok ran
  exact ⟨progress, run⟩

theorem run_eq_error {call : SelectionCall} {assembly after : Assembly} {cause : RequestError}
    (ran : call.run assembly = .error cause after) :
    ∃ progress, Stops assembly.scope assembly.expanding
      { definitions := assembly.definitions } (call.visits assembly.known) cause progress ∧
      after = assembly.settle progress := by
  rw [run_eq] at ran
  cases performed : Visit.performAll (Assembly.expandFragment assembly.scope assembly.expanding)
      (call.visits assembly.known) { definitions := assembly.definitions } with
  | ok _ progress => rw [performed] at ran; cases ran
  | error other progress =>
      rw [performed] at ran
      cases ran
      exact ⟨progress, stops_of_performAll performed, rfl⟩

theorem stops_of_run {call : SelectionCall} {assembly after : Assembly} {cause : RequestError}
    (ran : call.run assembly = .error cause after) :
    ∃ progress, Stops assembly.scope assembly.expanding
      { definitions := assembly.definitions } (call.visits assembly.known) cause progress := by
  obtain ⟨progress, run, -⟩ := run_eq_error ran
  exact ⟨progress, run⟩

theorem visits_roots (call : SelectionCall) (known : Variables) :
    ∀ spread ∈ Visit.spreads (call.visits known), spread.1 ∈ call.roots := by
  cases call with
  | field key declared site => exact Assembly.fieldVisits_spreadNames known site key declared
  | spread name path level inherited =>
      intro spread member
      rcases List.mem_singleton.mp member with rfl
      exact List.mem_singleton_self name

theorem roots_visits (call : SelectionCall) (known : Variables)
    (faultless : Visit.Faultless (call.visits known)) :
    (Visit.spreads (call.visits known)).map Prod.fst = call.roots := by
  cases call with
  | field key declared site =>
      have levels := Assembly.fieldVisits_spreadLevels known site key declared faultless
      rw [roots, ← DeclaredField.spreadLevels_names site.level, ← levels, List.map_map]
      rfl
  | spread name path level inherited => rfl

theorem visits_fault (call : SelectionCall) (known : Variables) (cause : RequestError)
    (member : .fault cause ∈ call.visits known) : cause.isCyclic = false := by
  cases call with
  | field key declared site => exact Assembly.fieldVisits_fault site key declared member
  | spread name path level inherited => cases List.mem_singleton.mp member

end SelectionCall

def Refers (lookup : String → Option Fragment) (name target : String) : Prop :=
  target ∈ references lookup name

/-- At least two different names, each of which refers to the next and the last to the first. -/
def IsCycle (lookup : String → Option Fragment) (roots names : List String) : Prop :=
  ∃ first rest, names = first :: rest ++ [first] ∧ rest ≠ [] ∧ (first :: rest).Nodup ∧
    (∀ name ∈ first :: rest, (lookup name).isSome ∧ Reached (references lookup) roots name) ∧
    List.IsChain (Refers lookup) names

/-- What holds inside of the fragments `expanding` before the fragments `pending` are spread. -/
structure Opened (lookup : String → Option Fragment) (roots expanding pending : List String) :
    Prop where
  distinct : expanding.Nodup
  registered : ∀ name ∈ expanding, (lookup name).isSome
  opened : ∀ name ∈ expanding, Reached (references lookup) roots name
  reached : ∀ name ∈ pending, Reached (references lookup) roots name
  chained : ∀ name ∈ pending, List.IsChain (Refers lookup) (expanding ++ [name])

namespace Opened

variable {lookup : String → Option Fragment} {roots expanding pending : List String}
  {name : String} {fragment : Fragment}

theorem mono {others : List String} (opened : Opened lookup roots expanding pending)
    (included : ∀ name ∈ others, name ∈ pending) : Opened lookup roots expanding others where
  distinct := opened.distinct
  registered := opened.registered
  opened := opened.opened
  reached name member := opened.reached name (included name member)
  chained name member := opened.chained name (included name member)

theorem inside (opened : Opened lookup roots expanding pending) (member : name ∈ pending)
    (closed : name ∉ expanding) (found : lookup name = some fragment) :
    Opened lookup roots (expanding ++ [name]) (references lookup name) where
  distinct := by
    refine List.nodup_append.mpr ⟨opened.distinct, by simp, ?_⟩
    intro a there b here same
    exact closed (List.mem_singleton.mp here ▸ same ▸ there)
  registered other present := by
    rcases List.mem_append.mp present with before | last
    · exact opened.registered other before
    · rw [List.mem_singleton.mp last, found]
      rfl
  opened other present := by
    rcases List.mem_append.mp present with before | last
    · exact opened.opened other before
    · rw [List.mem_singleton.mp last]
      exact opened.reached name member
  reached target leads := (opened.reached name member).step leads
  chained target leads := by
    rw [List.append_assoc, List.singleton_append]
    refine List.isChain_append_cons_cons.mpr ⟨opened.chained name member, leads, ?_⟩
    exact List.isChain_singleton target

theorem cycle (opened : Opened lookup roots expanding pending) (member : name ∈ pending)
    {front tail : List String} (split : expanding = front ++ name :: tail) :
    List.IsChain (Refers lookup) (name :: tail ++ [name]) := by
  have chained := opened.chained name member
  rw [split, List.append_assoc] at chained
  exact chained.right_of_append

end Opened

theorem recurrence_split {expanding : List String} {name : String} (opened : name ∈ expanding) :
    ∃ front tail, expanding = front ++ name :: tail ∧
      Assembly.recurrence expanding name =
        if tail = [] then .selfInclusion name else .cyclicFragments (name :: tail ++ [name]) := by
  induction expanding with
  | nil => cases opened
  | cons first rest ih =>
      by_cases same : first = name
      · subst same
        refine ⟨[], rest, rfl, ?_⟩
        rw [Assembly.recurrence, List.dropWhile_cons]
        cases rest <;> simp
      · have later := (List.mem_cons.mp opened).resolve_left (Ne.symm same)
        obtain ⟨front, tail, rfl, equal⟩ := ih later
        refine ⟨first :: front, tail, rfl, ?_⟩
        rw [← equal, Assembly.recurrence, Assembly.recurrence, List.dropWhile_cons]
        simp [same]

structure SoundCause (lookup : String → Option Fragment) (roots : List String)
    (cause : RequestError) : Prop where
  cycle : ∀ names, cause = .cyclicFragments names → IsCycle lookup roots names
  self : ∀ name, cause = .selfInclusion name → Refers lookup name name

theorem SoundCause.of_not_isCyclic {lookup : String → Option Fragment} {roots : List String}
    {cause : RequestError} (ordinary : cause.isCyclic = false) : SoundCause lookup roots cause where
  cycle names same := by
    rw [same] at ordinary
    cases ordinary
  self name same := by
    rw [same] at ordinary
    cases ordinary

theorem Opened.recurrence_sound {lookup : String → Option Fragment}
    {roots expanding pending : List String} {name : String}
    (opened : Opened lookup roots expanding pending) (member : name ∈ pending)
    (again : name ∈ expanding) :
    SoundCause lookup roots (Assembly.recurrence expanding name) := by
  obtain ⟨front, tail, split, equal⟩ := recurrence_split again
  have chain := opened.cycle member split
  rw [equal]
  by_cases last : tail = []
  · rw [if_pos last]
    subst last
    refine ⟨fun _ same => (by cases same), fun other same => ?_⟩
    cases same
    exact (List.isChain_cons_cons.mp chain).1
  · rw [if_neg last]
    refine ⟨fun names same => ?_, fun _ same => (by cases same)⟩
    cases same
    have suffix : ∀ other ∈ name :: tail, other ∈ expanding := by
      intro other present
      rw [split]
      exact List.mem_append_right _ present
    refine ⟨name, tail, rfl, last, ?_, ?_, chain⟩
    · have distinct := opened.distinct
      rw [split] at distinct
      exact (List.nodup_append.mp distinct).2.1
    · intro other present
      exact ⟨opened.registered other (suffix other present),
        opened.opened other (suffix other present)⟩

/-- A run that stops names only real cycles. -/
theorem Stops.soundCause {scope : Scope} {expanding roots : List String} {before after : Progress}
    {visits : List Visit} {cause : RequestError}
    (run : Stops scope expanding before visits cause after)
    (ordinary : ∀ cause, .fault cause ∈ visits → cause.isCyclic = false)
    (opened : Opened scope.fragments.get? roots expanding
      ((Visit.spreads visits).map Prod.fst)) :
    SoundCause scope.fragments.get? roots cause := by
  induction run with
  | fault => exact .of_not_isCyclic (ordinary _ List.mem_cons_self)
  | meet _ ih =>
      exact ih (fun cause member => ordinary cause (List.mem_cons_of_mem _ member)) opened
  | reuse _ _ ih =>
      exact ih (fun cause member => ordinary cause (List.mem_cons_of_mem _ member))
        (opened.mono fun _ => List.mem_cons_of_mem _)
  | recur _ again => exact opened.recurrence_sound List.mem_cons_self again
  | unknown => exact .of_not_isCyclic rfl
  | @inside _ _ name site _ fragment _ _ _ closed found _ ih =>
      apply ih (fun cause => Fragment.visits_fault)
      refine (opened.inside List.mem_cons_self closed found).mono fun target member => ?_
      rcases List.mem_map.mp member with ⟨spread, present, rfl⟩
      rw [references, found]
      exact fragment.visits_references scope.known site spread present
  | behind _ _ _ _ _ ih =>
      exact ih (fun cause member => ordinary cause (List.mem_cons_of_mem _ member))
        (opened.mono fun _ => List.mem_cons_of_mem _)

theorem Completes.acyclic {scope : Scope} {after : Progress} {visits : List Visit}
    (run : Completes scope [] { definitions := .empty } visits after) {name : String}
    (reached : Reached (references scope.fragments.get?) ((Visit.spreads visits).map Prod.fst) name) :
    ¬Relation.TransGen (Refers scope.fragments.get?) name name := by
  obtain ⟨log, logged⟩ := run.logged [] rfl
  have order := logged.names
  exact (order.grounded .nil).acyclic ((order.mem_iff_reached name).mpr reached)

/-- On an assembly without definitions, a reported cycle is one, and no call succeeds that reaches a
cycle. -/
theorem cycles_detected (assembly : Assembly) (call : SelectionCall)
    (idle : assembly.expanding = []) (bare : assembly.definitions = .empty) :
    (∀ names after, call.run assembly = .error (.cyclicFragments names) after →
      IsCycle assembly.fragments.get? call.roots names) ∧
    (∀ name after, call.run assembly = .error (.selfInclusion name) after →
      Refers assembly.fragments.get? name name) ∧
    (∀ name, Reached (references assembly.fragments.get?) call.roots name →
      Relation.TransGen (Refers assembly.fragments.get?) name name →
      ∀ node after, call.run assembly ≠ .ok node after) := by
  have sound : ∀ cause after, call.run assembly = .error cause after →
      SoundCause assembly.fragments.get? call.roots cause := by
    intro cause after ran
    obtain ⟨progress, stops⟩ := SelectionCall.stops_of_run ran
    rw [idle] at stops
    refine stops.soundCause (call.visits_fault assembly.known) ⟨List.nodup_nil, ?_, ?_, ?_, ?_⟩
    · intro name member
      cases member
    · intro name member
      cases member
    · intro name member
      rcases List.mem_map.mp member with ⟨spread, present, rfl⟩
      exact .root (call.visits_roots assembly.known spread present)
    · intro name member
      exact List.isChain_singleton name
  refine ⟨fun names after ran => (sound _ after ran).cycle names rfl,
    fun name after ran => (sound _ after ran).self name rfl, ?_⟩
  intro name reached cycle node after ran
  obtain ⟨progress, completes⟩ := SelectionCall.completes_of_run ran
  rw [idle, bare] at completes
  have roots := call.roots_visits assembly.known completes.faultless
  refine completes.acyclic ?_ cycle
  rw [roots]
  exact reached

def loopedAssembly : Assembly where
  name := "Query"
  fragments := ⟨[
    ("A", { name := "A", typeCondition := "User", includes := ["B"] }),
    ("B", {
      name := "B"
      typeCondition := "User"
      fields := ⟨[("child", .mk { spreads := ["A"] } [])], by decide⟩ })], by decide⟩

theorem loopedAssembly_cycles_detected :
    loopedAssembly.expanding = [] ∧ loopedAssembly.definitions = .empty ∧
    ∃ after, (SelectionCall.spread "A" .root 0 none).run loopedAssembly =
        .error (.cyclicFragments ["A", "B", "A"]) after ∧
      IsCycle loopedAssembly.fragments.get? ["A"] ["A", "B", "A"] ∧
      ∀ node after, (SelectionCall.spread "A" .root 0 none).run loopedAssembly ≠
        .ok node after := by
  have reported : (match (SelectionCall.spread "A" .root 0 none).run loopedAssembly with
      | .error (.cyclicFragments names) _ => some names
      | _ => none) = some ["A", "B", "A"] := by
    decide +kernel
  have looped : Relation.TransGen (Refers loopedAssembly.fragments.get?) "A" "A" :=
    .tail (.single (show "B" ∈ references loopedAssembly.fragments.get? "A" by decide +kernel))
      (show "A" ∈ references loopedAssembly.fragments.get? "B" by decide +kernel)
  obtain ⟨sound, -, complete⟩ :=
    cycles_detected loopedAssembly (.spread "A" .root 0 none) rfl rfl
  refine ⟨rfl, rfl, ?_⟩
  split at reported
  · next names after ran =>
      rcases Option.some.inj reported with rfl
      exact ⟨after, ran, sound _ after ran, complete "A" (.root List.mem_cons_self) looped⟩
  · cases reported

end GraphRequest
