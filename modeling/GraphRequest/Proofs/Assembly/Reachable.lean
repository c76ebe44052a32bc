import GraphRequest.Proofs.Assembly.Introduction
import GraphRequest.Proofs.Fragment.Cycle
import GraphRequest.Proofs.Walk.Cache

/-!
The assemblies that calls lead to, whether the calls succeed or fail. Every call is a row of changes
of three kinds, so all that these keep holds of the assemblies: no fragment is being expanded, and the
definitions are complete.
-/

namespace GraphRequest

section Preservation

variable {σ α β : Type}

def finalState : EStateM.Result RequestError σ α → σ
  | .ok _ final => final
  | .error _ final => final

def failure? : EStateM.Result RequestError σ α → Option RequestError
  | .ok _ _ => none
  | .error cause _ => some cause

def Preserves (P : σ → Prop) (step : EStateM RequestError σ α) : Prop :=
  ∀ state, P state → P (finalState (step state))

namespace Preserves

variable {P : σ → Prop}

protected theorem pure (a : α) : Preserves P (pure a) :=
  fun _ holds => holds

protected theorem ofExcept (result : Except RequestError α) : Preserves P (ofExcept result) := by
  intro state holds
  rw [ofExcept_run]
  cases result <;> exact holds

protected theorem get : Preserves P (get : EStateM RequestError σ σ) :=
  fun _ holds => holds

protected theorem bind {step : EStateM RequestError σ α} {next : α → EStateM RequestError σ β}
    (first : Preserves P step) (second : ∀ a, Preserves P (next a)) :
    Preserves P (step >>= next) := by
  intro state holds
  have middle := first state holds
  rw [bind_run]
  cases ran : step state with
  | ok a after =>
      rw [ran] at middle
      exact second a after middle
  | error cause after =>
      rw [ran] at middle
      exact middle

end Preserves

end Preservation

inductive Call
  | inputs (declared : OrderedMap String DeclaredVariable)
  | fragment (declared : Fragment)
  | arguments (entries : OrderedMap String Value)
  | directives (declared : List Directive)
  | selection (call : SelectionCall)
  | operation (declared : Operation)

def Call.after (assembly : Assembly) : Call → Assembly
  | inputs declared => finalState (Assembly.introduceVariables declared.entries assembly)
  | fragment declared => finalState (Assembly.introduceFragment declared assembly)
  | arguments entries => finalState (Assembly.writeArguments entries.entries assembly)
  | directives declared => finalState (Assembly.writeDirectives declared assembly)
  | selection call => finalState (call.run assembly)
  | operation declared => finalState (declared.assemble assembly)

inductive Reachable : Assembly → Prop
  | new (name : String) : Reachable (.new name)
  | call {assembly : Assembly} (before : Reachable assembly) (call : Call) :
      Reachable (call.after assembly)

namespace Assembly

/-- One change of an assembly. The selections that are settled need not be complete. -/
inductive Change : Assembly → Assembly → Prop
  | keep {assembly : Assembly} {declared : DeclaredVariable} {name : String} {named : Variable}
      (accepted : declared.named name = .ok named) :
      Change assembly (keepVariable name named assembly)
  | register {assembly : Assembly} {fragment : Fragment} {fragments : Fragments}
      (added : assembly.fragments.add fragment = .ok fragments) :
      Change assembly { assembly with fragments }
  | settle {assembly : Assembly} (visits : List Visit) :
      Change assembly (assembly.settle (finalState (Visit.performAll
        (expandFragment assembly.scope assembly.expanding) visits
        { definitions := assembly.definitions })))

abbrev Changes : Assembly → Assembly → Prop :=
  Relation.ReflTransGen Change

theorem introduceVariables_changes (declared : List (String × DeclaredVariable))
    (assembly : Assembly) :
    Changes assembly (finalState (introduceVariables declared assembly)) := by
  induction declared generalizing assembly with
  | nil => exact .refl
  | cons entry rest ih =>
      obtain ⟨name, declared⟩ := entry
      rw [introduceVariables_cons_run]
      cases accepted : declared.named name with
      | error cause => exact .refl
      | ok named =>
          have later := ih (keepVariable name named assembly)
          dsimp only
          cases ran : introduceVariables rest (keepVariable name named assembly) with
          | ok definitions after =>
              rw [ran] at later
              exact .head (.keep accepted) later
          | error cause after =>
              rw [ran] at later
              exact .head (.keep accepted) later

theorem introduceFragment_changes (fragment : Fragment) (assembly : Assembly) :
    Changes assembly (finalState (introduceFragment fragment assembly)) := by
  rw [introduceFragment, get_bind_run, bind_run, ofExcept_run]
  cases added : assembly.fragments.add fragment with
  | ok fragments => exact .single (.register added)
  | error cause => exact .refl

theorem performed_changes {α : Type} (visits : List Visit) (a : α) (assembly : Assembly) :
    Changes assembly (finalState (match Visit.performAll
        (expandFragment assembly.scope assembly.expanding) visits
        { definitions := assembly.definitions } with
      | .ok _ progress => .ok a (assembly.settle progress)
      | .error cause progress => .error cause (assembly.settle progress))) := by
  have settled := @Change.settle assembly visits
  cases ran : Visit.performAll (expandFragment assembly.scope assembly.expanding) visits
      { definitions := assembly.definitions } with
  | ok _ progress =>
      rw [ran] at settled
      exact .single settled
  | error cause progress =>
      rw [ran] at settled
      exact .single settled

theorem selectFields_changes (declared : List (String × DeclaredField)) (site : Site)
    (assembly : Assembly) :
    Changes assembly (finalState (selectFields declared site assembly)) := by
  rw [selectFields_eq]
  exact performed_changes _ _ assembly

end Assembly

theorem Preserves.of_changes {α : Type} {step : AssemblyM α} {start : Assembly}
    (changes : ∀ assembly, Assembly.Changes assembly (finalState (step assembly))) :
    Preserves (Assembly.Changes start) step :=
  fun assembly reached => reached.trans (changes assembly)

theorem Operation.assemble_changes (operation : Operation) (assembly : Assembly) :
    assembly.Changes (finalState (operation.assemble assembly)) := by
  have preserved : Preserves assembly.Changes operation.assemble :=
    .bind (.of_changes (Assembly.introduceVariables_changes _)) fun _ =>
    .bind (.of_changes (Assembly.selectFields_changes _ _)) fun _ =>
    .bind .get fun _ => .bind (.ofExcept _) fun _ => .bind .get fun _ => .pure _
  exact preserved assembly .refl

theorem Call.changes (call : Call) (assembly : Assembly) :
    assembly.Changes (call.after assembly) := by
  cases call with
  | inputs declared => exact Assembly.introduceVariables_changes _ assembly
  | fragment declared => exact Assembly.introduceFragment_changes declared assembly
  | arguments entries =>
      exact Preserves.bind .get (fun _ => .bind (.ofExcept _) fun _ => .pure _) assembly .refl
  | directives declared =>
      exact Preserves.bind .get (fun _ => .bind (.ofExcept _) fun _ => .pure _) assembly .refl
  | selection call =>
      rw [after, call.run_eq]
      exact Assembly.performed_changes _ _ assembly
  | operation declared => exact declared.assemble_changes assembly

theorem Reachable.induct {P : Assembly → Prop} {assembly : Assembly}
    (reachable : Reachable assembly) (new : ∀ name, P (.new name))
    (change : ∀ before after, P before → Assembly.Change before after → P after) : P assembly := by
  induction reachable with
  | new name => exact new name
  | @call before _ call ih =>
      have row := call.changes before
      generalize call.after before = after at row ⊢
      induction row with
      | refl => exact ih
      | tail _ last holds => exact change _ _ holds last

structure Assembly.Sound (assembly : Assembly) : Prop where
  idle : assembly.expanding = []
  definitions : Definitions.Sound assembly.fragments.get? assembly.definitions

theorem Definitions.Sound.mono {lookup other : String → Option Fragment} {definitions : Definitions}
    (sound : Sound lookup definitions)
    (more : ∀ name fragment, lookup name = some fragment → other name = some fragment) :
    Sound other definitions where
  nodes entry member := by
    obtain ⟨fragment, found, node⟩ := sound.nodes entry member
    exact ⟨fragment, more entry.1 fragment found, node⟩
  grounded := by
    intro front name back split target leads
    have member : name ∈ definitions.keys := split ▸ List.mem_append_right _ List.mem_cons_self
    obtain ⟨entry, present, rfl⟩ := List.mem_map.mp member
    obtain ⟨fragment, found, -⟩ := sound.nodes entry present
    apply sound.grounded front entry.1 back split target
    rw [references, more entry.1 fragment found] at leads
    rw [references, found]
    exact leads

/-- Whatever visits are performed, complete or not, the definitions are complete. -/
theorem performAll_sound (scope : Scope) (expanding : List String) (visits : List Visit)
    (before : Progress) (start : Definitions.Sound scope.fragments.get? before.definitions) :
    Definitions.Sound scope.fragments.get?
      (finalState (Visit.performAll (Assembly.expandFragment scope expanding) visits
        before)).definitions := by
  have follows := performAll_follows scope expanding before visits
  cases ran : Visit.performAll (Assembly.expandFragment scope expanding) visits before with
  | ok _ after =>
      rw [ran] at follows
      exact Completes.sound follows start
  | error cause after =>
      rw [ran] at follows
      exact Stops.sound follows start

theorem Assembly.Sound.change {before after : Assembly} (sound : before.Sound)
    (change : Change before after) : after.Sound := by
  cases change with
  | @keep declared name named _ =>
      obtain ⟨known, same⟩ := keepVariable_eq name named before
      rw [same]
      exact ⟨sound.idle, sound.definitions⟩
  | @register fragment _ added =>
      obtain ⟨absent, -, rfl⟩ := add_eq_ok_iff.mp added
      refine ⟨sound.idle, sound.definitions.mono fun name other found => ?_⟩
      have different : fragment.name ≠ name := fun same => absent (same ▸ mem_keys_of_get? found)
      exact (OrderedMap.get?_insert _ _ _ _).trans ((if_neg different).trans found)
  | settle visits =>
      exact ⟨sound.idle, performAll_sound before.scope before.expanding visits
        { definitions := before.definitions } sound.definitions⟩

theorem Reachable.sound {assembly : Assembly} (reachable : Reachable assembly) : assembly.Sound :=
  reachable.induct (fun _ => ⟨rfl, .empty⟩) fun _ _ => Assembly.Sound.change

end GraphRequest
