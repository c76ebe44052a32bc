import GraphRequest.Proofs.Assembly.Reachable
import GraphRequest.Proofs.Walk.Completion

/-!
Assemblies that differ in the definitions they hold already. What a call adds does not depend on these
definitions, and they never make a call fail.
-/

namespace GraphRequest

namespace SelectionCall

inductive Moved : SelectionCall → SelectionCall → Prop
  | field (key : String) (declared : DeclaredField) (site other : Site) :
      Moved (.field key declared site) (.field key declared other)
  | spread (name : String) (path other : Path) (level below : Nat)
      (inherited expected : Option String) :
      Moved (.spread name path level inherited) (.spread name other below expected)

theorem Moved.node_eq {call other : SelectionCall} (moved : call.Moved other) :
    other.node = call.node := by
  cases moved <;> rfl

variable {call : SelectionCall} {assembly after : Assembly} {node : Document.Selection}
  {progress : Progress}

theorem run_of_completes (run : Completes assembly.scope assembly.expanding
      { definitions := assembly.definitions } (call.visits assembly.known) progress) :
    call.run assembly = .ok call.node (assembly.settle progress) := by
  rw [run_eq, run.performAll]

theorem definition_of_run (sound : assembly.Sound) (ran : call.run assembly = .ok node after)
    {name : String} {definition : Document.Fragment}
    (found : after.definitions.get? name = some definition) :
    ∃ fragment, assembly.fragments.get? name = some fragment ∧ definition = fragment.node := by
  obtain ⟨-, progress, run, rfl⟩ := run_eq_ok ran
  exact (run.sound sound.definitions).get?_eq found

end SelectionCall

section

variable {first second : Assembly} {call : SelectionCall}

/-- Where a call succeeds without definitions, it succeeds with them. -/
theorem Assembly.Sound.run_warm (cold : first.Sound) (warm : second.Sound)
    (known : second.known = first.known) (fragments : second.fragments = first.fragments)
    (bare : first.definitions = .empty) {node : Document.Selection} {after : Assembly}
    (ran : call.run first = .ok node after) :
    ∃ final, call.run second = .ok node final := by
  have scope : second.scope = first.scope := by
    rw [scope, scope, known, fragments]
  obtain ⟨rfl, progress, run, -⟩ := SelectionCall.run_eq_ok ran
  rw [cold.idle, bare] at run
  have closed : ∀ name ∈ second.definitions.keys,
      ∀ target ∈ references first.scope.fragments.get? name, target ∈ second.definitions.keys := by
    intro name member target leads
    rw [← scope] at leads
    exact warm.definitions.closed member leads
  have keys : ∀ name, name ∈ ({ definitions := second.definitions } : Progress).definitions.keys ↔
      name ∈ second.definitions.keys ∨
      name ∈ ({ definitions := .empty } : Progress).definitions.keys := by
    simp
  obtain ⟨final, run, -⟩ := run.warm closed (List.Subset.refl []) keys
  rw [← known, ← scope, ← warm.idle] at run
  exact ⟨_, SelectionCall.run_of_completes run⟩

end

/-- Two assemblies with the same variables and fragments agree on every call, whatever definitions
they hold: on the text of the selection wherever it stands, on the definitions that both have then,
and on the success of calls that succeed without any definitions. -/
theorem calls_agree {first second : Assembly} {call other : SelectionCall}
    (reached : Reachable first) (alsoReached : Reachable second)
    (known : second.known = first.known) (fragments : second.fragments = first.fragments)
    (moved : call.Moved other) :
    (∀ node after otherNode otherAfter, call.run first = .ok node after →
      other.run second = .ok otherNode otherAfter →
      otherNode.text = node.text ∧ ∀ name definition otherDefinition,
        after.definitions.get? name = some definition →
        otherAfter.definitions.get? name = some otherDefinition →
        otherDefinition.text = definition.text) ∧
    (first.definitions = .empty → ∀ node after, call.run first = .ok node after →
      ∃ otherNode otherAfter, call.run second = .ok otherNode otherAfter) := by
  constructor
  · intro node after otherNode otherAfter ran otherRan
    obtain ⟨rfl, -⟩ := SelectionCall.run_eq_ok ran
    obtain ⟨rfl, -⟩ := SelectionCall.run_eq_ok otherRan
    refine ⟨by rw [moved.node_eq], fun name definition otherDefinition found otherFound => ?_⟩
    obtain ⟨fragment, registered, rfl⟩ := SelectionCall.definition_of_run reached.sound ran found
    obtain ⟨same, again, rfl⟩ :=
      SelectionCall.definition_of_run alsoReached.sound otherRan otherFound
    rw [fragments, registered] at again
    rw [Option.some.inj again]
  · intro bare node after ran
    obtain ⟨final, again⟩ := reached.sound.run_warm alsoReached.sound known fragments bare ran
    exact ⟨node, final, again⟩

theorem SelectionCall.after_eq (call : SelectionCall) (assembly : Assembly) :
    ∃ progress, (Call.selection call).after assembly = assembly.settle progress := by
  rw [Call.after, call.run_eq]
  cases Visit.performAll (Assembly.expandFragment assembly.scope assembly.expanding)
      (call.visits assembly.known) { definitions := assembly.definitions } with
  | ok _ progress => exact ⟨progress, rfl⟩
  | error cause progress => exact ⟨progress, rfl⟩

def coldAssembly : Assembly :=
  (Call.fragment { name := "Card", typeCondition := "User", includes := ["Base"] }).after
    ((Call.fragment { name := "Base", typeCondition := "Node", scalars := ["id"] }).after
      (.new "Query"))

def warmAssembly : Assembly :=
  (Call.selection (.spread "Base" .root 0 none)).after coldAssembly

def cardField (site : Site) : SelectionCall :=
  .field "user" (.mk { spreads := ["Card"] } []) site

theorem warmAssembly_agrees : Reachable coldAssembly ∧ Reachable warmAssembly ∧
    warmAssembly.known = coldAssembly.known ∧ warmAssembly.fragments = coldAssembly.fragments ∧
    coldAssembly.definitions = .empty ∧ warmAssembly.definitions.keys = ["Base"] ∧
    ∃ node after otherNode otherAfter, (cardField Site.root).run coldAssembly = .ok node after ∧
      (cardField ⟨.root, 3, some "User"⟩).run warmAssembly = .ok otherNode otherAfter ∧
      otherNode.text = node.text ∧
      ∃ againNode againAfter, (cardField Site.root).run warmAssembly = .ok againNode againAfter := by
  have cold : Reachable coldAssembly := .call (.call (.new "Query") _) _
  have warm : Reachable warmAssembly := .call cold _
  obtain ⟨progress, settled⟩ :=
    SelectionCall.after_eq (.spread "Base" .root 0 none) coldAssembly
  have known : warmAssembly.known = coldAssembly.known := by
    rw [warmAssembly, settled]
    rfl
  have fragments : warmAssembly.fragments = coldAssembly.fragments := by
    rw [warmAssembly, settled]
    rfl
  have moved : (cardField Site.root).Moved (cardField ⟨.root, 3, some "User"⟩) := .field _ _ _ _
  have succeeds : ∀ (call : SelectionCall) (assembly : Assembly),
      (match call.run assembly with
        | .ok _ _ => true
        | .error _ _ => false) = true → ∃ node after, call.run assembly = .ok node after := by
    intro call assembly ok
    cases ran : call.run assembly with
    | ok node after => exact ⟨node, after, rfl⟩
    | error cause after =>
        rw [ran] at ok
        cases ok
  obtain ⟨node, after, ran⟩ := succeeds (cardField Site.root) coldAssembly (by decide +kernel)
  obtain ⟨otherNode, otherAfter, otherRan⟩ :=
    succeeds (cardField ⟨.root, 3, some "User"⟩) warmAssembly (by decide +kernel)
  obtain ⟨same, -⟩ :=
    (calls_agree cold warm known fragments moved).1 node after otherNode otherAfter ran otherRan
  have again := (calls_agree cold warm known fragments moved).2 rfl node after ran
  exact ⟨cold, warm, known, fragments, rfl, by decide +kernel, node, after, otherNode, otherAfter,
    ran, otherRan, same, again⟩

end GraphRequest
