import GraphRequest.Proofs.Assembly.Reachable
import GraphRequest.Proofs.Expectation.Registry
import GraphRequest.Proofs.Fragment.Termination
import GraphRequest.Proofs.Value.Leaf

/-!
What holds of every reachable assembly, also behind calls that failed: variables, fragments and
expectations are kept under their own names, and the definitions are complete.
-/

namespace GraphRequest

structure Variable.IsKeptAs (name : String) (kept : Variable) : Prop where
  named : kept.name = name
  unmarked : '!' ∉ kept.type.name.toList
  independent : ∀ other, .reference other ∉ kept.value.leaves

/-- The registries of an assembly between two calls, told together with what is sound of it: nothing
is being expanded, each definition is that of a registered fragment, and all that the fragment refers
to is defined before it. -/
structure Assembly.Consistent (assembly : Assembly) : Prop extends assembly.Sound where
  known : ∀ entry ∈ assembly.known.entries, entry.2.IsKeptAs entry.1
  fragments : ∀ entry ∈ assembly.fragments.entries,
    entry.2.name = entry.1 ∧ entry.1 ∉ entry.2.includes
  expectations : ∀ entry ∈ assembly.expectations.entries, entry.1 = entry.2.slot

theorem DeclaredVariable.isKeptAs {declared : DeclaredVariable} {name : String} {named : Variable}
    (accepted : declared.named name = .ok named) : named.IsKeptAs name := by
  obtain ⟨unmarked, independent, rfl⟩ := named_eq_ok accepted
  refine ⟨rfl, unmarked, fun other member => ?_⟩
  rw [(Value.hasReference_iff _).mpr ⟨other, member⟩] at independent
  cases independent

namespace Assembly

theorem mem_known_keepVariable {name : String} {first : Variable} {assembly : Assembly}
    {entry : String × Variable} (member : entry ∈ (keepVariable name first assembly).known.entries) :
    entry ∈ assembly.known.entries ∨ entry = (name, first) := by
  rw [keepVariable] at member
  split at member
  · exact .inl member
  · exact Entries.mem_insert member

theorem Consistent.change {before after : Assembly} (consistent : before.Consistent)
    (change : Change before after) : after.Consistent := by
  have sound := consistent.toSound.change change
  cases change with
  | @keep declared name named accepted =>
      obtain ⟨known, same⟩ := keepVariable_eq name named before
      refine ⟨sound, fun entry member => ?_, ?_, ?_⟩
      · rcases mem_known_keepVariable member with earlier | rfl
        · exact consistent.known entry earlier
        · exact declared.isKeptAs accepted
      · rw [same]
        exact consistent.fragments
      · rw [same]
        exact consistent.expectations
  | @register fragment _ added =>
      obtain ⟨-, apart, rfl⟩ := add_eq_ok_iff.mp added
      refine ⟨sound, consistent.known, fun entry member => ?_, consistent.expectations⟩
      rcases Entries.mem_insert member with earlier | rfl
      · exact consistent.fragments entry earlier
      · exact ⟨rfl, apart⟩
  | settle visits =>
      refine ⟨sound, consistent.known, consistent.fragments, fun entry member => ?_⟩
      rcases Expectations.mem_entries_putAll member with earlier | ⟨-, slotted⟩
      · exact consistent.expectations entry earlier
      · exact slotted

end Assembly

/-- Whatever calls were made and however they ended, the assembly is consistent. -/
theorem Reachable.consistent {assembly : Assembly} (reachable : Reachable assembly) :
    assembly.Consistent :=
  reachable.induct
    (fun _ => ⟨⟨rfl, .empty⟩, List.forall_mem_nil _, List.forall_mem_nil _, List.forall_mem_nil _⟩)
    fun _ _ => Assembly.Consistent.change

section Stack

/-!
Why nothing is being expanded between two calls: the machine that performs a call pops all that it
pushes, also behind a fault, and no other step of a call touches the stack.
-/

variable {stack : List String}

namespace Assembly

abbrev HasStack (stack : List String) (assembly : Assembly) : Prop :=
  assembly.expanding = stack

theorem hasStack_introduceVariables (declared : List (String × DeclaredVariable)) :
    Preserves (HasStack stack) (introduceVariables declared) := by
  induction declared with
  | nil => exact .pure _
  | cons entry rest ih =>
      refine .bind (.ofExcept _) fun named => .bind ?_ fun _ => .bind ih fun _ => .pure _
      intro assembly holds
      obtain ⟨known, same⟩ := keepVariable_eq entry.1 named assembly
      exact (congrArg expanding same).trans holds

theorem hasStack_introduceFragment (fragment : Fragment) :
    Preserves (HasStack stack) (introduceFragment fragment) :=
  .bind .get fun _ => .bind (.ofExcept _) fun _ _ holds => holds

theorem selectFields_leads (declared : List (String × DeclaredField)) (site : Site)
    (assembly : Assembly) :
    ∃ final, Machine.Leads assembly.scope (.starting assembly (Task.fields site declared)) final ∧
      final.tasks = [] ∧ final.opened = assembly.expanding ∧
      finalState (selectFields declared site assembly) =
        { assembly.settle final.progress with expanding := final.opened } := by
  have plain : Task.closing (Task.fields site declared) = [] := Task.closing_fields declared
  obtain ⟨final, leads, finished, same, ran⟩ := Machine.starting_leads assembly plain
  refine ⟨final, leads, finished, same, ?_⟩
  rw [selectFields_eq, ← Task.allVisits_fields, ran, same]
  cases final.fault <;> rfl

theorem hasStack_selectFields (declared : List (String × DeclaredField)) (site : Site) :
    Preserves (HasStack stack) (selectFields declared site) := by
  intro assembly holds
  obtain ⟨final, -, -, same, ran⟩ := selectFields_leads declared site assembly
  rw [HasStack, ran]
  exact same.trans holds

end Assembly

open Assembly

theorem SelectionCall.hasStack_run (call : SelectionCall) :
    Preserves (HasStack stack) call.run := by
  intro assembly holds
  obtain ⟨final, -, -, same, ran⟩ := call.machine_leads assembly
  rw [ran, settled]
  cases final.fault <;> exact same.trans holds

/-- Behind a call the stack is the one from before it, also if the call fails. -/
theorem Call.expanding_after (call : Call) (assembly : Assembly) :
    (call.after assembly).expanding = assembly.expanding := by
  cases call with
  | inputs declared => exact hasStack_introduceVariables _ assembly rfl
  | fragment declared => exact hasStack_introduceFragment declared assembly rfl
  | arguments | directives =>
      exact Preserves.bind (P := HasStack assembly.expanding) .get
        (fun _ => .bind (.ofExcept _) fun _ => .pure _) assembly rfl
  | selection call => exact call.hasStack_run assembly rfl
  | operation declared =>
      have keeps : Preserves (HasStack assembly.expanding) declared.assemble :=
        .bind (hasStack_introduceVariables _) fun _ => .bind (hasStack_selectFields _ _) fun _ =>
        .bind .get fun _ => .bind (.ofExcept _) fun _ => .bind .get fun _ => .pure _
      exact keeps assembly rfl

theorem Reachable.idle {assembly : Assembly} (reachable : Reachable assembly) :
    assembly.expanding = [] := by
  induction reachable with
  | new name => rfl
  | call _ call ih => exact (call.expanding_after _).trans ih

/-- On a reachable assembly the machine starts with nothing opened, and has closed all that it opened
where it ends. -/
theorem Reachable.machine_idle {assembly : Assembly} (reachable : Reachable assembly)
    (call : SelectionCall) :
    (call.machine assembly).opened = [] ∧
    ∃ final, Machine.Leads assembly.scope (call.machine assembly) final ∧ final.tasks = [] ∧
      final.opened = [] ∧ call.run assembly = call.settled assembly final := by
  obtain ⟨final, leads, finished, same, ran⟩ := call.machine_leads assembly
  exact ⟨reachable.idle, final, leads, finished, same.trans reachable.idle, ran⟩

end Stack

def halfIntroduced : Assembly :=
  (Call.inputs ⟨[("first", ⟨.int 10, "Int", false⟩), ("after", ⟨.null, "ID!", true⟩)], by decide⟩).after
    ((Call.fragment { name := "Card", typeCondition := "User", includes := ["Base", "Gone"] }).after
      ((Call.fragment { name := "Base", typeCondition := "Node", scalars := ["id"] }).after
        (.new "Query")))

def halfExpanded : Assembly :=
  (Call.selection (.field "user" (.mk { spreads := ["Card"] } []) Site.root)).after halfIntroduced

theorem halfExpanded_consistent : Reachable halfExpanded ∧
    halfExpanded.known.keys = ["first"] ∧ halfExpanded.fragments.keys = ["Base", "Card"] ∧
    halfExpanded.definitions.keys = ["Base"] ∧ halfExpanded.expectations.keys = [("user", 1)] ∧
    halfExpanded.Consistent := by
  have reachable : Reachable halfExpanded := .call (.call (.call (.call (.new "Query") _) _) _) _
  refine ⟨reachable, by decide +kernel, by decide +kernel, by decide +kernel, by decide +kernel, ?_⟩
  exact reachable.consistent

end GraphRequest
