import ScriptBridge.Binding.Builder

/-!
What a builder makes of its steps. It never fails before the end: the steps bring their functions
together, one after the other, and leave the last policy given among them. Building is then one
binding of these functions under this policy.
-/
namespace ScriptBridge

namespace Builder

def Step.policy? : Step → Option Policy
  | .policy p => some p
  | _ => none

def lastPolicy (steps : List Step) : Option Policy := (steps.filterMap Step.policy?).getLast?

def Step.supply : Step → List NativeFunction
  | .function f => [f]
  | .functions fs => fs
  | .declarations ds => ds.filterMap Declaration.function?
  | .native m => m.members.filterMap Declaration.function?
  | .policy _ => []

def Step.searched : Step → List Declaration
  | .declarations ds => ds
  | .native m => m.members
  | _ => []

def findings (ds : List Declaration) : Journal := ds.map (.event ·.discovery)

theorem lastPolicy_cons (s : Step) (ss : List Step) (p : Policy) :
    (lastPolicy (s :: ss)).getD p = (lastPolicy ss).getD (s.policy?.getD p) := by
  cases hs : s.policy? with
  | none => simp [lastPolicy, hs]
  | some q => simp [lastPolicy, hs, List.getLast?_cons]

theorem step_eq (b : Builder) (s : Step) : b.step s =
    ⟨findings s.searched, .ok ⟨b.space, b.functions ++ s.supply, s.policy?.getD b.policy⟩⟩ := by
  cases s with
  | policy p => simp [step, Run.pure_eq, findings, Step.searched, Step.supply, Step.policy?]
  | declarations ds =>
    simp only [step, Declaration.discover, Run.ok_bind, Run.pure_eq, List.append_nil]
    rfl
  | native m =>
    simp only [step, Declaration.discover, Run.ok_bind, Run.pure_eq, List.append_nil]
    rfl
  | _ => rfl

theorem steps_eq (b : Builder) (ss : List Step) : b.steps ss =
    ⟨findings (ss.flatMap Step.searched),
      .ok ⟨b.space, b.functions ++ ss.flatMap Step.supply, (lastPolicy ss).getD b.policy⟩⟩ := by
  induction ss generalizing b with
  | nil => simp [steps, Run.pure_eq, findings, lastPolicy]
  | cons s ss ih =>
    rw [steps, step_eq, Run.ok_bind, ih]
    simp [findings, lastPolicy_cons]

end Builder

/-- A builder first searches all of its declarations and then binds what was supplied. -/
theorem Module.build_eq (space : String) (ss : List Builder.Step) :
    let bound := bind space ((Builder.lastPolicy ss).getD .lenient)
      (ss.flatMap Builder.Step.supply)
    build space ss =
      ⟨Builder.findings (ss.flatMap Builder.Step.searched) ++ bound.journal, bound.result⟩ := by
  rw [build, Builder.steps_eq, Run.ok_bind]
  rfl

end ScriptBridge
