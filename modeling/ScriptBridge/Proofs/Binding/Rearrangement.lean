import Mathlib.Logic.Relation
import ScriptBridge.Proofs.Binding.Steps

/-!
What does not matter to a builder. Its result depends on nothing but the functions that its steps
supply, in their order, and on the last policy. So how the functions are spread over the steps makes
no difference, nor does the place of a lone policy.
-/
namespace ScriptBridge

namespace Builder

/-- Steps that may stand in place of others wherever those stand. -/
inductive Replaces : List Step → List Step → Prop
  | single (f : NativeFunction) : Replaces [.function f] [.functions [f]]
  | functions (fs gs : List NativeFunction) :
      Replaces [.functions (fs ++ gs)] [.functions fs, .functions gs]
  | declarations (ds es : List Declaration) :
      Replaces [.declarations (ds ++ es)] [.declarations ds, .declarations es]
  | native (m : NativeModule) : Replaces [.native m] [.declarations m.members]
  | drop {d : Declaration} (ds es : List Declaration) (bare : ¬d.isCallable) :
      Replaces [.declarations (ds ++ d :: es)] [.declarations (ds ++ es)]
  | nothing : Replaces [.declarations []] []

/-- One change to a sequence of steps: some of them are replaced, or the only policy among them is
moved to another place. -/
inductive Rearranges : List Step → List Step → Prop
  | replace {ss ss' : List Step} (before after : List Step) (h : Replaces ss ss') :
      Rearranges (before ++ ss ++ after) (before ++ ss' ++ after)
  | policy {before after before' after' : List Step} (p : Policy)
      (rest : before ++ after = before' ++ after')
      (lone : ∀ s ∈ before ++ after, s.policy? = none) :
      Rearranges (before ++ .policy p :: after) (before' ++ .policy p :: after')

structure Alike (ss ss' : List Step) : Prop where
  supply : ss.flatMap Step.supply = ss'.flatMap Step.supply
  policies : ss.filterMap Step.policy? = ss'.filterMap Step.policy?

variable {ss ss' before after : List Step}

theorem function?_eq_none {d : Declaration} (h : ¬d.isCallable) : d.function? = none := by
  simpa [Declaration.isCallable] using h

theorem Replaces.alike (h : Replaces ss ss') : Alike ss ss' := by
  cases h with
  | drop ds es bare => exact ⟨by simp [Step.supply, function?_eq_none bare], rfl⟩
  | _ => exact ⟨by simp [Step.supply], rfl⟩

theorem flatMap_supply_policy (before after : List Step) (p : Policy) :
    (before ++ .policy p :: after).flatMap Step.supply = (before ++ after).flatMap Step.supply := by
  simp [Step.supply]

theorem filterMap_policy?_of_lone (lone : ∀ s ∈ before ++ after, s.policy? = none) (p : Policy) :
    (before ++ .policy p :: after).filterMap Step.policy? = [p] := by
  have hnone : (before ++ after).filterMap Step.policy? = [] := List.filterMap_eq_nil_iff.2 lone
  rw [List.filterMap_append, List.append_eq_nil_iff] at hnone
  simp [hnone, Step.policy?]

theorem Rearranges.alike (h : Rearranges ss ss') : Alike ss ss' := by
  cases h with
  | replace before after h =>
    obtain ⟨hsupply, hpolicies⟩ := h.alike
    exact ⟨by simp [hsupply], by simp [hpolicies]⟩
  | policy p rest lone =>
    constructor
    · rw [flatMap_supply_policy, flatMap_supply_policy, rest]
    · rw [filterMap_policy?_of_lone lone, filterMap_policy?_of_lone (rest ▸ lone)]

theorem alike_of_eqvGen (h : Relation.EqvGen Rearranges ss ss') : Alike ss ss' := by
  induction h with
  | rel _ _ hone => exact hone.alike
  | refl _ => exact ⟨rfl, rfl⟩
  | symm _ _ _ ih => exact ⟨ih.supply.symm, ih.policies.symm⟩
  | trans _ _ _ _ _ ih ih' => exact ⟨ih.supply.trans ih'.supply, ih.policies.trans ih'.policies⟩

end Builder

namespace Module

open Builder

/-- A builder binds the functions of all its steps at once, in the order of the steps, under the
last policy given in any of them or else the lenient one, and so it succeeds with the same module or
fails with the same error. Only these functions and this policy matter: a lone policy may be given
anywhere, functions and declarations may be split over steps or joined, and declarations that
cannot be called may come and go. -/
theorem build_binds_all_steps (space : String) (ss : List Step) :
    let bound := bind space ((lastPolicy ss).getD .lenient) (ss.flatMap Step.supply)
    (build space ss).result = bound.result ∧
      (build space ss).journal = findings (ss.flatMap Step.searched) ++ bound.journal ∧
      ∀ ss', Relation.EqvGen Rearranges ss ss' →
        (build space ss').result = (build space ss).result := by
  intro bound
  have hbuild := build_eq space ss
  refine ⟨by rw [hbuild], by rw [hbuild], fun ss' h => ?_⟩
  obtain ⟨hsupply, hpolicies⟩ := alike_of_eqvGen h
  rw [build_eq, build_eq, lastPolicy, lastPolicy, hsupply, hpolicies]

/-- A constant left out, two functions brought in one step and the policy given last: a module is
the one that binding all of the functions makes, and a repeated name fails as it did before. -/
theorem build_of_rearranged_steps :
    let f : NativeFunction := ⟨"f", [.scalar .text], fun _ => pure ()⟩
    let g : NativeFunction := ⟨"g", [], fun _ => pure ()⟩
    let k : NativeFunction := ⟨"k", [], fun _ => pure ()⟩
    let spread (last : NativeFunction) : List Step := [.declarations [.constant "c", .function f],
      .policy .strict, .functions [g], .functions [last]]
    let joined (last : NativeFunction) : List Step :=
      [.declarations [.function f], .functions [g, last], .policy .strict]
    (build "m" (spread k)).result = (bind "m" .strict [f, g, k]).result ∧
      (build "m" (joined k)).result = (build "m" (spread k)).result ∧
      (build "m" (joined f)).result = .error (.duplicateFunction "m" "f") := by
  intro f g k spread joined
  have hmoves : ∀ last, Relation.EqvGen Rearranges (spread last) (joined last) := by
    intro last
    have hdrop : Rearranges (spread last) [.declarations [.function f], .policy .strict,
        .functions [g], .functions [last]] :=
      .replace [] [.policy .strict, .functions [g], .functions [last]]
        (.drop [] [.function f] (by decide))
    have hjoin : Rearranges [.declarations [.function f], .policy .strict, .functions [g, last]]
        [.declarations [.function f], .policy .strict, .functions [g], .functions [last]] :=
      .replace [.declarations [.function f], .policy .strict] [] (.functions [g] [last])
    have hpolicy : Rearranges [.declarations [.function f], .policy .strict, .functions [g, last]]
        (joined last) :=
      @Rearranges.policy [.declarations [.function f]] [.functions [g, last]]
        [.declarations [.function f], .functions [g, last]] [] .strict rfl (by simp [Step.policy?])
    exact .trans _ _ _ (.rel _ _ hdrop) (.trans _ _ _ (.symm _ _ (.rel _ _ hjoin))
      (.rel _ _ hpolicy))
  obtain ⟨hbound, -, hsame⟩ := build_binds_all_steps "m" (spread k)
  obtain ⟨herror, -, hsame'⟩ := build_binds_all_steps "m" (spread f)
  exact ⟨hbound, hsame _ (hmoves k), (hsame' _ (hmoves f)).trans herror⟩

end Module

end ScriptBridge
