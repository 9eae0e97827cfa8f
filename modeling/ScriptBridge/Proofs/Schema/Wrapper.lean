import ScriptBridge.Proofs.Binding.Access
import ScriptBridge.Proofs.Schema.Bindable

/-!
What a call of a wrapped function comes to. A signature that is accepted fixes both what is
decoded and what the wrapper fetches, so the wrapper always finds what it asks for. It never fails
on its own: a call that is not refused for an argument runs the native code on the decoded values,
once, and succeeds.
-/
namespace ScriptBridge

open ScriptBridge.NativeFunction

variable {ρ : Type} {source : Source} {ss : List Scalar}

namespace Source

def decodedAt (source : Source) (policy : Policy) (ss : List Scalar) (i : Fin ss.length) :
    Except DecodeError NativeValue :=
  (Tag.decode source (i + 1) policy (.scalar (ss.get i))).result

def passedAt (source : Source) (ss : List Scalar) (i : Fin ss.length) : (ss.get i).Carrier :=
  ((ss.get i).read? source (i + 1)).getD (ss.get i).zero

def reports (source : Source) (ss : List Scalar) : Journal :=
  (source.unread 1 ss).map fun p => source.report p.1 p.2.reading

theorem getElem?_passed_of_fin (i : Fin ss.length) :
    (source.passed 1 ss)[i.val]? = some ⟨ss.get i, source.passedAt ss i⟩ := by
  rw [getElem?_passed, List.getElem?_eq_getElem i.isLt, Nat.add_comm 1]
  rfl

theorem read?_of_unread_eq_nil (h : source.unread 1 ss = []) (i : Fin ss.length) :
    (ss.get i).read? source (i + 1) = some (source.passedAt ss i) := by
  cases hread : (ss.get i).read? source (i + 1) with
  | some v => rw [passedAt, hread, Option.getD_some]
  | none =>
    have hmem : (i.val + 1, ss.get i) ∈ source.unread 1 ss :=
      (mem_unread source ss 1 _ _).2 ⟨i, Nat.add_comm _ _, List.getElem?_eq_getElem i.isLt, hread⟩
    rw [h] at hmem
    cases hmem

theorem decodedAt_of_read? {policy : Policy} {i : Fin ss.length} {v : (ss.get i).Carrier}
    (h : (ss.get i).read? source (i + 1) = some v) :
    source.decodedAt policy ss i = .ok ⟨ss.get i, v⟩ := by
  rw [decodedAt, Tag.decode_of_read? h]

theorem decodedAt_lenient (source : Source) (ss : List Scalar) (i : Fin ss.length) :
    source.decodedAt .lenient ss i = .ok ⟨ss.get i, source.passedAt ss i⟩ := by
  cases h : (ss.get i).read? source (i + 1) with
  | some v => rw [decodedAt_of_read? h, passedAt, h, Option.getD_some]
  | none =>
    rw [decodedAt, Tag.decode_scalar, Scalar.decode_lenient_of_none h, passedAt, h,
      Option.getD_none]
    rfl

theorem decodedAt_strict_of_none {i : Fin ss.length}
    (h : (ss.get i).read? source (i + 1) = none) :
    source.decodedAt .strict ss i = .error (source.failure (i + 1) (ss.get i).reading) := by
  rw [decodedAt, Tag.decode_scalar, Scalar.decode_strict_of_none h]
  rfl

end Source

namespace Adapter

/-- How a call of a wrapper around a typed function ends. Either the function runs once, on what
is decoded for each of its types, and the call succeeds. Or the policy is strict, and the call
fails for one of the arguments, without any effect. -/
inductive RunsOrRefuses (a : Adapter) (source : Source) (policy : Policy) (f : Typed ρ ss) : Prop
  | runs (args : (i : Fin ss.length) → (ss.get i).Carrier)
      (decoded : ∀ i, source.decodedAt policy ss i = .ok ⟨ss.get i, args i⟩)
      (invoke : a.invoke source = ⟨source.reports ss ++ (f.call ss args).1, .ok 0⟩)
  | refuses (strict : policy = .strict) (i : Fin ss.length) (cause : DecodeError)
      (undecoded : source.decodedAt policy ss i = .error cause)
      (invoke : a.invoke source = ⟨[], .error (.decode cause)⟩)

variable {space name : String} {f : Typed ρ ss}

theorem invoke_ofTyped {policy : Policy} {j : Journal}
    (h : Tag.decodeAll source policy 1 (ss.map .scalar) = ⟨j, .ok (source.passed 1 ss)⟩) :
    (ofFunction space (.ofTyped name ss f) policy).invoke source =
      ⟨j ++ (f.call ss (source.passedAt ss)).1, .ok 0⟩ := by
  let body := fun args => applyTyped args 0 ss f
  have hinvoke : (ofFunction space (.ofTyped name ss f) policy).invoke source =
      ⟨j ++ (body ⟨source.passed 1 ss⟩).journal,
        (body ⟨source.passed 1 ss⟩).result.map fun _ => 0⟩ :=
    invoke_of_decodeAll (a := ofFunction space (.ofTyped name ss f) policy) h
  have hbody : body ⟨source.passed 1 ss⟩ = .write (f.call ss (source.passedAt ss)).1 := by
    refine applyTyped_eq f _ fun i => ?_
    rw [Nat.zero_add]
    exact Source.getElem?_passed_of_fin i
  rw [hinvoke, hbody]
  rfl

theorem runsOrRefuses_lenient :
    (ofFunction space (.ofTyped name ss f) .lenient).RunsOrRefuses source .lenient f :=
  .runs _ (source.decodedAt_lenient ss) (invoke_ofTyped (Tag.decodeAll_lenient source ss 1))

theorem runsOrRefuses_strict :
    (ofFunction space (.ofTyped name ss f) .strict).RunsOrRefuses source .strict f := by
  have hdecode := Tag.decodeAll_strict source ss 1
  cases hunread : source.unread 1 ss with
  | nil =>
    rw [hunread] at hdecode
    refine .runs (source.passedAt ss)
      (fun i => Source.decodedAt_of_read? (Source.read?_of_unread_eq_nil hunread i)) ?_
    rw [Source.reports, hunread]
    exact invoke_ofTyped hdecode
  | cons p rest =>
    -- Decoding fails for the first unread position, which belongs to one of the declared scalars.
    obtain ⟨position, s⟩ := p
    rw [hunread] at hdecode
    have hmem : (position, s) ∈ source.unread 1 ss := by
      rw [hunread]
      exact List.mem_cons_self
    obtain ⟨i, rfl, hs, hnone⟩ := (Source.mem_unread source ss 1 position s).1 hmem
    obtain ⟨hi, rfl⟩ := List.getElem?_eq_some_iff.1 hs
    rw [Nat.add_comm 1] at hnone hdecode
    exact .refuses rfl ⟨i, hi⟩ _ (Source.decodedAt_strict_of_none hnone)
      (invoke_of_decodeAll_error (a := ofFunction space (.ofTyped name ss f) .strict) hdecode)

theorem RunsOrRefuses.eq_decode {a : Adapter} {policy : Policy} {cause : NativeError}
    (h : a.RunsOrRefuses source policy f) (hcause : (a.invoke source).result = .error cause) :
    ∃ c, cause = .decode c := by
  cases h with
  | runs args decoded invoke =>
    rw [invoke] at hcause
    cases hcause
  | refuses strict i c undecoded invoke =>
    rw [invoke] at hcause
    cases hcause
    exact ⟨c, rfl⟩

end Adapter

namespace Schema

variable {resolve : Resolution}

theorem Export.runsOrRefuses_link (e : Export) (code : NativeCode ρ) (space : String)
    (policy : Policy) (source : Source) :
    (Adapter.ofFunction space (e.link resolve code) policy).RunsOrRefuses source policy
      (code e.target (e.scalars resolve)) := by
  cases policy with
  | lenient => exact Adapter.runsOrRefuses_lenient
  | strict => exact Adapter.runsOrRefuses_strict

/-- A signature that is accepted, with inputs that stand for scalars, links to a function that can
be bound. A call of its adapter either runs the native code once, each argument being what is
decoded at its position as the scalar of its input, and succeeds, or it is strict, runs nothing
and fails for an argument that cannot be decoded. No other error occurs, whatever the native code
answers. -/
theorem wrapper_runs_or_refuses {s : Signature} {target name : String} {f : FunctionSchema}
    (h : s.schema target name = .ok f) (typed : ∀ i ∈ s.inputs, (i.scalar? resolve).isSome)
    (code : NativeCode ρ) :
    let ss := s.inputs.filterMap (Input.scalar? resolve)
    ss.map some = s.inputs.map (Input.scalar? resolve) ∧
      ∃ g, f.linkBy? resolve code = some g ∧ ∀ space policy,
        ∃ a, (Adapter.generate space policy g).result = .ok a ∧ ∀ source : Source,
          a.RunsOrRefuses source policy (code target ss) ∧
            ∀ cause, (a.invoke source).result = .error cause → ∃ c, cause = .decode c := by
  intro ss
  let e : Export := ⟨name, target, s⟩
  have hlink : f.linkBy? resolve code = some (e.link resolve code) :=
    (Signature.schemaOf h).linkBy?_eq typed code
  refine ⟨map_some_filterMap typed, _, hlink, fun space policy => ?_⟩
  refine ⟨_, Adapter.result_generate e.isSupported_link space policy, fun source => ?_⟩
  have hcall : (Adapter.ofFunction space (e.link resolve code) policy).RunsOrRefuses source policy
      (code target ss) := e.runsOrRefuses_link code space policy source
  exact ⟨hcall, fun cause => hcall.eq_decode⟩

/-- Without its second argument, a function of a number and a text runs on the empty text, or its
strict adapter fails for it. -/
theorem wrapper_without_second_argument :
    let code : NativeCode Unit := fun name => Recorder.noteTyped name []
    let s : Signature := ⟨[], none, false, false,
      [.typed (.path "u8"), .typed (.paren (.reference "'a" false (.path "str")))]⟩
    let f : FunctionSchema := ⟨"render", [.path "u8", .paren (.textReference "'a")], "draw"⟩
    let source := Frame.source [.int 300]
    s.schema "draw" "render" = .ok f ∧ ∃ g, f.link? code = some g ∧
      (∃ a, (Adapter.generate "t" .lenient g).result = .ok a ∧
        (a.invoke source).journal.notes = [("draw", [⟨.int false .w8, 44#8⟩, ⟨.text, ""⟩])] ∧
        (a.invoke source).result = .ok 0) ∧
      ∃ a, (Adapter.generate "t" .strict g).result = .ok a ∧
        a.invoke source = ⟨[], .error (.decode (.missing 2 1))⟩ := by
  intro code s f source
  have hschema : s.schema "draw" "render" = .ok f := by decide +kernel
  have typed : ∀ i ∈ s.inputs, (i.scalar? ParamType.scalar?).isSome := by decide +kernel
  obtain ⟨-, g, hlink, hcall⟩ := wrapper_runs_or_refuses hschema typed code
  have hscalars : s.inputs.filterMap (Input.scalar? ParamType.scalar?) =
      [.int false .w8, .text] := by decide +kernel
  -- The types of the arguments mention this list, so it has to become a variable first.
  generalize s.inputs.filterMap (Input.scalar? ParamType.scalar?) = ss at hcall hscalars
  subst hscalars
  refine ⟨hschema, g, hlink, ?_, ?_⟩
  · obtain ⟨a, ha, hsource⟩ := hcall "t" .lenient
    refine ⟨a, ha, ?_⟩
    cases (hsource source).1 with
    | runs args decoded invoke =>
      have hnumber : source.decodedAt .lenient [.int false .w8, .text] 0 =
          .ok ⟨.int false .w8, 44#8⟩ := by decide +kernel
      have htext : source.decodedAt .lenient [.int false .w8, .text] 1 = .ok ⟨.text, ""⟩ := rfl
      rw [invoke, ← Except.ok.inj ((decoded 0).symm.trans hnumber),
        ← Except.ok.inj ((decoded 1).symm.trans htext)]
      exact ⟨rfl, rfl⟩
    | refuses strict => cases strict
  · obtain ⟨a, ha, hsource⟩ := hcall "t" .strict
    have hnumber : ∃ v, source.decodedAt .strict [.int false .w8, .text] 0 = .ok v := ⟨_, rfl⟩
    have htext : source.decodedAt .strict [.int false .w8, .text] 1 =
        .error (.missing 2 1) := rfl
    refine ⟨a, ha, ?_⟩
    cases (hsource source).1 with
    | runs args decoded invoke =>
      rw [decoded 1] at htext
      cases htext
    | refuses strict i cause undecoded invoke =>
      match i with
      | 0 =>
        obtain ⟨v, hv⟩ := hnumber
        rw [hv] at undecoded
        cases undecoded
      | 1 =>
        rw [htext] at undecoded
        cases undecoded
        exact invoke

/-- Where the types of parameters have their own names only, these fix what is decoded. -/
theorem wrapper_of_own_names {s : Signature} {target name : String} {f : FunctionSchema}
    (h : s.schema target name = .ok f)
    (named : ∀ i ∈ s.inputs, ∃ p t, i.param? = some p ∧ p.Denotes t) (code : NativeCode ρ) :
    ∃ ss g, List.Forall₂ (fun t i => ∃ p, i.param? = some p ∧ p.Denotes t) ss s.inputs ∧
      f.link? code = some g ∧ ∀ space policy, ∃ a,
        (Adapter.generate space policy g).result = .ok a ∧
          ∀ source : Source, a.RunsOrRefuses source policy (code target ss) := by
  let e : Export := ⟨name, target, s⟩
  have typed : e.Typed ParamType.scalar? := fun i hi => Input.isSome_scalar?_iff.2 (named i hi)
  refine ⟨e.scalars ParamType.scalar?, _,
    typed.forall₂_scalars.imp fun t i => Input.scalar?_eq_some_iff.1,
    (Signature.schemaOf h).linkBy?_eq typed code, fun space policy => ?_⟩
  exact ⟨_, Adapter.result_generate e.isSupported_link space policy,
    e.runsOrRefuses_link code space policy⟩

end Schema

end ScriptBridge
