import ScriptBridge.Native.Recorder
import ScriptBridge.Proofs.Binding.Bound
import ScriptBridge.Proofs.Binding.Policies
import ScriptBridge.Proofs.Native.Access

/-!
What a bound function gets to see of a call. The arguments that it runs on have the tags that it was
declared with, whatever the script passes. So typed access inside the function succeeds or fails by
its declaration alone, and alike in every call.
-/
namespace ScriptBridge

theorem Tag.tag_of_decode {source : Source} {position : Nat} {policy : Policy} {t : Tag}
    {v : NativeValue} (h : (t.decode source position policy).result = .ok v) : v.tag = t := by
  cases t with
  | scalar s =>
    rw [decode_scalar] at h
    cases hresult : (s.decode source position policy).result with
    | error cause =>
      rw [Run.map, hresult] at h
      cases h
    | ok value =>
      rw [Run.map, hresult] at h
      cases h
      rfl
  | _ => cases h

theorem Tag.map_tag_of_decodeAll {source : Source} {position : Nat} {policy : Policy}
    {params : List Tag} {values : List NativeValue}
    (h : (Tag.decodeAll source policy position params).result = .ok values) :
    values.map NativeValue.tag = params := by
  induction params generalizing position values with
  | nil =>
    cases h
    rfl
  | cons t params ih =>
    obtain ⟨v, hv, hrest⟩ := Run.bind_eq_ok h
    obtain ⟨vs, hvs, hcons⟩ := Run.bind_eq_ok hrest
    cases hcons
    rw [List.map_cons, tag_of_decode hv, ih hvs]

namespace Adapter

variable {a : Adapter} {source : Source} {args : Arguments}

/-- A call that runs the function on some arguments: whatever the function is, its effects come
behind those of decoding, and it decides how the call ends. -/
def RunsOn (a : Adapter) (source : Source) (args : Arguments) : Prop :=
  ∃ decoding : Journal, ∀ body : Arguments → Run NativeError Unit,
    ({ a with body } : Adapter).invoke source =
      ⟨decoding ++ (body args).journal, (body args).result.map fun _ => 0⟩

def Refuses (a : Adapter) (source : Source) (cause : DecodeError) : Prop :=
  ∃ decoding : Journal, ∀ body : Arguments → Run NativeError Unit,
    ({ a with body } : Adapter).invoke source = ⟨decoding, .error (.decode cause)⟩

theorem runsOn_of_decodeAll
    (h : (Tag.decodeAll source a.policy 1 a.params).result = .ok args.values) :
    a.RunsOn source args := by
  refine ⟨(Tag.decodeAll source a.policy 1 a.params).journal, fun body => ?_⟩
  exact invoke_of_decodeAll (a := { a with body }) (by rw [← h])

theorem refuses_of_decodeAll {cause : DecodeError}
    (h : (Tag.decodeAll source a.policy 1 a.params).result = .error cause) :
    a.Refuses source cause := by
  refine ⟨(Tag.decodeAll source a.policy 1 a.params).journal, fun body => ?_⟩
  exact invoke_of_decodeAll_error (a := { a with body }) (by rw [← h])

/-- To see what a function runs on, let it note its arguments. -/
theorem decodeAll_of_runsOn (h : a.RunsOn source args) :
    (Tag.decodeAll source a.policy 1 a.params).result = .ok args.values := by
  obtain ⟨decoding, hruns⟩ := h
  -- The function of the adapter itself may do nothing with its arguments, so it cannot tell.
  let noting : Adapter := { a with body := fun args => .write [.note "" args.values] }
  have hinvoke : noting.invoke source = ⟨decoding ++ [.note "" args.values], .ok 0⟩ := hruns _
  cases hresult : (Tag.decodeAll source a.policy 1 a.params).result with
  | error cause =>
    have hfails : noting.invoke source = ⟨_, .error (.decode cause)⟩ :=
      invoke_of_decodeAll_error (a := noting) (by rw [← hresult])
    rw [hfails] at hinvoke
    cases congrArg Run.result hinvoke
  | ok values =>
    have hnotes : noting.invoke source = ⟨_ ++ [.note "" values], .ok 0⟩ :=
      invoke_of_decodeAll (a := noting) (by rw [← hresult])
    rw [hnotes] at hinvoke
    have hlast := (List.append_inj' (congrArg Run.journal hinvoke) rfl).2
    cases hlast
    rfl

theorem runsOn_or_refuses (a : Adapter) (source : Source) :
    (∃ args, a.RunsOn source args) ∨ ∃ cause, a.Refuses source cause := by
  cases h : (Tag.decodeAll source a.policy 1 a.params).result with
  | error cause => exact .inr ⟨cause, refuses_of_decodeAll h⟩
  | ok values => exact .inl ⟨⟨values⟩, runsOn_of_decodeAll h⟩

theorem RunsOn.tags_eq (h : a.RunsOn source args) : args.tags = a.params :=
  Tag.map_tag_of_decodeAll (decodeAll_of_runsOn h)

/-- A call of a generated adapter that gets as far as the function runs it on arguments with the
declared tags. Access to one of them succeeds exactly if there is a parameter at the index and it
was declared with the type that is asked for. It fails for the index exactly if there is no
parameter there, and for the type exactly if the parameter has another one. So any two calls agree
on what access comes to. Only a strict adapter has calls that do not get as far. -/
theorem access_by_declaration {space : String} {policy : Policy} {f : NativeFunction}
    (h : (generate space policy f).result = .ok a) :
    (∀ source, (∃ args, a.RunsOn source args) ∨
        policy = .strict ∧ ∃ cause, a.Refuses source cause) ∧
      (∀ source args, a.RunsOn source args →
        args.tags = f.params ∧ args.size = f.params.length ∧ ∀ (s : Scalar) (i : Nat),
          ((∃ v, args.get s i = .ok v) ↔ f.params[i]? = some (.scalar s)) ∧
          ∀ cause, args.get s i = .error cause ↔
            (f.params.length ≤ i ∧ cause = .indexOutOfBounds i f.params.length) ∨
              ∃ t, f.params[i]? = some t ∧ t ≠ .scalar s ∧
                cause = .argumentType i (.scalar s) t) ∧
      ∀ source source' args args', a.RunsOn source args → a.RunsOn source' args' →
        ∀ (s : Scalar) (i : Nat),
          (args.get s i).map (fun _ => ()) = (args'.get s i).map fun _ => () := by
  obtain ⟨rfl, supported⟩ := generate_eq_ok h
  refine ⟨fun source => ?_, fun source args hruns => ?_,
    fun source source' args args' hruns hruns' => ?_⟩
  · cases policy with
    | lenient =>
      obtain ⟨ss, hss⟩ := Tag.exists_scalars supported
      have hdecode := Tag.decodeAll_lenient source ss 1
      rw [← hss] at hdecode
      exact .inl ⟨⟨_⟩, runsOn_of_decodeAll (congrArg Run.result hdecode)⟩
    | strict =>
      exact (runsOn_or_refuses _ source).imp_right fun hrefuses => ⟨rfl, hrefuses⟩
  · have htags : args.tags = f.params := hruns.tags_eq
    refine ⟨htags, by rw [args.size_eq_length_tags, htags], fun s i => ⟨?_, fun cause => ?_⟩⟩
    · rw [Arguments.exists_get_eq_ok_iff, htags, Tag.access_eq_ok_iff]
    · rw [Arguments.get_eq_error_iff, htags, Tag.access_eq_error_iff]
  · intro s i
    rw [Arguments.map_get, Arguments.map_get, hruns.tags_eq, hruns'.tags_eq]

/-- A function that asks for the wrong width is told so in every call, be its arguments there or
not. -/
theorem access_with_wrong_width :
    let f := Recorder.function "f" "f" [.scalar .text, .scalar (.int false .w8)]
      [.fetch (some .text) 0, .fetch (some (.int false .w16)) 1]
    let a : Adapter := .ofFunction "t" f .lenient
    let cause : NativeError :=
      .argumentType 1 (.scalar (.int false .w16)) (.scalar (.int false .w8))
    (generate "t" .lenient f).result = .ok a ∧
      ∀ frame : Frame, ∃ args, a.RunsOn frame.source args ∧
        (∃ v, args.get .text 0 = .ok v) ∧
        args.get (.int false .w16) 1 = .error cause ∧
        args.get (.int false .w8) 2 = .error (.indexOutOfBounds 2 2) := by
  intro f a cause
  have hgenerate : (generate "t" .lenient f).result = .ok a := rfl
  obtain ⟨hruns, haccess, -⟩ := access_by_declaration hgenerate
  refine ⟨hgenerate, fun frame => ?_⟩
  rcases hruns frame.source with ⟨args, hargs⟩ | ⟨hpolicy, -⟩
  · obtain ⟨-, -, hget⟩ := haccess frame.source args hargs
    refine ⟨args, hargs, (hget .text 0).1.2 rfl, ((hget (.int false .w16) 1).2 cause).2 ?_,
      ((hget (.int false .w8) 2).2 _).2 (.inl ⟨by decide, rfl⟩)⟩
    exact .inr ⟨_, rfl, by decide, rfl⟩
  · cases hpolicy

end Adapter

end ScriptBridge
