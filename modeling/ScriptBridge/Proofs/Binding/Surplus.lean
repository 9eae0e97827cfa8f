import Mathlib.Data.List.Basic
import ScriptBridge.Proofs.Binding.Access

/-!
Slots that make no difference to a call. Decoding looks at the declared positions only, so slots
behind them do not matter. A nil reads like a slot that is not there, so nils behind a frame do not
matter to a lenient call, and a strict one that lacks an argument fails with or without them.
-/
namespace ScriptBridge

section Congruence

variable {source source' : Source} {position : Nat}

/-- Two sources of which one position reads alike, be it as a number or as a text. -/
structure Source.AlikeAt (source source' : Source) (position : Nat) : Prop where
  number : source'.number? position = source.number? position
  text : source'.text? position = source.text? position

theorem Scalar.read?_congr (h : source.AlikeAt source' position) (s : Scalar) :
    s.read? source' position = s.read? source position := by
  cases s with
  | int signed width => rw [read?, h.number, read?]
  | float kind =>
    cases kind with
    | single => rw [read?, h.number, read?]
    | double => exact h.number
  | text => exact h.text

namespace Source

/-- What is passed and what is left unread depend on nothing but the declared positions. -/
theorem passed_and_unread_congr {ss : List Scalar}
    (h : ∀ i < ss.length, source.AlikeAt source' (position + i)) :
    source'.passed position ss = source.passed position ss ∧
      source'.unread position ss = source.unread position ss := by
  induction ss generalizing position with
  | nil => exact ⟨rfl, rfl⟩
  | cons s ss ih =>
    have hhead : s.read? source' position = s.read? source position :=
      s.read?_congr (h 0 (Nat.succ_pos _))
    have htail : ∀ i < ss.length, source.AlikeAt source' (position + 1 + i) := by
      intro i hi
      rw [Nat.add_assoc, Nat.add_comm 1]
      exact h (i + 1) (Nat.succ_lt_succ hi)
    obtain ⟨hpassed, hunread⟩ := ih htail
    simp only [passed, unread, hhead, hpassed, hunread, and_self]

end Source

namespace Tag

theorem decode_congr (h : source.AlikeAt source' position)
    (hfailure : ∀ expected, source'.failure position expected = source.failure position expected)
    (policy : Policy) (t : Tag) :
    t.decode source' position policy = t.decode source position policy := by
  have hfallback : ∀ {α : Type} (expected : Scalar.Reading) (zero : α),
      source'.fallback position policy expected zero =
        source.fallback position policy expected zero := by
    intro α expected zero
    simp only [Source.fallback, hfailure]
  have hnumber : source'.readNumber position policy = source.readNumber position policy := by
    simp only [Source.readNumber, h.number, hfallback]
  have htext : source'.readText position policy = source.readText position policy := by
    simp only [Source.readText, h.text, hfallback]
  unfold decode
  cases t.scalar? with
  | none => rfl
  | some s =>
    cases s with
    | float kind => cases kind <;> simp only [Scalar.decode, hnumber]
    | _ => simp only [Scalar.decode, hnumber, htext]

theorem decodeAll_congr {policy : Policy} {params : List Tag}
    (h : ∀ (t : Tag), ∀ i < params.length,
      t.decode source' (position + i) policy = t.decode source (position + i) policy) :
    decodeAll source' policy position params = decodeAll source policy position params := by
  induction params generalizing position with
  | nil => rfl
  | cons t params ih =>
    have hhead := h t 0 (Nat.succ_pos _)
    have htail : ∀ (t : Tag), ∀ i < params.length, t.decode source' (position + 1 + i) policy =
        t.decode source (position + 1 + i) policy := by
      intro t i hi
      rw [Nat.add_assoc, Nat.add_comm 1]
      exact h t (i + 1) (Nat.succ_lt_succ hi)
    rw [Nat.add_zero] at hhead
    rw [decodeAll, hhead, ih htail, decodeAll]

end Tag

end Congruence

namespace Frame

variable {frame extra : Frame} {position : Nat}

def padded (frame : Frame) (n : Nat) : Frame := frame ++ List.replicate n .nil

theorem length_padded (frame : Frame) (n : Nat) : (frame.padded n).length = frame.length + n := by
  rw [padded, List.length_append, List.length_replicate]

theorem slot?_append_of_le (h : position ≤ frame.length) :
    slot? (frame ++ extra) position = frame.slot? position := by
  cases position with
  | zero => rfl
  | succ i => exact List.getElem?_append_left h

theorem slot?_of_length_lt (h : frame.length < position) : frame.slot? position = none := by
  cases position with
  | zero => rfl
  | succ i => exact List.getElem?_eq_none (Nat.le_of_lt_succ h)

theorem slot?_padded_of_lt {n : Nat} (h : frame.length < position)
    (hn : position ≤ frame.length + n) : (frame.padded n).slot? position = some .nil := by
  cases position with
  | zero => exact absurd h (Nat.not_lt_zero _)
  | succ i =>
    rw [slot?, padded, List.getElem?_append_right (Nat.le_of_lt_succ h),
      List.getElem?_replicate_of_lt (by omega)]

theorem alikeAt_of_slot? {frame' : Frame} (h : frame'.slot? position = frame.slot? position) :
    frame.source.AlikeAt frame'.source position where
  number := by simp only [source, h]
  text := by simp only [source, h]

theorem alikeAt_padded (frame : Frame) (n position : Nat) :
    frame.source.AlikeAt (frame.padded n).source position := by
  by_cases hin : position ≤ frame.length
  · exact alikeAt_of_slot? (slot?_append_of_le hin)
  · have hnone : frame.slot? position = none := slot?_of_length_lt (Nat.lt_of_not_le hin)
    by_cases hn : position ≤ frame.length + n
    · have hnil := slot?_padded_of_lt (Nat.lt_of_not_le hin) hn
      exact ⟨by simp only [source, hnil, hnone]; rfl, by simp only [source, hnil, hnone]; rfl⟩
    · refine alikeAt_of_slot? ?_
      rw [hnone, slot?_of_length_lt (by rw [length_padded]; exact Nat.lt_of_not_le hn)]

theorem passed_and_unread_padded (frame : Frame) (n : Nat) (ss : List Scalar) :
    (frame.padded n).source.passed 1 ss = frame.source.passed 1 ss ∧
      (frame.padded n).source.unread 1 ss = frame.source.unread 1 ss :=
  Source.passed_and_unread_congr fun i _ => frame.alikeAt_padded n (1 + i)

theorem failure_append (hpos : position ≠ 0) (h : position ≤ frame.length)
    (expected : Scalar.Reading) :
    (source (frame ++ extra)).failure position expected =
      frame.source.failure position expected := by
  have hlong : ¬(frame ++ extra).length < position := by
    rw [List.length_append]
    omega
  have hkind : kind (frame ++ extra) position = frame.kind position := by
    rw [kind, slot?_append_of_le h, kind]
  simp only [Source.failure, source, hkind, hpos, hlong, Nat.not_lt.2 h, or_self, if_false]

theorem failure_of_le (hpos : position ≠ 0) (h : position ≤ frame.length)
    (expected : Scalar.Reading) :
    frame.source.failure position expected = .mismatch position expected (frame.kind position) := by
  simp only [Source.failure, source, hpos, Nat.not_lt.2 h, or_self, if_false]

theorem failure_of_lt (h : frame.length < position) (expected : Scalar.Reading) :
    frame.source.failure position expected = .missing position frame.length :=
  if_pos (.inr h)

theorem kind_padded {n : Nat} (h : frame.length < position) (hn : position ≤ frame.length + n) :
    (frame.padded n).kind position = "nil" := by
  rw [kind, slot?_padded_of_lt h hn]
  rfl

theorem unread_ne_nil {ss : List Scalar} (h : frame.length < ss.length) :
    frame.source.unread 1 ss ≠ [] := by
  have hread : ∀ s : Scalar, s.read? frame.source (frame.length + 1) = none := by
    intro s
    have hnone : frame.slot? (frame.length + 1) = none := slot?_of_length_lt (Nat.lt_succ_self _)
    cases s with
    | float kind => cases kind <;> simp only [Scalar.read?, source, hnone] <;> rfl
    | _ =>
      simp only [Scalar.read?, source, hnone]
      rfl
  refine List.ne_nil_of_mem (a := (frame.length + 1, ss[frame.length])) ?_
  exact (Source.mem_unread frame.source ss 1 _ _).2
    ⟨frame.length, Nat.add_comm _ _, List.getElem?_eq_getElem h, hread _⟩

end Frame

namespace Adapter

theorem invoke_append_of_le {a : Adapter} {frame : Frame} (h : a.params.length ≤ frame.length)
    (extra : Frame) : a.invoke (Frame.source (frame ++ extra)) = a.invoke frame.source := by
  have hdecode : Tag.decodeAll (Frame.source (frame ++ extra)) a.policy 1 a.params =
      Tag.decodeAll frame.source a.policy 1 a.params := by
    refine Tag.decodeAll_congr fun t i hi => ?_
    have hin : 1 + i ≤ frame.length := by omega
    exact Tag.decode_congr (Frame.alikeAt_of_slot? (Frame.slot?_append_of_le hin))
      (Frame.failure_append (by omega) hin) a.policy t
  rw [invoke, hdecode, invoke]

/-- A lenient call runs the function on some arguments, whatever the function is, and reports the
positions that it went on without. -/
def RunsReporting (a : Adapter) (source : Source) (args : Arguments)
    (unread : List (Nat × Scalar)) : Prop :=
  ∀ body : Arguments → Run NativeError Unit, ({ a with body } : Adapter).invoke source =
    ⟨unread.map (fun p => source.report p.1 p.2.reading) ++ (body args).journal,
      (body args).result.map fun _ => 0⟩

def FailsFor (a : Adapter) (source : Source) (cause : DecodeError) : Prop :=
  ∀ body : Arguments → Run NativeError Unit,
    ({ a with body } : Adapter).invoke source = ⟨[], .error (.decode cause)⟩

variable {a : Adapter} {ss : List Scalar} {source : Source}

theorem runsReporting_of_lenient (hpolicy : a.policy = .lenient)
    (hparams : a.params = ss.map .scalar) (source : Source) :
    a.RunsReporting source ⟨source.passed 1 ss⟩ (source.unread 1 ss) := by
  intro body
  have hdecode := Tag.decodeAll_lenient source ss 1
  rw [← hpolicy, ← hparams] at hdecode
  exact invoke_of_decodeAll (a := { a with body }) hdecode

theorem failsFor_of_strict (hpolicy : a.policy = .strict) (hparams : a.params = ss.map .scalar)
    {position : Nat} {s : Scalar} {rest : List (Nat × Scalar)}
    (hunread : source.unread 1 ss = (position, s) :: rest) :
    a.FailsFor source (source.failure position s.reading) := by
  intro body
  have hdecode := Tag.decodeAll_strict source ss 1
  rw [hunread, ← hpolicy, ← hparams] at hdecode
  exact invoke_of_decodeAll_error (a := { a with body }) hdecode

/-- Slots behind the declared positions change nothing about a call. Nils behind a frame change
nothing about what a lenient call runs the function on, and so nothing about its result: the same
positions are reported. Where an argument is lacking, a strict call fails for the same position with
nils behind its frame and without, and the failures are equal unless that position was not there. -/
theorem invoke_with_surplus_slots {space : String} {policy : Policy} {f : NativeFunction}
    {a : Adapter} (h : (generate space policy f).result = .ok a) (frame : Frame) :
    (f.params.length ≤ frame.length → ∀ (extra : Frame) (body : Arguments → Run NativeError Unit),
      ({ a with body } : Adapter).invoke (Frame.source (frame ++ extra)) =
        ({ a with body } : Adapter).invoke frame.source) ∧
      (policy = .lenient → ∀ n, ∃ args unread, a.RunsReporting frame.source args unread ∧
        a.RunsReporting (frame.padded n).source args unread) ∧
      (policy = .strict → ∀ n, frame.length < f.params.length →
        f.params.length ≤ (frame.padded n).length → ∃ position expected cause cause',
          a.FailsFor frame.source cause ∧ a.FailsFor (frame.padded n).source cause' ∧
            ((position ≤ frame.length ∧ cause = .mismatch position expected (frame.kind position) ∧
                cause' = cause) ∨
              (frame.length < position ∧ cause = .missing position frame.length ∧
                cause' = .mismatch position expected "nil"))) := by
  obtain ⟨rfl, supported⟩ := generate_eq_ok h
  refine ⟨fun hlength extra body => ?_, fun hpolicy n => ?_, fun hpolicy n hshort hlong => ?_⟩
  · exact invoke_append_of_le (a := { ofFunction space f policy with body }) hlength extra
  · obtain ⟨ss, hparams⟩ := Tag.exists_scalars supported
    obtain ⟨hpassed, hunread⟩ := frame.passed_and_unread_padded n ss
    have hruns := runsReporting_of_lenient (a := ofFunction space f policy) hpolicy hparams
    refine ⟨_, _, hruns frame.source, ?_⟩
    rw [← hpassed, ← hunread]
    exact hruns (frame.padded n).source
  · obtain ⟨ss, hparams⟩ := Tag.exists_scalars supported
    obtain ⟨-, hpadded⟩ := frame.passed_and_unread_padded n ss
    have hcount : f.params.length = ss.length := by rw [hparams, List.length_map]
    cases hunread : frame.source.unread 1 ss with
    | nil => exact absurd hunread (Frame.unread_ne_nil (hcount ▸ hshort))
    | cons p rest =>
      obtain ⟨position, s⟩ := p
      have hmem : (position, s) ∈ frame.source.unread 1 ss := by
        rw [hunread]
        exact List.mem_cons_self
      obtain ⟨i, hi, hs, -⟩ := (Source.mem_unread frame.source ss 1 position s).1 hmem
      have hdeclared : i < ss.length := (List.getElem?_eq_some_iff.1 hs).1
      have hpos : position ≠ 0 := by omega
      have hend : position ≤ (frame.padded n).length := by omega
      rw [hunread] at hpadded
      refine ⟨position, s.reading, _, _,
        failsFor_of_strict (a := ofFunction space f policy) hpolicy hparams hunread,
        failsFor_of_strict (a := ofFunction space f policy) hpolicy hparams hpadded, ?_⟩
      by_cases hin : position ≤ frame.length
      · exact .inl ⟨hin, Frame.failure_of_le hpos hin _, Frame.failure_append hpos hin _⟩
      · have hout : frame.length < position := Nat.lt_of_not_le hin
        refine .inr ⟨hout, Frame.failure_of_lt hout _, ?_⟩
        rw [Frame.failure_of_le hpos hend,
          Frame.kind_padded hout (by rwa [Frame.length_padded] at hend)]

/-- A lenient function of a number and a text runs on the empty text, be the second slot nil or
absent. A strict one fails for it, and says which of the two it was. -/
theorem invoke_with_trailing_nils :
    let f : NativeFunction := ⟨"f", [.scalar (.int false .w8), .scalar .text],
      fun args => .write [.note "f" args.values]⟩
    let frame : Frame := [.int 300]
    (∃ a args unread, (generate "t" .lenient f).result = .ok a ∧
        a.RunsReporting frame.source args unread ∧
        a.RunsReporting (frame.padded 3).source args unread ∧
        args.values = [⟨.int false .w8, 44#8⟩, ⟨.text, ""⟩]) ∧
      ∃ a, (generate "t" .strict f).result = .ok a ∧
        a.FailsFor frame.source (.missing 2 1) ∧
        a.FailsFor (frame.padded 3).source (.mismatch 2 .string "nil") ∧
        a.invoke (Frame.source ([.int 300, .string "x"] ++ [.bool true])) =
          a.invoke (Frame.source [.int 300, .string "x"]) := by
  intro f frame
  have hlenient : (generate "t" .lenient f).result = .ok (ofFunction "t" f .lenient) := rfl
  have hstrict : (generate "t" .strict f).result = .ok (ofFunction "t" f .strict) := rfl
  constructor
  · obtain ⟨-, hruns, -⟩ := invoke_with_surplus_slots hlenient frame
    obtain ⟨args, unread, hframe, hpadded⟩ := hruns rfl 3
    have hvalues : (Tag.decodeAll frame.source .lenient 1 f.params).result =
        .ok [⟨.int false .w8, 44#8⟩, ⟨.text, ""⟩] := by decide +kernel
    refine ⟨_, args, unread, hlenient, hframe, hpadded, ?_⟩
    exact Except.ok.inj ((decodeAll_of_runsOn ⟨_, hframe⟩).symm.trans hvalues)
  · obtain ⟨hsurplus, -, -⟩ := invoke_with_surplus_slots hstrict [.int 300, .string "x"]
    obtain ⟨-, -, hfails⟩ := invoke_with_surplus_slots hstrict frame
    obtain ⟨position, expected, cause, cause', hframe, hpadded, -⟩ :=
      hfails rfl 3 (by decide) (by decide)
    have hmissing : (ofFunction "t" f .strict).invoke frame.source =
        ⟨[], .error (.decode (.missing 2 1))⟩ := rfl
    have hnil : (ofFunction "t" f .strict).invoke (frame.padded 3).source =
        ⟨[], .error (.decode (.mismatch 2 .string "nil"))⟩ := rfl
    cases (hframe _).symm.trans hmissing
    cases (hpadded _).symm.trans hnil
    exact ⟨_, hstrict, hframe, hpadded, hsurplus (by decide) [.bool true] f.body⟩

end Adapter

end ScriptBridge
