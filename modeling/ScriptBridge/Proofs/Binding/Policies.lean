import ScriptBridge.Binding.Adapter
import ScriptBridge.Proofs.Decode.Narrowing
import ScriptBridge.Proofs.Decode.Truncation

/-!
One call under the two policies. Both decode the declared positions in order. The lenient call
reports every position that it cannot read and runs the function on zeros in their place, and the
strict call fails with the first of these reports and runs nothing. Without one the calls are equal.
-/
namespace ScriptBridge

open ScriptBridge.Number

namespace Scalar

/-- The value of a scalar type that a position converts to. An integer is congruent to the number
there without its fraction, and zero if the number has no value; a float is the number itself or
what it rounds to; and a text is taken as it is. -/
inductive ConvertsFrom (source : Source) (position : Nat) : (s : Scalar) → s.Carrier → Prop
  | int {signed : Bool} {width : Width} {x : Double} {v : BitVec width.bits}
      (number : source.number? position = some x) (no_value : x.isFinite = false → v = 0)
      (whole : ∀ q, x.value? = some q →
        wordValue signed v ≡ wholePart q [ZMOD 2 ^ width.bits]) :
      ConvertsFrom source position (.int signed width) v
  | single {x : Double} {y : Single} (number : source.number? position = some x)
      (narrows : Narrows x.toBits y) : ConvertsFrom source position (.float .single) y
  | double {x : Double} (number : source.number? position = some x) :
      ConvertsFrom source position (.float .double) x
  | text {t : String} (text : source.text? position = some t) :
      ConvertsFrom source position .text t

theorem convertsFrom_of_read? {source : Source} {position : Nat} {s : Scalar} {v : s.Carrier}
    (h : s.read? source position = some v) : ConvertsFrom source position s v := by
  cases s with
  | int signed width =>
    obtain ⟨x, hx, rfl⟩ := Option.map_eq_some_iff.1 h
    refine .int hx (wordOfNumber_of_not_finite width) fun q hq => ?_
    rw [← eq_ofInt_iff]
    exact wordOfNumber_of_value? width hq
  | float kind =>
    cases kind with
    | single =>
      obtain ⟨x, hx, rfl⟩ := Option.map_eq_some_iff.1 h
      have hnarrows := Binary.narrows_convert x.toBits
      rw [Binary.ofBits_toBits Binary.double_fractionBits_pos] at hnarrows
      exact .single hx hnarrows
    | double => exact .double h
  | text => exact .text h

end Scalar

namespace Source

/-- What a lenient call passes for the scalars from a position on. -/
def passed (source : Source) (position : Nat) : List Scalar → List NativeValue
  | [] => []
  | s :: ss => ⟨s, (s.read? source position).getD s.zero⟩ :: passed source (position + 1) ss

def unread (source : Source) (position : Nat) : List Scalar → List (Nat × Scalar)
  | [] => []
  | s :: ss =>
    if (s.read? source position).isSome then unread source (position + 1) ss
    else (position, s) :: unread source (position + 1) ss

theorem unread_of_some {source : Source} {position : Nat} {s : Scalar} {v : s.Carrier}
    (h : s.read? source position = some v) (ss : List Scalar) :
    source.unread position (s :: ss) = source.unread (position + 1) ss := by
  rw [unread, h]
  rfl

theorem unread_of_none {source : Source} {position : Nat} {s : Scalar}
    (h : s.read? source position = none) (ss : List Scalar) :
    source.unread position (s :: ss) = (position, s) :: source.unread (position + 1) ss := by
  rw [unread, h]
  rfl

/-- The values that declared parameters get from a source, and the declared positions that it cannot
read. Each value is the exact conversion of what stands at its position, or the zero of its type
where nothing can be read. -/
structure Reads (source : Source) (params : List Tag) (values : List NativeValue)
    (unread : List (Nat × Scalar)) : Prop where
  length_eq : values.length = params.length
  value_at : ∀ (i : Nat) (s : Scalar), params[i]? = some (.scalar s) →
    values[i]? = some ⟨s, (s.read? source (i + 1)).getD s.zero⟩
  converted : ∀ (i : Nat) (s : Scalar) (v : s.Carrier), params[i]? = some (.scalar s) →
    values[i]? = some ⟨s, v⟩ →
      s.ConvertsFrom source (i + 1) v ∨ ((i + 1, s) ∈ unread ∧ v = s.zero)
  unread_iff : ∀ (position : Nat) (s : Scalar), (position, s) ∈ unread ↔
    ∃ i, position = i + 1 ∧ params[i]? = some (.scalar s) ∧ s.read? source position = none
  ascending : (unread.map (·.1)).Pairwise (· < ·)

variable (source : Source) (ss : List Scalar)

theorem length_passed (position : Nat) : (source.passed position ss).length = ss.length := by
  induction ss generalizing position with
  | nil => rfl
  | cons s ss ih => rw [passed, List.length_cons, List.length_cons, ih]

theorem getElem?_passed (position i : Nat) :
    (source.passed position ss)[i]? =
      ss[i]?.map fun s => ⟨s, (s.read? source (position + i)).getD s.zero⟩ := by
  induction ss generalizing position i with
  | nil => rfl
  | cons s ss ih =>
    cases i with
    | zero => rfl
    | succ i =>
      rw [passed, List.getElem?_cons_succ, List.getElem?_cons_succ, ih, Nat.add_right_comm,
        Nat.add_assoc]

theorem mem_unread (position p : Nat) (t : Scalar) :
    (p, t) ∈ source.unread position ss ↔
      ∃ i, p = position + i ∧ ss[i]? = some t ∧ t.read? source p = none := by
  induction ss generalizing position with
  | nil => simp [unread]
  | cons s ss ih =>
    have htail : (p, t) ∈ source.unread (position + 1) ss ↔
        ∃ i, p = position + (i + 1) ∧ (s :: ss)[i + 1]? = some t ∧ t.read? source p = none := by
      simp only [ih, List.getElem?_cons_succ, Nat.add_assoc, Nat.add_comm 1]
    cases h : s.read? source position with
    | some v =>
      rw [unread_of_some h, htail]
      constructor
      · rintro ⟨i, hi⟩
        exact ⟨i + 1, hi⟩
      · rintro ⟨i, hp, hs, hnone⟩
        cases i with
        | zero =>
          cases hs
          rw [hp, Nat.add_zero, h] at hnone
          cases hnone
        | succ i => exact ⟨i, hp, hs, hnone⟩
    | none =>
      rw [unread_of_none h, List.mem_cons, htail]
      constructor
      · rintro (he | ⟨i, hi⟩)
        · cases he
          exact ⟨0, rfl, rfl, h⟩
        · exact ⟨i + 1, hi⟩
      · rintro ⟨i, hp, hs, hnone⟩
        cases i with
        | zero =>
          cases hs
          exact Or.inl (by rw [hp, Nat.add_zero])
        | succ i => exact Or.inr ⟨i, hp, hs, hnone⟩

theorem pairwise_unread (position : Nat) :
    ((source.unread position ss).map (·.1)).Pairwise (· < ·) := by
  induction ss generalizing position with
  | nil => exact List.Pairwise.nil
  | cons s ss ih =>
    cases h : s.read? source position with
    | some v =>
      rw [unread_of_some h]
      exact ih (position + 1)
    | none =>
      rw [unread_of_none h, List.map_cons, List.pairwise_cons]
      refine ⟨fun p hp => ?_, ih (position + 1)⟩
      obtain ⟨⟨q, t⟩, hq, rfl⟩ := List.mem_map.1 hp
      obtain ⟨i, hi, -⟩ := (mem_unread source ss (position + 1) q t).1 hq
      change position < q
      omega

theorem getElem?_map_scalar (i : Nat) (s : Scalar) :
    (ss.map Tag.scalar)[i]? = some (.scalar s) ↔ ss[i]? = some s := by
  rw [List.getElem?_map, Option.map_eq_some_iff]
  constructor
  · rintro ⟨t, ht, he⟩
    cases he
    exact ht
  · intro h
    exact ⟨s, h, rfl⟩

theorem getElem?_passed_one {i : Nat} {s : Scalar} (h : ss[i]? = some s) :
    (source.passed 1 ss)[i]? = some ⟨s, (s.read? source (i + 1)).getD s.zero⟩ := by
  rw [getElem?_passed, h, Nat.add_comm 1]
  rfl

theorem reads_passed_unread :
    source.Reads (ss.map .scalar) (source.passed 1 ss) (source.unread 1 ss) where
  length_eq := by rw [length_passed, List.length_map]
  value_at i s h := getElem?_passed_one source ss ((getElem?_map_scalar ss i s).1 h)
  converted i s v h hv := by
    have hs := (getElem?_map_scalar ss i s).1 h
    rw [getElem?_passed_one source ss hs] at hv
    cases hv
    cases hread : s.read? source (i + 1) with
    | some v => exact .inl (Scalar.convertsFrom_of_read? hread)
    | none => exact .inr ⟨(mem_unread source ss 1 _ s).2 ⟨i, Nat.add_comm i 1, hs, hread⟩, rfl⟩
  unread_iff position s := by
    simp only [mem_unread, getElem?_map_scalar, Nat.add_comm 1]
  ascending := pairwise_unread source ss 1

end Source

namespace Tag

variable (source : Source) (ss : List Scalar) (position : Nat)

theorem decodeAll_lenient :
    decodeAll source .lenient position (ss.map .scalar) =
      ⟨(source.unread position ss).map fun p => source.report p.1 p.2.reading,
        .ok (source.passed position ss)⟩ := by
  induction ss generalizing position with
  | nil => rfl
  | cons s ss ih =>
    rw [List.map_cons, decodeAll, ih]
    cases h : s.read? source position with
    | some v =>
      rw [decode_of_read? h, Source.unread_of_some h, Source.passed, h]
      simp only [Run.ok_bind, Run.pure_eq, List.nil_append, List.append_nil, Option.getD_some]
    | none =>
      rw [decode_scalar, Scalar.decode_lenient_of_none h, Source.unread_of_none h, Source.passed, h]
      simp only [Run.map, Except.map, Run.ok_bind, Run.pure_eq, List.map_cons, List.append_nil,
        List.cons_append, List.nil_append, Option.getD_none]

theorem decodeAll_strict :
    decodeAll source .strict position (ss.map .scalar) =
      match source.unread position ss with
      | [] => ⟨[], .ok (source.passed position ss)⟩
      | (p, s) :: _ => ⟨[], .error (source.failure p s.reading)⟩ := by
  induction ss generalizing position with
  | nil => rfl
  | cons s ss ih =>
    rw [List.map_cons, decodeAll]
    cases h : s.read? source position with
    | some v =>
      rw [decode_of_read? h, Source.unread_of_some h, Source.passed, h, ih]
      cases source.unread (position + 1) ss <;> rfl
    | none =>
      rw [decode_scalar, Scalar.decode_strict_of_none h, Source.unread_of_none h]
      rfl

theorem exists_scalars {params : List Tag} (h : ∀ t ∈ params, t.isSupported) :
    ∃ ss : List Scalar, params = ss.map .scalar := by
  induction params with
  | nil => exact ⟨[], rfl⟩
  | cons t params ih =>
    obtain ⟨ss, rfl⟩ := ih fun u hu => h u (List.mem_cons_of_mem t hu)
    have ht := h t List.mem_cons_self
    cases t with
    | scalar s => exact ⟨s :: ss, rfl⟩
    | _ => cases ht

end Tag

namespace Adapter

theorem invoke_of_decodeAll {a : Adapter} {source : Source} {j : Journal}
    {values : List NativeValue} (h : Tag.decodeAll source a.policy 1 a.params = ⟨j, .ok values⟩) :
    a.invoke source =
      ⟨j ++ (a.body ⟨values⟩).journal, (a.body ⟨values⟩).result.map fun _ => 0⟩ := by
  rw [invoke, h, Run.mapError_ok, Run.ok_bind]
  cases hb : a.body ⟨values⟩ with
  | mk journal result =>
    cases result with
    | error e => rfl
    | ok u => simp only [Run.ok_bind, Run.pure_eq, List.append_nil, Except.map]

theorem invoke_of_decodeAll_error {a : Adapter} {source : Source} {j : Journal} {e : DecodeError}
    (h : Tag.decodeAll source a.policy 1 a.params = ⟨j, .error e⟩) :
    a.invoke source = ⟨j, .error (.decode e)⟩ := by
  rw [invoke, h, Run.mapError_error, Run.error_bind]

/-- The strict call is the lenient one if that reads every position, and otherwise fails with the
first of its reports. The values and the unread positions do not depend on the function, so the
equations say that the lenient call runs it once, on these values, and a failing strict call not
at all. -/
theorem strict_invoke_of_lenient (a : Adapter) (source : Source)
    (supported : ∀ t ∈ a.params, t.isSupported) :
    ∃ (values : List NativeValue) (unread : List (Nat × Scalar)),
      source.Reads a.params values unread ∧
      ∀ body : Arguments → Run NativeError Unit,
        ({ a with policy := .lenient, body } : Adapter).invoke source =
          ⟨unread.map (fun p => source.report p.1 p.2.reading) ++ (body ⟨values⟩).journal,
            (body ⟨values⟩).result.map fun _ => 0⟩ ∧
        (unread = [] → ({ a with policy := .strict, body } : Adapter).invoke source =
          ⟨(body ⟨values⟩).journal, (body ⟨values⟩).result.map fun _ => 0⟩) ∧
        ∀ position s rest, unread = (position, s) :: rest →
          ({ a with policy := .strict, body } : Adapter).invoke source =
            ⟨[], .error (.decode (source.failure position s.reading))⟩ ∧
          (∀ p ∈ unread, position ≤ p.1) ∧
          source.failure position s.reading =
            if source.count < position then .missing position source.count
            else .mismatch position s.reading (source.kind position) := by
  obtain ⟨ss, hss⟩ := Tag.exists_scalars supported
  have hreads := Source.reads_passed_unread source ss
  have hlenient := Tag.decodeAll_lenient source ss 1
  have hstrict := Tag.decodeAll_strict source ss 1
  rw [← hss] at hreads hlenient hstrict
  refine ⟨_, _, hreads, fun body => ⟨invoke_of_decodeAll hlenient, fun hnil => ?_, ?_⟩⟩
  · rw [hnil] at hstrict
    exact invoke_of_decodeAll (a := { a with policy := .strict, body }) (j := []) hstrict
  · intro position s rest hcons
    rw [hcons] at hstrict
    have hasc := hreads.ascending
    rw [hcons, List.map_cons, List.pairwise_cons] at hasc
    obtain ⟨i, hi, -⟩ := (hreads.unread_iff position s).1 (by rw [hcons]; exact List.mem_cons_self)
    refine ⟨invoke_of_decodeAll_error hstrict, fun p hp => ?_, ?_⟩
    · rw [hcons] at hp
      rcases List.mem_cons.1 hp with rfl | hp
      · exact Nat.le_refl _
      · exact Nat.le_of_lt (hasc.1 _ (List.mem_map_of_mem hp))
    · have hpos : position ≠ 0 := by omega
      simp only [Source.failure, hpos, false_or]

/-- Both positions of a call can be read, and the number is reduced to its byte. A source that
denies having arguments is still read where it can be: the first position is, and the second one is
missing. -/
theorem strict_invoke_missing_second :
    let a : Adapter := .ofFunction "t" ⟨"f", [.scalar (.int false .w8), .scalar .text],
      fun args => .write [.note "f" args.values]⟩ .strict
    let whole := Source.ofCells 2
      [⟨1, some (.ofInt .double 300), none, "number"⟩, ⟨2, none, some "x", "string"⟩]
    let source := Source.ofCells 0 [⟨1, some (.ofInt .double 300), none, "number"⟩]
    (∀ t ∈ a.params, t.isSupported) ∧
      a.invoke whole = ⟨[.note "f" [⟨.int false .w8, 44⟩, ⟨.text, "x"⟩]], .ok 0⟩ ∧
      a.invoke source = ⟨[], .error (.decode (.missing 2 0))⟩ := by
  intro a whole source
  have supported : ∀ t ∈ a.params, t.isSupported := by decide
  refine ⟨supported, ?_, ?_⟩
  · obtain ⟨values, unread, hreads, hrun⟩ := strict_invoke_of_lenient a whole supported
    have hempty : unread = [] := by
      refine List.eq_nil_iff_forall_not_mem.2 fun ⟨position, s⟩ hp => ?_
      obtain ⟨i, rfl, hs, hnone⟩ := (hreads.unread_iff position s).1 hp
      match i with
      | 0 =>
        cases hs
        cases hnone
      | 1 =>
        cases hs
        cases hnone
      | i + 2 => cases hs
    have hlength : values.length = 2 := hreads.length_eq
    have hbyte : values[0]? = some ⟨.int false .w8, 44⟩ :=
      (hreads.value_at 0 (.int false .w8) rfl).trans (by decide +kernel)
    have htext : values[1]? = some ⟨.text, "x"⟩ := hreads.value_at 1 .text rfl
    have hvalues : values = [⟨.int false .w8, 44⟩, ⟨.text, "x"⟩] := by
      match values, hlength with
      | [v, w], _ => rw [Option.some.inj hbyte, Option.some.inj htext]
    obtain ⟨-, hstrict, -⟩ := hrun a.body
    rw [hvalues] at hstrict
    exact hstrict hempty
  · obtain ⟨values, unread, hreads, hrun⟩ := strict_invoke_of_lenient a source supported
    have hmem : (2, .text) ∈ unread := (hreads.unread_iff 2 .text).2 ⟨1, rfl, rfl, rfl⟩
    obtain ⟨-, -, hstrict⟩ := hrun a.body
    cases unread with
    | nil => cases hmem
    | cons p rest =>
      obtain ⟨position, s⟩ := p
      obtain ⟨hinvoke, -, hfailure⟩ := hstrict position s rest rfl
      obtain ⟨i, rfl, hs, hnone⟩ := (hreads.unread_iff position s).1 List.mem_cons_self
      match i with
      | 0 =>
        cases hs
        cases hnone
      | 1 =>
        cases hs
        exact hinvoke.trans (by rw [hfailure]; rfl)
      | i + 2 => cases hs

end Adapter

end ScriptBridge
