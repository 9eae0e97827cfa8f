import ScriptBridge.Native.Recorder
import ScriptBridge.Proofs.Binding.Origin
import ScriptBridge.Proofs.Decode.Delivery
import ScriptBridge.Proofs.Host.Calls
import ScriptBridge.Proofs.Host.Registry

/-!
Calls with values of the declared types. A function that was bound and registered runs once for each
call, on what is delivered of the values, which depends on the values alone.
-/
namespace ScriptBridge.Engine

open ScriptBridge.Number

variable {f : NativeFunction} {values : List NativeValue} {frame : Frame} {space : String}
  {policy : Policy}

theorem lookup_register_of_bind {fs : List NativeFunction} {m : Module}
    (h : (Module.bind space policy fs).result = .ok m) (hf : f ∈ fs) (e : Engine) :
    (e.register m).1.lookup space f.name = .ok (.ofFunction space f policy) := by
  obtain ⟨-, hspace, -⟩ := Module.boundFrom_of_bind h
  obtain ⟨-, -, hlookup⟩ := e.register_self (Module.Bound.bind h).nodup_names
  rw [← hspace, hlookup, lookupIn, Module.get?_of_bind h hf, hspace]

theorem callIn_of_passedAs (tags : values.map NativeValue.tag = f.params)
    (passed : List.Forall₂ NativeValue.PassedAs values frame) {e : Engine}
    (h : e.lookup space f.name = .ok (.ofFunction space f policy)) :
    e.callIn space f.name frame =
      ⟨.event (.called space f.name (.ofFunction space f.name f.params) frame.length) ::
          (f.body ⟨values.map NativeValue.delivered⟩).journal,
        ((f.body ⟨values.map NativeValue.delivered⟩).result.map fun _ => 0).mapError
          (.native space f.name)⟩ := by
  have hdecode : Tag.decodeAll frame.source policy 1 f.params =
      ⟨[], .ok (values.map NativeValue.delivered)⟩ := tags ▸ Tag.decodeAll_of_passedAs passed policy
  have hinvoke := Adapter.invoke_of_decodeAll (a := .ofFunction space f policy) hdecode
  rw [callIn_of_lookup h, hinvoke]
  rfl

/-- A function on scalars can be bound, and is then found under its name. Called by its path with
values of its types, it runs once, on what is delivered of them, as if it was called with that
directly. The values are delivered as they are exactly if every integer among them is the value of a
double. Of any other integer the nearest double arrives, in the word of its type. -/
theorem call_delivers (tags : values.map NativeValue.tag = f.params)
    (passed : List.Forall₂ NativeValue.PassedAs values frame) (space : String) (policy : Policy) :
    (space ≠ "" → (Module.bind space policy [f]).result =
        .ok ⟨space, [.ofFunction space f policy]⟩) ∧
      (∀ fs m, (Module.bind space policy fs).result = .ok m → f ∈ fs → ∀ e : Engine,
        (e.register m).1.lookup space f.name = .ok (.ofFunction space f policy)) ∧
      (∀ e : Engine, e.lookup space f.name = .ok (.ofFunction space f policy) →
        ∀ path, splitPath? path = some (space, f.name) →
          e.call path frame =
            ⟨.event (.called space f.name (.ofFunction space f.name f.params) frame.length) ::
                (f.body ⟨values.map NativeValue.delivered⟩).journal,
              ((f.body ⟨values.map NativeValue.delivered⟩).result.map fun _ => 0).mapError
                (.native space f.name)⟩) ∧
      ('.' ∉ space.toList → splitPath? (space ++ "." ++ f.name) = some (space, f.name)) ∧
      (values.map NativeValue.delivered = values ↔ ∀ v ∈ values, v.IsExact) ∧
      ∀ signed width (v : BitVec width.bits), ⟨.int signed width, v⟩ ∈ values →
        let arrived := Scalar.deliver (.int signed width) v
        (arrived = v ↔ ∃ x : Double, x.value? = some (wordValue signed v : ℚ)) ∧
          (width ≠ .w64 ∨ |wordValue signed v| ≤ 2 ^ 53 → arrived = v) ∧
          ∃ (x : Double) (n : ℤ), x.IsNearest (wordValue signed v) ∧ x.value? = some (n : ℚ) ∧
            wordValue signed arrived ≡ n [ZMOD 2 ^ width.bits] := by
  refine ⟨fun hspace => ?_, fun fs m hbind hf e => lookup_register_of_bind hbind hf e, ?_,
    splitPath?_join, NativeValue.map_delivered_eq_iff passed, ?_⟩
  · have supported : ∀ g ∈ [f], ∀ t ∈ g.params, t.isSupported := by
      simp [← tags, NativeValue.tag, Tag.isSupported, Tag.scalar?]
    exact Module.result_bind hspace supported (by simp) policy
  · intro e hlookup path hpath
    rw [call, hpath]
    exact callIn_of_passedAs tags passed hlookup
  · intro signed width v hv arrived
    obtain ⟨slot, hslot⟩ := NativeValue.exists_passedAs passed hv
    have hfits := hslot.natAbs_le
    have hexact := Scalar.deliver_int_eq_iff hfits
    obtain ⟨n, hn, hdeliver⟩ := Scalar.exists_deliver_int hfits
    refine ⟨hexact, fun hsmall => hexact.2 ?_, _, n, Binary.isNearest_ofInt hfits, hn, ?_⟩
    · rcases hsmall with hwidth | habs
      · exact Scalar.isExact_of_ne_w64 hwidth
      · exact Scalar.isExact_of_natAbs_le (by rw [Int.abs_eq_natAbs] at habs; omega)
    · exact (eq_ofInt_iff signed).1 hdeliver

/-- The smallest signed word arrives as it is. -/
theorem call_delivers_minInt :
    let f := Recorder.function "f" "f" [.scalar (.int true .w64), .scalar (.int false .w8),
      .scalar (.float .single), .scalar .text] []
    let x : Single := .ofInt .single 3
    let values : List NativeValue := [⟨.int true .w64, BitVec.intMin 64⟩, ⟨.int false .w8, 200#8⟩,
      ⟨.float .single, x⟩, ⟨.text, "tree"⟩]
    let frame : Frame := [.int Int64.minValue, .int 200, .float (x.convert .double), .string "tree"]
    let m : Module := ⟨"t", [.ofFunction "t" f .strict]⟩
    values.map NativeValue.tag = f.params ∧ List.Forall₂ NativeValue.PassedAs values frame ∧
      (empty.register m).1.call "t.f" frame =
        ⟨[.event (.called "t" "f" (.ofFunction "t" "f" f.params) 4), .note "f" values], .ok 0⟩ := by
  intro f x values frame m
  have tags : values.map NativeValue.tag = f.params := rfl
  have passed : List.Forall₂ NativeValue.PassedAs values frame :=
    .cons (.int (by decide)) (.cons (.int (by decide)) (.cons (.single x) (.cons (.text _) .nil)))
  obtain ⟨hbind, hlookup, hcall, hpath, -, -⟩ := call_delivers tags passed "t" .strict
  have hdelivered : values.map NativeValue.delivered = values := by decide +kernel
  have hfound := hlookup [f] m (hbind (by decide)) (by simp) empty
  refine ⟨tags, passed, ?_⟩
  rw [hcall _ hfound "t.f" (hpath (by decide)), hdelivered]
  rfl

/-- The largest signed word arrives as the smallest one. -/
theorem call_changes_maxInt :
    let f := Recorder.function "f" "f" [.scalar (.int true .w64)] []
    let v : NativeValue := ⟨.int true .w64, BitVec.intMax 64⟩
    let m : Module := ⟨"t", [.ofFunction "t" f .lenient]⟩
    let noted := ((empty.register m).1.call "t.f" [.int Int64.maxValue]).journal
    (Module.bind "t" .lenient [f]).result = .ok m ∧ [v].map NativeValue.tag = f.params ∧
      List.Forall₂ NativeValue.PassedAs [v] [.int Int64.maxValue] ∧
      (f.body ⟨[v]⟩).journal = [.note "f" [v]] ∧
      noted = [.event (.called "t" "f" (.ofFunction "t" "f" f.params) 1),
        .note "f" [⟨.int true .w64, BitVec.intMin 64⟩]] ∧
      .note "f" [v] ∉ noted := by
  intro f v m noted
  have tags : [v].map NativeValue.tag = f.params := rfl
  have passed : List.Forall₂ NativeValue.PassedAs [v] [.int Int64.maxValue] :=
    .cons (.int (by decide)) .nil
  have hbind : (Module.bind "t" .lenient [f]).result = .ok m := rfl
  have hdelivered : [v].map NativeValue.delivered = [⟨.int true .w64, BitVec.intMin 64⟩] := by
    decide +kernel
  have hlookup := lookup_register_of_bind hbind (List.mem_singleton_self f) empty
  have hcall := callIn_of_passedAs tags passed hlookup
  rw [hdelivered] at hcall
  have hnoted : noted = [.event (.called "t" "f" (.ofFunction "t" "f" f.params) 1),
      .note "f" [⟨.int true .w64, BitVec.intMin 64⟩]] := congrArg Run.journal hcall
  refine ⟨hbind, tags, passed, rfl, hnoted, ?_⟩
  rw [hnoted]
  decide

end ScriptBridge.Engine
