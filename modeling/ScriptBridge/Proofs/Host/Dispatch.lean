import ScriptBridge.Native.Recorder
import ScriptBridge.Proofs.Host.Operations
import ScriptBridge.Proofs.Host.Paths

/-!
What a call by a path comes to. Without a point in the path, without a table for the namespace in
front of it, or without the name in that table the call fails and does nothing. Otherwise it is the
call of the adapter that was put up last under the namespace and the name. To tell which functions a
call runs, each of them can be made to write a mark of its own first.
-/
namespace ScriptBridge

def Adapter.marked (mark : Journal) (a : Adapter) : Adapter :=
  { a with body := fun args => ⟨mark ++ (a.body args).journal, (a.body args).result⟩ }

def Module.marked (mark : Adapter → Journal) (m : Module) : Module :=
  { m with adapters := m.adapters.map fun a => a.marked (mark a) }

namespace Engine

variable {ms : List Module} {space name : String} {frame : Frame}

theorem lastUnder_map_marked (mark : Adapter → Journal) (ms : List Module) (space : String) :
    lastUnder (ms.map (Module.marked mark)) space =
      (lastUnder ms space).map (Module.marked mark) := by
  rw [lastUnder, List.filter_map, List.getLast?_map]
  rfl

theorem latest?_map_marked (mark : Adapter → Journal) (ms : List Module) (space name : String) :
    latest? (ms.map (Module.marked mark)) space name =
      (latest? ms space name).map fun a => a.marked (mark a) := by
  rw [latest?, lastUnder_map_marked, latest?]
  cases lastUnder ms space with
  | none => rfl
  | some m =>
    simp only [Option.map_some, Option.bind_some, Module.marked, ← List.map_reverse, List.find?_map]
    rfl

theorem lookup_map_marked (mark : Adapter → Journal) (ms : List Module) (space name : String) :
    (empty.registerAll (ms.map (Module.marked mark))).lookup space name =
      ((empty.registerAll ms).lookup space name).map fun a => a.marked (mark a) := by
  rw [lookup_registerAll, lookup_registerAll, lastUnder_map_marked, latest?_map_marked]
  cases lastUnder ms space with
  | none => rfl
  | some m => cases latest? ms space name <;> rfl

theorem latest?_eq_none_iff {m : Module} (h : lastUnder ms space = some m) :
    latest? ms space name = none ↔ name ∉ m.names := by
  rw [latest?, h, Option.bind_some, List.find?_eq_none, Module.names, List.mem_map]
  simp

theorem lastUnder_eq_none_iff :
    lastUnder ms space = none ↔ ∀ m ∈ ms, m.space ≠ space := by
  rw [lastUnder, List.getLast?_eq_none_iff, List.filter_eq_nil_iff]
  simp

theorem lookup_eq_unknownNamespace_iff {s : String} :
    (empty.registerAll ms).lookup space name = .error (.unknownNamespace s) ↔
      s = space ∧ ∀ m ∈ ms, m.space ≠ space := by
  rw [lookup_registerAll, ← lastUnder_eq_none_iff]
  cases lastUnder ms space with
  | none => simp [eq_comm]
  | some m => cases latest? ms space name <;> simp

theorem lookup_eq_unknownFunction_iff {s n : String} :
    (empty.registerAll ms).lookup space name = .error (.unknownFunction s n) ↔
      s = space ∧ n = name ∧ ∃ m, lastUnder ms space = some m ∧ name ∉ m.names := by
  rw [lookup_registerAll]
  cases h : lastUnder ms space with
  | none => simp
  | some m =>
    have hmem : (∃ n, some m = some n ∧ name ∉ n.names) ↔ latest? ms space name = none := by
      simp [latest?_eq_none_iff h]
    rw [hmem]
    cases latest? ms space name <;> simp [eq_comm]

theorem exists_lookup_error (h : latest? ms space name = none) :
    ∃ cause, (empty.registerAll ms).lookup space name = .error cause := by
  rw [lookup_registerAll, h]
  cases lastUnder ms space with
  | none => exact ⟨_, rfl⟩
  | some m => exact ⟨_, rfl⟩

theorem result_callIn_eq_error_iff {e : Engine} {cause : EngineError}
    (h : ∀ s n c, cause ≠ .native s n c) :
    (e.callIn space name frame).result = .error cause ↔ e.lookup space name = .error cause := by
  cases hlookup : e.lookup space name with
  | error why => rw [callIn_of_lookup_error hlookup, Except.error.injEq, Except.error.injEq]
  | ok a =>
    rw [callIn_of_lookup hlookup]
    refine iff_of_false (fun hresult => ?_) (by simp)
    cases hinvoke : (a.invoke frame.source).result with
    | ok count => simp [hinvoke, Except.mapError] at hresult
    | error why =>
      simp only [hinvoke, Except.mapError, Except.error.injEq] at hresult
      exact h _ _ _ hresult.symm

theorem result_call_eq_invalidPath_iff (e : Engine) {path p : String} :
    (e.call path frame).result = .error (.invalidPath p) ↔ p = path ∧ '.' ∉ path.toList := by
  by_cases hpoint : '.' ∈ path.toList
  · obtain ⟨space, name, rfl, hspace⟩ := exists_cut hpoint
    rw [call_join hspace, result_callIn_eq_error_iff (by simp)]
    refine iff_of_false (fun h => ?_) fun h => h.2 hpoint
    unfold lookup at h
    split at h
    · simp at h
    · split at h <;> simp at h
  · simp [call_of_no_point hpoint, hpoint, eq_comm]

/-- What a call comes to whose arguments can be decoded, and what becomes of it if the function that
it finds writes a mark. -/
theorem callIn_marked_of_decoded {e : Engine} {a : Adapter} {mark : Journal}
    (h : e.lookup space name = .ok (a.marked mark)) {j : Journal} {values : List NativeValue}
    (hdecode : Tag.decodeAll frame.source a.policy 1 a.params = ⟨j, .ok values⟩) :
    e.callIn space name frame =
      ⟨.event (.called space name a.id frame.length) ::
          (j ++ (mark ++ (a.body ⟨values⟩).journal)),
        ((a.body ⟨values⟩).result.map fun _ => 0).mapError (.native space name)⟩ := by
  rw [callIn_of_lookup h, Adapter.invoke_of_decodeAll (a := a.marked mark) hdecode]
  rfl

theorem callIn_marked_of_undecoded {e : Engine} {a : Adapter} {mark : Journal}
    (h : e.lookup space name = .ok (a.marked mark)) {j : Journal} {cause : DecodeError}
    (hdecode : Tag.decodeAll frame.source a.policy 1 a.params = ⟨j, .error cause⟩) :
    e.callIn space name frame =
      ⟨.event (.called space name a.id frame.length) :: j,
        .error (.native space name (.decode cause))⟩ := by
  rw [callIn_of_lookup h, Adapter.invoke_of_decodeAll_error (a := a.marked mark) hdecode]
  rfl

end Engine

namespace Context

theorem exists_registerAll_perform (c : Context) (op : Operation) :
    ∃ ms, (c.perform op).context.engine = c.engine.registerAll ms := by
  cases c.transition_perform op with
  | failed result context => exact ⟨[], by rw [context]; rfl⟩
  | closed seals result context => exact ⟨[], by rw [context]; rfl⟩
  | installed unsealed modules result context => exact ⟨_, by rw [context]; rfl⟩

/-- Whatever is done with a context comes to registering modules in its engine. -/
theorem exists_registerAll_performAll (c : Context) (ops : List Operation) :
    ∃ ms, (c.performAll ops).engine = c.engine.registerAll ms := by
  induction ops generalizing c with
  | nil => exact ⟨[], rfl⟩
  | cons op ops ih =>
    obtain ⟨first, hfirst⟩ := c.exists_registerAll_perform op
    obtain ⟨rest, hrest⟩ := ih (c.perform op).context
    refine ⟨first ++ rest, ?_⟩
    rw [Engine.registerAll_append, ← hfirst, ← hrest]
    rfl

end Context

namespace Engine

/-- A call after any modules were registered one after the other, which is how the engine of every
context comes about too. It fails for its path exactly if there is no point in it. Otherwise the
path is cut at the first point, and the call fails for the namespace exactly if none of the modules
has it, and for the name exactly if the last module of the namespace lacks it, without any effect.
What remains is the call of the adapter that was put up last, with its error named for what it is.
If every function is made to write a mark of its own, calls that fail for the path, the names or the
decoding write none of them, and any other call writes the mark of that adapter, once. -/
theorem call_runs_latest (ms : List Module) (frame : Frame) :
    let e := empty.registerAll ms
    let marked := fun mark : Adapter → Journal =>
      empty.registerAll (ms.map (Module.marked mark))
    (∀ config ops, ∃ ms,
        ((Context.ofConfig config).performAll ops).engine = empty.registerAll ms) ∧
      (∀ path p, (e.call path frame).result = .error (.invalidPath p) ↔
        p = path ∧ '.' ∉ path.toList) ∧
      (∀ path, '.' ∉ path.toList → ∀ mark,
        (marked mark).call path frame = ⟨[], .error (.invalidPath path)⟩) ∧
      (∀ path, '.' ∈ path.toList →
        ∃ space name, path = space ++ "." ++ name ∧ '.' ∉ space.toList) ∧
      ∀ space name, '.' ∉ space.toList →
        let path := space ++ "." ++ name
        let run := e.call path frame
        (∀ s, run.result = .error (.unknownNamespace s) ↔
            s = space ∧ ∀ m ∈ ms, m.space ≠ space) ∧
          (∀ s n, run.result = .error (.unknownFunction s n) ↔
            s = space ∧ n = name ∧ ∃ m, lastUnder ms space = some m ∧ name ∉ m.names) ∧
          (latest? ms space name = none → run.journal = [] ∧ ∀ mark,
            (marked mark).call path frame = run) ∧
          ∀ a, latest? ms space name = some a →
            let decoded := Tag.decodeAll frame.source a.policy 1 a.params
            let called := Effect.event (.called space name a.id frame.length)
            run = ⟨called :: (a.invoke frame.source).journal,
                (a.invoke frame.source).result.mapError (.native space name)⟩ ∧
              (∀ cause, decoded.result = .error cause → ∀ mark,
                (marked mark).call path frame =
                  ⟨called :: decoded.journal, .error (.native space name (.decode cause))⟩) ∧
              ∀ values, decoded.result = .ok values → ∀ mark,
                (marked mark).call path frame =
                  ⟨called :: (decoded.journal ++ (mark a ++ (a.body ⟨values⟩).journal)),
                    run.result⟩ := by
  intro e marked
  refine ⟨fun config ops => (Context.ofConfig config).exists_registerAll_performAll ops,
    fun path p => result_call_eq_invalidPath_iff e,
    fun path hpath mark => call_of_no_point hpath _ frame, fun path => exists_cut, ?_⟩
  intro space name hspace path run
  have hcall : ∀ e : Engine, e.call path frame = e.callIn space name frame :=
    fun e => call_join hspace e name frame
  have hrun : run = e.callIn space name frame := hcall e
  have hmarked : ∀ mark, (marked mark).lookup space name =
      (e.lookup space name).map fun a => a.marked (mark a) :=
    fun mark => lookup_map_marked mark ms space name
  refine ⟨fun s => ?_, fun s n => ?_, fun hnone => ?_, fun a ha => ?_⟩
  · rw [hrun, result_callIn_eq_error_iff (by simp), lookup_eq_unknownNamespace_iff]
  · rw [hrun, result_callIn_eq_error_iff (by simp), lookup_eq_unknownFunction_iff]
  · obtain ⟨cause, hcause⟩ := exists_lookup_error hnone
    have hsilent : run = ⟨[], .error cause⟩ := hrun.trans (callIn_of_lookup_error hcause frame)
    refine ⟨by rw [hsilent], fun mark => ?_⟩
    rw [hcall, hsilent]
    exact callIn_of_lookup_error ((hmarked mark).trans (by rw [hcause]; rfl)) frame
  · intro decoded called
    have hfound : e.lookup space name = .ok a := lookup_eq_ok_iff.2 ha
    have hfound' : ∀ mark, (marked mark).lookup space name = .ok (a.marked (mark a)) := by
      intro mark
      rw [hmarked, hfound]
      rfl
    refine ⟨hrun.trans (callIn_of_lookup hfound frame), fun cause hcause mark => ?_,
      fun values hvalues mark => ?_⟩
    · have hdecode : decoded = ⟨decoded.journal, .error cause⟩ := by rw [← hcause]
      exact (hcall _).trans (callIn_marked_of_undecoded (hfound' mark) hdecode)
    · have hdecode : decoded = ⟨decoded.journal, .ok values⟩ := by rw [← hvalues]
      rw [hcall, callIn_marked_of_decoded (hfound' mark) hdecode, hrun, callIn_of_lookup hfound,
        Adapter.invoke_of_decodeAll hdecode]

/-- A function that was replaced never runs, and its successor runs once if the call gets that far.
The name of a function has all points in it but the first. -/
theorem call_runs_replacement :
    let old := Recorder.function "f" "old" [] []
    let new := Recorder.function "f" "new" [.scalar .text] []
    let ms : List Module := [⟨"t", [.ofFunction "t" old .lenient]⟩,
      ⟨"t", [.ofFunction "t" new .strict]⟩]
    let mark : Adapter → Journal := fun a => [.note a.policy.label []]
    let e := empty.registerAll ms
    let marked := empty.registerAll (ms.map (Module.marked mark))
    (marked.call "t.f" [.string "x"]).journal =
        [.event (.called "t" "f" (.ofFunction "t" "f" [.scalar .text]) 1),
          .note "Strict" [], .note "new" [⟨.text, "x"⟩]] ∧
      marked.call "t.f" [] =
        ⟨[.event (.called "t" "f" (.ofFunction "t" "f" [.scalar .text]) 0)],
          .error (.native "t" "f" (.decode (.missing 1 0)))⟩ ∧
      (e.call "t.f.f" []).result = .error (.unknownFunction "t" "f.f") ∧
      (e.call ".t.f" []).result = .error (.unknownNamespace "") ∧
      (e.call "t" []).result = .error (.invalidPath "t") := by
  intro old new ms mark e marked
  have hlatest : latest? ms "t" "f" = some (.ofFunction "t" new .strict) := rfl
  have hlast : lastUnder ms "t" = some ⟨"t", [.ofFunction "t" new .strict]⟩ := rfl
  obtain ⟨-, -, -, -, hsupplied⟩ := call_runs_latest ms [.string "x"]
  obtain ⟨-, hpath, -, -, hnames⟩ := call_runs_latest ms []
  obtain ⟨-, -, -, hfound⟩ := hsupplied "t" "f" (by decide)
  obtain ⟨-, hfunction, -⟩ := hnames "t" "f.f" (by decide)
  obtain ⟨hnamespace, -⟩ := hnames "" "t.f" (by decide)
  obtain ⟨-, -, -, hfound'⟩ := hnames "t" "f" (by decide)
  refine ⟨?_, (hfound' _ hlatest).2.1 (.missing 1 0) rfl mark,
    (hfunction "t" "f.f").2 ⟨rfl, rfl, _, hlast, by decide⟩,
    (hnamespace "").2 ⟨rfl, by decide⟩, (hpath "t" "t").2 ⟨rfl, by decide⟩⟩
  exact congrArg Run.journal ((hfound _ hlatest).2.2 [⟨.text, "x"⟩] rfl mark)

end Engine

end ScriptBridge
