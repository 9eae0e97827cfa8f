import Mathlib.Data.List.TakeWhile
import ScriptBridge.Native.Recorder
import ScriptBridge.Proofs.Host.Calls
import ScriptBridge.Proofs.Host.Registry

/-!
Paths of functions. The path of a function joins its namespace and its name with a point, and a
call cuts a path at the first point in it. So exactly the functions in namespaces without a point
are called by their paths. A namespace with a point in it is cut short, and its functions give way
to those of another namespace whose paths read the same.
-/
namespace ScriptBridge.Engine

variable {path space name space' name' : String}

theorem exists_cut (h : '.' ∈ path.toList) :
    ∃ space name, path = space ++ "." ++ name ∧ '.' ∉ space.toList := by
  obtain ⟨s, n, hpath, hs⟩ := List.eq_append_cons_of_mem h
  refine ⟨String.ofList s, String.ofList n, ?_, by simpa using hs⟩
  apply String.toList_injective
  simp [hpath]

theorem splitPath?_eq_none (h : '.' ∉ path.toList) : splitPath? path = none := by
  have hall : ∀ c ∈ path.toList, decide (c ≠ '.') = true := by
    intro c hc
    exact decide_eq_true fun he => h (he ▸ hc)
  simp only [splitPath?, List.dropWhile_eq_nil_iff.2 hall]

theorem call_join (h : '.' ∉ space.toList) (e : Engine) (name : String) (frame : Frame) :
    e.call (space ++ "." ++ name) frame = e.callIn space name frame := by
  rw [call, splitPath?_join h]

theorem call_of_no_point (h : '.' ∉ path.toList) (e : Engine) (frame : Frame) :
    e.call path frame = ⟨[], .error (.invalidPath path)⟩ := by
  rw [call, splitPath?_eq_none h]
  rfl

theorem point_mem_join (space name : String) : '.' ∈ (space ++ "." ++ name).toList := by simp

theorem join_assoc (space mid name : String) :
    space ++ "." ++ mid ++ "." ++ name = space ++ "." ++ (mid ++ "." ++ name) := by
  simp only [String.append_assoc]

/-- Where a namespace begins with another one, the paths are of one function, or the rest of it
stands in front of the name. -/
theorem eq_or_exists_mid {rest : List Char} (hspace : space'.toList = space.toList ++ rest)
    (hname : '.' :: name.toList = rest ++ '.' :: name'.toList) :
    (space = space' ∧ name = name') ∨
      ∃ mid, space' = space ++ "." ++ mid ∧ name = mid ++ "." ++ name' := by
  cases rest with
  | nil =>
    refine .inl ⟨String.toList_injective ?_, String.toList_injective ?_⟩
    · simp [hspace]
    · simpa using hname
  | cons c mid =>
    obtain ⟨rfl, hrest⟩ := List.cons.inj hname
    refine .inr ⟨String.ofList mid, String.toList_injective ?_, String.toList_injective ?_⟩
    · simp [hspace]
    · simp [hrest]

/-- Two paths that read the same are of one function, or one namespace goes on behind the other,
over what is in front of the name there. -/
theorem join_eq_join_iff :
    space ++ "." ++ name = space' ++ "." ++ name' ↔
      (space = space' ∧ name = name') ∨
        (∃ mid, space' = space ++ "." ++ mid ∧ name = mid ++ "." ++ name') ∨
          ∃ mid, space = space' ++ "." ++ mid ∧ name' = mid ++ "." ++ name := by
  constructor
  · intro h
    have hlist : space.toList ++ '.' :: name.toList = space'.toList ++ '.' :: name'.toList := by
      simpa using congrArg String.toList h
    rcases List.append_eq_append_iff.1 hlist with ⟨rest, hspace, hname⟩ | ⟨rest, hspace, hname⟩
    · exact (eq_or_exists_mid hspace hname).imp_right .inl
    · rcases eq_or_exists_mid hspace hname with ⟨rfl, rfl⟩ | hmid
      · exact .inl ⟨rfl, rfl⟩
      · exact .inr (.inr hmid)
  · rintro (⟨rfl, rfl⟩ | ⟨mid, rfl, rfl⟩ | ⟨mid, rfl, rfl⟩)
    · rfl
    · exact (join_assoc _ _ _).symm
    · exact join_assoc _ _ _

theorem join_inj (h : '.' ∉ space.toList) (h' : '.' ∉ space'.toList) :
    space ++ "." ++ name = space' ++ "." ++ name' ↔ space = space' ∧ name = name' := by
  rw [join_eq_join_iff]
  refine or_iff_left ?_
  rintro (⟨mid, rfl, -⟩ | ⟨mid, rfl, -⟩)
  · exact h' (point_mem_join space mid)
  · exact h (point_mem_join space' mid)

theorem ne_append_point (back name : String) : name ≠ back ++ "." ++ name := by
  intro h
  have hlength := congrArg String.length h
  simp at hlength

/-- A function that was put up is called by its path exactly if there is no point in its namespace.
Otherwise the path is cut inside the namespace, and the call goes to whatever stands under the front
part of it, which is never the function. Functions in namespaces without a point never share a path.
In general the paths of two functions read the same exactly where one namespace goes on behind the
other, over what is in front of the name there. -/
theorem call_reaches_undotted (ms : List Module) {a : Adapter}
    (h : (empty.registerAll ms).lookup space name = .ok a) :
    let e := empty.registerAll ms
    ('.' ∉ space.toList →
        ∀ frame, e.call (space ++ "." ++ name) frame = e.callIn space name frame) ∧
      ('.' ∈ space.toList → ∃ front back, space = front ++ "." ++ back ∧ '.' ∉ front.toList ∧
        (∀ frame, e.call (space ++ "." ++ name) frame =
          e.callIn front (back ++ "." ++ name) frame) ∧
        e.lookup front (back ++ "." ++ name) ≠ .ok a) ∧
      (∀ space' name', '.' ∉ space.toList → '.' ∉ space'.toList →
        (space ++ "." ++ name = space' ++ "." ++ name' ↔ space = space' ∧ name = name')) ∧
      ∀ space' name', (space', name') ≠ (space, name) →
        (space ++ "." ++ name = space' ++ "." ++ name' ↔
          (∃ mid, space' = space ++ "." ++ mid ∧ name = mid ++ "." ++ name') ∨
            ∃ mid, space = space' ++ "." ++ mid ∧ name' = mid ++ "." ++ name) := by
  intro e
  refine ⟨fun hspace frame => call_join hspace e name frame, fun hspace => ?_,
    fun space' name' => join_inj, ?_⟩
  · obtain ⟨front, back, rfl, hfront⟩ := exists_cut hspace
    refine ⟨front, back, rfl, hfront, fun frame => ?_, fun hother => ?_⟩
    · rw [join_assoc, call_join hfront]
    · have hname := name_eq_of_latest? (lookup_eq_ok_iff.1 h)
      have hlong := name_eq_of_latest? (lookup_eq_ok_iff.1 hother)
      exact ne_append_point back name (hname.symm.trans hlong)
  · intro space' name' hne
    rw [join_eq_join_iff, or_iff_right]
    rintro ⟨rfl, rfl⟩
    exact hne rfl

/-- A name may have points in it, and its path leads to it all the same. -/
theorem call_reaches_dotted_name :
    let f := Recorder.function "b.c" "f" [.scalar (.int false .w8)] []
    let e := empty.registerAll [⟨"a", [.ofFunction "a" f .lenient]⟩]
    e.lookup "a" "b.c" = .ok (.ofFunction "a" f .lenient) ∧
      (e.call "a.b.c" [.int 300]).journal.notes = [("f", [⟨.int false .w8, 44#8⟩])] := by
  intro f e
  have hlookup : e.lookup "a" "b.c" = .ok (.ofFunction "a" f .lenient) := rfl
  obtain ⟨hreach, -⟩ := call_reaches_undotted [⟨"a", [.ofFunction "a" f .lenient]⟩] hlookup
  have hcall : e.call "a.b.c" [.int 300] = e.callIn "a" "b.c" [.int 300] :=
    hreach (by decide) [.int 300]
  refine ⟨hlookup, ?_⟩
  rw [hcall]
  decide +kernel

/-- The function `c` of the namespace `a.b` is not called by its path. Alone in an engine it is not
found, and beside a function `b.c` of the namespace `a` its path is the one of that. -/
theorem call_misses_dotted_namespace :
    let c := Recorder.function "c" "c" [] []
    let other := Recorder.function "b.c" "other" [] []
    let m : Module := ⟨"a.b", [.ofFunction "a.b" c .lenient]⟩
    let n : Module := ⟨"a", [.ofFunction "a" other .lenient]⟩
    let alone := empty.registerAll [m]
    let both := empty.registerAll [m, n]
    (Module.bind "a.b" .lenient [c]).result = .ok m ∧
      (Module.bind "a" .lenient [other]).result = .ok n ∧
      (alone.callIn "a.b" "c" []).journal.notes = [("c", [])] ∧
      alone.call ("a.b" ++ "." ++ "c") [] = ⟨[], .error (.unknownNamespace "a")⟩ ∧
      (both.callIn "a.b" "c" []).journal.notes = [("c", [])] ∧
      "a.b" ++ "." ++ "c" = "a" ++ "." ++ "b.c" ∧
      (both.call ("a.b" ++ "." ++ "c") []).journal.notes = [("other", [])] := by
  intro c other m n alone both
  have hjoin : "a.b" ++ "." ++ "c" = "a" ++ "." ++ "b.c" := by decide
  refine ⟨rfl, rfl, rfl, ?_, rfl, hjoin, ?_⟩
  · rw [hjoin, call_join (by decide)]
    rfl
  · rw [hjoin, call_join (by decide)]
    rfl

end ScriptBridge.Engine
