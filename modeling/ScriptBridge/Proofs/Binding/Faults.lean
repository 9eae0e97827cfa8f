import Mathlib.Data.List.Forall2
import ScriptBridge.Proofs.Binding.Origin

/-!
What binding finds wrong. A function is at fault after the names before it if it repeats one of
them, and otherwise if one of its parameters cannot be bound. Binding goes through the functions in
order and fails with the fault of the first one that has any; without a fault it succeeds.
-/
namespace ScriptBridge

theorem Tag.firstUnsupported?_eq_some_iff {start position : Nat} {ts : List Tag} {t : Tag} :
    Tag.firstUnsupported? start ts = some (position, t) ↔
      ∃ i, position = start + i ∧ ts[i]? = some t ∧ ¬t.isSupported ∧
        ∀ u ∈ ts.take i, u.isSupported := by
  induction ts generalizing start with
  | nil => simp [Tag.firstUnsupported?]
  | cons u ts ih =>
    rw [Tag.firstUnsupported?]
    by_cases hu : u.isSupported
    · rw [if_pos hu, ih]
      constructor
      · rintro ⟨i, hposition, ht, hbad, hfirst⟩
        refine ⟨i + 1, by omega, ht, hbad, ?_⟩
        rw [List.take_succ_cons]
        exact List.forall_mem_cons.2 ⟨hu, hfirst⟩
      · rintro ⟨i, hposition, ht, hbad, hfirst⟩
        cases i with
        | zero =>
          cases ht
          exact absurd hu hbad
        | succ i =>
          rw [List.take_succ_cons] at hfirst
          exact ⟨i, by omega, ht, hbad, (List.forall_mem_cons.1 hfirst).2⟩
    · rw [if_neg hu, Option.some.injEq, Prod.mk.injEq]
      constructor
      · rintro ⟨rfl, rfl⟩
        exact ⟨0, rfl, rfl, hu, by simp⟩
      · rintro ⟨i, hposition, ht, hbad, hfirst⟩
        cases i with
        | zero =>
          cases ht
          exact ⟨hposition.symm, rfl⟩
        | succ i =>
          rw [List.take_succ_cons] at hfirst
          exact absurd (List.forall_mem_cons.1 hfirst).1 hu

namespace Module

/-- What is wrong with a function that comes after some names. -/
inductive Fault (space : String) (before : List String) (f : NativeFunction) :
    BindError → Prop where
  | duplicate (repeated : f.name ∈ before) : Fault space before f (.duplicateFunction space f.name)
  | unsupported {i : Nat} {t : Tag} (fresh : f.name ∉ before) (tag : f.params[i]? = some t)
      (bad : ¬t.isSupported) (first : ∀ u ∈ f.params.take i, u.isSupported) :
      Fault space before f (.unsupportedParameter f.name (i + 1) t)

/-- The fault of the first function that has one, where `before` are the names in front of all. -/
def FirstFault (space : String) (before : List String) (fs : List NativeFunction)
    (cause : BindError) : Prop :=
  ∃ j f, fs[j]? = some f ∧ Fault space (before ++ (fs.take j).map (·.name)) f cause ∧
    ∀ i g, i < j → fs[i]? = some g → ∀ c, ¬Fault space (before ++ (fs.take i).map (·.name)) g c

variable {space : String} {policy : Policy} {before seen : List String} {f : NativeFunction}
  {fs : List NativeFunction} {cause : BindError}

theorem Fault.of_mem_iff (h : f.name ∈ before ↔ f.name ∈ seen) (hf : Fault space before f cause) :
    Fault space seen f cause := by
  cases hf with
  | duplicate repeated => exact .duplicate (h.1 repeated)
  | unsupported fresh tag bad first => exact .unsupported (fun hs => fresh (h.2 hs)) tag bad first

theorem fault_cons_append (name : String) (names : List String) :
    Fault space (before ++ name :: names) f cause ↔
      Fault space (name :: before ++ names) f cause := by
  have hmem : f.name ∈ before ++ name :: names ↔ f.name ∈ name :: before ++ names :=
    List.perm_middle.mem_iff
  exact ⟨Fault.of_mem_iff hmem, Fault.of_mem_iff hmem.symm⟩

theorem result_bindEach_cons_of_fault (h : Fault space seen f cause) :
    (bindEach space policy seen (f :: fs)).result = .error cause := by
  cases h with
  | duplicate repeated =>
    rw [bindEach, if_pos repeated]
    rfl
  | unsupported fresh tag bad first =>
    have hfirst := Tag.firstUnsupported?_eq_some_iff.2 ⟨_, Nat.add_comm _ 1, tag, bad, first⟩
    rw [bindEach, if_neg fresh, Adapter.generate, hfirst]
    rfl

theorem forall_not_fault_iff :
    (∀ c, ¬Fault space seen f c) ↔ f.name ∉ seen ∧ ∀ t ∈ f.params, t.isSupported := by
  constructor
  · intro h
    have hfresh : f.name ∉ seen := fun hmem => h _ (.duplicate hmem)
    cases hfirst : Tag.firstUnsupported? 1 f.params with
    | none => exact ⟨hfresh, Tag.firstUnsupported?_eq_none hfirst⟩
    | some p =>
      obtain ⟨i, -, ht, hbad, hbefore⟩ := Tag.firstUnsupported?_eq_some_iff.1 hfirst
      exact absurd (.unsupported hfresh ht hbad hbefore) (h _)
  · rintro ⟨hfresh, hparams⟩ c hc
    cases hc with
    | duplicate repeated => exact hfresh repeated
    | unsupported fresh tag bad first => exact bad (hparams _ (List.mem_of_getElem? tag))

theorem result_bindEach_cons_of_not_fault (h : ∀ c, ¬Fault space seen f c) :
    (bindEach space policy seen (f :: fs)).result =
      (bindEach space policy (f.name :: seen) fs).result.map (.ofFunction space f policy :: ·) := by
  obtain ⟨hfresh, hparams⟩ := forall_not_fault_iff.1 h
  rw [bindEach, if_neg hfresh, Run.result_bind (Adapter.result_generate hparams space policy)]
  cases bindEach space policy (f.name :: seen) fs with
  | mk journal result => cases result <;> rfl

theorem Fault.eq {c : BindError} (h : Fault space seen f cause) (hc : Fault space seen f c) :
    cause = c := by
  have herror : (bindEach space .lenient seen [f]).result = .error cause :=
    result_bindEach_cons_of_fault h
  rw [result_bindEach_cons_of_fault hc] at herror
  exact (Except.error.inj herror).symm

theorem firstFault_cons_of_fault {c : BindError} (h : Fault space seen f c) :
    FirstFault space seen (f :: fs) cause ↔ cause = c := by
  constructor
  · rintro ⟨j, g, hg, hfault, hfirst⟩
    cases j with
    | zero =>
      cases hg
      exact Fault.eq (by simpa using hfault) h
    | succ j => exact absurd (by simpa using h) (hfirst 0 f (Nat.succ_pos j) rfl c)
  · rintro rfl
    exact ⟨0, f, rfl, by simpa using h, fun i g hi => absurd hi (Nat.not_lt_zero i)⟩

theorem firstFault_cons_of_not_fault (h : ∀ c, ¬Fault space seen f c) :
    FirstFault space seen (f :: fs) cause ↔ FirstFault space (f.name :: seen) fs cause := by
  constructor
  · rintro ⟨j, g, hg, hfault, hfirst⟩
    cases j with
    | zero =>
      cases hg
      exact absurd (by simpa using hfault) (h cause)
    | succ j =>
      refine ⟨j, g, hg, (fault_cons_append _ _).1 hfault, fun i k hi hk c hc => ?_⟩
      exact hfirst (i + 1) k (Nat.succ_lt_succ hi) hk c ((fault_cons_append _ _).2 hc)
  · rintro ⟨j, g, hg, hfault, hfirst⟩
    refine ⟨j + 1, g, hg, (fault_cons_append _ _).2 hfault, fun i k hi hk c hc => ?_⟩
    cases i with
    | zero =>
      cases hk
      exact h c (by simpa using hc)
    | succ i =>
      exact hfirst i k (Nat.lt_of_succ_lt_succ hi) hk c ((fault_cons_append _ _).1 hc)

theorem result_bindEach_eq_error_iff :
    (bindEach space policy seen fs).result = .error cause ↔ FirstFault space seen fs cause := by
  induction fs generalizing seen with
  | nil =>
    refine iff_of_false (by simp [bindEach, Run.pure_eq]) ?_
    rintro ⟨j, f, hf, -⟩
    simp at hf
  | cons f fs ih =>
    by_cases h : ∃ c, Fault space seen f c
    · obtain ⟨c, hc⟩ := h
      rw [result_bindEach_cons_of_fault hc, firstFault_cons_of_fault hc, Except.error.injEq,
        eq_comm]
    · have hnone : ∀ c, ¬Fault space seen f c := not_exists.1 h
      rw [result_bindEach_cons_of_not_fault hnone, firstFault_cons_of_not_fault hnone, ← ih]
      cases (bindEach space policy (f.name :: seen) fs).result <;> simp [Except.map]

theorem result_bind_eq_error_iff (hspace : space ≠ "") :
    (bind space policy fs).result = .error cause ↔ FirstFault space [] fs cause := by
  rw [bind, if_neg hspace, ← result_bindEach_eq_error_iff]
  cases bindEach space policy [] fs with
  | mk journal result =>
    cases result with
    | error c => simp [Run.error_bind]
    | ok as => exact iff_of_false (fun h => by cases h) (fun h => by cases h)

/-- A list of names repeats one of them at a position, and none before. -/
structure FirstRepeat (names : List String) (j : Nat) (name : String) : Prop where
  here : names[j]? = some name
  earlier : name ∈ names.take j
  nodup : (names.take j).Nodup

theorem nodup_take_iff {names : List String} {j : Nat} :
    (names.take j).Nodup ↔ ∀ i name, i < j → names[i]? = some name → name ∉ names.take i := by
  induction j with
  | zero => simp
  | succ j ih =>
    rw [List.take_add_one, List.nodup_append, ih]
    constructor
    · rintro ⟨hbefore, -, hlast⟩ i name hi hname
      rcases Nat.lt_succ_iff_lt_or_eq.1 hi with hi | rfl
      · exact hbefore i name hi hname
      · exact fun hmem => hlast name hmem name (by rw [hname]; exact List.mem_singleton_self _) rfl
    · intro h
      refine ⟨fun i name hi => h i name (Nat.lt_succ_of_lt hi), ?_, ?_⟩
      · cases names[j]? <;> simp
      · rintro a ha b hb rfl
        exact h j a (Nat.lt_succ_self j) (by simpa using hb) ha

theorem fault_iff_of_supported (h : ∀ t ∈ f.params, t.isSupported) :
    Fault space before f cause ↔ f.name ∈ before ∧ cause = .duplicateFunction space f.name := by
  constructor
  · intro hfault
    cases hfault with
    | duplicate repeated => exact ⟨repeated, rfl⟩
    | unsupported fresh tag bad first => exact absurd (h _ (List.mem_of_getElem? tag)) bad
  · rintro ⟨repeated, rfl⟩
    exact .duplicate repeated

theorem result_bind_eq_error_iff_of_supported (hspace : space ≠ "")
    (h : ∀ f ∈ fs, ∀ t ∈ f.params, t.isSupported) :
    (bind space policy fs).result = .error cause ↔
      ∃ j name, FirstRepeat (fs.map (·.name)) j name ∧ cause = .duplicateFunction space name := by
  have hnames : ∀ j, (fs.take j).map (·.name) = (fs.map (·.name)).take j := fun j => List.map_take
  rw [result_bind_eq_error_iff hspace, FirstFault]
  simp only [List.nil_append, hnames]
  constructor
  · rintro ⟨j, f, hf, hfault, hfirst⟩
    obtain ⟨hearlier, hcause⟩ := (fault_iff_of_supported (h f (List.mem_of_getElem? hf))).1 hfault
    refine ⟨j, f.name, ⟨by rw [List.getElem?_map, hf]; rfl, hearlier, ?_⟩, hcause⟩
    refine nodup_take_iff.2 fun i name hi hname hmem => ?_
    rw [List.getElem?_map, Option.map_eq_some_iff] at hname
    obtain ⟨g, hg, rfl⟩ := hname
    exact hfirst i g hi hg _ (.duplicate hmem)
  · rintro ⟨j, name, ⟨hname, hearlier, hnodup⟩, rfl⟩
    rw [List.getElem?_map, Option.map_eq_some_iff] at hname
    obtain ⟨f, hf, rfl⟩ := hname
    refine ⟨j, f, hf, .duplicate hearlier, fun i g hi hg c hc => ?_⟩
    obtain ⟨hmem, -⟩ := (fault_iff_of_supported (h g (List.mem_of_getElem? hg))).1 hc
    exact nodup_take_iff.1 hnodup i g.name hi (by rw [List.getElem?_map, hg]; rfl) hmem

theorem exists_result_bind_iff :
    (∃ m, (bind space policy fs).result = .ok m) ↔
      space ≠ "" ∧ (fs.map (·.name)).Nodup ∧ ∀ f ∈ fs, ∀ t ∈ f.params, t.isSupported := by
  constructor
  · rintro ⟨m, hm⟩
    obtain ⟨hspace, -, hfrom⟩ := boundFrom_of_bind hm
    exact ⟨hspace, hfrom.nodup, hfrom.supported⟩
  · rintro ⟨hspace, hnodup, hsupported⟩
    exact ⟨_, result_bind hspace hsupported hnodup policy⟩

/-- An adapter is the entry of a function if it took over everything that is known about it. -/
structure EntryOf (space : String) (policy : Policy) (f : NativeFunction) (a : Adapter) : Prop where
  name_eq : a.name = f.name
  params_eq : a.params = f.params
  policy_eq : a.policy = policy
  id_eq : a.id = .ofFunction space f.name f.params
  body_eq : a.body = f.body

theorem BoundFrom.forall₂_entryOf {as : List Adapter} (h : BoundFrom space policy before fs as) :
    List.Forall₂ (EntryOf space policy) fs as := by
  rw [h.adapters_eq, List.forall₂_map_right_iff]
  exact List.forall₂_same.2 fun f _ => ⟨rfl, rfl, rfl, rfl, rfl⟩

theorem get?_entry_of_bind {m : Module} (h : (bind space policy fs).result = .ok m) {i : Nat}
    {a : Adapter} (hf : fs[i]? = some f) (ha : m.adapters[i]? = some a) :
    m.get? f.name = some a := by
  obtain ⟨-, -, hfrom⟩ := boundFrom_of_bind h
  rw [hfrom.adapters_eq, List.getElem?_map, hf, Option.map_some, Option.some.injEq] at ha
  rw [get?_of_bind h (List.mem_of_getElem? hf), ha]

theorem get?_eq_none_iff_of_bind {m : Module} (h : (bind space policy fs).result = .ok m)
    (name : String) : m.get? name = none ↔ ∀ f ∈ fs, f.name ≠ name := by
  obtain ⟨-, -, hfrom⟩ := boundFrom_of_bind h
  rw [get?, hfrom.adapters_eq, List.find?_map, Option.map_eq_none_iff, List.find?_eq_none]
  simp [Adapter.ofFunction]

/-- What binding says of any functions. Without a name for the namespace it fails, whatever they
are. Otherwise it fails with the fault of the first function that has one, and if none has, each of
them gets its entry, in order, and that is what is found under its name. -/
theorem bind_reports_first_fault (space : String) (policy : Policy) (fs : List NativeFunction) :
    let result := (Module.bind space policy fs).result
    (result = .error .emptyNamespace ↔ space = "") ∧
      (space ≠ "" → ((∃ m, result = .ok m) ↔
        (fs.map (·.name)).Nodup ∧ ∀ f ∈ fs, ∀ t ∈ f.params, t.isSupported)) ∧
      (∀ m, result = .ok m →
        m.space = space ∧ List.Forall₂ (EntryOf space policy) fs m.adapters ∧
          (∀ (i : Nat) (f : NativeFunction) (a : Adapter), fs[i]? = some f →
            m.adapters[i]? = some a → m.get? f.name = some a) ∧
          ∀ name, m.get? name = none ↔ ∀ f ∈ fs, f.name ≠ name) ∧
      (space ≠ "" → ∀ cause, result = .error cause ↔
        ∃ j f, fs[j]? = some f ∧ Fault space ((fs.take j).map (·.name)) f cause ∧
          ∀ i g, i < j → fs[i]? = some g → ∀ c, ¬Fault space ((fs.take i).map (·.name)) g c) := by
  intro result
  refine ⟨?_, fun hspace => ?_, fun m hm => ?_, fun hspace cause => result_bind_eq_error_iff hspace⟩
  · constructor
    · intro hempty
      by_contra hspace
      obtain ⟨j, f, -, hfault, -⟩ := (result_bind_eq_error_iff hspace).1 hempty
      cases hfault
    · rintro rfl
      rfl
  · rw [exists_result_bind_iff, and_iff_right hspace]
  · obtain ⟨-, hspace, hfrom⟩ := boundFrom_of_bind hm
    exact ⟨hspace, hfrom.forall₂_entryOf, fun i f a => get?_entry_of_bind hm,
      get?_eq_none_iff_of_bind hm⟩

/-- A function that repeats a name is reported for that, although its parameter is bad as well and
the function after it is at fault too. -/
theorem bind_reports_repeated_name :
    let f : NativeFunction := ⟨"f", [.scalar .text], fun _ => pure ()⟩
    let g : NativeFunction := ⟨"g", [], fun _ => pure ()⟩
    let again : NativeFunction := ⟨"f", [.array (.array .void)], fun _ => pure ()⟩
    let bad : NativeFunction := ⟨"h", [.scalar .text, .struct "s", .bool], fun _ => pure ()⟩
    (Module.bind "t" .strict [f, g, again, bad]).result = .error (.duplicateFunction "t" "f") ∧
      (Module.bind "t" .strict [f, bad, again]).result =
        .error (.unsupportedParameter "h" 2 (.struct "s")) ∧
      ∃ m, (Module.bind "t" .strict [g, f]).result = .ok m ∧
        m.get? "f" = some (.ofFunction "t" f .strict) ∧ m.get? "h" = none := by
  intro f g again bad
  obtain ⟨-, -, -, hrepeated⟩ := bind_reports_first_fault "t" .strict [f, g, again, bad]
  obtain ⟨-, -, -, hunsupported⟩ := bind_reports_first_fault "t" .strict [f, bad, again]
  obtain ⟨-, hsuccess, hentries, -⟩ := bind_reports_first_fault "t" .strict [g, f]
  refine ⟨(hrepeated (by decide) _).2 ⟨2, again, rfl, .duplicate (by decide), ?_⟩,
    (hunsupported (by decide) _).2
      ⟨1, bad, rfl, .unsupported (by decide) (rfl : _ = some (Tag.struct "s")) (by decide)
        (by decide), ?_⟩, ?_⟩
  · intro i k hi hk
    match i with
    | 0 =>
      cases hk
      exact forall_not_fault_iff.2 (by decide)
    | 1 =>
      cases hk
      exact forall_not_fault_iff.2 (by decide)
    | i + 2 => omega
  · intro i k hi hk
    obtain rfl : i = 0 := by omega
    cases hk
    exact forall_not_fault_iff.2 (by decide)
  · obtain ⟨m, hm⟩ := (hsuccess (by decide)).2 ⟨by decide, by decide⟩
    obtain ⟨-, -, hget, hnone⟩ := hentries m hm
    refine ⟨m, hm, ?_, (hnone "h").2 (by simp [f, g])⟩
    have hm' : m = ⟨"t", [.ofFunction "t" g .strict, .ofFunction "t" f .strict]⟩ := by
      cases hm
      rfl
    exact hget 1 f _ rfl (by rw [hm']; rfl)

end Module

end ScriptBridge
