import ScriptBridge.Journal.Event

/-!
Computations that keep a journal and may fail. A failure keeps what was written before it, and
nothing that would have come after it is written.
-/
namespace ScriptBridge

structure Run (ε α : Type) where
  journal : Journal
  result : Except ε α

namespace Run

variable {ε ε' α β : Type}

protected def pure (a : α) : Run ε α := ⟨[], .ok a⟩

protected def bind (x : Run ε α) (f : α → Run ε β) : Run ε β :=
  match x.result with
  | .ok a => let y := f a; ⟨x.journal ++ y.journal, y.result⟩
  | .error e => ⟨x.journal, .error e⟩

instance : Monad (Run ε) where
  pure := Run.pure
  bind := Run.bind

def fail (e : ε) : Run ε α := ⟨[], .error e⟩

def ofExcept (r : Except ε α) : Run ε α := ⟨[], r⟩

def write (j : Journal) : Run ε Unit := ⟨j, .ok ()⟩

def emit (e : Event) : Run ε Unit := write [.event e]

def map (f : α → β) (x : Run ε α) : Run ε β := ⟨x.journal, x.result.map f⟩

def mapError (f : ε → ε') (x : Run ε α) : Run ε' α :=
  ⟨x.journal, x.result.mapError f⟩

theorem pure_eq (a : α) : (pure a : Run ε α) = ⟨[], .ok a⟩ := rfl

theorem ok_bind (j : Journal) (a : α) (f : α → Run ε β) :
    ((⟨j, .ok a⟩ : Run ε α) >>= f) = ⟨j ++ (f a).journal, (f a).result⟩ := rfl

theorem error_bind (j : Journal) (e : ε) (f : α → Run ε β) :
    ((⟨j, .error e⟩ : Run ε α) >>= f) = ⟨j, .error e⟩ := rfl

theorem mapError_ok (j : Journal) (a : α) (f : ε → ε') :
    (⟨j, .ok a⟩ : Run ε α).mapError f = ⟨j, .ok a⟩ := rfl

theorem mapError_error (j : Journal) (e : ε) (f : ε → ε') :
    (⟨j, .error e⟩ : Run ε α).mapError f = ⟨j, .error (f e)⟩ := rfl

theorem bind_eq_ok {x : Run ε α} {f : α → Run ε β} {b : β} (h : (x >>= f).result = .ok b) :
    ∃ a, x.result = .ok a ∧ (f a).result = .ok b := by
  obtain ⟨j, r⟩ := x
  cases r with
  | error e => cases h
  | ok a => exact ⟨a, rfl, h⟩

theorem result_bind {x : Run ε α} {a : α} (h : x.result = .ok a) (f : α → Run ε β) :
    (x >>= f).result = (f a).result := by
  obtain ⟨j, r⟩ := x
  cases h
  rfl

end Run

end ScriptBridge
