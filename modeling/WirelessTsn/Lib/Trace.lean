import Mathlib.Tactic

/-!
Code that emits events on its way and may never come back. What it emitted
before it got stuck is kept, so a run has events also when it has no result.
-/

structure Trace (ε α : Type) where
  events : List ε
  result : Option α

namespace Trace

variable {ε α β : Type} {f : α → Trace ε β}

protected def bind (t : Trace ε α) (f : α → Trace ε β) : Trace ε β :=
  match t.result with
  | some a => ⟨t.events ++ (f a).events, (f a).result⟩
  | none => ⟨t.events, none⟩

instance : Monad (Trace ε) where
  pure a := ⟨[], some a⟩
  bind := Trace.bind

def emit (e : ε) : Trace ε Unit := ⟨[e], some ()⟩

/-- A computation without events; without a result the run stays there. -/
def await (r : Option α) : Trace ε α := ⟨[], r⟩

theorem bind_of_result {t : Trace ε α} {a : α} (h : t.result = some a) :
    t >>= f = ⟨t.events ++ (f a).events, (f a).result⟩ := by
  show Trace.bind t f = _
  rw [Trace.bind, h]

theorem bind_of_stuck {t : Trace ε α} (h : t.result = none) : t >>= f = ⟨t.events, none⟩ := by
  show Trace.bind t f = _
  rw [Trace.bind, h]

@[simp] theorem events_pure (a : α) : (pure a : Trace ε α).events = [] := rfl

@[simp] theorem result_pure (a : α) : (pure a : Trace ε α).result = some a := rfl

@[simp] theorem await_some_bind (a : α) : (await (some a) : Trace ε α) >>= f = f a := rfl

@[simp] theorem await_none_bind : (await none : Trace ε α) >>= f = ⟨[], none⟩ := rfl

/-- What the first part emitted stands in the whole run. -/
theorem mem_events_bind_left {t : Trace ε α} {e : ε} (h : e ∈ t.events) : e ∈ (t >>= f).events := by
  cases hresult : t.result with
  | some a =>
      rw [bind_of_result hresult]
      exact List.mem_append_left _ h
  | none =>
      rw [bind_of_stuck hresult]
      exact h

/-- So does what the second part emits when the first comes back. -/
theorem mem_events_bind_right {t : Trace ε α} {a : α} {e : ε} (ht : t.result = some a)
    (h : e ∈ (f a).events) : e ∈ (t >>= f).events := by
  rw [bind_of_result ht]
  exact List.mem_append_right _ h

end Trace
