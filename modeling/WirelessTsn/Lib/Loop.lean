import Mathlib.Tactic

/-!
Loops whose body either goes on from another state or leaves with a result.
`run` has fuel and says nothing about the rest of a longer run, so `Ends` is
the statement that a loop leaves; `total` is for bodies that count down a
measure.
-/

namespace Loop

/-- What a loop body does in a state. -/
inductive Step (σ ρ : Type) where
  | next (s : σ)
  | done (r : ρ)

variable {σ ρ : Type} {body : σ → Step σ ρ} {s t : σ} {r r' : ρ}

/-- At most `n` rounds of the body; `none` when they do not suffice. -/
def run (body : σ → Step σ ρ) : Nat → σ → Option ρ
  | 0, _ => none
  | n + 1, s =>
      match body s with
      | .next t => run body n t
      | .done r => some r

/-- The loop leaves with the result. -/
def Ends (body : σ → Step σ ρ) (s : σ) (r : ρ) : Prop := ∃ n, run body n s = some r

theorem run_succ_next (h : body s = .next t) (n : Nat) : run body (n + 1) s = run body n t := by
  rw [run, h]

theorem run_succ_done (h : body s = .done r) (n : Nat) : run body (n + 1) s = some r := by
  rw [run, h]

theorem ends_next (h : body s = .next t) : Ends body s r ↔ Ends body t r := by
  constructor
  · rintro ⟨n, hn⟩
    cases n with
    | zero => cases hn
    | succ n => exact ⟨n, (run_succ_next h n).symm.trans hn⟩
  · rintro ⟨n, hn⟩
    exact ⟨n + 1, (run_succ_next h n).trans hn⟩

theorem ends_done (h : body s = .done r') : Ends body s r ↔ r = r' := by
  constructor
  · rintro ⟨n, hn⟩
    cases n with
    | zero => cases hn
    | succ n =>
        rw [run_succ_done h] at hn
        exact (Option.some.inj hn).symm
  · rintro rfl
    exact ⟨1, run_succ_done h 0⟩

/-- A body that stays where it is never leaves. -/
theorem not_ends_of_fixed (h : body s = .next s) : ¬ Ends body s r := by
  rintro ⟨n, hn⟩
  induction n with
  | zero => cases hn
  | succ n ih =>
      rw [run_succ_next h] at hn
      exact ih hn

/-- More fuel does not change a result. -/
theorem run_mono {m n : Nat} (h : run body m s = some r) (hmn : m ≤ n) : run body n s = some r := by
  induction m generalizing s n with
  | zero => cases h
  | succ m ih =>
      obtain ⟨k, rfl⟩ : ∃ k, n = k + 1 := ⟨n - 1, by omega⟩
      cases hbody : body s with
      | next t =>
          rw [run_succ_next hbody] at h ⊢
          exact ih h (by omega)
      | done r' =>
          rw [run_succ_done hbody] at h ⊢
          exact h

/-- The states in which the body is entered. -/
inductive Visits (body : σ → Step σ ρ) : σ → σ → Prop where
  | here (s : σ) : Visits body s s
  | next {s t u : σ} : body s = .next t → Visits body t u → Visits body s u

/-- What every round keeps holds in every state that the loop visits. -/
theorem Visits.invariant {Inv : σ → Prop} (hstep : ∀ s t, Inv s → body s = .next t → Inv t) (hs : Inv s)
    (h : Visits body s t) : Inv t := by
  induction h with
  | here s => exact hs
  | next hbody hrest ih => exact ih (hstep _ _ hs hbody)

/-- A loop that leaves at once visits its first state only. -/
theorem visits_done (h : body s = .done r) : Visits body s t ↔ t = s := by
  constructor
  · intro hvisits
    cases hvisits with
    | here => rfl
    | next hbody hrest =>
        rw [h] at hbody
        cases hbody
  · rintro rfl
    exact .here t

/-- Loops that all leave do so within one fuel. -/
theorem exists_fuel {ι : Type} {bodies : ι → σ → Step σ ρ} {results : ι → ρ} (keys : List ι)
    (h : ∀ k ∈ keys, Ends (bodies k) s (results k)) :
    ∃ n, ∀ k ∈ keys, run (bodies k) n s = some (results k) := by
  induction keys with
  | nil => exact ⟨0, by simp⟩
  | cons k keys ih =>
      obtain ⟨m, hm⟩ := h k List.mem_cons_self
      obtain ⟨n, hn⟩ := ih fun x hx => h x (List.mem_cons_of_mem k hx)
      refine ⟨max m n, fun x hx => ?_⟩
      rcases List.mem_cons.mp hx with rfl | hx
      · exact run_mono hm (Nat.le_max_left m n)
      · exact run_mono (hn x hx) (Nat.le_max_right m n)

section

variable {μ : σ → Nat}

/-- The result of a loop whose body counts down a measure. -/
def total (body : σ → Step σ ρ) (μ : σ → Nat)
    (hdec : ∀ s t, body s = .next t → μ t < μ s) (s : σ) : ρ :=
  match _h : body s with
  | .next t => total body μ hdec t
  | .done r => r
termination_by μ s
decreasing_by exact hdec s t _h

variable {hdec : ∀ s t, body s = .next t → μ t < μ s}

theorem total_next (h : body s = .next t) : total body μ hdec s = total body μ hdec t := by
  rw [total]
  split
  · rename_i t' ht
    rw [h] at ht
    cases ht
    rfl
  · rename_i r' hr
    rw [h] at hr
    cases hr

theorem total_done (h : body s = .done r) : total body μ hdec s = r := by
  rw [total]
  split
  · rename_i t' ht
    rw [h] at ht
    cases ht
  · rename_i r' hr
    rw [h] at hr
    cases hr
    rfl

end

end Loop
