import Mathlib.Algebra.Order.Monoid.Unbundled.Basic
import Mathlib.Algebra.Order.Group.Defs
import Mathlib.Tactic

/-!
Signals that are held for a time after their last hit. What is held at a moment
is said by the log of hits alone; a latch with a deadline and a latch with the
time of the last hit both answer that question when time does not go back.
-/

namespace Hold

variable {T : Type} [AddCommGroup T] [LinearOrder T]

/-- Some hit of the log is younger than the hold time. -/
def Held (hold : T) (log : List (T × Bool)) (now : T) : Prop :=
  ∃ t, (t, true) ∈ log ∧ now < t + hold

instance (hold : T) (log : List (T × Bool)) (now : T) : Decidable (Held hold log now) :=
  decidable_of_iff (∃ p ∈ log, p.2 = true ∧ now < p.1 + hold) (by
    constructor
    · rintro ⟨⟨t, hit⟩, hmem, rfl, hlt⟩
      exact ⟨t, hmem, hlt⟩
    · rintro ⟨t, hmem, hlt⟩
      exact ⟨(t, true), hmem, rfl, hlt⟩)

theorem held_concat_miss (hold : T) (log : List (T × Bool)) (now : T) :
    Held hold (log ++ [(now, false)]) now ↔ Held hold log now := by
  simp [Held]

/-! ### A latch with a deadline -/

structure Latch (T : Type) where
  latched : Bool
  deadline : T

/-- A hit latches anew, a miss releases once the deadline is over. -/
def Latch.next (hold : T) (s : Latch T) (now : T) (hit : Bool) : Latch T :=
  if hit then ⟨true, now + hold⟩
  else if s.latched ∧ now < s.deadline then s
  else { s with latched := false }

/-- What a latch has to do with the log, up to the time `last`. -/
structure Follows (hold : T) (log : List (T × Bool)) (last : T) (s : Latch T) : Prop where
  times : ∀ p ∈ log, p.1 ≤ last
  deadline : s.latched = true → ∃ t, (t, true) ∈ log ∧ s.deadline = t + hold
  hits : ∀ t, (t, true) ∈ log → (s.latched = true ∧ t + hold ≤ s.deadline) ∨ t + hold ≤ last

theorem follows_nil (hold last deadline : T) : Follows hold [] last ⟨false, deadline⟩ where
  times := by simp
  deadline := by simp
  hits := by simp

/-- A log that ends earlier also ends by a later time. -/
theorem Follows.later {hold last now : T} {log : List (T × Bool)} {s : Latch T}
    (h : Follows hold log last s) (hlast : last ≤ now) : Follows hold log now s where
  times p hp := (h.times p hp).trans hlast
  deadline := h.deadline
  hits t ht := (h.hits t ht).imp_right fun hover => hover.trans hlast

/-- Between two hits the latch says what is held. -/
theorem Follows.latched_iff {hold now : T} {log : List (T × Bool)} {s : Latch T}
    (h : Follows hold log now s) : (s.latched = true ∧ now < s.deadline) ↔ Held hold log now := by
  constructor
  · rintro ⟨hlatched, hlt⟩
    obtain ⟨t, ht, heq⟩ := h.deadline hlatched
    exact ⟨t, ht, heq ▸ hlt⟩
  · rintro ⟨t, ht, hlt⟩
    rcases h.hits t ht with ⟨hlatched, hle⟩ | hover
    · exact ⟨hlatched, hlt.trans_le hle⟩
    · exact absurd hlt hover.not_gt

variable [IsOrderedAddMonoid T]

theorem held_concat_hit {hold : T} (hpos : 0 < hold) (log : List (T × Bool)) (now : T) :
    Held hold (log ++ [(now, true)]) now :=
  ⟨now, by simp, lt_add_of_pos_right now hpos⟩

theorem Follows.next {hold last now : T} {log : List (T × Bool)} {s : Latch T}
    (h : Follows hold log last s) (hlast : last ≤ now) (hit : Bool) :
    Follows hold (log ++ [(now, hit)]) now (s.next hold now hit) := by
  have hnow := h.later hlast
  have htimes : ∀ p ∈ log ++ [(now, hit)], p.1 ≤ now := by
    intro p hp
    rcases List.mem_append.mp hp with hp | hp
    · exact hnow.times p hp
    · rw [List.mem_singleton.mp hp]
  cases hit with
  | true =>
      rw [Latch.next, if_pos rfl]
      refine ⟨htimes, fun _ => ⟨now, by simp, rfl⟩, fun t ht => Or.inl ⟨rfl, ?_⟩⟩
      exact add_le_add_left (htimes _ ht) hold
  | false =>
      have hmiss : ∀ t, (t, true) ∈ log ++ [(now, false)] ↔ (t, true) ∈ log := by simp
      rw [Latch.next, if_neg (by simp)]
      split
      · refine ⟨htimes, fun hlatched => ?_, fun t ht => hnow.hits t ((hmiss t).mp ht)⟩
        obtain ⟨t, ht, heq⟩ := h.deadline hlatched
        exact ⟨t, (hmiss t).mpr ht, heq⟩
      · next hopen =>
          refine ⟨htimes, by simp, fun t ht => Or.inr ?_⟩
          rcases hnow.hits t ((hmiss t).mp ht) with ⟨hlatched, hle⟩ | hover
          · exact hle.trans (not_lt.mp fun hlt => hopen ⟨hlatched, hlt⟩)
          · exact hover

/-- After a hit or a miss the latch is set exactly when something is held. -/
theorem Follows.next_latched {hold last now : T} {log : List (T × Bool)} {s : Latch T}
    (h : Follows hold log last s) (hpos : 0 < hold) (hlast : last ≤ now) (hit : Bool) :
    (s.next hold now hit).latched = true ↔ Held hold (log ++ [(now, hit)]) now := by
  cases hit with
  | true =>
      rw [Latch.next, if_pos rfl]
      exact iff_of_true rfl (held_concat_hit hpos log now)
  | false =>
      rw [held_concat_miss, ← (h.later hlast).latched_iff, Latch.next, if_neg (by simp)]
      split
      · next hclosed => exact iff_of_true hclosed.1 hclosed
      · next hopen => exact iff_of_false (by simp) hopen

end Hold
