import Mathlib.Data.Nat.ModEq
import Mathlib.Tactic
import WirelessTsn.Lib.Loop

/-!
Ones' complement sums of words below a base `b`, in which a carry out of the
top comes back in at the bottom. Such a sum is the total modulo `b - 1`, in the
one representative that is zero only for a total of zero; so it may as well be
folded out of the total at the end, and the complement of a sum, added to the
words, makes the sum `b - 1`.
-/

namespace OnesComplement

variable {b : Nat}

/-! ### Representatives -/

/-- The sum that stands for a total. -/
structure Represents (b total sum : Nat) : Prop where
  lt : sum < b
  modEq : sum ≡ total [MOD b - 1]
  zero_iff : sum = 0 ↔ total = 0

/-- A total has one sum. -/
theorem Represents.unique {total s t : Nat} (hs : Represents b total s) (ht : Represents b total t) :
    s = t := by
  wlog hle : s ≤ t generalizing s t
  · exact (this ht hs (Nat.le_of_not_le hle)).symm
  have hdvd : b - 1 ∣ t - s := (Nat.modEq_iff_dvd' hle).mp (hs.modEq.trans ht.modEq.symm)
  have htlt := ht.lt
  rcases Nat.eq_zero_or_pos (t - s) with hzero | hpos
  · omega
  · have hbig := Nat.le_of_dvd hpos hdvd
    -- the difference is `b - 1`, so one is zero and the other is not
    have hs0 : s = 0 := by omega
    have ht0 : t = 0 := ht.zero_iff.mpr (hs.zero_iff.mp hs0)
    omega

theorem represents_self {s : Nat} (h : s < b) : Represents b s s := ⟨h, rfl, Iff.rfl⟩

/-- Words whose total is the sum's complement short of `b - 1` add up to it. -/
theorem Represents.complement {total s : Nat} (hb : 1 < b) (h : Represents b total s) :
    Represents b (total + (b - 1 - s)) (b - 1) := by
  have hlt := h.lt
  have hmod : s + (b - 1 - s) ≡ total + (b - 1 - s) [MOD b - 1] := h.modEq.add_right _
  refine ⟨by omega, ?_, ?_⟩
  · rwa [Nat.add_sub_cancel' (by omega)] at hmod
  · have hzero := h.zero_iff
    omega

/-! ### Adding with the carry brought around -/

def add (b x y : Nat) : Nat := if x + y < b then x + y else x + y - (b - 1)

def sum (b : Nat) (words : List Nat) : Nat := words.foldl (add b) 0

theorem Represents.add {total s w : Nat} (h : Represents b total s) (hw : w < b) :
    Represents b (total + w) (add b s w) := by
  have hlt := h.lt
  have hzero := h.zero_iff
  have hmod : s + w ≡ total + w [MOD b - 1] := h.modEq.add_right w
  rw [OnesComplement.add]
  by_cases hcarry : s + w < b
  · rw [if_pos hcarry]
    exact ⟨hcarry, hmod, by omega⟩
  · rw [if_neg hcarry]
    refine ⟨by omega, ?_, by omega⟩
    have hback : s + w - (b - 1) + (b - 1) ≡ s + w - (b - 1) [MOD b - 1] := Nat.add_modEq_right
    rw [Nat.sub_add_cancel (by omega)] at hback
    exact hback.symm.trans hmod

theorem represents_sum (hb : 1 < b) {words : List Nat} (h : ∀ w ∈ words, w < b) :
    Represents b words.sum (sum b words) := by
  induction words using List.reverseRecOn with
  | nil => exact represents_self (s := 0) (by omega)
  | append_singleton ws w ih =>
      have hws := ih fun x hx => h x (List.mem_append_left _ hx)
      rw [List.sum_append, List.sum_singleton, sum, List.foldl_append]
      exact hws.add (h w (by simp))

/-! ### Folding the carries at the end -/

/-- The body of `while (s >> k) s = (s & mask) + (s >> k);` -/
def foldBody (b s : Nat) : Loop.Step Nat Nat := if s / b = 0 then .done s else .next (s % b + s / b)

theorem foldBody_lt (hb : 1 < b) (s t : Nat) (h : foldBody b s = .next t) : t < s := by
  rw [foldBody] at h
  split at h
  · cases h
  · rename_i hcarry
    cases h
    have hdiv := Nat.div_add_mod s b
    have hmul : 2 * (s / b) ≤ b * (s / b) := Nat.mul_le_mul_right _ hb
    omega

def foldCarry (hb : 1 < b) (s : Nat) : Nat := Loop.total (foldBody b) id (foldBody_lt hb) s

theorem represents_foldCarry (hb : 1 < b) (s : Nat) : Represents b s (foldCarry hb s) := by
  induction s using Nat.strong_induction_on with
  | _ s ih =>
      by_cases hcarry : s / b = 0
      · have hdone : foldBody b s = .done s := if_pos hcarry
        rw [foldCarry, Loop.total_done hdone]
        exact represents_self ((Nat.div_eq_zero_iff_lt (by omega)).mp hcarry)
      · have hnext : foldBody b s = .next (s % b + s / b) := if_neg hcarry
        have hrest := ih _ (foldBody_lt hb _ _ hnext)
        have hdiv := Nat.div_add_mod s b
        have hmul : b * (s / b) = (b - 1) * (s / b) + s / b := by
          rw [← Nat.succ_mul, Nat.succ_eq_add_one, Nat.sub_add_cancel hb.le]
        have hmod : s % b + s / b ≡ s [MOD b - 1] := by
          have hle : s % b + s / b ≤ s := by omega
          have hdiff : s - (s % b + s / b) = (b - 1) * (s / b) := by omega
          rw [Nat.modEq_iff_dvd' hle, hdiff]
          exact Nat.dvd_mul_right _ _
        have hpos : 0 < s / b := Nat.pos_of_ne_zero hcarry
        have hle := Nat.div_le_self s b
        rw [foldCarry, Loop.total_next hnext]
        exact ⟨hrest.lt, hrest.modEq.trans hmod, hrest.zero_iff.trans (by omega)⟩

/-- With the complement of a total among them, words sum to `b - 1`. -/
theorem sum_of_complement (hb : 1 < b) {words : List Nat} (h : ∀ w ∈ words, w < b) {total : Nat}
    (htotal : words.sum = total + (b - 1 - foldCarry hb total)) : sum b words = b - 1 := by
  have hsum := represents_sum hb h
  rw [htotal] at hsum
  exact hsum.unique ((represents_foldCarry hb total).complement hb)

end OnesComplement
