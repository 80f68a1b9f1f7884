import Mathlib.Logic.Function.Iterate
import Mathlib.Tactic

/-!
A clock that is led to a target: an offset beyond a limit is taken off at
once, a smaller one by its `k`-th part at a time, rounded toward zero. The
offset shrinks without changing its sign, until it is below `k`, where nothing
is left to take off.
-/

namespace Slew

/-- What is left of an offset after its `k`-th part is taken off. -/
def slew (k d : Int) : Int := d - d.tdiv k

/-- One correction. -/
def correct (limit k d : Int) : Int := if limit < |d| then 0 else slew k d

variable {limit k d : Int}

/-! ### One correction -/

theorem slew_neg (k d : Int) : slew k (-d) = -slew k d := by
  rw [slew, slew, Int.neg_tdiv]
  ring

theorem slew_nonneg (k : Int) (hd : 0 ≤ d) : 0 ≤ slew k d := by
  have hle : d / k ≤ d := Int.ediv_le_self k hd
  rw [slew, Int.tdiv_eq_ediv_of_nonneg hd]
  omega

theorem slew_nonpos (k : Int) (hd : d ≤ 0) : slew k d ≤ 0 := by
  have hneg := slew_nonneg k (Int.neg_nonneg_of_nonpos hd)
  rw [slew_neg] at hneg
  omega

theorem abs_slew_neg (k d : Int) : |slew k (-d)| = |slew k d| := by rw [slew_neg, abs_neg]

theorem abs_slew_le (hk : 0 < k) (d : Int) : |slew k d| ≤ |d| := by
  wlog hd : 0 ≤ d generalizing d
  · have hneg := this (-d) (by omega)
    rwa [abs_slew_neg, abs_neg] at hneg
  · have hpart : 0 ≤ d / k := Int.ediv_nonneg hd hk.le
    rw [abs_of_nonneg (slew_nonneg k hd), abs_of_nonneg hd, slew, Int.tdiv_eq_ediv_of_nonneg hd]
    omega

theorem abs_slew_lt (hk : 0 < k) (hd : k ≤ |d|) : |slew k d| < |d| := by
  wlog hpos : 0 ≤ d generalizing d
  · have hneg := this (d := -d) (by rwa [abs_neg]) (by omega)
    rwa [abs_slew_neg, abs_neg] at hneg
  · rw [abs_of_nonneg hpos] at hd ⊢
    have hpart : 1 ≤ d / k := (Int.le_ediv_iff_mul_le hk).mpr (by omega)
    rw [abs_of_nonneg (slew_nonneg k hpos), slew, Int.tdiv_eq_ediv_of_nonneg hpos]
    omega

theorem slew_eq_self (hd : |d| < k) : slew k d = d := by
  wlog hpos : 0 ≤ d generalizing d
  · have hneg := this (d := -d) (by rwa [abs_neg]) (by omega)
    rw [slew_neg] at hneg
    omega
  · rw [abs_of_nonneg hpos] at hd
    rw [slew, Int.tdiv_eq_zero_of_lt hpos hd, Int.sub_zero]

theorem correct_far (h : limit < |d|) : correct limit k d = 0 := if_pos h

theorem correct_near (h : |d| ≤ limit) : correct limit k d = slew k d := if_neg (not_lt.mpr h)

theorem correct_nonneg (limit k : Int) (hd : 0 ≤ d) : 0 ≤ correct limit k d := by
  rw [correct]
  split
  · exact le_rfl
  · exact slew_nonneg k hd

theorem correct_nonpos (limit k : Int) (hd : d ≤ 0) : correct limit k d ≤ 0 := by
  rw [correct]
  split
  · exact le_rfl
  · exact slew_nonpos k hd

theorem abs_correct_le (hk : 0 < k) (limit d : Int) : |correct limit k d| ≤ |d| := by
  rw [correct]
  split
  · rw [abs_zero]
    exact abs_nonneg d
  · exact abs_slew_le hk d

theorem abs_correct_lt (hk : 0 < k) (limit : Int) (hd : k ≤ |d|) : |correct limit k d| < |d| := by
  rw [correct]
  split
  · rw [abs_zero]
    exact hk.trans_le hd
  · exact abs_slew_lt hk hd

/-! ### Many corrections -/

/-- The offset gets below `k`: it is smaller after every correction until it
is. -/
theorem exists_iterate_lt (hk : 0 < k) (limit d : Int) :
    ∃ n, |(correct limit k)^[n] d| < k := by
  induction hsize : d.natAbs using Nat.strong_induction_on generalizing d with
  | _ size ih =>
      by_cases hd : |d| < k
      · exact ⟨0, hd⟩
      · have hlt := abs_correct_lt hk limit (not_lt.mp hd)
        have hsmaller : (correct limit k d).natAbs < size := by
          rw [← hsize]
          zify
          exact hlt
        obtain ⟨n, hn⟩ := ih _ hsmaller _ rfl
        exact ⟨n + 1, hn⟩

end Slew
