import Mathlib.Algebra.Order.Chebyshev
import Mathlib.Tactic
import WirelessTsn.Lib.Ring
import WirelessTsn.Lib.Run

/-!
The window of signal strengths behind the motion detection of the ESP32 agent
(`esp32-agent/components/htsn_agent/htsn_wifimotion.c`): a ring of samples with
running sums. The sums are of the samples that the ring holds, so the variance
that is computed from them cannot be negative but for rounding.
-/

namespace Htsn.Esp32

open Ring Run

/-- `HTSN_WFM_RSSI_N` -/
def rssiN : Nat := 48

instance : NeZero rssiN := ⟨by decide⟩

/-- `rssi_stat_t`, less the result of the last evaluation. -/
structure RssiStat where
  ring : Vector Int16 rssiN := Vector.replicate rssiN 0
  idx : Fin rssiN := 0
  filled : Nat := 0
  fits : filled ≤ rssiN := by decide
  sum : Int64 := 0
  sq : Int64 := 0

/-- `rssi_push` -/
def rssiPush (s : RssiStat) (v : Int16) : RssiStat :=
  if h : s.filled < rssiN then
    { s with
      ring := s.ring.set s.filled v
      filled := s.filled + 1
      fits := h
      sum := s.sum + v.toInt64
      sq := s.sq + v.toInt64 * v.toInt64 }
  else
    let old := s.ring.get s.idx
    { s with
      ring := s.ring.set s.idx v
      idx := s.idx + 1
      -- The difference of two samples is taken in `int`.
      sum := s.sum + (v.toInt32 - old.toInt32).toInt64
      sq := s.sq + (v.toInt64 * v.toInt64 - old.toInt64 * old.toInt64) }

/-- The samples in the ring, the oldest one first. -/
def RssiStat.samples (s : RssiStat) : List Int16 := window s.ring s.idx s.filled

/-- The square that `rssi_stddev` takes the root of, without rounding. -/
def RssiStat.variance (s : RssiStat) : ℚ :=
  let mean : ℚ := s.sum.toInt / s.filled
  s.sq.toInt / s.filled - mean * mean

/-- The last samples of all. -/
def lastSamples (vs : List Int16) : List Int16 := vs.drop (vs.length - rssiN)

/-- A sum over samples. -/
def sumOf (f : Int16 → Int) (vs : List Int16) : Int := (vs.map f).sum

def square (v : Int16) : Int := v.toInt * v.toInt

/-! ### Sums over a window -/

theorem length_lastSamples (vs : List Int16) : (lastSamples vs).length = min vs.length rssiN := by
  rw [lastSamples, List.length_drop]
  omega

/-- While there is room a sample only comes in. -/
theorem sumOf_lastSamples_room (f : Int16 → Int) {vs : List Int16} (h : vs.length < rssiN) (v : Int16) :
    sumOf f (lastSamples (vs ++ [v])) = sumOf f (lastSamples vs) + f v := by
  have hold : vs.length - rssiN = 0 := by omega
  have hnew : (vs ++ [v]).length - rssiN = 0 := by
    rw [List.length_append, List.length_singleton]
    omega
  rw [lastSamples, lastSamples, hold, hnew, List.drop_zero, List.drop_zero, sumOf, List.map_append, List.sum_append,
    List.map_singleton, List.sum_singleton, sumOf]

/-- In a full window it takes the place of the oldest one. -/
theorem sumOf_lastSamples_full (f : Int16 → Int) {vs : List Int16} (h : rssiN ≤ vs.length) (v : Int16) {old : Int16}
    (hold : vs[vs.length - rssiN]? = some old) :
    sumOf f (lastSamples (vs ++ [v])) = sumOf f (lastSamples vs) + (f v - f old) := by
  obtain ⟨hin, hget⟩ := List.getElem?_eq_some_iff.mp hold
  have hbefore : lastSamples vs = old :: vs.drop (vs.length - rssiN + 1) := by
    rw [lastSamples, List.drop_eq_getElem_cons hin, hget]
  have hafter : lastSamples (vs ++ [v]) = vs.drop (vs.length - rssiN + 1) ++ [v] := by
    rw [lastSamples, List.length_append, List.length_singleton, Nat.sub_add_comm h,
      List.drop_append_of_le_length hin]
  rw [hbefore, hafter, sumOf, sumOf, List.map_append, List.sum_append, List.map_singleton, List.sum_singleton,
    List.map_cons, List.sum_cons]
  ring

/-- The sums stay far from the ends of 64 bits. -/
theorem toInt_sumOf {f : Int16 → Int} (hf : ∀ v, |f v| ≤ 2 ^ 30) (vs : List Int16) :
    (Int64.ofInt (sumOf f (lastSamples vs))).toInt = sumOf f (lastSamples vs) := by
  have hlen : (lastSamples vs).length ≤ rssiN := by
    rw [length_lastSamples]
    exact Nat.min_le_right _ _
  have hbound : ∀ xs : List Int16, |sumOf f xs| ≤ xs.length * 2 ^ 30 := by
    intro xs
    induction xs with
    | nil => simp [sumOf]
    | cons x xs ih =>
        have hsum : sumOf f (x :: xs) = f x + sumOf f xs := List.sum_cons
        have htri := abs_add_le (f x) (sumOf f xs)
        have hx := hf x
        rw [hsum, List.length_cons]
        push_cast
        linarith
  have habs := abs_le.mp (hbound (lastSamples vs))
  have hroom : ((lastSamples vs).length : Int) ≤ 48 := by exact_mod_cast hlen
  apply Int64.toInt_ofInt_of_le
  · linarith
  · linarith

theorem abs_toInt_le (v : Int16) : |v.toInt| ≤ 2 ^ 15 :=
  abs_le.mpr ⟨v.le_toInt, v.toInt_lt.le⟩

theorem abs_square_le (v : Int16) : |square v| ≤ 2 ^ 30 := by
  rw [square, abs_mul]
  calc |v.toInt| * |v.toInt| ≤ 2 ^ 15 * 2 ^ 15 :=
        mul_le_mul (abs_toInt_le v) (abs_toInt_le v) (abs_nonneg _) (by norm_num)
    _ = 2 ^ 30 := by norm_num

/-- The square of a sum is at most the sum of the squares, as often as there are
terms. -/
theorem sq_sumOf_le (vs : List Int16) : sumOf Int16.toInt vs ^ 2 ≤ vs.length * sumOf square vs := by
  have hcauchy := sq_sum_le_card_mul_sum_sq (s := Finset.univ) (f := fun i : Fin vs.length => (vs.get i).toInt)
  have hsum : ∀ f : Int16 → Int, sumOf f vs = ∑ i : Fin vs.length, f (vs.get i) :=
    fun f => (Fin.sum_univ_fun_getElem vs f).symm
  rw [hsum, hsum]
  simpa [square, sq] using hcauchy

/-! ### The invariant -/

/-- What a state has to do with the samples that were pushed. -/
structure Windows (s : RssiStat) (vs : List Int16) : Prop where
  filled : s.filled = min vs.length rssiN
  idx : s.idx = turn rssiN (vs.length - rssiN)
  ring : Holds s.ring vs
  sum : s.sum = Int64.ofInt (sumOf Int16.toInt (lastSamples vs))
  sq : s.sq = Int64.ofInt (sumOf square (lastSamples vs))

theorem windows_zero : Windows {} [] where
  filled := rfl
  idx := rfl
  ring := holds_nil _
  sum := rfl
  sq := rfl

theorem ofInt_square (v : Int16) : Int64.ofInt (square v) = v.toInt64 * v.toInt64 := by
  rw [square, Int64.ofInt_mul, Int64.ofInt_int16ToInt]

/-- The difference of two samples fits into `int`. -/
theorem ofInt_toInt_sub (v old : Int16) :
    Int64.ofInt (v.toInt - old.toInt) = (v.toInt32 - old.toInt32).toInt64 := by
  have hv := abs_le.mp (abs_toInt_le v)
  have hold := abs_le.mp (abs_toInt_le old)
  rw [← Int64.toInt_inj, Int64.toInt_ofInt_of_le (by linarith) (by linarith), Int32.toInt_toInt64, Int32.toInt_sub,
    Int16.toInt_toInt32, Int16.toInt_toInt32, Int.bmod_eq_of_le (by norm_num; linarith) (by norm_num; linarith)]

theorem Windows.push_room {s : RssiStat} {vs : List Int16} (h : Windows s vs) (hroom : vs.length < rssiN) (v : Int16) :
    Windows (rssiPush s v) (vs ++ [v]) := by
  have hfilled : s.filled = vs.length := by
    rw [h.filled]
    omega
  have hlen : (vs ++ [v]).length = vs.length + 1 := by simp
  rw [rssiPush, dif_pos (by omega)]
  constructor
  · show s.filled + 1 = _
    rw [hlen, hfilled]
    omega
  · rw [hlen, h.idx]
    congr 1
    omega
  · exact h.ring.push v (by omega) (by rw [hfilled, Nat.mod_eq_of_lt hroom])
  · rw [sumOf_lastSamples_room _ hroom, Int64.ofInt_add, Int64.ofInt_int16ToInt, ← h.sum]
  · rw [sumOf_lastSamples_room _ hroom, Int64.ofInt_add, ofInt_square, ← h.sq]

theorem Windows.push_full {s : RssiStat} {vs : List Int16} (h : Windows s vs) (hfull : rssiN ≤ vs.length) (v : Int16) :
    Windows (rssiPush s v) (vs ++ [v]) := by
  have hfilled : s.filled = rssiN := by
    rw [h.filled]
    omega
  -- The next cell is the one of the oldest sample.
  have hturn : s.idx = turn rssiN vs.length := by
    rw [h.idx]
    apply Fin.ext
    exact (Nat.mod_eq_sub_mod hfull).symm
  have hold : vs[vs.length - rssiN]? = some (s.ring.get s.idx) := by
    rw [h.idx]
    exact h.ring _ (by have : 0 < rssiN := Nat.pos_of_neZero _; omega) (by omega)
  have hlen : (vs ++ [v]).length = vs.length + 1 := by simp
  rw [rssiPush, dif_neg (by omega)]
  constructor
  · rw [hlen, hfilled]
    omega
  · show s.idx + 1 = _
    rw [hlen, Nat.sub_add_comm hfull, h.idx]
    apply Fin.ext
    rw [Fin.val_add, turn_val, turn_val]
    exact Nat.mod_add_mod _ _ _
  · exact h.ring.push v s.idx.isLt (congrArg Fin.val hturn)
  · rw [sumOf_lastSamples_full _ hfull v hold, Int64.ofInt_add, ofInt_toInt_sub, ← h.sum]
  · rw [sumOf_lastSamples_full _ hfull v hold, Int64.ofInt_add, Int64.ofInt_sub, ofInt_square, ofInt_square, ← h.sq]

theorem Windows.push {s : RssiStat} {vs : List Int16} (h : Windows s vs) (v : Int16) :
    Windows (rssiPush s v) (vs ++ [v]) := by
  rcases Nat.lt_or_ge vs.length rssiN with hroom | hfull
  · exact h.push_room hroom v
  · exact h.push_full hfull v

/-- `rssi_push` with one sample after another, from the zero state. -/
def rssiAfter (vs : List Int16) : RssiStat := run rssiPush {} vs

/-- After any samples the state is the one of their window. -/
theorem windows_run (vs : List Int16) : Windows (rssiAfter vs) vs := by
  induction vs using List.reverseRecOn with
  | nil => exact windows_zero
  | append_singleton vs v ih =>
      rw [rssiAfter, run_append]
      exact ih.push v

theorem Windows.samples {s : RssiStat} {vs : List Int16} (h : Windows s vs) : s.samples = lastSamples vs := by
  rw [RssiStat.samples, h.filled, lastSamples]
  apply h.ring.window
  rw [h.idx]
  exact Fin.ext (Nat.mod_mod _ _)

/-- Exact sums give a variance that is not negative. -/
theorem variance_nonneg {s : RssiStat} (h : s.sum.toInt * s.sum.toInt ≤ s.filled * s.sq.toInt) : 0 ≤ s.variance := by
  rcases Nat.eq_zero_or_pos s.filled with hzero | hpos
  · simp [RssiStat.variance, hzero]
  · have hn : (0 : ℚ) < s.filled := by exact_mod_cast hpos
    have hsums : (s.sum.toInt : ℚ) * s.sum.toInt ≤ s.filled * s.sq.toInt := by exact_mod_cast h
    have hform : s.variance =
        (s.filled * s.sq.toInt - s.sum.toInt * s.sum.toInt) / ((s.filled : ℚ) * s.filled) := by
      rw [RssiStat.variance]
      field_simp
    rw [hform]
    exact div_nonneg (by linarith) (by positivity)

/-- The ring holds the last samples, the sums are theirs to the last digit, and
what `rssi_stddev` takes the root of is not negative in exact arithmetic. -/
theorem window_statistics (vs : List Int16) :
    (rssiAfter vs).filled = min vs.length rssiN ∧
      (rssiAfter vs).samples = vs.drop (vs.length - rssiN) ∧
      (rssiAfter vs).sum.toInt = ((rssiAfter vs).samples.map fun v => v.toInt).sum ∧
      (rssiAfter vs).sq.toInt = ((rssiAfter vs).samples.map fun v => v.toInt * v.toInt).sum ∧
      0 ≤ (rssiAfter vs).filled * (rssiAfter vs).sq.toInt -
        (rssiAfter vs).sum.toInt * (rssiAfter vs).sum.toInt ∧
      0 ≤ (rssiAfter vs).variance := by
  set s := rssiAfter vs
  have hwindows : Windows s vs := windows_run vs
  have hsamples := hwindows.samples
  have hsum : s.sum.toInt = sumOf Int16.toInt s.samples := by
    rw [hwindows.sum, hsamples]
    exact toInt_sumOf (fun v => (abs_toInt_le v).trans (by norm_num)) vs
  have hsq : s.sq.toInt = sumOf square s.samples := by
    rw [hwindows.sq, hsamples]
    exact toInt_sumOf abs_square_le vs
  have hlen : s.samples.length = s.filled := by
    rw [hsamples, length_lastSamples, hwindows.filled]
  have hcauchy : s.sum.toInt * s.sum.toInt ≤ s.filled * s.sq.toInt := by
    rw [hsum, hsq, ← hlen, ← pow_two]
    exact sq_sumOf_le s.samples
  exact ⟨hwindows.filled, hsamples, hsum, hsq, Int.sub_nonneg_of_le hcauchy, variance_nonneg hcauchy⟩

end Htsn.Esp32
