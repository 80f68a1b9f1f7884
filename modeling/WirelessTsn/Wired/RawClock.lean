import WirelessTsn.Lib.Run
import WirelessTsn.Wired.Ptp

/-!
The raw clock of the endpoint, `raw_ns` of `ptp.c`. The branch for a counter
that has wrapped compares with a base that is never set, so it is never taken:
the clock starts again from zero each time the cycle counter does.
-/

namespace Htsn

open Run

/-- `SystemCoreClock` -/
structure CoreClock where
  hz : BitVec 32
  running : 0 < hz.toNat

/-- The static variables of `raw_ns`. -/
structure RawClock where
  base : U64 := 0
  baseCycles : BitVec 32 := 0
  deriving DecidableEq, Repr

/-- `raw_ns` when `DWT->CYCCNT` reads `c`. -/
def rawNs (clk : CoreClock) (r : RawClock) (c : BitVec 32) : RawClock × U64 :=
  let r : RawClock :=
    if c < r.baseCycles then
      { base := r.base + ((0xFFFFFFFF - r.baseCycles) + 1).setWidth 64, baseCycles := 0 }
    else r
  let cycles := r.base + (c - r.baseCycles).setWidth 64
  (r, cycles * 1000000000 / clk.hz.setWidth 64)

/-- The times of calls, in cycles since the counter was started at zero; less
than a whole turn of it passes between two calls. -/
structure CallTimes where
  cycles : List Nat
  gaps : (0 :: cycles).IsChain fun e e' => e ≤ e' ∧ e' < e + 2 ^ 32

/-- What the calls return. -/
def rawReadings (clk : CoreClock) (cycles : List Nat) : List U64 :=
  outputs (fun r e => ((rawNs clk r (BitVec.ofNat 32 e)).1, [(rawNs clk r (BitVec.ofNat 32 e)).2]))
    {} cycles

/-- The time never goes back, and is that of the cycles that have passed. -/
structure KeepsTime (clk : CoreClock) (times : CallTimes) : Prop where
  monotone : (rawReadings clk times.cycles).Pairwise (· ≤ ·)
  exact : (rawReadings clk times.cycles).map BitVec.toNat =
    times.cycles.map fun e => e * 1000000000 / clk.hz.toNat

/-! ### What the calls return -/

/-- The base stays where it is. -/
theorem rawNs_start (clk : CoreClock) (c : BitVec 32) :
    rawNs clk {} c = ({}, c.setWidth 64 * 1000000000 / clk.hz.setWidth 64) := by
  have hwrap : ¬ c < 0 := BitVec.not_lt_zero
  have hbase : ∀ x : U64, 0 + x = x := BitVec.zero_add
  have hdiff : c - 0 = c := BitVec.sub_zero c
  simp only [rawNs, if_neg hwrap, hdiff, hbase]

theorem rawReadings_eq (clk : CoreClock) (cycles : List Nat) :
    rawReadings clk cycles =
      cycles.map fun e => (BitVec.ofNat 32 e).setWidth 64 * 1000000000 / clk.hz.setWidth 64 := by
  rw [rawReadings]
  induction cycles with
  | nil => rfl
  | cons e es ih => rw [outputs, next, rawNs_start, ih, List.singleton_append, List.map_cons]

/-- A call returns the time since the counter last passed zero. -/
theorem rawNs_toNat (clk : CoreClock) (e : Nat) :
    ((BitVec.ofNat 32 e).setWidth 64 * 1000000000 / clk.hz.setWidth 64 : U64).toNat =
      e % 2 ^ 32 * 1000000000 / clk.hz.toNat := by
  have hlt : e % 2 ^ 32 < 2 ^ 32 := Nat.mod_lt _ (by decide)
  have hhz := clk.hz.isLt
  have hgiga : (1000000000 : U64).toNat = 1000000000 := by decide
  rw [BitVec.toNat_udiv, BitVec.toNat_mul, BitVec.toNat_setWidth, BitVec.toNat_setWidth,
    BitVec.toNat_ofNat, hgiga, Nat.mod_eq_of_lt (hlt.trans (by decide)),
    Nat.mod_eq_of_lt (hhz.trans (by decide)), Nat.mod_eq_of_lt (by omega)]

/-- It is the time of all cycles exactly within the first turn. -/
theorem rawNs_exact_iff (clk : CoreClock) (e : Nat) :
    e % 2 ^ 32 * 1000000000 / clk.hz.toNat = e * 1000000000 / clk.hz.toNat ↔ e < 2 ^ 32 := by
  have hhz := clk.hz.isLt
  constructor
  · intro h
    by_contra hge
    have hturn : e % 2 ^ 32 * 1000000000 + clk.hz.toNat ≤ e * 1000000000 := by omega
    have hdiv := Nat.div_le_div_right (c := clk.hz.toNat) hturn
    rw [Nat.add_div_right _ clk.running] at hdiv
    omega
  · intro h
    rw [Nat.mod_eq_of_lt h]

theorem CallTimes.sorted (times : CallTimes) : times.cycles.Pairwise (· ≤ ·) := by
  have hchain : times.cycles.IsChain (· ≤ ·) := times.gaps.tail.imp fun _ _ h => h.1
  exact hchain.pairwise

/-- The clock keeps the time exactly if no call comes after the first turn of
the counter, about 20 s after boot at 216 MHz. -/
theorem keepsTime_iff (clk : CoreClock) (times : CallTimes) :
    KeepsTime clk times ↔ ∀ e ∈ times.cycles, e < 2 ^ 32 := by
  have hnat : (rawReadings clk times.cycles).map BitVec.toNat =
      times.cycles.map fun e => e % 2 ^ 32 * 1000000000 / clk.hz.toNat := by
    rw [rawReadings_eq, List.map_map]
    exact List.map_congr_left fun e _ => rawNs_toNat clk e
  constructor
  · rintro ⟨-, hexact⟩ e he
    rw [hnat, List.map_inj_left] at hexact
    exact (rawNs_exact_iff clk e).mp (hexact e he)
  · intro h
    have hexact : (rawReadings clk times.cycles).map BitVec.toNat =
        times.cycles.map fun e => e * 1000000000 / clk.hz.toNat := by
      rw [hnat, List.map_inj_left]
      exact fun e he => (rawNs_exact_iff clk e).mpr (h e he)
    refine ⟨?_, hexact⟩
    have hmono : ((rawReadings clk times.cycles).map BitVec.toNat).Pairwise (· ≤ ·) := by
      rw [hexact, List.pairwise_map]
      exact times.sorted.imp fun hle => Nat.div_le_div_right (Nat.mul_le_mul_right _ hle)
    rwa [List.pairwise_map] at hmono

/-- The core clock of the board. -/
def boardClock : CoreClock := ⟨216000000, by decide⟩

/-- Two calls, 10 s and 20 s after boot. -/
def twoCalls : CallTimes := ⟨[2160000000, 4320000000], by decide⟩

/-- At the second call the counter has wrapped: the time is back at 115 ms. -/
theorem twoCalls_not_kept : ¬ KeepsTime boardClock twoCalls := by
  rintro ⟨hmono, -⟩
  rw [rawReadings_eq] at hmono
  exact absurd hmono (by decide)

end Htsn
