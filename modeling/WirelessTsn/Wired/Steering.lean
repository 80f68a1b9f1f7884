import WirelessTsn.Lib.Slew
import WirelessTsn.Wired.Ptp

/-!
How the endpoint follows the master's clock: what `handle_packet` computes
from the four timestamps of an exchange, and what repeated calls of `steer` do
to the mapping.
-/

namespace Htsn

open Slew

/-! ### Repeated steering -/

/-- `(int64_t)(c - g_c_ns)` -/
def PtpState.delta (s : PtpState) (c : U64) : Int := (c - s.cNs).toInt

/-- The state after `n` calls of `steer` with one target. -/
def steered (s : PtpState) (c : U64) (n : Nat) : PtpState := (fun s => steer s c)^[n] s

theorem steer_cNs (s : PtpState) (c : U64) :
    (steer s c).cNs = if 50000000 < |s.delta c| then c else s.cNs + (c - s.cNs).sdiv 5 := by
  have hfar : 50000000 < |s.delta c| ↔
      (c - s.cNs).toInt > 50000000 ∨ (c - s.cNs).toInt < -50000000 := by
    rw [PtpState.delta, lt_abs]
    omega
  rw [steer]
  by_cases h : 50000000 < |s.delta c|
  · rw [if_pos h]
    simp only [hfar.mp h, if_true]
  · rw [if_neg h]
    simp only [if_neg (mt hfar.mpr h)]
    by_cases hzero : c - s.cNs = 0
    · have hdiv : (0 : U64).sdiv 5 = 0 := by decide
      simp only [hzero, ne_eq, not_true_eq_false, if_false, hdiv]
      exact (BitVec.add_zero _).symm
    · simp only [hzero, ne_eq, not_false_eq_true, if_true]

/-- A call corrects the difference. -/
theorem delta_steer (s : PtpState) (c : U64) :
    (steer s c).delta c = correct 50000000 5 (s.delta c) := by
  rw [PtpState.delta, steer_cNs]
  by_cases h : 50000000 < |s.delta c|
  · rw [if_pos h, correct_far h, BitVec.sub_self, BitVec.toInt_zero]
  · have hnear := not_lt.mp h
    have hrest := (abs_slew_le (k := 5) (by decide) (s.delta c)).trans hnear
    rw [abs_le] at hnear hrest
    have hfive : (5 : U64).toInt = 5 := by decide
    have hdiv : ((c - s.cNs).sdiv 5).toInt = (s.delta c).tdiv 5 := by
      rw [BitVec.toInt_sdiv_of_ne_or_ne _ _ (Or.inr (by decide)), hfive]
      rfl
    have hsub : c - (s.cNs + (c - s.cNs).sdiv 5) = c - s.cNs - (c - s.cNs).sdiv 5 :=
      (BitVec.sub_sub _ _ _).symm
    rw [if_neg h, correct_near (not_lt.mp h), hsub, BitVec.toInt_sub, hdiv]
    change (s.delta c - (s.delta c).tdiv 5).bmod (2 ^ 64) = _
    rw [slew] at hrest ⊢
    exact Int.bmod_eq_of_le_mul_two (by omega) (by omega)

/-- The differences are those of an offset that is corrected. -/
theorem delta_steered (s : PtpState) (c : U64) (n : Nat) :
    (steered s c n).delta c = (correct 50000000 5)^[n] (s.delta c) := by
  have hsemi : Function.Semiconj (fun s : PtpState => s.delta c) (fun s => steer s c)
      (correct 50000000 5) := fun s => delta_steer s c
  exact hsemi.iterate_right n s

theorem steered_succ (s : PtpState) (c : U64) (n : Nat) :
    steered s c (n + 1) = steer (steered s c n) c := Function.iterate_succ_apply' _ n s

/-- A difference below the fifth that would be taken off stays. -/
theorem steer_cNs_of_small {s : PtpState} {c : U64} (h : |s.delta c| ≤ 4) :
    (steer s c).cNs = s.cNs := by
  have hnear : ¬ 50000000 < |s.delta c| := by omega
  have hdiv : (c - s.cNs).sdiv 5 = 0 := by
    have hfive : (5 : U64).toInt = 5 := by decide
    have hzero : (0 : U64).toInt = 0 := by decide
    have hslew : slew 5 (s.delta c) = s.delta c := slew_eq_self (by omega)
    rw [slew, PtpState.delta] at hslew
    apply BitVec.eq_of_toInt_eq
    rw [BitVec.toInt_sdiv_of_ne_or_ne _ _ (Or.inr (by decide)), hfive, hzero]
    omega
  rw [steer_cNs, if_neg hnear, hdiv]
  exact BitVec.add_zero _

theorem steered_cNs_of_small {s : PtpState} {c : U64} {n : Nat}
    (h : |(steered s c n).delta c| ≤ 4) (k : Nat) :
    (steered s c (n + k)).cNs = (steered s c n).cNs := by
  induction k with
  | zero => rfl
  | succ k ih =>
      have hsmall : |(steered s c (n + k)).delta c| ≤ 4 := by
        rw [PtpState.delta, ih]
        exact h
      rw [← Nat.add_assoc, steered_succ, steer_cNs_of_small hsmall, ih]

/-- What repeated calls with the target `c` do to the difference. -/
structure Converges (s : PtpState) (c : U64) : Prop where
  shrinks : ∀ n, |(steered s c (n + 1)).delta c| ≤ |(steered s c n).delta c|
  nonneg : ∀ n, 0 ≤ (steered s c n).delta c → 0 ≤ (steered s c (n + 1)).delta c
  nonpos : ∀ n, (steered s c n).delta c ≤ 0 → (steered s c (n + 1)).delta c ≤ 0
  far : ∀ n, 50000000 < |(steered s c n).delta c| → (steered s c (n + 1)).delta c = 0
  near : ∃ n, |(steered s c n).delta c| ≤ 4
  settled : ∀ n, |(steered s c n).delta c| ≤ 4 →
    ∀ m, n ≤ m → (steered s c m).cNs = (steered s c n).cNs

/-- Steering converges from every mapping to every target, without overshoot. -/
theorem steer_converges (s : PtpState) (c : U64) : Converges s c where
  shrinks n := by
    rw [steered_succ, delta_steer]
    exact abs_correct_le (by decide) _ _
  nonneg n h := by
    rw [steered_succ, delta_steer]
    exact correct_nonneg _ _ h
  nonpos n h := by
    rw [steered_succ, delta_steer]
    exact correct_nonpos _ _ h
  far n h := by
    rw [steered_succ, delta_steer]
    exact correct_far h
  near := by
    obtain ⟨n, hn⟩ := exists_iterate_lt (k := 5) (by decide) 50000000 (s.delta c)
    rw [← delta_steered] at hn
    exact ⟨n, Int.le_of_lt_add_one hn⟩
  settled n h m hm := by
    obtain ⟨k, rfl⟩ := Nat.exists_eq_add_of_le hm
    exact steered_cNs_of_small h k

/-! ### The estimate -/

/-- The argument that `handle_packet` passes to `steer` at a DELAY_RESP. -/
def delayRespArg (s : PtpState) (d : Datagram) : U64 :=
  ((ptpHdrTimeNs d + s.t1) - (s.s2 + s.s3)) / 2

/-- `g_have_t1 = g_have_s2 = false` -/
def PtpState.endExchange (s : PtpState) : PtpState := { s with haveT1 := false, haveS2 := false }

theorem handlePacket_delayResp_eq {s : PtpState} {d : Datagram} (raw : U64)
    (hmsg : d.msg = some .delayResp) :
    handlePacket s d raw =
      (if s.haveT1 && s.haveS2 then
        { steer s (delayRespArg s d) with
          steers := s.steers ++ [⟨s.t1, s.s2, s.s3, ptpHdrTimeNs d⟩] }
      else s).endExchange := by
  unfold handlePacket
  rw [hmsg]
  rfl

/-- A DELAY_RESP that finds both timestamps steers once. -/
theorem handlePacket_steers {s : PtpState} {d : Datagram} (raw : U64)
    (hmsg : d.msg = some .delayResp) (ht1 : s.haveT1 = true) (hs2 : s.haveS2 = true) :
    handlePacket s d raw =
      PtpState.endExchange
        { steer s (delayRespArg s d) with
          steers := s.steers ++ [⟨s.t1, s.s2, s.s3, ptpHdrTimeNs d⟩] } := by
  have hboth : (s.haveT1 && s.haveS2) = true := by rw [ht1, hs2, Bool.and_self]
  rw [handlePacket_delayResp_eq raw hmsg, if_pos hboth]

/-- The DELAY_RESP ends an exchange with a master whose time is `c` ahead of
the local raw time, over a path that takes `delay` each way. -/
structure Symmetric (s : PtpState) (d : Datagram) (c delay : Int) : Prop where
  msg : d.msg = some .delayResp
  haveT1 : s.haveT1 = true
  haveS2 : s.haveS2 = true
  s2 : (s.s2.toNat : Int) = s.t1.toNat + delay - c
  t4 : ((ptpHdrTimeNs d).toNat : Int) = s.s3.toNat + c + delay
  bounds : s.t1.toNat < 2 ^ 62 ∧ s.s2.toNat < 2 ^ 62 ∧ s.s3.toNat < 2 ^ 62 ∧
    (ptpHdrTimeNs d).toNat < 2 ^ 62

theorem delayRespArg_toNat {s : PtpState} {d : Datagram} {c delay : Int}
    (h : Symmetric s d c delay) :
    ((delayRespArg s d).toNat : Int) = if 0 ≤ c then c else 2 ^ 63 + c := by
  have hbounds := h.bounds
  have hs2 := h.s2
  have ht4 := h.t4
  have htwo : (2 : U64).toNat = 2 := by decide
  rw [delayRespArg, BitVec.toNat_udiv, BitVec.toNat_sub, BitVec.toNat_add, BitVec.toNat_add, htwo]
  split <;> omega

/-- The estimate is the offset exactly if the master is not behind. -/
theorem estimate_iff {s : PtpState} {d : Datagram} {c delay : Int} (raw : U64)
    (h : Symmetric s d c delay) :
    handlePacket s d raw =
        PtpState.endExchange
          { steer s (delayRespArg s d) with
            steers := s.steers ++ [⟨s.t1, s.s2, s.s3, ptpHdrTimeNs d⟩] } ∧
      (delayRespArg s d = BitVec.ofInt 64 c ↔ 0 ≤ c) := by
  refine ⟨handlePacket_steers raw h.msg h.haveT1 h.haveS2, ?_⟩
  have harg := delayRespArg_toNat h
  have hlt := (delayRespArg s d).isLt
  rw [← BitVec.toNat_inj, BitVec.toNat_ofInt]
  split at harg <;> omega

/-- A SYNC, a FOLLOW_UP, the request, and the FOLLOW_UP once more; only then
are both timestamps there. The local clock reads `raw` throughout. -/
def repeatedRun (raw : U64) : PtpState :=
  ptpRun (PtpState.init ⟨true, true⟩)
    [.eventRecv (some (ptpPacket 0x0 0 0)) raw, .generalRecv (some (ptpPacket 0x8 0 0)) raw,
      .request raw raw, .generalRecv (some (ptpPacket 0x8 0 0)) raw]

/-- The master is 1.5 s ahead, over a path that takes as long. -/
theorem ahead_symmetric : Symmetric (repeatedRun 0) (ptpPacket 0x9 3 0) 1500000000 1500000000 := by
  have ht4 : ptpHdrTimeNs (ptpPacket 0x9 3 0) = 3000000000 := by decide
  have ht1 : (repeatedRun 0).t1 = 0 := by decide
  have hs2 : (repeatedRun 0).s2 = 0 := by decide
  have hs3 : (repeatedRun 0).s3 = 0 := by decide
  refine ⟨by decide, by decide, by decide, ?_, ?_, ?_⟩
  · rw [ht1, hs2]
    simp
  · rw [ht4, hs3]
    simp
  · rw [ht1, hs2, hs3, ht4]
    decide

theorem ahead_estimated :
    delayRespArg (repeatedRun 0) (ptpPacket 0x9 3 0) = BitVec.ofInt 64 1500000000 :=
  (estimate_iff 0 ahead_symmetric).2.mpr (by decide)

/-- The master is 5 ns behind. -/
theorem behind_symmetric : Symmetric (repeatedRun 5) (ptpPacket 0x9 0 0) (-5) 0 := by
  have ht4 : ptpHdrTimeNs (ptpPacket 0x9 0 0) = 0 := by decide
  have ht1 : (repeatedRun 5).t1 = 0 := by decide
  have hs2 : (repeatedRun 5).s2 = 5 := by decide
  have hs3 : (repeatedRun 5).s3 = 5 := by decide
  refine ⟨by decide, by decide, by decide, ?_, ?_, ?_⟩
  · rw [ht1, hs2]
    simp
  · rw [ht4, hs3]
    simp
  · rw [ht1, hs2, hs3, ht4]
    decide

theorem behind_not_estimated :
    Symmetric (repeatedRun 5) (ptpPacket 0x9 0 0) (-5) 0 ∧
      delayRespArg (repeatedRun 5) (ptpPacket 0x9 0 0) ≠ BitVec.ofInt 64 (-5) := by
  refine ⟨behind_symmetric, ?_⟩
  have ht4 : ptpHdrTimeNs (ptpPacket 0x9 0 0) = 0 := by decide
  rw [delayRespArg, ht4]
  decide

end Htsn
