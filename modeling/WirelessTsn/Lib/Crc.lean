import Mathlib.Data.ZMod.Basic
import Mathlib.Algebra.BigOperators.Fin
import Mathlib.Tactic

/-!
Cyclic redundancy checks, most significant bit first. One division step is
linear in exclusive or, so what a check says about an error depends only on
which bits it flips; the results here are the three classical ones, a burst
no longer than the register, an odd number of flips, and a pair of flips.
-/

namespace Crc

variable {w : Nat} (poly : BitVec w)

/-- One shift of the remainder, with the generator taken away when a bit falls
out of the register. -/
def shift (c : BitVec w) : BitVec w :=
  if c.msb then (c <<< 1) ^^^ poly else c <<< 1

/-- A message bit as it enters the register, at its top. -/
def inject (w : Nat) (b : Bool) : BitVec w := if b then BitVec.twoPow w (w - 1) else 0

/-- One message bit. -/
def step (c : BitVec w) (b : Bool) : BitVec w := shift poly (c ^^^ inject w b)

/-- A message, bit by bit, from the remainder `c`. -/
def bits (c : BitVec w) (bs : List Bool) : BitVec w := bs.foldl (step poly) c

@[simp] theorem bits_nil (c : BitVec w) : bits poly c [] = c := rfl

@[simp] theorem bits_cons (c : BitVec w) (b : Bool) (bs : List Bool) :
    bits poly c (b :: bs) = bits poly (step poly c b) bs := rfl

theorem bits_append (c : BitVec w) (xs ys : List Bool) :
    bits poly c (xs ++ ys) = bits poly (bits poly c xs) ys := by
  simp [bits]

/-! ### Linearity -/

theorem shift_xor (a b : BitVec w) : shift poly (a ^^^ b) = shift poly a ^^^ shift poly b := by
  unfold shift
  rw [BitVec.msb_xor, BitVec.shiftLeft_xor_distrib]
  cases a.msb <;> cases b.msb
  · simp
  · simp only [Bool.false_bne, if_true, Bool.false_eq_true, if_false]
    rw [BitVec.xor_assoc]
  · simp only [Bool.bne_false, if_true, Bool.false_eq_true, if_false]
    rw [BitVec.xor_assoc, BitVec.xor_comm (b <<< 1), ← BitVec.xor_assoc]
  · simp only [bne_self_eq_false, if_true, Bool.false_eq_true, if_false]
    rw [BitVec.xor_assoc, BitVec.xor_comm poly, BitVec.xor_assoc (b <<< 1), BitVec.xor_self,
      BitVec.xor_zero]

@[simp] theorem shift_zero : shift poly 0#w = 0#w := by
  simp [shift]

theorem iterate_shift_xor (k : Nat) (a b : BitVec w) :
    (shift poly)^[k] (a ^^^ b) = (shift poly)^[k] a ^^^ (shift poly)^[k] b := by
  induction k generalizing a b with
  | zero => rfl
  | succ k ih => simp only [Function.iterate_succ_apply, shift_xor, ih]

@[simp] theorem iterate_shift_zero (k : Nat) : (shift poly)^[k] 0#w = 0#w := by
  induction k with
  | zero => rfl
  | succ k ih => rw [Function.iterate_succ_apply, shift_zero, ih]

theorem inject_bne (a b : Bool) : inject w (a ^^ b) = inject w a ^^^ inject w b := by
  cases a <;> cases b <;> simp [inject]

@[simp] theorem inject_false : inject w false = 0#w := rfl

theorem step_xor (c d : BitVec w) (a b : Bool) :
    step poly (c ^^^ d) (a ^^ b) = step poly c a ^^^ step poly d b := by
  have hswap : c ^^^ d ^^^ (inject w a ^^^ inject w b) =
      (c ^^^ inject w a) ^^^ (d ^^^ inject w b) := by
    ac_rfl
  rw [step, step, step, inject_bne, hswap, shift_xor]

/-- The check of a bitwise difference is the difference of the checks. -/
theorem bits_zipWith (c d : BitVec w) {xs ys : List Bool} (hlen : xs.length = ys.length) :
    bits poly (c ^^^ d) (List.zipWith (· ^^ ·) xs ys) = bits poly c xs ^^^ bits poly d ys := by
  induction xs generalizing ys c d with
  | nil =>
      rw [List.length_eq_zero_iff.mp hlen.symm]
      rfl
  | cons x xs ih =>
      cases ys with
      | nil => simp at hlen
      | cons y ys =>
          rw [List.zipWith_cons_cons, bits_cons, bits_cons, bits_cons, step_xor]
          exact ih _ _ (by simpa using hlen)

theorem bits_replicate_false (c : BitVec w) (k : Nat) :
    bits poly c (List.replicate k false) = (shift poly)^[k] c := by
  induction k generalizing c with
  | zero => rfl
  | succ k ih =>
      rw [List.replicate_succ, bits_cons, ih, Function.iterate_succ_apply]
      simp [step]

/-! ### A generator with a constant term loses nothing -/

theorem shift_eq_zero (hodd : poly.getLsbD 0 = true) {c : BitVec w} (h : shift poly c = 0#w) :
    c = 0#w := by
  have hw : 0 < w := by
    rcases Nat.eq_zero_or_pos w with rfl | hw
    · simp at hodd
    · exact hw
  have hlow : (c <<< 1).getLsbD 0 = false := by simp
  unfold shift at h
  split at h
  · have hbit := congrArg (fun v => BitVec.getLsbD v 0) h
    simp only [BitVec.getLsbD_xor, hlow, hodd, BitVec.getLsbD_zero] at hbit
    exact absurd hbit (by decide)
  · rename_i hmsb
    apply BitVec.eq_of_getLsbD_eq
    intro i hi
    by_cases hlast : i = w - 1
    · subst hlast
      simpa [BitVec.msb_eq_getLsbD_last] using hmsb
    · have hbit := congrArg (fun v => BitVec.getLsbD v (i + 1)) h
      have hi1 : i + 1 < w := by omega
      simpa [hi1, BitVec.getLsbD_eq_getElem hi] using hbit

theorem iterate_shift_eq_zero (hodd : poly.getLsbD 0 = true) {k : Nat} {c : BitVec w}
    (h : (shift poly)^[k] c = 0#w) : c = 0#w := by
  induction k generalizing c with
  | zero => exact h
  | succ k ih =>
      rw [Function.iterate_succ_apply] at h
      exact shift_eq_zero poly hodd (ih h)

theorem iterate_shift_injective (hodd : poly.getLsbD 0 = true) (k : Nat) :
    Function.Injective (shift poly)^[k] := by
  intro a b h
  have hzero : (shift poly)^[k] (a ^^^ b) = 0#w := by
    rw [iterate_shift_xor, h, BitVec.xor_self]
  have hab := iterate_shift_eq_zero poly hodd hzero
  simpa [BitVec.xor_assoc] using congrArg (· ^^^ b) hab

/-! ### Bursts -/

/-- The bits as a register holds them, the first at its top. -/
def top (w : Nat) : List Bool → BitVec w
  | [] => 0
  | b :: bs => inject w b ^^^ (top w bs >>> 1)

theorem getLsbD_inject (b : Bool) (i : Nat) :
    (inject w b).getLsbD i = (b && decide (i < w) && decide (i = w - 1)) := by
  cases b
  · simp [inject]
  · rw [inject, if_pos rfl, BitVec.getLsbD_twoPow, Bool.true_and]
    by_cases hi : i < w
    · simp [hi, eq_comm, show w - 1 < w by omega]
    · have hout : ¬ (w - 1 < w ∧ w - 1 = i) := by omega
      rw [← Bool.decide_and, decide_eq_false hout]
      simp [hi]

theorem getLsbD_top (bs : List Bool) (i : Nat) :
    (top w bs).getLsbD i = (decide (i < w) && bs.getD (w - 1 - i) false) := by
  induction bs generalizing i with
  | nil => simp [top]
  | cons b bs ih =>
      rw [top, BitVec.getLsbD_xor, getLsbD_inject, BitVec.getLsbD_ushiftRight, ih]
      by_cases hlast : i = w - 1
      · simp [hlast, show ¬ 1 + (w - 1) < w by omega, Bool.and_comm]
      · by_cases hi : i < w
        · have hnext : w - 1 - i = w - 1 - (1 + i) + 1 := by omega
          have hi1 : 1 + i < w := by omega
          simp [hlast, hi, hi1, hnext]
        · simp [hi, show ¬ 1 + i < w by omega]

theorem top_eq_zero {bs : List Bool} (hlen : bs.length ≤ w) (h : top w bs = 0#w) :
    true ∉ bs := by
  intro hmem
  obtain ⟨i, hi, hget⟩ := List.mem_iff_getElem.mp hmem
  have hbit := congrArg (fun v => BitVec.getLsbD v (w - 1 - i)) h
  simp only [getLsbD_top, BitVec.getLsbD_zero] at hbit
  rw [show w - 1 - (w - 1 - i) = i by omega, List.getD_eq_getElem?_getD, List.getElem?_eq_getElem hi, hget] at hbit
  have hin : w - 1 - i < w := by omega
  simp [hin] at hbit

theorem shift_ushiftRight {x : BitVec w} (hx : x.getLsbD 0 = false) :
    shift poly (x >>> 1) = x := by
  have hmsb : (x >>> 1).msb = false := by
    rw [BitVec.msb_eq_getLsbD_last, BitVec.getLsbD_ushiftRight]
    exact BitVec.getLsbD_of_ge _ _ (by omega)
  rw [shift, hmsb, if_neg Bool.false_ne_true]
  apply BitVec.eq_of_getLsbD_eq
  intro i hi
  cases i with
  | zero => simp [hx]
  | succ i => simp [hi, Nat.add_comm 1 i]

/-- As many bits as the register holds may enter it at once before it is
shifted. -/
theorem bits_eq_iterate (c : BitVec w) {bs : List Bool} (hlen : bs.length ≤ w) :
    bits poly c bs = (shift poly)^[bs.length] (c ^^^ top w bs) := by
  induction bs generalizing c with
  | nil => simp [top]
  | cons b bs ih =>
      have hlow : (top w bs).getLsbD 0 = false := by
        have hout : bs.length ≤ w - 1 - 0 := by
          rw [List.length_cons] at hlen
          omega
        rw [getLsbD_top, List.getD_eq_getElem?_getD, List.getElem?_eq_none hout]
        simp
      rw [bits_cons, ih _ (by simp at hlen; omega), top, ← BitVec.xor_assoc, List.length_cons,
        Function.iterate_succ_apply, shift_xor poly (c ^^^ inject w b), shift_ushiftRight poly hlow,
        step]

theorem bits_zero_replicate_append (i : Nat) (bs : List Bool) :
    bits poly 0#w (List.replicate i false ++ bs) = bits poly 0#w bs := by
  rw [bits_append, bits_replicate_false, iterate_shift_zero]

theorem bits_burst (i r : Nat) {bs : List Bool} (hlen : bs.length ≤ w) :
    bits poly 0#w (List.replicate i false ++ bs ++ List.replicate r false) =
      (shift poly)^[r] ((shift poly)^[bs.length] (top w bs)) := by
  rw [List.append_assoc, bits_zero_replicate_append, bits_append, bits_replicate_false,
    bits_eq_iterate poly _ hlen, BitVec.zero_xor]

/-- A burst no longer than the register never cancels. -/
theorem bits_burst_ne_zero (hodd : poly.getLsbD 0 = true) (i r : Nat) {bs : List Bool}
    (hlen : bs.length ≤ w) (hmem : true ∈ bs) :
    bits poly 0#w (List.replicate i false ++ bs ++ List.replicate r false) ≠ 0#w := by
  intro h
  rw [bits_burst poly i r hlen] at h
  have htop := iterate_shift_eq_zero poly hodd (iterate_shift_eq_zero poly hodd h)
  exact top_eq_zero hlen htop hmem

/-! ### An odd number of flips -/

/-- The number of bits set, modulo two. -/
def weight (c : BitVec w) : ZMod 2 :=
  ∑ i ∈ Finset.range w, if c.getLsbD i then 1 else 0

theorem ite_bne (a b : Bool) :
    (if (a ^^ b) then 1 else 0 : ZMod 2) = (if a then 1 else 0) + (if b then 1 else 0) := by
  revert a b
  decide

theorem weight_xor (a b : BitVec w) : weight (a ^^^ b) = weight a + weight b := by
  unfold weight
  rw [← Finset.sum_add_distrib]
  refine Finset.sum_congr rfl fun i _ => ?_
  rw [BitVec.getLsbD_xor, ite_bne]

theorem weight_shiftLeft (c : BitVec w) :
    weight (c <<< 1) + (if c.msb then 1 else 0) = weight c := by
  cases w with
  | zero => simp [weight, BitVec.msb_eq_getLsbD_last]
  | succ w =>
      unfold weight
      rw [Finset.sum_range_succ', Finset.sum_range_succ, BitVec.msb_eq_getLsbD_last]
      have hshift : ∀ i ∈ Finset.range w,
          (if (c <<< 1).getLsbD (i + 1) then 1 else 0 : ZMod 2) =
            if c.getLsbD i then 1 else 0 := by
        intro i hi
        have hi' := Finset.mem_range.mp hi
        simp [BitVec.getLsbD_shiftLeft, hi', -BitVec.getLsbD_eq_getElem]
      rw [Finset.sum_congr rfl hshift]
      simp

theorem weight_inject (hw : 0 < w) (b : Bool) : weight (inject w b) = if b then 1 else 0 := by
  unfold weight
  rw [Finset.sum_eq_single (w - 1)]
  · rw [getLsbD_inject]
    simp [hw]
  · intro i _ hi
    simp [getLsbD_inject, hi]
  · intro hnot
    exact absurd (Finset.mem_range.mpr (by omega)) hnot

/-- A generator with an even number of terms keeps the parity: its leading
term is the bit that falls out. -/
theorem weight_shift (hpoly : weight poly = 1) (c : BitVec w) :
    weight (shift poly c) = weight c := by
  rw [← weight_shiftLeft c, shift]
  cases c.msb
  · simp
  · simp [weight_xor, hpoly]

theorem weight_bits (hw : 0 < w) (hpoly : weight poly = 1) (c : BitVec w) (bs : List Bool) :
    weight (bits poly c bs) = weight c + (bs.count true : ZMod 2) := by
  induction bs generalizing c with
  | nil => simp
  | cons b bs ih =>
      rw [bits_cons, ih, step, weight_shift poly hpoly, weight_xor, weight_inject hw, add_assoc]
      cases b
      · simp
      · simp [add_comm]

/-! ### Two flips -/

/-- The powers of the generator's root below the register's width are single
bits. -/
theorem iterate_shift_one {j : Nat} (hj : j < w) :
    (shift poly)^[j] 1#w = BitVec.twoPow w j := by
  induction j with
  | zero => simp [BitVec.twoPow_zero]
  | succ j ih =>
      rw [Function.iterate_succ_apply', ih (by omega), shift]
      have hmsb : (BitVec.twoPow w j).msb = false := by
        rw [BitVec.msb_eq_getLsbD_last, BitVec.getLsbD_twoPow]
        simp
        omega
      rw [hmsb, if_neg Bool.false_ne_true]
      simp [BitVec.twoPow, BitVec.shiftLeft_add]

/-- The orbit of `c` does not meet one within `n` shifts. -/
def avoidsOne : Nat → BitVec w → Bool
  | 0, _ => true
  | n + 1, c => shift poly c != 1#w && avoidsOne n (shift poly c)

theorem iterate_ne_one {n : Nat} {c : BitVec w} (h : avoidsOne poly n c = true) {d : Nat}
    (hpos : 0 < d) (hd : d ≤ n) : (shift poly)^[d] c ≠ 1#w := by
  induction n generalizing c d with
  | zero => omega
  | succ n ih =>
      rw [avoidsOne, Bool.and_eq_true, bne_iff_ne] at h
      cases d with
      | zero => omega
      | succ d =>
          rw [Function.iterate_succ_apply]
          rcases Nat.eq_zero_or_pos d with rfl | hd0
          · exact h.1
          · exact ih h.2 hd0 (by omega)

/-- Two powers of the root that agree are equal in the exponent, as far as the
orbit was followed. -/
theorem iterate_shift_one_inj (hodd : poly.getLsbD 0 = true) {n : Nat}
    (h : avoidsOne poly n 1#w = true) {a b : Nat} (ha : a ≤ n) (hb : b ≤ n)
    (heq : (shift poly)^[a] 1#w = (shift poly)^[b] 1#w) : a = b := by
  wlog hab : a ≤ b generalizing a b
  · exact (this hb ha heq.symm (by omega)).symm
  obtain ⟨d, rfl⟩ := Nat.exists_eq_add_of_le hab
  rw [Function.iterate_add_apply] at heq
  have hone := iterate_shift_injective poly hodd a heq
  rcases Nat.eq_zero_or_pos d with rfl | hpos
  · rfl
  · exact absurd hone.symm (iterate_ne_one poly h hpos (by omega))

/-- The first bit set in a list of bits. -/
theorem exists_first_true {bs : List Bool} {n : Nat} (h : bs.count true = n + 1) :
    ∃ i rest, bs = List.replicate i false ++ true :: rest ∧ rest.count true = n := by
  induction bs with
  | nil => simp at h
  | cons b bs ih =>
      cases b with
      | false =>
          obtain ⟨i, rest, rfl, hrest⟩ := ih (by simpa using h)
          exact ⟨i + 1, rest, rfl, hrest⟩
      | true => exact ⟨0, bs, rfl, by simpa using h⟩

theorem eq_replicate_false {bs : List Bool} (h : bs.count true = 0) :
    bs = List.replicate bs.length false := by
  refine List.eq_replicate_iff.mpr ⟨rfl, fun b hb => ?_⟩
  cases b with
  | false => rfl
  | true => exact absurd hb (List.count_eq_zero.mp h)

theorem step_true (hw : 0 < w) : step poly 0#w true = (shift poly)^[w] 1#w := by
  obtain ⟨v, rfl⟩ : ∃ v, w = v + 1 := ⟨w - 1, by omega⟩
  rw [Function.iterate_succ_apply', iterate_shift_one poly (Nat.lt_succ_self v)]
  simp [step, inject]

/-- The remainder of one flip is a power of the root. -/
theorem bits_one_flip (hw : 0 < w) {bs : List Bool} (h : bs.count true = 1) :
    ∃ r, r < bs.length ∧ bits poly 0#w bs = (shift poly)^[r + w] 1#w := by
  obtain ⟨i, rest, rfl, hrest⟩ := exists_first_true h
  refine ⟨rest.length, by simp only [List.length_append, List.length_cons]; omega, ?_⟩
  rw [bits_zero_replicate_append, bits_cons, step_true poly hw, eq_replicate_false hrest,
    bits_replicate_false, ← Function.iterate_add_apply, List.length_replicate]

/-- Two flips do not cancel within the orbit that was followed. -/
theorem bits_two_flips_ne_zero (hw : 0 < w) (hodd : poly.getLsbD 0 = true) {n : Nat}
    (horbit : avoidsOne poly n 1#w = true) {bs : List Bool} (hlen : bs.length + w ≤ n)
    (h : bs.count true = 2) : bits poly 0#w bs ≠ 0#w := by
  obtain ⟨i, rest, rfl, hrest⟩ := exists_first_true h
  rw [bits_zero_replicate_append, bits_cons]
  have hsplit : bits poly (step poly 0#w true) rest =
      (shift poly)^[rest.length + w] 1#w ^^^ bits poly 0#w rest := by
    have hzip : rest = List.zipWith (· ^^ ·) (List.replicate rest.length false) rest := by
      apply List.ext_getElem <;> simp
    conv_lhs => rw [← BitVec.xor_zero (x := step poly 0#w true), hzip]
    rw [bits_zipWith poly _ _ (by simp), bits_replicate_false, step_true poly hw,
      ← Function.iterate_add_apply]
  obtain ⟨r, hr, hone⟩ := bits_one_flip poly hw hrest
  intro hzero
  rw [hsplit, hone] at hzero
  have heq : (shift poly)^[rest.length + w] 1#w = (shift poly)^[r + w] 1#w := by
    simpa [BitVec.xor_assoc] using congrArg (· ^^^ (shift poly)^[r + w] 1#w) hzero
  simp only [List.length_append, List.length_cons] at hlen
  have hsame := iterate_shift_one_inj poly hodd horbit (by omega) (by omega) heq
  omega

end Crc
