import Mathlib.Dynamics.PeriodicPts.Defs
import Mathlib.Tactic

/-!
Cyclic redundancy checks, least significant bit first. The register is linear in
exclusive or, so two runs over the same bytes from different seeds differ by the
difference of the seeds, shifted along; whether such runs ever agree is a question
about the period of the register alone. A run over changed bytes differs when the
change is no longer than the register.
-/

namespace ReflectedCrc

/-! ### Orbits -/

/-- A point comes back after the multiples of `n` alone when it comes back after
`n` and after no quotient of `n` by a prime. -/
theorem iterate_eq_iff_dvd {α : Type} {f : α → α} {x : α} {n : Nat} (hback : f^[n] x = x)
    (hshort : ∀ p, p.Prime → p ∣ n → f^[n / p] x ≠ x) (k : Nat) : f^[k] x = x ↔ n ∣ k := by
  have hdvd : Function.minimalPeriod f x ∣ n := Function.IsPeriodicPt.minimalPeriod_dvd hback
  have hperiod : Function.minimalPeriod f x = n := by
    obtain ⟨m, hm⟩ := hdvd
    rcases eq_or_ne m 1 with rfl | hone
    · rw [hm, Nat.mul_one]
    · obtain ⟨p, hp, q, rfl⟩ := Nat.exists_prime_and_dvd hone
      have hquot : n / p = Function.minimalPeriod f x * q := by
        rw [hm, Nat.mul_left_comm, Nat.mul_div_cancel_left _ hp.pos]
      refine absurd ?_ (hshort p hp ⟨Function.minimalPeriod f x * q, by rw [hm, Nat.mul_left_comm]⟩)
      rw [hquot]
      exact (Function.isPeriodicPt_minimalPeriod f x).mul_const q
  rw [← hperiod]
  exact Function.isPeriodicPt_iff_minimalPeriod_dvd

/-! ### The register -/

variable {w : Nat} (poly : BitVec w)

/-- One shift, with the generator added when a one falls out. -/
def shift (c : BitVec w) : BitVec w := if c.getLsbD 0 then (c >>> 1) ^^^ poly else c >>> 1

theorem shift_xor (a b : BitVec w) : shift poly (a ^^^ b) = shift poly a ^^^ shift poly b := by
  unfold shift
  rw [BitVec.getLsbD_xor, BitVec.ushiftRight_xor_distrib]
  cases a.getLsbD 0 <;> cases b.getLsbD 0
  · rfl
  · simp only [Bool.false_bne, if_true, Bool.false_eq_true, if_false, BitVec.xor_assoc]
  · simp only [Bool.bne_false, if_true, Bool.false_eq_true, if_false]
    rw [BitVec.xor_assoc, BitVec.xor_assoc, BitVec.xor_comm poly]
  · simp only [bne_self_eq_false, if_true, Bool.false_eq_true, if_false]
    rw [BitVec.xor_assoc, BitVec.xor_comm poly, BitVec.xor_assoc (b >>> 1), BitVec.xor_self, BitVec.xor_zero]

@[simp] theorem shift_zero : shift poly 0#w = 0#w := by
  simp [shift]

theorem iterate_shift_xor (k : Nat) (a b : BitVec w) :
    (shift poly)^[k] (a ^^^ b) = (shift poly)^[k] a ^^^ (shift poly)^[k] b := by
  induction k generalizing a b with
  | zero => rfl
  | succ k ih => rw [Function.iterate_succ_apply, shift_xor, ih]; rfl

@[simp] theorem iterate_shift_zero (k : Nat) : (shift poly)^[k] 0#w = 0#w :=
  Function.iterate_fixed (shift_zero poly) k

/-- What has no low bits is only moved down. -/
theorem iterate_shift_low {k : Nat} {c : BitVec w} (h : ∀ i < k, c.getLsbD i = false) :
    (shift poly)^[k] c = c >>> k := by
  induction k generalizing c with
  | zero => rfl
  | succ k ih =>
      have hstep : shift poly c = c >>> 1 := by
        rw [shift, h 0 k.succ_pos]
        rfl
      rw [Function.iterate_succ_apply, hstep, ih, ← BitVec.shiftRight_add, Nat.add_comm]
      intro i hi
      rw [BitVec.getLsbD_ushiftRight]
      exact h _ (by omega)

/-- With a generator that has its highest bit the register loses nothing. -/
theorem shift_injective (hpoly : poly.getLsbD (w - 1) = true) : Function.Injective (shift poly) := by
  have hzero : ∀ c : BitVec w, shift poly c = 0#w → c = 0#w := by
    intro c hc
    rw [shift] at hc
    cases hlow : c.getLsbD 0 with
    | true =>
        rw [hlow, if_pos rfl] at hc
        have htop := congrArg (fun d : BitVec w => d.getLsbD (w - 1)) hc
        have hw : 0 < w := by
          rcases Nat.eq_zero_or_pos w with rfl | hw
          · rw [BitVec.of_length_zero (x := poly)] at hpoly
            simp at hpoly
          · exact hw
        simp only [BitVec.getLsbD_xor, BitVec.getLsbD_ushiftRight, hpoly, BitVec.getLsbD_zero,
          Nat.add_sub_cancel' hw, BitVec.getLsbD_of_ge c w (Nat.le_refl w)] at htop
        cases htop
    | false =>
        rw [hlow] at hc
        refine BitVec.eq_of_getLsbD_eq fun i _ => ?_
        cases i with
        | zero => rw [hlow, BitVec.getLsbD_zero]
        | succ i =>
            have hbit := congrArg (fun d : BitVec w => d.getLsbD i) hc
            simpa [Nat.add_comm] using hbit
  intro a b hab
  have hdiff : a ^^^ b = 0#w := hzero _ (by rw [shift_xor, hab, BitVec.xor_self])
  exact BitVec.xor_eq_zero_iff.mp hdiff

/-! ### Products -/

/-- The sum of the states that `c` shifts to, one for each bit of `p` from its
highest down. -/
def mul : Nat → BitVec w → BitVec w → BitVec w
  | 0, _, _ => 0#w
  | n + 1, p, c => (if p.getLsbD n then c else 0#w) ^^^ mul n p (shift poly c)

/-- The state of which every other is a sum of shifts. -/
def unit (w : Nat) : BitVec w := BitVec.twoPow w (w - 1)

theorem mul_shift (n : Nat) (p c : BitVec w) : mul poly n p (shift poly c) = shift poly (mul poly n p c) := by
  induction n generalizing c with
  | zero => exact (shift_zero poly).symm
  | succ n ih =>
      rw [mul, mul, ih, shift_xor]
      congr 1
      cases p.getLsbD n with
      | true => rfl
      | false => exact (shift_zero poly).symm

theorem mul_iterate (n k : Nat) (p c : BitVec w) :
    mul poly n p ((shift poly)^[k] c) = (shift poly)^[k] (mul poly n p c) := by
  induction k generalizing c with
  | zero => rfl
  | succ k ih => rw [Function.iterate_succ_apply, ih, mul_shift, ← Function.iterate_succ_apply]

theorem getLsbD_mul_twoPow (p : BitVec w) {n : Nat} (hn : n ≤ w) (i : Nat) :
    (mul poly n p (BitVec.twoPow w (n - 1))).getLsbD i = (decide (i < n) && p.getLsbD i) := by
  induction n with
  | zero => simp [mul]
  | succ n ih =>
      have hrest : (mul poly n p (shift poly (BitVec.twoPow w n))).getLsbD i =
          (decide (i < n) && p.getLsbD i) := by
        cases n with
        | zero => simp [mul]
        | succ n =>
            have hlow : (BitVec.twoPow w (n + 1)).getLsbD 0 = false := by simp [BitVec.getLsbD_twoPow]
            have hshift : shift poly (BitVec.twoPow w (n + 1)) = BitVec.twoPow w n := by
              rw [shift, hlow]
              refine BitVec.eq_of_getLsbD_eq fun j hj => ?_
              simp only [Bool.false_eq_true, if_false, BitVec.getLsbD_ushiftRight, BitVec.getLsbD_twoPow]
              grind
            rw [hshift]
            exact ih (Nat.le_of_succ_le hn)
      rw [mul, BitVec.getLsbD_xor, Nat.add_sub_cancel, hrest]
      cases hp : p.getLsbD n with
      | true =>
          simp only [if_true, BitVec.getLsbD_twoPow]
          grind
      | false => grind

/-- Every state is a sum of shifts of the unit. -/
theorem mul_unit (p : BitVec w) : mul poly w p (unit w) = p := by
  refine BitVec.eq_of_getLsbD_eq fun i hi => ?_
  rw [unit, getLsbD_mul_twoPow poly p (Nat.le_refl w), decide_eq_true hi, Bool.true_and]

/-- A state after some shifts is its product with the unit after as many. -/
theorem iterate_eq_mul (k : Nat) (c : BitVec w) :
    (shift poly)^[k] c = mul poly w c ((shift poly)^[k] (unit w)) := by
  rw [mul_iterate, mul_unit]

/-- The unit after the shifts that the digits say, highest first. -/
def power (digits : List Bool) : BitVec w :=
  digits.foldl (fun p d => if d then shift poly (mul poly w p p) else mul poly w p p) (unit w)

/-- The number with the given digits. -/
def value (digits : List Bool) : Nat := digits.foldl (fun n d => 2 * n + d.toNat) 0

theorem power_eq (digits : List Bool) : power poly digits = (shift poly)^[value digits] (unit w) := by
  induction digits using List.reverseRecOn with
  | nil => rfl
  | append_singleton digits d ih =>
      have hdouble : mul poly w (power poly digits) (power poly digits) =
          (shift poly)^[2 * value digits] (unit w) := by
        rw [Nat.two_mul, Function.iterate_add_apply, iterate_eq_mul poly _ ((shift poly)^[_] (unit w)), ih]
      rw [power, List.foldl_append, ← power, value, List.foldl_append, ← value]
      dsimp only [List.foldl_cons, List.foldl_nil]
      rw [hdouble]
      cases d with
      | true =>
          rw [if_pos rfl, Bool.toNat_true, Function.iterate_succ_apply']
      | false => rfl

/-- The state after many shifts, by squaring. -/
theorem iterate_value (digits : List Bool) (c : BitVec w) :
    (shift poly)^[value digits] c = mul poly w c (power poly digits) := by
  rw [power_eq, ← iterate_eq_mul]

/-! ### Bytes -/

/-- One byte. -/
def feed (c : BitVec w) (b : UInt8) : BitVec w := (shift poly)^[8] (c ^^^ b.toBitVec.setWidth w)

/-- The register after some bytes. -/
def bytes (c : BitVec w) (bs : List UInt8) : BitVec w := bs.foldl (feed poly) c

theorem bytes_append (c : BitVec w) (as bs : List UInt8) :
    bytes poly c (as ++ bs) = bytes poly (bytes poly c as) bs := List.foldl_append

/-- The difference of two seeds is shifted along. -/
theorem bytes_xor (c d : BitVec w) (bs : List UInt8) :
    bytes poly (c ^^^ d) bs = bytes poly c bs ^^^ (shift poly)^[8 * bs.length] d := by
  induction bs generalizing c d with
  | nil => rfl
  | cons b bs ih =>
      have hfeed : feed poly (c ^^^ d) b = feed poly c b ^^^ (shift poly)^[8] d := by
        rw [feed, feed, ← iterate_shift_xor, BitVec.xor_assoc, BitVec.xor_comm d, ← BitVec.xor_assoc]
      rw [bytes, List.foldl_cons, hfeed, ← bytes, ih, ← Function.iterate_add_apply, List.length_cons,
        Nat.mul_succ]
      rfl

/-- Two seeds that are complements of one another give complements exactly when
their difference has come back. -/
theorem bytes_not_iff (bs : List UInt8) (c : BitVec w) :
    bytes poly c bs = ~~~ bytes poly (~~~ c) bs ↔
      (shift poly)^[8 * bs.length] (BitVec.allOnes w) = BitVec.allOnes w := by
  rw [← BitVec.xor_allOnes, ← BitVec.xor_allOnes, bytes_xor, BitVec.xor_assoc]
  constructor
  · intro h
    have hzero := congrArg (bytes poly c bs ^^^ ·) h
    rw [BitVec.xor_self, ← BitVec.xor_assoc, BitVec.xor_self, BitVec.zero_xor] at hzero
    exact BitVec.xor_eq_zero_iff.mp hzero.symm
  · intro h
    rw [h, BitVec.xor_self, BitVec.xor_zero]

/-! ### A change no longer than the register -/

/-- Some bytes, the first one lowest. -/
def pack (w : Nat) : List UInt8 → BitVec w
  | [] => 0#w
  | b :: bs => b.toBitVec.setWidth w ^^^ (pack w bs <<< 8)

theorem getLsbD_pack_high {bs : List UInt8} {i : Nat} (hi : 8 * bs.length ≤ i) :
    (pack w bs).getLsbD i = false := by
  induction bs generalizing i with
  | nil => exact BitVec.getLsbD_zero
  | cons b bs ih =>
      rw [List.length_cons] at hi
      rw [pack, BitVec.getLsbD_xor, BitVec.getLsbD_setWidth, BitVec.getLsbD_shiftLeft,
        BitVec.getLsbD_of_ge b.toBitVec i (by omega), ih (by omega)]
      simp

theorem bytes_eq_pack (c : BitVec w) {bs : List UInt8} (hlen : 8 * bs.length ≤ w) :
    bytes poly c bs = (shift poly)^[8 * bs.length] (c ^^^ pack w bs) := by
  induction bs generalizing c with
  | nil => simp [bytes, pack]
  | cons b bs ih =>
      rw [List.length_cons] at hlen
      have hlow : ∀ i < 8, (pack w bs <<< 8).getLsbD i = false := by
        intro i hi
        simp [BitVec.getLsbD_shiftLeft, hi]
      have hback : (shift poly)^[8] (pack w bs <<< 8) = pack w bs := by
        rw [iterate_shift_low poly hlow]
        refine BitVec.eq_of_getLsbD_eq fun i hi => ?_
        rw [BitVec.getLsbD_ushiftRight, BitVec.getLsbD_shiftLeft]
        rcases Nat.lt_or_ge (8 + i) w with hlt | hge
        · simp [hlt]
        · have hhigh : (pack w bs).getLsbD i = false := getLsbD_pack_high (by omega)
          simp [hhigh, Nat.not_lt.mpr hge]
      rw [bytes, List.foldl_cons, ← bytes, ih _ (by omega), pack, List.length_cons, Nat.mul_succ,
        Function.iterate_add_apply, feed]
      conv_lhs => rw [← hback, ← iterate_shift_xor]
      rw [BitVec.xor_assoc]

theorem pack_injective {as bs : List UInt8} (hlen : as.length = bs.length) (hfit : 8 * as.length ≤ w)
    (h : pack w as = pack w bs) : as = bs := by
  induction as generalizing bs with
  | nil => exact (List.eq_nil_of_length_eq_zero hlen.symm).symm
  | cons a as ih =>
      cases bs with
      | nil => cases hlen
      | cons b bs =>
          rw [List.length_cons] at hfit
          have hlens : as.length = bs.length := Nat.succ.inj hlen
          have hbit := fun i => congrArg (fun c : BitVec w => c.getLsbD i) h
          simp only [pack, BitVec.getLsbD_xor, BitVec.getLsbD_setWidth, BitVec.getLsbD_shiftLeft] at hbit
          have hhead : a.toBitVec = b.toBitVec := by
            refine BitVec.eq_of_getLsbD_eq fun i hi => ?_
            have hi' := hbit i
            simp only [hi, decide_true, Bool.not_true, Bool.and_false, Bool.false_and, Bool.xor_false,
              show i < w by omega, Bool.true_and] at hi'
            exact hi'
          have htail : pack w as = pack w bs := by
            refine BitVec.eq_of_getLsbD_eq fun i hi => ?_
            rcases Nat.lt_or_ge i (8 * as.length) with hlt | hge
            · have hi' := hbit (i + 8)
              rw [hhead] at hi'
              simpa [show i + 8 < w by omega] using hi'
            · rw [getLsbD_pack_high hge, getLsbD_pack_high (hlens ▸ hge)]
          rw [UInt8.toBitVec_inj.mp hhead, ih hlens (by omega) htail]

/-- Different states stay different over the same bytes. -/
theorem bytes_injective (hpoly : poly.getLsbD (w - 1) = true) (bs : List UInt8) {c d : BitVec w}
    (h : bytes poly c bs = bytes poly d bs) : c = d := by
  have hback : c ^^^ (c ^^^ d) = d := by rw [← BitVec.xor_assoc, BitVec.xor_self, BitVec.zero_xor]
  have hzero : (shift poly)^[8 * bs.length] (c ^^^ d) = (shift poly)^[8 * bs.length] 0#w := by
    have hdiff := congrArg (bytes poly c bs ^^^ ·) h
    rw [← hback, bytes_xor, BitVec.xor_self, ← BitVec.xor_assoc, BitVec.xor_self, BitVec.zero_xor] at hdiff
    rw [iterate_shift_zero]
    exact hdiff.symm
  exact BitVec.xor_eq_zero_iff.mp ((shift_injective poly hpoly).iterate _ hzero)

/-- Bytes that are changed within the width of the register leave it in another
state, whatever stands before and behind. -/
theorem bytes_burst_ne (hpoly : poly.getLsbD (w - 1) = true) (c : BitVec w) (front back : List UInt8)
    {as bs : List UInt8} (hlen : as.length = bs.length) (hfit : 8 * as.length ≤ w) (hne : as ≠ bs) :
    bytes poly c (front ++ (as ++ back)) ≠ bytes poly c (front ++ (bs ++ back)) := by
  intro h
  have hfit' : 8 * bs.length ≤ w := hlen ▸ hfit
  rw [bytes_append, bytes_append, bytes_append poly c front, bytes_append poly _ bs] at h
  have hmid := bytes_injective poly hpoly back h
  rw [bytes_eq_pack poly _ hfit, bytes_eq_pack poly _ hfit', ← hlen] at hmid
  have hxor := (shift_injective poly hpoly).iterate _ hmid
  have hpack := congrArg (bytes poly c front ^^^ ·) hxor
  rw [← BitVec.xor_assoc, ← BitVec.xor_assoc, BitVec.xor_self, BitVec.zero_xor, BitVec.zero_xor] at hpack
  exact hne (pack_injective hlen hfit hpack)

end ReflectedCrc
