import Mathlib.Data.Nat.Digits.Defs
import Mathlib.Tactic

/-!
Numbers as big-endian bytes. Bytes are natural numbers here, so that the fixed
widths of a program enter only where it shifts them into place.
-/

namespace BigEndian

/-- The last `k` bytes of a number. -/
def bytes : Nat → Nat → List Nat
  | 0, _ => []
  | k + 1, n => n / 256 ^ k % 256 :: bytes k n

/-- The number with the bytes. -/
def value (ds : List Nat) : Nat := ds.foldl (fun v d => 256 * v + d) 0

variable {ds es : List Nat} {k n : Nat}

theorem length_bytes (k n : Nat) : (bytes k n).length = k := by
  induction k with
  | zero => rfl
  | succ k ih => rw [bytes, List.length_cons, ih]

theorem bytes_lt : ∀ d ∈ bytes k n, d < 256 := by
  induction k with
  | zero => nofun
  | succ k ih => exact List.forall_mem_cons.mpr ⟨Nat.mod_lt _ (by decide), ih⟩

theorem value_eq_ofDigits (ds : List Nat) : value ds = Nat.ofDigits 256 ds.reverse := by
  rw [Nat.ofDigits_eq_foldr, List.foldr_reverse, value]
  congr 1
  funext v d
  exact Nat.add_comm _ _

theorem value_lt (h : ∀ d ∈ ds, d < 256) : value ds < 256 ^ ds.length := by
  rw [value_eq_ofDigits, ← List.length_reverse]
  exact Nat.ofDigits_lt_base_pow_length (by decide) fun d hd => h d (List.mem_reverse.mp hd)

theorem value_cons (d : Nat) (ds : List Nat) : value (d :: ds) = 256 ^ ds.length * d + value ds := by
  rw [value_eq_ofDigits, value_eq_ofDigits, List.reverse_cons, Nat.ofDigits_append, List.length_reverse,
    Nat.ofDigits_singleton, Nat.add_comm]

theorem value_concat (ds : List Nat) (d : Nat) : value (ds ++ [d]) = 256 * value ds + d := List.foldl_append

/-- Numbers with as many bytes have the same bytes if they are the same. -/
theorem value_inj (hlen : ds.length = es.length) (hds : ∀ d ∈ ds, d < 256) (hes : ∀ d ∈ es, d < 256)
    (h : value ds = value es) : ds = es := by
  rw [value_eq_ofDigits, value_eq_ofDigits] at h
  apply List.reverse_injective
  apply Nat.ofDigits_inj_of_len_eq (b := 256) (by decide) (by simpa using hlen) _ _ h
  · exact fun d hd => hds d (List.mem_reverse.mp hd)
  · exact fun d hd => hes d (List.mem_reverse.mp hd)

/-- The bytes of a number give it back, less what they have no room for. -/
theorem value_bytes (k n : Nat) : value (bytes k n) = n % 256 ^ k := by
  induction k with
  | zero => exact (Nat.mod_one n).symm
  | succ k ih =>
      rw [bytes, value_cons, length_bytes, ih, Nat.mod_pow_succ]
      omega

theorem value_bytes_of_lt (h : n < 256 ^ k) : value (bytes k n) = n := by rw [value_bytes, Nat.mod_eq_of_lt h]

/-- A number made of bytes gives them back. -/
theorem bytes_value (h : ∀ d ∈ ds, d < 256) : bytes ds.length (value ds) = ds := by
  apply value_inj (length_bytes _ _) bytes_lt h
  exact value_bytes_of_lt (value_lt h)

/-! ### Bytes shifted into place -/

/-- A number below the bits that another one is shifted over. -/
theorem toNat_shift_or {w : Nat} {hi lo : BitVec w} {k : Nat} (hlo : lo.toNat < 2 ^ k)
    (hhi : hi.toNat * 2 ^ k < 2 ^ w) : (hi <<< k ||| lo).toNat = hi.toNat * 2 ^ k + lo.toNat := by
  rw [BitVec.toNat_or, BitVec.toNat_shiftLeft, Nat.shiftLeft_eq, Nat.mod_eq_of_lt hhi, ← Nat.shiftLeft_eq,
    ← Nat.shiftLeft_add_eq_or_of_lt hlo]

/-- A loop that shifts bytes in from the right. -/
def shiftIn (w : Nat) (bs : List (BitVec 8)) : BitVec w := bs.foldl (fun v b => v <<< 8 ||| b.setWidth w) 0

theorem toNat_shiftIn {w : Nat} {bs : List (BitVec 8)} (h : 8 * bs.length ≤ w) :
    (shiftIn w bs).toNat = value (bs.map BitVec.toNat) := by
  induction bs using List.reverseRecOn with
  | nil => exact BitVec.toNat_zero
  | append_singleton bs b ih =>
      rw [List.length_append, List.length_singleton] at h
      have hfront := ih (by omega)
      have hsmall : value (bs.map BitVec.toNat) < 256 ^ bs.length := by
        rw [← List.length_map BitVec.toNat]
        apply value_lt
        intro d hd
        obtain ⟨c, -, rfl⟩ := List.mem_map.mp hd
        exact c.isLt
      have hbyte : (b.setWidth w).toNat = b.toNat := by
        rw [BitVec.toNat_setWidth]
        exact Nat.mod_eq_of_lt (b.isLt.trans_le (Nat.pow_le_pow_right (by decide) (by omega)))
      have hroom : 256 ^ bs.length * 2 ^ 8 ≤ 2 ^ w := by
        calc 256 ^ bs.length * 2 ^ 8 = (2 ^ 8) ^ bs.length * 2 ^ 8 := rfl
          _ = 2 ^ (8 * bs.length + 8) := by rw [pow_add, pow_mul]
          _ ≤ 2 ^ w := Nat.pow_le_pow_right (by decide) (by omega)
      have hstep : shiftIn w (bs ++ [b]) = shiftIn w bs <<< 8 ||| b.setWidth w := List.foldl_append
      rw [hstep, toNat_shift_or, hfront, hbyte, List.map_append,
        List.map_singleton, value_concat, Nat.mul_comm]
      · rfl
      · rw [hbyte]
        exact b.isLt
      · rw [hfront]
        exact (Nat.mul_lt_mul_of_pos_right hsmall (by decide)).trans_le hroom

end BigEndian
