import WirelessTsn.Esp32.Ota
import WirelessTsn.Lib.ReflectedCrc

/-!
Firmware on its way from the upload form to a node. The function node `process
upload` (`htsn-nodered/flow-production.json`) computes the CRC32 of a file and
`ota_verify_crc` (`shared/htsn_ota/htsn_ota.c`) that of the image that was
written. The two agree when the CRC routine of the ROM works on the bare register,
as the comment there has it; a routine that complements the register on its way in
and out starts from the complement of the seed, and then an intact image is taken
for a corrupted one.
-/

namespace ReflectedCrc

/-! ### CRC-32 -/

/-- The generator of CRC-32, its lowest power highest. -/
def crc32Poly : BitVec 32 := 0xEDB88320#32

/-- The digits of a number below `2 ^ 32`. -/
def digitsOf (n : Nat) : List Bool := (List.range 32).map fun i => n.testBit (31 - i)

theorem iterate_crc32 {n : Nat} (hn : value (digitsOf n) = n) :
    (shift crc32Poly)^[n] (BitVec.allOnes 32) =
      mul crc32Poly 32 (BitVec.allOnes 32) (power crc32Poly (digitsOf n)) := by
  conv_lhs => rw [← hn]
  exact iterate_value crc32Poly (digitsOf n) _

theorem prime_dvd_crc32 {p : Nat} (hp : p.Prime) (hdvd : p ∣ 2 ^ 32 - 1) :
    p ∈ [3, 5, 17, 257, 65537] := by
  have hfactors : 2 ^ 32 - 1 = 3 * 5 * 17 * 257 * 65537 := by norm_num
  have hone : ∀ q : Nat, q.Prime → p ∣ q → p = q := fun q hq h => (Nat.prime_dvd_prime_iff_eq hp hq).mp h
  rw [hfactors] at hdvd
  rcases hp.dvd_mul.mp hdvd with hdvd | h65537
  · rcases hp.dvd_mul.mp hdvd with hdvd | h257
    · rcases hp.dvd_mul.mp hdvd with hdvd | h17
      · rcases hp.dvd_mul.mp hdvd with h3 | h5
        · simp [hone 3 (by norm_num) h3]
        · simp [hone 5 (by norm_num) h5]
      · simp [hone 17 (by norm_num) h17]
    · simp [hone 257 (by norm_num) h257]
  · simp [hone 65537 (by norm_num) h65537]

/-- The register of CRC-32 has the longest period there is. -/
theorem crc32_period (k : Nat) :
    (shift crc32Poly)^[k] (BitVec.allOnes 32) = BitVec.allOnes 32 ↔ 2 ^ 32 - 1 ∣ k := by
  refine iterate_eq_iff_dvd ?_ (fun p hp hdvd => ?_) k
  · rw [iterate_crc32 (by decide)]
    decide +kernel
  · have hcheck : ∀ q ∈ [3, 5, 17, 257, 65537], value (digitsOf ((2 ^ 32 - 1) / q)) = (2 ^ 32 - 1) / q ∧
        mul crc32Poly 32 (BitVec.allOnes 32) (power crc32Poly (digitsOf ((2 ^ 32 - 1) / q))) ≠
          BitVec.allOnes 32 := by decide +kernel
    obtain ⟨hvalue, hne⟩ := hcheck p (prime_dvd_crc32 hp hdvd)
    rw [iterate_crc32 hvalue]
    exact hne

/-- Seeds that are complements of one another give complements over a message
exactly when its length is a multiple of the period. -/
theorem crc32_not_iff (bs : List UInt8) (c : BitVec 32) :
    bytes crc32Poly c bs = ~~~ bytes crc32Poly (~~~ c) bs ↔ 2 ^ 32 - 1 ∣ bs.length := by
  rw [bytes_not_iff, crc32_period]
  have hcoprime : Nat.Coprime (2 ^ 32 - 1) 8 := by decide
  exact hcoprime.dvd_mul_left

end ReflectedCrc

namespace Htsn.NodeRed

open CText ReflectedCrc Esp32

/-! ### The upload -/

/-- `c=(c>>>1)^(0xEDB88320&-(c&1))` -/
def uploadBit (c : BitVec 32) : BitVec 32 := (c >>> 1) ^^^ (0xEDB88320#32 &&& -(c &&& 1#32))

/-- The loop over the bytes of the file. -/
def uploadRegister (data : List UInt8) : BitVec 32 :=
  data.foldl (fun c b => uploadBit^[8] (c ^^^ b.toBitVec.setWidth 32)) 0xFFFFFFFF#32

/-- `n.toString(16)` -/
def toString16 (n : Nat) : CStr := Nat.toDigits 16 n

/-- `crc` of `process upload`: the last eight of eight zeros and the digits. -/
def uploadCrc (data : List UInt8) : CStr :=
  let text := "00000000".toList ++ toString16 (uploadRegister data ^^^ 0xFFFFFFFF#32).toNat
  text.drop (text.length - 8)

theorem uploadBit_eq (c : BitVec 32) : uploadBit c = shift crc32Poly c := by
  rw [uploadBit, shift, BitVec.and_one_eq_setWidth_ofBool_getLsbD]
  cases c.getLsbD 0 with
  | true => rfl
  | false => simp

theorem uploadRegister_eq (data : List UInt8) :
    uploadRegister data = bytes crc32Poly (BitVec.allOnes 32) data := by
  have hbit : uploadBit = shift crc32Poly := funext uploadBit_eq
  rw [uploadRegister, hbit]
  rfl

/-! ### Its text, read again -/

theorem hexVal_digitChar {d : Nat} (hd : d < 16) : hexVal (Nat.digitChar d) = some d := by
  have hall : ∀ k : Fin 16, hexVal (Nat.digitChar k) = some k.val := by decide
  exact hall ⟨d, hd⟩

theorem hexDigits_append {s : CStr} (hs : ∀ c ∈ s, (hexVal c).isSome) (t : CStr) (acc : Nat) :
    hexDigits (s ++ t) acc = hexDigits t (hexDigits s acc) := by
  induction s generalizing acc with
  | nil => rfl
  | cons c s ih =>
      obtain ⟨d, hd⟩ := Option.isSome_iff_exists.mp (hs c List.mem_cons_self)
      have hrest := ih (fun x hx => hs x (List.mem_cons_of_mem c hx)) (acc * 16 + d)
      simp only [List.cons_append, hexDigits, hd]
      exact hrest

theorem toString16_hex (n : Nat) : ∀ c ∈ toString16 n, (hexVal c).isSome := by
  induction n using Nat.strong_induction_on with
  | _ n ih =>
      rw [toString16, Nat.toDigits_eq_if (by decide)]
      split
      · next hlt =>
          intro c hc
          rw [List.mem_singleton.mp hc, hexVal_digitChar hlt]
          rfl
      · next hge =>
          intro c hc
          rcases List.mem_append.mp hc with hc | hc
          · exact ih (n / 16) (by omega) c hc
          · rw [List.mem_singleton.mp hc, hexVal_digitChar (Nat.mod_lt n (by decide))]
            rfl

theorem hexDigits_toString16 (n : Nat) : hexDigits (toString16 n) 0 = n := by
  induction n using Nat.strong_induction_on with
  | _ n ih =>
      rw [toString16, Nat.toDigits_eq_if (by decide)]
      split
      · next hlt => simp [hexDigits, hexVal_digitChar hlt]
      · next hge =>
          have hprev := ih (n / 16) (by omega)
          have hhex := toString16_hex (n / 16)
          rw [toString16] at hprev hhex
          rw [hexDigits_append hhex, hprev, hexDigits, hexVal_digitChar (Nat.mod_lt n (by decide))]
          exact Nat.div_add_mod' n 16

theorem hexDigits_zeros (k : Nat) (s : CStr) : hexDigits (List.replicate k '0' ++ s) 0 = hexDigits s 0 := by
  induction k with
  | zero => rfl
  | succ k ih => exact ih

theorem not_isSpace_of_hex {c : Char} (h : (hexVal c).isSome) : isSpace c = false := by
  by_contra hspace
  rw [Bool.not_eq_false, isSpace, Bool.or_eq_true, beq_iff_eq, Bool.and_eq_true, decide_eq_true_eq,
    decide_eq_true_eq] at hspace
  rcases hspace with rfl | ⟨-, hle⟩
  · exact absurd h (by decide)
  · have hcode : c.toNat ≤ 13 := hle
    have hlow : ∀ d : Char, '0' ≤ d ∨ 'a' ≤ d ∨ 'A' ≤ d → 13 < d.toNat := by
      rintro d (hd | hd | hd)
      · exact Nat.lt_of_lt_of_le (by decide) (show '0'.toNat ≤ d.toNat from hd)
      · exact Nat.lt_of_lt_of_le (by decide) (show 'a'.toNat ≤ d.toNat from hd)
      · exact Nat.lt_of_lt_of_le (by decide) (show 'A'.toNat ≤ d.toNat from hd)
    have hdigit : '0' ≤ c ∨ 'a' ≤ c ∨ 'A' ≤ c := by
      unfold hexVal at h
      split at h
      · next hrange => exact Or.inl hrange.1
      · split at h
        · next hrange => exact Or.inr (Or.inl hrange.1)
        · split at h
          · next hrange => exact Or.inr (Or.inr hrange.1)
          · cases h
    exact absurd hcode (Nat.not_le.mpr (hlow c hdigit))

theorem skipHexPrefix_hex {s : CStr} (hs : ∀ c ∈ s, (hexVal c).isSome) : skipHexPrefix s = s := by
  unfold skipHexPrefix
  split
  · next x d t =>
      have hx := hs x (by simp)
      rw [if_neg]
      rintro ⟨rfl | rfl, -⟩
      · exact absurd hx (by decide)
      · exact absurd hx (by decide)
  · rfl

/-- A text of digits alone has no sign, no blank and no prefix. -/
theorem strtoul16_hex {s : CStr} (hs : ∀ c ∈ s, (hexVal c).isSome) (hlt : hexDigits s 0 < 2 ^ 32) :
    strtoul16 s = UInt32.ofNat (hexDigits s 0) := by
  have hblank : s.dropWhile isSpace = s := by
    cases s with
    | nil => rfl
    | cons c s => exact List.dropWhile_cons_of_neg (by simp [not_isSpace_of_hex (hs c List.mem_cons_self)])
  have hread : (if hexDigits (skipHexPrefix s) 0 ≥ 2 ^ 32 then (0xFFFFFFFF : UInt32)
      else UInt32.ofNat (hexDigits (skipHexPrefix s) 0)) = UInt32.ofNat (hexDigits s 0) := by
    rw [skipHexPrefix_hex hs, if_neg (Nat.not_le.mpr hlt)]
  unfold strtoul16
  rw [hblank]
  dsimp only
  split
  · exact absurd (hs '-' List.mem_cons_self) (by decide)
  · exact absurd (hs '+' List.mem_cons_self) (by decide)
  · exact hread

theorem strtoul16_uploadCrc (data : List UInt8) :
    (strtoul16 (uploadCrc data)).toBitVec = ~~~ bytes crc32Poly (BitVec.allOnes 32) data := by
  have hvalue : uploadRegister data ^^^ 0xFFFFFFFF#32 = ~~~ bytes crc32Poly (BitVec.allOnes 32) data := by
    rw [uploadRegister_eq, ← BitVec.xor_allOnes]
    rfl
  have hlt := (~~~ bytes crc32Poly (BitVec.allOnes 32) data).isLt
  have hlen : (toString16 (~~~ bytes crc32Poly (BitVec.allOnes 32) data).toNat).length ≤ 8 :=
    (Nat.length_toDigits_le_iff (by decide) (by decide)).mpr hlt
  have htext : uploadCrc data =
      List.replicate (8 - (toString16 (~~~ bytes crc32Poly (BitVec.allOnes 32) data).toNat).length) '0' ++
        toString16 (~~~ bytes crc32Poly (BitVec.allOnes 32) data).toNat := by
    have hzeros : "00000000".toList = List.replicate 8 '0' := by decide
    rw [uploadCrc, hvalue, hzeros, List.length_append, List.length_replicate, Nat.add_sub_cancel_left,
      List.drop_append_of_le_length (by rw [List.length_replicate]; exact hlen), List.drop_replicate]
  have hhex : ∀ c ∈ uploadCrc data, (hexVal c).isSome := by
    rw [htext]
    intro c hc
    rcases List.mem_append.mp hc with hc | hc
    · rw [List.eq_of_mem_replicate hc]
      rfl
    · exact toString16_hex _ c hc
  have hdigits : hexDigits (uploadCrc data) 0 = (~~~ bytes crc32Poly (BitVec.allOnes 32) data).toNat := by
    rw [htext, hexDigits_zeros, hexDigits_toString16]
  rw [strtoul16_hex hhex (hdigits ▸ hlt), hdigits]
  exact BitVec.ofNat_toNat _ _

/-! ### The image -/

/-- The CRC routine of the ROM over the register `c`: with or without the
complements. -/
def romRegister (complements : Bool) (c : BitVec 32) (bs : List UInt8) : BitVec 32 :=
  if complements then ~~~ bytes crc32Poly (~~~ c) bs else bytes crc32Poly c bs

/-- Either way a message may come in pieces. -/
theorem romRegister_append (complements : Bool) (c : BitVec 32) (as bs : List UInt8) :
    romRegister complements c (as ++ bs) = romRegister complements (romRegister complements c as) bs := by
  cases complements with
  | true => simp only [romRegister, if_true, BitVec.not_not, bytes_append]
  | false => exact bytes_append crc32Poly c as bs

/-- `image` stands in the update partition and can be read from there; its header
says how long it is. -/
structure Written (env : OtaEnv) (part : OtaPartition) (image : List UInt8) : Prop where
  found : env.part = some part
  reads : ∀ i, env.readOk i = true
  stored : part.bytes 0 image.length = image
  magic : part.byte 0 = 0xE9
  size : part.imgSize.toNat = image.length
  fits : part.imgSize ≤ part.size
  nonempty : image ≠ []

/-- The CRC routine of an environment is that of the ROM. -/
def UsesRom (env : OtaEnv) (complements : Bool) : Prop :=
  ∀ state bs, (env.crc32 state bs).toBitVec = romRegister complements state.toBitVec bs

theorem partition_bytes_add (part : OtaPartition) (off n m : Nat) :
    part.bytes off (n + m) = part.bytes off n ++ part.bytes (off + n) m := by
  simp [OtaPartition.bytes, List.range_add, Function.comp_def, Nat.add_assoc]

/-- The pieces of 4096 bytes are the image. -/
theorem crcLoop_readable {env : OtaEnv} {part : OtaPartition} {complements : Bool}
    (hrom : UsesRom env complements) (hreads : ∀ i, env.readOk i = true) {size reads off : Nat}
    {state : UInt32} :
    crcLoop env part size reads off state =
      some ⟨romRegister complements state.toBitVec (part.bytes off (size - off))⟩ := by
  fun_induction crcLoop env part size reads off state with
  | case1 reads off state hlt n hok ih =>
      have hsplit : size - off = n + (size - (off + n)) := by omega
      rw [ih, hrom, ← romRegister_append, hsplit, partition_bytes_add]
  | case2 reads off state hlt hok => exact absurd (hreads reads) hok
  | case3 reads off state hge =>
      have hnone : size - off = 0 := by omega
      rw [hnone]
      cases complements with
      | true => simp [romRegister, OtaPartition.bytes, bytes]
      | false => rfl

/-- What is compared with the CRC of the upload. -/
theorem otaCheck_written {env : OtaEnv} {part : OtaPartition} {image : List UInt8} {complements : Bool}
    (hrom : UsesRom env complements) (h : Written env part image) :
    otaCheck env =
      .compared ⟨~~~ romRegister complements (BitVec.allOnes 32) image⟩ := by
  have hpos : part.imgSize ≠ 0 := by
    intro hzero
    have hsize := h.size
    rw [hzero] at hsize
    exact h.nonempty (List.eq_nil_of_length_eq_zero hsize.symm)
  have hloop : crcLoop env part part.imgSize.toNat 1 0 0xFFFFFFFF =
      some ⟨romRegister complements (BitVec.allOnes 32) image⟩ := by
    rw [crcLoop_readable hrom h.reads, h.size, Nat.sub_zero, h.stored]
    rfl
  rw [otaCheck, h.found]
  dsimp only
  rw [if_neg (by simp [h.reads, h.magic]), if_neg (by simp [hpos, UInt32.not_lt.mpr h.fits]), hloop]
  dsimp only
  rw [← BitVec.xor_allOnes]
  rfl

/-- A comparison that succeeds has found the expected number. -/
theorem otaVerifyCrc_ok_iff {env : OtaEnv} {part : OtaPartition} {image : List UInt8} {complements : Bool}
    (hrom : UsesRom env complements) (h : Written env part image) (hex : CStr) (boot : OtaSlot) :
    (otaVerifyCrc env hex boot).1 = .ok ↔
      (⟨~~~ romRegister complements (BitVec.allOnes 32) image⟩ : UInt32) = strtoul16 hex := by
  rw [otaVerifyCrc, otaCheck_written hrom h]
  dsimp only
  split
  · next hne => exact iff_of_false (by simp) hne
  · next heq => exact iff_of_true rfl (not_not.mp heq)

/-- The image that was uploaded and written unchanged passes the check if the CRC
routine of the ROM works on the bare register. If it complements the register on
its way in and out, no image passes but one of `2 ^ 32 - 1` bytes. -/
theorem upload_passes_iff {env : OtaEnv} {part : OtaPartition} {data : List UInt8} {complements : Bool}
    (hrom : UsesRom env complements) (h : Written env part data) (boot : OtaSlot) :
    (otaVerifyCrc env (uploadCrc data) boot).1 = .ok ↔ complements = false ∨ data.length = 2 ^ 32 - 1 := by
  have hlen : data.length < 2 ^ 32 := h.size ▸ part.imgSize.toNat_lt
  have hpos : 0 < data.length := List.length_pos_of_ne_nil h.nonempty
  rw [otaVerifyCrc_ok_iff hrom h, ← UInt32.toBitVec_inj, strtoul16_uploadCrc, BitVec.not_inj]
  cases complements with
  | false => simp [romRegister]
  | true =>
      have hperiod := crc32_not_iff data (BitVec.allOnes 32)
      rw [romRegister, if_pos rfl, eq_comm, hperiod]
      constructor
      · exact fun hdvd => Or.inr (by have hle := Nat.le_of_dvd hpos hdvd; omega)
      · rintro (hfalse | hfull)
        · cases hfalse
        · rw [hfull]

/-- An image of 13 bytes, as its header says, without the last one. -/
def tinyFront : List UInt8 := [0xE9, 1, 2, 3, 4, 5, 6, 7, 13, 0, 0, 0]

/-- A partition with an image at its start. -/
def holding (image : List UInt8) : OtaPartition := ⟨4096, fun i => image.getD i 0xFF⟩

/-- Everything can be read, and the routine of the ROM complements. -/
def romEnv (image : List UInt8) : OtaEnv where
  crc32 state bs := ⟨romRegister true state.toBitVec bs⟩
  begin := .ok
  perform := .ok
  finish := .ok
  part := some (holding image)
  readOk _ := true
  runningFound := true
  setBootOk := true

theorem romEnv_usesRom (image : List UInt8) : UsesRom (romEnv image) true := fun _ _ => rfl

theorem tiny_imgSize (last : UInt8) : (holding (tinyFront ++ ([last] ++ []))).imgSize = 13 := by
  have hheader : (holding (tinyFront ++ ([last] ++ []))).imgSize =
      (13 : UInt8).toUInt32 ||| ((0 : UInt8).toUInt32 <<< 8) ||| ((0 : UInt8).toUInt32 <<< 16) |||
        ((0 : UInt8).toUInt32 <<< 24) := rfl
  rw [hheader]
  decide

theorem tiny_written (last : UInt8) :
    Written (romEnv (tinyFront ++ ([last] ++ []))) (holding (tinyFront ++ ([last] ++ [])))
      (tinyFront ++ ([last] ++ [])) where
  found := rfl
  reads _ := rfl
  stored := rfl
  magic := rfl
  size := by
    rw [tiny_imgSize]
    rfl
  fits := by
    rw [tiny_imgSize]
    exact (by decide : (13 : UInt32) ≤ 4096)
  nonempty := nofun

theorem tiny_passes_iff :
    (otaVerifyCrc (romEnv (tinyFront ++ ([9] ++ []))) (uploadCrc (tinyFront ++ ([9] ++ []))) .update).1 = .ok ↔
      true = false ∨ (tinyFront ++ ([9] ++ [])).length = 2 ^ 32 - 1 :=
  upload_passes_iff (romEnv_usesRom _) (tiny_written 9) .update

/-- Of an image and a version of it that was changed within four bytes at most one
passes the check, whatever it is checked against and whatever the ROM does. -/
theorem changed_image_told_apart {env env' : OtaEnv} {part part' : OtaPartition}
    {front as bs back : List UInt8} {complements : Bool} (hrom : UsesRom env complements)
    (hrom' : UsesRom env' complements) (h : Written env part (front ++ (as ++ back)))
    (h' : Written env' part' (front ++ (bs ++ back))) (hlen : as.length = bs.length)
    (hfit : as.length ≤ 4) (hne : as ≠ bs) (hex : CStr) (boot : OtaSlot) :
    ¬ ((otaVerifyCrc env hex boot).1 = .ok ∧ (otaVerifyCrc env' hex boot).1 = .ok) := by
  have hburst := fun seed => bytes_burst_ne crc32Poly (by decide) seed front back hlen (by omega) hne
  have hregister : romRegister complements (BitVec.allOnes 32) (front ++ (as ++ back)) ≠
      romRegister complements (BitVec.allOnes 32) (front ++ (bs ++ back)) := by
    cases complements with
    | true => exact fun heq => hburst _ (BitVec.not_inj.mp heq)
    | false => exact hburst _
  rintro ⟨hok, hok'⟩
  have heq := (otaVerifyCrc_ok_iff hrom h hex boot).mp hok
  have heq' := (otaVerifyCrc_ok_iff hrom' h' hex boot).mp hok'
  exact hregister (BitVec.not_inj.mp (congrArg UInt32.toBitVec (heq.trans heq'.symm)))

theorem tiny_told_apart :
    ¬ ((otaVerifyCrc (romEnv (tinyFront ++ ([9] ++ []))) "1C291CA3".toList .update).1 = .ok ∧
      (otaVerifyCrc (romEnv (tinyFront ++ ([10] ++ []))) "1C291CA3".toList .update).1 = .ok) :=
  changed_image_told_apart (romEnv_usesRom _) (romEnv_usesRom _) (tiny_written 9) (tiny_written 10) rfl
    (by decide) (by decide) _ _

end Htsn.NodeRed
