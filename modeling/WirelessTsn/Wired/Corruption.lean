import WirelessTsn.Wired.Frame

/-!
What the frame's CRC detects. Bits are taken in the order in which the CRC
reads them, the most significant of each byte first; an error is the list of
the bits it flips.
-/

namespace Htsn

/-- The bits of a byte, the most significant first. -/
def byteBits (d : Byte) : List Bool :=
  [d.getLsbD 7, d.getLsbD 6, d.getLsbD 5, d.getLsbD 4, d.getLsbD 3, d.getLsbD 2, d.getLsbD 1,
    d.getLsbD 0]

def toBits (bs : List Byte) : List Bool := bs.flatMap byteBits

/-- The bits in which two byte strings differ. -/
def flips (sent received : List Byte) : List Bool :=
  List.zipWith (· ^^ ·) (toBits sent) (toBits received)

/-- The two length bytes, bits 24 to 39, are as they were sent. -/
def LengthUntouched (error : List Bool) : Prop :=
  (error.drop 24).take 16 = List.replicate 16 false

/-- A burst of at most 16 bits in bytes 0 to 2 or in the payload. -/
def ShortBurst (len : Nat) (error : List Bool) : Prop :=
  ∃ i burst r, error = List.replicate i false ++ burst ++ List.replicate r false ∧
    burst.length ≤ 16 ∧ true ∈ burst ∧
    (i + burst.length ≤ 24 ∨ 40 ≤ i ∧ i + burst.length ≤ 40 + 8 * len)

/-! ### The byte loop is the bit-serial division -/

theorem crcRound_eq_shift (poly c : BitVec 16) : crcRound poly c = Crc.shift poly c := by
  have hmask : (c &&& 0x8000#16) = if c.getLsbD 15 then BitVec.twoPow 16 15 else 0 :=
    BitVec.and_twoPow c 15
  rw [crcRound, Crc.shift, hmask, BitVec.msb_eq_getLsbD_last]
  cases c.getLsbD 15 <;> rfl

theorem top_byteBits (d : Byte) : Crc.top 16 (byteBits d) = d.setWidth 16 <<< 8 := by
  apply BitVec.eq_of_getLsbD_eq
  intro i hi
  rw [Crc.getLsbD_top]
  interval_cases i <;> simp [byteBits]

theorem crcByte_eq_bits (poly c : BitVec 16) (d : Byte) :
    crcByte poly c d = Crc.bits poly c (byteBits d) := by
  have hround : crcRound poly = Crc.shift poly := funext (crcRound_eq_shift poly)
  rw [crcByte, hround, Crc.bits_eq_iterate poly c (by simp [byteBits]),
    top_byteBits]
  rfl

theorem foldl_crcByte (poly c : BitVec 16) (data : List Byte) :
    data.foldl (crcByte poly) c = Crc.bits poly c (toBits data) := by
  induction data generalizing c with
  | nil => rfl
  | cons d data ih =>
      rw [List.foldl_cons, ih, crcByte_eq_bits, toBits, toBits, List.flatMap_cons,
        Crc.bits_append]

theorem htsnCrc16_eq_bits (data : List Byte) :
    Rpi.htsnCrc16 data = Crc.bits 0x1021#16 0xFFFF#16 (toBits data) :=
  foldl_crcByte _ _ data

/-! ### Errors, byte by byte -/

@[simp] theorem toBits_length (bs : List Byte) : (toBits bs).length = 8 * bs.length := by
  induction bs with
  | nil => rfl
  | cons b bs ih =>
      rw [toBits, List.flatMap_cons, List.length_append, ← toBits, ih, List.length_cons]
      simp only [byteBits, List.length_cons, List.length_nil]
      omega

theorem byteBits_xor (a b : Byte) :
    byteBits (a ^^^ b) = List.zipWith (· ^^ ·) (byteBits a) (byteBits b) := by
  simp [byteBits]

theorem flips_cons (a b : Byte) (as bs : List Byte) :
    flips (a :: as) (b :: bs) = byteBits (a ^^^ b) ++ flips as bs := by
  rw [flips, flips, byteBits_xor, toBits, toBits, List.flatMap_cons, List.flatMap_cons,
    List.zipWith_append (by rfl)]
  rfl

theorem flips_append {as bs : List Byte} (as' bs' : List Byte) (h : as.length = bs.length) :
    flips (as ++ as') (bs ++ bs') = flips as bs ++ flips as' bs' := by
  induction as generalizing bs with
  | nil =>
      rw [List.length_eq_zero_iff.mp h.symm]
      rfl
  | cons a as ih =>
      cases bs with
      | nil => simp at h
      | cons b bs =>
          rw [List.cons_append, List.cons_append, flips_cons, flips_cons,
            ih (by simpa using h), List.append_assoc]

theorem flips_two {as bs : List Byte} (a0 a1 b0 b1 : Byte) (h : as.length = bs.length) :
    flips (as ++ [a0, a1]) (bs ++ [b0, b1]) =
      flips as bs ++ (byteBits (a0 ^^^ b0) ++ byteBits (a1 ^^^ b1)) := by
  rw [flips_append _ _ h, flips_cons, flips_cons, show flips [] [] = [] from rfl, List.append_nil]

theorem flips_length {as bs : List Byte} (h : as.length = bs.length) :
    (flips as bs).length = 8 * as.length := by
  simp [flips, h]

theorem byteBits_clear {d : Byte} (h : true ∉ byteBits d) : d = 0 := by
  have hall : ∀ d : Byte, true ∉ byteBits d → d = 0 := by
    decide +kernel
  exact hall d h

theorem eq_of_byteBits_clear {a b : Byte} (h : true ∉ byteBits (a ^^^ b)) : a = b := by
  have hzero := byteBits_clear h
  simpa [BitVec.xor_assoc] using congrArg (· ^^^ b) hzero

theorem lengthUntouched_header {m m' t t' k k' l0 l0' l1 l1' : Byte} {as bs : List Byte}
    (h : LengthUntouched
      (flips (m :: t :: k :: l0 :: l1 :: as) (m' :: t' :: k' :: l0' :: l1' :: bs))) :
    l0 = l0' ∧ l1 = l1' := by
  have hfield : byteBits (l0 ^^^ l0') ++ byteBits (l1 ^^^ l1') = List.replicate 16 false := by
    rw [← h]
    simp only [flips_cons, byteBits, List.cons_append, List.nil_append, List.drop_succ_cons,
      List.drop_zero, List.take_succ_cons, List.take_zero]
  have hclear : true ∉ byteBits (l0 ^^^ l0') ++ byteBits (l1 ^^^ l1') := by
    rw [hfield]
    decide
  rw [List.mem_append, not_or] at hclear
  exact ⟨eq_of_byteBits_clear hclear.1, eq_of_byteBits_clear hclear.2⟩

/-! ### The CRC field of an error -/

theorem le16_xor (a b c d : Byte) : le16 a b ^^^ le16 c d = le16 (a ^^^ c) (b ^^^ d) := by
  apply BitVec.eq_of_getLsbD_eq
  intro i hi
  simp only [le16, BitVec.getLsbD_or, BitVec.getLsbD_xor, BitVec.getLsbD_setWidth,
    BitVec.getLsbD_shiftLeft]
  by_cases hlow : i < 8
  · simp [hlow, hi, -BitVec.getLsbD_eq_getElem]
  · have hout : ∀ d : Byte, d.getLsbD i = false := fun d => BitVec.getLsbD_of_ge _ _ (by omega)
    simp [hlow, hi, hout, show i - 8 < 16 by omega, -BitVec.getLsbD_eq_getElem]

/-- The error's low CRC byte comes first on the wire. -/
theorem weight_le16 (x y : Byte) :
    Crc.weight (le16 x y) = (((byteBits x ++ byteBits y).count true : Nat) : ZMod 2) := by
  have hbyte : ∀ z : Byte, Crc.weight (z.setWidth 16) = ((byteBits z).count true : ZMod 2) ∧
      Crc.weight (z.setWidth 16 <<< 8) = ((byteBits z).count true : ZMod 2) := by
    decide +kernel
  have hor : le16 x y = x.setWidth 16 ^^^ (y.setWidth 16 <<< 8) := by
    have h := le16_xor x 0 0 y
    simpa [le16] using h.symm
  rw [hor, Crc.weight_xor, (hbyte x).1, (hbyte y).2, List.count_append, Nat.cast_add]

theorem twoPow_of_count_one {x y : Byte} (h : (byteBits x ++ byteBits y).count true = 1) :
    ∃ p, p < 16 ∧ le16 x y = BitVec.twoPow 16 p := by
  have hone : ∀ z : Byte, (byteBits z).count true = 1 →
      (∃ p, p < 8 ∧ z.setWidth 16 = BitVec.twoPow 16 p) ∧
      ∃ p, p < 16 ∧ z.setWidth 16 <<< 8 = BitVec.twoPow 16 p := by
    decide +kernel
  rw [List.count_append] at h
  have hcases : (byteBits x).count true = 1 ∧ (byteBits y).count true = 0 ∨
      (byteBits x).count true = 0 ∧ (byteBits y).count true = 1 := by omega
  rcases hcases with ⟨hx, hy⟩ | ⟨hx, hy⟩
  · obtain ⟨p, hp, hpow⟩ := (hone x hx).1
    rw [byteBits_clear (List.count_eq_zero.mp hy)]
    exact ⟨p, by omega, by simpa [le16] using hpow⟩
  · obtain ⟨p, hp, hpow⟩ := (hone y hy).2
    rw [byteBits_clear (List.count_eq_zero.mp hx)]
    exact ⟨p, hp, by simpa [le16] using hpow⟩

/-! ### No detectable error has the remainder its CRC field would need -/

theorem poly_odd : (0x1021#16).getLsbD 0 = true := rfl

theorem poly_weight : Crc.weight 0x1021#16 = 1 := by
  decide +kernel

/-- The root's powers up to the longest frame are distinct. -/
theorem poly_orbit : Crc.avoidsOne 0x1021#16 3128 1#16 = true := by
  decide +kernel

theorem syndrome_odd {error : List Bool} {x y : Byte}
    (h : Odd ((error ++ (byteBits x ++ byteBits y)).count true)) :
    Crc.bits 0x1021#16 0#16 error ≠ le16 x y := by
  intro heq
  have hweight := congrArg Crc.weight heq
  rw [Crc.weight_bits _ (by decide) poly_weight, weight_le16] at hweight
  have hzero : Crc.weight 0#16 = 0 := by simp [Crc.weight]
  rw [hzero, zero_add] at hweight
  have htotal : (((error ++ (byteBits x ++ byteBits y)).count true : Nat) : ZMod 2) = 0 := by
    rw [List.count_append, Nat.cast_add, hweight, CharTwo.add_self_eq_zero]
  have heven : Even ((error ++ (byteBits x ++ byteBits y)).count true) :=
    (ZMod.natCast_eq_zero_iff_even).mp htotal
  exact (Nat.not_even_iff_odd.mpr h) heven

/-- Both flips before the CRC field, one on each side, or both in it. -/
theorem syndrome_two {error : List Bool} {x y : Byte} (hlen : error.length ≤ 3112)
    (h : (error ++ (byteBits x ++ byteBits y)).count true = 2) :
    Crc.bits 0x1021#16 0#16 error ≠ le16 x y := by
  intro heq
  rw [List.count_append] at h
  have hcases : error.count true = 2 ∧ (byteBits x ++ byteBits y).count true = 0 ∨
      error.count true = 1 ∧ (byteBits x ++ byteBits y).count true = 1 ∨
      error.count true = 0 ∧ (byteBits x ++ byteBits y).count true = 2 := by omega
  have hclear : (byteBits x ++ byteBits y).count true = 0 → le16 x y = 0 := by
    intro hzero
    have hmem := List.count_eq_zero.mp hzero
    rw [List.mem_append, not_or] at hmem
    rw [byteBits_clear hmem.1, byteBits_clear hmem.2]
    rfl
  rcases hcases with ⟨htwo, hzero⟩ | ⟨hone, hfield⟩ | ⟨hnone, hfield⟩
  · rw [hclear hzero] at heq
    exact Crc.bits_two_flips_ne_zero _ (by decide) poly_odd poly_orbit (by omega) htwo heq
  · obtain ⟨r, hr, hbits⟩ := Crc.bits_one_flip 0x1021#16 (by decide) hone
    obtain ⟨p, hp, hpow⟩ := twoPow_of_count_one hfield
    rw [hbits, hpow, ← Crc.iterate_shift_one 0x1021#16 hp] at heq
    have hsame := Crc.iterate_shift_one_inj _ poly_odd poly_orbit (by omega) (by omega) heq
    omega
  · rw [Crc.eq_replicate_false hnone, Crc.bits_replicate_false, Crc.iterate_shift_zero] at heq
    have hx : x = lo8 0#16 := by rw [heq, lo8_le16]
    have hy : y = hi8 0#16 := by rw [heq, hi8_le16]
    subst hx hy
    exact absurd hfield (by decide)

/-- A burst that ends before the CRC field. -/
theorem syndrome_burst {error : List Bool} {x y : Byte} {i r : Nat} {burst : List Bool}
    (heq : error ++ (byteBits x ++ byteBits y) =
      List.replicate i false ++ burst ++ List.replicate r false)
    (hlen : burst.length ≤ 16) (hmem : true ∈ burst) (hend : i + burst.length ≤ error.length) :
    Crc.bits 0x1021#16 0#16 error ≠ le16 x y := by
  obtain ⟨rest, hrest, hfield⟩ : ∃ rest,
      error = List.replicate i false ++ burst ++ rest ∧
      rest ++ (byteBits x ++ byteBits y) = List.replicate r false := by
    rcases List.append_eq_append_iff.mp heq with ⟨as, hleft, hright⟩ | ⟨as, hleft, hright⟩
    · have hnil : as = [] := by
        have hcount := congrArg List.length hleft
        simp only [List.length_append, List.length_replicate] at hcount
        exact List.length_eq_zero_iff.mp (by omega)
      subst hnil
      exact ⟨[], by simpa using hleft.symm, by simpa using hright⟩
    · exact ⟨as, hleft, hright.symm⟩
  obtain ⟨_, hrestClear, htail⟩ := List.append_eq_replicate_iff.mp hfield
  obtain ⟨_, hx, hy⟩ := List.append_eq_replicate_iff.mp htail
  have hxc : x = 0 := byteBits_clear (by rw [hx]; simp)
  have hyc : y = 0 := byteBits_clear (by rw [hy]; simp)
  intro hzero
  rw [hrest, hrestClear, hxc, hyc] at hzero
  exact Crc.bits_burst_ne_zero _ poly_odd _ _ hlen hmem hzero

/-- The remainder of what is flipped in front of the CRC field is what is
flipped in it, when both frames carry the CRC of their bytes. -/
theorem syndrome_of_accepted {sent received : List Byte} {c0 c1 d0 d1 : Byte}
    (hlen : sent.length = received.length) (hsent : Rpi.htsnCrc16 sent = le16 c0 c1)
    (hreceived : Rpi.htsnCrc16 received = le16 d0 d1) :
    Crc.bits 0x1021#16 0#16 (flips sent received) = le16 (c0 ^^^ d0) (c1 ^^^ d1) := by
  rw [← le16_xor, ← hsent, ← hreceived, htsnCrc16_eq_bits, htsnCrc16_eq_bits,
    ← Crc.bits_zipWith _ _ _ (by simp [hlen])]
  rfl

/-- A corrupted frame is rejected: the length bytes are as sent, and an odd
number of bits or two bits are flipped, or a short burst in front of the
length bytes or in the payload. -/
theorem corrupted_frame_rejected {type kind : Byte} {payload frame received : List Byte}
    (hpack : Rpi.htsnFramePack type kind payload = some frame)
    (hlen : received.length = frame.length)
    (huntouched : LengthUntouched (flips frame received))
    (herror : Odd ((flips frame received).count true) ∨
      (flips frame received).count true = 2 ∨ ShortBurst payload.length (flips frame received)) :
    Rpi.htsnFrameUnpack received = none ∧ Stm32.htsnFrameUnpack received = none := by
  rw [frame_codecs_same.2, and_self]
  obtain ⟨hmax, rfl⟩ := framePack_eq_some.mp hpack
  by_contra haccept
  obtain ⟨u, hu⟩ := Option.ne_none_iff_exists'.mp haccept
  obtain ⟨m, t, k, l0, l1, body, d0, d1, rest, rfl, hfield⟩ := shape_of_frameUnpack hu
  -- the length field is the sent one, so the CRC field stands where it was sent
  have hhead : frameHead Rpi.frameConsts type kind payload =
      0xA5#8 :: type :: kind :: lo8 (BitVec.ofNat 16 payload.length) ::
        hi8 (BitVec.ofNat 16 payload.length) :: payload := rfl
  have hsent := le16_lo8_hi8 (Rpi.htsnCrc16 (frameHead Rpi.frameConsts type kind payload))
  generalize lo8 (Rpi.htsnCrc16 (frameHead Rpi.frameConsts type kind payload)) = c0 at *
  generalize hi8 (Rpi.htsnCrc16 (frameHead Rpi.frameConsts type kind payload)) = c1 at *
  obtain ⟨rfl, rfl⟩ := lengthUntouched_header (by simpa [hhead] using huntouched)
  rw [packed_length hmax] at hfield
  have hrest : rest = [] := by
    rw [hhead] at hlen
    simp only [List.length_append, List.length_cons, List.length_nil] at hlen
    exact List.length_eq_zero_iff.mp (by omega)
  subst hrest
  rw [frameUnpackWith_shape _ _ _ _ _ _ _ _ _ (by rw [packed_length hmax, hfield])] at hu
  split at hu
  case isFalse => cases hu
  case isTrue hok =>
    obtain ⟨rfl, hbody, hreceived⟩ := hok
    rw [hhead] at hsent
    have hheads : (0xA5#8 :: type :: kind :: lo8 (BitVec.ofNat 16 payload.length) ::
        hi8 (BitVec.ofNat 16 payload.length) :: payload).length =
        (0xA5#8 :: t :: k :: lo8 (BitVec.ofNat 16 payload.length) ::
          hi8 (BitVec.ofNat 16 payload.length) :: body).length := by
      simp [hfield]
    have hsyndrome := syndrome_of_accepted hheads hsent.symm hreceived
    have hwidth := flips_length hheads
    rw [List.length_cons, List.length_cons, List.length_cons, List.length_cons,
      List.length_cons] at hwidth
    have hsplit := flips_two c0 c1 d0 d1 hheads
    simp only [List.cons_append] at hsplit
    simp only [hhead, List.cons_append, hsplit] at herror
    rcases herror with hodd | htwo | ⟨i, burst, r, heq, hburst, hmem, hwhere⟩
    · exact syndrome_odd hodd hsyndrome
    · exact syndrome_two (by omega) htwo hsyndrome
    · exact syndrome_burst heq hburst hmem (by omega) hsyndrome

/-- An empty telemetry frame, received with its type and its kind each off by
a bit. -/
theorem two_flips_rejected :
    Rpi.htsnFramePack 0x01 0x10 [] = some [0xA5, 0x01, 0x10, 0x00, 0x00, 0xE8, 0x2D] ∧
    Rpi.htsnFrameUnpack [0xA5, 0x03, 0x11, 0x00, 0x00, 0xE8, 0x2D] = none ∧
    Stm32.htsnFrameUnpack [0xA5, 0x03, 0x11, 0x00, 0x00, 0xE8, 0x2D] = none := by
  have hpack : Rpi.htsnFramePack 0x01 0x10 [] =
      some [0xA5, 0x01, 0x10, 0x00, 0x00, 0xE8, 0x2D] := by decide +kernel
  refine ⟨hpack, corrupted_frame_rejected hpack rfl ?_ (Or.inr (Or.inl ?_))⟩
  · unfold LengthUntouched
    decide
  · decide

end Htsn
