import WirelessTsn.Lib.Crc

/-!
The datagram frame between the Raspberry Pi bridge and the STM32 endpoint:
`rpi-tsn/htsn_frame.h` and `stm32-tsn/tsn/eth_proto.c` hold one copy of the
codec each. Both are written here as one definition applied to the constants
of the header they include.
-/

namespace Htsn

abbrev Byte := BitVec 8

/-- The `HTSN_FRAME_*` constants of a header, and those of its CRC. -/
structure FrameConsts where
  magic : Byte
  hdr : Nat
  crc : Nat
  maxplen : Nat
  crcInit : BitVec 16
  crcPoly : BitVec 16

/-- What `htsn_frame_unpack` writes through its out parameters. -/
structure Unpacked where
  type : Byte
  kind : Byte
  payload : List Byte
  deriving DecidableEq, Repr

/-- `(uint16_t)lo | ((uint16_t)hi << 8)`. -/
def le16 (lo hi : Byte) : BitVec 16 := lo.setWidth 16 ||| (hi.setWidth 16 <<< 8)

/-- `(uint8_t)(v & 0xFF)`. -/
def lo8 (v : BitVec 16) : Byte := (v &&& 0xFF#16).setWidth 8

/-- `(uint8_t)(v >> 8)`. -/
def hi8 (v : BitVec 16) : Byte := (v >>> 8).setWidth 8

/-- The inner loop's body. -/
def crcRound (poly crc : BitVec 16) : BitVec 16 :=
  if crc &&& 0x8000#16 ≠ 0 then (crc <<< 1) ^^^ poly else crc <<< 1

def crcByte (poly crc : BitVec 16) (d : Byte) : BitVec 16 :=
  (crcRound poly)^[8] (crc ^^^ (d.setWidth 16 <<< 8))

def crc16With (k : FrameConsts) (data : List Byte) : BitVec 16 :=
  data.foldl (crcByte k.crcPoly) k.crcInit

/-- The bytes in front of the CRC. -/
def frameHead (k : FrameConsts) (type kind : Byte) (payload : List Byte) : List Byte :=
  let len := BitVec.ofNat 16 payload.length
  [k.magic, type, kind, lo8 len, hi8 len] ++ payload

/-- The payload's length is the `len` argument, a `uint16_t`; a longer list is
refused like every length above the maximum. -/
def framePackWith (k : FrameConsts) (type kind : Byte) (payload : List Byte) :
    Option (List Byte) :=
  if payload.length > k.maxplen then none
  else
    let head := frameHead k type kind payload
    let crc := crc16With k head
    some (head ++ [lo8 crc, hi8 crc])

def frameUnpackWith (k : FrameConsts) (input : List Byte) : Option Unpacked :=
  if input.length < k.hdr + k.crc then none
  else if input.getD 0 0 ≠ k.magic then none
  else
    let len := (le16 (input.getD 3 0) (input.getD 4 0)).toNat
    if len > k.maxplen then none
    else if input.length < k.hdr + len + k.crc then none
    else
      let crc := crc16With k (input.take (k.hdr + len))
      let got := le16 (input.getD (k.hdr + len) 0) (input.getD (k.hdr + len + 1) 0)
      if crc ≠ got then none
      else some ⟨input.getD 1 0, input.getD 2 0, (input.drop k.hdr).take len⟩

namespace Rpi

/-- `rpi-tsn/htsn_frame.h`. -/
def frameConsts : FrameConsts :=
  { magic := 0xA5, hdr := 5, crc := 2, maxplen := 384, crcInit := 0xFFFF, crcPoly := 0x1021 }

def htsnCrc16 : List Byte → BitVec 16 := crc16With frameConsts

def htsnFramePack : Byte → Byte → List Byte → Option (List Byte) := framePackWith frameConsts

def htsnFrameUnpack : List Byte → Option Unpacked := frameUnpackWith frameConsts

end Rpi

namespace Stm32

/-- `stm32-tsn/tsn/htsn_frame.h`, with the CRC constants of `eth_proto.c`. -/
def frameConsts : FrameConsts :=
  { magic := 0xA5, hdr := 5, crc := 2, maxplen := 384, crcInit := 0xFFFF, crcPoly := 0x1021 }

def htsnCrc16 : List Byte → BitVec 16 := crc16With frameConsts

def htsnFramePack : Byte → Byte → List Byte → Option (List Byte) := framePackWith frameConsts

def htsnFrameUnpack : List Byte → Option Unpacked := frameUnpackWith frameConsts

end Stm32

/-! ### Sixteen bit fields -/

@[simp] theorem le16_lo8_hi8 (v : BitVec 16) : le16 (lo8 v) (hi8 v) = v := by
  apply BitVec.eq_of_getLsbD_eq
  intro i hi
  simp only [le16, lo8, hi8, BitVec.getLsbD_or, BitVec.getLsbD_setWidth, BitVec.getLsbD_and,
    BitVec.getLsbD_shiftLeft, BitVec.getLsbD_ushiftRight]
  by_cases hlow : i < 8
  · have hmask : (0xFF#16).getLsbD i = true := by
      interval_cases i <;> rfl
    simp [hi, hlow, hmask]
  · have hback : 8 + (i - 8) = i := by omega
    simp [hi, hlow, hback, show i - 8 < 8 by omega, show i - 8 < 16 by omega]

theorem lo8_le16 (lo hi : Byte) : lo8 (le16 lo hi) = lo := by
  apply BitVec.eq_of_getLsbD_eq
  intro i hlt
  have hmask : (0xFF#16).getLsbD i = true := by
    interval_cases i <;> rfl
  simp only [le16, lo8, BitVec.getLsbD_setWidth, BitVec.getLsbD_and, BitVec.getLsbD_or,
    BitVec.getLsbD_shiftLeft, hmask]
  simp [hlt, show i < 16 by omega]

theorem hi8_le16 (lo hi : Byte) : hi8 (le16 lo hi) = hi := by
  apply BitVec.eq_of_getLsbD_eq
  intro i hlt
  have hout : lo.getLsbD (8 + i) = false := BitVec.getLsbD_of_ge _ _ (by omega)
  simp only [le16, hi8, BitVec.getLsbD_setWidth, BitVec.getLsbD_ushiftRight, BitVec.getLsbD_or,
    BitVec.getLsbD_shiftLeft, hout]
  simp [hlt, show 8 + i < 16 by omega, show i < 16 by omega]

/-! ### Unpacking, by the shape of the input -/

theorem frameUnpack_eq (input : List Byte) :
    Rpi.htsnFrameUnpack input =
      let len := (le16 (input.getD 3 0) (input.getD 4 0)).toNat
      if input.length < 5 + 2 then none
      else if input.getD 0 0 ≠ 0xA5#8 then none
      else if len > 384 then none
      else if input.length < 5 + len + 2 then none
      else if Rpi.htsnCrc16 (input.take (5 + len)) ≠
          le16 (input.getD (5 + len) 0) (input.getD (5 + len + 1) 0) then none
      else some ⟨input.getD 1 0, input.getD 2 0, (input.drop 5).take len⟩ := rfl

/-- Five header bytes, a payload as long as the length field says, two CRC
bytes and whatever follows. -/
theorem frameUnpackWith_shape (m type kind l0 l1 c0 c1 : Byte) (payload rest : List Byte)
    (hlen : (le16 l0 l1).toNat = payload.length) :
    Rpi.htsnFrameUnpack (m :: type :: kind :: l0 :: l1 :: (payload ++ c0 :: c1 :: rest)) =
      if m = 0xA5#8 ∧ payload.length ≤ 384 ∧
          Rpi.htsnCrc16 (m :: type :: kind :: l0 :: l1 :: payload) = le16 c0 c1
      then some ⟨type, kind, payload⟩ else none := by
  have htake : (m :: type :: kind :: l0 :: l1 :: (payload ++ c0 :: c1 :: rest)).take
      (5 + payload.length) = m :: type :: kind :: l0 :: l1 :: payload := by
    rw [Nat.add_comm]
    simp
  have hc0 : (m :: type :: kind :: l0 :: l1 :: (payload ++ c0 :: c1 :: rest)).getD
      (5 + payload.length) 0 = c0 := by
    rw [Nat.add_comm]
    simp
  have hc1 : (m :: type :: kind :: l0 :: l1 :: (payload ++ c0 :: c1 :: rest)).getD
      (5 + payload.length + 1) 0 = c1 := by
    rw [Nat.add_comm 5, Nat.add_right_comm]
    simp
  have hlong : ¬ (m :: type :: kind :: l0 :: l1 :: (payload ++ c0 :: c1 :: rest)).length < 5 + 2 := by
    simp only [List.length_cons, List.length_append]
    omega
  have hroom : ¬ (m :: type :: kind :: l0 :: l1 :: (payload ++ c0 :: c1 :: rest)).length <
      5 + payload.length + 2 := by
    simp only [List.length_cons, List.length_append]
    omega
  simp only [frameUnpack_eq, hlong, if_false, List.getD_cons_zero, List.getD_cons_succ, hlen,
    hroom, htake, hc0, hc1]
  by_cases hm : m = 0xA5#8
  · by_cases hmax : payload.length ≤ 384
    · simp [hm, hmax, Nat.not_lt.mpr hmax]
    · simp [hm, hmax, Nat.lt_of_not_le hmax]
  · simp [hm]

/-- An accepted input has that shape. -/
theorem shape_of_frameUnpack {input : List Byte} {u : Unpacked}
    (h : Rpi.htsnFrameUnpack input = some u) :
    ∃ m type kind l0 l1 payload c0 c1 rest,
      input = m :: type :: kind :: l0 :: l1 :: (payload ++ c0 :: c1 :: rest) ∧
      (le16 l0 l1).toNat = payload.length := by
  simp only [frameUnpack_eq] at h
  split at h
  · cases h
  split at h
  · cases h
  split at h
  · cases h
  split at h
  · cases h
  rename_i hlong _ _ hroom
  match input, hlong with
  | m :: type :: kind :: l0 :: l1 :: body, _ =>
      simp only [List.getD_cons_succ, List.getD_cons_zero, List.length_cons] at hroom
      have hbody : (le16 l0 l1).toNat + 2 ≤ body.length := by omega
      have htail : 2 ≤ (body.drop (le16 l0 l1).toNat).length := by
        rw [List.length_drop]
        omega
      match htl : body.drop (le16 l0 l1).toNat, htail with
      | c0 :: c1 :: rest, _ =>
          refine ⟨m, type, kind, l0, l1, body.take (le16 l0 l1).toNat, c0, c1, rest, ?_, ?_⟩
          · rw [← htl, List.take_append_drop]
          · rw [List.length_take]
            omega
  | [], hlong | [_], hlong | [_, _], hlong | [_, _, _], hlong | [_, _, _, _], hlong =>
      exact absurd hlong (by simp)

/-- The length field of a packed frame. -/
theorem packed_length {n : Nat} (h : n ≤ 384) :
    (le16 (lo8 (BitVec.ofNat 16 n)) (hi8 (BitVec.ofNat 16 n))).toNat = n := by
  rw [le16_lo8_hi8, BitVec.toNat_ofNat]
  exact Nat.mod_eq_of_lt (by omega)

theorem framePack_eq_some {type kind : Byte} {payload frame : List Byte} :
    Rpi.htsnFramePack type kind payload = some frame ↔
      payload.length ≤ 384 ∧
        frame = frameHead Rpi.frameConsts type kind payload ++
          [lo8 (Rpi.htsnCrc16 (frameHead Rpi.frameConsts type kind payload)),
            hi8 (Rpi.htsnCrc16 (frameHead Rpi.frameConsts type kind payload))] := by
  have hdef : Rpi.htsnFramePack type kind payload =
      if payload.length > 384 then none
      else some (frameHead Rpi.frameConsts type kind payload ++
        [lo8 (Rpi.htsnCrc16 (frameHead Rpi.frameConsts type kind payload)),
          hi8 (Rpi.htsnCrc16 (frameHead Rpi.frameConsts type kind payload))]) := rfl
  by_cases hmax : payload.length ≤ 384
  · rw [hdef, if_neg (Nat.not_lt.mpr hmax), Option.some.injEq, eq_comm]
    exact (and_iff_right hmax).symm
  · rw [hdef, if_pos (Nat.lt_of_not_le hmax)]
    simp [hmax]

/-- The accepted inputs are those that start with a packed frame, and what is
returned is what was packed. -/
theorem frameUnpack_eq_some {input : List Byte} {u : Unpacked} :
    Rpi.htsnFrameUnpack input = some u ↔
      ∃ frame, Rpi.htsnFramePack u.type u.kind u.payload = some frame ∧ frame <+: input := by
  constructor
  · intro h
    obtain ⟨m, type, kind, l0, l1, payload, c0, c1, rest, rfl, hlen⟩ := shape_of_frameUnpack h
    rw [frameUnpackWith_shape m type kind l0 l1 c0 c1 payload rest hlen] at h
    split at h
    · rename_i hok
      obtain ⟨rfl, hmax, hcrc⟩ := hok
      cases h
      have hfield : BitVec.ofNat 16 payload.length = le16 l0 l1 := by
        rw [← hlen, BitVec.ofNat_toNat, BitVec.setWidth_eq]
      have hhead : frameHead Rpi.frameConsts type kind payload =
          0xA5#8 :: type :: kind :: l0 :: l1 :: payload := by
        simp [frameHead, Rpi.frameConsts, hfield, lo8_le16, hi8_le16]
      refine ⟨_, framePack_eq_some.mpr ⟨hmax, rfl⟩, rest, ?_⟩
      rw [hhead, hcrc, lo8_le16, hi8_le16]
      simp
    · cases h
  · rintro ⟨frame, hpack, rest, rfl⟩
    obtain ⟨hmax, rfl⟩ := framePack_eq_some.mp hpack
    have hshape := frameUnpackWith_shape 0xA5#8 u.type u.kind
      (lo8 (BitVec.ofNat 16 u.payload.length)) (hi8 (BitVec.ofNat 16 u.payload.length))
      (lo8 (Rpi.htsnCrc16 (frameHead Rpi.frameConsts u.type u.kind u.payload)))
      (hi8 (Rpi.htsnCrc16 (frameHead Rpi.frameConsts u.type u.kind u.payload)))
      u.payload rest (packed_length hmax)
    rw [le16_lo8_hi8, if_pos ⟨rfl, hmax, rfl⟩] at hshape
    rw [← hshape]
    simp [frameHead, Rpi.frameConsts]

/-- The two headers hold the same constants, so each function of one codec is
that of the other. -/
theorem frame_codecs_same :
    Stm32.htsnFramePack = Rpi.htsnFramePack ∧ Stm32.htsnFrameUnpack = Rpi.htsnFrameUnpack :=
  ⟨rfl, rfl⟩

/-- `unpack` accepts exactly the byte strings that start with a frame `pack`
can make of a payload within the maximum, and returns the only fields that
frame can have been made of. -/
def ExactCodec (pack : Byte → Byte → List Byte → Option (List Byte))
    (unpack : List Byte → Option Unpacked) : Prop :=
  ∀ b : List Byte,
    ((unpack b).isSome ↔ ∃ type kind payload, payload.length ≤ 384 ∧
      ∃ frame, pack type kind payload = some frame ∧ frame <+: b) ∧
    ∀ u, unpack b = some u →
      u.payload.length ≤ 384 ∧
      ∀ type kind payload, (∃ frame, pack type kind payload = some frame ∧ frame <+: b) ↔
        type = u.type ∧ kind = u.kind ∧ payload = u.payload

theorem rpi_exactCodec : ExactCodec Rpi.htsnFramePack Rpi.htsnFrameUnpack := by
  intro b
  refine ⟨⟨?_, ?_⟩, ?_⟩
  · intro h
    obtain ⟨u, hu⟩ := Option.isSome_iff_exists.mp h
    obtain ⟨frame, hpack, hprefix⟩ := frameUnpack_eq_some.mp hu
    exact ⟨u.type, u.kind, u.payload, (framePack_eq_some.mp hpack).1, frame, hpack, hprefix⟩
  · rintro ⟨type, kind, payload, _, hframe⟩
    have hu : Rpi.htsnFrameUnpack b = some ⟨type, kind, payload⟩ := frameUnpack_eq_some.mpr hframe
    simp [hu]
  · intro u hu
    obtain ⟨frame, hpack, hprefix⟩ := frameUnpack_eq_some.mp hu
    refine ⟨(framePack_eq_some.mp hpack).1, fun type kind payload => ⟨fun hframe => ?_, ?_⟩⟩
    · have hsame : Rpi.htsnFrameUnpack b = some ⟨type, kind, payload⟩ :=
        frameUnpack_eq_some.mpr hframe
      rw [hu, Option.some.injEq] at hsame
      subst hsame
      exact ⟨rfl, rfl, rfl⟩
    · rintro ⟨rfl, rfl, rfl⟩
      exact ⟨frame, hpack, hprefix⟩

theorem frame_codec_exact :
    ExactCodec Rpi.htsnFramePack Rpi.htsnFrameUnpack ∧
    ExactCodec Stm32.htsnFramePack Stm32.htsnFrameUnpack ∧
    (∀ type kind payload,
      Stm32.htsnFramePack type kind payload = Rpi.htsnFramePack type kind payload) ∧
    (∀ b, Stm32.htsnFrameUnpack b = Rpi.htsnFrameUnpack b) := by
  obtain ⟨hpack, hunpack⟩ := frame_codecs_same
  refine ⟨rpi_exactCodec, ?_, fun _ _ _ => by rw [hpack], fun _ => by rw [hunpack]⟩
  rw [hpack, hunpack]
  exact rpi_exactCodec

end Htsn
