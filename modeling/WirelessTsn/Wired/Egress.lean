import WirelessTsn.Lib.OnesComplement
import WirelessTsn.Wired.Endpoint

/-!
How the endpoint sends a frame (`stm32-tsn/tsn/eth_proto.c`): as a plain UDP
datagram, or behind a VLAN tag and IPv4 and UDP headers it builds itself. The
tag holds the low bits of the configured VLAN and priority; the report of what
was applied holds the configuration as it came.
-/

namespace Htsn

/-! ### Building a tagged packet -/

/-- `(uint16_t)((hi << 8) | lo)` -/
def be16 (hi lo : Byte) : BitVec 16 := (hi.setWidth 16 <<< 8) ||| lo.setWidth 16

/-- The 16-bit words of a header, the last byte of an odd one at the top. -/
def hdrWords : List Byte → List Nat
  | hi :: lo :: rest => (be16 hi lo).toNat :: hdrWords rest
  | [hi] => [(be16 hi 0).toNat]
  | [] => []

/-- `ipv4_hdr_sum` -/
def ipv4HdrSum (h : List Byte) : BitVec 16 :=
  let s := (hdrWords h).foldl (fun s w => (s + w) % 2 ^ 32) 0
  ~~~ BitVec.ofNat 16 (OnesComplement.foldCarry (b := 2 ^ 16) (by decide) s)

/-- The TCI of `build_tagged_pcp`. -/
def tagTci (vlanId : BitVec 16) (pcp : Byte) : BitVec 16 :=
  ((pcp &&& 0x07).setWidth 16 <<< 13) ||| (vlanId &&& 0x0fff)

/-- Its IPv4 header, from 192.168.1.20 to `CNC_TAG_IP`, with a checksum. -/
def ipv4Header (ipLen cs : BitVec 16) : List Byte :=
  [0x45, 0, hi8 ipLen, lo8 ipLen, 0, 0, 0, 0, 64, 17, hi8 cs, lo8 cs, 192, 168, 1, 20, 192, 168, 1, 11]

/-- Its UDP header, from `STM32_CMD_PORT` to `CNC_TELEM_PORT`. -/
def udpHeader (udpLen : BitVec 16) : List Byte :=
  [hi8 4000, lo8 4000, hi8 4001, lo8 4001, hi8 udpLen, lo8 udpLen, 0, 0]

/-- The bytes `build_tagged_pcp` writes to `out`; it returns their number. -/
def buildTaggedPcp (vlanId : BitVec 16) (frame : List Byte) (pcp : Byte) : List Byte :=
  let udpLen := 8 + BitVec.ofNat 16 frame.length
  let ipLen := 20 + udpLen
  let tci := tagTci vlanId pcp
  [hi8 tci, lo8 tci, 0x08, 0x00] ++ ipv4Header ipLen (ipv4HdrSum (ipv4Header ipLen 0)) ++
    udpHeader udpLen ++ frame

/-- `build_tagged`, into the `HTSN_FRAME_MAX + 32` bytes of `send_frame_tagged`. -/
def buildTagged (e : Endpoint) (frame : List Byte) : List Byte := buildTaggedPcp e.vlanId frame e.pcp

/-! ### Choosing the socket -/

/-- Whether `g_sock` and `g_raw_sock` are open. -/
structure Sockets where
  udp : Bool
  raw : Bool
  deriving DecidableEq, Repr

/-- What leaves the endpoint: a packet through the raw socket or a datagram. -/
inductive Outgoing where
  | tagged (packet : List Byte)
  | plain (frame : List Byte)
  deriving DecidableEq, Repr

/-- `send_frame` -/
def sendFrame (socks : Sockets) (e : Endpoint) (kind : Byte) (payload : List Byte) : Option Outgoing :=
  match Stm32.htsnFramePack typeTelem kind payload with
  | none => none
  | some frame =>
      if e.vlanId > 0 ∧ socks.raw then some (.tagged (buildTagged e frame))
      else if socks.udp then some (.plain frame)
      else none

/-! ### What a receiver of the packet reads -/

/-- The parts of a packet behind the Ethernet header. -/
structure TaggedPacket where
  tci : BitVec 16
  etherType : BitVec 16
  ip : List Byte
  udp : List Byte
  data : List Byte
  deriving DecidableEq, Repr

def parseTagged (bytes : List Byte) : Option TaggedPacket :=
  match bytes with
  | t0 :: t1 :: e0 :: e1 :: rest =>
      if rest.length < 28 then none
      else
        some
          { tci := be16 t0 t1
            etherType := be16 e0 e1
            ip := rest.take 20
            udp := (rest.drop 20).take 8
            data := rest.drop 28 }
  | _ => none

/-- A 16-bit field of a header. -/
def field16 (h : List Byte) (off : Nat) : Nat := (be16 (h.getD off 0) (h.getD (off + 1) 0)).toNat

/-- The packet carries the frame in a UDP datagram over IPv4 under the tag. -/
structure TaggedPacket.Carries (p : TaggedPacket) (pcp : BitVec 3) (vid : BitVec 12)
    (frame : List Byte) : Prop where
  tci : p.tci.toNat = pcp.toNat * 2 ^ 13 + vid.toNat
  etherType : p.etherType = 0x0800
  version : p.ip.getD 0 0 = 0x45
  checksum : OnesComplement.sum (2 ^ 16) (hdrWords p.ip) = 0xFFFF
  totalLength : field16 p.ip 2 = 28 + frame.length
  protocol : p.ip.getD 9 0 = 17
  udpLength : field16 p.udp 4 = 8 + frame.length
  data : p.data = frame

/-! ### The fields -/

@[simp] theorem be16_hi8_lo8 (v : BitVec 16) : be16 (hi8 v) (lo8 v) = v := by
  have h := le16_lo8_hi8 v
  rwa [le16, BitVec.or_comm] at h

theorem tagTci_toNat (vlanId : BitVec 16) (pcp : Byte) :
    (tagTci vlanId pcp).toNat = pcp.toNat % 8 * 2 ^ 13 + vlanId.toNat % 4096 := by
  have hpcp : (pcp &&& 0x07).toNat = pcp.toNat % 8 := by
    rw [BitVec.toNat_and]
    exact Nat.and_two_pow_sub_one_eq_mod _ 3
  have hvid : (vlanId &&& 0x0fff).toNat = vlanId.toNat % 4096 := by
    rw [BitVec.toNat_and]
    exact Nat.and_two_pow_sub_one_eq_mod _ 12
  have hlt : pcp.toNat % 8 < 8 := Nat.mod_lt _ (by decide)
  have hvlt : vlanId.toNat % 4096 < 2 ^ 13 := (Nat.mod_lt _ (by decide)).trans (by decide)
  rw [tagTci, BitVec.toNat_or, BitVec.toNat_shiftLeft, BitVec.toNat_setWidth, hpcp, hvid,
    Nat.mod_eq_of_lt (by omega), Nat.shiftLeft_eq, Nat.mod_eq_of_lt (by omega),
    ← Nat.shiftLeft_eq, ← Nat.shiftLeft_add_eq_or_of_lt hvlt, Nat.shiftLeft_eq]

/-! ### The checksum -/

theorem hdrWords_lt {h : List Byte} : ∀ w ∈ hdrWords h, w < 2 ^ 16 := by
  fun_induction hdrWords h with
  | case1 hi lo rest ih =>
      intro w hw
      rcases List.mem_cons.mp hw with rfl | hw
      · exact (be16 hi lo).isLt
      · exact ih w hw
  | case2 hi =>
      intro w hw
      rw [List.mem_singleton.mp hw]
      exact (be16 hi 0).isLt
  | case3 => simp

/-- The sum of a short header stays within its 32 bits. -/
theorem foldl_words {words : List Nat} (h : words.sum < 2 ^ 32) :
    words.foldl (fun s w => (s + w) % 2 ^ 32) 0 = words.sum := by
  induction words using List.reverseRecOn with
  | nil => rfl
  | append_singleton ws w ih =>
      rw [List.sum_append, List.sum_singleton] at h ⊢
      rw [List.foldl_append, ih (by omega)]
      exact Nat.mod_eq_of_lt h

theorem ipv4HdrSum_toNat {h : List Byte} (hshort : (hdrWords h).sum < 2 ^ 32) :
    (ipv4HdrSum h).toNat =
      2 ^ 16 - 1 - OnesComplement.foldCarry (b := 2 ^ 16) (by decide) (hdrWords h).sum := by
  have hlt := (OnesComplement.represents_foldCarry (b := 2 ^ 16) (by decide) (hdrWords h).sum).lt
  rw [ipv4HdrSum, BitVec.toNat_not, BitVec.toNat_ofNat, foldl_words hshort, Nat.mod_eq_of_lt hlt]

/-- The checksum is one of the header's words. -/
theorem hdrWords_ipv4Header (ipLen cs : BitVec 16) :
    hdrWords (ipv4Header ipLen cs) =
      [0x4500, ipLen.toNat, 0, 0, 0x4011] ++ cs.toNat :: [0xC0A8, 0x0114, 0xC0A8, 0x010B] := by
  simp only [ipv4Header, hdrWords, be16_hi8_lo8]
  rfl

theorem sum_insert (pre post : List Nat) (w : Nat) :
    (pre ++ w :: post).sum = (pre ++ 0 :: post).sum + w := by
  simp only [List.sum_append, List.sum_cons]
  omega

/-- The header sums to all ones, whatever the length field holds. -/
theorem ipv4Header_checksum (ipLen : BitVec 16) :
    OnesComplement.sum (2 ^ 16)
      (hdrWords (ipv4Header ipLen (ipv4HdrSum (ipv4Header ipLen 0)))) = 0xFFFF := by
  have hlength : (hdrWords (ipv4Header ipLen 0)).length = 10 := by
    rw [hdrWords_ipv4Header]
    rfl
  have hle := List.sum_le_card_nsmul (hdrWords (ipv4Header ipLen 0)) (2 ^ 16)
    fun w hw => (hdrWords_lt w hw).le
  rw [hlength] at hle
  have hshort : (hdrWords (ipv4Header ipLen 0)).sum < 2 ^ 32 := hle.trans_lt (by decide)
  have htotal : (hdrWords (ipv4Header ipLen (ipv4HdrSum (ipv4Header ipLen 0)))).sum =
      (hdrWords (ipv4Header ipLen 0)).sum + (ipv4HdrSum (ipv4Header ipLen 0)).toNat := by
    rw [hdrWords_ipv4Header, hdrWords_ipv4Header, sum_insert]
    rfl
  rw [ipv4HdrSum_toNat hshort] at htotal
  exact OnesComplement.sum_of_complement (by decide) hdrWords_lt htotal

/-! ### The whole packet -/

theorem buildTaggedPcp_length (vlanId : BitVec 16) (frame : List Byte) (pcp : Byte) :
    (buildTaggedPcp vlanId frame pcp).length = 32 + frame.length := by
  simp only [buildTaggedPcp, ipv4Header, udpHeader, List.length_append, List.length_cons,
    List.length_nil]

/-- The receiver finds the tag and the headers that were put in front. -/
theorem parseTagged_buildTaggedPcp (vlanId : BitVec 16) (frame : List Byte) (pcp : Byte) :
    parseTagged (buildTaggedPcp vlanId frame pcp) =
      some
        { tci := tagTci vlanId pcp
          etherType := 0x0800
          ip :=
            ipv4Header (20 + (8 + BitVec.ofNat 16 frame.length))
              (ipv4HdrSum (ipv4Header (20 + (8 + BitVec.ofNat 16 frame.length)) 0))
          udp := udpHeader (8 + BitVec.ofNat 16 frame.length)
          data := frame } := by
  simp only [buildTaggedPcp, ipv4Header, udpHeader, List.cons_append, List.nil_append, parseTagged,
    be16_hi8_lo8, List.length_cons]
  rw [if_neg (by omega)]
  rfl

/-- A packet is well formed for every frame the caller's buffer has room for. -/
theorem tagged_carries (pcp : BitVec 3) (vid : BitVec 12) {frame : List Byte}
    (hfit : frame.length ≤ frameMax) :
    ∃ p, parseTagged (buildTaggedPcp (vid.setWidth 16) frame (pcp.setWidth 8)) = some p ∧
      p.Carries pcp vid frame := by
  refine ⟨_, parseTagged_buildTaggedPcp _ _ _, ?_⟩
  have hpcp := pcp.isLt
  have hvid := vid.isLt
  have hlen : (BitVec.ofNat 16 frame.length).toNat = frame.length :=
    Nat.mod_eq_of_lt (hfit.trans_lt (by decide))
  have hudp : (8 + BitVec.ofNat 16 frame.length).toNat = 8 + frame.length := by
    rw [BitVec.toNat_add, hlen]
    exact Nat.mod_eq_of_lt (by simp only [frameMax] at hfit; simp; omega)
  have hip : (20 + (8 + BitVec.ofNat 16 frame.length)).toNat = 28 + frame.length := by
    rw [BitVec.toNat_add, hudp, ← Nat.add_assoc]
    exact Nat.mod_eq_of_lt (by simp only [frameMax] at hfit; simp; omega)
  exact
    { tci := by
        rw [tagTci_toNat, BitVec.toNat_setWidth, BitVec.toNat_setWidth]
        omega
      etherType := rfl
      version := rfl
      checksum := ipv4Header_checksum _
      totalLength := by rw [← hip]; exact congrArg BitVec.toNat (be16_hi8_lo8 _)
      protocol := rfl
      udpLength := by rw [← hudp]; exact congrArg BitVec.toNat (be16_hi8_lo8 _)
      data := rfl }

/-- Every packet `send_frame_tagged` builds is well formed and within its buffer. -/
theorem tagged_wellFormed (pcp : BitVec 3) (vid : BitVec 12) (frame : List Byte)
    (hfit : frame.length ≤ frameMax) :
    let packet := buildTaggedPcp (vid.setWidth 16) frame (pcp.setWidth 8)
    (∃ p, parseTagged packet = some p ∧ p.Carries pcp vid frame) ∧
      packet.length = 32 + frame.length ∧ packet.length ≤ frameMax + 32 := by
  have hlength := buildTaggedPcp_length (vid.setWidth 16) frame (pcp.setWidth 8)
  exact ⟨tagged_carries pcp vid hfit, hlength, by omega⟩

/-- The telemetry frame of a pressed button, in VLAN 100 at priority 5. -/
theorem buttons_wellFormed :
    let frame : List Byte := [0xA5, 1, 3, 1, 0, 2, 0xC6, 0x8A]
    let packet := buildTaggedPcp ((100 : BitVec 12).setWidth 16) frame ((5 : BitVec 3).setWidth 8)
    (∃ p, parseTagged packet = some p ∧ p.Carries 5 100 frame) ∧
      packet.length = 32 + frame.length ∧ packet.length ≤ frameMax + 32 :=
  tagged_wellFormed 5 100 [0xA5, 1, 3, 1, 0, 2, 0xC6, 0x8A] (by decide)

end Htsn
