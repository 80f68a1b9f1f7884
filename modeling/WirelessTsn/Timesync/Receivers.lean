import Mathlib.Data.List.GetD
import WirelessTsn.Esp32.Ptp
import WirelessTsn.Wired.Ptp

/-!
Two receivers of PTP packets, `handle_packet` of the endpoint and
`process_packet` of the agent, and what they read behind the end of a packet.
Each checks the length once, against less than its timestamps need. What a
packet leads to is compared for two buffers that begin with it and differ in
what earlier packets left behind it.
-/

namespace Htsn

/-! ### The endpoint -/

/-- The bytes that `recvfrom` put into a buffer of `n`. -/
structure Received (n : Nat) where
  bytes : List Byte
  fits : bytes.length ≤ n

/-- The buffer with a packet and what stands behind it. -/
def Received.datagram {n : Nat} (p : Received n) (stale : List Byte) (src : SockAddr) : Datagram where
  buf := p.bytes ++ stale
  len := p.bytes.length
  src := src

/-- `handle_packet` does the same whatever the rest of its buffer of 128 bytes
holds. -/
def PacketDecides (s : PtpState) (src : SockAddr) (raw : U64) (p : Received 128) : Prop :=
  ∀ stale stale' : List Byte, (p.bytes ++ stale).length = 128 → (p.bytes ++ stale').length = 128 →
    handlePacket s (p.datagram stale src) raw = handlePacket s (p.datagram stale' src) raw

/-- The message of a packet, by its first 32 bytes. -/
def Received.msg {n : Nat} (p : Received n) : Option PtpMsg := (p.datagram [] ⟨0, 0⟩).msg

/-- The messages with a timestamp in their body. -/
def PtpMsg.HasBody (m : PtpMsg) : Prop := m = .sync ∨ m = .followUp

variable {n : Nat}

theorem at_datagram (p : Received n) (stale : List Byte) (src : SockAddr) {i : Nat}
    (hi : i < p.bytes.length) : (p.datagram stale src).at i = p.bytes.getD i 0 := by
  rw [Datagram.at, Received.datagram, List.getD_append _ _ _ _ hi]

theorem msg_datagram (p : Received n) (stale : List Byte) (src : SockAddr) :
    (p.datagram stale src).msg = p.msg := by
  rw [Received.msg, Datagram.msg, Datagram.msg]
  by_cases hshort : p.bytes.length < 32
  · rw [if_pos (show (p.datagram stale src).len < 32 from hshort),
      if_pos (show (p.datagram [] ⟨0, 0⟩).len < 32 from hshort)]
  · rw [if_neg (show ¬ (p.datagram stale src).len < 32 from hshort),
      if_neg (show ¬ (p.datagram [] ⟨0, 0⟩).len < 32 from hshort)]
    simp only [at_datagram p _ _ (show 1 < p.bytes.length by omega),
      at_datagram p _ _ (show 2 < p.bytes.length by omega)]

theorem length_of_msg {p : Received n} {m : PtpMsg} (h : p.msg = some m) : 32 ≤ p.bytes.length := by
  by_contra hshort
  rw [Received.msg, Datagram.msg,
    if_pos (show (p.datagram [] ⟨0, 0⟩).len < 32 from Nat.lt_of_not_ge hshort)] at h
  cases h

theorem ptpHdrTimeNs_datagram (p : Received n) (h : 32 ≤ p.bytes.length) (stale stale' : List Byte)
    (src : SockAddr) :
    ptpHdrTimeNs (p.datagram stale src) = ptpHdrTimeNs (p.datagram stale' src) := by
  have hat : ∀ i < 32, (p.datagram stale src).at i = (p.datagram stale' src).at i := by
    intro i hi
    rw [at_datagram p _ _ (by omega), at_datagram p _ _ (by omega)]
  simp only [ptpHdrTimeNs, hat _ (show 12 < 32 by decide), hat _ (show 13 < 32 by decide),
    hat _ (show 14 < 32 by decide), hat _ (show 15 < 32 by decide), hat _ (show 16 < 32 by decide),
    hat _ (show 17 < 32 by decide), hat _ (show 18 < 32 by decide), hat _ (show 19 < 32 by decide),
    hat _ (show 20 < 32 by decide), hat _ (show 21 < 32 by decide)]

theorem ptpTs64_datagram (p : Received n) (h : 48 ≤ p.bytes.length) (stale stale' : List Byte)
    (src : SockAddr) :
    ptpTs64 (p.datagram stale src) 40 = ptpTs64 (p.datagram stale' src) 40 := by
  rw [ptpTs64, ptpTs64]
  apply List.foldl_ext
  intro v i hi
  rw [List.mem_range] at hi
  rw [at_datagram p _ _ (by omega), at_datagram p _ _ (by omega)]

/-- The last byte of a body timestamp is its lowest. -/
theorem ptpTs64_low (d : Datagram) : (ptpTs64 d 40).setWidth 8 = d.at 47 := by
  have hlow : ∀ (v : U64) (b : Byte), ((v <<< 8) ||| b.setWidth 64).setWidth 8 = b := by
    intro v b
    apply BitVec.eq_of_getLsbD_eq
    intro i hi
    simp [hi]
  rw [ptpTs64, List.range_succ, List.foldl_append]
  exact hlow _ _

/-- A body timestamp that is not zero is kept. -/
theorem handlePacket_t1 {d : Datagram} {m : PtpMsg} (hmsg : d.msg = some m) (hbody : m.HasBody)
    (hpos : ptpTs64 d 40 > 0) (s : PtpState) (raw : U64) :
    (handlePacket s d raw).t1 = ptpTs64 d 40 := by
  rw [handlePacket, hmsg]
  rcases hbody with rfl | rfl
  · simp only [if_pos hpos]
  · rfl

/-- A buffer whose byte 47 is `b`. -/
def staleByte (p : Received 128) (b : Byte) : List Byte :=
  List.replicate (47 - p.bytes.length) 0 ++ b :: List.replicate 80 0

theorem at_staleByte {p : Received 128} (h : p.bytes.length < 48) (b : Byte) (src : SockAddr) :
    (p.datagram (staleByte p b) src).at 47 = b := by
  have hlen : (p.bytes ++ List.replicate (47 - p.bytes.length) 0).length = 47 := by
    rw [List.length_append, List.length_replicate]
    omega
  rw [Datagram.at, Received.datagram, staleByte, ← List.append_assoc,
    List.getD_append_right _ _ _ _ hlen.le, hlen]
  rfl

theorem length_staleByte {p : Received 128} (h : p.bytes.length < 48) (b : Byte) :
    (p.bytes ++ staleByte p b).length = 128 := by
  simp only [staleByte, List.length_append, List.length_replicate, List.length_cons]
  omega

/-- A packet decides what the endpoint does exactly if it has no body timestamp
or reaches to the end of it. -/
theorem packetDecides_iff (s : PtpState) (src : SockAddr) (raw : U64) (p : Received 128) :
    PacketDecides s src raw p ↔ 48 ≤ p.bytes.length ∨ ∀ m, p.msg = some m → ¬ m.HasBody := by
  constructor
  · intro h
    by_contra hnot
    rw [not_or, not_le, not_forall] at hnot
    obtain ⟨hshort, m, hm⟩ := hnot
    rw [not_forall, not_not] at hm
    obtain ⟨hmsg, hbody⟩ := hm
    have hkept : ∀ b : Byte, b ≠ 0 →
        (handlePacket s (p.datagram (staleByte p b) src) raw).t1.setWidth 8 = b := by
      intro b hb
      have hlow := ptpTs64_low (p.datagram (staleByte p b) src)
      rw [at_staleByte hshort] at hlow
      rw [handlePacket_t1 ((msg_datagram p _ src).trans hmsg) hbody, hlow]
      refine (BitVec.pos_iff_ne_zero _).mpr fun hzero => hb ?_
      rw [← hlow, hzero]
      rfl
    have heq := h (staleByte p 1) (staleByte p 2) (length_staleByte hshort 1) (length_staleByte hshort 2)
    have hone := hkept 1 (by decide)
    rw [heq, hkept 2 (by decide)] at hone
    exact absurd hone (by decide)
  · intro h stale stale' _ _
    cases hmsg : p.msg with
    | none =>
        rw [handlePacket_ignored ((msg_datagram p stale src).trans hmsg),
          handlePacket_ignored ((msg_datagram p stale' src).trans hmsg)]
    | some m =>
        have hlen := length_of_msg hmsg
        have hbody : m.HasBody → ptpTs64 (p.datagram stale src) 40 = ptpTs64 (p.datagram stale' src) 40 := by
          intro hm
          rcases h with hlong | hno
          · exact ptpTs64_datagram p hlong stale stale' src
          · exact absurd hm (hno m hmsg)
        rw [handlePacket, handlePacket, msg_datagram, msg_datagram, hmsg]
        cases m with
        | sync => simp only [hbody (Or.inl rfl)]
        | followUp => simp only [hbody (Or.inr rfl)]
        | announce =>
            simp only [at_datagram p stale src (show 10 < p.bytes.length by omega),
              at_datagram p stale' src (show 10 < p.bytes.length by omega)]
        | delayResp => simp only [ptpHdrTimeNs_datagram p hlen stale stale' src]

/-! ### The agent -/

namespace Esp32

/-- The same node, but for the buffer and the record of who wrote to it. -/
def PtpNode.Alike (n n' : PtpNode) : Prop := ∃ buf updates, n' = { n with buf, updates }

/-- The node after `recv` has put a packet into a buffer that held `stale`. -/
def PtpNode.over (n : PtpNode) (stale : RxBuf) (d : Datagram) : PtpNode :=
  { n with buf := stale.recv d }

/-- `process_packet` does the same whatever the rest of its buffer holds. -/
def PacketDecides (n : PtpNode) (d : Datagram) (t : PtpMoment) : Prop :=
  ∀ stale stale' : RxBuf,
    ((n.over stale d).processPacket d t).Alike ((n.over stale' d).processPacket d t)

theorem stamp_recv (stale : RxBuf) {d : Datagram} (h : 44 ≤ d.len) (stale' : RxBuf) :
    (stale.recv d).stamp = (stale'.recv d).stamp := by
  rw [RxBuf.stamp, RxBuf.stamp, List.map_inj_left]
  intro i hi
  rw [List.mem_range] at hi
  rw [RxBuf.recv, RxBuf.recv, if_pos (by omega), if_pos (by omega)]

/-- Two timestamps that differ only in the last byte. -/
theorem readTimestamp_ne {bytes : List UInt8} (h : bytes.length = 9) :
    readTimestamp (bytes ++ [0]) ≠ readTimestamp (bytes ++ [1]) := by
  have htake : ∀ b : UInt8, (bytes ++ [b]).take 6 = bytes.take 6 :=
    fun b => List.take_append_of_le_length (by omega)
  have hdrop : ∀ b : UInt8, ((bytes ++ [b]).drop 6).take 4 = bytes.drop 6 ++ [b] := by
    intro b
    rw [List.drop_append_of_le_length (by omega)]
    exact List.take_of_length_le (by simp [h])
  have hbit : ∀ v : UInt32, (v <<< 8) ||| (0 : UInt8).toUInt32 ≠ (v <<< 8) ||| (1 : UInt8).toUInt32 := by
    intro v heq
    have hlow := congrArg (fun x : UInt32 => x.toBitVec.getLsbD 0) heq
    simp at hlow
  intro heq
  rw [readTimestamp, readTimestamp, htake, htake, hdrop, hdrop, List.foldl_append, List.foldl_append,
    Int64.add_right_inj] at heq
  have hns := congrArg (fun x : Int64 => x.toUInt64.toUInt32) heq
  simp only [UInt64.toUInt64_toInt64, UInt32.toUInt32_toUInt64] at hns
  exact hbit _ hns

/-- What the stack holds, with a byte `b` at the end of the timestamp. -/
def staleStamp (b : UInt8) : RxBuf := fun i => ⟨if i = 43 then b else 0, none⟩

theorem stamp_staleStamp {d : Datagram} (h : d.len < 44) (b : UInt8) :
    (((staleStamp b).recv d).stamp.map RxByte.byte) =
      ((List.range 9).map fun i => (((staleStamp 0).recv d) (34 + i)).byte) ++ [b] := by
  rw [RxBuf.stamp, List.map_map, List.range_succ, List.map_append, List.map_singleton]
  have hfront : ((List.range 9).map fun i => ((staleStamp b).recv d (34 + i)).byte) =
      (List.range 9).map fun i => ((staleStamp 0).recv d (34 + i)).byte := by
    rw [List.map_inj_left]
    intro i hi
    rw [List.mem_range] at hi
    by_cases hin : 34 + i < d.len
    · simp only [RxBuf.recv, if_pos hin]
    · simp only [RxBuf.recv, if_neg hin, staleStamp, if_neg (show ¬ 34 + i = 43 by omega)]
  have hlast : ((staleStamp b).recv d (34 + 9)).byte = b := by
    have hout : ¬ 34 + 9 < d.len := by omega
    simp only [RxBuf.recv, if_neg hout, staleStamp, if_true]
  exact congrArg₂ (· ++ ·) hfront (congrArg (fun c => [c]) hlast)

theorem lastSyncGm_followUp (n : PtpNode) :
    n.followUp.lastSyncGm = readTimestamp (n.buf.stamp.map RxByte.byte) := by
  rw [PtpNode.followUp]
  dsimp only
  split <;> rfl

/-- All other branches leave the buffer alone. -/
theorem processPacket_alike {n : PtpNode} {d : Datagram} (h : ¬ Takes n.mode ptpFollowUp d)
    (t : PtpMoment) (stale stale' : RxBuf) :
    ((n.over stale d).processPacket d t).Alike ((n.over stale' d).processPacket d t) := by
  have hmode : ∀ stale : RxBuf, (n.over stale d).mode = n.mode := fun _ => rfl
  by_cases hsync : Takes n.mode ptpSync d
  · rw [@processPacket_sync (n.over stale d) d hsync, @processPacket_sync (n.over stale' d) d hsync]
    exact ⟨_, _, rfl⟩
  unfold PtpNode.processPacket
  rw [hmode, hmode]
  by_cases hlen : d.len < 34
  · rw [if_pos hlen, if_pos hlen]
    exact ⟨_, _, rfl⟩
  have hfollow : ¬ (d.type = ptpFollowUp ∧ n.mode ≠ 1) := fun hf => h ⟨by omega, hf.1, hf.2⟩
  have hother : ¬ (d.type = ptpSync ∧ n.mode ≠ 1) := fun hs => hsync ⟨by omega, hs.1, hs.2⟩
  rw [if_neg hlen, if_neg hlen, if_neg hother, if_neg hother, if_neg hfollow, if_neg hfollow]
  by_cases hdelay : d.type = ptpDelayReq ∧ n.mode = 1
  · rw [if_pos hdelay, if_pos hdelay]
    exact ⟨_, _, rfl⟩
  rw [if_neg hdelay, if_neg hdelay]
  by_cases hpdelay : d.type = ptpPdelayReq
  · rw [if_pos hpdelay, if_pos hpdelay]
    exact ⟨_, _, rfl⟩
  · rw [if_neg hpdelay, if_neg hpdelay]
    exact ⟨_, _, rfl⟩

/-- A packet decides what the agent does exactly if it is not taken as a
Follow_Up or reaches to the end of the timestamp. -/
theorem packetDecides_iff (n : PtpNode) (d : Datagram) (t : PtpMoment) :
    PacketDecides n d t ↔ 44 ≤ d.len ∨ ¬ Takes n.mode ptpFollowUp d := by
  constructor
  · intro h
    by_contra hnot
    rw [not_or, not_le, not_not] at hnot
    obtain ⟨hshort, htakes⟩ := hnot
    have hgm : ∀ b : UInt8,
        ((n.over (staleStamp b) d).processPacket d t).lastSyncGm =
          readTimestamp
            (((List.range 9).map fun i => (((staleStamp 0).recv d) (34 + i)).byte) ++ [b]) := by
      intro b
      rw [@processPacket_followUp (n.over (staleStamp b) d) d htakes, lastSyncGm_followUp]
      exact congrArg readTimestamp (stamp_staleStamp hshort b)
    obtain ⟨buf, updates, heq⟩ := h (staleStamp 0) (staleStamp 1)
    have hsame := congrArg PtpNode.lastSyncGm heq
    exact readTimestamp_ne (by simp) ((hgm 0).symm.trans (hsame.symm.trans (hgm 1)))
  · intro h stale stale'
    by_cases htakes : Takes n.mode ptpFollowUp d
    · have hlong := h.resolve_right (not_not.mpr htakes)
      have hstamp : (n.over stale d).buf.stamp = (n.over stale' d).buf.stamp :=
        stamp_recv stale hlong stale'
      have hlast : ∀ stale : RxBuf, (n.over stale d).lastSyncLocal = n.lastSyncLocal := fun _ => rfl
      rw [@processPacket_followUp (n.over stale d) d htakes,
        @processPacket_followUp (n.over stale' d) d htakes, PtpNode.followUp, PtpNode.followUp, hstamp,
        hlast, hlast]
      by_cases hlocal : n.lastSyncLocal ≠ 0
      · rw [if_pos hlocal, if_pos hlocal]
        exact ⟨_, _, rfl⟩
      · rw [if_neg hlocal, if_neg hlocal]
        exact ⟨_, _, rfl⟩
    · exact processPacket_alike htakes t stale stale'

end Esp32

/-! ### Both -/

/-- Which packets decide alone what a receiver does. -/
theorem receivers_iff (s : PtpState) (src : SockAddr) (raw : U64) (p : Received 128)
    (n : Esp32.PtpNode) (d : Esp32.Datagram) (t : Esp32.PtpMoment) :
    (PacketDecides s src raw p ↔ 48 ≤ p.bytes.length ∨ ∀ m, p.msg = some m → ¬ m.HasBody) ∧
      (Esp32.PacketDecides n d t ↔ 44 ≤ d.len ∨ ¬ Esp32.Takes n.mode Esp32.ptpFollowUp d) :=
  ⟨packetDecides_iff s src raw p, Esp32.packetDecides_iff n d t⟩

/-- A FOLLOW_UP for the endpoint that ends with its header. -/
def endpointHeaderOnly : Received 128 := ⟨[0, 8, 2] ++ List.replicate 41 0, by decide⟩

/-- A Follow_Up for the agent that ends with its header. -/
def agentHeaderOnly : Esp32.Datagram := [2, 8] ++ List.replicate 32 0

theorem headerOnly_undecided :
    ¬ PacketDecides (.init ⟨true, true⟩) ⟨0, 319⟩ 0 endpointHeaderOnly ∧
      ¬ Esp32.PacketDecides (.init (CText.Buf.copy 32 "esp32-01".toList) fun _ => 0) agentHeaderOnly ⟨0, 0⟩ := by
  constructor
  · rw [packetDecides_iff, not_or, not_forall]
    exact ⟨by decide, .followUp, fun h => h (by decide) (Or.inr rfl)⟩
  · rw [Esp32.packetDecides_iff, not_or, not_not]
    exact ⟨by decide, by decide⟩

end Htsn
