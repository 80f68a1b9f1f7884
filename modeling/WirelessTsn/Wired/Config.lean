import WirelessTsn.Wired.Frame

/-!
The binary TSN configuration that bridge and endpoint exchange
(`htsn_tsn_cfg_t` of the two `htsn_frame.h`): a packed struct of 21 bytes in
little-endian order, followed by nine bytes for each gate entry.
-/

namespace Htsn

/-- `htsn_tsn_cfg_t`. -/
structure TsnCfg where
  priority : Byte
  trafficClass : Byte
  vlanId : BitVec 16
  preemption : Byte
  timesyncMode : Byte
  streamRole : Byte
  streamVlanId : BitVec 16
  streamPriority : Byte
  reserved : Byte := 0
  tasCycleNs : BitVec 64
  gclCount : BitVec 16
  deriving DecidableEq, Repr

/-- `sizeof(htsn_tsn_cfg_t)`. -/
def cfgSize : Nat := 21

/-- `HTSN_TSN_GCL_ENTRY`. -/
def gclEntrySize : Nat := 9

/-- `HTSN_TSN_MAX_GCL`. -/
def maxGcl : Nat := 16

/-- `HTSN_FRAME_MAXPLEN`. -/
def frameMaxplen : Nat := 384

/-- `HTSN_FRAME_MAX`, the size of a frame's buffer. -/
def frameMax : Nat := 391

def typeCmd : Byte := 0
def typeTelem : Byte := 1
def kindCmdTsnCfg : Byte := 7
def kindTelemTsnApplied : Byte := 6

/-- The eight bytes of a 64-bit value, the lowest first. -/
def le64Bytes (v : BitVec 64) : List Byte :=
  (List.range 8).map fun b => (v >>> (8 * b)).setWidth 8

/-- A 32-bit value from four bytes, the lowest first. -/
def le32 (b0 b1 b2 b3 : Byte) : BitVec 32 :=
  b0.setWidth 32 ||| (b1.setWidth 32 <<< 8) ||| (b2.setWidth 32 <<< 16) ||| (b3.setWidth 32 <<< 24)

/-- A 64-bit value from eight bytes, the lowest first. -/
def le64 (bs : List Byte) : BitVec 64 :=
  (List.range 8).foldl (fun v b => v ||| ((bs.getD b 0).setWidth 64 <<< (8 * b))) 0

def TsnCfg.toBytes (c : TsnCfg) : List Byte :=
  [c.priority, c.trafficClass, lo8 c.vlanId, hi8 c.vlanId, c.preemption, c.timesyncMode,
    c.streamRole, lo8 c.streamVlanId, hi8 c.streamVlanId, c.streamPriority, c.reserved] ++
    le64Bytes c.tasCycleNs ++ [lo8 c.gclCount, hi8 c.gclCount]

/-- `memcpy(&cfg, p, sizeof(cfg))`. -/
def TsnCfg.ofBytes (p : List Byte) : TsnCfg :=
  { priority := p.getD 0 0
    trafficClass := p.getD 1 0
    vlanId := le16 (p.getD 2 0) (p.getD 3 0)
    preemption := p.getD 4 0
    timesyncMode := p.getD 5 0
    streamRole := p.getD 6 0
    streamVlanId := le16 (p.getD 7 0) (p.getD 8 0)
    streamPriority := p.getD 9 0
    reserved := p.getD 10 0
    tasCycleNs := le64 ((p.drop 11).take 8)
    gclCount := le16 (p.getD 19 0) (p.getD 20 0) }

/-- A gate entry: the gate states and the duration. -/
def gclEntryBytes (e : BitVec 64 × BitVec 64) : List Byte :=
  e.1.setWidth 8 :: le64Bytes e.2

/-- The gate entries behind the struct. -/
def gclOfBytes : Nat → List Byte → List (Byte × BitVec 64)
  | 0, _ => []
  | n + 1, p => (p.getD 0 0, le64 ((p.drop 1).take 8)) :: gclOfBytes n (p.drop gclEntrySize)

@[simp] theorem le64Bytes_length (v : BitVec 64) : (le64Bytes v).length = 8 := by
  simp [le64Bytes]

@[simp] theorem TsnCfg.toBytes_length (c : TsnCfg) : c.toBytes.length = cfgSize := by
  simp [TsnCfg.toBytes, cfgSize]

@[simp] theorem gclEntryBytes_length (e : BitVec 64 × BitVec 64) :
    (gclEntryBytes e).length = gclEntrySize := by
  simp [gclEntryBytes, gclEntrySize]

theorem le32_bytes (v : BitVec 32) :
    le32 (v.setWidth 8) ((v >>> 8).setWidth 8) ((v >>> 16).setWidth 8) ((v >>> 24).setWidth 8) =
      v := by
  apply BitVec.eq_of_getLsbD_eq
  intro i hi
  obtain ⟨k, j, hk, hj, rfl⟩ : ∃ k j, k < 4 ∧ j < 8 ∧ i = 8 * k + j :=
    ⟨i / 8, i % 8, by omega, by omega, by omega⟩
  simp only [le32, BitVec.getLsbD_or, BitVec.getLsbD_shiftLeft, BitVec.getLsbD_setWidth,
    BitVec.getLsbD_ushiftRight]
  interval_cases k <;> grind

theorem le64_le64Bytes (v : BitVec 64) : le64 (le64Bytes v) = v := by
  apply BitVec.eq_of_getLsbD_eq
  intro i hi
  have hrange : List.range 8 = [0, 1, 2, 3, 4, 5, 6, 7] := rfl
  -- bit `j` of byte `k`; the other bytes do not reach it
  obtain ⟨k, j, hk, hj, rfl⟩ : ∃ k j, k < 8 ∧ j < 8 ∧ i = 8 * k + j :=
    ⟨i / 8, i % 8, by omega, by omega, by omega⟩
  simp only [le64, le64Bytes, hrange, List.map_cons, List.map_nil, List.foldl_cons,
    List.foldl_nil, List.getD_cons_zero, List.getD_cons_succ, BitVec.getLsbD_or,
    BitVec.getLsbD_shiftLeft, BitVec.getLsbD_setWidth, BitVec.getLsbD_ushiftRight]
  interval_cases k <;> grind

/-- The gate entries are read back from their bytes, whatever follows. -/
theorem gclOfBytes_entries (es : List (BitVec 64 × BitVec 64)) (rest : List Byte) :
    gclOfBytes es.length (es.flatMap gclEntryBytes ++ rest) =
      es.map fun e => (e.1.setWidth 8, e.2) := by
  induction es with
  | nil => rfl
  | cons e es ih =>
      have hdrop : (gclEntryBytes e ++ (es.flatMap gclEntryBytes ++ rest)).drop gclEntrySize =
          es.flatMap gclEntryBytes ++ rest := by
        rw [← gclEntryBytes_length e, List.drop_left]
      have hdur : ((gclEntryBytes e ++ (es.flatMap gclEntryBytes ++ rest)).drop 1).take 8 =
          le64Bytes e.2 := by
        rw [gclEntryBytes, List.cons_append, List.drop_succ_cons, List.drop_zero,
          List.take_append_of_le_length (by simp), List.take_of_length_le (by simp)]
      rw [List.flatMap_cons, List.append_assoc, List.length_cons, gclOfBytes, hdrop, hdur, ih,
        le64_le64Bytes]
      rfl

/-- The struct is read back from its bytes, whatever follows them. -/
theorem TsnCfg.ofBytes_toBytes (c : TsnCfg) (rest : List Byte) :
    TsnCfg.ofBytes (c.toBytes ++ rest) = c := by
  have hcycle := le64_le64Bytes c.tasCycleNs
  have hbytes : ∀ tail : List Byte, (le64Bytes c.tasCycleNs ++ tail).take 8 =
      le64Bytes c.tasCycleNs := by
    intro tail
    rw [List.take_append_of_le_length (by simp), List.take_of_length_le (by simp)]
  have hdrop : ((c.toBytes ++ rest).drop 11).take 8 = le64Bytes c.tasCycleNs := by
    simp only [TsnCfg.toBytes, List.cons_append, List.drop_succ_cons, List.nil_append,
      List.drop_zero, List.append_assoc, hbytes]
  obtain ⟨b0, b1, b2, b3, b4, b5, b6, b7, hlist⟩ : ∃ b0 b1 b2 b3 b4 b5 b6 b7,
      le64Bytes c.tasCycleNs = [b0, b1, b2, b3, b4, b5, b6, b7] :=
    ⟨_, _, _, _, _, _, _, _, rfl⟩
  have hshape : c.toBytes ++ rest = c.priority :: c.trafficClass :: lo8 c.vlanId ::
      hi8 c.vlanId :: c.preemption :: c.timesyncMode :: c.streamRole :: lo8 c.streamVlanId ::
      hi8 c.streamVlanId :: c.streamPriority :: c.reserved :: b0 :: b1 :: b2 :: b3 :: b4 :: b5 ::
      b6 :: b7 :: lo8 c.gclCount :: hi8 c.gclCount :: rest := by
    simp [TsnCfg.toBytes, hlist]
  unfold TsnCfg.ofBytes
  rw [hdrop, hcycle, hshape]
  simp only [List.getD_cons_succ, List.getD_cons_zero, le16_lo8_hi8]

end Htsn
