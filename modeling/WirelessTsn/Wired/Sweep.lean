import WirelessTsn.Wired.Egress
import WirelessTsn.Wired.Telemetry

/-!
A sonar sweep from `htsn_net_publish_sweep` to the nodes of the OPC UA server.
The payload has room for 190 distances, and those arrive as they were. The
bridge builds the variant of the array by hand: for no distances it has length
zero next to a pointer, and that is open62541's form of a scalar.
-/

namespace Htsn

/-! ### Sending a sweep -/

/-- `(uint8_t)((v >> k) & 0xFF)` of a signed `v`. -/
def byteAt (v : BitVec 32) (k : Nat) : Byte := (v.sshiftRight k &&& 0xFF).setWidth 8

/-- The promotion of a distance to `int`. -/
def promote (d : Int16) : BitVec 32 := d.toBitVec.signExtend 32

def distanceBytes (d : Int16) : List Byte := [byteAt (promote d) 0, byteAt (promote d) 8]

/-- The loop of `htsn_net_publish_sweep`, with `o` bytes in the payload. -/
def sweepLoop (o : Nat) : List Int16 → List Byte
  | [] => []
  | d :: rest => if o + 1 < frameMaxplen then distanceBytes d ++ sweepLoop (o + 2) rest else []

/-- Its payload for the first `n` elements of the array. -/
def sweepPayload (id : Int32) (sweep : List Int16) : List Byte :=
  [byteAt id.toBitVec 0, byteAt id.toBitVec 8, byteAt id.toBitVec 16, byteAt id.toBitVec 24] ++
    sweepLoop 4 sweep

def publishSweep (socks : Sockets) (e : Endpoint) (id : Int32) (sweep : List Int16) : Option Outgoing :=
  sendFrame socks e kindTelemSweep (sweepPayload id sweep)

/-- The frame as it comes out of the bridge's UDP socket. -/
def Outgoing.frame : Outgoing → Option (List Byte)
  | .tagged packet => (parseTagged packet).map TaggedPacket.data
  | .plain frame => some frame

/-! ### What a variant holds -/

inductive UaInt16s where
  | scalar (v : BitVec 16)
  | array (vs : List (BitVec 16))
  deriving DecidableEq, Repr

/-- How open62541 takes a variant with a data pointer (`UA_Variant_isScalar`). -/
structure ReadsVariants (value : Int16Variant → UaInt16s) : Prop where
  scalar : ∀ ds, value ⟨0, some ds⟩ = .scalar (ds.getD 0 0)
  array : ∀ n ds, 0 < n → value ⟨n, some ds⟩ = .array (ds.take n)

/-- The frame makes the bridge write the id and the first distances. -/
def SweepArrives (value : Int16Variant → UaInt16s) (n : TelemNodes) (id : Int32)
    (sweep : List Int16) (sent : Outgoing) : Prop :=
  ∃ frame, sent.frame = some frame ∧
    (n.receive frame).sonarSweepId = id.toBitVec ∧
    value (n.receive frame).sonarSweep = .array ((sweep.take 190).map Int16.toBitVec)

/-! ### Bytes of signed values -/

theorem byteAt_getLsbD (v : BitVec 32) {k i : Nat} (hk : k ≤ 24) (hi : i < 8) :
    (byteAt v k).getLsbD i = v.getLsbD (k + i) := by
  have hmask : (0xFF : BitVec 32).getLsbD i = true := by
    interval_cases i <;> rfl
  simp only [byteAt, BitVec.getLsbD_setWidth, BitVec.getLsbD_and, BitVec.getLsbD_sshiftRight,
    hmask]
  simp [hi, show ¬ 32 ≤ i by omega, show k + i < 32 by omega]

theorem byteAt_eq (v : BitVec 32) {k : Nat} (hk : k ≤ 24) : byteAt v k = (v >>> k).setWidth 8 := by
  apply BitVec.eq_of_getLsbD_eq
  intro i hi
  rw [byteAt_getLsbD v hk hi, BitVec.getLsbD_setWidth, BitVec.getLsbD_ushiftRight]
  simp [hi]

/-- The sign's copies above the sixteen bits do not reach the two bytes. -/
theorem le16_distanceBytes (d : Int16) :
    le16 (byteAt (promote d) 0) (byteAt (promote d) 8) = d.toBitVec := by
  have hbit : ∀ j, j < 16 → (promote d).getLsbD j = d.toBitVec.getLsbD j := by
    intro j hj
    rw [promote, BitVec.getLsbD_signExtend]
    simp [hj, show j < 32 by omega]
  apply BitVec.eq_of_getLsbD_eq
  intro i hi
  simp only [le16, BitVec.getLsbD_or, BitVec.getLsbD_shiftLeft, BitVec.getLsbD_setWidth]
  by_cases hlow : i < 8
  · rw [byteAt_getLsbD _ (by omega) hlow, hbit _ (by omega)]
    simp [hi, hlow]
  · have hback : 8 + (i - 8) = i := by omega
    rw [byteAt_getLsbD _ (k := 8) (by omega) (show i - 8 < 8 by omega), hback, hbit i hi,
      BitVec.getLsbD_of_ge _ _ (by omega)]
    simp [hi, hlow, show i - 8 < 16 by omega]

/-! ### The payload -/

/-- The loop stops where the next distance has no room. -/
theorem sweepLoop_eq (o : Nat) (sweep : List Int16) :
    sweepLoop o sweep = (sweep.take ((frameMaxplen - o) / 2)).flatMap distanceBytes := by
  induction sweep generalizing o with
  | nil => simp [sweepLoop]
  | cons d rest ih =>
      rw [sweepLoop]
      split
      · have hroom : (frameMaxplen - o) / 2 = (frameMaxplen - (o + 2)) / 2 + 1 := by omega
        rw [hroom, List.take_succ_cons, List.flatMap_cons, ih]
      · have hfull : (frameMaxplen - o) / 2 = 0 := by omega
        rw [hfull, List.take_zero, List.flatMap_nil]

theorem distances_length (ds : List Int16) : (ds.flatMap distanceBytes).length = 2 * ds.length := by
  induction ds with
  | nil => rfl
  | cons d ds ih =>
      rw [List.flatMap_cons, List.length_append, ih, List.length_cons]
      simp only [distanceBytes, List.length_cons, List.length_nil]
      omega

/-- Two bytes of the payload give their distance. -/
theorem le16_distances {ds : List Int16} {i : Nat} (h : i < ds.length) :
    le16 ((ds.flatMap distanceBytes).getD (i * 2) 0) ((ds.flatMap distanceBytes).getD (i * 2 + 1) 0) =
      ds[i].toBitVec := by
  induction ds generalizing i with
  | nil => simp at h
  | cons d ds ih =>
      cases i with
      | zero => exact le16_distanceBytes d
      | succ i =>
          have hskip : (i + 1) * 2 = i * 2 + 1 + 1 := by omega
          rw [hskip, List.flatMap_cons]
          exact ih (Nat.lt_of_succ_lt_succ h)

/-! ### The bridge's loop -/

/-- Assigning the first elements of a buffer one by one. -/
theorem toList_foldl_set {α : Type} {k : Nat} (f : Nat → α) (v : Vector α k) {n : Nat} (h : n ≤ k) :
    ((List.range n).foldl (fun a i => a.setIfInBounds i (f i)) v).toList =
      (List.range n).map f ++ v.toList.drop n := by
  induction n with
  | zero => simp
  | succ n ih =>
      obtain ⟨x, hdrop⟩ : ∃ x, v.toList.drop n = x :: v.toList.drop (n + 1) :=
        ⟨_, List.drop_eq_getElem_cons (by simpa using h)⟩
      have hend : n - ((List.range n).map f).length = 0 := by simp
      rw [List.range_succ, List.foldl_append, List.foldl_cons, List.foldl_nil,
        Vector.toList_setIfInBounds, ih (by omega), hdrop, List.set_append_right _ _ (by simp), hend,
        List.set_cons_zero, List.map_append, List.append_assoc]
      rfl

/-- What the bridge makes of a payload of distances. -/
theorem onSweep_distances (n : TelemNodes) (id : Int32) {ds : List Int16} (h : ds.length ≤ 2048) :
    let pl := [byteAt id.toBitVec 0, byteAt id.toBitVec 8, byteAt id.toBitVec 16,
      byteAt id.toBitVec 24] ++ ds.flatMap distanceBytes
    (n.onSweep pl).sonarSweepId = id.toBitVec ∧
      ∃ rest, (n.onSweep pl).sonarSweep = ⟨ds.length, some (ds.map Int16.toBitVec ++ rest)⟩ := by
  intro pl
  have hlen : pl.length = 2 * ds.length + 4 := by
    rw [List.length_append, distances_length, Nat.add_comm]
    rfl
  have hcnt : min ((pl.length - 4) / 2) 2048 = ds.length := by omega
  have hid : le32 (byteAt id.toBitVec 0) (byteAt id.toBitVec 8) (byteAt id.toBitVec 16)
      (byteAt id.toBitVec 24) = id.toBitVec := by
    rw [byteAt_eq _ (by decide), byteAt_eq _ (by decide), byteAt_eq _ (by decide),
      byteAt_eq _ (by decide), BitVec.ushiftRight_zero, le32_bytes]
  have hread : (List.range ds.length).map
      (fun i => le16 (pl.getD (4 + i * 2) 0) (pl.getD (5 + i * 2) 0)) = ds.map Int16.toBitVec := by
    refine List.ext_getElem (by simp) fun i hi _ => ?_
    rw [List.length_map, List.length_range] at hi
    have hskip : 4 + i * 2 = i * 2 + 4 ∧ 5 + i * 2 = i * 2 + 1 + 4 := by omega
    rw [List.getElem_map, List.getElem_range, List.getElem_map, ← le16_distances hi, hskip.1, hskip.2]
    rfl
  have hloop := toList_foldl_set
    (fun i => le16 (pl.getD (4 + i * 2) 0) (pl.getD (5 + i * 2) 0)) n.sweepBuf h
  rw [hread] at hloop
  have hlong : ¬ pl.length < 4 := by omega
  simp only [TelemNodes.onSweep, if_neg hlong, hcnt, wInt16arr]
  exact ⟨hid, _, congrArg (fun a => Int16Variant.mk ds.length (some a)) hloop⟩

/-! ### The round trip -/

theorem sweepPayload_eq (id : Int32) (sweep : List Int16) :
    sweepPayload id sweep =
      [byteAt id.toBitVec 0, byteAt id.toBitVec 8, byteAt id.toBitVec 16, byteAt id.toBitVec 24] ++
        (sweep.take 190).flatMap distanceBytes := by
  rw [sweepPayload, sweepLoop_eq]
  rfl

/-- Either way out carries the packed frame. -/
theorem sendFrame_frame {socks : Sockets} {e : Endpoint} {kind : Byte} {payload : List Byte}
    {sent : Outgoing} (h : sendFrame socks e kind payload = some sent) :
    ∃ frame, Stm32.htsnFramePack typeTelem kind payload = some frame ∧ sent.frame = some frame := by
  unfold sendFrame at h
  split at h
  · cases h
  · rename_i frame hpack
    refine ⟨frame, hpack, ?_⟩
    split at h
    · cases h
      rw [Outgoing.frame, buildTagged, parseTagged_buildTaggedPcp, Option.map_some]
    · split at h
      · cases h
        rfl
      · cases h

/-- The id and the variant that a published sweep makes the bridge write. -/
theorem receive_publishSweep {socks : Sockets} {e : Endpoint} {id : Int32} {sweep : List Int16}
    {sent : Outgoing} (h : publishSweep socks e id sweep = some sent) (n : TelemNodes) :
    ∃ frame rest, sent.frame = some frame ∧ (n.receive frame).sonarSweepId = id.toBitVec ∧
      (n.receive frame).sonarSweep =
        ⟨min sweep.length 190, some ((sweep.take 190).map Int16.toBitVec ++ rest)⟩ := by
  obtain ⟨frame, hpack, hframe⟩ := sendFrame_frame h
  have hshort : (sweep.take 190).length ≤ 2048 := by
    rw [List.length_take]
    omega
  obtain ⟨hid, rest, hsweep⟩ := onSweep_distances n id hshort
  rw [List.length_take, Nat.min_comm] at hsweep
  rw [← sweepPayload_eq] at hid hsweep
  have hreceive : n.receive frame = n.onSweep (sweepPayload id sweep) := receive_packed hpack n
  exact ⟨frame, rest, hframe, by rw [hreceive, hid], by rw [hreceive, hsweep]⟩

theorem empty_not_arrives {value : Int16Variant → UaInt16s} (hvalue : ReadsVariants value)
    {socks : Sockets} {e : Endpoint} {id : Int32} {sent : Outgoing}
    (h : publishSweep socks e id [] = some sent) (n : TelemNodes) :
    ¬ SweepArrives value n id [] sent := by
  obtain ⟨frame, rest, hframe, -, hsweep⟩ := receive_publishSweep h n
  rintro ⟨frame', hframe', -, harray⟩
  rw [hframe, Option.some.injEq] at hframe'
  subst hframe'
  rw [hsweep] at harray
  have hscalar := hvalue.scalar ([] ++ rest)
  exact UaInt16s.noConfusion (hscalar.symm.trans harray)

/-- A published sweep arrives unless it is empty. -/
theorem sweepArrives_iff {value : Int16Variant → UaInt16s} (hvalue : ReadsVariants value)
    {socks : Sockets} {e : Endpoint} {id : Int32} {sweep : List Int16} {sent : Outgoing}
    (h : publishSweep socks e id sweep = some sent) (n : TelemNodes) :
    SweepArrives value n id sweep sent ↔ 0 < sweep.length := by
  constructor
  · intro harrives
    rw [List.length_pos_iff]
    rintro rfl
    exact empty_not_arrives hvalue h n harrives
  · intro hpos
    obtain ⟨frame, rest, hframe, hid, hsweep⟩ := receive_publishSweep h n
    refine ⟨frame, hframe, hid, ?_⟩
    have hlen : ((sweep.take 190).map Int16.toBitVec).length = min sweep.length 190 := by
      rw [List.length_map, List.length_take, Nat.min_comm]
    rw [hsweep, hvalue.array _ _ (by omega), ← hlen, List.take_left]

/-- `UA_Variant_isScalar` tells the two forms apart. -/
def variantValue : Int16Variant → UaInt16s
  | ⟨0, some ds⟩ => .scalar (ds.getD 0 0)
  | ⟨n, ds⟩ => .array ((ds.getD []).take n)

theorem variantValue_reads : ReadsVariants variantValue where
  scalar _ := rfl
  array n ds h := by
    cases n with
    | zero => exact absurd h (Nat.lt_irrefl 0)
    | succ n => rfl

/-- The frame of a sweep over the plain socket. -/
def plainSweep (sweep : List Int16) : Outgoing :=
  .plain ((Stm32.htsnFramePack typeTelem kindTelemSweep (sweepPayload 7 sweep)).getD [])

theorem farSweep_arrives :
    SweepArrives variantValue {} 7 [-1, 25, -32768] (plainSweep [-1, 25, -32768]) ↔
      0 < [(-1 : Int16), 25, -32768].length := by
  have hsent : publishSweep ⟨true, false⟩ {} 7 [-1, 25, -32768] =
      some (plainSweep [-1, 25, -32768]) := rfl
  exact sweepArrives_iff variantValue_reads hsent {}

theorem emptySweep_not_arrives :
    publishSweep ⟨true, false⟩ {} 7 [] = some (plainSweep []) ∧
      ¬ SweepArrives variantValue {} 7 [] (plainSweep []) := by
  have hsent : publishSweep ⟨true, false⟩ {} 7 [] = some (plainSweep []) := rfl
  exact ⟨hsent, empty_not_arrives variantValue_reads hsent {}⟩

end Htsn
