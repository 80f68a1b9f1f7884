import WirelessTsn.Esp32.Ptp
import WirelessTsn.Lib.BigEndian
import WirelessTsn.Wired.Ptp

/-!
The timestamp of PTP, six bytes of seconds and four of nanoseconds, and the two
pairs of functions that write and read it: `ptp_write_hdr_time` and
`ptp_hdr_time_ns` of the endpoint, `set_timestamp` and `read_timestamp` of the
agent. Each is compared with the format, and so they agree with each other.
-/

namespace Htsn

open BigEndian

/-! ### The format -/

/-- The bytes of a time in nanoseconds. -/
def stampBytes (t : Nat) : List Nat := bytes 6 (t / 1000000000) ++ bytes 4 (t % 1000000000)

/-- The nanoseconds behind the full seconds. -/
def stampNanos (ds : List Nat) : Nat := value (ds.drop 6)

def stampValue (ds : List Nat) : Nat := value (ds.take 6) * 1000000000 + stampNanos ds

/-- What is written is read back while the seconds have room. -/
theorem stampValue_stampBytes {t : Nat} (h : t < 2 ^ 64) : stampValue (stampBytes t) = t := by
  have hlen : (bytes 6 (t / 1000000000)).length = 6 := length_bytes _ _
  rw [stampValue, stampNanos, stampBytes, List.take_left' hlen, List.drop_left' hlen,
    value_bytes_of_lt (by omega), value_bytes_of_lt (by omega)]
  omega

/-- A field of less than a second's nanoseconds is the one of its time. -/
theorem stampBytes_stampValue {ds : List Nat} (hlen : ds.length = 10) (hbytes : ∀ d ∈ ds, d < 256)
    (hns : stampNanos ds < 1000000000) : stampBytes (stampValue ds) = ds := by
  have hsec : stampValue ds / 1000000000 = value (ds.take 6) := by
    rw [stampValue]
    omega
  have hnanos : stampValue ds % 1000000000 = value (ds.drop 6) := by
    rw [stampValue, stampNanos] at *
    omega
  have hfront : bytes (ds.take 6).length (value (ds.take 6)) = ds.take 6 :=
    bytes_value fun d hd => hbytes d (List.mem_of_mem_take hd)
  have hback : bytes (ds.drop 6).length (value (ds.drop 6)) = ds.drop 6 :=
    bytes_value fun d hd => hbytes d (List.mem_of_mem_drop hd)
  have hsix : (ds.take 6).length = 6 := by
    rw [List.length_take, hlen]
    rfl
  have hfour : (ds.drop 6).length = 4 := by rw [List.length_drop, hlen]
  rw [hsix] at hfront
  rw [hfour] at hback
  rw [stampBytes, hsec, hnanos, hfront, hback, List.take_append_drop]

/-! ### The endpoint -/

/-- Bytes 12 to 21 of a message. -/
def hdrTimeField (b : List Byte) : List Byte := (b.drop 12).take 10

theorem map_hdrTimeBytes (ns : U64) : (hdrTimeBytes ns).map BitVec.toNat = stampBytes ns.toNat := by
  have hsec : (ns / 1000000000 : U64).toNat = ns.toNat / 1000000000 := BitVec.toNat_udiv
  have hns : ((ns % 1000000000 : U64).setWidth 32).toNat = ns.toNat % 1000000000 := by
    have hmod : (ns % 1000000000 : U64).toNat = ns.toNat % 1000000000 := BitVec.toNat_umod
    rw [BitVec.toNat_setWidth, hmod]
    omega
  rw [hdrTimeBytes, stampBytes, ← hsec, ← hns]
  simp [bytes, Nat.shiftRight_eq_div_pow]

/-- What `ptp_hdr_time_ns` computes from ten bytes. -/
theorem ptpHdrTimeNs_toNat (d : Datagram) (h : 22 ≤ d.buf.length) :
    (ptpHdrTimeNs d).toNat = stampValue ((hdrTimeField d.buf).map BitVec.toNat) % 2 ^ 64 := by
  have hfield : hdrTimeField d.buf = (List.range 10).map fun i => d.at (12 + i) := by
    apply List.ext_getElem?
    intro i
    rw [hdrTimeField, List.getElem?_map, List.getElem?_take]
    split
    · rename_i hi
      rw [List.getElem?_drop, List.getElem?_range hi, Option.map_some, Datagram.at, List.getD_eq_getElem?_getD,
        List.getElem?_eq_getElem (by omega)]
      rfl
    · rw [List.getElem?_eq_none (by simpa using by omega)]
      rfl
  have hsec : ((d.at 12).setWidth 64 <<< 8 ||| (d.at 13).setWidth 64) <<< 32 |||
      ((d.at 14).setWidth 64 <<< 24 ||| (d.at 15).setWidth 64 <<< 16 |||
        (d.at 16).setWidth 64 <<< 8 ||| (d.at 17).setWidth 64) =
      shiftIn 64 ((List.range 6).map fun i => d.at (12 + i)) := by
    simp [shiftIn, List.range_succ, BitVec.shiftLeft_or_distrib, ← BitVec.shiftLeft_add, BitVec.or_assoc]
  have hns : (d.at 18).setWidth 64 <<< 24 ||| (d.at 19).setWidth 64 <<< 16 |||
      (d.at 20).setWidth 64 <<< 8 ||| (d.at 21).setWidth 64 =
      shiftIn 64 ((List.range 4).map fun i => d.at (18 + i)) := by
    simp [shiftIn, List.range_succ, BitVec.shiftLeft_or_distrib, ← BitVec.shiftLeft_add, BitVec.or_assoc]
  rw [hfield, ptpHdrTimeNs]
  simp only [hsec, hns]
  rw [BitVec.toNat_add, BitVec.toNat_mul, toNat_shiftIn (by simp), toNat_shiftIn (by simp)]
  simp only [List.map_map]
  rw [Nat.mod_add_mod]
  rfl

/-! ### The agent -/

/-- A time that is not negative is the same number without a sign. -/
theorem toUInt64_toNat {ns : Int64} (h : 0 ≤ ns.toInt) : (ns.toUInt64.toNat : Int) = ns.toInt := by
  have hcond : ns.toInt = if 2 * ns.toUInt64.toNat < 2 ^ 64 then (ns.toUInt64.toNat : Int)
      else (ns.toUInt64.toNat : Int) - 2 ^ 64 := BitVec.toInt_eq_toNat_cond ns.toBitVec
  split at hcond
  · exact hcond.symm
  · have hlt := ns.toUInt64.toNat_lt
    omega

/-- What `set_timestamp` writes. -/
theorem map_setTimestamp {ns : Int64} (h : 0 ≤ ns.toInt) :
    (Esp32.setTimestamp ns).map UInt8.toNat = stampBytes ns.toUInt64.toNat := by
  have hns := toUInt64_toNat h
  have hsec : (ns / 1000000000).toUInt64.toNat = ns.toUInt64.toNat / 1000000000 := by
    have hdiv : (ns / 1000000000).toInt = ns.toInt.tdiv 1000000000 :=
      Int64.toInt_div_of_ne_right ns 1000000000 (by decide)
    rw [Int.tdiv_eq_ediv_of_nonneg h] at hdiv
    have hnonneg : 0 ≤ (ns / 1000000000).toInt := by omega
    have hquot := toUInt64_toNat hnonneg
    omega
  have hnsec : (ns % 1000000000).toUInt64.toNat = ns.toUInt64.toNat % 1000000000 := by
    have hmod : (ns % 1000000000).toInt = ns.toInt.tmod 1000000000 := Int64.toInt_mod ns 1000000000
    rw [Int.tmod_eq_emod_of_nonneg h] at hmod
    have hnonneg : 0 ≤ (ns % 1000000000).toInt := by omega
    have hrest := toUInt64_toNat hnonneg
    omega
  rw [Esp32.setTimestamp, stampBytes, ← hsec, ← hnsec]
  simp [bytes, Nat.shiftRight_eq_div_pow]

/-- The loops of `read_timestamp`. -/
theorem toNat_foldl_uint64 {bs : List UInt8} (h : bs.length ≤ 8) :
    (bs.foldl (fun (v : UInt64) b => (v <<< 8) ||| b.toUInt64) 0).toNat = value (bs.map UInt8.toNat) := by
  have hfold : (bs.foldl (fun (v : UInt64) b => (v <<< 8) ||| b.toUInt64) 0).toBitVec =
      shiftIn 64 (bs.map UInt8.toBitVec) := by
    rw [shiftIn, List.foldl_map]
    exact (List.foldl_hom UInt64.toBitVec fun v b => rfl).symm
  have hroom : 8 * (bs.map UInt8.toBitVec).length ≤ 64 := by
    rw [List.length_map]
    omega
  have hshift := toNat_shiftIn hroom
  rw [← hfold, List.map_map] at hshift
  exact hshift

theorem toNat_foldl_uint32 {bs : List UInt8} (h : bs.length ≤ 4) :
    (bs.foldl (fun (v : UInt32) b => (v <<< 8) ||| b.toUInt32) 0).toNat = value (bs.map UInt8.toNat) := by
  have hfold : (bs.foldl (fun (v : UInt32) b => (v <<< 8) ||| b.toUInt32) 0).toBitVec =
      shiftIn 32 (bs.map UInt8.toBitVec) := by
    rw [shiftIn, List.foldl_map]
    exact (List.foldl_hom UInt32.toBitVec fun v b => rfl).symm
  have hroom : 8 * (bs.map UInt8.toBitVec).length ≤ 32 := by
    rw [List.length_map]
    omega
  have hshift := toNat_shiftIn hroom
  rw [← hfold, List.map_map] at hshift
  exact hshift

/-- What `read_timestamp` computes from ten bytes. -/
theorem readTimestamp_toNat {p : List UInt8} (h : p.length = 10) :
    (Esp32.readTimestamp p).toUInt64.toNat = stampValue (p.map UInt8.toNat) % 2 ^ 64 := by
  have hsec := toNat_foldl_uint64 (show (p.take 6).length ≤ 8 by rw [List.length_take]; omega)
  have hns := toNat_foldl_uint32 (show ((p.drop 6).take 4).length ≤ 4 by rw [List.length_take]; omega)
  have hrest : (p.drop 6).take 4 = p.drop 6 := List.take_of_length_le (by rw [List.length_drop, h])
  have hread : (Esp32.readTimestamp p).toUInt64 =
      (p.take 6).foldl (fun (v : UInt64) b => (v <<< 8) ||| b.toUInt64) 0 * (1000000000 : UInt64) +
        (((p.drop 6).take 4).foldl (fun (v : UInt32) b => (v <<< 8) ||| b.toUInt32) 0).toUInt64 := rfl
  rw [hread, UInt64.toNat_add, UInt64.toNat_mul, hsec, UInt32.toNat_toUInt64, hns, hrest, stampValue, stampNanos,
    List.map_take, List.map_drop, Nat.mod_add_mod]
  rfl

/-! ### Round trips -/

theorem hdrTimeBytes_length (ns : U64) : (hdrTimeBytes ns).length = 10 := rfl

theorem hdrTimeField_write {b : List Byte} (h : 22 ≤ b.length) (ns : U64) :
    hdrTimeField (ptpWriteHdrTime b ns) = hdrTimeBytes ns := by
  have hfront : (b.take 12).length = 12 := by
    rw [List.length_take]
    omega
  rw [hdrTimeField, ptpWriteHdrTime, List.drop_left' hfront, List.take_left' (hdrTimeBytes_length ns)]

/-- The endpoint reads back what it wrote. -/
theorem ptpHdrTimeNs_write {b : List Byte} (h : 22 ≤ b.length) (ns : U64) (len : Nat) (src : SockAddr) :
    ptpHdrTimeNs ⟨ptpWriteHdrTime b ns, len, src⟩ = ns := by
  have hlen : 22 ≤ (ptpWriteHdrTime b ns).length := by
    rw [ptpWriteHdrTime, List.length_append, List.length_append, hdrTimeBytes_length, List.length_take,
      List.length_drop]
    omega
  have hns : ns.toNat < 2 ^ 64 := ns.isLt
  apply BitVec.eq_of_toNat_eq
  rw [ptpHdrTimeNs_toNat _ hlen, hdrTimeField_write h, map_hdrTimeBytes, stampValue_stampBytes hns,
    Nat.mod_eq_of_lt hns]

/-- It writes back what it read. -/
theorem ptpWriteHdrTime_read {b : List Byte} (h : 22 ≤ b.length) (len : Nat) (src : SockAddr)
    (hns : stampNanos ((hdrTimeField b).map BitVec.toNat) < 1000000000)
    (hfits : stampValue ((hdrTimeField b).map BitVec.toNat) < 2 ^ 64) :
    ptpWriteHdrTime b (ptpHdrTimeNs ⟨b, len, src⟩) = b := by
  have hread := ptpHdrTimeNs_toNat ⟨b, len, src⟩ h
  rw [Nat.mod_eq_of_lt hfits] at hread
  have hlen : ((hdrTimeField b).map BitVec.toNat).length = 10 := by
    rw [List.length_map, hdrTimeField, List.length_take, List.length_drop]
    omega
  have hbytes : ∀ d ∈ (hdrTimeField b).map BitVec.toNat, d < 256 := by
    intro d hd
    obtain ⟨c, -, rfl⟩ := List.mem_map.mp hd
    exact c.isLt
  have hfield : hdrTimeBytes (ptpHdrTimeNs ⟨b, len, src⟩) = hdrTimeField b := by
    apply List.map_injective_iff.mpr (fun x y => BitVec.eq_of_toNat_eq)
    rw [map_hdrTimeBytes, hread, stampBytes_stampValue hlen hbytes hns]
  calc ptpWriteHdrTime b (ptpHdrTimeNs ⟨b, len, src⟩)
      = b.take 12 ++ ((b.drop 12).take 10 ++ (b.drop 12).drop 10) := by
        rw [ptpWriteHdrTime, hfield, hdrTimeField, List.drop_drop]
    _ = b := by rw [List.take_append_drop, List.take_append_drop]

/-- The agent reads back what it wrote. -/
theorem readTimestamp_set {ns : Int64} (h : 0 ≤ ns.toInt) : Esp32.readTimestamp (Esp32.setTimestamp ns) = ns := by
  have hns : ns.toUInt64.toNat < 2 ^ 64 := ns.toUInt64.toNat_lt
  have hread := readTimestamp_toNat (p := Esp32.setTimestamp ns) rfl
  rw [map_setTimestamp h, stampValue_stampBytes hns, Nat.mod_eq_of_lt hns] at hread
  exact Int64.toBitVec_inj.mp (BitVec.eq_of_toNat_eq hread)

/-- It writes back what it read. -/
theorem setTimestamp_read {p : List UInt8} (h : p.length = 10)
    (hns : stampNanos (p.map UInt8.toNat) < 1000000000) (hfits : stampValue (p.map UInt8.toNat) < 2 ^ 63) :
    Esp32.setTimestamp (Esp32.readTimestamp p) = p := by
  have hread := readTimestamp_toNat h
  rw [Nat.mod_eq_of_lt (hfits.trans (by decide))] at hread
  have hnonneg : 0 ≤ (Esp32.readTimestamp p).toInt := by
    have hint : (Esp32.readTimestamp p).toInt = (Esp32.readTimestamp p).toUInt64.toNat :=
      BitVec.toInt_eq_toNat_of_lt (by show 2 * (Esp32.readTimestamp p).toUInt64.toNat < _; omega)
    omega
  have hbytes : ∀ d ∈ p.map UInt8.toNat, d < 256 := by
    intro d hd
    obtain ⟨c, -, rfl⟩ := List.mem_map.mp hd
    exact c.toNat_lt
  apply List.map_injective_iff.mpr (fun x y => UInt8.toNat_inj.mp)
  rw [map_setTimestamp hnonneg, hread, stampBytes_stampValue (by rw [List.length_map, h]) hbytes hns]

/-- Both write the same bytes for the same time. -/
theorem setTimestamp_eq_hdrTimeBytes {ns : Int64} (h : 0 ≤ ns.toInt) :
    (Esp32.setTimestamp ns).map UInt8.toBitVec = hdrTimeBytes ns.toUInt64.toBitVec := by
  apply List.map_injective_iff.mpr (fun x y => BitVec.eq_of_toNat_eq)
  rw [List.map_map, map_hdrTimeBytes]
  exact map_setTimestamp h

/-- Each pair of functions is a round trip both ways, and the bytes of the one
are those of the other. -/
theorem timestamp_codecs :
    (∀ (b : List Byte) (ns : U64) (len : Nat) (src : SockAddr), 22 ≤ b.length →
      ptpHdrTimeNs ⟨ptpWriteHdrTime b ns, len, src⟩ = ns) ∧
    (∀ ns : Int64, 0 ≤ ns → Esp32.readTimestamp (Esp32.setTimestamp ns) = ns) ∧
    (∀ (b : List Byte) (len : Nat) (src : SockAddr), 22 ≤ b.length →
      stampNanos ((hdrTimeField b).map BitVec.toNat) < 1000000000 →
      stampValue ((hdrTimeField b).map BitVec.toNat) < 2 ^ 64 →
      ptpWriteHdrTime b (ptpHdrTimeNs ⟨b, len, src⟩) = b) ∧
    (∀ p : List UInt8, p.length = 10 → stampNanos (p.map UInt8.toNat) < 1000000000 →
      stampValue (p.map UInt8.toNat) < 2 ^ 63 → Esp32.setTimestamp (Esp32.readTimestamp p) = p) ∧
    ∀ (b : List Byte) (ns : Int64), 22 ≤ b.length → 0 ≤ ns →
      hdrTimeField (ptpWriteHdrTime b ns.toUInt64.toBitVec) = (Esp32.setTimestamp ns).map UInt8.toBitVec := by
  have hsign : ∀ {ns : Int64}, 0 ≤ ns → 0 ≤ ns.toInt := Int64.le_iff_toInt_le.mp
  refine ⟨?_, ?_, ?_, ?_, ?_⟩
  · exact fun b ns len src h => ptpHdrTimeNs_write h ns len src
  · exact fun ns h => readTimestamp_set (hsign h)
  · exact fun b len src h hns hfits => ptpWriteHdrTime_read h len src hns hfits
  · exact fun p h hns hfits => setTimestamp_read h hns hfits
  · intro b ns h hns
    rw [hdrTimeField_write h, setTimestamp_eq_hdrTimeBytes (hsign hns)]

/-- One and a half seconds, in an empty message. -/
theorem timestamp_codecs_short :
    ptpHdrTimeNs ⟨ptpWriteHdrTime (List.replicate 32 0) 1500000000, 32, ⟨0, 0⟩⟩ = 1500000000 ∧
      Esp32.readTimestamp (Esp32.setTimestamp 1500000000) = 1500000000 ∧
      ptpWriteHdrTime (List.replicate 32 0) (ptpHdrTimeNs ⟨List.replicate 32 0, 32, ⟨0, 0⟩⟩) = List.replicate 32 0 ∧
      Esp32.setTimestamp (Esp32.readTimestamp [0, 0, 0, 0, 0, 1, 29, 205, 101, 0]) =
        [0, 0, 0, 0, 0, 1, 29, 205, 101, 0] ∧
      hdrTimeField (ptpWriteHdrTime (List.replicate 32 0) (1500000000 : Int64).toUInt64.toBitVec) =
        (Esp32.setTimestamp 1500000000).map UInt8.toBitVec :=
  ⟨timestamp_codecs.1 _ _ _ _ (by decide), timestamp_codecs.2.1 _ (by decide),
    timestamp_codecs.2.2.1 _ _ _ (by decide) (by decide) (by decide),
    timestamp_codecs.2.2.2.1 _ rfl (by decide) (by decide),
    timestamp_codecs.2.2.2.2 _ _ (by decide) (by decide)⟩

end Htsn
