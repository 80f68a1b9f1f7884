import WirelessTsn.Wired.ConfigPath
import WirelessTsn.Wired.Ptp

/-!
Telemetry from the STM32 endpoint to the nodes of the OPC UA server: the
sender of a JSON report (`stm32-tsn/tsn/eth_proto.c`), the whole of
`on_telemetry` (`rpi-tsn/tsn_opcua_bridge.c`) and the endpoint's PTP status
(`stm32-tsn/tsn/ptp.c`).

The status has no `locked` member although the bridge reads one, so
`ptp_locked` is written false whatever the slave's state.
-/

namespace Htsn

open CText Json

/-! ### Text in a payload -/

/-- The bytes of a string, without its NUL. -/
def textBytes (s : CStr) : List Byte := s.map fun c => BitVec.ofNat 8 c.toNat

/-- The string that starts at a buffer of bytes behind which a NUL was put. -/
def bytesText (bs : List Byte) : CStr :=
  (bs.map fun b => Char.ofNat b.toNat).takeWhile (· != '\x00')

/-- Characters of one byte other than NUL. -/
def IsBytes (s : CStr) : Prop := ∀ c ∈ s, c.toNat ≠ 0 ∧ c.toNat < 256

instance (s : CStr) : Decidable (IsBytes s) :=
  inferInstanceAs (Decidable (∀ c ∈ s, c.toNat ≠ 0 ∧ c.toNat < 256))

theorem textBytes_length (s : CStr) : (textBytes s).length = s.length := by
  simp [textBytes]

theorem bytesText_textBytes {s : CStr} (h : IsBytes s) : bytesText (textBytes s) = s := by
  have hmap : (textBytes s).map (fun b => Char.ofNat b.toNat) = s := by
    rw [textBytes, List.map_map]
    refine (List.map_congr_left fun c hc => ?_).trans (List.map_id' s)
    have hbyte : (BitVec.ofNat 8 c.toNat).toNat = c.toNat := Nat.mod_eq_of_lt (h c hc).2
    simp only [Function.comp_apply, hbyte, Char.ofNat_toNat]
  rw [bytesText, hmap]
  apply List.takeWhile_eq_self_iff.mpr
  intro c hc
  rw [bne_iff_ne]
  rintro rfl
  exact (h _ hc).1 rfl

theorem IsBytes.append {s t : CStr} (hs : IsBytes s) (ht : IsBytes t) : IsBytes (s ++ t) := by
  intro c hc
  rcases List.mem_append.mp hc with hc | hc
  · exact hs c hc
  · exact ht c hc

theorem isBytes_showInt (v : Int) : IsBytes (showInt v) := by
  have hdigits : IsBytes (Nat.toDigits 10 v.natAbs) := by
    intro c hc
    have hdigit := toDigits_isDigit v.natAbs c hc
    simp only [Char.isDigit, Bool.and_eq_true, decide_eq_true_eq] at hdigit
    have hlo : 48 ≤ c.toNat := UInt32.le_iff_toNat_le.mp hdigit.1
    have hhi : c.toNat ≤ 57 := UInt32.le_iff_toNat_le.mp hdigit.2
    omega
  unfold showInt
  split
  · exact IsBytes.append (s := ['-']) (by decide) hdigits
  · exact hdigits

/-! ### The nodes and `on_telemetry` -/

def jbool (buf key : CStr) (dflt : Bool) : Bool :=
  match jfind buf key with
  | none => dflt
  | some p => p.head?.any fun c => c == 't' || c == '1' || c == 'T' || c == 'y'

/-- A `UA_Variant` of the type `UA_INT16`; `data` is what its pointer leads to,
`none` where that is NULL or the marker of an empty array. -/
structure Int16Variant where
  arrayLength : Nat
  data : Option (List (BitVec 16))
  deriving DecidableEq, Repr

/-- What was last written to the nodes of telemetry, at first the values
`htsn_build_address_space` gives them; `sweepBuf` is the static buffer of
`on_telemetry`. -/
structure TelemNodes where
  sweepBuf : Vector (BitVec 16) 2048 := Vector.replicate 2048 0
  sonarSweep : Int16Variant := ⟨0, none⟩
  sonarSweepId : BitVec 32 := 0
  servoAngle : BitVec 16 := 90
  relayOn : Bool := false
  buzzerHz : BitVec 16 := 0
  buzzerMs : BitVec 16 := 0
  btn1 : Bool := false
  btn2 : Bool := false
  btn3 : Bool := false
  btn4 : Bool := false
  ptpOffsetNs : Int64 := 0
  ptpState : Byte := 2
  ptpLocked : Bool := false
  app : AppNodes := {}
  deriving DecidableEq, Repr

def kindTelemSweep : Byte := 2
def kindTelemButtons : Byte := 3
def kindTelemActuator : Byte := 4
def kindTelemPtp : Byte := 5

/-- The variant of `w_int16arr`. -/
def wInt16arr (a : List (BitVec 16)) (n : Nat) : Int16Variant := ⟨n, some a⟩

def TelemNodes.onSweep (n : TelemNodes) (pl : List Byte) : TelemNodes :=
  if pl.length < 4 then n
  else
    let cnt := min ((pl.length - 4) / 2) 2048
    let sweep := (List.range cnt).foldl (fun a i =>
      a.setIfInBounds i (le16 (pl.getD (4 + i * 2) 0) (pl.getD (5 + i * 2) 0))) n.sweepBuf
    { n with
      sweepBuf := sweep
      sonarSweep := wInt16arr sweep.toList cnt
      sonarSweepId := le32 (pl.getD 0 0) (pl.getD 1 0) (pl.getD 2 0) (pl.getD 3 0) }

def TelemNodes.onButtons (n : TelemNodes) : List Byte → TelemNodes
  | m :: _ =>
      { n with
        btn1 := m.getLsbD 0
        btn2 := m.getLsbD 1
        btn3 := m.getLsbD 2
        btn4 := m.getLsbD 3 }
  | [] => n

/-- All four nodes are written; a missing member counts as zero. -/
def TelemNodes.onActuator (n : TelemNodes) (jb : CStr) : TelemNodes :=
  { n with
    servoAngle := (jint jb "angle".toList 0).toBitVec.setWidth 16
    buzzerHz := (jint jb "hz".toList 0).toBitVec.setWidth 16
    buzzerMs := (jint jb "ms".toList 0).toBitVec.setWidth 16
    relayOn := jbool jb "on".toList false }

def TelemNodes.onPtp (n : TelemNodes) (jb : CStr) : TelemNodes :=
  { n with
    ptpOffsetNs := jint jb "offset_ns".toList 0
    ptpState := (jint jb "state".toList 0).toBitVec.setWidth 8
    ptpLocked := jbool jb "locked".toList false }

/-- `on_telemetry`; the payload is never longer than the text buffer. A hello
is only logged. -/
def TelemNodes.onTelemetry (n : TelemNodes) (kind : Byte) (pl : List Byte) : TelemNodes :=
  if kind = kindTelemSweep then n.onSweep pl
  else if kind = kindTelemButtons then n.onButtons pl
  else if kind = kindTelemActuator then n.onActuator (bytesText pl)
  else if kind = kindTelemPtp then n.onPtp (bytesText pl)
  else { n with app := Htsn.onTelemetry n.app kind pl }

/-- What the main loop does with a datagram, as far as the nodes go. -/
def TelemNodes.receive (n : TelemNodes) (buf : List Byte) : TelemNodes :=
  match Rpi.htsnFrameUnpack buf with
  | some u => if u.type = typeTelem then n.onTelemetry u.kind u.payload else n
  | none => n

/-! ### The sender -/

/-- `htsn_net_publish_telemetry`, with the frame that it sends. -/
def publishTelemetry (kind payload : CStr) : Option (List Byte) :=
  let k :=
    if kind = "sonar".toList then kindTelemSweep
    else if kind = "buttons".toList then kindTelemButtons
    else if kind = "ptp".toList then kindTelemPtp
    else kindTelemActuator
  Stm32.htsnFramePack typeTelem k (textBytes payload)

/-- A packed telemetry frame reaches `on_telemetry` with its kind and
payload. -/
theorem receive_packed {kind : Byte} {payload frame : List Byte}
    (h : Stm32.htsnFramePack typeTelem kind payload = some frame) (n : TelemNodes) :
    n.receive frame = n.onTelemetry kind payload := by
  rw [frame_codecs_same.1] at h
  have hunpack : Rpi.htsnFrameUnpack frame = some ⟨typeTelem, kind, payload⟩ :=
    frameUnpack_eq_some.mpr ⟨frame, h, List.prefix_refl frame⟩
  rw [TelemNodes.receive, hunpack]
  exact if_pos rfl

theorem exists_packed {payload : List Byte} (h : payload.length ≤ 384) (kind : Byte) :
    ∃ frame, Stm32.htsnFramePack typeTelem kind payload = some frame := by
  rw [frame_codecs_same.1]
  exact ⟨_, framePack_eq_some.mpr ⟨h, rfl⟩⟩

/-! ### The bridge's readers on a compact object -/

section

variable {key : CStr} {ms later : List (Plain × Value)}

/-- A search for a key finds the value of the first member with it. -/
theorem jfind_compact (hkey : IsKey key) (hlen : key.length ≤ 60)
    (hdist : (ms.map fun m => m.1.chars).Nodup) :
    jfind (compactObject ms).text key = (memberAt key ms).map fun l =>
      (l.1.text (membersTail [] (compactMembers l.2))).dropWhile isBlank := by
  have hdistinct : Distinct (compactObject ms).members := by
    simpa [Distinct, compactObject, compactMembers, Function.comp_def, Member.compact] using hdist
  have hvalue := locate_compact key 1 ms
  have hloc : (compactObject ms).locate key = locate key 1 (compactMembers ms) := rfl
  cases h : (compactObject ms).locate key with
  | none =>
      have hfind := jfind_object hkey hlen hdistinct (compactObject ms).text.length
      rw [List.take_length, h] at hfind
      rw [← hloc, h, Option.map_none] at hvalue
      rw [hfind, Option.map_eq_none_iff.mp hvalue.symm]
      rfl
  | some l =>
      obtain ⟨off, m, behind⟩ := l
      rw [← hloc, h, Option.map_some] at hvalue
      obtain ⟨v, hv, hpair⟩ := Option.map_eq_some_iff.mp hvalue.symm
      rw [Prod.mk.injEq] at hpair
      -- A cut far behind the end of the text takes nothing away.
      have hfind := jfind_object hkey hlen hdistinct ((compactObject ms).text.length +
        (off + m.valueAt) + (m.valueText (membersTail [] behind)).length)
      rw [List.take_of_length_le (by omega), h, searched, if_pos ⟨hpair.1.symm, by omega⟩] at hfind
      have htrail : (compactObject ms).trail.chars = [] := rfl
      rw [htrail, List.take_of_length_le (by omega)] at hfind
      rw [hfind, hv, Option.map_some, Option.map_some, hpair.2]

theorem jint_absent (hkey : IsKey key) (hlen : key.length ≤ 60)
    (hdist : (ms.map fun m => m.1.chars).Nodup) (hnone : memberAt key ms = none) (dflt : Int64) :
    jint (compactObject ms).text key dflt = dflt := by
  rw [jint, jfind_compact hkey hlen hdist, hnone, Option.map_none]

/-- A printed integer is read back. -/
theorem jint_number (hkey : IsKey key) (hlen : key.length ≤ 60)
    (hdist : (ms.map fun m => m.1.chars).Nodup) {v : Int}
    (hsome : memberAt key ms = some (.ofInt v, later)) (dflt : Int64) :
    jint (compactObject ms).text key dflt = toCLongLong v := by
  have hscan : scanInt (showInt v ++ membersTail [] (compactMembers later)) =
      some (v, membersTail [] (compactMembers later)) :=
    scanInt_showInt v _ (afterValue_not_digit .none [] (compactMembers later))
  rw [jint, jfind_compact hkey hlen hdist, hsome, Option.map_some]
  simp only [strtoll, scanInt_dropWhile_isBlank, Value.text_ofInt, hscan]

theorem jbool_absent (hkey : IsKey key) (hlen : key.length ≤ 60)
    (hdist : (ms.map fun m => m.1.chars).Nodup) (hnone : memberAt key ms = none) (dflt : Bool) :
    jbool (compactObject ms).text key dflt = dflt := by
  rw [jbool, jfind_compact hkey hlen hdist, hnone, Option.map_none]

/-- So is a printed bit. -/
theorem jbool_bit (hkey : IsKey key) (hlen : key.length ≤ 60)
    (hdist : (ms.map fun m => m.1.chars).Nodup) {on : Bool}
    (hsome : memberAt key ms = some (.ofInt (if on then 1 else 0), later)) (dflt : Bool) :
    jbool (compactObject ms).text key dflt = on := by
  rw [jbool, jfind_compact hkey hlen hdist, hsome, Option.map_some]
  cases on <;> rfl

end

/-! ### The PTP status -/

/-- The status `ptp_task_fn` prints into its `char st[72]`. -/
def ptpStatus (s : PtpState) : CStr :=
  (Buf.copy 72 ("\x7b\"offset_ns\":".toList ++ (showInt s.lastOffsetNs.toInt ++
    (",\"jitter_ns\":0,\"state\":".toList ++
      (showInt (if s.locked then 0 else 2) ++ "\x7d".toList))))).chars

/-- The frame of the status. -/
def ptpStatusFrame (s : PtpState) : Option (List Byte) := publishTelemetry "ptp".toList (ptpStatus s)

def ptpStatusMembers (s : PtpState) : List (Plain × Value) :=
  [(.lit "offset_ns".toList, .ofInt s.lastOffsetNs.toInt),
    (.lit "jitter_ns".toList, .ofInt 0),
    (.lit "state".toList, .ofInt (if s.locked then 0 else 2))]

/-- The status always fits its buffer, the least offset included. -/
theorem ptpStatus_eq (s : PtpState) : ptpStatus s = (compactObject (ptpStatusMembers s)).text := by
  have hoffset : (showInt s.lastOffsetNs.toInt).length ≤ 20 := by
    have hlo := s.lastOffsetNs.le_toInt
    have hhi := s.lastOffsetNs.toInt_lt
    exact showInt_length_le (by omega) (by omega)
  have hstate : (showInt (if s.locked then 0 else 2)).length ≤ 2 := by
    cases s.locked <;> decide
  have htext : (compactObject (ptpStatusMembers s)).text =
      "\x7b\"offset_ns\":".toList ++ (showInt s.lastOffsetNs.toInt ++
        (",\"jitter_ns\":0,\"state\":".toList ++
          (showInt (if s.locked then 0 else 2) ++ "\x7d".toList))) := by
    have hzero : showInt 0 = ['0'] := rfl
    simp only [compactObject, compactMembers, ptpStatusMembers, Object.text, List.map_cons, List.map_nil,
      membersText, membersTail, Member.text, Member.compact, Member.valueText, Value.text_ofInt]
    simp only [hzero, Ws.none, String.reduceToList, List.cons_append, List.nil_append]
  rw [htext, ptpStatus]
  apply Buf.copy_chars_of_lt
  simp only [String.reduceToList, List.length_append, List.length_cons, List.length_nil]
  omega

theorem isBytes_ptpStatus (s : PtpState) : IsBytes (ptpStatus s) := by
  intro c hc
  have hmem := List.mem_of_mem_take hc
  exact (IsBytes.append (by decide) (IsBytes.append (isBytes_showInt _) (IsBytes.append (by decide)
    (IsBytes.append (isBytes_showInt _) (by decide))))) c hmem

/-- What the bridge makes of a status. -/
theorem onTelemetry_ptpStatus (n : TelemNodes) (s : PtpState) :
    n.onTelemetry kindTelemPtp (textBytes (ptpStatus s)) =
      { n with
        ptpOffsetNs := Int64.ofBitVec s.lastOffsetNs
        ptpState := if s.locked then 0 else 2
        ptpLocked := false } := by
  have hdist : ((ptpStatusMembers s).map fun m => m.1.chars).Nodup := by
    simp only [ptpStatusMembers, List.map_cons, List.map_nil]
    decide
  have hoffset : jint (compactObject (ptpStatusMembers s)).text "offset_ns".toList 0 =
      toCLongLong s.lastOffsetNs.toInt := by
    exact jint_number ⟨by decide, 'o', rfl, by decide⟩ (by decide) hdist rfl 0
  have hstate : jint (compactObject (ptpStatusMembers s)).text "state".toList 0 =
      toCLongLong (if s.locked then 0 else 2) := by
    exact jint_number ⟨by decide, 's', rfl, by decide⟩ (by decide) hdist rfl 0
  have hlocked : jbool (compactObject (ptpStatusMembers s)).text "locked".toList false = false :=
    jbool_absent ⟨by decide, 'l', rfl, by decide⟩ (by decide) hdist rfl false
  have hback : toCLongLong s.lastOffsetNs.toInt = Int64.ofBitVec s.lastOffsetNs :=
    toCLongLong_toInt (Int64.ofBitVec s.lastOffsetNs)
  have hbyte : (toCLongLong (if s.locked then 0 else 2)).toBitVec.setWidth 8 =
      if s.locked then 0 else 2 := by
    cases s.locked <;> rfl
  have hbranch : n.onTelemetry kindTelemPtp (textBytes (ptpStatus s)) =
      n.onPtp (bytesText (textBytes (ptpStatus s))) := rfl
  rw [hbranch, bytesText_textBytes (isBytes_ptpStatus s), ptpStatus_eq, TelemNodes.onPtp, hoffset,
    hstate, hlocked, hback, hbyte]

/-- Processing the slave's status frame writes its offset and its lock
state. -/
def StatusShown (s : PtpState) (n : TelemNodes) : Prop :=
  ∃ frame, ptpStatusFrame s = some frame ∧
    (n.receive frame).ptpOffsetNs = Int64.ofBitVec s.lastOffsetNs ∧
    ((n.receive frame).ptpLocked = true ↔ s.locked = true)

/-- Every status is sent, and the bridge makes of it what it makes of its
text. -/
theorem receive_ptpStatusFrame (s : PtpState) : ∃ frame, ptpStatusFrame s = some frame ∧
    ∀ n : TelemNodes, n.receive frame =
      { n with
        ptpOffsetNs := Int64.ofBitVec s.lastOffsetNs
        ptpState := if s.locked then 0 else 2
        ptpLocked := false } := by
  have hlen : (textBytes (ptpStatus s)).length ≤ 384 := by
    have hfits : (ptpStatus s).length < 72 := Buf.fits _
    rw [textBytes_length]
    omega
  obtain ⟨frame, hframe⟩ := exists_packed hlen kindTelemPtp
  refine ⟨frame, hframe, fun n => ?_⟩
  rw [receive_packed hframe, onTelemetry_ptpStatus]

theorem not_statusShown {s : PtpState} (hlocked : s.locked = true) (n : TelemNodes) :
    ¬ StatusShown s n := by
  obtain ⟨frame, hframe, hreceive⟩ := receive_ptpStatusFrame s
  rintro ⟨frame', hframe', _, hlock⟩
  rw [hframe, Option.some.injEq] at hframe'
  subst hframe'
  rw [hreceive] at hlock
  exact Bool.false_ne_true (hlock.mpr hlocked)

/-- The status of an unlocked slave is shown as it is. Of a locked one the
offset arrives, the lock never does. -/
theorem statusShown_iff (s : PtpState) (n : TelemNodes) : StatusShown s n ↔ s.locked = false := by
  constructor
  · intro hshown
    rw [← Bool.not_eq_true]
    exact fun hlocked => not_statusShown hlocked n hshown
  · intro hfree
    obtain ⟨frame, hframe, hreceive⟩ := receive_ptpStatusFrame s
    refine ⟨frame, hframe, ?_, ?_⟩
    · rw [hreceive]
    · rw [hreceive, hfree]

theorem lockedSlave_not_shown :
    ¬ StatusShown { PtpState.init ⟨true, true⟩ with locked := true, lastOffsetNs := 7 } {} :=
  not_statusShown rfl {}

end Htsn
