import WirelessTsn.Lib.CString
import WirelessTsn.Lib.Run

/-!
The agent's software gPTP (`htsn_ptp.c`). A slave remembers one arrival time,
that of the last Sync, and subtracts it from the timestamp of whatever
Follow_Up comes next. Neither the sequence id nor the source is compared. The
receive buffer is not cleared between packets, so a Follow_Up that ends before
its timestamp is completed by the bytes of an earlier packet.

Each byte of the buffer is kept with the packet that wrote it. The report that
the transmit task publishes is left out.
-/

namespace Htsn.Esp32

open CText

/-! ### Packets -/

abbrev Datagram := List UInt8

/-- The message types, as the second byte of a packet. -/
def ptpSync : UInt8 := 0x0
def ptpFollowUp : UInt8 := 0x8
def ptpDelayReq : UInt8 := 0x1
def ptpDelayResp : UInt8 := 0x9
def ptpPdelayReq : UInt8 := 0x2
def ptpPdelayResp : UInt8 := 0x3

/-- What `recv` returns for a datagram: the buffer holds 256 bytes. -/
def Datagram.len (d : Datagram) : Nat := min (List.length d) 256

def Datagram.type (d : Datagram) : UInt8 := List.getD d 1 0

/-- The sequence id and the source port identity of a packet. -/
structure PtpIds where
  source : List UInt8
  seq : List UInt8
  deriving DecidableEq

def Datagram.ids (d : Datagram) : PtpIds where
  source := (List.drop 18 d).take 10
  seq := (List.drop 28 d).take 2

/-- The clock identity and the port of a node. -/
structure PtpIdent where
  uuid : List UInt8
  portNumber : UInt16

/-- The identity `htsn_ptp_start` derives from the device id. -/
def PtpIdent.ofDevice (id : CStr) : PtpIdent where
  uuid := (List.range 8).map fun i => UInt8.ofNat (id.getD (i % max id.length 1) '\x00').toNat
  portNumber :=
    let first : UInt16 := UInt16.ofNat ((id.getD 0 '\x00').toNat % 256)
    (if first = 0 then 1 else first) ||| 1

/-- What a message is built with: the clock reading and the byte the stack
holds where the header leaves one out. -/
structure PtpMoment where
  now : Int64
  junk : UInt8 := 0

/-- `build_header`. Byte 31 is not written. -/
def buildHeader (ident : PtpIdent) (type : UInt8) (len seq : UInt16) (junk : UInt8) : List UInt8 :=
  [2, type, 0, 0, (len >>> 8).toUInt8, len.toUInt8, 0, 2, 0, 0, 0, 0, 0, 0, 0, 0, 0, 0] ++
    ident.uuid ++
    [(ident.portNumber >>> 8).toUInt8, ident.portNumber.toUInt8, (seq >>> 8).toUInt8, seq.toUInt8,
      if type = ptpSync then 0 else type >>> 4, junk, 0, 0]

/-- `set_timestamp`: six bytes of seconds, four of nanoseconds. -/
def setTimestamp (ns : Int64) : List UInt8 :=
  let sec := (ns / 1000000000).toUInt64
  let nsec := (ns % 1000000000).toUInt64
  [(sec >>> 40).toUInt8, (sec >>> 32).toUInt8, (sec >>> 24).toUInt8, (sec >>> 16).toUInt8,
    (sec >>> 8).toUInt8, sec.toUInt8, (nsec >>> 24).toUInt8, (nsec >>> 16).toUInt8,
    (nsec >>> 8).toUInt8, nsec.toUInt8]

/-- `read_timestamp`, of ten bytes. -/
def readTimestamp (bytes : List UInt8) : Int64 :=
  let sec : UInt64 := (bytes.take 6).foldl (fun v b => (v <<< 8) ||| b.toUInt64) 0
  let nsec : UInt32 := ((bytes.drop 6).take 4).foldl (fun v b => (v <<< 8) ||| b.toUInt32) 0
  sec.toInt64 * 1000000000 + nsec.toUInt64.toInt64

/-- A message with its header and one timestamp, of which `len` bytes are sent. -/
def ptpMessage (ident : PtpIdent) (type : UInt8) (len seq : UInt16) (t : PtpMoment) : Datagram :=
  (buildHeader ident type len seq t.junk ++ setTimestamp t.now).take len.toNat

/-! ### The node -/

structure RxByte where
  byte : UInt8
  writer : Option Datagram

/-- The buffer of `ptp_rx_loop`. -/
abbrev RxBuf := Nat → RxByte

def RxBuf.recv (buf : RxBuf) (d : Datagram) : RxBuf := fun i =>
  if i < Datagram.len d then ⟨List.getD d i 0, some d⟩ else buf i

/-- The ten bytes from `PTP_PAYLOAD_OFFSET` on. -/
def RxBuf.stamp (buf : RxBuf) : List RxByte := (List.range 10).map fun i => buf (34 + i)

structure PtpReport where
  offsetNs : Int64 := 0
  jitterNs : Int64 := 0
  state : Int32 := 0
  mode : Int32 := 0
  grandmaster : Buf 32 := Buf.empty
  grandmasterId : Buf 64 := Buf.empty

/-- An update of the offset, by the Sync whose arrival time and the packets
whose bytes it was computed from. -/
structure PtpUpdate where
  sync : Option Datagram
  stamp : List (Option Datagram)
  deriving DecidableEq

inductive PtpSock where
  | event
  | general
  deriving DecidableEq

structure PtpNode where
  deviceId : Buf 32
  ident : PtpIdent
  mode : Int32 := 0
  report : PtpReport := {}
  buf : RxBuf
  lastSyncLocal : Int64 := 0
  lastSyncGm : Int64 := 0
  delayReqLocal : Int64 := 0
  /-- The static counters of the two responses. -/
  respSeq : UInt16 := 1
  pseq : UInt16 := 1
  /-- The locals of `ptp_tx_loop`. -/
  txSeq : UInt16 := 1
  lastSyncTx : Int64 := 0
  lastDreq : Int64 := 0
  lastPdreq : Int64 := 0
  sent : List (PtpSock × Datagram) := []
  lastSync : Option Datagram := none
  updates : List PtpUpdate := []

variable {n : PtpNode}

/-- The node before its tasks run; `buf` is what the stack of the receiver
holds. -/
def PtpNode.init (deviceId : Buf 32) (buf : Nat → UInt8) : PtpNode where
  deviceId := deviceId
  ident := PtpIdent.ofDevice deviceId.chars
  buf := fun i => ⟨buf i, none⟩

def PtpNode.send (n : PtpNode) (sock : PtpSock) (d : Datagram) : PtpNode :=
  { n with sent := n.sent ++ [(sock, d)] }

/-- `send_sync`: both messages under one sequence id. -/
def PtpNode.sendSync (n : PtpNode) (seq : UInt16) (t t' : PtpMoment) : PtpNode :=
  (n.send .event (ptpMessage n.ident ptpSync 44 seq t)).send .event
    (ptpMessage n.ident ptpFollowUp 44 seq t')

/-- `send_delayreq`. -/
def PtpNode.sendDelayReq (n : PtpNode) (t : PtpMoment) : PtpNode :=
  { n.send .event (ptpMessage n.ident ptpDelayReq 42 n.txSeq t) with
    txSeq := n.txSeq + 1, delayReqLocal := t.now }

/-- `send_pdelayreq`. -/
def PtpNode.sendPdelayReq (n : PtpNode) (t : PtpMoment) : PtpNode :=
  { n.send .event (ptpMessage n.ident ptpPdelayReq 44 n.txSeq t) with txSeq := n.txSeq + 1 }

/-- The Follow_Up branch of `process_packet`, on the buffer. -/
def PtpNode.followUp (n : PtpNode) : PtpNode :=
  let gm := readTimestamp (n.buf.stamp.map RxByte.byte)
  if n.lastSyncLocal ≠ 0 then
    let diff := gm - n.lastSyncLocal
    let off := if diff < 0 then -diff else diff
    { n with
      lastSyncGm := gm
      report := { n.report with
        offsetNs := off
        jitterNs := if n.report.jitterNs < off then off else n.report.jitterNs
        state := if off < 100000000 then 0 else 1 }
      updates := n.updates ++ [⟨n.lastSync, n.buf.stamp.map RxByte.writer⟩] }
  else { n with lastSyncGm := gm }

/-- `process_packet` on the packet `d`, which stands in the buffer. -/
def PtpNode.processPacket (n : PtpNode) (d : Datagram) (t : PtpMoment) : PtpNode :=
  if Datagram.len d < 34 then n
  else if Datagram.type d = ptpSync ∧ n.mode ≠ 1 then
    { n with lastSyncLocal := t.now, lastSync := some d }
  else if Datagram.type d = ptpFollowUp ∧ n.mode ≠ 1 then n.followUp
  else if Datagram.type d = ptpDelayReq ∧ n.mode = 1 then
    { n.send .general (ptpMessage n.ident ptpDelayResp 42 n.respSeq t) with
      respSeq := n.respSeq + 1 }
  else if Datagram.type d = ptpPdelayReq then
    { n.send .event (ptpMessage n.ident ptpPdelayResp 44 n.pseq t) with pseq := n.pseq + 1 }
  else n

/-- `htsn_ptp_apply`. -/
def PtpNode.apply (n : PtpNode) (mode : Int32) (grandmaster : Option CStr) : PtpNode :=
  let report := { n.report with mode := mode }
  let master := (grandmaster.filter (· ≠ [])).getD "external-master".toList
  { n with
    mode := mode
    report :=
      if mode = 1 then
        { report with state := 0, offsetNs := 0, jitterNs := 0,
                      grandmaster := Buf.copy 32 n.deviceId.chars,
                      grandmasterId := Buf.copy 64 n.deviceId.chars }
      else if mode = 0 then
        { report with state := 2, offsetNs := 0, jitterNs := 0,
                      grandmaster := Buf.copy 32 "disabled".toList }
      else
        { report with grandmaster := Buf.copy 32 master, grandmasterId := Buf.copy 64 master } }

/-- What `ptp_tx_loop` sets before it loops. -/
def PtpNode.txStart (n : PtpNode) : PtpNode :=
  { n with
    txSeq := 1, lastSyncTx := 0, lastDreq := 0, lastPdreq := 0
    lastSyncGm := 0, lastSyncLocal := 0, delayReqLocal := 0, lastSync := none
    report := { n.report with offsetNs := 0, jitterNs := 0 } }

/-- One pass of `ptp_tx_loop` that begins at `now`. -/
def PtpNode.txPass (n : PtpNode) (now : Int64) (t t' : PtpMoment) : PtpNode :=
  if n.mode = 1 then
    if now - n.lastSyncTx ≥ 1000000000 then
      { n.sendSync n.txSeq t t' with txSeq := n.txSeq + 1, lastSyncTx := now }
    else n
  else if n.mode = 2 ∨ n.mode = 3 then
    let n := if now - n.lastPdreq ≥ 500000000 then { n.sendPdelayReq t with lastPdreq := now } else n
    if now - n.lastDreq ≥ 2000000000 then { n.sendDelayReq t' with lastDreq := now } else n
  else n

/-- What the tasks of the node do: the control plane sets a mode, the transmit
task starts and makes a pass, the receiver starts on a stack and takes a
packet from one of its sockets. -/
inductive PtpEvent where
  | apply (mode : Int32) (grandmaster : Option CStr)
  | txStart
  | txPass (now : Int64) (t t' : PtpMoment)
  | rxStart (stack : Nat → UInt8)
  | recv (d : Datagram) (t : PtpMoment)

def PtpNode.step (n : PtpNode) : PtpEvent → PtpNode
  | .apply mode grandmaster => n.apply mode grandmaster
  | .txStart => n.txStart
  | .txPass now t t' => n.txPass now t t'
  | .rxStart stack => { n with buf := fun i => ⟨stack i, none⟩ }
  | .recv d t =>
      if Datagram.len d = 0 then n
      else PtpNode.processPacket { n with buf := n.buf.recv d } d t

/-! ### Which packets an update is computed from -/

/-- The arrival time used is that of a Sync, the timestamp used that of one
Follow_Up, and both carry the same sequence id and source. -/
def PtpUpdate.Matching (u : PtpUpdate) : Prop :=
  ∃ sync fu, u.sync = some sync ∧ (∀ w ∈ u.stamp, w = some fu) ∧
    Datagram.type fu = ptpFollowUp ∧ Datagram.ids fu = Datagram.ids sync

/-- A packet of this type that a node in this mode acts on as a slave. -/
def Takes (mode : Int32) (type : UInt8) (d : Datagram) : Prop :=
  34 ≤ Datagram.len d ∧ Datagram.type d = type ∧ mode ≠ 1

instance (mode : Int32) (type : UInt8) (d : Datagram) : Decidable (Takes mode type d) :=
  inferInstanceAs (Decidable (_ ∧ _ ∧ _))

/-- The mode an event leaves. -/
def PtpEvent.modeAfter (mode : Int32) : PtpEvent → Int32
  | .apply mode _ => mode
  | _ => mode

/-- The mode after the events, and each event with the mode it came in. -/
def ptpLog (evs : List PtpEvent) : Int32 × List (Int32 × PtpEvent) :=
  evs.foldl (fun l e => (e.modeAfter l.1, l.2 ++ [(l.1, e)])) (0, [])

theorem ptpLog_concat (evs : List PtpEvent) (e : PtpEvent) :
    ptpLog (evs ++ [e]) = (e.modeAfter (ptpLog evs).1, (ptpLog evs).2 ++ [((ptpLog evs).1, e)]) := by
  simp [ptpLog]

/-- After this event another Sync is remembered, or none. -/
def ForgetsSync : Int32 × PtpEvent → Prop
  | (_, .txStart) => True
  | (mode, .recv d _) => Takes mode ptpSync d
  | _ => False

/-- The Sync that was taken last, since the transmit task started. An arrival
at time 0 counts as none. -/
def LastSync (evs : List PtpEvent) (sync : Datagram) : Prop :=
  ∃ mode t, Takes mode ptpSync sync ∧ t.now ≠ 0 ∧
    Run.Survives (fun b _ => ForgetsSync b) (ptpLog evs).2 (mode, .recv sync t)

/-- The event writes into the place of the timestamp. -/
def OverwritesStamp : PtpEvent → Prop
  | .rxStart _ => True
  | .recv d _ => 34 < Datagram.len d
  | _ => False

/-- The packet whose ten bytes stand in the place of the timestamp. -/
def StampOf (evs : List PtpEvent) (d : Datagram) : Prop :=
  ∃ t, 44 ≤ Datagram.len d ∧ Run.Survives (fun b _ => OverwritesStamp b) evs (.recv d t)

/-! ### Steps -/

/-- What the offset is computed from has not changed. -/
structure PtpNode.Same (n n' : PtpNode) : Prop where
  mode : n'.mode = n.mode
  buf : n'.buf = n.buf
  lastSyncLocal : n'.lastSyncLocal = n.lastSyncLocal
  lastSync : n'.lastSync = n.lastSync
  updates : n'.updates = n.updates

theorem same_refl (n : PtpNode) : n.Same n := ⟨rfl, rfl, rfl, rfl, rfl⟩

theorem same_trans {n n' n'' : PtpNode} (h : n.Same n') (h' : n'.Same n'') : n.Same n'' :=
  ⟨h'.mode.trans h.mode, h'.buf.trans h.buf, h'.lastSyncLocal.trans h.lastSyncLocal,
    h'.lastSync.trans h.lastSync, h'.updates.trans h.updates⟩

/-- A pass of the transmit task only sends. -/
theorem txPass_same (n : PtpNode) (now : Int64) (t t' : PtpMoment) : n.Same (n.txPass now t t') := by
  unfold PtpNode.txPass
  split
  · split
    · exact ⟨rfl, rfl, rfl, rfl, rfl⟩
    · exact same_refl n
  · split
    · have hfirst : n.Same
          (if now - n.lastPdreq ≥ 500000000 then { n.sendPdelayReq t with lastPdreq := now } else n) := by
        split
        · exact ⟨rfl, rfl, rfl, rfl, rfl⟩
        · exact same_refl n
      refine same_trans hfirst ?_
      generalize (if now - n.lastPdreq ≥ 500000000 then
        { n.sendPdelayReq t with lastPdreq := now } else n) = m
      dsimp only
      split
      · exact ⟨rfl, rfl, rfl, rfl, rfl⟩
      · exact same_refl m
    · exact same_refl n

theorem processPacket_sync {d : Datagram} (h : Takes n.mode ptpSync d) (t : PtpMoment) :
    n.processPacket d t = { n with lastSyncLocal := t.now, lastSync := some d } := by
  obtain ⟨hlen, htype, hmode⟩ := h
  rw [PtpNode.processPacket, if_neg (by omega), if_pos ⟨htype, hmode⟩]

theorem processPacket_followUp {d : Datagram} (h : Takes n.mode ptpFollowUp d) (t : PtpMoment) :
    n.processPacket d t = n.followUp := by
  obtain ⟨hlen, htype, hmode⟩ := h
  have hother : ¬ (Datagram.type d = ptpSync ∧ n.mode ≠ 1) := by
    rintro ⟨hsync, -⟩
    rw [htype] at hsync
    exact absurd hsync (by decide)
  rw [PtpNode.processPacket, if_neg (by omega), if_neg hother, if_pos ⟨htype, hmode⟩]

/-- Any other packet is answered at most. -/
theorem processPacket_same {d : Datagram} (hsync : ¬ Takes n.mode ptpSync d)
    (hfollow : ¬ Takes n.mode ptpFollowUp d) (t : PtpMoment) : n.Same (n.processPacket d t) := by
  unfold PtpNode.processPacket
  split
  · exact same_refl n
  · rename_i hlen
    rw [if_neg fun h => hsync ⟨by omega, h.1, h.2⟩, if_neg fun h => hfollow ⟨by omega, h.1, h.2⟩]
    split
    · exact ⟨rfl, rfl, rfl, rfl, rfl⟩
    split
    · exact ⟨rfl, rfl, rfl, rfl, rfl⟩
    · exact same_refl n

theorem followUp_kept (n : PtpNode) :
    n.followUp.mode = n.mode ∧ n.followUp.buf = n.buf ∧ n.followUp.lastSyncLocal = n.lastSyncLocal ∧
      n.followUp.lastSync = n.lastSync := by
  unfold PtpNode.followUp
  dsimp only
  split
  · exact ⟨rfl, rfl, rfl, rfl⟩
  · exact ⟨rfl, rfl, rfl, rfl⟩

theorem followUp_updates (n : PtpNode) :
    n.followUp.updates =
      if n.lastSyncLocal ≠ 0 then n.updates ++ [⟨n.lastSync, n.buf.stamp.map RxByte.writer⟩]
      else n.updates := by
  unfold PtpNode.followUp
  dsimp only
  split
  · rfl
  · rfl

/-- The node's memory of the packets, without the updates. -/
def PtpNode.afterRecv (n : PtpNode) (d : Datagram) : PtpNode := { n with buf := n.buf.recv d }

/-- Receiving changes the buffer and, for a Sync that is taken, what is
remembered of it. -/
theorem recv_memory (n : PtpNode) (d : Datagram) (t : PtpMoment) :
    (n.step (.recv d t)).mode = n.mode ∧ (n.step (.recv d t)).buf = n.buf.recv d ∧
      (Takes n.mode ptpSync d → (n.step (.recv d t)).lastSyncLocal = t.now ∧
        (n.step (.recv d t)).lastSync = some d) ∧
      (¬ Takes n.mode ptpSync d → (n.step (.recv d t)).lastSyncLocal = n.lastSyncLocal ∧
        (n.step (.recv d t)).lastSync = n.lastSync) := by
  have hstep : n.step (.recv d t) =
      if Datagram.len d = 0 then n else (n.afterRecv d).processPacket d t := rfl
  rw [hstep]
  by_cases hempty : Datagram.len d = 0
  · have hbuf : n.buf.recv d = n.buf := by
      funext i
      simp [RxBuf.recv, hempty]
    rw [if_pos hempty, hbuf]
    exact ⟨rfl, rfl, fun h => absurd h.1 (by omega), fun _ => ⟨rfl, rfl⟩⟩
  rw [if_neg hempty]
  by_cases hsync : Takes n.mode ptpSync d
  · have hsync' : Takes (n.afterRecv d).mode ptpSync d := hsync
    rw [processPacket_sync hsync']
    exact ⟨rfl, rfl, fun _ => ⟨rfl, rfl⟩, fun h => absurd hsync h⟩
  · by_cases hfollow : Takes n.mode ptpFollowUp d
    · have hfollow' : Takes (n.afterRecv d).mode ptpFollowUp d := hfollow
      rw [processPacket_followUp hfollow']
      obtain ⟨hmode, hbuf, hlocal, hlast⟩ := followUp_kept (n.afterRecv d)
      exact ⟨hmode, hbuf, fun h => absurd h hsync, fun _ => ⟨hlocal, hlast⟩⟩
    · have hsame : (n.afterRecv d).Same ((n.afterRecv d).processPacket d t) :=
        @processPacket_same (n.afterRecv d) d hsync hfollow t
      exact ⟨hsame.mode, hsame.buf, fun h => absurd h hsync, fun _ => ⟨hsame.lastSyncLocal, hsame.lastSync⟩⟩

/-- Receiving updates the offset when a Follow_Up is taken and a Sync is
remembered. -/
theorem recv_updates (n : PtpNode) (d : Datagram) (t : PtpMoment) :
    (n.step (.recv d t)).updates =
      if Takes n.mode ptpFollowUp d ∧ n.lastSyncLocal ≠ 0 then
        n.updates ++ [⟨n.lastSync, (n.buf.recv d).stamp.map RxByte.writer⟩]
      else n.updates := by
  have hstep : n.step (.recv d t) =
      if Datagram.len d = 0 then n else (n.afterRecv d).processPacket d t := rfl
  rw [hstep]
  by_cases hempty : Datagram.len d = 0
  · rw [if_pos hempty, if_neg fun h => absurd h.1.1 (by omega)]
  rw [if_neg hempty]
  by_cases hfollow : Takes n.mode ptpFollowUp d
  · rw [@processPacket_followUp (n.afterRecv d) d hfollow, followUp_updates]
    by_cases hlocal : n.lastSyncLocal ≠ 0
    · rw [if_pos (show (n.afterRecv d).lastSyncLocal ≠ 0 from hlocal), if_pos ⟨hfollow, hlocal⟩]
      rfl
    · rw [if_neg (show ¬ (n.afterRecv d).lastSyncLocal ≠ 0 from hlocal), if_neg fun h => hlocal h.2]
      rfl
  · rw [if_neg fun h => hfollow h.1]
    by_cases hsync : Takes n.mode ptpSync d
    · rw [@processPacket_sync (n.afterRecv d) d hsync]
      rfl
    · exact (@processPacket_same (n.afterRecv d) d hsync hfollow t).updates

/-! ### The history of a node -/

section

variable {evs : List PtpEvent} {deviceId : Buf 32} {stack : Nat → UInt8}

/-- What the node remembers after the events. -/
structure Remembers (n : PtpNode) (evs : List PtpEvent) : Prop where
  mode : n.mode = (ptpLog evs).1
  writer : ∀ i d, (n.buf i).writer = some d → i < Datagram.len d
  sync : n.lastSyncLocal ≠ 0 → n.lastSync ≠ none
  lastSync : ∀ d, (n.lastSyncLocal ≠ 0 ∧ n.lastSync = some d) ↔ LastSync evs d
  stamp : ∀ d, (∀ w ∈ n.buf.stamp.map RxByte.writer, w = some d) ↔ StampOf evs d

theorem mem_stamp {buf : RxBuf} {w : Option Datagram} :
    w ∈ buf.stamp.map RxByte.writer ↔ ∃ i, 34 ≤ i ∧ i < 44 ∧ w = (buf i).writer := by
  simp only [RxBuf.stamp, List.map_map, List.mem_map, List.mem_range, Function.comp]
  constructor
  · rintro ⟨i, hi, rfl⟩
    exact ⟨34 + i, by omega, by omega, rfl⟩
  · rintro ⟨i, hlow, hhigh, rfl⟩
    exact ⟨i - 34, by omega, by rw [Nat.add_sub_cancel' hlow]⟩

/-- An event that takes no Sync and does not reset the node. -/
theorem lastSync_concat_kept {e : PtpEvent} (h : ¬ ForgetsSync ((ptpLog evs).1, e)) (d : Datagram) :
    LastSync (evs ++ [e]) d ↔ LastSync evs d := by
  unfold LastSync
  rw [ptpLog_concat]
  constructor
  · rintro ⟨mode, t, htakes, ht, hlast⟩
    rcases (Run.survives_concat _ _ _).mp hlast with heq | ⟨hlast, -⟩
    · rw [heq] at h
      exact absurd htakes h
    · exact ⟨mode, t, htakes, ht, hlast⟩
  · rintro ⟨mode, t, htakes, ht, hlast⟩
    exact ⟨mode, t, htakes, ht, (Run.survives_concat _ _ _).mpr (Or.inr ⟨hlast, h⟩)⟩

theorem lastSync_concat_sync {sync : Datagram} {t : PtpMoment} (h : Takes (ptpLog evs).1 ptpSync sync)
    (d : Datagram) : LastSync (evs ++ [.recv sync t]) d ↔ t.now ≠ 0 ∧ sync = d := by
  unfold LastSync
  rw [ptpLog_concat]
  constructor
  · rintro ⟨mode, t', htakes, ht, hlast⟩
    rcases (Run.survives_concat _ _ _).mp hlast with heq | ⟨-, hkept⟩
    · simp only [Prod.mk.injEq, PtpEvent.recv.injEq] at heq
      obtain ⟨-, rfl, rfl⟩ := heq
      exact ⟨ht, rfl⟩
    · exact absurd h hkept
  · rintro ⟨ht, rfl⟩
    exact ⟨_, t, h, ht, (Run.survives_concat _ _ _).mpr (Or.inl rfl)⟩

theorem lastSync_concat_txStart (d : Datagram) : ¬ LastSync (evs ++ [.txStart]) d := by
  unfold LastSync
  rw [ptpLog_concat]
  rintro ⟨mode, t, -, -, hlast⟩
  rcases (Run.survives_concat _ _ _).mp hlast with heq | ⟨-, hkept⟩
  · simp at heq
  · exact hkept trivial

theorem stampOf_concat_kept {e : PtpEvent} (h : ¬ OverwritesStamp e) (d : Datagram) :
    StampOf (evs ++ [e]) d ↔ StampOf evs d := by
  constructor
  · rintro ⟨t, hlen, hlast⟩
    rcases (Run.survives_concat _ _ _).mp hlast with rfl | ⟨hlast, -⟩
    · exact absurd (show 34 < Datagram.len d by omega) h
    · exact ⟨t, hlen, hlast⟩
  · rintro ⟨t, hlen, hlast⟩
    exact ⟨t, hlen, (Run.survives_concat _ _ _).mpr (Or.inr ⟨hlast, h⟩)⟩

theorem stampOf_concat_recv {d' : Datagram} {t : PtpMoment} (h : 34 < Datagram.len d') (d : Datagram) :
    StampOf (evs ++ [.recv d' t]) d ↔ d' = d ∧ 44 ≤ Datagram.len d := by
  constructor
  · rintro ⟨t', hlen, hlast⟩
    rcases (Run.survives_concat _ _ _).mp hlast with heq | ⟨-, hkept⟩
    · rw [PtpEvent.recv.injEq] at heq
      exact ⟨heq.1, hlen⟩
    · exact absurd h hkept
  · rintro ⟨rfl, hlen⟩
    exact ⟨t, hlen, (Run.survives_concat _ _ _).mpr (Or.inl rfl)⟩

theorem stampOf_concat_rxStart {stack : Nat → UInt8} (d : Datagram) :
    ¬ StampOf (evs ++ [.rxStart stack]) d := by
  rintro ⟨t, -, hlast⟩
  rcases (Run.survives_concat _ _ _).mp hlast with heq | ⟨-, hkept⟩
  · cases heq
  · exact hkept trivial

/-- A packet that reaches into the place of the timestamp is the one whose
timestamp stands there, if any is: bytes of an older packet then remain behind
its end. -/
theorem stamp_recv_iff {buf : RxBuf} (hbuf : ∀ i d, (buf i).writer = some d → i < Datagram.len d)
    {d' : Datagram} (h : 34 < Datagram.len d') (d : Datagram) :
    (∀ w ∈ (buf.recv d').stamp.map RxByte.writer, w = some d) ↔ d' = d ∧ 44 ≤ Datagram.len d := by
  have hnew : ∀ i < Datagram.len d', ((buf.recv d') i).writer = some d' := by
    intro i hi
    rw [RxBuf.recv, if_pos hi]
  constructor
  · intro hall
    have hfirst : some d' = some d := by
      rw [← hnew 34 h]
      exact hall _ (mem_stamp.mpr ⟨34, by omega, by omega, rfl⟩)
    obtain rfl := Option.some_inj.mp hfirst
    refine ⟨rfl, ?_⟩
    by_contra hshort
    have hlast : ((buf.recv d') 43).writer = some d' :=
      hall _ (mem_stamp.mpr ⟨43, by omega, by omega, rfl⟩)
    rw [RxBuf.recv, if_neg (by omega)] at hlast
    have hin := hbuf 43 d' hlast
    omega
  · rintro ⟨rfl, hlen⟩ w hw
    obtain ⟨i, -, hi, rfl⟩ := mem_stamp.mp hw
    exact hnew i (by omega)

theorem stamp_recv_short {buf : RxBuf} {d : Datagram} (h : ¬ 34 < Datagram.len d) :
    (buf.recv d).stamp = buf.stamp := by
  refine List.map_congr_left fun i _ => ?_
  rw [RxBuf.recv, if_neg (by omega)]

theorem remembers_same {n n' : PtpNode} {e : PtpEvent} (hn : Remembers n evs) (hsame : n.Same n')
    (hmode : e.modeAfter n.mode = n.mode) (hsync : ¬ ForgetsSync ((ptpLog evs).1, e))
    (hstamp : ¬ OverwritesStamp e) : Remembers n' (evs ++ [e]) := by
  refine ⟨?_, ?_, ?_, fun d => ?_, fun d => ?_⟩
  · rw [hsame.mode, ptpLog_concat, ← hn.mode, hmode]
  · rw [hsame.buf]
    exact hn.writer
  · rw [hsame.lastSyncLocal, hsame.lastSync]
    exact hn.sync
  · rw [hsame.lastSyncLocal, hsame.lastSync, lastSync_concat_kept hsync]
    exact hn.lastSync d
  · rw [hsame.buf, stampOf_concat_kept hstamp]
    exact hn.stamp d

theorem remembers_recv {n : PtpNode} (hn : Remembers n evs) (d : Datagram) (t : PtpMoment) :
    Remembers (n.step (.recv d t)) (evs ++ [.recv d t]) := by
  obtain ⟨hmode, hbuf, htaken, hkept⟩ := recv_memory n d t
  refine ⟨?_, ?_, ?_, fun d' => ?_, fun d' => ?_⟩
  · rw [hmode, hn.mode, ptpLog_concat]
    rfl
  · intro i d' hwriter
    rw [hbuf, RxBuf.recv] at hwriter
    split at hwriter
    · rename_i hi
      rwa [Option.some_inj.mp hwriter] at hi
    · exact hn.writer i d' hwriter
  · by_cases hsync : Takes n.mode ptpSync d
    · rw [(htaken hsync).2]
      simp
    · rw [(hkept hsync).1, (hkept hsync).2]
      exact hn.sync
  · by_cases hsync : Takes n.mode ptpSync d
    · rw [(htaken hsync).1, (htaken hsync).2, lastSync_concat_sync (hn.mode ▸ hsync), Option.some_inj]
    · have hforgets : ¬ ForgetsSync ((ptpLog evs).1, .recv d t) := hn.mode ▸ hsync
      rw [(hkept hsync).1, (hkept hsync).2, lastSync_concat_kept hforgets]
      exact hn.lastSync d'
  · rw [hbuf]
    by_cases hlong : 34 < Datagram.len d
    · rw [stamp_recv_iff hn.writer hlong, stampOf_concat_recv hlong]
    · have hkeeps : ¬ OverwritesStamp (.recv d t) := hlong
      rw [stamp_recv_short hlong, stampOf_concat_kept hkeeps]
      exact hn.stamp d'

theorem remembers_step {n : PtpNode} (hn : Remembers n evs) (e : PtpEvent) :
    Remembers (n.step e) (evs ++ [e]) := by
  cases e with
  | recv d t => exact remembers_recv hn d t
  | txPass now t t' =>
      exact remembers_same hn (txPass_same n now t t') rfl (fun h => h) fun h => h
  | apply mode grandmaster =>
      refine ⟨?_, hn.writer, hn.sync, fun d => ?_, fun d => ?_⟩
      · rw [ptpLog_concat]
        rfl
      · exact (hn.lastSync d).trans (@lastSync_concat_kept evs (.apply mode grandmaster) (fun h => h) d).symm
      · exact (hn.stamp d).trans (@stampOf_concat_kept evs (.apply mode grandmaster) (fun h => h) d).symm
  | txStart =>
      refine ⟨?_, hn.writer, fun h => absurd rfl h, fun d => ?_, fun d => ?_⟩
      · rw [ptpLog_concat]
        exact hn.mode
      · exact iff_of_false (fun h => h.1 rfl) (lastSync_concat_txStart d)
      · exact (hn.stamp d).trans (@stampOf_concat_kept evs .txStart (fun h => h) d).symm
  | rxStart stack =>
      refine ⟨?_, fun i d h => (by cases h), hn.sync, fun d => ?_, fun d => ?_⟩
      · rw [ptpLog_concat]
        exact hn.mode
      · exact (hn.lastSync d).trans (@lastSync_concat_kept evs (.rxStart stack) (fun h => h) d).symm
      · refine iff_of_false (fun h => ?_) (stampOf_concat_rxStart d)
        have hnone := h _ (mem_stamp.mpr ⟨34, by omega, by omega, rfl⟩)
        cases hnone

theorem remembers_init : Remembers (PtpNode.init deviceId stack) [] := by
  refine ⟨rfl, fun i d h => (by cases h), fun h => absurd rfl h, fun d => ?_, fun d => ?_⟩
  · refine iff_of_false (fun h => h.1 rfl) ?_
    rintro ⟨mode, t, -, -, hlast⟩
    exact absurd hlast.mem (by simp [ptpLog])
  · refine iff_of_false (fun h => ?_) ?_
    · have hnone := h _ (mem_stamp.mpr ⟨34, by omega, by omega, rfl⟩)
      cases hnone
    · rintro ⟨t, -, hlast⟩
      exact absurd hlast.mem (by simp)

theorem remembers_run (evs : List PtpEvent) :
    Remembers (Run.run PtpNode.step (PtpNode.init deviceId stack) evs) evs := by
  induction evs using List.reverseRecOn with
  | nil => exact remembers_init
  | append_singleton evs e ih =>
      rw [Run.run_append]
      exact remembers_step ih e

/-- A Follow_Up that is taken while a Sync is remembered leaves in the buffer
the timestamp of a Follow_Up with the ids of that Sync. -/
def PairedAfter (before : List PtpEvent) (e : PtpEvent) : Prop :=
  ∀ d t sync, e = .recv d t → Takes (ptpLog before).1 ptpFollowUp d → LastSync before sync →
    ∃ fu, StampOf (before ++ [e]) fu ∧ Datagram.type fu = ptpFollowUp ∧
      Datagram.ids fu = Datagram.ids sync

/-- Only a Follow_Up that is taken adds an update. -/
theorem step_updates {n : PtpNode} (hn : Remembers n evs) (e : PtpEvent) :
    (∀ u ∈ (n.step e).updates, u.Matching) ↔ (∀ u ∈ n.updates, u.Matching) ∧ PairedAfter evs e := by
  have hother : (n.step e).updates = n.updates → (∀ d t, e ≠ .recv d t) →
      ((∀ u ∈ (n.step e).updates, u.Matching) ↔
        (∀ u ∈ n.updates, u.Matching) ∧ PairedAfter evs e) := by
    intro hsame hrecv
    rw [hsame]
    exact ⟨fun h => ⟨h, fun d t _ he => absurd he (hrecv d t)⟩, fun h => h.1⟩
  cases e with
  | apply mode grandmaster => exact hother rfl fun _ _ h => (by cases h)
  | txStart => exact hother rfl fun _ _ h => (by cases h)
  | txPass now t t' => exact hother (txPass_same n now t t').updates fun _ _ h => (by cases h)
  | rxStart stack => exact hother rfl fun _ _ h => (by cases h)
  | recv d t =>
      rw [recv_updates]
      by_cases htakes : Takes n.mode ptpFollowUp d ∧ n.lastSyncLocal ≠ 0
      · obtain ⟨sync, hsync⟩ := Option.ne_none_iff_exists'.mp (hn.sync htakes.2)
        have hstamp := (remembers_recv hn d t).stamp
        rw [(recv_memory n d t).2.1] at hstamp
        have hlast : ∀ sync', LastSync evs sync' ↔ sync' = sync := by
          intro sync'
          rw [← hn.lastSync sync', hsync, Option.some_inj]
          exact ⟨fun h => h.2.symm, fun h => ⟨htakes.2, h.symm⟩⟩
        have hmatch : PtpUpdate.Matching ⟨n.lastSync, (n.buf.recv d).stamp.map RxByte.writer⟩ ↔
            PairedAfter evs (.recv d t) := by
          constructor
          · rintro ⟨sync', fu, hsync', hfu, htype, hids⟩ d' t' sync'' he - hlast''
            obtain rfl := (hlast sync'').mp hlast''
            rw [hsync, Option.some_inj] at hsync'
            exact ⟨fu, (hstamp fu).mp hfu, htype, hsync' ▸ hids⟩
          · intro hpaired
            obtain ⟨fu, hfu, htype, hids⟩ :=
              hpaired d t sync rfl (hn.mode ▸ htakes.1) ((hlast sync).mpr rfl)
            exact ⟨sync, fu, hsync, (hstamp fu).mpr hfu, htype, hids⟩
        rw [if_pos htakes, ← hmatch]
        simp [or_imp, forall_and]
      · rw [if_neg htakes]
        refine ⟨fun h => ⟨h, ?_⟩, fun h => h.1⟩
        intro d' t' sync he htakes' hlast
        rw [PtpEvent.recv.injEq] at he
        obtain ⟨rfl, -⟩ := he
        exact absurd ⟨hn.mode ▸ htakes', ((hn.lastSync sync).mpr hlast).1⟩ htakes

/-- Over every sequence of packets: every update of the offset compares
matching messages exactly when every Follow_Up that is taken after a Sync
leaves the timestamp of a Follow_Up with the ids of the last Sync. -/
theorem offset_matching_iff (deviceId : Buf 32) (stack : Nat → UInt8) (evs : List PtpEvent) :
    (∀ u ∈ (Run.run PtpNode.step (PtpNode.init deviceId stack) evs).updates, u.Matching) ↔
      Run.AllAfter PairedAfter evs := by
  refine @Run.iff_allAfter _ PairedAfter
    (fun evs => ∀ u ∈ (Run.run PtpNode.step (PtpNode.init deviceId stack) evs).updates, u.Matching)
    (fun u hu => absurd hu (List.not_mem_nil)) (fun evs e => ?_) evs
  rw [Run.run_append]
  exact step_updates (remembers_run evs) e

end

/-- The Sync of one exchange of a grandmaster and the Follow_Up of the next:
the packets between them are lost. -/
def lostPackets : List PtpEvent :=
  [.recv (ptpMessage (PtpIdent.ofDevice "esp32-02".toList) ptpSync 44 1 ⟨1000000000, 0⟩) ⟨1000500000, 0⟩,
    .recv (ptpMessage (PtpIdent.ofDevice "esp32-02".toList) ptpFollowUp 44 2 ⟨2000000000, 0⟩)
      ⟨2000500000, 0⟩]

theorem lostPackets_mismatched :
    ¬ ∀ u ∈ (Run.run PtpNode.step (PtpNode.init (Buf.copy 32 "esp32-01".toList) fun _ => 0)
      lostPackets).updates, u.Matching := by
  intro h
  have hupdates : (Run.run PtpNode.step (PtpNode.init (Buf.copy 32 "esp32-01".toList) fun _ => 0)
      lostPackets).updates =
        [⟨some (ptpMessage (PtpIdent.ofDevice "esp32-02".toList) ptpSync 44 1 ⟨1000000000, 0⟩),
          List.replicate 10 (some (ptpMessage (PtpIdent.ofDevice "esp32-02".toList) ptpFollowUp 44 2
            ⟨2000000000, 0⟩))⟩] := by
    decide
  rw [hupdates] at h
  obtain ⟨sync, fu, hsync, hfu, -, hids⟩ := h _ List.mem_cons_self
  have hfu := hfu _ List.mem_cons_self
  rw [Option.some_inj] at hsync hfu
  rw [← hsync, ← hfu] at hids
  exact absurd hids (by decide)

end Htsn.Esp32
