import WirelessTsn.Db.Config
import WirelessTsn.Db.Devices
import WirelessTsn.Db.Streams
import WirelessTsn.Lib.Fields

/-!
The text of a configuration version: what `serialize_global` and
`serialize_device` print and what the branches of `restore_payload` read.
A printed entry is a list of fields; every entry ends in a blank.
-/

namespace Htsn

open CText Keyed

/-- `CFG_PAYLOAD_MAX` -/
def cfgPayloadMax : Nat := 65536

/-! The words that entries begin with. -/

def deviceTag : CStr := "device:".toList

def vlanTag : CStr := "vlan:".toList

def vmemTag : CStr := "vmem:".toList

def streamTag : CStr := "stream:".toList

def streammemTag : CStr := "streammem:".toList

def tasTag : CStr := "tas:".toList

def gclTag : CStr := "gcl:".toList

def qosTag : CStr := "qos:".toList

/-- An older form of the entry, without a device. -/
def qosShortTag : CStr := "qos:p=".toList

def preTag : CStr := "pre:".toList

section Printing

def deviceLine (d : Device) : List Field :=
  [.lit deviceTag, .word d.id.chars, .lit ":kind=".toList, .word (deviceKindStr d.kind),
    .lit ":domain=".toList, .word d.domainOrDefault]

def vlanLine (id : CStr) (vlanId : Int32) : List Field :=
  [.lit vlanTag, .word id, .lit ":".toList, .int vlanId]

def vmemLine (groupId deviceId : CStr) : List Field :=
  [.lit vmemTag, .word groupId, .lit ":".toList, .word deviceId]

def streamLine (r : StreamRow) : List Field :=
  [.lit streamTag, .word r.streamId.chars, .lit ":".toList, .word r.talker.chars,
    .lit ":vlan=".toList, .int r.vlanId, .lit ":prio=".toList, .int r.priority,
    .lit ":lat=".toList, .llong r.maxLatencyNs, .lit ":iv=".toList, .llong r.maxIntervalNs,
    .lit ":st=".toList, .int r.status]

def streammemLine (streamId deviceId : CStr) : List Field :=
  [.lit streammemTag, .word streamId, .lit ":".toList, .word deviceId]

def tasLine (s : TasSchedule) : List Field :=
  [.lit tasTag, .word s.id.chars, .lit ":cycle=".toList, .llong s.cycleTimeNs,
    .lit ":tgt=".toList, .word s.deployTarget.chars]

def gclLine (s : TasSchedule) (i : Nat) (e : GclEntry) : List Field :=
  [.lit gclTag, .word s.id.chars, .lit ":".toList, .int (Int32.ofNat i),
    .lit ":".toList, .int (Int32.ofNat e.gateState.toNat), .lit ":".toList, .llong e.durationNs]

def qosLine (deviceId : CStr) (q : QosConfig) : List Field :=
  [.lit qosTag, .word deviceId, .lit ":p=".toList, .int q.priority, .lit ":bw=".toList,
    .int q.bandwidthKbps, .lit ":lat=".toList, .int q.latencyMs, .lit ":pre=".toList,
    .int q.preemption]

/-- The entry of the preemption settings, which are not stored anywhere. -/
def preLine : List Field :=
  [.lit preTag, .word "preemption".toList, .lit ":emac=".toList, .word [],
    .lit ":pmac=".toList, .word []]

/-- The entries of `collect_stream`: the stream, its listeners, the wildcard. -/
def streamLines (s : Stream) : List (List Field) :=
  streamLine (streamRow s) ::
    (s.listeners.items.map (fun l => streammemLine s.streamId.chars l.chars) ++
      if s.listenerAll then [streammemLine s.streamId.chars allListeners] else [])

def tasLines (s : TasSchedule) : List (List Field) :=
  tasLine s :: s.entries.items.zipIdx.map fun e => gclLine s e.2 e.1

/-- The entries that `serialize_global` prints behind those of the devices. -/
def configLines (db : Db) : List (List Field) :=
  (dbVlanGroupForEach db).map (fun g => vlanLine g.id.chars g.vlanId) ++
  (dbVlanMemberForEachAll db).map (fun m => vmemLine m.groupId.chars m.deviceId.chars) ++
  (dbTsnForEach db).flatMap streamLines ++
  (dbTasForEach db).flatMap tasLines ++
  (if prepares .qosSelect then db.qosConfigs.rows.map (fun q => qosLine q.deviceId.chars q)
    else []) ++
  [preLine]

def globalLines (db : Db) : List (List Field) :=
  (dbDeviceForEach db).map deviceLine ++ configLines db

/-- The entries that `serialize_device` prints. -/
def deviceLines (db : Db) (deviceId : CStr) : List (List Field) :=
  (if prepares .qosSelect then
    (db.qosConfigs.rows.filter fun q => decide (q.deviceId.chars = deviceId)).map (qosLine deviceId)
    else []) ++
  (if prepares .vlanMemberSelectDevice then
    (db.vlanMembers.filter fun m => decide (m.deviceId.chars = deviceId)).map
      (fun m => vmemLine m.groupId.chars deviceId)
    else []) ++
  (if prepares .tsnMemberSelectDevice then
    (db.tsnStreamMembers.filter fun m => decide (m.deviceId.chars = deviceId)).map
      (fun m => streammemLine m.streamId.chars deviceId)
    else [])

/-- Print entries one after the other into the payload buffer. -/
def printLines (ls : List (List Field)) : CStr :=
  ls.foldl (fun buf l => appendField cfgPayloadMax buf (renderLine l ++ [' '])) []

def serializeGlobal (db : Db) : CStr := printLines (globalLines db)

def serializeDevice (db : Db) (deviceId : CStr) : CStr := printLines (deviceLines db deviceId)

/-- `device_id && device_id[0]` picks the scope. -/
def serializeScope (db : Db) (deviceId : Option CStr) : CStr :=
  match deviceId with
  | some d => if d = [] then serializeGlobal db else serializeDevice db d
  | none => serializeGlobal db

/-- The printed entries with their blanks, before any buffer cuts them. -/
def linesText (ls : List (List Field)) : CStr :=
  (ls.map renderLine).flatMap fun t => t ++ [' ']

theorem printLines_eq (ls : List (List Field)) :
    printLines ls = (linesText ls).take (cfgPayloadMax - 1) := by
  have hfold : printLines ls =
      (ls.map fun l => renderLine l ++ [' ']).foldl (appendField cfgPayloadMax) [] := by
    rw [printLines, List.foldl_map]
  rw [hfold, foldl_appendField cfgPayloadMax [] _ (by simp)]
  simp [linesText, List.flatMap_def, Function.comp_def]

/-- Behind the devices, an entry of the payload is one of five kinds: a
schedule cannot be read, so none is printed. -/
theorem configLines_eq (db : Db) :
    configLines db =
      db.vlanGroups.rows.map (fun g => vlanLine g.id.chars g.vlanId) ++
      db.vlanMembers.map (fun m => vmemLine m.groupId.chars m.deviceId.chars) ++
      (db.tsnStreams.rows.map (streamOfRow db)).flatMap streamLines ++
      db.qosConfigs.rows.map (fun q => qosLine q.deviceId.chars q) ++ [preLine] := by
  simp [configLines, dbVlanGroupForEach, dbVlanMemberForEachAll, dbTsnForEach_eq, Sql.namesIndex]

end Printing

end Htsn
