import WirelessTsn.ConfigVersion.Payload

/-!
`config_version_manager.c`: snapshots and rollbacks. A rollback wipes the
tables of its scope, allocates a buffer and then works through the tokens of
the payload; every token that one of the branches of `restore_payload` reads
is a row to insert. What can fail is an input of the model: the allocation,
and each INSERT by its position. A failed INSERT has no effect and its result
is not looked at.
-/

namespace Htsn

open CText Keyed

/-- The row that a token of a payload records. -/
inductive RestoreRow where
  | qos (r : QosConfig)
  | vlanGroup (r : VlanGroup)
  | vlanMember (r : VlanMember)
  | stream (r : StreamRow)
  | streamMember (r : StreamMember)
  | tas (r : TasRow)
  | gcl (r : GclRow)
deriving DecidableEq

section Tokens

/-- `"qos:p=%d:bw=%d:lat=%d:pre=%d"` -/
def qosShortFormat : List Conv :=
  lits qosShortTag ++ [Conv.int] ++ lits ":bw=".toList ++ [Conv.int] ++ lits ":lat=".toList ++
    [Conv.int] ++ lits ":pre=".toList ++ [Conv.int]

/-- `"qos:%255[^:]:p=%d:bw=%d:lat=%d:pre=%d"` -/
def qosFormat : List Conv :=
  lits qosTag ++ [Conv.set 255 ':'] ++ lits ":p=".toList ++ [Conv.int] ++ lits ":bw=".toList ++
    [Conv.int] ++ lits ":lat=".toList ++ [Conv.int] ++ lits ":pre=".toList ++ [Conv.int]

/-- `"vlan:%255[^:]:%d"` -/
def vlanFormat : List Conv :=
  lits vlanTag ++ [Conv.set 255 ':'] ++ lits ":".toList ++ [Conv.int]

/-- `"vmem:%255[^:]:%255[^:]"` -/
def vmemFormat : List Conv :=
  lits vmemTag ++ [Conv.set 255 ':'] ++ lits ":".toList ++ [Conv.set 255 ':']

/-- `"stream:%255[^:]:%255[^:]:vlan=%d:prio=%d:lat=%lld:iv=%lld:st=%d"` -/
def streamFormat : List Conv :=
  lits streamTag ++ [Conv.set 255 ':'] ++ lits ":".toList ++ [Conv.set 255 ':'] ++
    lits ":vlan=".toList ++ [Conv.int] ++ lits ":prio=".toList ++ [Conv.int] ++ lits ":lat=".toList ++
    [Conv.llong] ++ lits ":iv=".toList ++ [Conv.llong] ++ lits ":st=".toList ++ [Conv.int]

/-- `"streammem:%255[^:]:%255[^:]"` -/
def streammemFormat : List Conv :=
  lits streammemTag ++ [Conv.set 255 ':'] ++ lits ":".toList ++ [Conv.set 255 ':']

/-- `"tas:%255[^:]:cycle=%lld:tgt=%255s"` -/
def tasFormat : List Conv :=
  lits tasTag ++ [Conv.set 255 ':'] ++ lits ":cycle=".toList ++ [Conv.llong] ++
    lits ":tgt=".toList ++ [Conv.str 255]

/-- `"gcl:%255[^:]:%d:%d:%lld"` -/
def gclFormat : List Conv :=
  lits gclTag ++ [Conv.set 255 ':'] ++ lits ":".toList ++ [Conv.int] ++ lits ":".toList ++
    [Conv.int] ++ lits ":".toList ++ [Conv.llong]

/-- The row of `restore_qos`: the priority is bound twice. -/
def restoreQos (deviceId : Str) (p bw lat pre : Int32) : RestoreRow :=
  .qos ⟨deviceId, p, p, bw, lat, pre⟩

/-- A token without a device belongs to the device of the version. -/
def tokenQosShort (deviceId : Str) (tok : CStr) : Option RestoreRow :=
  let args := sscanf qosShortFormat tok
  if args.length ≥ 1 then
    let owner := if deviceId.chars = [] then Buf.copy 256 "default".toList else deviceId
    some (restoreQos owner (argInt args 0) (argInt args 1) (argInt args 2) (argInt args 3))
  else none

def tokenQos (tok : CStr) : Option RestoreRow :=
  let args := sscanf qosFormat tok
  if args.length = 5 then
    some (restoreQos (Buf.copy 256 (argText args 0)) (argInt args 1) (argInt args 2)
      (argInt args 3) (argInt args 4))
  else none

def tokenVlan (tok : CStr) : Option RestoreRow :=
  let args := sscanf vlanFormat tok
  let gid := Buf.copy 256 (argText args 0)
  if args.length = 2 ∧ gid.chars ≠ [] ∧ argInt args 1 > 0 then
    some (.vlanGroup ⟨gid, gid, argInt args 1⟩)
  else none

def tokenVmem (tok : CStr) : Option RestoreRow :=
  let args := sscanf vmemFormat tok
  if args.length = 2 then
    some (.vlanMember ⟨Buf.copy 256 (argText args 0), Buf.copy 256 (argText args 1)⟩)
  else none

/-- Numbers that were not converted keep the zero they were set to. -/
def tokenStream (tok : CStr) : Option RestoreRow :=
  let args := sscanf streamFormat tok
  let sid := Buf.copy 256 (argText args 0)
  if args.length ≥ 4 then
    some (.stream {
      streamId := sid
      name := sid
      talker := Buf.copy 256 (argText args 1)
      vlanId := argInt args 2
      maxLatencyNs := argLong args 4
      maxIntervalNs := argLong args 5
      priority := argInt args 3
      dataFramePrio := argInt args 3
      status := argInt args 6
      comment := .empty })
  else none

def tokenStreammem (tok : CStr) : Option RestoreRow :=
  let args := sscanf streammemFormat tok
  if args.length = 2 then
    some (.streamMember
      ⟨Buf.copy 256 (argText args 0), .listener, Buf.copy 256 (argText args 1)⟩)
  else none

def tokenTas (tok : CStr) : Option RestoreRow :=
  let args := sscanf tasFormat tok
  let tid := Buf.copy 256 (argText args 0)
  if args.length ≥ 2 then
    some (.tas ⟨tid, tid, argLong args 1, Buf.copy 256 (argText args 2)⟩)
  else none

def tokenGcl (tok : CStr) : Option RestoreRow :=
  let args := sscanf gclFormat tok
  if args.length = 4 then
    some (.gcl ⟨Buf.copy 256 (argText args 0), argInt args 1, argInt args 2, argLong args 3⟩)
  else none

/-- The branches of the loop in `restore_payload`, taken by the `strncmp`
that matches first. -/
def restoreToken (deviceId : Str) (tok : CStr) : Option RestoreRow :=
  if qosShortTag.isPrefixOf tok then tokenQosShort deviceId tok
  else if qosTag.isPrefixOf tok then tokenQos tok
  else if vlanTag.isPrefixOf tok then tokenVlan tok
  else if vmemTag.isPrefixOf tok then tokenVmem tok
  else if streamTag.isPrefixOf tok then tokenStream tok
  else if streammemTag.isPrefixOf tok then tokenStreammem tok
  else if tasTag.isPrefixOf tok then tokenTas tok
  else if gclTag.isPrefixOf tok then tokenGcl tok
  else none

end Tokens

section Inserting

/-- `INSERT OR REPLACE INTO tsn_streams`: a row that is replaced takes its
members with it. -/
def Db.replaceStream (db : Db) (r : StreamRow) : Db :=
  { db with
    tsnStreams := db.tsnStreams.replace r
    tsnStreamMembers :=
      if db.tsnStreams.Has r.streamId.chars then
        db.tsnStreamMembers.filter fun m => !decide (m.streamId.chars = r.streamId.chars)
      else db.tsnStreamMembers }

/-- `INSERT OR REPLACE INTO tas_schedules`, with the same cascade. -/
def Db.replaceTas (db : Db) (r : TasRow) : Db :=
  { db with
    tasSchedules := db.tasSchedules.replace r
    gclEntries :=
      if db.tasSchedules.Has r.id.chars then
        db.gclEntries.filter fun g => !decide (g.scheduleId.chars = r.id.chars)
      else db.gclEntries }

/-- Whether the statement of a row is accepted: it prepares and violates
neither a foreign key nor the CHECK. -/
def Db.Admits (db : Db) : RestoreRow → Prop
  | .qos r => prepares .qosRestore = true ∧ db.devices.Has r.deviceId.chars
  | .vlanGroup _ => prepares .vlanGroupRestore = true
  | .vlanMember _ => prepares .vlanMemberRestore = true
  | .stream r => prepares .tsnRestore = true ∧ statusChecked r.status
  | .streamMember r => prepares .tsnMemberRestore = true ∧ db.tsnStreams.Has r.streamId.chars
  | .tas _ => prepares .tasRestore = true
  | .gcl r => prepares .gclRestore = true ∧ db.tasSchedules.Has r.scheduleId.chars

instance (db : Db) : (r : RestoreRow) → Decidable (db.Admits r)
  | .qos r => inferInstanceAs (Decidable (prepares _ = true ∧ db.devices.Has r.deviceId.chars))
  | .vlanGroup _ => inferInstanceAs (Decidable (prepares _ = true))
  | .vlanMember _ => inferInstanceAs (Decidable (prepares _ = true))
  | .stream r => inferInstanceAs (Decidable (prepares _ = true ∧ statusChecked r.status))
  | .streamMember r =>
      inferInstanceAs (Decidable (prepares _ = true ∧ db.tsnStreams.Has r.streamId.chars))
  | .tas _ => inferInstanceAs (Decidable (prepares _ = true))
  | .gcl r =>
      inferInstanceAs (Decidable (prepares _ = true ∧ db.tasSchedules.Has r.scheduleId.chars))

/-- The effect of an accepted statement. -/
def Db.putRow (db : Db) : RestoreRow → Db
  | .qos r => { db with qosConfigs := db.qosConfigs.replace r }
  | .vlanGroup r => { db with vlanGroups := db.vlanGroups.replace r }
  | .vlanMember r => { db with vlanMembers := db.vlanMembers ++ [r] }
  | .stream r => db.replaceStream r
  | .streamMember r => { db with tsnStreamMembers := db.tsnStreamMembers ++ [r] }
  | .tas r => db.replaceTas r
  | .gcl r => { db with gclEntries := db.gclEntries ++ [r] }

/-- One INSERT; `ok` is whether it fails for a reason of its own. -/
def Db.insertRow (db : Db) (a : RestoreRow × Bool) : Db :=
  if a.2 = true ∧ db.Admits a.1 then db.putRow a.1 else db

/-- What can fail in a rollback. -/
structure RestoreEnv where
  malloc : Bool
  insertOk : Nat → Bool

/-- Nothing fails. -/
def RestoreEnv.healthy : RestoreEnv := ⟨true, fun _ => true⟩

/-- The INSERTs a payload asks for, in order, each with its own outcome. -/
def attempts (env : RestoreEnv) (deviceId : Str) (payload : CStr) : List (RestoreRow × Bool) :=
  ((strtok ' ' payload).filterMap (restoreToken deviceId)).zipIdx.map fun a =>
    (a.1, env.insertOk a.2)

/-- The DELETEs at the top of `restore_payload`. -/
def wipe (db : Db) (deviceId : Str) : Db :=
  if deviceId.chars = [] then
    { db with
      qosConfigs := .empty
      vlanMembers := []
      vlanGroups := .empty
      tsnStreams := .empty
      tsnStreamMembers := []
      tasSchedules := .empty
      gclEntries := [] }
  else
    { db with
      qosConfigs := db.qosConfigs.deleteWhere fun q => decide (q.deviceId.chars = deviceId.chars)
      vlanMembers := db.vlanMembers.filter fun m => !decide (m.deviceId.chars = deviceId.chars)
      tsnStreamMembers :=
        db.tsnStreamMembers.filter fun m => !decide (m.deviceId.chars = deviceId.chars) }

def restorePayload (env : RestoreEnv) (db : Db) (payload : CStr) (deviceId : Str) :
    HtsnError × Db :=
  let db := wipe db deviceId
  if env.malloc then (.ok, (attempts env deviceId payload).foldl Db.insertRow db)
  else (.noMemory, db)

/-- The snapshot's own allocation is `malloc`; `deviceId` is `none` for NULL. -/
def cfgVerSnapshot (malloc : Bool) (db : Db) (now : Int64) (name : CStr)
    (deviceId : Option CStr) : HtsnError × Db :=
  if malloc then
    (.ok, (dbConfigVersionAdd db now name (deviceId.getD []) (serializeScope db deviceId)).2)
  else (.noMemory, db)

def cfgVerRollback (env : RestoreEnv) (db : Db) (id : Int) : HtsnError × Db :=
  match dbConfigVersionGet db id with
  | .error _ => (.notFound, db)
  | .ok v => restorePayload env db v.payload.chars v.deviceId

end Inserting

end Htsn
