import WirelessTsn.Common
import WirelessTsn.Lib.Table

/-!
The configuration store of `db.c`: the tables that the managers below write,
with the constraints declared in `SCHEMA`, and the statements they prepare.

A column that is only ever bound from a `char[n]` member holds text that fits
it and is typed `Buf n`; `devices.domain` is also bound from an unbounded
argument. A column that some INSERT leaves out may be NULL.

`sqlite3_prepare_v2` rejects a statement that names a column its table does
not have, and one that uses a reserved word as a column name without quoting
it. A statement that fails to prepare has no effect.
-/

namespace Htsn

open CText Keyed

structure DeviceRow where
  id : Str
  name : Str
  ip : Option (Buf 64)
  mac : Option (Buf 32)
  kind : Option CStr
  firmware : Option (Buf 32)
  status : Option Int32
  lastSeen : Option Int64
  domain : Option CStr
  heartbeatAt : Int64
deriving DecidableEq

structure FeatureRow where
  deviceId : Str
  feature : Buf 64
deriving DecidableEq

/-- `htsn_domain` and its row. -/
structure Domain where
  id : Str
  name : Str
  description : Str
deriving DecidableEq

/-- `htsn_qos_config` and its row. -/
structure QosConfig where
  deviceId : Str
  priority : Int32
  trafficClass : Int32
  bandwidthKbps : Int32
  latencyMs : Int32
  preemption : Int32
deriving DecidableEq

/-- `htsn_vlan_group` and its row. -/
structure VlanGroup where
  id : Str
  name : Str
  vlanId : Int32
deriving DecidableEq

/-- `htsn_vlan_member` and its row. -/
structure VlanMember where
  groupId : Str
  deviceId : Str
deriving DecidableEq

structure TasRow where
  id : Str
  name : Str
  cycleTimeNs : Int64
  deployTarget : Str
deriving DecidableEq

structure GclRow where
  scheduleId : Str
  index : Int32
  gateState : Int32
  durationNs : Int64
deriving DecidableEq

structure SensorRow where
  deviceId : Str
  sensorId : Str
  type : CStr
  name : Str
  /-- The bits of a REAL; NULL for a NaN. -/
  value : Option UInt64
  unit : Buf 32
  healthy : Int32
  lastUpdate : Int64
deriving DecidableEq

structure StreamRow where
  streamId : Str
  name : Str
  talker : Str
  vlanId : Int32
  maxLatencyNs : Int64
  maxIntervalNs : Int64
  priority : Int32
  dataFramePrio : Int32
  status : Int32
  comment : Str
deriving DecidableEq

structure StreamMember where
  streamId : Str
  role : StreamRole
  deviceId : Str
deriving DecidableEq

structure ConfigVersionRow where
  id : Int
  name : CStr
  deviceId : CStr
  createdAt : Int64
  payload : CStr
deriving DecidableEq

instance : PrimaryKey DeviceRow CStr := ⟨fun r => r.id.chars⟩
instance : PrimaryKey Domain CStr := ⟨fun r => r.id.chars⟩
instance : PrimaryKey QosConfig CStr := ⟨fun r => r.deviceId.chars⟩
instance : PrimaryKey VlanGroup CStr := ⟨fun r => r.id.chars⟩
instance : PrimaryKey TasRow CStr := ⟨fun r => r.id.chars⟩
instance : PrimaryKey SensorRow (CStr × CStr) := ⟨fun r => (r.deviceId.chars, r.sensorId.chars)⟩
instance : PrimaryKey StreamRow CStr := ⟨fun r => r.streamId.chars⟩
instance : PrimaryKey ConfigVersionRow Int := ⟨fun r => r.id⟩

structure Db where
  devices : Table DeviceRow
  deviceTsnFeatures : List FeatureRow
  domains : Table Domain
  qosConfigs : Table QosConfig
  vlanGroups : Table VlanGroup
  vlanMembers : List VlanMember
  tasSchedules : Table TasRow
  gclEntries : List GclRow
  sensors : Table SensorRow
  tsnStreams : Table StreamRow
  tsnStreamMembers : List StreamMember
  configVersions : Table ConfigVersionRow
  /-- The AUTOINCREMENT counter of `config_versions`. -/
  configVersionSeq : Int
deriving DecidableEq

def Db.empty : Db where
  devices := .empty
  deviceTsnFeatures := []
  domains := .empty
  qosConfigs := .empty
  vlanGroups := .empty
  vlanMembers := []
  tasSchedules := .empty
  gclEntries := []
  sensors := .empty
  tsnStreams := .empty
  tsnStreamMembers := []
  configVersions := .empty
  configVersionSeq := 0

/-- `CHECK(status IN (0,1,2,3))` -/
def statusChecked (st : Int32) : Prop := st = 0 ∨ st = 1 ∨ st = 2 ∨ st = 3

instance (st : Int32) : Decidable (statusChecked st) :=
  inferInstanceAs (Decidable (st = 0 ∨ st = 1 ∨ st = 2 ∨ st = 3))

/-- The FOREIGN KEY and CHECK clauses of `SCHEMA`, as a connection with
`foreign_keys=ON` keeps them. -/
structure Db.Constraints (db : Db) : Prop where
  features : ∀ f ∈ db.deviceTsnFeatures, db.devices.Has f.deviceId.chars
  qos : ∀ q ∈ db.qosConfigs.rows, db.devices.Has q.deviceId.chars
  gcl : ∀ g ∈ db.gclEntries, db.tasSchedules.Has g.scheduleId.chars
  sensors : ∀ s ∈ db.sensors.rows, db.devices.Has s.deviceId.chars
  members : ∀ m ∈ db.tsnStreamMembers, db.tsnStreams.Has m.streamId.chars
  status : ∀ s ∈ db.tsnStreams.rows, statusChecked s.status

theorem Db.empty_constraints : Db.empty.Constraints := by
  constructor <;> simp [Db.empty]

inductive TableName where
  | devices
  | deviceTsnFeatures
  | domains
  | qosConfigs
  | vlanGroups
  | vlanMembers
  | tasSchedules
  | gclEntries
  | timesyncStatus
  | sensors
  | tsnStreams
  | tsnStreamMembers
  | configVersions
deriving DecidableEq

/-- The column names of `SCHEMA`. -/
inductive Column where
  | id | name | ip | mac | kind | firmware | status | lastSeen | domain | heartbeatAt | deviceId
  | feature | description | priority | trafficClass | bandwidthKbps | latencyMs | preemption
  | vlanId | groupId | cycleTimeNs | deployTarget | scheduleId | index | gateState | durationNs
  | mode | grandmaster | offsetNs | quality | jitterNs
  | sensorId | type | value | unit | healthy | lastUpdate
  | streamId | talker | maxLatencyNs | maxIntervalNs | dataFramePrio | comment | role | createdAt
  | payload
deriving DecidableEq

/-- A column as statements spell it. -/
def Column.text : Column → String
  | .id => "id"
  | .name => "name"
  | .ip => "ip"
  | .mac => "mac"
  | .kind => "kind"
  | .firmware => "firmware"
  | .status => "status"
  | .lastSeen => "last_seen"
  | .domain => "domain"
  | .heartbeatAt => "heartbeat_at"
  | .deviceId => "device_id"
  | .feature => "feature"
  | .description => "description"
  | .priority => "priority"
  | .trafficClass => "traffic_class"
  | .bandwidthKbps => "bandwidth_kbps"
  | .latencyMs => "latency_ms"
  | .preemption => "preemption"
  | .vlanId => "vlan_id"
  | .groupId => "group_id"
  | .cycleTimeNs => "cycle_time_ns"
  | .deployTarget => "deploy_target"
  | .scheduleId => "schedule_id"
  | .index => "index"
  | .gateState => "gate_state"
  | .durationNs => "duration_ns"
  | .mode => "mode"
  | .grandmaster => "grandmaster"
  | .offsetNs => "offset_ns"
  | .quality => "quality"
  | .jitterNs => "jitter_ns"
  | .sensorId => "sensor_id"
  | .type => "type"
  | .value => "value"
  | .unit => "unit"
  | .healthy => "healthy"
  | .lastUpdate => "last_update"
  | .streamId => "stream_id"
  | .talker => "talker"
  | .maxLatencyNs => "max_latency_ns"
  | .maxIntervalNs => "max_interval_ns"
  | .dataFramePrio => "data_frame_prio"
  | .comment => "comment"
  | .role => "role"
  | .createdAt => "created_at"
  | .payload => "payload"

/-- SQLite's keywords that do not fall back to identifiers. -/
def reservedWords : List String :=
  ["add", "all", "alter", "and", "as", "autoincrement", "between", "case", "check", "collate",
   "commit", "constraint", "create", "default", "deferrable", "delete", "distinct", "drop",
   "else", "escape", "exists", "foreign", "from", "group", "having", "in", "index", "insert",
   "into", "is", "isnull", "join", "limit", "not", "nothing", "notnull", "null", "on", "or",
   "order", "primary", "references", "returning", "select", "set", "table", "then", "to",
   "transaction", "unique", "update", "using", "values", "when", "where"]

/-- The column cannot be named without quotes. -/
def Column.isReserved (c : Column) : Bool := reservedWords.contains c.text

/-- Of the columns only `index` is a keyword. -/
theorem Column.isReserved_eq (c : Column) : c.isReserved = decide (c = .index) := by
  cases c <;> decide

/-- The columns that `SCHEMA` creates. -/
def TableName.columns : TableName → List Column
  | .devices => [.id, .name, .ip, .mac, .kind, .firmware, .status, .lastSeen,
      .domain, .heartbeatAt]
  | .deviceTsnFeatures => [.deviceId, .feature]
  | .domains => [.id, .name, .description]
  | .qosConfigs => [.deviceId, .priority, .trafficClass, .bandwidthKbps, .latencyMs,
      .preemption]
  | .vlanGroups => [.id, .name, .vlanId]
  | .vlanMembers => [.groupId, .deviceId]
  | .tasSchedules => [.id, .name, .cycleTimeNs, .deployTarget]
  | .gclEntries => [.scheduleId, .index, .gateState, .durationNs]
  | .timesyncStatus => [.id, .mode, .grandmaster, .offsetNs, .quality]
  | .sensors => [.deviceId, .sensorId, .type, .name, .value, .unit, .healthy, .lastUpdate]
  | .tsnStreams => [.streamId, .name, .talker, .vlanId, .maxLatencyNs,
      .maxIntervalNs, .priority, .dataFramePrio, .status, .comment]
  | .tsnStreamMembers => [.streamId, .role, .deviceId]
  | .configVersions => [.id, .name, .deviceId, .createdAt, .payload]

/-- The statements of the modelled functions, named by the function and what
the statement does there. -/
inductive Sql where
  | deviceUpsert | deviceFeatureDelete | deviceFeatureInsert | deviceSelect
  | deviceSelectInDomain | deviceSelectById | deviceFeatureSelect | deviceDelete
  | deviceSetStatus | deviceHeartbeat | deviceStub
  | domainSave | domainDelete | domainRehome | domainAssign
  | qosSave | qosSelect | qosDeleteAll | qosDelete | qosRestore
  | vlanGroupSave | vlanGroupDelete | vlanGroupSelect | vlanGroupDeleteAll | vlanGroupRestore
  | vlanMemberAdd | vlanMemberRemove | vlanMemberSelect | vlanMemberDeleteAll
  | vlanMemberDeleteDevice | vlanMemberSelectDevice | vlanMemberRestore
  | tasSave | tasSelect | tasSelectIds | tasDelete | tasDeleteAll | tasRestore
  | gclDelete | gclInsert | gclSelect | gclDeleteAll | gclRestore
  | sensorUpsert | sensorDelete | sensorSelect
  | tsnSave | tsnSelect | tsnSelectIds | tsnDelete | tsnSetStatus | tsnDeleteAll | tsnRestore
  | tsnMemberDelete | tsnMemberInsert | tsnMemberSelect | tsnMemberDeleteAll
  | tsnMemberDeleteDevice | tsnMemberSelectDevice | tsnMemberRestore
  | configVersionAdd | configVersionGet
deriving DecidableEq

/-- The table of a statement and the column names that stand in its text. -/
def Sql.names : Sql → TableName × List Column
  | .deviceUpsert | .deviceSelect | .deviceSelectInDomain | .deviceSelectById =>
      (.devices, [.id, .name, .ip, .mac, .kind, .firmware, .status, .lastSeen,
        .domain, .heartbeatAt])
  | .deviceFeatureDelete => (.deviceTsnFeatures, [.deviceId])
  | .deviceFeatureInsert | .deviceFeatureSelect =>
      (.deviceTsnFeatures, [.deviceId, .feature])
  | .deviceDelete => (.devices, [.id])
  | .deviceSetStatus => (.devices, [.status, .id])
  | .deviceHeartbeat => (.devices, [.heartbeatAt, .lastSeen, .status, .id])
  | .deviceStub => (.devices, [.id, .name])
  | .domainSave => (.domains, [.id, .name, .description])
  | .domainDelete => (.domains, [.id])
  | .domainRehome => (.devices, [.domain])
  | .domainAssign => (.devices, [.domain, .id])
  | .qosSave | .qosRestore =>
      (.qosConfigs, [.deviceId, .priority, .trafficClass, .bandwidthKbps, .latencyMs,
        .preemption])
  | .qosSelect =>
      (.qosConfigs, [.deviceId, .priority, .bandwidthKbps, .latencyMs, .preemption])
  | .qosDeleteAll => (.qosConfigs, [])
  | .qosDelete => (.qosConfigs, [.deviceId])
  | .vlanGroupSave | .vlanGroupSelect | .vlanGroupRestore =>
      (.vlanGroups, [.id, .name, .vlanId])
  | .vlanGroupDelete => (.vlanGroups, [.id])
  | .vlanGroupDeleteAll => (.vlanGroups, [])
  | .vlanMemberAdd | .vlanMemberRemove | .vlanMemberSelect | .vlanMemberSelectDevice
  | .vlanMemberRestore => (.vlanMembers, [.groupId, .deviceId])
  | .vlanMemberDeleteAll => (.vlanMembers, [])
  | .vlanMemberDeleteDevice => (.vlanMembers, [.deviceId])
  | .tasSave | .tasSelect | .tasRestore =>
      (.tasSchedules, [.id, .name, .cycleTimeNs, .deployTarget])
  | .tasSelectIds | .tasDelete => (.tasSchedules, [.id])
  | .tasDeleteAll => (.tasSchedules, [])
  | .gclDelete => (.gclEntries, [.scheduleId])
  | .gclInsert | .gclRestore =>
      (.gclEntries, [.scheduleId, .index, .gateState, .durationNs])
  | .gclSelect => (.gclEntries, [.gateState, .durationNs, .scheduleId, .index])
  | .gclDeleteAll => (.gclEntries, [])
  | .sensorUpsert | .sensorSelect =>
      (.sensors, [.deviceId, .sensorId, .type, .name, .value, .unit, .healthy, .lastUpdate])
  | .sensorDelete => (.sensors, [.deviceId, .sensorId])
  | .tsnSave | .tsnSelect | .tsnRestore =>
      (.tsnStreams, [.streamId, .name, .talker, .vlanId, .maxLatencyNs,
        .maxIntervalNs, .priority, .dataFramePrio, .status, .comment])
  | .tsnSelectIds | .tsnDelete => (.tsnStreams, [.streamId])
  | .tsnSetStatus => (.tsnStreams, [.status, .streamId])
  | .tsnDeleteAll => (.tsnStreams, [])
  | .tsnMemberDelete => (.tsnStreamMembers, [.streamId])
  | .tsnMemberInsert | .tsnMemberSelect | .tsnMemberRestore =>
      (.tsnStreamMembers, [.streamId, .role, .deviceId])
  | .tsnMemberDeleteAll => (.tsnStreamMembers, [])
  | .tsnMemberDeleteDevice => (.tsnStreamMembers, [.deviceId])
  | .tsnMemberSelectDevice => (.tsnStreamMembers, [.streamId, .deviceId])
  | .configVersionAdd => (.configVersions, [.name, .deviceId, .createdAt, .payload])
  | .configVersionGet =>
      (.configVersions, [.id, .name, .deviceId, .createdAt, .payload])

/-- `sqlite3_prepare_v2(..) == SQLITE_OK`. No statement quotes its column
names, so a reserved word is a syntax error. -/
def prepares (q : Sql) : Bool :=
  q.names.2.all fun c => !c.isReserved && q.names.1.columns.contains c

/-- The statements that spell the quoted `"index"` column of `gcl_entries`
without quotes. -/
def Sql.namesIndex : Sql → Bool
  | .gclInsert | .gclSelect | .gclRestore => true
  | _ => false

/-- Every statement agrees with the schema, except that those naming `index`
do not parse. -/
@[simp] theorem prepares_eq (q : Sql) : prepares q = !q.namesIndex := by
  simp only [prepares, Column.isReserved_eq]
  cases q <;> decide

end Htsn
