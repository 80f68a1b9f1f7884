import WirelessTsn.Db.Schema

/-!
`db_qos.c`, `db_vlan.c`, `db_tas.c` and `db_config_versions.c`. A walk over a
table is the list of the records it hands to its callback; all callbacks here
ask for more.
-/

namespace Htsn

open CText Keyed

/-- The stub row of `INSERT OR IGNORE INTO devices(id,name)`: the columns left
out get their defaults. -/
def stubDevice (id : Str) : DeviceRow where
  id := id
  name := id
  ip := none
  mac := none
  kind := none
  firmware := none
  status := none
  lastSeen := none
  domain := some "default".toList
  heartbeatAt := 0

/-- The device row is created first if need be, so the foreign key holds. -/
def dbQosSave (db : Db) (cfg : QosConfig) : HtsnError × Db :=
  let db :=
    if prepares .deviceStub then
      { db with devices := db.devices.insertOrIgnore (stubDevice cfg.deviceId) }
    else db
  if prepares .qosSave then
    if db.devices.Has cfg.deviceId.chars then
      (.ok, { db with qosConfigs := db.qosConfigs.upsert cfg })
    else (.db, db)
  else (.db, db)

def dbVlanGroupSave (db : Db) (g : VlanGroup) : HtsnError × Db :=
  if prepares .vlanGroupSave then (.ok, { db with vlanGroups := db.vlanGroups.upsert g })
  else (.db, db)

def dbVlanGroupDelete (db : Db) (id : CStr) : HtsnError × Db :=
  if prepares .vlanGroupDelete then
    (.ok, { db with vlanGroups := db.vlanGroups.deleteWhere fun g => decide (g.id.chars = id) })
  else (.db, db)

def dbVlanGroupForEach (db : Db) : List VlanGroup :=
  if prepares .vlanGroupSelect then db.vlanGroups.rows else []

/-- `vlan_members` has no key, so `INSERT OR IGNORE` ignores nothing. -/
def dbVlanMemberAdd (db : Db) (m : VlanMember) : HtsnError × Db :=
  if prepares .vlanMemberAdd then (.ok, { db with vlanMembers := db.vlanMembers ++ [m] })
  else (.db, db)

def dbVlanMemberRemove (db : Db) (groupId deviceId : CStr) : HtsnError × Db :=
  if prepares .vlanMemberRemove then
    (.ok,
      { db with
        vlanMembers := db.vlanMembers.filter fun m =>
          !decide (m.groupId.chars = groupId ∧ m.deviceId.chars = deviceId) })
  else (.db, db)

def dbVlanMemberForEachAll (db : Db) : List VlanMember :=
  if prepares .vlanMemberSelect then db.vlanMembers else []

/-- `htsn_gcl_entry` -/
structure GclEntry where
  gateState : UInt8
  durationNs : Int64
deriving DecidableEq

/-- `HTSN_TAS_MAX_ENTRIES` and `HTSN_GCL_MAX_ENTRIES` -/
def maxGclEntries : Nat := 128

/-- `htsn_tas_schedule`; `entries` is the array that its pointer refers to. -/
structure TasSchedule where
  id : Str
  name : Str
  cycleTimeNs : Int64
  deployTarget : Str
  entries : Slots GclEntry maxGclEntries
deriving DecidableEq

def tasRow (s : TasSchedule) : TasRow where
  id := s.id
  name := s.name
  cycleTimeNs := s.cycleTimeNs
  deployTarget := s.deployTarget

/-- `INSERT INTO gcl_entries`, subject to its foreign key. -/
def Db.insertGcl (db : Db) (g : GclRow) : Db :=
  if db.tasSchedules.Has g.scheduleId.chars then { db with gclEntries := db.gclEntries ++ [g] }
  else db

/-- The gate entry at position `i` as `htsn_db_tas_save` binds it. -/
def gclRow (s : TasSchedule) (i : Nat) (e : GclEntry) : GclRow where
  scheduleId := s.id
  index := Int32.ofNat i
  gateState := Int32.ofNat e.gateState.toNat
  durationNs := e.durationNs

def dbTasSave (db : Db) (s : TasSchedule) : HtsnError × Db :=
  if prepares .tasSave then
    let db := { db with tasSchedules := db.tasSchedules.upsert (tasRow s) }
    if prepares .gclDelete then
      let db := { db with
        gclEntries := db.gclEntries.filter fun g => !decide (g.scheduleId.chars = s.id.chars) }
      let db := s.entries.items.zipIdx.foldl
        (fun db e => if prepares .gclInsert then db.insertGcl (gclRow s e.2 e.1) else db) db
      (.ok, db)
    else (.db, db)
  else (.db, db)

/-- The gate entries of a schedule `ORDER BY index`. -/
def Db.gclOf (db : Db) (id : CStr) : List GclRow :=
  (db.gclEntries.filter fun g => decide (g.scheduleId.chars = id)).mergeSort
    fun a b => decide (a.index ≤ b.index)

def dbTasLoad (db : Db) (id : CStr) : Except HtsnError TasSchedule :=
  if prepares .tasSelect then
    match db.tasSchedules.find id with
    | none => .error .notFound
    | some r =>
        if prepares .gclSelect then
          .ok {
            id := r.id
            name := r.name
            cycleTimeNs := r.cycleTimeNs
            deployTarget := r.deployTarget
            entries := ((db.gclOf id).map fun g =>
              ⟨UInt8.ofNat (g.gateState.toInt % 256).toNat, g.durationNs⟩).foldl Slots.push .empty }
        else .error .db
  else .error .db

def dbTasForEach (db : Db) : List TasSchedule :=
  if prepares .tasSelectIds then
    db.tasSchedules.rows.filterMap fun r => (dbTasLoad db r.id.chars).toOption
  else []

/-- The query for the gate entries does not parse, so a schedule that exists
cannot be loaded. -/
theorem dbTasLoad_toOption (db : Db) (id : CStr) : (dbTasLoad db id).toOption = none := by
  simp only [dbTasLoad, prepares_eq, Sql.namesIndex, Bool.not_false, if_true, Bool.not_true,
    Bool.false_eq_true, if_false]
  split <;> rfl

@[simp] theorem dbTasForEach_eq_nil (db : Db) : dbTasForEach db = [] := by
  simp [dbTasForEach, dbTasLoad_toOption]

/-- `htsn_config_version` -/
structure ConfigVersion where
  id : Int
  name : Str
  deviceId : Str
  createdAt : Int64
  payload : Buf 4096

/-- The key that AUTOINCREMENT gives the next version. -/
def nextVersionId (db : Db) : Int :=
  (db.configVersions.rows.map ConfigVersionRow.id).foldl max db.configVersionSeq + 1

theorem lt_nextVersionId (db : Db) {v : ConfigVersionRow} (hv : v ∈ db.configVersions.rows) :
    v.id < nextVersionId db := by
  have hfold : ∀ (ids : List Int) (seq i : Int), i ∈ ids ∨ i ≤ seq → i ≤ ids.foldl max seq := by
    intro ids
    induction ids with
    | nil => exact fun seq i h => h.resolve_left (by simp)
    | cons j ids ih =>
        intro seq i h
        apply ih
        rcases h with h | h
        · rcases List.mem_cons.mp h with rfl | h
          · exact Or.inr (le_max_right _ _)
          · exact Or.inl h
        · exact Or.inr (h.trans (le_max_left _ _))
  have hle := hfold _ db.configVersionSeq v.id (Or.inl (List.mem_map_of_mem hv))
  unfold nextVersionId
  omega

def dbConfigVersionAdd (db : Db) (now : Int64) (name deviceId payload : CStr) : HtsnError × Db :=
  if prepares .configVersionAdd then
    (.ok,
      { db with
        configVersions :=
          db.configVersions.upsert ⟨nextVersionId db, name, deviceId, now, payload⟩
        configVersionSeq := nextVersionId db })
  else (.db, db)

/-- The INSERT never meets an existing version. -/
theorem dbConfigVersionAdd_rows (db : Db) (now : Int64) (name deviceId payload : CStr) :
    (dbConfigVersionAdd db now name deviceId payload).2.configVersions.rows =
      db.configVersions.rows ++ [⟨nextVersionId db, name, deviceId, now, payload⟩] := by
  simp only [dbConfigVersionAdd, prepares_eq, Sql.namesIndex, Bool.not_false, if_true,
    Table.upsert_rows]
  apply upsertBy_of_not_hasKey
  rintro ⟨v, hv, hkey⟩
  have hid : v.id = nextVersionId db := hkey
  exact absurd (lt_nextVersionId db hv) (by omega)

def dbConfigVersionGet (db : Db) (id : Int) : Except HtsnError ConfigVersion :=
  if prepares .configVersionGet then
    match db.configVersions.find id with
    | none => .error .notFound
    | some v =>
        .ok {
          id := v.id
          name := Buf.copy 256 v.name
          deviceId := Buf.copy 256 v.deviceId
          createdAt := v.createdAt
          payload := Buf.copy 4096 v.payload }
  else .error .db

end Htsn
