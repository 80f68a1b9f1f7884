import WirelessTsn.Db.Schema

/-!
`db_devices.c` and `db_domains.c`. Every function checks its arguments for
NULL first; the model takes them as given and starts behind that check.
-/

namespace Htsn

open CText Keyed

/-- The row that `bind_device` binds. -/
def bindDevice (dev : Device) : DeviceRow where
  id := dev.id
  name := dev.name
  ip := some dev.ip
  mac := some dev.mac
  kind := some (deviceKindStr dev.kind)
  firmware := some dev.firmware
  status := some dev.status
  lastSeen := some dev.lastSeen
  domain := some dev.domainOrDefault
  heartbeatAt := dev.heartbeatAt

@[simp] theorem key_bindDevice (dev : Device) :
    PrimaryKey.key (bindDevice dev) = dev.id.chars := rfl

/-- `INSERT INTO device_tsn_features`, subject to its foreign key. -/
def Db.insertFeature (db : Db) (f : FeatureRow) : Db :=
  if db.devices.Has f.deviceId.chars then
    { db with deviceTsnFeatures := db.deviceTsnFeatures ++ [f] }
  else db

def Db.deleteFeatures (db : Db) (id : CStr) : Db :=
  { db with deviceTsnFeatures := db.deviceTsnFeatures.filter fun f => !decide (f.deviceId.chars = id) }

/-- `DELETE FROM devices WHERE id=?` with its cascades. -/
def Db.deleteDevice (db : Db) (id : CStr) : Db :=
  if db.devices.Has id then
    { db with
      devices := db.devices.deleteWhere fun r => decide (r.id.chars = id)
      deviceTsnFeatures := db.deviceTsnFeatures.filter fun f => !decide (f.deviceId.chars = id)
      qosConfigs := db.qosConfigs.deleteWhere fun q => decide (q.deviceId.chars = id)
      sensors := db.sensors.deleteWhere fun s => decide (s.deviceId.chars = id) }
  else db

/-- `UPDATE devices SET .. WHERE id=?` on columns other than the key. -/
def Db.updateDevice (db : Db) (id : CStr) (f : DeviceRow → DeviceRow)
    (hf : ∀ r, (f r).id = r.id) : Db :=
  { db with
    devices := db.devices.updateWhere (fun r => decide (r.id.chars = id)) f
      fun r => congrArg Buf.chars (hf r) }

def dbDeviceUpsert (db : Db) (dev : Device) : HtsnError × Db :=
  if prepares .deviceUpsert then
    let db := { db with devices := db.devices.upsert (bindDevice dev) }
    let db := if prepares .deviceFeatureDelete then db.deleteFeatures dev.id.chars else db
    let db := dev.tsnFeatures.items.foldl
      (fun db feature =>
        if prepares .deviceFeatureInsert then db.insertFeature ⟨dev.id, feature⟩ else db) db
    (.ok, db)
  else (.db, db)

/-- The features stored for a device, in row order. -/
def Db.featuresOf (db : Db) (id : CStr) : List (Buf 64) :=
  (db.deviceTsnFeatures.filter fun f => decide (f.deviceId.chars = id)).map FeatureRow.feature

/-- `row_to_device`: a NULL text column is copied as the empty string, a NULL
integer is read as zero. -/
def rowToDevice (db : Db) (r : DeviceRow) : Device where
  id := r.id
  name := r.name
  ip := r.ip.getD .empty
  mac := r.mac.getD .empty
  kind := deviceKindParse r.kind
  firmware := r.firmware.getD .empty
  status := r.status.getD 0
  lastSeen := r.lastSeen.getD 0
  domain := Buf.copy 256 (r.domain.getD [])
  heartbeatAt := r.heartbeatAt
  tsnFeatures :=
    if prepares .deviceFeatureSelect then (db.featuresOf r.id.chars).foldl Slots.push .empty
    else .empty

/-- The devices that `htsn_db_device_for_each` hands to its callback. -/
def dbDeviceForEach (db : Db) : List Device :=
  if prepares .deviceSelect then db.devices.rows.map (rowToDevice db) else []

def dbDeviceForEachInDomain (db : Db) (domain : CStr) : List Device :=
  if prepares .deviceSelectInDomain then
    (db.devices.rows.filter fun r => decide (r.domain = some domain)).map (rowToDevice db)
  else []

def dbDeviceGet (db : Db) (id : CStr) : Except HtsnError Device :=
  if prepares .deviceSelectById then
    match db.devices.find id with
    | some r => .ok (rowToDevice db r)
    | none => .error .notFound
  else .error .db

def dbDeviceDelete (db : Db) (id : CStr) : HtsnError × Db :=
  if prepares .deviceDelete then (.ok, db.deleteDevice id) else (.db, db)

def dbDeviceSetStatus (db : Db) (id : CStr) (status : Int32) : HtsnError × Db :=
  if prepares .deviceSetStatus then
    (.ok, db.updateDevice id (fun r => { r with status := some status }) fun _ => rfl)
  else (.db, db)

def dbDomainSave (db : Db) (d : Domain) : HtsnError × Db :=
  if prepares .domainSave then (.ok, { db with domains := db.domains.upsert d })
  else (.db, db)

def dbDomainDelete (db : Db) (id : CStr) : HtsnError × Db :=
  if prepares .domainDelete then
    (.ok, { db with domains := db.domains.deleteWhere fun d => decide (d.id.chars = id) })
  else (.db, db)

private theorem foldl_insertFeature (db : Db) (id : Str) (fs : List (Buf 64))
    (h : db.devices.Has id.chars) :
    fs.foldl (fun db feature => db.insertFeature ⟨id, feature⟩) db =
      { db with deviceTsnFeatures := db.deviceTsnFeatures ++ fs.map (FeatureRow.mk id) } := by
  induction fs generalizing db with
  | nil => simp
  | cons f fs ih =>
      have hstep : db.insertFeature ⟨id, f⟩ =
          { db with deviceTsnFeatures := db.deviceTsnFeatures ++ [⟨id, f⟩] } := by
        simp [Db.insertFeature, h]
      have hrest := ih { db with deviceTsnFeatures := db.deviceTsnFeatures ++ [⟨id, f⟩] } h
      rw [List.foldl_cons, hstep, hrest]
      simp

/-- What `htsn_db_device_upsert` leaves in the two tables it writes. -/
theorem dbDeviceUpsert_eq (db : Db) (dev : Device) :
    dbDeviceUpsert db dev = (.ok,
      { db with
        devices := db.devices.upsert (bindDevice dev)
        deviceTsnFeatures :=
          (db.deviceTsnFeatures.filter fun f => !decide (f.deviceId.chars = dev.id.chars)) ++
            dev.tsnFeatures.items.map (FeatureRow.mk dev.id) }) := by
  have hhas := db.devices.has_upsert_self (bindDevice dev)
  simp only [dbDeviceUpsert, prepares_eq, Sql.namesIndex, Bool.not_false, if_true,
    Db.deleteFeatures]
  rw [foldl_insertFeature _ _ _ hhas]

@[simp] theorem rowToDevice_id (db : Db) (r : DeviceRow) : (rowToDevice db r).id = r.id := rfl

/-- The stored features of a device just written are its own, and those of
every other device are untouched. -/
theorem featuresOf_dbDeviceUpsert (db : Db) (dev : Device) (id : CStr) :
    (dbDeviceUpsert db dev).2.featuresOf id =
      if dev.id.chars = id then dev.tsnFeatures.items else db.featuresOf id := by
  rw [dbDeviceUpsert_eq]
  by_cases h : dev.id.chars = id
  · subst h
    have hother : (db.deviceTsnFeatures.filter fun f => !decide (f.deviceId.chars = dev.id.chars)).filter
        (fun f => decide (f.deviceId.chars = dev.id.chars)) = [] := by
      simp [List.filter_filter]
    have hown : (dev.tsnFeatures.items.map (FeatureRow.mk dev.id)).filter
        (fun f => decide (f.deviceId.chars = dev.id.chars)) =
          dev.tsnFeatures.items.map (FeatureRow.mk dev.id) := by
      simp [List.filter_eq_self]
    simp [Db.featuresOf, List.filter_append, hother, hown, List.map_map, Function.comp_def]
  · have hown : (dev.tsnFeatures.items.map (FeatureRow.mk dev.id)).filter
        (fun f => decide (f.deviceId.chars = id)) = [] := by
      simp [List.filter_eq_nil_iff, h]
    have hother : (db.deviceTsnFeatures.filter fun f => !decide (f.deviceId.chars = dev.id.chars)).filter
        (fun f => decide (f.deviceId.chars = id)) =
          db.deviceTsnFeatures.filter fun f => decide (f.deviceId.chars = id) := by
      rw [List.filter_filter]
      apply List.filter_congr
      intro f _
      by_cases hf : f.deviceId.chars = id
      · simp [hf, Ne.symm h]
      · simp [hf]
    simp [Db.featuresOf, List.filter_append, hother, hown, h]

end Htsn
