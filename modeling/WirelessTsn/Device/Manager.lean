import WirelessTsn.Db.Devices

/-!
`device_manager.c`: an array of at most 512 devices kept beside the devices
table, and `domain_manager.c`, which writes `devices.domain` directly. The
clock is an argument of the operations that read it. Event notifications are
not modelled: no function of the model reads them.
-/

namespace Htsn

open CText Keyed

/-- `MAX_DB_DEVICES` -/
def maxDbDevices : Nat := 512

/-- `struct htsn_device_manager`; the first `count` entries of `devices`. -/
structure DeviceManager where
  devices : Slots Device maxDbDevices
deriving DecidableEq

def deviceKey (d : Device) : CStr := d.id.chars

/-- The database and the manager's copy of it. -/
structure DeviceSystem where
  db : Db
  manager : DeviceManager
deriving DecidableEq

def deviceManagerRestore (db : Db) : DeviceManager :=
  ⟨(dbDeviceForEach db).foldl Slots.push .empty⟩

def deviceManagerCreate (db : Db) : DeviceSystem := ⟨db, deviceManagerRestore db⟩

/-- Write every cached device back; the manager is freed. -/
def deviceManagerDestroy (s : DeviceSystem) : Db :=
  s.manager.devices.items.foldl (fun db d => (dbDeviceUpsert db d).2) s.db

def deviceManagerGet (m : DeviceManager) (id : CStr) : Option Device :=
  findBy deviceKey id m.devices.items

/-- `copy.last_seen = dev->last_seen ? dev->last_seen : time(NULL)` -/
def Device.seenAt (dev : Device) (now : Int64) : Device :=
  { dev with lastSeen := if dev.lastSeen = 0 then now else dev.lastSeen }

def deviceManagerUpsert (s : DeviceSystem) (now : Int64) (dev : Device) :
    HtsnError × DeviceSystem :=
  let copy := dev.seenAt now
  if h : HasKey deviceKey (deviceKey copy) s.manager.devices.items then
    (.ok,
      { db := (dbDeviceUpsert s.db copy).2
        manager := ⟨s.manager.devices.edit (upsertBy deviceKey copy)
          (length_upsertBy_of_hasKey h).le⟩ })
  else if s.manager.devices.items.length ≥ maxDbDevices then (.busy, s)
  else
    (.ok,
      { db := (dbDeviceUpsert s.db copy).2
        manager := ⟨s.manager.devices.push copy⟩ })

/-- The loop shared by the operations on one cached device: find it by id,
change it, write the change to the database. -/
def withDevice (s : DeviceSystem) (id : CStr) (change : Device → Device)
    (write : Db → Device → Db) : HtsnError × DeviceSystem :=
  match deviceManagerGet s.manager id with
  | none => (.notFound, s)
  | some d =>
      (.ok,
        { db := write s.db (change d)
          manager := ⟨s.manager.devices.edit (modifyBy deviceKey id change)
            (length_modifyBy id change _).le⟩ })

def deviceManagerRemove (s : DeviceSystem) (id : CStr) : HtsnError × DeviceSystem :=
  match deviceManagerGet s.manager id with
  | none => (.notFound, s)
  | some _ =>
      (.ok,
        { db := (dbDeviceDelete s.db id).2
          manager := ⟨s.manager.devices.edit (eraseBy deviceKey id) (length_eraseBy_le id _)⟩ })

/-- `d->last_seen < threshold && d->status != HTSN_DEVICE_ERROR` -/
def Device.GoesOffline (threshold : Int64) (d : Device) : Prop :=
  d.lastSeen < threshold ∧ d.status ≠ deviceError

instance (threshold : Int64) (d : Device) : Decidable (d.GoesOffline threshold) :=
  inferInstanceAs (Decidable (d.lastSeen < threshold ∧ d.status ≠ deviceError))

def Device.markOffline (threshold : Int64) (d : Device) : Device :=
  if d.GoesOffline threshold then { d with status := deviceOffline } else d

def deviceManagerMarkOfflineAfter (s : DeviceSystem) (threshold : Int64) : DeviceSystem where
  db := s.manager.devices.items.foldl
    (fun db d =>
      if d.GoesOffline threshold then (dbDeviceSetStatus db d.id.chars deviceOffline).2 else db)
    s.db
  manager := ⟨s.manager.devices.edit (·.map (Device.markOffline threshold)) (by simp)⟩

def Device.heartbeat (now : Int64) (d : Device) : Device :=
  { d with heartbeatAt := now, lastSeen := now, status := deviceOnline }

/-- The `UPDATE devices SET heartbeat_at=?, last_seen=?, status=?` of
`htsn_device_manager_record_heartbeat`. -/
def Db.recordHeartbeat (db : Db) (now : Int64) (id : CStr) : Db :=
  if prepares .deviceHeartbeat then
    db.updateDevice id
      (fun r => { r with
        heartbeatAt := now
        lastSeen := some now
        status := some deviceOnline })
      fun _ => rfl
  else db

def deviceManagerRecordHeartbeat (s : DeviceSystem) (now : Int64) (id : CStr) :
    HtsnError × DeviceSystem :=
  withDevice s id (Device.heartbeat now) fun db _ => db.recordHeartbeat now id

def deviceManagerSetDomain (s : DeviceSystem) (id domain : CStr) : HtsnError × DeviceSystem :=
  withDevice s id (fun d => { d with domain := Buf.copy 256 domain })
    fun db d => (dbDeviceUpsert db d).2

def deviceManagerSetHealth (s : DeviceSystem) (id : CStr) (status : Int32) :
    HtsnError × DeviceSystem :=
  withDevice s id (fun d => { d with status := status })
    fun db _ => (dbDeviceSetStatus db id status).2

def domainManagerSave (db : Db) (d : Domain) : HtsnError × Db := (.ok, (dbDomainSave db d).2)

/-- Delete a domain and re-home its devices; the default domain stays. -/
def domainManagerDelete (db : Db) (id : CStr) : HtsnError × Db :=
  if id = "default".toList then (.invalidArg, db)
  else
    let db := (dbDomainDelete db id).2
    let db :=
      if prepares .domainRehome then
        { db with
          devices := db.devices.updateWhere (fun r => decide (r.domain = some id))
            (fun r => { r with domain := some "default".toList }) fun _ => rfl }
      else db
    (.ok, db)

def domainManagerAssignDevice (db : Db) (deviceId domainId : CStr) : HtsnError × Db :=
  if prepares .domainAssign then
    (.ok, db.updateDevice deviceId (fun r => { r with domain := some domainId }) fun _ => rfl)
  else (.db, db)

end Htsn
