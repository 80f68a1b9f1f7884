import WirelessTsn.Device.Manager
import WirelessTsn.Sensor.Manager
import WirelessTsn.Lib.Run

/-!
The sensor manager's array against the sensors table, while a device manager
works on the same database. The foreign key of the table refuses a sensor of
an unknown device and drops the sensors of a removed one; the sensor manager
hears of neither. The keys agree along a run exactly when no step makes the
foreign key act.
-/

namespace Htsn

open CText Keyed Run

/-- One database with a device manager and a sensor manager on it. -/
structure SensorState where
  db : Db
  devices : DeviceManager
  sensors : SensorManager

inductive SensorOp where
  | upsert (x : Sensor)
  | remove (dev sid : CStr)
  | autoDetect (dev : CStr) (clock : Fin 5 → Int64)
  | deviceUpsert (now : Int64) (dev : Device)
  | deviceRemove (id : CStr)

def SensorState.start (db : Db) : SensorState :=
  ⟨db, deviceManagerRestore db, sensorManagerCreate db⟩

/-- What the sensor manager works on, and the state it leaves. -/
def SensorState.sensorSystem (s : SensorState) : SensorSystem := ⟨s.db, s.sensors⟩

def SensorState.withSensors (s : SensorState) (t : SensorSystem) : SensorState :=
  ⟨t.db, s.devices, t.manager⟩

def SensorState.withDevices (s : SensorState) (t : DeviceSystem) : SensorState :=
  ⟨t.db, t.manager, s.sensors⟩

def sensorStep (s : SensorState) : SensorOp → SensorState
  | .upsert x => s.withSensors (sensorManagerUpsert s.sensorSystem x).2
  | .remove dev sid => s.withSensors (sensorManagerRemove s.sensorSystem dev sid).2
  | .autoDetect dev clock => s.withSensors (sensorManagerAutoDetect s.sensorSystem dev clock).2
  | .deviceUpsert now dev => s.withDevices (deviceManagerUpsert ⟨s.db, s.devices⟩ now dev).2
  | .deviceRemove id => s.withDevices (deviceManagerRemove ⟨s.db, s.devices⟩ id).2

/-- The array holds every key of the table once, and no other. -/
def SensorSystem.Agrees (s : SensorSystem) : Prop :=
  (s.manager.sensors.items.map sensorKey).Nodup ∧
    ∀ k, HasKey sensorKey k s.manager.sensors.items ↔ s.db.sensors.Has k

/-- The foreign key of the sensors table. -/
def Db.SensorsLinked (db : Db) : Prop :=
  ∀ r ∈ db.sensors.rows, db.devices.Has r.deviceId.chars

/-- What a step needs so that the foreign key does not act behind the sensor
manager's back: a sensor that is taken in has its device in the table, and a
device that is removed has no cached sensor. -/
def SensorState.StepKeeps (s : SensorState) : SensorOp → Prop
  | .upsert x =>
      s.db.devices.Has x.deviceId.chars ∨ maxSensors ≤ s.sensors.sensors.items.length
  | .autoDetect dev _ =>
      s.db.devices.Has (Buf.copy 256 dev).chars ∨ maxSensors ≤ s.sensors.sensors.items.length
  | .deviceRemove id =>
      HasKey deviceKey id s.devices.devices.items →
        ∀ x ∈ s.sensors.sensors.items, x.deviceId.chars ≠ id
  | _ => True

section Upsert

variable {s : SensorSystem} {x : Sensor}

/-- The key is cached already, or there is a free slot. -/
def SensorSystem.Accepts (s : SensorSystem) (x : Sensor) : Prop :=
  HasKey sensorKey (sensorKey x) s.manager.sensors.items ∨
    s.manager.sensors.items.length < maxSensors

theorem sensorManagerUpsert_accepted (h : s.Accepts x) :
    (sensorManagerUpsert s x).2.db = (dbSensorUpsert s.db x).2 ∧
      (sensorManagerUpsert s x).2.manager.sensors.items =
        upsertBy sensorKey x s.manager.sensors.items := by
  unfold sensorManagerUpsert
  split
  · exact ⟨rfl, rfl⟩
  · rename_i hnew
    have hroom : s.manager.sensors.items.length < maxSensors := h.resolve_left hnew
    rw [if_neg (Nat.not_le_of_lt hroom)]
    exact ⟨rfl, by simp [Slots.push, hroom, upsertBy_of_not_hasKey hnew]⟩

theorem sensorManagerUpsert_refused (h : ¬ s.Accepts x) : (sensorManagerUpsert s x).2 = s := by
  obtain ⟨hnew, hfull⟩ := not_or.mp h
  simp [sensorManagerUpsert, hnew, Nat.le_of_not_lt hfull]

theorem dbSensorUpsert_known {db : Db} (h : db.devices.Has x.deviceId.chars) :
    (dbSensorUpsert db x).2 = { db with sensors := db.sensors.upsert (sensorRow x) } := by
  simp [dbSensorUpsert, Sql.namesIndex, h]

theorem dbSensorUpsert_unknown {db : Db} (h : ¬ db.devices.Has x.deviceId.chars) :
    (dbSensorUpsert db x).2 = db := by
  simp [dbSensorUpsert, Sql.namesIndex, h]

/-- An upsert writes no other table. -/
theorem sensorManagerUpsert_db (s : SensorSystem) (x : Sensor) :
    ∃ t, (sensorManagerUpsert s x).2.db = { s.db with sensors := t } := by
  by_cases h : s.Accepts x
  · rw [(sensorManagerUpsert_accepted h).1]
    by_cases hd : s.db.devices.Has x.deviceId.chars
    · exact ⟨_, dbSensorUpsert_known hd⟩
    · exact ⟨s.db.sensors, dbSensorUpsert_unknown hd⟩
  · exact ⟨s.db.sensors, by rw [sensorManagerUpsert_refused h]⟩

theorem sensorManagerUpsert_devices (s : SensorSystem) (x : Sensor) :
    (sensorManagerUpsert s x).2.db.devices = s.db.devices := by
  obtain ⟨t, hdb⟩ := sensorManagerUpsert_db s x
  rw [hdb]

/-- A sensor of a known device goes into both copies or into neither. -/
theorem agrees_upsert_known (ha : s.Agrees) (h : s.db.devices.Has x.deviceId.chars) :
    (sensorManagerUpsert s x).2.Agrees := by
  by_cases hacc : s.Accepts x
  · obtain ⟨hdb, hitems⟩ := sensorManagerUpsert_accepted hacc
    unfold SensorSystem.Agrees
    rw [hdb, hitems, dbSensorUpsert_known h]
    refine ⟨nodup_upsertBy ha.1, fun k => ?_⟩
    rw [hasKey_upsertBy, Table.has_upsert, key_sensorRow, ha.2 k]
  · rw [sensorManagerUpsert_refused hacc]
    exact ha

/-- A sensor of an unknown device never reaches the table. -/
theorem sensorManagerUpsert_db_unknown (h : ¬ s.db.devices.Has x.deviceId.chars) :
    (sensorManagerUpsert s x).2.db = s.db := by
  by_cases hacc : s.Accepts x
  · rw [(sensorManagerUpsert_accepted hacc).1, dbSensorUpsert_unknown h]
  · rw [sensorManagerUpsert_refused hacc]

theorem hasKey_sensorManagerUpsert {k : CStr × CStr}
    (h : HasKey sensorKey k s.manager.sensors.items) :
    HasKey sensorKey k (sensorManagerUpsert s x).2.manager.sensors.items := by
  by_cases hacc : s.Accepts x
  · rw [(sensorManagerUpsert_accepted hacc).2]
    exact hasKey_upsertBy.mpr (Or.inr h)
  · rwa [sensorManagerUpsert_refused hacc]

/-- Under agreement no key of an unknown device is cached. -/
theorem not_hasKey_of_unknown (hl : s.db.SensorsLinked) (ha : s.Agrees)
    (h : ¬ s.db.devices.Has x.deviceId.chars) :
    ¬ HasKey sensorKey (sensorKey x) s.manager.sensors.items := by
  intro hkey
  obtain ⟨r, hr, hrk⟩ := (ha.2 _).mp hkey
  have hid : r.deviceId.chars = x.deviceId.chars := (Prod.mk.inj hrk).1
  exact h (hid ▸ hl r hr)

end Upsert

/-- Sensors of one device, taken in one after the other. -/
def takeIn (s : SensorSystem) (xs : List Sensor) : SensorSystem :=
  xs.foldl (fun s x => (sensorManagerUpsert s x).2) s

section TakeIn

variable {d : CStr} {xs : List Sensor}

theorem takeIn_cons (s : SensorSystem) (x : Sensor) (xs : List Sensor) :
    takeIn s (x :: xs) = takeIn (sensorManagerUpsert s x).2 xs := rfl

theorem agrees_takeIn_known {s : SensorSystem} (hxs : ∀ x ∈ xs, x.deviceId.chars = d)
    (h : s.db.devices.Has d) (ha : s.Agrees) : (takeIn s xs).Agrees := by
  induction xs generalizing s with
  | nil => exact ha
  | cons x xs ih =>
      have hx : x.deviceId.chars = d := hxs x (by simp)
      refine ih (fun y hy => hxs y (by simp [hy])) ?_ (agrees_upsert_known ha (hx ▸ h))
      rwa [sensorManagerUpsert_devices]

theorem takeIn_db_unknown {s : SensorSystem} (hxs : ∀ x ∈ xs, x.deviceId.chars = d)
    (h : ¬ s.db.devices.Has d) : (takeIn s xs).db = s.db := by
  induction xs generalizing s with
  | nil => rfl
  | cons x xs ih =>
      have hx : x.deviceId.chars = d := hxs x (by simp)
      have hdb := sensorManagerUpsert_db_unknown (s := s) (hx.symm ▸ h)
      refine (ih (fun y hy => hxs y (by simp [hy])) ?_).trans hdb
      rwa [hdb]

theorem hasKey_takeIn {s : SensorSystem} {k : CStr × CStr}
    (h : HasKey sensorKey k s.manager.sensors.items) :
    HasKey sensorKey k (takeIn s xs).manager.sensors.items := by
  induction xs generalizing s with
  | nil => exact h
  | cons x xs ih => exact ih (hasKey_sensorManagerUpsert h)

/-- Sensors of a device keep the agreement exactly when the device is known
or the array was full. -/
theorem agrees_takeIn_iff {s : SensorSystem} (hl : s.db.SensorsLinked) (ha : s.Agrees)
    (hxs : ∀ x ∈ xs, x.deviceId.chars = d) (hne : xs ≠ []) :
    (takeIn s xs).Agrees ↔
      s.db.devices.Has d ∨ maxSensors ≤ s.manager.sensors.items.length := by
  by_cases h : s.db.devices.Has d
  · exact iff_of_true (agrees_takeIn_known hxs h ha) (Or.inl h)
  rw [or_iff_right h]
  constructor
  · intro hafter
    by_contra hroom
    -- The first sensor is cached, stays cached, and has no row.
    obtain ⟨x, xs, rfl⟩ := List.exists_cons_of_ne_nil hne
    have hx : x.deviceId.chars = d := hxs x (by simp)
    have hacc : s.Accepts x := Or.inr (Nat.lt_of_not_le hroom)
    have hcached : HasKey sensorKey (sensorKey x) (takeIn s (x :: xs)).manager.sensors.items := by
      rw [takeIn_cons]
      apply hasKey_takeIn
      rw [(sensorManagerUpsert_accepted hacc).2]
      exact hasKey_upsertBy.mpr (Or.inl rfl)
    have hrow := (hafter.2 _).mp hcached
    rw [takeIn_db_unknown hxs h] at hrow
    exact not_hasKey_of_unknown hl ha (hx.symm ▸ h) ((ha.2 _).mpr hrow)
  · intro hfull
    have hsame : takeIn s xs = s := by
      clear hne
      induction xs with
      | nil => rfl
      | cons x xs ih =>
          have hx : x.deviceId.chars = d := hxs x (by simp)
          have hrefused : ¬ s.Accepts x :=
            not_or.mpr ⟨not_hasKey_of_unknown hl ha (hx.symm ▸ h), Nat.not_lt_of_le hfull⟩
          rw [takeIn_cons, sensorManagerUpsert_refused hrefused]
          exact ih fun y hy => hxs y (by simp [hy])
    rwa [hsame]

theorem sensorsLinked_takeIn {s : SensorSystem} (hl : s.db.SensorsLinked) (xs : List Sensor) :
    (takeIn s xs).db.SensorsLinked := by
  induction xs generalizing s with
  | nil => exact hl
  | cons x xs ih =>
      rw [takeIn_cons]
      apply ih
      by_cases hacc : s.Accepts x
      · rw [(sensorManagerUpsert_accepted hacc).1]
        by_cases h : s.db.devices.Has x.deviceId.chars
        · rw [dbSensorUpsert_known h]
          intro r hr
          rcases (mem_upsertBy s.db.sensors.pk).mp hr with rfl | ⟨hr, -⟩
          · exact h
          · exact hl r hr
        · rwa [dbSensorUpsert_unknown h]
      · rwa [sensorManagerUpsert_refused hacc]

theorem detectedSensors_deviceId (dev : CStr) (clock : Fin 5 → Int64) :
    ∀ x ∈ detectedSensors dev clock, x.deviceId.chars = (Buf.copy 256 dev).chars := by
  simp [detectedSensors, makeSensor]

end TakeIn

theorem sensorStep_autoDetect (s : SensorState) (dev : CStr) (clock : Fin 5 → Int64) :
    (sensorStep s (.autoDetect dev clock)).sensorSystem =
      takeIn s.sensorSystem (detectedSensors dev clock) := by
  simp only [sensorStep, SensorState.withSensors, SensorState.sensorSystem,
    sensorManagerAutoDetect, takeIn]

theorem sensorManagerRemove_db (s : SensorSystem) (dev sid : CStr) :
    ∃ t, (sensorManagerRemove s dev sid).2.db = { s.db with sensors := t } := by
  unfold sensorManagerRemove
  split
  · simp only [dbSensorDelete, prepares_eq, Sql.namesIndex, Bool.not_false, if_true]
    exact ⟨_, rfl⟩
  · exact ⟨s.db.sensors, rfl⟩

theorem agrees_remove {s : SensorSystem} (ha : s.Agrees) (dev sid : CStr) :
    (sensorManagerRemove s dev sid).2.Agrees := by
  unfold sensorManagerRemove
  split
  · refine ⟨?_, fun k => ?_⟩
    · rw [Slots.edit_items, eraseBy_eq_filter ha.1]
      exact (List.filter_sublist.map sensorKey).nodup ha.1
    · rw [Slots.edit_items, hasKey_eraseBy ha.1, ha.2 k]
      simp only [dbSensorDelete, prepares_eq, Sql.namesIndex, Bool.not_false, if_true,
        Table.has_deleteWhere, decide_eq_false_iff_not]
      constructor
      · rintro ⟨⟨r, hr, rfl⟩, hne⟩
        exact ⟨r, hr, fun h => hne (Prod.ext h.1 h.2), rfl⟩
      · rintro ⟨r, hr, hne, rfl⟩
        exact ⟨⟨r, hr, rfl⟩, fun h => hne ⟨congrArg Prod.fst h, congrArg Prod.snd h⟩⟩
  · exact ha

/-- Removing a device drops the rows of its sensors and leaves the array. -/
theorem deviceManagerRemove_db (s : DeviceSystem) (id : CStr) :
    (deviceManagerRemove s id).2.db =
      if HasKey deviceKey id s.manager.devices.items then s.db.deleteDevice id else s.db := by
  unfold deviceManagerRemove deviceManagerGet
  split
  · rename_i hnone
    rw [if_neg (findBy_eq_none.mp hnone)]
  · rename_i d hsome
    have hkey : HasKey deviceKey id s.manager.devices.items :=
      ⟨d, List.mem_of_find?_eq_some hsome, by simpa using List.find?_some hsome⟩
    simp [hkey, dbDeviceDelete, Sql.namesIndex]

theorem has_sensors_deleteDevice {db : Db} (hl : db.SensorsLinked) (id : CStr) (k : CStr × CStr) :
    (db.deleteDevice id).sensors.Has k ↔ db.sensors.Has k ∧ k.1 ≠ id := by
  unfold Db.deleteDevice
  split
  · simp only [Table.has_deleteWhere, decide_eq_false_iff_not]
    constructor
    · rintro ⟨r, hr, hne, rfl⟩
      exact ⟨⟨r, hr, rfl⟩, hne⟩
    · rintro ⟨⟨r, hr, rfl⟩, hne⟩
      exact ⟨r, hr, hne, rfl⟩
  · rename_i hunknown
    refine ⟨fun h => ⟨h, ?_⟩, fun h => h.1⟩
    rintro rfl
    obtain ⟨r, hr, rfl⟩ := h
    exact hunknown (hl r hr)

theorem sensorsLinked_deleteDevice {db : Db} (hl : db.SensorsLinked) (id : CStr) :
    (db.deleteDevice id).SensorsLinked := by
  unfold Db.deleteDevice
  split
  · intro r hr
    obtain ⟨hr, hne⟩ := List.mem_filter.mp hr
    obtain ⟨d, hd, hkey⟩ := hl r hr
    simp only [Bool.not_eq_true', decide_eq_false_iff_not] at hne
    refine (Table.has_deleteWhere _ _ _).mpr ⟨d, hd, ?_, hkey⟩
    rw [decide_eq_false_iff_not]
    exact fun h => hne (hkey.symm.trans h)
  · exact hl

/-- A device upsert changes no sensor and forgets no device. -/
theorem deviceManagerUpsert_db (s : DeviceSystem) (now : Int64) (dev : Device) :
    (deviceManagerUpsert s now dev).2.db = s.db ∨
      (deviceManagerUpsert s now dev).2.db = (dbDeviceUpsert s.db (dev.seenAt now)).2 := by
  unfold deviceManagerUpsert
  dsimp only
  split
  · exact Or.inr rfl
  · split
    · exact Or.inl rfl
    · exact Or.inr rfl

theorem sensorStep_linked (s : SensorState) (op : SensorOp) (hl : s.db.SensorsLinked) :
    (sensorStep s op).db.SensorsLinked := by
  cases op with
  | upsert x => exact sensorsLinked_takeIn (s := s.sensorSystem) hl [x]
  | remove dev sid =>
      simp only [sensorStep, SensorState.withSensors, sensorManagerRemove]
      split
      · intro r hr
        simp only [dbSensorDelete, prepares_eq, Sql.namesIndex, Bool.not_false, if_true] at hr ⊢
        exact hl r (List.mem_filter.mp hr).1
      · exact hl
  | autoDetect dev clock =>
      have h := sensorsLinked_takeIn (s := s.sensorSystem) hl (detectedSensors dev clock)
      rwa [← sensorStep_autoDetect] at h
  | deviceUpsert now dev =>
      simp only [sensorStep, SensorState.withDevices]
      rcases deviceManagerUpsert_db ⟨s.db, s.devices⟩ now dev with h | h
      · rwa [h]
      · rw [h, dbDeviceUpsert_eq]
        exact fun r hr => (Table.has_upsert _ _ _).mpr (Or.inr (hl r hr))
  | deviceRemove id =>
      simp only [sensorStep, SensorState.withDevices, deviceManagerRemove_db]
      split
      · exact sensorsLinked_deleteDevice hl id
      · exact hl

/-- Which steps keep the agreement. -/
theorem sensorStep_agrees_iff (s : SensorState) (op : SensorOp) (hl : s.db.SensorsLinked)
    (ha : s.sensorSystem.Agrees) :
    (sensorStep s op).sensorSystem.Agrees ↔ s.StepKeeps op := by
  cases op with
  | upsert x =>
      have hstep : (sensorStep s (.upsert x)).sensorSystem = takeIn s.sensorSystem [x] := rfl
      rw [hstep]
      exact agrees_takeIn_iff hl ha (by simp) (by simp)
  | remove dev sid => exact iff_of_true (agrees_remove ha dev sid) trivial
  | autoDetect dev clock =>
      rw [sensorStep_autoDetect]
      exact agrees_takeIn_iff hl ha (detectedSensors_deviceId dev clock) (by simp [detectedSensors])
  | deviceUpsert now dev =>
      refine iff_of_true ?_ trivial
      simp only [sensorStep, SensorState.withDevices, SensorState.sensorSystem]
      rcases deviceManagerUpsert_db ⟨s.db, s.devices⟩ now dev with h | h
      · rwa [h]
      · rw [h, dbDeviceUpsert_eq]
        exact ha
  | deviceRemove id =>
      simp only [sensorStep, SensorState.withDevices, SensorState.sensorSystem,
        deviceManagerRemove_db, SensorState.StepKeeps]
      split
      · rename_i hcached
        rw [forall_prop_of_true hcached]
        constructor
        · rintro ⟨-, hkeys⟩ x hx hid
          have hrow := (hkeys (sensorKey x)).mp ⟨x, hx, rfl⟩
          exact ((has_sensors_deleteDevice hl id _).mp hrow).2 hid
        · intro hnone
          refine ⟨ha.1, fun k => ?_⟩
          rw [has_sensors_deleteDevice hl]
          refine ⟨fun h => ⟨(ha.2 k).mp h, ?_⟩, fun h => (ha.2 k).mpr h.1⟩
          obtain ⟨x, hx, rfl⟩ := h
          exact hnone x hx
      · rename_i hcached
        exact iff_of_true ha fun h => absurd h hcached

/-- All stored sensors are cached exactly when they fit the array. -/
theorem agrees_start_iff (db : Db) :
    (SensorState.start db).sensorSystem.Agrees ↔ db.sensors.rows.length ≤ maxSensors := by
  have hkeys : ∀ rows : List SensorRow,
      (rows.map rowToSensor).map sensorKey = rows.map PrimaryKey.key := by
    intro rows
    rw [List.map_map]
    rfl
  have hitems : ((sensorManagerCreate db).sensors.items).map sensorKey =
      (db.sensors.rows.take maxSensors).map PrimaryKey.key := by
    simp only [sensorManagerCreate, dbSensorForEach, prepares_eq, Sql.namesIndex, Bool.not_false,
      if_true, Slots.foldl_push_items, Slots.empty_items, List.nil_append]
    rw [List.map_take, hkeys, List.map_take]
  simp only [SensorState.start, SensorState.sensorSystem, SensorSystem.Agrees, hasKey_iff_mem_map,
    hitems, Table.Has]
  constructor
  · rintro ⟨-, h⟩
    by_contra hlong
    -- The row behind the last slot has a key that is not cached.
    have hlt : maxSensors < db.sensors.rows.length := Nat.lt_of_not_le hlong
    have hmem := (h (PrimaryKey.key (db.sensors.rows[maxSensors]))).mpr
      (List.mem_map_of_mem (List.getElem_mem hlt))
    obtain ⟨r, hr, hkey⟩ := List.mem_map.mp hmem
    obtain ⟨i, hi, rfl⟩ := List.mem_iff_getElem.mp hr
    rw [List.length_take] at hi
    rw [List.getElem_take] at hkey
    have heq := List.inj_on_of_nodup_map db.sensors.pk (List.getElem_mem (by omega))
      (List.getElem_mem hlt) hkey
    have hnodup : db.sensors.rows.Nodup := List.Nodup.of_map _ db.sensors.pk
    have := (hnodup.getElem_inj_iff).mp heq
    omega
  · intro hfew
    rw [List.take_of_length_le hfew]
    exact ⟨db.sensors.pk, fun k => Iff.rfl⟩

/-- Along every run of the two managers on one database, the array and the
table hold the same keys after each step if and only if at most 1024 sensors
were stored at the start, every sensor taken in belongs to a stored device
and no device is removed while a sensor of it is cached. -/
theorem sensor_cache_agrees_iff (db : Db) (hdb : db.Constraints) (ops : List SensorOp) :
    ((SensorState.start db).sensorSystem.Agrees ∧
      AllSteps sensorStep (fun s op => (sensorStep s op).sensorSystem.Agrees)
        (SensorState.start db) ops) ↔
    (db.sensors.rows.length ≤ 1024 ∧
      AllSteps sensorStep SensorState.StepKeeps (SensorState.start db) ops) := by
  have hsteps := fun hstart : (SensorState.start db).sensorSystem.Agrees =>
    @allSteps_inv_iff _ _ sensorStep SensorState.StepKeeps (fun s => s.sensorSystem.Agrees)
      (fun s => s.db.SensorsLinked) sensorStep_linked
      (fun s op hl ha => sensorStep_agrees_iff s op hl ha) (SensorState.start db) hdb.sensors
      hstart ops
  constructor
  · rintro ⟨hstart, hall⟩
    exact ⟨(agrees_start_iff db).mp hstart, (hsteps hstart).mp hall⟩
  · rintro ⟨hfew, hall⟩
    have hstart := (agrees_start_iff db).mpr hfew
    exact ⟨hstart, (hsteps hstart).mpr hall⟩

/-- The first sensor that `htsn_sensor_manager_auto_detect` makes up. -/
def tempSensor (dev : CStr) : Sensor :=
  makeSensor dev "temp1".toList .temperature "Ambient Temperature".toList "degC".toList 0

/-- A registered device, its sensor, and the removal of both in that order. -/
theorem sensors_of_registered_device_agree :
    AllSteps sensorStep (fun s op => (sensorStep s op).sensorSystem.Agrees)
      (SensorState.start Db.empty)
      [.deviceUpsert 1 (.ofId "d1".toList []), .upsert (tempSensor "d1".toList),
        .remove "d1".toList "temp1".toList, .deviceRemove "d1".toList] := by
  refine ((sensor_cache_agrees_iff Db.empty Db.empty_constraints _).mpr ⟨by decide, ?_⟩).2
  exact ⟨trivial, Or.inl (by decide), trivial, fun _ => by decide, trivial⟩

/-- Removing the device drops the row; the sensor stays cached. -/
theorem removed_device_leaves_sensor :
    ¬ AllSteps sensorStep (fun s op => (sensorStep s op).sensorSystem.Agrees)
      (SensorState.start Db.empty)
      [.deviceUpsert 1 (.ofId "d1".toList []), .upsert (tempSensor "d1".toList),
        .deviceRemove "d1".toList] := by
  intro h
  obtain ⟨-, -, hlast, -⟩ := h
  exact absurd ((hlast.2 ("d1".toList, "temp1".toList)).mp (by decide)) (by decide)

end Htsn
