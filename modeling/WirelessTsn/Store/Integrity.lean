import WirelessTsn.Sensor.Coherence
import WirelessTsn.Stream.Manager
import WirelessTsn.Vlan.Manager

/-!
Referential integrity of the whole store: the managers that create and delete
devices, groups and the rows that refer to them, on one database. The foreign
keys of `qos_configs` and `sensors` clean up behind a removed device;
`vlan_members` declares none, so its rows outlive what they refer to.
-/

namespace Htsn

open CText Keyed Run

/-- One database and the managers that keep copies of it. -/
structure Store where
  db : Db
  devices : DeviceManager
  sensors : SensorManager
  streams : Slots Stream maxDevices

inductive StoreOp where
  | deviceUpsert (now : Int64) (dev : Device)
  | deviceRemove (id : CStr)
  | qosSave (cfg : QosConfig)
  | vlanCreateGroup (g : VlanGroupModel)
  | vlanDeleteGroup (id : CStr)
  | vlanAddMember (groupId deviceId : CStr)
  | vlanRemoveMember (groupId deviceId : CStr)
  | sensorUpsert (x : Sensor)
  | sensorRemove (dev sid : CStr)
  | streamAdd (x : Stream)
  | streamRemove (id : CStr)

/-- The managers created on an empty database. -/
def Store.start : Store :=
  ⟨Db.empty, deviceManagerRestore Db.empty, sensorManagerCreate Db.empty,
    (tsnManagerCreate Db.empty none).streams⟩

def Store.withDb (s : Store) (r : HtsnError × Db) : HtsnError × Store :=
  (r.1, { s with db := r.2 })

def Store.withDevices (s : Store) (r : HtsnError × DeviceSystem) : HtsnError × Store :=
  (r.1, { s with db := r.2.db, devices := r.2.manager })

def Store.withSensors (s : Store) (r : HtsnError × SensorSystem) : HtsnError × Store :=
  (r.1, { s with db := r.2.db, sensors := r.2.manager })

def Store.withStreams (s : Store) (r : HtsnError × TsnSystem) : HtsnError × Store :=
  (r.1, { s with db := r.2.db, streams := r.2.streams })

def storeCall (s : Store) : StoreOp → HtsnError × Store
  | .deviceUpsert now dev => s.withDevices (deviceManagerUpsert ⟨s.db, s.devices⟩ now dev)
  | .deviceRemove id => s.withDevices (deviceManagerRemove ⟨s.db, s.devices⟩ id)
  | .qosSave cfg => s.withDb (dbQosSave s.db cfg)
  | .vlanCreateGroup g => s.withDb (vlanManagerCreateGroup s.db g)
  | .vlanDeleteGroup id => s.withDb (vlanManagerDeleteGroup s.db id)
  | .vlanAddMember groupId deviceId => s.withDb (vlanManagerAddMember s.db groupId deviceId)
  | .vlanRemoveMember groupId deviceId => s.withDb (vlanManagerRemoveMember s.db groupId deviceId)
  | .sensorUpsert x => s.withSensors (sensorManagerUpsert ⟨s.db, s.sensors⟩ x)
  | .sensorRemove dev sid => s.withSensors (sensorManagerRemove ⟨s.db, s.sensors⟩ dev sid)
  | .streamAdd x => s.withStreams (tsnManagerAdd ⟨s.db, s.streams, none⟩ x)
  | .streamRemove id => s.withStreams (tsnManagerRemove ⟨s.db, s.streams, none⟩ id)

/-- A store and what its history says: the devices that
`htsn_device_manager_remove` has removed and the groups that were deleted,
each until it has a row again. -/
structure StoreHistory where
  store : Store
  removed : List CStr
  deletedGroups : List CStr

def StoreHistory.start : StoreHistory := ⟨Store.start, [], []⟩

/-- The device that a call removes, if the call returns `HTSN_OK`. -/
def removedBy (s : Store) (op : StoreOp) : List CStr :=
  match op with
  | .deviceRemove id => if (storeCall s op).1 = .ok then [id] else []
  | _ => []

/-- The group that a call deletes, if there is one. -/
def deletedBy (s : Store) : StoreOp → List CStr
  | .vlanDeleteGroup id => if s.db.vlanGroups.Has id then [id] else []
  | _ => []

def storeStep (h : StoreHistory) (op : StoreOp) : StoreHistory :=
  let next := (storeCall h.store op).2
  { store := next
    removed := (removedBy h.store op ++ h.removed).filter fun d => !decide (next.db.devices.Has d)
    deletedGroups := (deletedBy h.store op ++ h.deletedGroups).filter
      fun g => !decide (next.db.vlanGroups.Has g) }

/-- No configuration row refers to a removed device or a deleted group. -/
structure StoreHistory.NoDangling (h : StoreHistory) : Prop where
  qos : ∀ d ∈ h.removed, ∀ q ∈ h.store.db.qosConfigs.rows, q.deviceId.chars ≠ d
  members : ∀ d ∈ h.removed, ∀ m ∈ h.store.db.vlanMembers, m.deviceId.chars ≠ d
  sensors : ∀ d ∈ h.removed, ∀ r ∈ h.store.db.sensors.rows, r.deviceId.chars ≠ d
  groups : ∀ g ∈ h.deletedGroups, ∀ m ∈ h.store.db.vlanMembers, m.groupId.chars ≠ g

/-- What a call needs so that no membership is left dangling. -/
def StoreHistory.StepKeeps (h : StoreHistory) : StoreOp → Prop
  | .deviceRemove id =>
      HasKey deviceKey id h.store.devices.devices.items →
        ∀ m ∈ h.store.db.vlanMembers, m.deviceId.chars ≠ id
  | .vlanDeleteGroup id =>
      h.store.db.vlanGroups.Has id → ∀ m ∈ h.store.db.vlanMembers, m.groupId.chars ≠ id
  | .vlanAddMember groupId deviceId =>
      (Buf.copy 256 deviceId).chars ∉ h.removed ∧ (Buf.copy 256 groupId).chars ∉ h.deletedGroups
  | _ => True

/-- The foreign keys that refer to devices. -/
structure Db.DevicesLinked (db : Db) : Prop where
  qos : ∀ q ∈ db.qosConfigs.rows, db.devices.Has q.deviceId.chars
  sensors : db.SensorsLinked

/-- The device and group tables and the rows that refer to them. -/
def Db.refs (db : Db) :
    Table DeviceRow × Table QosConfig × Table VlanGroup × List VlanMember × Table SensorRow :=
  (db.devices, db.qosConfigs, db.vlanGroups, db.vlanMembers, db.sensors)

theorem storeCall_streamAdd_refs (s : Store) (x : Stream) :
    (storeCall s (.streamAdd x)).2.db.refs = s.db.refs := by
  simp only [storeCall, Store.withStreams, tsnManagerAdd, dbTsnSave_eq]
  split
  · rfl
  · split
    · rfl
    · split <;> rfl

theorem storeCall_streamRemove_refs (s : Store) (id : CStr) :
    (storeCall s (.streamRemove id)).2.db.refs = s.db.refs := by
  simp only [storeCall, Store.withStreams, tsnManagerRemove]
  split
  · rfl
  · simp only [dbTsnDelete, prepares_eq, Sql.namesIndex, Bool.not_false, if_true, Db.deleteStream]
    split <;> rfl

theorem Db.DevicesLinked.congr {a b : Db} (h : a.DevicesLinked) (heq : b.refs = a.refs) :
    b.DevicesLinked := by
  simp only [Db.refs, Prod.mk.injEq] at heq
  obtain ⟨hdevices, hqos, -, -, hsensors⟩ := heq
  constructor
  · rw [hdevices, hqos]
    exact h.qos
  · unfold Db.SensorsLinked
    rw [hdevices, hsensors]
    exact h.sensors

theorem devicesLinked_qosSave {db : Db} (h : db.DevicesLinked) (cfg : QosConfig) :
    (dbQosSave db cfg).2.DevicesLinked := by
  have hmono : ∀ k, db.devices.Has k → (db.devices.insertOrIgnore (stubDevice cfg.deviceId)).Has k := by
    intro k hk
    unfold Table.insertOrIgnore
    split
    · exact hk
    · obtain ⟨r, hr, hkey⟩ := hk
      exact ⟨r, by simp [hr], hkey⟩
  simp only [dbQosSave, prepares_eq, Sql.namesIndex, Bool.not_false, if_true]
  split
  · rename_i hknown
    refine ⟨fun q hq => ?_, fun r hr => hmono _ (h.sensors r hr)⟩
    rcases (mem_upsertBy db.qosConfigs.pk).mp hq with rfl | ⟨hq, -⟩
    · exact hknown
    · exact hmono _ (h.qos q hq)
  · exact ⟨fun q hq => hmono _ (h.qos q hq), fun r hr => hmono _ (h.sensors r hr)⟩

theorem devicesLinked_deleteDevice {db : Db} (h : db.DevicesLinked) (id : CStr) :
    (db.deleteDevice id).DevicesLinked := by
  refine ⟨?_, sensorsLinked_deleteDevice h.sensors id⟩
  unfold Db.deleteDevice
  split
  · intro q hq
    obtain ⟨hq, hne⟩ := List.mem_filter.mp hq
    obtain ⟨d, hd, hkey⟩ := h.qos q hq
    simp only [Bool.not_eq_true', decide_eq_false_iff_not] at hne
    refine (Table.has_deleteWhere _ _ _).mpr ⟨d, hd, ?_, hkey⟩
    rw [decide_eq_false_iff_not]
    exact fun heq => hne (hkey.symm.trans heq)
  · exact h.qos

/-- Every call keeps the foreign keys that refer to devices. -/
theorem storeCall_linked (s : Store) (op : StoreOp) (h : s.db.DevicesLinked) :
    (storeCall s op).2.db.DevicesLinked := by
  cases op with
  | deviceUpsert now dev =>
      simp only [storeCall, Store.withDevices]
      rcases deviceManagerUpsert_db ⟨s.db, s.devices⟩ now dev with hdb | hdb
      · rwa [hdb]
      · rw [hdb, dbDeviceUpsert_eq]
        exact ⟨fun q hq => (Table.has_upsert _ _ _).mpr (Or.inr (h.qos q hq)),
          fun r hr => (Table.has_upsert _ _ _).mpr (Or.inr (h.sensors r hr))⟩
  | deviceRemove id =>
      simp only [storeCall, Store.withDevices, deviceManagerRemove_db]
      split
      · exact devicesLinked_deleteDevice h id
      · exact h
  | qosSave cfg => exact devicesLinked_qosSave h cfg
  | vlanCreateGroup g =>
      simp only [storeCall, Store.withDb, vlanManagerCreateGroup, dbVlanGroupSave, prepares_eq,
        Sql.namesIndex, Bool.not_false, if_true]
      split
      · exact h
      · exact ⟨h.qos, h.sensors⟩
  | vlanDeleteGroup id => exact ⟨h.qos, h.sensors⟩
  | vlanAddMember groupId deviceId => exact ⟨h.qos, h.sensors⟩
  | vlanRemoveMember groupId deviceId => exact ⟨h.qos, h.sensors⟩
  | sensorUpsert x =>
      obtain ⟨t, hdb⟩ := sensorManagerUpsert_db ⟨s.db, s.sensors⟩ x
      have hsensors := sensorStep_linked ⟨s.db, s.devices, s.sensors⟩ (.upsert x) h.sensors
      refine ⟨?_, hsensors⟩
      simp only [storeCall, Store.withSensors, hdb]
      exact h.qos
  | sensorRemove dev sid =>
      obtain ⟨t, hdb⟩ := sensorManagerRemove_db ⟨s.db, s.sensors⟩ dev sid
      have hsensors := sensorStep_linked ⟨s.db, s.devices, s.sensors⟩ (.remove dev sid) h.sensors
      refine ⟨?_, hsensors⟩
      simp only [storeCall, Store.withSensors, hdb]
      exact h.qos
  | streamAdd x => exact h.congr (storeCall_streamAdd_refs s x)
  | streamRemove id => exact h.congr (storeCall_streamRemove_refs s id)

/-- What the history says of the tables after every call. -/
structure StoreHistory.Base (h : StoreHistory) : Prop where
  linked : h.store.db.DevicesLinked
  removed : ∀ d ∈ h.removed, ¬ h.store.db.devices.Has d
  deleted : ∀ g ∈ h.deletedGroups, ¬ h.store.db.vlanGroups.Has g

theorem storeStep_base (h : StoreHistory) (op : StoreOp) (hb : h.Base) :
    (storeStep h op).Base := by
  refine ⟨storeCall_linked h.store op hb.linked, fun d hd => ?_, fun g hg => ?_⟩
  · have hnot := (List.mem_filter.mp hd).2
    simpa [storeStep] using hnot
  · have hnot := (List.mem_filter.mp hg).2
    simpa [storeStep] using hnot

/-- Behind the foreign keys only memberships can dangle. -/
theorem noDangling_iff {h : StoreHistory} (hb : h.Base) :
    h.NoDangling ↔
      ∀ m ∈ h.store.db.vlanMembers, m.deviceId.chars ∉ h.removed ∧
        m.groupId.chars ∉ h.deletedGroups := by
  constructor
  · intro hn m hm
    exact ⟨fun hd => hn.members _ hd m hm rfl, fun hg => hn.groups _ hg m hm rfl⟩
  · intro hm
    refine ⟨fun d hd q hq hid => hb.removed d hd (hid ▸ hb.linked.qos q hq),
      fun d hd m hm' hid => (hm m hm').1 (hid ▸ hd),
      fun d hd r hr hid => hb.removed d hd (hid ▸ hb.linked.sensors r hr),
      fun g hg m hm' hid => (hm m hm').2 (hid ▸ hg)⟩

/-- A call that removes, deletes and adds no member leaves nothing dangling. -/
theorem noDangling_of_subset {h : StoreHistory} {op : StoreOp} (hb : h.Base) (hn : h.NoDangling)
    (hremoved : removedBy h.store op = []) (hdeleted : deletedBy h.store op = [])
    (hsub : ∀ m ∈ (storeCall h.store op).2.db.vlanMembers, m ∈ h.store.db.vlanMembers) :
    (storeStep h op).NoDangling := by
  rw [noDangling_iff hb] at hn
  rw [noDangling_iff (storeStep_base h op hb)]
  intro m hm
  obtain ⟨hd, hg⟩ := hn m (hsub m hm)
  simp only [storeStep, hremoved, hdeleted, List.nil_append, List.mem_filter]
  exact ⟨fun h => hd h.1, fun h => hg h.1⟩

theorem members_of_refs {a b : Db} (h : b.refs = a.refs) : b.vlanMembers = a.vlanMembers := by
  simp only [Db.refs, Prod.mk.injEq] at h
  exact h.2.2.2.1

/-- The calls other than a removal, a deletion and `add_member` add no
membership. -/
theorem storeCall_members_subset (s : Store) (op : StoreOp)
    (hadd : ∀ g d, op ≠ .vlanAddMember g d) :
    ∀ m ∈ (storeCall s op).2.db.vlanMembers, m ∈ s.db.vlanMembers := by
  intro m hm
  cases op with
  | deviceUpsert now dev =>
      simp only [storeCall, Store.withDevices] at hm
      rcases deviceManagerUpsert_db ⟨s.db, s.devices⟩ now dev with hdb | hdb
      · rwa [hdb] at hm
      · rw [hdb, dbDeviceUpsert_eq] at hm
        exact hm
  | deviceRemove id =>
      simp only [storeCall, Store.withDevices, deviceManagerRemove_db, Db.deleteDevice] at hm
      split at hm
      · split at hm <;> exact hm
      · exact hm
  | qosSave cfg =>
      simp only [storeCall, Store.withDb, dbQosSave, prepares_eq, Sql.namesIndex, Bool.not_false,
        if_true] at hm
      split at hm <;> exact hm
  | vlanCreateGroup g =>
      simp only [storeCall, Store.withDb, vlanManagerCreateGroup, dbVlanGroupSave, prepares_eq,
        Sql.namesIndex, Bool.not_false, if_true] at hm
      split at hm <;> exact hm
  | vlanDeleteGroup id => exact hm
  | vlanAddMember groupId deviceId => exact absurd rfl (hadd groupId deviceId)
  | vlanRemoveMember groupId deviceId =>
      simp only [storeCall, Store.withDb, vlanManagerRemoveMember, dbVlanMemberRemove, prepares_eq,
        Sql.namesIndex, Bool.not_false, if_true] at hm
      exact (List.mem_filter.mp hm).1
  | sensorUpsert x =>
      obtain ⟨t, hdb⟩ := sensorManagerUpsert_db ⟨s.db, s.sensors⟩ x
      simp only [storeCall, Store.withSensors, hdb] at hm
      exact hm
  | sensorRemove dev sid =>
      obtain ⟨t, hdb⟩ := sensorManagerRemove_db ⟨s.db, s.sensors⟩ dev sid
      simp only [storeCall, Store.withSensors, hdb] at hm
      exact hm
  | streamAdd x => rwa [members_of_refs (storeCall_streamAdd_refs s x)] at hm
  | streamRemove id => rwa [members_of_refs (storeCall_streamRemove_refs s id)] at hm

theorem deviceManagerRemove_ok_iff (s : DeviceSystem) (id : CStr) :
    (deviceManagerRemove s id).1 = .ok ↔ HasKey deviceKey id s.manager.devices.items := by
  unfold deviceManagerRemove deviceManagerGet
  split
  · rename_i hnone
    exact iff_of_false (by simp) (findBy_eq_none.mp hnone)
  · rename_i d hsome
    exact iff_of_true rfl
      ⟨d, List.mem_of_find?_eq_some hsome, by simpa using List.find?_some hsome⟩

theorem not_has_deleteDevice (db : Db) (id : CStr) : ¬ (db.deleteDevice id).devices.Has id := by
  unfold Db.deleteDevice
  split
  · rw [Table.has_deleteWhere]
    rintro ⟨r, -, hne, hkey⟩
    rw [decide_eq_false_iff_not] at hne
    exact hne hkey
  · assumption

theorem noDangling_deviceRemove_iff {h : StoreHistory} (hb : h.Base) (hn : h.NoDangling)
    (id : CStr) : (storeStep h (.deviceRemove id)).NoDangling ↔ h.StepKeeps (.deviceRemove id) := by
  have hok : (storeCall h.store (.deviceRemove id)).1 = .ok ↔
      HasKey deviceKey id h.store.devices.devices.items := deviceManagerRemove_ok_iff _ id
  by_cases hcached : HasKey deviceKey id h.store.devices.devices.items
  · have hdb : (storeCall h.store (.deviceRemove id)).2.db = h.store.db.deleteDevice id := by
      simp [storeCall, Store.withDevices, deviceManagerRemove_db, hcached]
    have hmembers : (h.store.db.deleteDevice id).vlanMembers = h.store.db.vlanMembers := by
      unfold Db.deleteDevice
      split <;> rfl
    rw [noDangling_iff (storeStep_base h _ hb)]
    simp only [storeStep, removedBy, hok.mpr hcached, if_true, deletedBy, List.nil_append, hdb,
      hmembers, StoreHistory.StepKeeps, forall_prop_of_true hcached, List.mem_filter,
      List.singleton_append, List.mem_cons]
    constructor
    · intro hall m hm hid
      have hgone : (!decide ((h.store.db.deleteDevice id).devices.Has id)) = true := by
        simpa using not_has_deleteDevice h.store.db id
      exact (hall m hm).1 ⟨Or.inl hid, hid ▸ hgone⟩
    · intro hnone m hm
      obtain ⟨hd, hg⟩ := (noDangling_iff hb).mp hn m hm
      refine ⟨?_, fun hin => hg hin.1⟩
      rintro ⟨hid | hid, -⟩
      · exact hnone m hm hid
      · exact hd hid
  · refine iff_of_true ?_ fun hc => absurd hc hcached
    apply noDangling_of_subset hb hn
    · simp [removedBy, hok, hcached]
    · rfl
    · exact storeCall_members_subset h.store _ (by simp)

theorem noDangling_vlanDeleteGroup_iff {h : StoreHistory} (hb : h.Base) (hn : h.NoDangling)
    (id : CStr) :
    (storeStep h (.vlanDeleteGroup id)).NoDangling ↔ h.StepKeeps (.vlanDeleteGroup id) := by
  have hdb : (storeCall h.store (.vlanDeleteGroup id)).2.db =
      { h.store.db with
        vlanGroups := h.store.db.vlanGroups.deleteWhere fun g => decide (g.id.chars = id) } := by
    simp [storeCall, Store.withDb, vlanManagerDeleteGroup, dbVlanGroupDelete, Sql.namesIndex]
  by_cases hgroup : h.store.db.vlanGroups.Has id
  · have hgone : ¬ (h.store.db.vlanGroups.deleteWhere fun g => decide (g.id.chars = id)).Has id := by
      rw [Table.has_deleteWhere]
      rintro ⟨r, -, hne, hkey⟩
      rw [decide_eq_false_iff_not] at hne
      exact hne hkey
    rw [noDangling_iff (storeStep_base h _ hb)]
    simp only [storeStep, removedBy, deletedBy, hgroup, if_true, List.nil_append, hdb,
      StoreHistory.StepKeeps, forall_prop_of_true, List.mem_filter, List.singleton_append,
      List.mem_cons]
    constructor
    · intro hall m hm hid
      exact (hall m hm).2 ⟨Or.inl hid, by simpa [hid] using hgone⟩
    · intro hnone m hm
      obtain ⟨hd, hg⟩ := (noDangling_iff hb).mp hn m hm
      refine ⟨fun hin => hd hin.1, ?_⟩
      rintro ⟨hid | hid, -⟩
      · exact hnone m hm hid
      · exact hg hid
  · refine iff_of_true ?_ fun hc => absurd hc hgroup
    apply noDangling_of_subset hb hn
    · rfl
    · simp [deletedBy, hgroup]
    · exact storeCall_members_subset h.store _ (by simp)

theorem noDangling_vlanAddMember_iff {h : StoreHistory} (hb : h.Base) (hn : h.NoDangling)
    (groupId deviceId : CStr) :
    (storeStep h (.vlanAddMember groupId deviceId)).NoDangling ↔
      h.StepKeeps (.vlanAddMember groupId deviceId) := by
  have hdb : (storeCall h.store (.vlanAddMember groupId deviceId)).2.db =
      { h.store.db with
        vlanMembers := h.store.db.vlanMembers ++
          [⟨Buf.copy 256 groupId, Buf.copy 256 deviceId⟩] } := by
    simp [storeCall, Store.withDb, vlanManagerAddMember, dbVlanMemberAdd, Sql.namesIndex]
  rw [noDangling_iff (storeStep_base h _ hb)]
  simp only [storeStep, removedBy, deletedBy, List.nil_append, hdb, StoreHistory.StepKeeps,
    List.mem_filter, List.mem_append, List.mem_singleton]
  constructor
  · intro hall
    obtain ⟨hd, hg⟩ := hall _ (Or.inr rfl)
    exact ⟨fun hin => hd ⟨hin, by simpa using hb.removed _ hin⟩,
      fun hin => hg ⟨hin, by simpa using hb.deleted _ hin⟩⟩
  · rintro ⟨hd, hg⟩ m (hm | rfl)
    · obtain ⟨hd', hg'⟩ := (noDangling_iff hb).mp hn m hm
      exact ⟨fun hin => hd' hin.1, fun hin => hg' hin.1⟩
    · exact ⟨fun hin => hd hin.1, fun hin => hg hin.1⟩

/-- Which calls leave nothing dangling. -/
theorem storeStep_noDangling_iff (h : StoreHistory) (op : StoreOp) (hb : h.Base)
    (hn : h.NoDangling) : (storeStep h op).NoDangling ↔ h.StepKeeps op := by
  cases op with
  | deviceRemove id => exact noDangling_deviceRemove_iff hb hn id
  | vlanDeleteGroup id => exact noDangling_vlanDeleteGroup_iff hb hn id
  | vlanAddMember groupId deviceId => exact noDangling_vlanAddMember_iff hb hn groupId deviceId
  | _ =>
      refine iff_of_true ?_ trivial
      exact noDangling_of_subset hb hn rfl rfl (storeCall_members_subset h.store _ (by simp))

/-- Along every sequence of calls from an empty database, no configuration
row refers to a removed device or a deleted group after any of them, if and
only if no membership names a device when it is removed or a group when it is
deleted, and none is added for one that is gone. -/
theorem no_dangling_reference_iff (ops : List StoreOp) :
    AllSteps storeStep (fun h op => (storeStep h op).NoDangling) StoreHistory.start ops ↔
      AllSteps storeStep StoreHistory.StepKeeps StoreHistory.start ops := by
  have hbase : StoreHistory.start.Base :=
    ⟨⟨by simp [StoreHistory.start, Store.start, Db.empty],
      by simp [Db.SensorsLinked, StoreHistory.start, Store.start, Db.empty]⟩,
      by simp [StoreHistory.start], by simp [StoreHistory.start]⟩
  have hstart : StoreHistory.start.NoDangling := by
    constructor <;> simp [StoreHistory.start]
  exact allSteps_inv_iff storeStep_base storeStep_noDangling_iff hbase hstart

/-- A device that is in a group is removed: the membership stays. -/
theorem removed_device_stays_member :
    ¬ AllSteps storeStep (fun h op => (storeStep h op).NoDangling) StoreHistory.start
      [.deviceUpsert 1 (.ofId "d1".toList []), .vlanAddMember "g1".toList "d1".toList,
        .deviceRemove "d1".toList] := by
  rintro ⟨-, -, hlast, -⟩
  exact hlast.members "d1".toList (by decide)
    ⟨Buf.copy 256 "g1".toList, Buf.copy 256 "d1".toList⟩ (by decide) (by decide)

end Htsn
