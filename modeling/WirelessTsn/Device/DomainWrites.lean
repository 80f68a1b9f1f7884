import WirelessTsn.Device.Coherence

/-!
Who writes `devices.domain`. The domain manager changes the column in the
database only; the device manager writes its cached copies back whole, on an
upsert and for every cached device when it is destroyed. A run of both loses
no assignment exactly when every device so written carries the domain that
is stored for it.
-/

namespace Htsn

open CText Keyed Run

/-- A database shared by the domain manager and, while one is alive, a
device manager. -/
structure DomainState where
  db : Db
  manager : Option DeviceManager

inductive DomainOp where
  | save (d : Domain)
  | delete (id : CStr)
  | assignDevice (deviceId domainId : CStr)
  | create
  | destroy
  | device (op : DeviceOp)

/-- One call on either manager. A call on a device manager that does not
exist is refused. -/
def domainStep (s : DomainState) : DomainOp → DomainState
  | .save d => { s with db := (domainManagerSave s.db d).2 }
  | .delete id => { s with db := (domainManagerDelete s.db id).2 }
  | .assignDevice deviceId domainId =>
      { s with db := (domainManagerAssignDevice s.db deviceId domainId).2 }
  | .create => { s with manager := some (deviceManagerRestore s.db) }
  | .destroy =>
      match s.manager with
      | none => s
      | some m => ⟨deviceManagerDestroy ⟨s.db, m⟩, none⟩
  | .device op =>
      match s.manager with
      | none => s
      | some m => ⟨(deviceStep ⟨s.db, m⟩ op).2.db, some (deviceStep ⟨s.db, m⟩ op).2.manager⟩

/-- The domain column of a device, if it has a row. -/
def Db.domainOf (db : Db) (id : CStr) : Option (Option CStr) :=
  (db.devices.find id).map DeviceRow.domain

theorem Db.domainOf_of_mem {db : Db} {r : DeviceRow} (hr : r ∈ db.devices.rows) :
    db.domainOf r.id.chars = some r.domain := by
  have hfind : db.devices.find r.id.chars = some r := db.devices.find_eq_some.mpr ⟨hr, rfl⟩
  simp [Db.domainOf, hfind]

/-- The steps that may change the domain column of the device in row `r`. -/
def DomainOp.MayChange (r : DeviceRow) : DomainOp → Prop
  | .assignDevice deviceId _ => deviceId = r.id.chars
  | .device (.setDomain id _) => id = r.id.chars
  | .device (.remove id) => id = r.id.chars
  | .delete id => r.domain = some id
  | _ => False

/-- The step changes the domain of an existing device only if it may. -/
def KeepsDomains (s : DomainState) (op : DomainOp) : Prop :=
  ∀ r ∈ s.db.devices.rows,
    (domainStep s op).db.domainOf r.id.chars ≠ some r.domain → op.MayChange r

/-- The device records that a step writes over their rows whole, other than
by `set_domain`. -/
def DomainState.writtenBack (s : DomainState) : DomainOp → List Device
  | .destroy | .device .recreate =>
      match s.manager with
      | none => []
      | some m => m.devices.items
  | .device (.upsert _ dev) =>
      match s.manager with
      | none => []
      | some m =>
          if HasKey deviceKey (deviceKey dev) m.devices.items ∨
              m.devices.items.length < maxDbDevices then [dev]
          else []
  | _ => []

/-- Every record the step writes back carries the domain stored for it. -/
def WritesStoredDomain (s : DomainState) (op : DomainOp) : Prop :=
  ∀ d ∈ s.writtenBack op, ∀ r ∈ s.db.devices.rows, r.id = d.id →
    r.domain = some d.domainOrDefault

theorem domainOf_upsert (db : Db) (dev : Device) (id : CStr) :
    (dbDeviceUpsert db dev).2.domainOf id =
      if dev.id.chars = id then some (some dev.domainOrDefault) else db.domainOf id := by
  rw [dbDeviceUpsert_eq]
  simp only [Db.domainOf, Table.find_upsert, key_bindDevice]
  by_cases h : dev.id.chars = id
  · simp [h, bindDevice]
  · simp [h]

theorem domainOf_update (db : Db) (id : CStr) (f : DeviceRow → DeviceRow)
    (hf : ∀ r, (f r).id = r.id) (k : CStr) :
    (db.updateDevice id f hf).domainOf k =
      (db.devices.find k).map fun r => if r.id.chars = id then (f r).domain else r.domain := by
  simp only [Db.domainOf, Db.updateDevice, Table.find_updateWhere, Option.map_map]
  congr 1
  funext r
  by_cases h : r.id.chars = id <;> simp [h]

/-- An UPDATE of other columns leaves every domain. -/
theorem domainOf_update_other (db : Db) (id : CStr) (f : DeviceRow → DeviceRow)
    (hf : ∀ r, (f r).id = r.id) (hdomain : ∀ r, (f r).domain = r.domain) (k : CStr) :
    (db.updateDevice id f hf).domainOf k = db.domainOf k := by
  rw [domainOf_update]
  simp [hdomain, Db.domainOf]

theorem domainOf_setStatus (db : Db) (id : CStr) (status : Int32) (k : CStr) :
    (dbDeviceSetStatus db id status).2.domainOf k = db.domainOf k := by
  simp only [dbDeviceSetStatus, prepares_eq, Sql.namesIndex, Bool.not_false, if_true]
  apply domainOf_update_other
  exact fun _ => rfl

theorem domainOf_delete (db : Db) (id k : CStr) (h : id ≠ k) :
    (dbDeviceDelete db id).2.domainOf k = db.domainOf k := by
  simp only [dbDeviceDelete, prepares_eq, Sql.namesIndex, Bool.not_false, if_true, Db.deleteDevice]
  split
  · have hfind := @Table.find_deleteWhere _ _ _ _ db.devices (fun r => decide (r.id.chars = id)) k
      (fun r _ hk => by simpa using fun hid : r.id.chars = id => h (hid.symm.trans hk))
    simp [Db.domainOf, hfind]
  · rfl

/-- Writing records with distinct ids back leaves each of their domains. -/
theorem domainOf_writeBack (ds : List Device) (hds : (ds.map deviceKey).Nodup) (db : Db)
    (id : CStr) :
    (ds.foldl (fun db d => (dbDeviceUpsert db d).2) db).domainOf id =
      match findBy deviceKey id ds with
      | some d => some (some d.domainOrDefault)
      | none => db.domainOf id := by
  induction ds generalizing db with
  | nil => rfl
  | cons d ds ih =>
      obtain ⟨hd, hrest⟩ := List.nodup_cons.mp hds
      rw [List.foldl_cons, ih hrest, domainOf_upsert]
      by_cases hid : d.id.chars = id
      · have hnone : findBy deviceKey id ds = none := by
          rw [findBy_eq_none, hasKey_iff_mem_map]
          exact fun hmem => hd (by rwa [← hid] at hmem)
        have hsome : findBy deviceKey id (d :: ds) = some d := by
          simp [findBy, deviceKey, hid]
        simp [hnone, hsome, hid]
      · have hskip : findBy deviceKey id (d :: ds) = findBy deviceKey id ds := by
          simp [findBy, deviceKey, hid]
        simp [hskip, hid]

/-- The devices a live manager has cached have distinct ids. -/
def DomainState.Distinct (s : DomainState) : Prop :=
  ∀ m ∈ s.manager, (m.devices.items.map deviceKey).Nodup

theorem restore_distinct (db : Db) :
    ((deviceManagerRestore db).devices.items.map deviceKey).Nodup := by
  have hall : ((dbDeviceForEach db).map deviceKey).Nodup := by
    have hpk := db.devices.pk
    simp only [dbDeviceForEach, prepares_eq, Sql.namesIndex, Bool.not_false, if_true, List.map_map]
    exact hpk
  simp only [deviceManagerRestore, Slots.foldl_push_items, Slots.empty_items, List.nil_append]
  exact ((List.take_sublist _ _).map deviceKey).nodup hall

private theorem withDevice_distinct {s : DeviceSystem} (id : CStr) (change : Device → Device)
    (write : Db → Device → Db) (hchange : ∀ d, deviceKey (change d) = deviceKey d)
    (h : (s.manager.devices.items.map deviceKey).Nodup) :
    ((withDevice s id change write).2.manager.devices.items.map deviceKey).Nodup := by
  unfold withDevice
  split
  · exact h
  · simpa [modifyBy_keys hchange] using h

theorem deviceStep_distinct (s : DeviceSystem) (op : DeviceOp)
    (h : (s.manager.devices.items.map deviceKey).Nodup) :
    ((deviceStep s op).2.manager.devices.items.map deviceKey).Nodup := by
  cases op with
  | upsert now dev =>
      simp only [deviceStep, deviceManagerUpsert]
      split
      · exact nodup_upsertBy h
      · rename_i hnew
        split
        · exact h
        · have happend := @nodup_upsertBy _ _ _ deviceKey (dev.seenAt now) _ h
          rw [upsertBy_of_not_hasKey hnew] at happend
          rename_i hroom
          simpa [Slots.push, Nat.lt_of_not_ge hroom] using happend
  | remove id =>
      simp only [deviceStep, deviceManagerRemove]
      split
      · exact h
      · simp only [Slots.edit_items, eraseBy_eq_filter h]
        exact (List.filter_sublist.map deviceKey).nodup h
  | markOfflineAfter threshold =>
      have hkeys : deviceKey ∘ Device.markOffline threshold = deviceKey := by
        funext d
        simp only [Function.comp_apply, deviceKey, Device.markOffline]
        split <;> rfl
      simpa [deviceStep, deviceManagerMarkOfflineAfter, hkeys] using h
  | recordHeartbeat now id => exact withDevice_distinct _ _ _ (fun _ => rfl) h
  | setDomain id domain => exact withDevice_distinct _ _ _ (fun _ => rfl) h
  | setHealth id status => exact withDevice_distinct _ _ _ (fun _ => rfl) h
  | restore => exact restore_distinct s.db
  | recreate => exact restore_distinct _

theorem domainStep_distinct (s : DomainState) (op : DomainOp) (h : s.Distinct) :
    (domainStep s op).Distinct := by
  cases op with
  | save d => exact h
  | delete id => exact h
  | assignDevice deviceId domainId => exact h
  | create =>
      intro m hm
      cases hm
      exact restore_distinct s.db
  | destroy =>
      cases hm : s.manager with
      | none => simpa [domainStep, hm] using h
      | some m => simp [domainStep, hm, DomainState.Distinct]
  | device op =>
      cases hm : s.manager with
      | none => simpa [domainStep, hm] using h
      | some m =>
          intro m' hm'
          simp only [domainStep, hm, Option.mem_def, Option.some.injEq] at hm'
          subst hm'
          exact deviceStep_distinct ⟨s.db, m⟩ op (h m hm)

/-- A step that writes records back leaves the domain of each of them, and no
other domain. -/
theorem domainOf_of_writtenBack {s : DomainState} {op : DomainOp} (h : s.Distinct)
    (hne : s.writtenBack op ≠ []) (id : CStr) :
    (domainStep s op).db.domainOf id =
      match findBy deviceKey id (s.writtenBack op) with
      | some d => some (some d.domainOrDefault)
      | none => s.db.domainOf id := by
  cases hm : s.manager with
  | none =>
      cases op with
      | device op => cases op <;> simp [DomainState.writtenBack, hm] at hne
      | _ => simp [DomainState.writtenBack, hm] at hne
  | some m =>
      have hback := domainOf_writeBack m.devices.items (h m hm) s.db id
      cases op with
      | destroy => simpa [domainStep, deviceManagerDestroy, DomainState.writtenBack, hm] using hback
      | device op =>
          cases op with
          | recreate =>
              simpa [domainStep, deviceStep, deviceManagerCreate, deviceManagerDestroy,
                DomainState.writtenBack, hm] using hback
          | upsert now dev =>
              simp only [DomainState.writtenBack, hm] at hne ⊢
              split at hne
              · rename_i haccepted
                rw [if_pos haccepted]
                have hdb : (domainStep s (.device (.upsert now dev))).db =
                    (dbDeviceUpsert s.db (dev.seenAt now)).2 := by
                  simp only [domainStep, hm, deviceStep, deviceManagerUpsert]
                  split
                  · rfl
                  · rename_i hnew
                    rw [if_neg (by
                      rcases haccepted with hkey | hroom
                      · exact absurd hkey hnew
                      · exact Nat.not_le_of_lt hroom)]
                have hdomain : (dev.seenAt now).domainOrDefault = dev.domainOrDefault := rfl
                have hid : (dev.seenAt now).id = dev.id := rfl
                rw [hdb, domainOf_upsert, hdomain, hid]
                by_cases hk : dev.id.chars = id
                · simp [findBy, deviceKey, hk]
                · simp [findBy, deviceKey, hk]
              · exact absurd rfl hne
          | _ => simp [DomainState.writtenBack] at hne
      | _ => simp [DomainState.writtenBack] at hne

/-- An operation on a cached device keeps the domain of every row that its
write keeps. -/
private theorem domainOf_withDevice (s : DeviceSystem) (id : CStr) (change : Device → Device)
    (write : Db → Device → Db) (k : CStr)
    (hwrite : ∀ d, deviceKey d = id → (write s.db (change d)).domainOf k = s.db.domainOf k) :
    (withDevice s id change write).2.db.domainOf k = s.db.domainOf k := by
  unfold withDevice
  cases hget : deviceManagerGet s.manager id with
  | none => rfl
  | some d =>
      have hkey : deviceKey d = id := by simpa using List.find?_some hget
      exact hwrite d hkey

private theorem domainOf_markOffline (threshold : Int64) (ds : List Device) (db : Db) (k : CStr) :
    (ds.foldl
      (fun db d =>
        if d.GoesOffline threshold then (dbDeviceSetStatus db d.id.chars deviceOffline).2
        else db) db).domainOf k = db.domainOf k := by
  induction ds generalizing db with
  | nil => rfl
  | cons d ds ih =>
      rw [List.foldl_cons, ih]
      split
      · exact domainOf_setStatus db _ _ k
      · rfl

/-- What an operation of the device manager leaves of a domain it may not
change. -/
theorem domainOf_deviceStep {s : DomainState} {m : DeviceManager} (hm : s.manager = some m)
    {op : DeviceOp} (hback : s.writtenBack (.device op) = []) {r : DeviceRow}
    (hmay : ¬ (DomainOp.device op).MayChange r) :
    (deviceStep ⟨s.db, m⟩ op).2.db.domainOf r.id.chars = s.db.domainOf r.id.chars := by
  cases op with
  | upsert now dev =>
      have hrefused : ¬ (HasKey deviceKey (deviceKey dev) m.devices.items ∨
          m.devices.items.length < maxDbDevices) := by
        intro haccepted
        simp [DomainState.writtenBack, hm, haccepted] at hback
      rw [not_or] at hrefused
      have hnew : ¬ HasKey deviceKey (deviceKey (dev.seenAt now)) m.devices.items := hrefused.1
      simp only [deviceStep, deviceManagerUpsert, hnew, dif_neg, not_false_iff]
      rw [if_pos (Nat.le_of_not_lt hrefused.2)]
  | remove id =>
      have hne : id ≠ r.id.chars := hmay
      simp only [deviceStep, deviceManagerRemove]
      split
      · rfl
      · exact domainOf_delete s.db id _ hne
  | markOfflineAfter threshold => exact domainOf_markOffline threshold _ s.db _
  | recordHeartbeat now id =>
      apply domainOf_withDevice
      intro d _
      simp only [Db.recordHeartbeat, prepares_eq, Sql.namesIndex, Bool.not_false, if_true]
      apply domainOf_update_other
      exact fun _ => rfl
  | setDomain id domain =>
      have hne : id ≠ r.id.chars := hmay
      apply domainOf_withDevice
      intro d hd
      rw [domainOf_upsert, if_neg]
      exact fun heq => hne (hd.symm.trans heq)
  | setHealth id status =>
      apply domainOf_withDevice
      exact fun _ _ => domainOf_setStatus _ _ _ _
  | restore => rfl
  | recreate =>
      simp only [DomainState.writtenBack, hm] at hback
      simp [deviceStep, deviceManagerCreate, deviceManagerDestroy, hback]

/-- Steps that write no record back change only the domains they may. -/
theorem keepsDomains_of_not_writtenBack {s : DomainState} {op : DomainOp}
    (h : s.writtenBack op = []) : KeepsDomains s op := by
  intro r hr hchange
  have hold := Db.domainOf_of_mem hr
  have hfind : s.db.devices.find r.id.chars = some r := s.db.devices.find_eq_some.mpr ⟨hr, rfl⟩
  cases op with
  | save d =>
      simp only [domainStep, domainManagerSave, dbDomainSave, prepares_eq, Sql.namesIndex,
        Bool.not_false, if_true] at hchange
      exact absurd hold hchange
  | create => exact absurd hold hchange
  | delete id =>
      by_contra hother
      have hkeep : ¬ r.domain = some id := hother
      apply hchange
      simp only [domainStep, domainManagerDelete, dbDomainDelete, prepares_eq, Sql.namesIndex,
        Bool.not_false, if_true]
      split
      · exact hold
      · simp [Db.domainOf, Table.find_updateWhere, hfind, hkeep]
  | assignDevice deviceId domainId =>
      by_contra hother
      have hne : ¬ r.id.chars = deviceId := fun heq => hother heq.symm
      apply hchange
      simp only [domainStep, domainManagerAssignDevice, prepares_eq, Sql.namesIndex, Bool.not_false,
        if_true, domainOf_update, hfind, Option.map_some, hne, if_false]
  | destroy =>
      cases hm : s.manager with
      | none =>
          simp only [domainStep, hm] at hchange
          exact absurd hold hchange
      | some m =>
          simp only [DomainState.writtenBack, hm] at h
          simp only [domainStep, hm, deviceManagerDestroy, h, List.foldl_nil] at hchange
          exact absurd hold hchange
  | device op =>
      cases hm : s.manager with
      | none =>
          simp only [domainStep, hm] at hchange
          exact absurd hold hchange
      | some m =>
          by_contra hmay
          apply hchange
          simp only [domainStep, hm]
          exact (domainOf_deviceStep hm h hmay).trans hold

/-- A step that writes records back may change no domain at all. -/
theorem not_mayChange_of_writtenBack {s : DomainState} {op : DomainOp} {d : Device}
    (hd : d ∈ s.writtenBack op) (r : DeviceRow) : ¬ op.MayChange r := by
  cases op with
  | destroy => exact id
  | device op =>
      cases op with
      | upsert now dev => exact id
      | recreate => exact id
      | _ => simp [DomainState.writtenBack] at hd
  | _ => simp [DomainState.writtenBack] at hd

theorem writtenBack_distinct {s : DomainState} (h : s.Distinct) (op : DomainOp) :
    ((s.writtenBack op).map deviceKey).Nodup := by
  have hitems : ((match s.manager with
      | none => []
      | some m => m.devices.items : List Device).map deviceKey).Nodup := by
    cases hm : s.manager with
    | none => simp
    | some m => exact h m hm
  cases op with
  | destroy => exact hitems
  | device op =>
      cases op with
      | recreate => exact hitems
      | upsert now dev =>
          simp only [DomainState.writtenBack]
          split
          · simp
          · split <;> simp
      | _ => simp [DomainState.writtenBack]
  | _ => simp [DomainState.writtenBack]

/-- One step keeps the domains exactly when the records it writes back carry
the stored ones. -/
theorem keepsDomains_iff {s : DomainState} (h : s.Distinct) (op : DomainOp) :
    KeepsDomains s op ↔ WritesStoredDomain s op := by
  by_cases hnil : s.writtenBack op = []
  · constructor
    · intro _ d hd
      simp [hnil] at hd
    · exact fun _ => keepsDomains_of_not_writtenBack hnil
  · have hnodup := writtenBack_distinct h op
    constructor
    · intro hkeeps d hd r hr hid
      have hfind : findBy deviceKey r.id.chars (s.writtenBack op) = some d :=
        (findBy_eq_some hnodup).mpr ⟨hd, congrArg Buf.chars hid.symm⟩
      have hafter := domainOf_of_writtenBack h hnil r.id.chars
      rw [hfind] at hafter
      by_contra hne
      apply not_mayChange_of_writtenBack hd r
      apply hkeeps r hr
      rw [hafter]
      exact fun heq => hne (Option.some.inj heq).symm
    · intro hstored r hr hchange
      exfalso
      apply hchange
      rw [domainOf_of_writtenBack h hnil]
      cases hfind : findBy deviceKey r.id.chars (s.writtenBack op) with
      | none => exact Db.domainOf_of_mem hr
      | some d =>
          obtain ⟨hd, hkey⟩ := (findBy_eq_some hnodup).mp hfind
          have hid : r.id = d.id := Buf.chars_injective hkey.symm
          exact congrArg some (hstored d hd r hr hid).symm

/-- Along every run of both managers on one database, the domain of an
existing device changes only in a step made to change it, if and only if
every device record that an upsert or a shutdown writes back carries the
domain stored for it at that moment. -/
theorem domain_assignment_kept_iff (db : Db) (ops : List DomainOp) :
    AllSteps domainStep KeepsDomains ⟨db, none⟩ ops ↔
      AllSteps domainStep WritesStoredDomain ⟨db, none⟩ ops := by
  have hstart : (⟨db, none⟩ : DomainState).Distinct := by simp [DomainState.Distinct]
  exact allSteps_congr domainStep_distinct (fun s op hs => keepsDomains_iff hs op) hstart

/-- A device moved to another domain and then rediscovered: discovery reports
no domain, so the upsert writes the default over the assignment. -/
theorem rediscovery_loses_assignment :
    ¬ AllSteps domainStep KeepsDomains
      ⟨(dbDeviceUpsert Db.empty (.ofId "d1".toList [])).2, none⟩
      [.create, .assignDevice "d1".toList "cell-2".toList,
        .device (.upsert 7 (.ofId "d1".toList []))] := by
  intro h
  obtain ⟨-, -, hupsert, -⟩ := h
  refine hupsert { bindDevice (.ofId "d1".toList []) with domain := some "cell-2".toList } ?_ ?_
  · decide
  · decide

end Htsn
