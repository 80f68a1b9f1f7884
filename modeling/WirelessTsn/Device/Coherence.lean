import WirelessTsn.Device.Manager
import WirelessTsn.Lib.Run

/-!
The device manager's array and the two device tables. `Coherent` says that
the tables hold the encoding of the cached devices and nothing else. Each of
the manager's operations keeps it, whatever SQL it goes through, so it holds
along every run of the manager.
-/

namespace Htsn

open CText Keyed Run

/-- Row for row, the devices table is the encoding of the cached devices, and
the feature table holds exactly their features. -/
structure Coherent (db : Db) (ds : List Device) : Prop where
  rows : db.devices.rows = ds.map bindDevice
  features : ∀ d ∈ ds, db.featuresOf d.id.chars = d.tsnFeatures.items
  owned : ∀ f ∈ db.deviceTsnFeatures, HasKey deviceKey f.deviceId.chars ds

theorem Coherent.distinct {db : Db} {ds : List Device} (h : Coherent db ds) :
    (ds.map deviceKey).Nodup := by
  have hpk := db.devices.pk
  rw [h.rows, List.map_map] at hpk
  exact hpk

/-- A full upsert of one device on both sides. -/
theorem Coherent.upsert {db : Db} {ds : List Device} (h : Coherent db ds) (dev : Device) :
    Coherent (dbDeviceUpsert db dev).2 (upsertBy deviceKey dev ds) := by
  have hnodup := h.distinct
  refine ⟨?_, ?_, ?_⟩
  · rw [dbDeviceUpsert_eq, Table.upsert_rows, h.rows]
    exact (map_upsertBy bindDevice (fun _ => rfl) dev ds).symm
  · intro d hd
    rw [featuresOf_dbDeviceUpsert]
    rcases (mem_upsertBy hnodup).mp hd with rfl | ⟨hmem, hne⟩
    · simp
    · rw [if_neg (fun heq => hne heq.symm)]
      exact h.features d hmem
  · intro f hf
    rw [dbDeviceUpsert_eq] at hf
    simp only [List.mem_append, List.mem_filter, List.mem_map, Bool.not_eq_true',
      decide_eq_false_iff_not] at hf
    rcases hf with ⟨hold, hne⟩ | ⟨feature, -, rfl⟩
    · obtain ⟨d, hd, hkey⟩ := h.owned f hold
      exact ⟨d, (mem_upsertBy hnodup).mpr (Or.inr ⟨hd, fun heq => hne (hkey.symm.trans heq)⟩),
        hkey⟩
    · exact ⟨dev, (mem_upsertBy hnodup).mpr (Or.inl rfl), rfl⟩

/-- A change of columns that are neither key nor features, made by an UPDATE
on one side and in place on the other. -/
theorem Coherent.update {db : Db} {ds : List Device} (h : Coherent db ds) (id : CStr)
    (f : Device → Device) (g : DeviceRow → DeviceRow) (hg : ∀ r, (g r).id = r.id)
    (hfg : ∀ d, bindDevice (f d) = g (bindDevice d))
    (hfeatures : ∀ d, (f d).tsnFeatures = d.tsnFeatures) :
    Coherent (db.updateDevice id g hg) (modifyBy deviceKey id f ds) := by
  have hid : ∀ d, (f d).id = d.id := fun d =>
    (congrArg DeviceRow.id (hfg d)).trans (hg (bindDevice d))
  have hkey : ∀ d, deviceKey (if deviceKey d = id then f d else d) = deviceKey d := by
    intro d
    split
    · exact congrArg Buf.chars (hid d)
    · rfl
  rw [modifyBy_eq_map h.distinct]
  refine ⟨?_, ?_, ?_⟩
  · simp only [Db.updateDevice, Table.updateWhere_rows, h.rows, List.map_map]
    apply List.map_congr_left
    intro d _
    have hrow : (bindDevice d).id.chars = d.id.chars := rfl
    by_cases hd : d.id.chars = id
    · simp [deviceKey, hrow, hd, hfg]
    · simp [deviceKey, hrow, hd]
  · intro d hd
    obtain ⟨d₀, hd₀, rfl⟩ := List.mem_map.mp hd
    have hsame := h.features d₀ hd₀
    split
    · rw [hid, hfeatures]
      exact hsame
    · exact hsame
  · intro row hrow
    obtain ⟨d, hd, hrowkey⟩ := h.owned row hrow
    exact ⟨_, List.mem_map_of_mem hd, (hkey d).trans hrowkey⟩

theorem Coherent.remove {db : Db} {ds : List Device} (h : Coherent db ds) (id : CStr)
    (hid : HasKey deviceKey id ds) :
    Coherent (dbDeviceDelete db id).2 (eraseBy deviceKey id ds) := by
  have hhas : db.devices.Has id := by
    obtain ⟨d, hd, hkey⟩ := hid
    exact ⟨bindDevice d, h.rows ▸ List.mem_map_of_mem hd, hkey⟩
  have hdelete : (dbDeviceDelete db id).2 = db.deleteDevice id := by
    simp [dbDeviceDelete, Sql.namesIndex]
  rw [hdelete, eraseBy_eq_filter h.distinct, Db.deleteDevice, if_pos hhas]
  refine ⟨?_, ?_, ?_⟩
  · simp only [Table.deleteWhere_rows, h.rows, List.filter_map]
    rfl
  · intro d hd
    obtain ⟨hmem, hne⟩ := List.mem_filter.mp hd
    simp only [Bool.not_eq_true', decide_eq_false_iff_not] at hne
    rw [← h.features d hmem]
    simp only [Db.featuresOf, List.filter_filter]
    congr 1
    apply List.filter_congr
    intro f _
    by_cases hf : f.deviceId.chars = d.id.chars
    · simp [hf, show d.id.chars ≠ id from hne]
    · simp [hf]
  · intro f hf
    obtain ⟨hmem, hne⟩ := List.mem_filter.mp hf
    obtain ⟨d, hd, hkey⟩ := h.owned f hmem
    exact ⟨d, List.mem_filter.mpr ⟨hd, hkey ▸ hne⟩, hkey⟩

/-- The rows that the loop of `mark_offline_after` leaves. -/
private theorem markOffline_rows (threshold : Int64) (ds : List Device) (db : Db) :
    (ds.foldl
      (fun db d =>
        if d.GoesOffline threshold then (dbDeviceSetStatus db d.id.chars deviceOffline).2
        else db) db).devices.rows =
      db.devices.rows.map (fun r =>
        if ∃ d ∈ ds, d.GoesOffline threshold ∧ d.id.chars = r.id.chars then
          { r with status := some deviceOffline }
        else r) := by
  induction ds generalizing db with
  | nil => simp
  | cons d ds ih =>
      rw [List.foldl_cons, ih]
      by_cases hoff : d.GoesOffline threshold
      · simp only [hoff, if_true, dbDeviceSetStatus, prepares_eq, Sql.namesIndex, Bool.not_false,
          Db.updateDevice, Table.updateWhere_rows, List.map_map]
        apply List.map_congr_left
        intro r _
        by_cases hid : r.id.chars = d.id.chars
        · simp [hid, hoff]
        · have hne : ¬ d.id.chars = r.id.chars := fun heq => hid heq.symm
          simp [hid, hne, hoff]
      · simp [hoff]

private theorem markOffline_features (threshold : Int64) (ds : List Device) (db : Db) :
    (ds.foldl
      (fun db d =>
        if d.GoesOffline threshold then (dbDeviceSetStatus db d.id.chars deviceOffline).2
        else db) db).deviceTsnFeatures = db.deviceTsnFeatures := by
  induction ds generalizing db with
  | nil => rfl
  | cons d ds ih =>
      rw [List.foldl_cons, ih]
      split
      · simp [dbDeviceSetStatus, Sql.namesIndex, Db.updateDevice]
      · rfl

theorem Coherent.markOffline {db : Db} {m : DeviceManager}
    (h : Coherent db m.devices.items) (threshold : Int64) :
    Coherent (deviceManagerMarkOfflineAfter ⟨db, m⟩ threshold).db
      (m.devices.items.map (Device.markOffline threshold)) := by
  have hfeatures := markOffline_features threshold m.devices.items db
  refine ⟨?_, ?_, ?_⟩
  · simp only [deviceManagerMarkOfflineAfter, markOffline_rows, h.rows, List.map_map]
    apply List.map_congr_left
    intro d hd
    -- The loop touches the row of `d` exactly when `d` itself goes offline.
    have hiff : (∃ d' ∈ m.devices.items, d'.GoesOffline threshold ∧
        d'.id.chars = (bindDevice d).id.chars) ↔ d.GoesOffline threshold := by
      constructor
      · rintro ⟨d', hd', hoff, hid⟩
        rwa [eq_of_key_eq h.distinct hd' hd hid] at hoff
      · exact fun hoff => ⟨d, hd, hoff, rfl⟩
    simp only [Function.comp_apply, hiff, Device.markOffline]
    split <;> rfl
  · intro d hd
    obtain ⟨d₀, hd₀, rfl⟩ := List.mem_map.mp hd
    have hsame := h.features d₀ hd₀
    simp only [deviceManagerMarkOfflineAfter, Db.featuresOf, hfeatures, Device.markOffline] at hsame ⊢
    split <;> exact hsame
  · intro f hf
    simp only [deviceManagerMarkOfflineAfter, hfeatures] at hf
    obtain ⟨d, hd, hkey⟩ := h.owned f hf
    refine ⟨_, List.mem_map_of_mem hd, ?_⟩
    simp only [deviceKey, Device.markOffline] at hkey ⊢
    split <;> exact hkey

/-- The device tables hold only rows that `htsn_db_device_upsert` writes:
each row, with the features stored for it, is the encoding of a device. -/
def DevicesWritten (db : Db) : Prop :=
  (∀ r ∈ db.devices.rows, ∃ d : Device,
    r = bindDevice d ∧ db.featuresOf r.id.chars = d.tsnFeatures.items) ∧
  ∀ f ∈ db.deviceTsnFeatures, db.devices.Has f.deviceId.chars

theorem Coherent.written {db : Db} {ds : List Device} (h : Coherent db ds) :
    DevicesWritten db := by
  constructor
  · intro r hr
    rw [h.rows] at hr
    obtain ⟨d, hd, rfl⟩ := List.mem_map.mp hr
    exact ⟨d, rfl, h.features d hd⟩
  · intro f hf
    obtain ⟨d, hd, hkey⟩ := h.owned f hf
    exact ⟨bindDevice d, h.rows ▸ List.mem_map_of_mem hd, hkey⟩

/-- An empty pair of device tables and every upsert after it are written so. -/
theorem devicesWritten_of_upserts (db : Db) (devs : List Device)
    (hrows : db.devices.rows = []) (hfeatures : db.deviceTsnFeatures = []) :
    DevicesWritten (devs.foldl (fun db d => (dbDeviceUpsert db d).2) db) := by
  have hrun : ∀ (ds devs : List Device) (db : Db), Coherent db ds →
      ∃ ds', Coherent (devs.foldl (fun db d => (dbDeviceUpsert db d).2) db) ds' := by
    intro ds devs
    induction devs generalizing ds with
    | nil => exact fun db h => ⟨ds, h⟩
    | cons d devs ih => exact fun db h => ih _ _ (h.upsert d)
  have hstart : Coherent db [] := ⟨by simp [hrows], by simp, by simp [hfeatures]⟩
  obtain ⟨ds, hds⟩ := hrun [] devs db hstart
  exact hds.written

theorem domainOrDefault_ne_nil (d : Device) : d.domainOrDefault ≠ [] := by
  unfold Device.domainOrDefault
  split
  · decide
  · assumption

theorem domainOrDefault_fits (d : Device) : d.domainOrDefault.length < 256 := by
  unfold Device.domainOrDefault
  split
  · decide
  · exact d.domain.fits

/-- Reading a written row and encoding it again gives the row back: the one
field that changes, an empty domain, was stored as the default it is read as. -/
theorem bindDevice_rowToDevice (db : Db) (d : Device) :
    bindDevice (rowToDevice db (bindDevice d)) = bindDevice d := by
  have hcopy : (Buf.copy 256 d.domainOrDefault).chars = d.domainOrDefault :=
    Buf.copy_chars_of_lt (domainOrDefault_fits d)
  have hdomain : (rowToDevice db (bindDevice d)).domainOrDefault = d.domainOrDefault := by
    unfold Device.domainOrDefault
    simp only [rowToDevice, bindDevice, Option.getD_some, hcopy]
    rw [if_neg (domainOrDefault_ne_nil d)]
    rfl
  have hread : bindDevice (rowToDevice db (bindDevice d)) =
      { bindDevice d with
        kind := some (deviceKindStr (deviceKindParse (some (deviceKindStr d.kind))))
        domain := some (rowToDevice db (bindDevice d)).domainOrDefault } := rfl
  rw [hread, hdomain, deviceKindParse_kindStr]
  rfl

theorem rowToDevice_features (db : Db) (r : DeviceRow)
    (h : (db.featuresOf r.id.chars).length ≤ 8) :
    (rowToDevice db r).tsnFeatures.items = db.featuresOf r.id.chars := by
  simp only [rowToDevice, prepares_eq, Sql.namesIndex, Bool.not_false, if_true,
    Slots.foldl_push_items, Slots.empty_items, List.nil_append]
  exact List.take_of_length_le h

/-- Loading written tables gives devices that the tables encode. -/
theorem coherent_forEach {db : Db} (h : DevicesWritten db) :
    Coherent db (dbDeviceForEach db) := by
  have hload : dbDeviceForEach db = db.devices.rows.map (rowToDevice db) := by
    simp [dbDeviceForEach, Sql.namesIndex]
  rw [hload]
  refine ⟨?_, ?_, ?_⟩
  · rw [List.map_map]
    symm
    apply (List.map_congr_left ?_).trans db.devices.rows.map_id
    intro r hr
    obtain ⟨d, rfl, -⟩ := h.1 r hr
    exact bindDevice_rowToDevice db d
  · intro d hd
    obtain ⟨r, hr, rfl⟩ := List.mem_map.mp hd
    obtain ⟨d, -, hfeatures⟩ := h.1 r hr
    exact (rowToDevice_features db r (hfeatures ▸ d.tsnFeatures.fits)).symm
  · intro f hf
    obtain ⟨r, hr, hkey⟩ := h.2 f hf
    exact ⟨rowToDevice db r, List.mem_map_of_mem hr, hkey⟩

/-- A restore from at most 512 written rows fills the cache with all of them. -/
theorem coherent_restore {db : Db} (h : DevicesWritten db)
    (hcount : db.devices.rows.length ≤ maxDbDevices) :
    Coherent db (deviceManagerRestore db).devices.items := by
  have hlen : (dbDeviceForEach db).length ≤ maxDbDevices := by
    simpa [dbDeviceForEach, Sql.namesIndex] using hcount
  have hitems : (deviceManagerRestore db).devices.items = dbDeviceForEach db := by
    rw [deviceManagerRestore, Slots.foldl_push_items, Slots.empty_items, List.nil_append,
      List.take_of_length_le hlen]
  rw [hitems]
  exact coherent_forEach h

/-- Writing cached devices back to coherent tables changes nothing that the
cache can see. -/
theorem Coherent.writeBack {db : Db} {ds : List Device} (h : Coherent db ds)
    (back : List Device) (hback : ∀ d ∈ back, d ∈ ds) :
    Coherent (back.foldl (fun db d => (dbDeviceUpsert db d).2) db) ds := by
  induction back generalizing db with
  | nil => exact h
  | cons d back ih =>
      have hstep := h.upsert d
      rw [upsertBy_self h.distinct (hback d (by simp))] at hstep
      exact ih hstep fun d' hd' => hback d' (by simp [hd'])

/-- The operations of a device manager's life. `recreate` is a destroy
followed by a create on the same database. -/
inductive DeviceOp where
  | upsert (now : Int64) (dev : Device)
  | remove (id : CStr)
  | markOfflineAfter (threshold : Int64)
  | recordHeartbeat (now : Int64) (id : CStr)
  | setDomain (id domain : CStr)
  | setHealth (id : CStr) (status : Int32)
  | restore
  | recreate

/-- One operation: its result (`ok` for the functions that return none) and
the state it leaves. -/
def deviceStep (s : DeviceSystem) : DeviceOp → HtsnError × DeviceSystem
  | .upsert now dev => deviceManagerUpsert s now dev
  | .remove id => deviceManagerRemove s id
  | .markOfflineAfter threshold => (.ok, deviceManagerMarkOfflineAfter s threshold)
  | .recordHeartbeat now id => deviceManagerRecordHeartbeat s now id
  | .setDomain id domain => deviceManagerSetDomain s id domain
  | .setHealth id status => deviceManagerSetHealth s id status
  | .restore => (.ok, { s with manager := deviceManagerRestore s.db })
  | .recreate => (.ok, deviceManagerCreate (deviceManagerDestroy s))

def DeviceSystem.Coherent (s : DeviceSystem) : Prop :=
  Htsn.Coherent s.db s.manager.devices.items

/-- `withDevice` for a change that both sides make in their own way. -/
private theorem withDevice_coherent {s : DeviceSystem} (h : s.Coherent) (id : CStr)
    (change : Device → Device) (write : Db → Device → Db)
    (hwrite : ∀ d ∈ s.manager.devices.items, deviceKey d = id →
      Htsn.Coherent (write s.db (change d))
        (modifyBy deviceKey id change s.manager.devices.items)) :
    (withDevice s id change write).2.Coherent := by
  unfold withDevice
  cases hget : deviceManagerGet s.manager id with
  | none => exact h
  | some d =>
      obtain ⟨hd, hkey⟩ := (findBy_eq_some (Htsn.Coherent.distinct h)).mp hget
      exact hwrite d hd hkey

theorem deviceStep_coherent (s : DeviceSystem) (op : DeviceOp) (h : s.Coherent) :
    (deviceStep s op).2.Coherent := by
  cases op with
  | upsert now dev =>
      have hup := Coherent.upsert h (dev.seenAt now)
      simp only [deviceStep, deviceManagerUpsert]
      split
      · exact hup
      · rename_i hnew
        split
        · exact h
        · rename_i hroom
          rw [upsertBy_of_not_hasKey hnew] at hup
          simpa [DeviceSystem.Coherent, Slots.push, Nat.lt_of_not_ge hroom] using hup
  | remove id =>
      simp only [deviceStep, deviceManagerRemove]
      cases hget : deviceManagerGet s.manager id with
      | none => exact h
      | some d =>
          obtain ⟨hd, hkey⟩ := (findBy_eq_some (Htsn.Coherent.distinct h)).mp hget
          exact Coherent.remove h id ⟨d, hd, hkey⟩
  | markOfflineAfter threshold => exact Coherent.markOffline h threshold
  | recordHeartbeat now id =>
      apply withDevice_coherent h
      intro d _ _
      simp only [Db.recordHeartbeat, prepares_eq, Sql.namesIndex, Bool.not_false, if_true]
      refine Coherent.update h id _ _ _ ?_ ?_ <;> exact fun _ => rfl
  | setDomain id domain =>
      apply withDevice_coherent h
      intro d hd hkey
      have hup := Coherent.upsert h { d with domain := Buf.copy 256 domain }
      rwa [← hkey, modifyBy_eq_upsertBy (by rfl) (Htsn.Coherent.distinct h) hd]
  | setHealth id status =>
      apply withDevice_coherent h
      intro d _ _
      simp only [dbDeviceSetStatus, prepares_eq, Sql.namesIndex, Bool.not_false, if_true]
      refine Coherent.update h id _ _ _ ?_ ?_ <;> exact fun _ => rfl
  | restore =>
      apply coherent_restore (Coherent.written h)
      rw [Htsn.Coherent.rows h, List.length_map]
      exact s.manager.devices.fits
  | recreate =>
      have hback := Coherent.writeBack h s.manager.devices.items fun _ hd => hd
      apply coherent_restore (Coherent.written hback)
      rw [Htsn.Coherent.rows hback, List.length_map]
      exact s.manager.devices.fits

/-- An operation that reports a full array or an unknown device has done
nothing. -/
theorem deviceStep_refused (s : DeviceSystem) (op : DeviceOp)
    (h : (deviceStep s op).1 = .busy ∨ (deviceStep s op).1 = .notFound) :
    (deviceStep s op).2 = s := by
  have hwith : ∀ (id : CStr) (change : Device → Device) (write : Db → Device → Db),
      (withDevice s id change write).1 = .busy ∨ (withDevice s id change write).1 = .notFound →
        (withDevice s id change write).2 = s := by
    intro id change write
    unfold withDevice
    split <;> simp
  cases op with
  | upsert now dev =>
      simp only [deviceStep, deviceManagerUpsert] at h ⊢
      split
      · rename_i hkey
        simp [hkey] at h
      · rename_i hkey
        split
        · rfl
        · rename_i hroom
          simp [hkey, hroom] at h
  | remove id =>
      simp only [deviceStep, deviceManagerRemove] at h ⊢
      split
      · rfl
      · rename_i hget
        simp [hget] at h
  | markOfflineAfter threshold => simp [deviceStep] at h
  | recordHeartbeat now id => exact hwith _ _ _ h
  | setDomain id domain => exact hwith _ _ _ h
  | setHealth id status => exact hwith _ _ _ h
  | restore => simp [deviceStep] at h
  | recreate => simp [deviceStep] at h

/-- From a manager created on tables written by upserts, every sequence of
operations keeps the cached ids distinct, the count within the array and the
two device tables equal to the encoding of the cache; an operation refused
for lack of room or of the device changes nothing. -/
theorem device_cache_table_coherent (db : Db) (hwritten : DevicesWritten db)
    (hcount : db.devices.rows.length ≤ 512) (ops : List DeviceOp) :
    let s := run (fun s op => (deviceStep s op).2) (deviceManagerCreate db) ops
    ((s.manager.devices.items.map deviceKey).Nodup ∧ s.manager.devices.items.length ≤ 512 ∧
      s.Coherent) ∧
    ∀ op, (deviceStep s op).1 = .busy ∨ (deviceStep s op).1 = .notFound →
      (deviceStep s op).2 = s := by
  intro s
  have hstart : (deviceManagerCreate db).Coherent := coherent_restore hwritten hcount
  have hs : s.Coherent := run_invariant deviceStep_coherent hstart ops
  exact ⟨⟨Coherent.distinct hs, s.manager.devices.fits, hs⟩, deviceStep_refused s⟩

/-- A device registered without a domain, moved to another domain, taken
offline and carried over a restart. -/
theorem device_cache_coherent_after_restart :
    let db := (dbDeviceUpsert Db.empty (.ofId "d1".toList [])).2
    (run (fun s op => (deviceStep s op).2) (deviceManagerCreate db)
      [.setDomain "d1".toList "cell-2".toList, .markOfflineAfter 10, .recreate]).Coherent :=
  (device_cache_table_coherent _
    (devicesWritten_of_upserts Db.empty [.ofId "d1".toList []] rfl rfl) (by decide) _).1.2.2

end Htsn
