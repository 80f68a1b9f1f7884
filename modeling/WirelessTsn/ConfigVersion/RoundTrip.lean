import WirelessTsn.ConfigVersion.Reading

/-!
Rolling a global version back whose payload was not cut, after any edits that
leave the devices alone: what is printed afterwards is what was printed for
the snapshot, unless a word of a domain reads as a row.
-/

namespace Htsn

open CText Keyed

/-- The entries of the devices come from the `devices` table alone. -/
theorem deviceLines_congr {db db' : Db} (h : db'.devices = db.devices) :
    (dbDeviceForEach db').map deviceLine = (dbDeviceForEach db).map deviceLine := by
  simp only [dbDeviceForEach, prepares_eq, Sql.namesIndex, Bool.not_false, if_true, h,
    List.map_map]
  rfl

/-- The members restored for a stream are those loaded for it again. -/
theorem loadMembers_restored {db db' : Db}
    (h : db'.tsnStreamMembers = db.tsnStreams.rows.flatMap (restoredMembers db)) {r : StreamRow}
    (hr : r ∈ db.tsnStreams.rows) :
    loadMembers db' r.streamId.chars = loadMembers db r.streamId.chars := by
  have hown : (db.tsnStreams.rows.flatMap (restoredMembers db)).filter
      (fun m => decide (m.streamId.chars = r.streamId.chars)) = restoredMembers db r :=
    filter_flatMap_key db.tsnStreams.pk
      (fun r _ m hm => congrArg Buf.chars (mem_restoredMembers_streamId hm)) hr
  have hnamed : ∀ l ∈ (loadMembers db r.streamId.chars).1.items, l.chars ≠ allListeners := by
    intro l hl
    obtain ⟨m, -, -, -, hne⟩ := @exists_row_of_mem_listeners db r l hl
    exact hne
  rw [loadMembers, h, hown, restoredMembers, foldl_loadMember_membersOf _ _ _ hnamed]

/-- The entries printed from the restored tables. -/
theorem globalLines_restored {db tables : Db} (hdb : db.Constraints) (h : Printable db)
    (hdevices : tables.devices = db.devices) :
    globalLines (insertRows (wipe tables .empty) (restoredRows db)) = globalLines db := by
  have htables := insertRows_restoredRows hdb (wipe_global_linked tables)
    ((wipe_devices tables .empty).trans hdevices)
  generalize insertRows (wipe tables .empty) (restoredRows db) = out at htables
  have hgroups : out.vlanGroups.rows = db.vlanGroups.rows.map VlanGroup.reread := by
    rw [htables]
    exact Table.foldl_replace_map_rows _ _ fun _ => rfl
  have hmembers : out.vlanMembers = db.vlanMembers := by
    rw [htables]
    exact h.readMembers_eq
  have hstreams : out.tsnStreams.rows = db.tsnStreams.rows.map StreamRow.reread := by
    rw [htables]
    exact Table.foldl_replace_map_rows _ _ fun _ => rfl
  have hstreamMembers : out.tsnStreamMembers =
      db.tsnStreams.rows.flatMap (restoredMembers db) := by
    rw [htables]
    rfl
  have hqos : out.qosConfigs.rows = db.qosConfigs.rows.map QosConfig.reread := by
    rw [htables]
    exact Table.foldl_replace_map_rows _ _ fun _ => rfl
  have hout : out.devices = db.devices := by
    rw [htables]
    exact hdevices
  have hlines : (out.tsnStreams.rows.map (streamOfRow out)).flatMap streamLines =
      (db.tsnStreams.rows.map (streamOfRow db)).flatMap streamLines := by
    rw [hstreams, List.map_map, List.flatMap_map, List.flatMap_map]
    apply List.flatMap_congr
    intro r hr
    show streamLines (streamOf r.reread (loadMembers out r.streamId.chars)) = _
    rw [loadMembers_restored hstreamMembers hr]
    rfl
  rw [globalLines, globalLines, deviceLines_congr hout, configLines_eq, configLines_eq, hlines,
    hgroups, hmembers, hqos, List.map_map, List.map_map]
  rfl

/-- The version is stored, its rollback succeeds, and what is printed from the
resulting tables has the tokens of the stored payload. -/
def RollbackFixpoint (db : Db) (id : Int) : Prop :=
  ∃ v, db.configVersions.find id = some v ∧
    (cfgVerRollback .healthy db id).1 = .ok ∧
    (strtok ' ' (serializeGlobal (cfgVerRollback .healthy db id).2)).Perm (strtok ' ' v.payload)

/-- If no word of a device's domain reads as a row, a global rollback is a
fixpoint of the serializer, whatever was edited in between. -/
theorem rollback_serializes_snapshot (db later : Db) (now : Int64) (name : CStr)
    (scope : Option CStr) (hscope : scope.getD [] = []) (hdb : db.Constraints)
    (h : Printable db) (hfits : (serializeGlobal db).length ≤ 4095) (hstray : strayRows db = [])
    (hedit : EditedSince (cfgVerSnapshot true db now name scope).2 later) :
    RollbackFixpoint later (nextVersionId db) := by
  have hdevices : later.devices = db.devices :=
    hedit.devices.trans (cfgVerSnapshot_devices db now name scope)
  have hroll := cfgVerRollback_uncut hscope hdb h.idsDelimFree (h.readable hdb) hfits hedit
  rw [hstray] at hroll
  refine ⟨_, find_cfgVerSnapshot hscope hedit, ?_, ?_⟩
  · rw [hroll]
  · have hsame : serializeGlobal (cfgVerRollback .healthy later (nextVersionId db)).2 =
        serializeGlobal db := by
      rw [hroll]
      exact congrArg printLines (globalLines_restored hdb h hdevices)
    rw [hsame]

/-- A device with a qos row, a group it is in and a stream it talks on. -/
def labSnapshot : Db :=
  let d1 : Str := Buf.copy 256 "d1".toList
  let g1 : Str := Buf.copy 256 "g1".toList
  let db := (dbDeviceUpsert .empty (Device.ofId d1.chars [])).2
  let db := (dbQosSave db ⟨d1, 5, 3, 100, 2, 0⟩).2
  let db := (dbVlanGroupSave db ⟨g1, Buf.copy 256 "lab".toList, 7⟩).2
  let db := (dbVlanMemberAdd db ⟨g1, d1⟩).2
  (dbTsnSave db (Stream.request "s1".toList d1.chars "d2".toList streamReady)).2

theorem labSnapshot_constraints : labSnapshot.Constraints where
  features := by decide
  qos := by decide
  gcl := by decide
  sensors := by decide
  members := by decide
  status := by decide

theorem labSnapshot_printable : Printable labSnapshot where
  devices := by decide
  groups := by decide
  members := by decide
  streams := by decide
  listeners := by decide
  schedules := by decide
  valid := by decide

/-- The version of `labSnapshot`, after the stream was deleted and the group
was given another VLAN. -/
def labEdited : Db :=
  let db := (cfgVerSnapshot true labSnapshot 0 "v1".toList none).2
  let db := (dbTsnDelete db "s1".toList).2
  (dbVlanGroupSave db ⟨Buf.copy 256 "g1".toList, .empty, 9⟩).2

theorem labEdited_since :
    EditedSince (cfgVerSnapshot true labSnapshot 0 "v1".toList none).2 labEdited :=
  ⟨rfl, fun _ h => h⟩

theorem rollback_serializes_labSnapshot : RollbackFixpoint labEdited 1 :=
  rollback_serializes_snapshot labSnapshot labEdited 0 "v1".toList none rfl
    labSnapshot_constraints labSnapshot_printable (by decide +kernel) (by decide +kernel)
    labEdited_since

/-- One device, in a domain whose text holds a blank. -/
def straySnapshot : Db :=
  (dbDeviceUpsert .empty (Device.ofId "d1".toList "x vlan:g1:5".toList)).2

theorem straySnapshot_constraints : straySnapshot.Constraints where
  features := by decide
  qos := by decide
  gcl := by decide
  sensors := by decide
  members := by decide
  status := by decide

theorem straySnapshot_printable : Printable straySnapshot where
  devices := by decide
  groups := by decide
  members := by decide
  streams := by decide
  listeners := by decide
  schedules := by decide
  valid := by decide

/-- A rollback can add a group that the snapshot did not have. -/
theorem rollback_adds_group_from_domain :
    ¬ ∀ (db later : Db) (now : Int64) (name : CStr) (scope : Option CStr),
      scope.getD [] = [] → db.Constraints → Printable db →
      (serializeGlobal db).length ≤ 4095 →
      EditedSince (cfgVerSnapshot true db now name scope).2 later →
      RollbackFixpoint later (nextVersionId db) := by
  intro hclaim
  obtain ⟨v, hfind, -, hperm⟩ := hclaim straySnapshot
    (cfgVerSnapshot true straySnapshot 0 [] none).2 0 [] none rfl straySnapshot_constraints
    straySnapshot_printable (by decide +kernel) ⟨rfl, fun _ h => h⟩
  have hstored : (cfgVerSnapshot true straySnapshot 0 [] none).2.configVersions.find
      (nextVersionId straySnapshot) =
        some ⟨1, [], [], 0, serializeGlobal straySnapshot⟩ := by decide +kernel
  rw [hstored] at hfind
  cases hfind
  have hlength := hperm.length_eq
  revert hlength
  decide +kernel

end Htsn
