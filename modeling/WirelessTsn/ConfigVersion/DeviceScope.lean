import WirelessTsn.ConfigVersion.RoundTrip
import WirelessTsn.Vlan.Manager

/-!
Rolling back a version of one device. The wipe takes the rows of the device
and no others. The tokens of the payload are read like those of any version,
so what is inserted is the device's only if every token is read as a row of
it; an id with a delimiter, or a payload cut in the middle of an id, can be
read as something else.
-/

namespace Htsn

open CText Keyed Run

/-- The device that a row names in its `device_id` column. Groups, streams and
schedules have none. -/
def RestoreRow.owner : RestoreRow → Option CStr
  | .qos r => some r.deviceId.chars
  | .vlanMember r => some r.deviceId.chars
  | .streamMember r => some r.deviceId.chars
  | .vlanGroup _ | .stream _ | .tas _ | .gcl _ => none

/-- No database accepts the row: the CHECK on the status fails, or the
statement is that of the gate entries, which does not parse. -/
def RestoreRow.Refused : RestoreRow → Prop
  | .stream r => ¬ statusChecked r.status
  | .gcl _ => True
  | _ => False

instance : (row : RestoreRow) → Decidable row.Refused
  | .stream r => inferInstanceAs (Decidable (¬ statusChecked r.status))
  | .gcl _ => isTrue trivial
  | .qos _ | .vlanMember _ | .streamMember _ | .vlanGroup _ | .tas _ => isFalse id

/-- Every token that is read is a row of the device or one that is refused. -/
def Confined (dev : Str) (payload : CStr) : Prop :=
  ∀ row ∈ readRows dev payload, row.owner = some dev.chars ∨ row.Refused

instance (dev : Str) (payload : CStr) : Decidable (Confined dev payload) :=
  inferInstanceAs (Decidable (∀ row ∈ readRows dev payload, _))

/-- The rows that do not belong to the device are the same, in their order. -/
structure OnlyTouches (dev : Str) (db db' : Db) : Prop where
  qos : (db'.qosConfigs.rows.filter fun q => q.deviceId.chars ≠ dev.chars) =
    db.qosConfigs.rows.filter fun q => q.deviceId.chars ≠ dev.chars
  vlanMembers : (db'.vlanMembers.filter fun m => m.deviceId.chars ≠ dev.chars) =
    db.vlanMembers.filter fun m => m.deviceId.chars ≠ dev.chars
  streamMembers : (db'.tsnStreamMembers.filter fun m => m.deviceId.chars ≠ dev.chars) =
    db.tsnStreamMembers.filter fun m => m.deviceId.chars ≠ dev.chars
  vlanGroups : db'.vlanGroups = db.vlanGroups
  streams : db'.tsnStreams = db.tsnStreams
  schedules : db'.tasSchedules = db.tasSchedules
  gcl : db'.gclEntries = db.gclEntries

/-- The versions of one database are still in another. -/
def KeepsVersions (snap later : Db) : Prop :=
  ∀ v ∈ snap.configVersions.rows, v ∈ later.configVersions.rows

section

variable {dev : Str} {db db' : Db}

theorem OnlyTouches.refl (dev : Str) (db : Db) : OnlyTouches dev db db :=
  ⟨rfl, rfl, rfl, rfl, rfl, rfl, rfl⟩

theorem OnlyTouches.trans {db'' : Db} (h : OnlyTouches dev db db') (h' : OnlyTouches dev db' db'') :
    OnlyTouches dev db db'' where
  qos := h'.qos.trans h.qos
  vlanMembers := h'.vlanMembers.trans h.vlanMembers
  streamMembers := h'.streamMembers.trans h.streamMembers
  vlanGroups := h'.vlanGroups.trans h.vlanGroups
  streams := h'.streams.trans h.streams
  schedules := h'.schedules.trans h.schedules
  gcl := h'.gcl.trans h.gcl

theorem mem_iff_of_filter_eq {α : Type} {l l' : List α} {p : α → Bool} {x : α}
    (h : l'.filter p = l.filter p) (hx : p x = true) : x ∈ l' ↔ x ∈ l := by
  have hmem : x ∈ l'.filter p ↔ x ∈ l.filter p := by rw [h]
  rwa [List.mem_filter, List.mem_filter, and_iff_left hx, and_iff_left hx] at hmem

/-- A row of something else is there before if and only if it is there after. -/
theorem OnlyTouches.hasRow_iff (h : OnlyTouches dev db db') {row : RestoreRow}
    (hrow : row.owner ≠ some dev.chars) : db'.HasRow row ↔ db.HasRow row := by
  cases row with
  | qos r =>
      have hne : r.deviceId.chars ≠ dev.chars := fun heq => hrow (congrArg some heq)
      exact mem_iff_of_filter_eq h.qos (decide_eq_true hne)
  | vlanMember r =>
      have hne : r.deviceId.chars ≠ dev.chars := fun heq => hrow (congrArg some heq)
      exact mem_iff_of_filter_eq h.vlanMembers (decide_eq_true hne)
  | streamMember r =>
      have hne : r.deviceId.chars ≠ dev.chars := fun heq => hrow (congrArg some heq)
      exact mem_iff_of_filter_eq h.streamMembers (decide_eq_true hne)
  | vlanGroup r => simp only [Db.HasRow, h.vlanGroups]
  | stream r => simp only [Db.HasRow, h.streams]
  | tas r => simp only [Db.HasRow, h.schedules]
  | gcl r => simp only [Db.HasRow, h.gcl]

/-! ### What a rollback of a confined version touches -/

theorem onlyTouches_wipe (hdev : dev.chars ≠ []) (db : Db) : OnlyTouches dev db (wipe db dev) := by
  unfold wipe
  rw [if_neg hdev]
  refine ⟨?_, ?_, ?_, rfl, rfl, rfl, rfl⟩
  · rw [Table.deleteWhere_rows, List.filter_filter]
    apply List.filter_congr
    intro q _
    simp
  · rw [List.filter_filter]
    apply List.filter_congr
    intro m _
    simp
  · rw [List.filter_filter]
    apply List.filter_congr
    intro m _
    simp

theorem onlyTouches_putRow {row : RestoreRow} (h : row.owner = some dev.chars) (db : Db) :
    OnlyTouches dev db (db.putRow row) := by
  cases row with
  | qos r =>
      have hdev : r.deviceId.chars = dev.chars := Option.some_inj.mp h
      have hkey : (PrimaryKey.key r : CStr) = dev.chars := hdev
      refine ⟨?_, rfl, rfl, rfl, rfl, rfl, rfl⟩
      show ((db.qosConfigs.replace r).rows.filter fun q => q.deviceId.chars ≠ dev.chars) = _
      rw [Table.replace_rows, List.filter_append, List.filter_filter]
      have hnone : ([r].filter fun q => decide (q.deviceId.chars ≠ dev.chars)) = [] := by
        simp [hdev]
      rw [hnone, List.append_nil, hkey]
      apply List.filter_congr
      intro q _
      have hq : (PrimaryKey.key q : CStr) = q.deviceId.chars := rfl
      simp [hq]
  | vlanMember r =>
      have hdev : r.deviceId.chars = dev.chars := Option.some_inj.mp h
      refine ⟨rfl, ?_, rfl, rfl, rfl, rfl, rfl⟩
      show ((db.vlanMembers ++ [r]).filter fun m => m.deviceId.chars ≠ dev.chars) = _
      rw [List.filter_append]
      simp [hdev]
  | streamMember r =>
      have hdev : r.deviceId.chars = dev.chars := Option.some_inj.mp h
      refine ⟨rfl, rfl, ?_, rfl, rfl, rfl, rfl⟩
      show ((db.tsnStreamMembers ++ [r]).filter fun m => m.deviceId.chars ≠ dev.chars) = _
      rw [List.filter_append]
      simp [hdev]
  | vlanGroup r | stream r | tas r | gcl r => cases h

theorem not_admits_of_refused {row : RestoreRow} (h : row.Refused) (db : Db) : ¬ db.Admits row := by
  cases row with
  | stream r => exact fun hadm => h hadm.2
  | gcl r => simp [Db.Admits, Sql.namesIndex]
  | qos r | vlanMember r | vlanGroup r | streamMember r | tas r => exact absurd h id

theorem onlyTouches_insertRow {a : RestoreRow × Bool} (h : a.1.owner = some dev.chars ∨ a.1.Refused)
    (db : Db) : OnlyTouches dev db (db.insertRow a) := by
  unfold Db.insertRow
  split
  · rename_i hacc
    have howner := h.resolve_right fun hrefused => not_admits_of_refused hrefused db hacc.2
    exact onlyTouches_putRow howner db
  · exact OnlyTouches.refl dev db

theorem onlyTouches_foldl_insertRow {as : List (RestoreRow × Bool)}
    (h : ∀ a ∈ as, a.1.owner = some dev.chars ∨ a.1.Refused) (db : Db) :
    OnlyTouches dev db (as.foldl Db.insertRow db) := by
  induction as generalizing db with
  | nil => exact OnlyTouches.refl dev db
  | cons a as ih =>
      have hfirst := onlyTouches_insertRow (h a (by simp)) db
      exact hfirst.trans (ih (fun b hb => h b (by simp [hb])) _)

theorem mem_readRows_of_mem_attempts {env : RestoreEnv} {payload : CStr} {a : RestoreRow × Bool}
    (h : a ∈ attempts env dev payload) : a.1 ∈ readRows dev payload := by
  obtain ⟨b, hb, rfl⟩ := List.mem_map.mp h
  exact List.fst_mem_of_mem_zipIdx hb

/-- The version as a database that keeps it finds it. -/
theorem find_deviceVersion {later : Db} {now : Int64} {name : CStr} (hdev : dev.chars ≠ [])
    (hkeep : KeepsVersions (cfgVerSnapshot true db now name (some dev.chars)).2 later) :
    later.configVersions.find (nextVersionId db) =
      some ⟨nextVersionId db, name, dev.chars, now, serializeDevice db dev.chars⟩ := by
  refine later.configVersions.find_eq_some.mpr ⟨hkeep _ ?_, rfl⟩
  have hadd : (cfgVerSnapshot true db now name (some dev.chars)).2 =
      (dbConfigVersionAdd db now name dev.chars (serializeScope db (some dev.chars))).2 := rfl
  have hscope : serializeScope db (some dev.chars) = serializeDevice db dev.chars := if_neg hdev
  rw [hadd, dbConfigVersionAdd_rows, hscope]
  simp

/-- Whatever can fail in it, the rollback of a confined version touches only
the device. -/
theorem onlyTouches_of_confined {later : Db} {now : Int64} {name : CStr} (hdev : dev.chars ≠ [])
    (hconfined : Confined dev ((serializeDevice db dev.chars).take 4095))
    (hkeep : KeepsVersions (cfgVerSnapshot true db now name (some dev.chars)).2 later)
    (env : RestoreEnv) : OnlyTouches dev later (cfgVerRollback env later (nextVersionId db)).2 := by
  have hfind := find_deviceVersion hdev hkeep
  have hwipe := onlyTouches_wipe hdev later
  rw [cfgVerRollback_of_find hfind, Buf.copy_self]
  split
  · refine hwipe.trans (onlyTouches_foldl_insertRow (fun a ha => ?_) _)
    exact hconfined a.1 (mem_readRows_of_mem_attempts ha)
  · exact hwipe

/-! ### What one of another version does -/

/-- A stream that has nothing but its id. -/
def bareStream (id : Str) : StreamRow where
  streamId := id
  name := id
  talker := .empty
  vlanId := 0
  maxLatencyNs := 0
  maxIntervalNs := 0
  priority := 0
  dataFramePrio := 0
  status := 0
  comment := .empty

/-- A database that has the versions of another and what a row refers to. -/
def baseFor (snap : Db) (row : RestoreRow) : Db :=
  { Db.empty with
    configVersions := snap.configVersions
    devices := match row with | .qos r => Table.empty.upsert (stubDevice r.deviceId) | _ => .empty
    tsnStreams :=
      match row with | .streamMember r => Table.empty.upsert (bareStream r.streamId) | _ => .empty }

theorem baseFor_constraints (snap : Db) (row : RestoreRow) : (baseFor snap row).Constraints := by
  refine ⟨?_, ?_, ?_, ?_, ?_, ?_⟩
  · intro f hf
    cases hf
  · intro q hq
    cases hq
  · intro g hg
    cases hg
  · intro r hr
    cases hr
  · intro m hm
    cases hm
  · intro r hr
    cases row with
    | streamMember m =>
        have hr' : r ∈ [bareStream m.streamId] := hr
        rw [List.mem_singleton.mp hr']
        exact Or.inl rfl
    | qos q | vlanMember m | vlanGroup g | stream t | tas t | gcl g => cases hr

theorem not_hasRow_baseFor (snap : Db) (row : RestoreRow) : ¬ (baseFor snap row).HasRow row := by
  cases row with
  | qos r | vlanMember r | vlanGroup r | streamMember r | stream r | tas r | gcl r =>
      exact List.not_mem_nil

/-- After any INSERTs into it the row is accepted. -/
theorem admits_baseFor (hdev : dev.chars ≠ []) {row : RestoreRow} (h : ¬ row.Refused) (snap : Db)
    (rows : List RestoreRow) :
    (insertRows (wipe (baseFor snap row) dev) rows).Admits row := by
  cases row with
  | qos r =>
      refine ⟨by simp [Sql.namesIndex], ?_⟩
      rw [insertRows_devices, wipe_devices]
      exact Table.has_upsert_self Table.empty (stubDevice r.deviceId)
  | streamMember r =>
      refine ⟨by simp [Sql.namesIndex], ?_⟩
      have hstream : (wipe (baseFor snap (.streamMember r)) dev).HasKeyOf
          (.stream (bareStream r.streamId)) := by
        show (wipe (baseFor snap (.streamMember r)) dev).tsnStreams.Has r.streamId.chars
        rw [(onlyTouches_wipe hdev _).streams]
        exact Table.has_upsert_self Table.empty (bareStream r.streamId)
      exact hasKeyOf_insertRows (Or.inl hstream)
  | stream r => exact ⟨by simp [Sql.namesIndex], not_not.mp h⟩
  | vlanMember r | vlanGroup r | tas r => simp [Db.Admits, Sql.namesIndex]
  | gcl r => exact absurd trivial h

/-- The last row that is not the device's stays in the tables. -/
theorem hasRow_of_last_foreign (hl : db.Linked) {before after : List RestoreRow} {row : RestoreRow}
    (hrow : row.owner ≠ some dev.chars) (hadmits : (insertRows db before).Admits row)
    (hafter : ∀ r ∈ after, r.owner = some dev.chars ∨ r.Refused) :
    (insertRows db (before ++ row :: after)).HasRow row := by
  have hmid : ((insertRows db before).insertRow (row, true)).HasRow row :=
    (hasRow_insertRow (insertRows_linked hl before) (row, true) row).mpr (Or.inl ⟨⟨rfl, hadmits⟩, rfl⟩)
  have hrest : OnlyTouches dev ((insertRows db before).insertRow (row, true))
      (insertRows db (before ++ row :: after)) := by
    rw [insertRows_append, insertRows_eq _ (row :: after), List.map_cons, List.foldl_cons]
    refine onlyTouches_foldl_insertRow (fun a ha => ?_) _
    obtain ⟨r, hr, rfl⟩ := List.mem_map.mp ha
    exact hafter r hr
  exact (hrest.hasRow_iff hrow).mpr hmid

end

/-- Rolling back a version of one device touches only that device, in every
later database and whatever fails, exactly when every token of the stored
payload that is read is a row of the device or refused. -/
theorem rollback_touches_only_iff (db : Db) (dev : Str) (hdev : dev.chars ≠ []) (now : Int64)
    (name : CStr) :
    (∀ (later : Db) (env : RestoreEnv), later.Constraints →
      KeepsVersions (cfgVerSnapshot true db now name (some dev.chars)).2 later →
        OnlyTouches dev later (cfgVerRollback env later (nextVersionId db)).2) ↔
      Confined dev ((serializeDevice db dev.chars).take 4095) := by
  constructor
  · intro htouch
    by_contra hnot
    -- The last row that is not confined stays: those behind it touch only the device.
    simp only [Confined, not_forall] at hnot
    obtain ⟨bad, hbad, hforeign⟩ := hnot
    obtain ⟨row, ⟨before, after, hrows, hafter⟩, hrow⟩ :=
      @exists_survives RestoreRow (fun b _ => ¬ (b.owner = some dev.chars ∨ b.Refused))
        (fun _ _ _ h _ => h) _ _ hbad
    have hrow' : ¬ (row.owner = some dev.chars ∨ row.Refused) := by
      rcases hrow with rfl | hrow
      · exact hforeign
      · exact hrow
    rw [not_or] at hrow'
    let snap := (cfgVerSnapshot true db now name (some dev.chars)).2
    have hkeep : KeepsVersions snap (baseFor snap row) := fun v hv => hv
    have htouches := htouch (baseFor snap row) .healthy (baseFor_constraints snap row) hkeep
    have hfind := find_deviceVersion hdev hkeep
    rw [cfgVerRollback_healthy hfind, Buf.copy_self] at htouches
    dsimp only at htouches
    rw [hrows] at htouches
    have hlinked := wipe_linked (baseFor_constraints snap row).linked dev
    have hstays := hasRow_of_last_foreign hlinked hrow'.1 (admits_baseFor hdev hrow'.2 snap before)
      fun r hr => not_not.mp (hafter r hr)
    exact not_hasRow_baseFor snap row ((htouches.hasRow_iff hrow'.1).mp hstays)
  · intro hconfined later env _ hkeep
    exact onlyTouches_of_confined hdev hconfined hkeep env

theorem rollback_touches_only_d1 :
    (∀ (later : Db) (env : RestoreEnv), later.Constraints →
      KeepsVersions (cfgVerSnapshot true labSnapshot 0 "v1".toList (some "d1".toList)).2 later →
        OnlyTouches (Buf.copy 256 "d1".toList) later
          (cfgVerRollback env later (nextVersionId labSnapshot)).2) ↔
      Confined (Buf.copy 256 "d1".toList) ((serializeDevice labSnapshot "d1".toList).take 4095) :=
  rollback_touches_only_iff labSnapshot (Buf.copy 256 "d1".toList) (by decide) 0 "v1".toList

/-- A device in a group whose id holds a colon. -/
def colonSnapshot : Db :=
  let group : Str := Buf.copy 256 "lab:e2".toList
  let db := (vlanManagerCreateGroup .empty ⟨group, group, 7⟩).2
  (vlanManagerAddMember db group.chars "d1".toList).2

/-- The rollback puts another device into another group. -/
theorem rollback_adds_foreign_member :
    ¬ ∀ (db later : Db) (dev : Str) (now : Int64) (name : CStr) (env : RestoreEnv),
      dev.chars ≠ [] → later.Constraints →
        KeepsVersions (cfgVerSnapshot true db now name (some dev.chars)).2 later →
          OnlyTouches dev later (cfgVerRollback env later (nextVersionId db)).2 := by
  intro h
  let dev : Str := Buf.copy 256 "d1".toList
  let later := (cfgVerSnapshot true colonSnapshot 0 [] (some dev.chars)).2
  have hlater : later.Constraints := by constructor <;> decide
  have htouches := h colonSnapshot later dev 0 [] .healthy (by decide) hlater fun v hv => hv
  let foreign : VlanMember := ⟨Buf.copy 256 "lab".toList, Buf.copy 256 "e2".toList⟩
  have hnew : foreign ∈ (cfgVerRollback .healthy later (nextVersionId colonSnapshot)).2.vlanMembers := by
    decide +kernel
  have hold : foreign ∉ later.vlanMembers := by decide +kernel
  exact hold ((@OnlyTouches.hasRow_iff dev later _ htouches (.vlanMember foreign) (by decide)).mp hnew)

end Htsn
