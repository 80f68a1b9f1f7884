import WirelessTsn.ConfigVersion.RoundTrip

/-!
Whether a rollback brings the rows themselves back, and not only what is
printed of them. It does exactly when the columns that are not printed were
equal to those they are derived from; a stream that was saved through the
manager has a talker row, which is never printed.
-/

namespace Htsn

open CText Keyed

/-- Two databases with the same rows in four tables. -/
def SameRows (a b : Db) : Prop :=
  a.qosConfigs.rows.Perm b.qosConfigs.rows ∧ a.vlanGroups.rows.Perm b.vlanGroups.rows ∧
    a.tsnStreams.rows.Perm b.tsnStreams.rows ∧ a.tsnStreamMembers.Perm b.tsnStreamMembers

/-- The wildcard rows of a stream. -/
def wildcardRows (db : Db) (id : CStr) : List StreamMember :=
  (db.tsnStreamMembers.filter fun m => decide (m.streamId.chars = id)).filter
    StreamMember.isWildcard

/-- Every column that is not printed equals what it is derived from, every
entry is readable, and a row that a word of a domain reads as is replaced. -/
structure Restorable (db : Db) : Prop where
  qos : ∀ q ∈ db.qosConfigs.rows, q.trafficClass = q.priority ∧ q.deviceId.chars ≠ [] ∧
    startsWithP q.deviceId.chars = false
  groups : ∀ g ∈ db.vlanGroups.rows, g.name = g.id ∧ g.id.chars ≠ [] ∧ 0 < g.vlanId
  streams : ∀ r ∈ db.tsnStreams.rows, r.name = r.streamId ∧ r.dataFramePrio = r.priority ∧
    r.comment = .empty ∧ r.streamId.chars ≠ [] ∧ r.talker.chars ≠ []
  members : ∀ m ∈ db.tsnStreamMembers, m.role = .listener ∧ m.deviceId.chars ≠ []
  wildcards : ∀ r ∈ db.tsnStreams.rows, (wildcardRows db r.streamId.chars).length ≤ 1
  strays : ∀ r ∈ strayRows db, db.Accepts r → db.HasKeyOf r

theorem Restorable.readable {db : Db} (h : Restorable db) : Readable db where
  groups := fun g hg => (h.groups g hg).2
  streams := fun r hr => (h.streams r hr).2.2.2
  listeners := fun m hm _ => (h.members m hm).2
  qos := fun q hq => (h.qos q hq).2

/-- A row left by the strays has the key of a stored row. -/
theorem hasKeyOf_of_stray {db later : Db} (h : Restorable db)
    (hdevices : later.devices = db.devices) {r : RestoreRow}
    (hr : (insertRows (wipe later .empty) (strayRows db)).HasRow r) : db.HasKeyOf r := by
  rcases hasRow_of_insertRows (wipe_global_linked later) hr with hold | ⟨hmem, hacc⟩
  · exact absurd hold (not_hasRow_wipe_global later r)
  · have hsame : (wipe later .empty).devices = db.devices := hdevices
    exact h.strays r hmem ((accepts_congr hsame r).mp hacc)

section Members

/-- Longer lists of entries have longer texts. -/
theorem length_linesText_le {as bs : List (List Field)} (h : as.Sublist bs) :
    (linesText as).length ≤ (linesText bs).length :=
  ((h.map renderLine).flatMap _).length_le

private theorem length_streammemLines (sid : CStr) (ls : List Str) :
    12 * ls.length ≤ (linesText (ls.map fun l => streammemLine sid l.chars)).length := by
  induction ls with
  | nil => simp
  | cons l ls ih =>
      have hline : 11 ≤ (renderLine (streammemLine sid l.chars)).length := by
        have hparts : renderLine (streammemLine sid l.chars) =
            streammemTag ++ (sid ++ (":".toList ++ (l.chars ++ []))) := rfl
        have htag : streammemTag.length = 10 := rfl
        have hcolon : ":".toList.length = 1 := rfl
        rw [hparts]
        simp only [List.length_append, htag, hcolon]
        omega
      have hcons : linesText ((l :: ls).map fun l => streammemLine sid l.chars) =
          (renderLine (streammemLine sid l.chars) ++ [' ']) ++
            linesText (ls.map fun l => streammemLine sid l.chars) := rfl
      rw [hcons]
      simp only [List.length_append, List.length_cons, List.length_nil]
      omega

/-- A payload within the field names fewer listeners than a stream can hold. -/
theorem listeners_lt_of_fits {db : Db} (hfits : (serializeGlobal db).length ≤ 4095)
    {r : StreamRow} (hr : r ∈ db.tsnStreams.rows) :
    (loadMembers db r.streamId.chars).1.items.length < maxDevices := by
  have hblock : ((streamOfRow db r).listeners.items.map fun l =>
      streammemLine r.streamId.chars l.chars).Sublist (streamLines (streamOfRow db r)) :=
    (List.sublist_append_left _ _).trans (List.sublist_cons_self _ _)
  have hstreams : (streamLines (streamOfRow db r)).Sublist (globalLines db) := by
    refine List.Sublist.trans ?_ (List.sublist_append_right _ _)
    rw [configLines_eq]
    refine List.Sublist.trans ?_ ((List.sublist_append_left _ _).trans
      (List.sublist_append_left _ _))
    refine List.Sublist.trans ?_ (List.sublist_append_right _ _)
    rw [List.flatMap_map]
    exact List.sublist_flatten_of_mem (List.mem_map_of_mem hr)
  have hlong := length_streammemLines r.streamId.chars (streamOfRow db r).listeners.items
  have hle := length_linesText_le (hblock.trans hstreams)
  rw [serializeGlobal_of_length_le hfits] at hfits
  have hitems : (streamOfRow db r).listeners.items =
      (loadMembers db r.streamId.chars).1.items := rfl
  rw [hitems] at hlong hle
  unfold maxDevices
  omega

/-- The restored wildcard rows of a stream are at most one. -/
theorem length_wildcards_restoredMembers (db : Db) (r : StreamRow) :
    ((restoredMembers db r).filter StreamMember.isWildcard).length ≤ 1 := by
  have hexplicit : ((loadMembers db r.streamId.chars).1.items.map
      (StreamMember.mk r.streamId .listener)).filter StreamMember.isWildcard = [] := by
    rw [List.filter_eq_nil_iff]
    intro m hm
    obtain ⟨l, hl, rfl⟩ := List.mem_map.mp hm
    obtain ⟨-, -, -, -, hne⟩ := @exists_row_of_mem_listeners db r l hl
    simp [StreamMember.isWildcard, hne]
  rw [restoredMembers, membersOf, List.filter_append, hexplicit, List.nil_append]
  refine (List.length_filter_le _ _).trans ?_
  split <;> simp

/-- The listeners of a payload within the field are all explicit rows. -/
theorem loadMembers_items_of_fits {db : Db} (hfits : (serializeGlobal db).length ≤ 4095)
    {r : StreamRow} (hr : r ∈ db.tsnStreams.rows) :
    (loadMembers db r.streamId.chars).1.items =
      ((db.tsnStreamMembers.filter fun m => decide (m.streamId.chars = r.streamId.chars)).filter
        StreamMember.isExplicit).map StreamMember.deviceId := by
  have hlt := listeners_lt_of_fits hfits hr
  rw [loadMembers_items, List.length_take] at hlt
  rw [loadMembers_items]
  apply List.take_of_length_le
  omega

/-- The restored members of a stream are its rows, if all of them are printed. -/
theorem restoredMembers_perm {db : Db} (h : Restorable db)
    (hfits : (serializeGlobal db).length ≤ 4095) {r : StreamRow} (hr : r ∈ db.tsnStreams.rows) :
    (restoredMembers db r).Perm
      (db.tsnStreamMembers.filter fun m => decide (m.streamId.chars = r.streamId.chars)) := by
  have hitems := loadMembers_items_of_fits hfits hr
  have hall := loadMembers_all db r.streamId.chars
  have hone : ((db.tsnStreamMembers.filter fun m =>
      decide (m.streamId.chars = r.streamId.chars)).filter StreamMember.isWildcard).length ≤ 1 :=
    h.wildcards r hr
  have hrow : ∀ m ∈ db.tsnStreamMembers.filter fun m =>
      decide (m.streamId.chars = r.streamId.chars),
      m.streamId = r.streamId ∧ m.role = .listener := by
    intro m hm
    obtain ⟨hmem, hid⟩ := List.mem_filter.mp hm
    exact ⟨Buf.chars_injective (of_decide_eq_true hid), (h.members m hmem).1⟩
  generalize (db.tsnStreamMembers.filter fun m =>
    decide (m.streamId.chars = r.streamId.chars)) = ms at hitems hall hone hrow
  have hexplicit : (loadMembers db r.streamId.chars).1.items.map
      (StreamMember.mk r.streamId .listener) = ms.filter StreamMember.isExplicit := by
    rw [hitems, List.map_map]
    refine (List.map_congr_left fun m hm => ?_).trans (List.map_id _)
    obtain ⟨hid, hrole⟩ := hrow m (List.mem_of_mem_filter hm)
    simp [← hid, ← hrole]
  have hwild : (if (loadMembers db r.streamId.chars).2 = true then
      [⟨r.streamId, .listener, allListenersId⟩] else []) = ms.filter StreamMember.isWildcard := by
    rw [hall]
    cases hfilter : ms.filter StreamMember.isWildcard with
    | nil =>
        have hnone : ms.any StreamMember.isWildcard = false := by
          simpa [List.filter_eq_nil_iff] using hfilter
        simp [hnone]
    | cons w ws =>
        have hws : ws = [] := by
          simpa [hfilter] using hone
        obtain ⟨hw, hwild⟩ := List.mem_filter.mp (hfilter ▸ List.mem_cons_self)
        obtain ⟨hid, hrole⟩ := hrow w hw
        have hany : ms.any StreamMember.isWildcard = true := List.any_eq_true.mpr ⟨w, hw, hwild⟩
        have hdev : w.deviceId = allListenersId := by
          apply Buf.chars_injective
          simp only [StreamMember.isWildcard, Bool.and_eq_true, decide_eq_true_eq] at hwild
          rw [hwild.2, allListenersId_chars]
        rw [hany, hws, if_pos rfl, ← hid, ← hrole, ← hdev]
  have hrest : ms.filter StreamMember.isWildcard =
      ms.filter fun m => !m.isExplicit := by
    apply List.filter_congr
    intro m hm
    simp [StreamMember.isWildcard, StreamMember.isExplicit, (hrow m hm).2]
  rw [restoredMembers, membersOf, hexplicit, hwild, hrest]
  exact List.filter_append_perm _ _

/-- All restored members together. -/
theorem flatMap_restoredMembers_perm {db : Db} (hdb : db.Constraints) (h : Restorable db)
    (hfits : (serializeGlobal db).length ≤ 4095) :
    (db.tsnStreams.rows.flatMap (restoredMembers db)).Perm db.tsnStreamMembers := by
  have hgrouped := flatMap_filter_perm (fun m : StreamMember => m.streamId.chars)
    (db.tsnStreams.rows.map PrimaryKey.key) db.tsnStreams.pk db.tsnStreamMembers
    fun m hm => hasKey_iff_mem_map.mp (hdb.members m hm)
  rw [List.flatMap_map] at hgrouped
  exact (List.Perm.flatMap_left _ fun r hr => restoredMembers_perm h hfits hr).trans hgrouped

end Members

section Iff

variable {db later : Db}

/-- If the columns that are not printed were derived, all rows come back. -/
theorem sameRows_of_restorable (hdb : db.Constraints) (hdevices : later.devices = db.devices)
    (hfits : (serializeGlobal db).length ≤ 4095) (h : Restorable db) :
    SameRows (insertRows (insertRows (wipe later .empty) (strayRows db)) (restoredRows db))
      db := by
  have hstray := fun r => @hasKeyOf_of_stray db later h hdevices r
  have hlinked := insertRows_linked (wipe_global_linked later) (strayRows db)
  have hsame : (insertRows (wipe later .empty) (strayRows db)).devices = db.devices :=
    (insertRows_devices _ _).trans hdevices
  rw [insertRows_restoredRows hdb hlinked hsame]
  generalize insertRows (wipe later .empty) (strayRows db) = tables at hstray hlinked
  have hmembers : (tables.tsnStreamMembers.filter fun m =>
      outside (db.tsnStreams.rows.map PrimaryKey.key) m.streamId.chars) = [] := by
    rw [List.filter_eq_nil_iff]
    intro m hm
    obtain ⟨r, hr, hkey⟩ := hlinked.members m hm
    have hhas : db.tsnStreams.Has r.streamId.chars := hstray (.stream r) hr
    rw [show r.streamId.chars = m.streamId.chars from hkey] at hhas
    simpa using hasKey_iff_mem_map.mp hhas
  refine ⟨?_, ?_, ?_, ?_⟩
  · exact .of_eq (Table.foldl_replace_eq _ _ (fun q hq => QosConfig.reread_eq (h.qos q hq).1)
      fun q hq => hstray (.qos q) hq)
  · exact .of_eq (Table.foldl_replace_eq _ _ (fun g hg => VlanGroup.reread_eq (h.groups g hg).1)
      fun g hg => hstray (.vlanGroup g) hg)
  · refine .of_eq (Table.foldl_replace_eq _ _ (fun r hr => ?_) fun r hr => hstray (.stream r) hr)
    obtain ⟨hname, hprio, hcomment, -⟩ := h.streams r hr
    exact StreamRow.reread_eq hname hprio hcomment
  · rw [hmembers, List.nil_append]
    exact flatMap_restoredMembers_perm hdb h hfits

theorem has_of_perm {ρ κ : Type} [PrimaryKey ρ κ] {t u : Table ρ} {k : κ}
    (h : t.rows.Perm u.rows) (hk : t.Has k) : u.Has k := by
  obtain ⟨r, hr, hkey⟩ := hk
  exact ⟨r, h.mem_iff.mp hr, hkey⟩

theorem SameRows.hasKeyOf {a b : Db} (h : SameRows a b) {r : RestoreRow} (hr : a.HasKeyOf r) :
    b.HasKeyOf r := by
  cases r with
  | qos r => exact has_of_perm h.1 hr
  | vlanGroup r => exact has_of_perm h.2.1 hr
  | stream r => exact has_of_perm h.2.2.1 hr
  | _ => trivial

/-- Rows that come back are of the shape that every restored row has. -/
theorem readable_of_sameRows {text : CStr}
    (h : SameRows (insertRows (wipe later .empty) (readRows .empty text)) db) :
    (∀ q ∈ db.qosConfigs.rows, RestoreRow.Shaped (.qos q)) ∧
    (∀ g ∈ db.vlanGroups.rows, RestoreRow.Shaped (.vlanGroup g)) ∧
    (∀ r ∈ db.tsnStreams.rows, RestoreRow.Shaped (.stream r)) ∧
    (∀ m ∈ db.tsnStreamMembers, RestoreRow.Shaped (.streamMember m)) := by
  obtain ⟨hqos, hgroups, hstreams, hmembers⟩ := h
  exact ⟨fun q hq => shaped_of_hasRow (hqos.mem_iff.mpr hq),
    fun g hg => shaped_of_hasRow (hgroups.mem_iff.mpr hg),
    fun r hr => shaped_of_hasRow (hstreams.mem_iff.mpr hr),
    fun m hm => shaped_of_hasRow (hmembers.mem_iff.mpr hm)⟩

/-- A stream whose members come back has at most one wildcard row. -/
theorem wildcards_of_sameRows (hdb : db.Constraints) (hdevices : later.devices = db.devices)
    (h : SameRows
      (insertRows (insertRows (wipe later .empty) (strayRows db)) (restoredRows db)) db)
    {r : StreamRow} (hr : r ∈ db.tsnStreams.rows) :
    (wildcardRows db r.streamId.chars).length ≤ 1 := by
  have hlinked := insertRows_linked (wipe_global_linked later) (strayRows db)
  have hsame : (insertRows (wipe later .empty) (strayRows db)).devices = db.devices :=
    (insertRows_devices _ _).trans hdevices
  rw [insertRows_restoredRows hdb hlinked hsame] at h
  have hperm := ((h.2.2.2.filter fun m =>
    decide (m.streamId.chars = r.streamId.chars)).filter StreamMember.isWildcard).length_eq
  have hold : ((insertRows (wipe later .empty) (strayRows db)).tsnStreamMembers.filter fun m =>
      outside (db.tsnStreams.rows.map PrimaryKey.key) m.streamId.chars).filter
        (fun m => decide (m.streamId.chars = r.streamId.chars)) = [] := by
    rw [List.filter_eq_nil_iff]
    intro m hm
    have hout := outside_eq_true.mp (List.mem_filter.mp hm).2
    simp only [decide_eq_true_eq]
    exact fun heq => hout (heq ▸ List.mem_map_of_mem hr)
  have hown : (db.tsnStreams.rows.flatMap (restoredMembers db)).filter
      (fun m => decide (m.streamId.chars = r.streamId.chars)) = restoredMembers db r :=
    filter_flatMap_key db.tsnStreams.pk
      (fun r _ m hm => congrArg Buf.chars (mem_restoredMembers_streamId hm)) hr
  rw [List.filter_append, hold, hown, List.nil_append] at hperm
  unfold wildcardRows
  rw [← hperm]
  exact length_wildcards_restoredMembers db r

/-- A rollback restores the rows of the four tables exactly when what is not
printed of them can be derived from what is. -/
theorem rollback_restores_rows_iff (db later : Db) (now : Int64) (name : CStr)
    (scope : Option CStr) (hscope : scope.getD [] = []) (hdb : db.Constraints)
    (hids : IdsDelimFree db) (hfits : (serializeGlobal db).length ≤ 4095)
    (hedit : EditedSince (cfgVerSnapshot true db now name scope).2 later) :
    (cfgVerRollback .healthy later (nextVersionId db)).1 = .ok ∧
      (SameRows (cfgVerRollback .healthy later (nextVersionId db)).2 db ↔ Restorable db) := by
  have hdevices : later.devices = db.devices :=
    hedit.devices.trans (cfgVerSnapshot_devices db now name scope)
  have hroll := cfgVerRollback_global hscope hedit
  refine ⟨by rw [hroll], ?_⟩
  constructor
  · intro hsame
    rw [hroll] at hsame
    obtain ⟨hqos, hgroups, hstreams, hmembers⟩ := readable_of_sameRows hsame
    have hread : Readable db :=
      ⟨fun g hg => (hgroups g hg).2, fun r hr => (hstreams r hr).2.2.2,
        fun m hm _ => (hmembers m hm).2.2, fun q hq => (hqos q hq).2⟩
    -- From here on it is known which rows the payload reads as.
    have huncut := cfgVerRollback_uncut hscope hdb hids hread hfits hedit
    rw [← congrArg Prod.snd hroll, huncut] at hsame
    refine ⟨hqos, hgroups, hstreams, fun m hm => ⟨(hmembers m hm).1, (hmembers m hm).2.2⟩,
      fun r hr => wildcards_of_sameRows hdb hdevices hsame hr, fun r hr hacc => ?_⟩
    have hwiped : (wipe later .empty).devices = db.devices := hdevices
    have hkey := @hasKeyOf_insertRows (wipe later .empty) (strayRows db) r
      (Or.inr ⟨hr, (accepts_congr hwiped r).mpr hacc⟩)
    exact hsame.hasKeyOf (hasKeyOf_insertRows (Or.inl hkey))
  · intro hrest
    rw [cfgVerRollback_uncut hscope hdb hids hrest.readable hfits hedit]
    exact sameRows_of_restorable hdb hdevices hfits hrest

end Iff

/-- One device with a qos row of the given priority and traffic class. -/
def qosSnapshot (priority trafficClass : Int32) : Db :=
  (dbQosSave .empty ⟨Buf.copy 256 "d1".toList, priority, trafficClass, 1000, 5, 0⟩).2

/-- The version of `qosSnapshot`, after the row was written again. -/
def qosEdited (priority trafficClass : Int32) : Db :=
  (dbQosSave (cfgVerSnapshot true (qosSnapshot priority trafficClass) 0 "v2".toList none).2
    ⟨Buf.copy 256 "d1".toList, 7, 7, 1000, 5, 0⟩).2

theorem qosSnapshot_restorable : Restorable (qosSnapshot 5 5) where
  qos := by decide
  groups := by decide
  streams := by decide
  members := by decide
  wildcards := by decide
  strays := by decide +kernel

theorem rollback_restores_equal_class :
    SameRows (cfgVerRollback .healthy (qosEdited 5 5) 1).2 (qosSnapshot 5 5) :=
  (rollback_restores_rows_iff (qosSnapshot 5 5) (qosEdited 5 5) 0 "v2".toList none rfl
    ⟨by decide, by decide, by decide, by decide, by decide, by decide⟩
    ⟨by decide, by decide, by decide, by decide, by decide, by decide⟩ (by decide +kernel)
    ⟨by decide, fun _ h => h⟩).2.mpr qosSnapshot_restorable

/-- A traffic class that differs from the priority does not come back. -/
theorem rollback_changes_traffic_class :
    ¬ ∀ (db later : Db) (now : Int64) (name : CStr) (scope : Option CStr),
      scope.getD [] = [] → db.Constraints → IdsDelimFree db →
      (serializeGlobal db).length ≤ 4095 →
      EditedSince (cfgVerSnapshot true db now name scope).2 later →
      (cfgVerRollback .healthy later (nextVersionId db)).1 = .ok →
      SameRows (cfgVerRollback .healthy later (nextVersionId db)).2 db := by
  intro hclaim
  have hsame := hclaim (qosSnapshot 5 3) (qosEdited 5 3) 0 "v2".toList none rfl
    ⟨by decide, by decide, by decide, by decide, by decide, by decide⟩
    ⟨by decide, by decide, by decide, by decide, by decide, by decide⟩ (by decide +kernel)
    ⟨by decide, fun _ h => h⟩ (by decide +kernel)
  have hqos := hsame.1
  revert hqos
  decide +kernel

end Htsn
