import WirelessTsn.ConfigVersion.Tables

/-!
What the restore loop reads from a global payload that was not cut, and the
tables it leaves when nothing fails. The entry of a device is skipped, but a
domain may hold blanks, and then each of its words is a token like any other.
Every other entry is one token, read as the row it was printed from with the
columns that are not printed derived from those that are.
-/

namespace Htsn

open CText Keyed

/-- The ids that the entries of a payload carry contain no delimiter. -/
structure IdsDelimFree (db : Db) : Prop where
  devices : ∀ r ∈ db.devices.rows, DelimFree r.id.chars
  groups : ∀ g ∈ db.vlanGroups.rows, DelimFree g.id.chars
  members : ∀ m ∈ db.vlanMembers, DelimFree m.groupId.chars ∧ DelimFree m.deviceId.chars
  streams : ∀ r ∈ db.tsnStreams.rows, DelimFree r.streamId.chars ∧ DelimFree r.talker.chars
  listeners : ∀ m ∈ db.tsnStreamMembers, m.role = .listener → DelimFree m.deviceId.chars
  schedules : ∀ t ∈ db.tasSchedules.rows, DelimFree t.id.chars

section Reading

/-- An entry that the tokenizer does not break up. -/
def Unbroken (l : List Field) : Prop := ∀ f ∈ l, f.Lacks ' '

theorem strtok_unbroken {l : List Field} (h : Unbroken l) (hne : renderLine l ≠ []) :
    strtok ' ' (renderLine l) = [renderLine l] :=
  strtok_word hne (not_mem_renderLine (by decide) (by decide) h)

theorem vlanLine_unbroken {id : CStr} (h : DelimFree id) (v : Int32) :
    Unbroken (vlanLine id v) := by
  intro f hf
  fin_cases hf
  all_goals first | exact h.1 | exact trivial | exact show ' ' ∉ _ by decide

theorem vmemLine_unbroken {g d : CStr} (hg : DelimFree g) (hd : DelimFree d) :
    Unbroken (vmemLine g d) := by
  intro f hf
  fin_cases hf
  all_goals first | exact hg.1 | exact hd.1 | exact show ' ' ∉ _ by decide

theorem streamLine_unbroken {r : StreamRow} (hid : DelimFree r.streamId.chars)
    (htalker : DelimFree r.talker.chars) : Unbroken (streamLine r) := by
  intro f hf
  fin_cases hf
  all_goals first | exact hid.1 | exact htalker.1 | exact trivial | exact show ' ' ∉ _ by decide

theorem streammemLine_unbroken {s d : CStr} (hs : DelimFree s) (hd : DelimFree d) :
    Unbroken (streammemLine s d) := by
  intro f hf
  fin_cases hf
  all_goals first | exact hs.1 | exact hd.1 | exact show ' ' ∉ _ by decide

theorem qosLine_unbroken {id : CStr} (h : DelimFree id) (q : QosConfig) :
    Unbroken (qosLine id q) := by
  intro f hf
  fin_cases hf
  all_goals first | exact h.1 | exact trivial | exact show ' ' ∉ _ by decide

theorem preLine_unbroken : Unbroken preLine := by
  intro f hf
  fin_cases hf
  all_goals exact show ' ' ∉ _ by decide

/-- A loaded listener has an explicit row. -/
theorem exists_row_of_mem_listeners {db : Db} {r : StreamRow} {l : Str}
    (h : l ∈ (streamOfRow db r).listeners.items) :
    ∃ m ∈ db.tsnStreamMembers, m.role = .listener ∧ m.deviceId = l ∧
      l.chars ≠ allListeners := by
  have hmem : l ∈ (loadMembers db r.streamId.chars).1.items := h
  rw [loadMembers_items] at hmem
  obtain ⟨m, hm, rfl⟩ := List.mem_map.mp (List.mem_of_mem_take hmem)
  obtain ⟨hm, hexplicit⟩ := List.mem_filter.mp hm
  simp only [StreamMember.isExplicit, Bool.and_eq_true, decide_eq_true_eq, Bool.not_eq_true',
    decide_eq_false_iff_not] at hexplicit
  exact ⟨m, List.mem_of_mem_filter hm, hexplicit.1, rfl, hexplicit.2⟩

theorem allListeners_carried : Carried allListeners := by decide

/-- Every entry behind the devices is one token. -/
theorem configLines_unbroken {db : Db} (hdb : db.Constraints) (hids : IdsDelimFree db) :
    ∀ l ∈ configLines db, Unbroken l ∧ renderLine l ≠ [] := by
  intro l hl
  rw [configLines_eq] at hl
  simp only [List.mem_append, List.mem_map, List.mem_flatMap, List.mem_singleton] at hl
  rcases hl with (((⟨g, hg, rfl⟩ | ⟨m, hm, rfl⟩) | ⟨s, ⟨r, hr, rfl⟩, hs⟩) | ⟨q, hq, rfl⟩) | rfl
  · exact ⟨vlanLine_unbroken (hids.groups g hg) _, List.cons_ne_nil _ _⟩
  · exact ⟨vmemLine_unbroken (hids.members m hm).1 (hids.members m hm).2, List.cons_ne_nil _ _⟩
  · obtain ⟨hid, htalker⟩ := hids.streams r hr
    rcases List.mem_cons.mp hs with rfl | hs
    · exact ⟨streamLine_unbroken hid htalker, List.cons_ne_nil _ _⟩
    · rcases List.mem_append.mp hs with hs | hs
      · obtain ⟨l, hl, rfl⟩ := List.mem_map.mp hs
        obtain ⟨m, hm, hrole, rfl, -⟩ := exists_row_of_mem_listeners hl
        exact ⟨streammemLine_unbroken hid (hids.listeners m hm hrole), List.cons_ne_nil _ _⟩
      · split at hs
        · rw [List.mem_singleton] at hs
          rw [hs]
          exact ⟨streammemLine_unbroken hid allListeners_carried.2, List.cons_ne_nil _ _⟩
        · simp at hs
  · obtain ⟨d, hd, hkey⟩ := hdb.qos q hq
    have hfree : DelimFree q.deviceId.chars := hkey ▸ hids.devices d hd
    exact ⟨qosLine_unbroken hfree q, List.cons_ne_nil _ _⟩
  · exact ⟨preLine_unbroken, List.cons_ne_nil _ _⟩

theorem strtok_linesText (ls : List (List Field)) :
    strtok ' ' (linesText ls) = ls.flatMap fun l => strtok ' ' (renderLine l) := by
  rw [linesText, strtok_flatten, List.flatMap_map]

theorem strtok_linesText_unbroken {ls : List (List Field)}
    (h : ∀ l ∈ ls, Unbroken l ∧ renderLine l ≠ []) :
    strtok ' ' (linesText ls) = ls.map renderLine := by
  rw [strtok_linesText]
  induction ls with
  | nil => rfl
  | cons l ls ih =>
      obtain ⟨hun, hne⟩ := h l (by simp)
      rw [List.flatMap_cons, strtok_unbroken hun hne, ih fun l' hl' => h l' (by simp [hl'])]
      rfl

/-- Two runs of entries are read one after the other. -/
theorem readRows_linesText_append (dev : Str) (as bs : List (List Field)) :
    readRows dev (linesText (as ++ bs)) =
      readRows dev (linesText as) ++ readRows dev (linesText bs) := by
  simp [readRows, strtok_linesText, List.filterMap_append]

/-- The memberships that are read back. -/
def readMembers (db : Db) : List VlanMember :=
  db.vlanMembers.filterMap fun m =>
    match tokenVmem (renderLine (vmemLine m.groupId.chars m.deviceId.chars)) with
    | some (.vlanMember m') => some m'
    | _ => none

/-- The member rows printed for a stream. -/
def restoredMembers (db : Db) (r : StreamRow) : List StreamMember :=
  membersOf r.streamId (loadMembers db r.streamId.chars).1.items
    (loadMembers db r.streamId.chars).2

/-- The rows that the entries behind the devices are read as. -/
def restoredRows (db : Db) : List RestoreRow :=
  (db.vlanGroups.rows.map VlanGroup.reread).map .vlanGroup ++
  (readMembers db).map .vlanMember ++
  (db.tsnStreams.rows.map fun r => (r.reread, restoredMembers db r)).flatMap
    (fun b => streamBlock b.1 b.2) ++
  (db.qosConfigs.rows.map QosConfig.reread).map .qos

/-- The rows that the words of a device's domain are read as. -/
def strayRows (db : Db) : List RestoreRow :=
  readRows .empty (linesText ((dbDeviceForEach db).map deviceLine))

/-- What the entries need, besides ids without delimiters, to be read. -/
structure Readable (db : Db) : Prop where
  groups : ∀ g ∈ db.vlanGroups.rows, g.id.chars ≠ [] ∧ 0 < g.vlanId
  streams : ∀ r ∈ db.tsnStreams.rows, r.streamId.chars ≠ [] ∧ r.talker.chars ≠ []
  listeners : ∀ m ∈ db.tsnStreamMembers, m.role = .listener → m.deviceId.chars ≠ []
  qos : ∀ q ∈ db.qosConfigs.rows, q.deviceId.chars ≠ [] ∧ startsWithP q.deviceId.chars = false

variable {dev : Str}

theorem readRows_flatMap {α : Type} {f : α → List (List Field)} {g : α → List RestoreRow}
    (xs : List α) (h : ∀ x ∈ xs, readRows dev (linesText (f x)) = g x) :
    readRows dev (linesText (xs.flatMap f)) = xs.flatMap g := by
  induction xs with
  | nil => rfl
  | cons x xs ih =>
      rw [List.flatMap_cons, List.flatMap_cons, readRows_linesText_append, h x (by simp),
        ih fun y hy => h y (by simp [hy])]

theorem readRows_map {α : Type} {f : α → List Field} {g : α → RestoreRow} (xs : List α)
    (h : ∀ x ∈ xs, readRows dev (linesText [f x]) = [g x]) :
    readRows dev (linesText (xs.map f)) = xs.map g := by
  rw [List.map_eq_flatMap, List.map_eq_flatMap]
  exact readRows_flatMap xs h

/-- An entry that is one token is read as that token is. -/
theorem readRows_line {l : List Field} (hun : Unbroken l) (hne : renderLine l ≠ []) :
    readRows dev (linesText [l]) = (restoreToken dev (renderLine l)).toList := by
  rw [readRows, strtok_linesText_unbroken (by simpa using ⟨hun, hne⟩)]
  cases h : restoreToken dev (renderLine l) <;> simp [h]

theorem readRows_vlanLines {gs : List VlanGroup}
    (h : ∀ g ∈ gs, Carried g.id.chars ∧ 0 < g.vlanId) :
    readRows dev (linesText (gs.map fun g => vlanLine g.id.chars g.vlanId)) =
      (gs.map VlanGroup.reread).map .vlanGroup := by
  rw [List.map_map]
  apply readRows_map
  intro g hg
  obtain ⟨hid, hpos⟩ := h g hg
  rw [readRows_line (vlanLine_unbroken hid.2 _) (List.cons_ne_nil _ _),
    restoreToken_vlanLine dev g hid hpos]
  rfl

theorem readRows_qosLines {qs : List QosConfig}
    (h : ∀ q ∈ qs, Carried q.deviceId.chars ∧ startsWithP q.deviceId.chars = false) :
    readRows dev (linesText (qs.map fun q => qosLine q.deviceId.chars q)) =
      (qs.map QosConfig.reread).map .qos := by
  rw [List.map_map]
  apply readRows_map
  intro q hq
  obtain ⟨hid, hp⟩ := h q hq
  rw [readRows_line (qosLine_unbroken hid.2 q) (List.cons_ne_nil _ _),
    restoreToken_qosLine dev q hid hp]
  rfl

private theorem tokenVmem_eq (tok : CStr) :
    tokenVmem tok = (match tokenVmem tok with
      | some (.vlanMember m) => some m
      | _ => none).map .vlanMember := by
  simp only [tokenVmem]
  split <;> rfl

theorem readRows_vmemLines {db : Db} (h : IdsDelimFree db) :
    readRows dev (linesText (db.vlanMembers.map fun m =>
      vmemLine m.groupId.chars m.deviceId.chars)) = (readMembers db).map .vlanMember := by
  have hlines : ∀ l ∈ db.vlanMembers.map (fun m => vmemLine m.groupId.chars m.deviceId.chars),
      Unbroken l ∧ renderLine l ≠ [] := by
    intro l hl
    obtain ⟨m, hm, rfl⟩ := List.mem_map.mp hl
    exact ⟨vmemLine_unbroken (h.members m hm).1 (h.members m hm).2, List.cons_ne_nil _ _⟩
  rw [readRows, strtok_linesText_unbroken hlines, List.map_map, List.filterMap_map, readMembers,
    List.map_filterMap]
  apply List.filterMap_congr
  intro m _
  exact (restoreToken_vmem (List.prefix_refl _)).trans (tokenVmem_eq _)

theorem readRows_streammemLine {sid l : Str} (hs : Carried sid.chars) (hl : Carried l.chars) :
    readRows dev (linesText [streammemLine sid.chars l.chars]) =
      [.streamMember ⟨sid, .listener, l⟩] := by
  rw [readRows_line (streammemLine_unbroken hs.2 hl.2) (List.cons_ne_nil _ _),
    restoreToken_streammemLine dev sid l hs hl]
  rfl

theorem readRows_streamLines {db : Db} (hids : IdsDelimFree db) (hread : Readable db)
    {r : StreamRow} (hr : r ∈ db.tsnStreams.rows) :
    readRows dev (linesText (streamLines (streamOfRow db r))) =
      streamBlock r.reread (restoredMembers db r) := by
  have hid : Carried r.streamId.chars := ⟨(hread.streams r hr).1, (hids.streams r hr).1⟩
  have htalker : Carried r.talker.chars := ⟨(hread.streams r hr).2, (hids.streams r hr).2⟩
  have hrow : readRows dev (linesText [streamLine r]) = [.stream r.reread] := by
    rw [readRows_line (streamLine_unbroken hid.2 htalker.2) (List.cons_ne_nil _ _),
      restoreToken_streamLine dev r hid htalker]
    rfl
  have hlisteners : readRows dev (linesText ((streamOfRow db r).listeners.items.map
      fun l => streammemLine r.streamId.chars l.chars)) =
      (streamOfRow db r).listeners.items.map fun l =>
        .streamMember ⟨r.streamId, .listener, l⟩ := by
    apply readRows_map
    intro l hl
    obtain ⟨m, hm, hrole, rfl, -⟩ := exists_row_of_mem_listeners hl
    exact readRows_streammemLine hid ⟨hread.listeners m hm hrole, hids.listeners m hm hrole⟩
  have hall : Carried allListenersId.chars := allListenersId_chars ▸ allListeners_carried
  have hwild : readRows dev (linesText [streammemLine r.streamId.chars allListeners]) =
      [.streamMember ⟨r.streamId, .listener, allListenersId⟩] := by
    rw [← allListenersId_chars]
    exact readRows_streammemLine hid hall
  have hsplit : streamLines (streamOfRow db r) = [streamLine r] ++
      ((streamOfRow db r).listeners.items.map (fun l => streammemLine r.streamId.chars l.chars) ++
        if (streamOfRow db r).listenerAll then [streammemLine r.streamId.chars allListeners]
        else []) := rfl
  rw [hsplit, readRows_linesText_append, readRows_linesText_append, hrow, hlisteners]
  unfold restoredMembers membersOf streamBlock
  rw [List.map_append, List.map_map]
  refine congrArg (fun rows => [RestoreRow.stream r.reread] ++ (_ ++ rows)) ?_
  show readRows dev (linesText (if (loadMembers db r.streamId.chars).2 = true then _ else _)) = _
  split
  · exact hwild
  · rfl

/-- Behind the devices, every entry of an uncut payload is read. -/
theorem readRows_configLines {db : Db} (hdb : db.Constraints) (hids : IdsDelimFree db)
    (hread : Readable db) : readRows dev (linesText (configLines db)) = restoredRows db := by
  have hgroups := @readRows_vlanLines dev db.vlanGroups.rows fun g hg =>
    ⟨⟨(hread.groups g hg).1, hids.groups g hg⟩, (hread.groups g hg).2⟩
  have hstreams : readRows dev
      (linesText ((db.tsnStreams.rows.map (streamOfRow db)).flatMap streamLines)) =
      (db.tsnStreams.rows.map fun r => (r.reread, restoredMembers db r)).flatMap
        fun b => streamBlock b.1 b.2 := by
    rw [List.flatMap_map, List.flatMap_map]
    exact readRows_flatMap _ fun r hr => readRows_streamLines hids hread hr
  have hqos := @readRows_qosLines dev db.qosConfigs.rows fun q hq => by
    obtain ⟨d, hd, hkey⟩ := hdb.qos q hq
    have hfree : DelimFree q.deviceId.chars := hkey ▸ hids.devices d hd
    exact ⟨⟨(hread.qos q hq).1, hfree⟩, (hread.qos q hq).2⟩
  have hpre : readRows dev (linesText [preLine]) = [] := by
    rw [readRows_line preLine_unbroken (List.cons_ne_nil _ _),
      restoreToken_preLine dev (List.prefix_refl _)]
    rfl
  rw [configLines_eq]
  simp only [readRows_linesText_append, hgroups, readRows_vmemLines hids, hstreams, hqos, hpre,
    List.append_nil]
  rfl

theorem readRows_globalLines {db : Db} (hdb : db.Constraints) (hids : IdsDelimFree db)
    (hread : Readable db) :
    readRows .empty (linesText (globalLines db)) = strayRows db ++ restoredRows db := by
  rw [globalLines, readRows_linesText_append, readRows_configLines hdb hids hread]
  rfl

/-- A database whose entries can be read back: ids that are not empty and
contain no delimiter, positive VLAN ids and valid streams. -/
structure Printable (db : Db) : Prop where
  devices : ∀ r ∈ db.devices.rows, Carried r.id.chars ∧ startsWithP r.id.chars = false
  groups : ∀ g ∈ db.vlanGroups.rows, Carried g.id.chars ∧ 0 < g.vlanId
  members : ∀ m ∈ db.vlanMembers, Carried m.groupId.chars ∧ Carried m.deviceId.chars
  streams : ∀ r ∈ db.tsnStreams.rows, Carried r.streamId.chars ∧ Carried r.talker.chars
  listeners : ∀ m ∈ db.tsnStreamMembers, m.role = .listener → Carried m.deviceId.chars
  schedules : ∀ t ∈ db.tasSchedules.rows, Carried t.id.chars
  valid : ∀ s ∈ dbTsnForEach db, streamValidate s = .ok ∧ statusChecked s.status

theorem Printable.idsDelimFree {db : Db} (h : Printable db) : IdsDelimFree db where
  devices := fun r hr => (h.devices r hr).1.2
  groups := fun g hg => (h.groups g hg).1.2
  members := fun m hm => ⟨(h.members m hm).1.2, (h.members m hm).2.2⟩
  streams := fun r hr => ⟨(h.streams r hr).1.2, (h.streams r hr).2.2⟩
  listeners := fun m hm hrole => (h.listeners m hm hrole).2
  schedules := fun t ht => (h.schedules t ht).2

theorem Printable.readable {db : Db} (h : Printable db) (hdb : db.Constraints) :
    Readable db where
  groups := fun g hg => ⟨(h.groups g hg).1.1, (h.groups g hg).2⟩
  streams := fun r hr => ⟨(h.streams r hr).1.1, (h.streams r hr).2.1⟩
  listeners := fun m hm hrole => (h.listeners m hm hrole).1
  qos := by
    intro q hq
    obtain ⟨d, hd, hkey⟩ := hdb.qos q hq
    have hid : d.id.chars = q.deviceId.chars := hkey
    rw [← hid]
    exact ⟨(h.devices d hd).1.1, (h.devices d hd).2⟩

/-- Memberships have no columns besides the printed ones. -/
theorem Printable.readMembers_eq {db : Db} (h : Printable db) : readMembers db = db.vlanMembers := by
  unfold readMembers
  rw [← List.filterMap_some (l := db.vlanMembers), List.filterMap_filterMap]
  apply List.filterMap_congr
  intro m hm
  obtain ⟨hg, hd⟩ := h.members m hm
  have htok := restoreToken_vmemLine .empty m hg hd
  rw [restoreToken_vmem (List.prefix_refl _)] at htok
  simp [htok]

end Reading

section Restored

/-- The tables in which a rollback finds itself: since the snapshot the devices
are the same and the version is still stored, all else may have been edited. -/
structure EditedSince (snap later : Db) : Prop where
  devices : later.devices = snap.devices
  versions : ∀ v ∈ snap.configVersions.rows, v ∈ later.configVersions.rows

theorem cfgVerSnapshot_devices (db : Db) (now : Int64) (name : CStr) (scope : Option CStr) :
    (cfgVerSnapshot true db now name scope).2.devices = db.devices := by
  simp [cfgVerSnapshot, dbConfigVersionAdd, Sql.namesIndex]

/-- A version for no device has all tables for its scope. -/
theorem serializeScope_global {scope : Option CStr} (h : scope.getD [] = []) (db : Db) :
    serializeScope db scope = serializeGlobal db := by
  cases scope with
  | none => rfl
  | some d =>
      have hd : d = [] := h
      simp [serializeScope, hd]

/-- The version that a global snapshot stores is found later. -/
theorem find_cfgVerSnapshot {db later : Db} {now : Int64} {name : CStr} {scope : Option CStr}
    (hscope : scope.getD [] = [])
    (hedit : EditedSince (cfgVerSnapshot true db now name scope).2 later) :
    later.configVersions.find (nextVersionId db) =
      some ⟨nextVersionId db, name, [], now, serializeGlobal db⟩ := by
  refine later.configVersions.find_eq_some.mpr ⟨hedit.versions _ ?_, rfl⟩
  have hadd : (cfgVerSnapshot true db now name scope).2 =
      (dbConfigVersionAdd db now name (scope.getD []) (serializeScope db scope)).2 := rfl
  rw [hadd, dbConfigVersionAdd_rows, hscope, serializeScope_global hscope]
  simp

/-- A rollback of a global snapshot reads what fits the payload field. -/
theorem cfgVerRollback_global {db later : Db} {now : Int64} {name : CStr} {scope : Option CStr}
    (hscope : scope.getD [] = [])
    (hedit : EditedSince (cfgVerSnapshot true db now name scope).2 later) :
    cfgVerRollback .healthy later (nextVersionId db) =
      (.ok, insertRows (wipe later .empty)
        (readRows .empty ((serializeGlobal db).take 4095))) :=
  cfgVerRollback_healthy (find_cfgVerSnapshot hscope hedit)

/-- A payload that the field holds is the printed text. -/
theorem serializeGlobal_of_length_le {db : Db} (h : (serializeGlobal db).length ≤ 4095) :
    serializeGlobal db = linesText (globalLines db) := by
  rw [serializeGlobal, printLines_eq] at h ⊢
  rw [List.length_take] at h
  apply List.take_of_length_le
  unfold cfgPayloadMax at h ⊢
  omega

/-- The rollback of an uncut payload. -/
theorem cfgVerRollback_uncut {db later : Db} {now : Int64} {name : CStr} {scope : Option CStr}
    (hscope : scope.getD [] = []) (hdb : db.Constraints) (hids : IdsDelimFree db)
    (hread : Readable db) (hfits : (serializeGlobal db).length ≤ 4095)
    (hedit : EditedSince (cfgVerSnapshot true db now name scope).2 later) :
    cfgVerRollback .healthy later (nextVersionId db) =
      (.ok, insertRows (insertRows (wipe later .empty) (strayRows db)) (restoredRows db)) := by
  have htext := serializeGlobal_of_length_le hfits
  have htake : (serializeGlobal db).take 4095 = linesText (globalLines db) := by
    rw [List.take_of_length_le hfits, htext]
  rw [cfgVerRollback_global hscope hedit, htake, readRows_globalLines hdb hids hread,
    insertRows_append]

theorem wipe_global (db : Db) :
    wipe db .empty =
      { db with
        qosConfigs := .empty
        vlanMembers := []
        vlanGroups := .empty
        tsnStreams := .empty
        tsnStreamMembers := []
        tasSchedules := .empty
        gclEntries := [] } := rfl

theorem wipe_global_linked (db : Db) : (wipe db .empty).Linked :=
  ⟨by simp [wipe_global], by simp [wipe_global]⟩

theorem not_hasRow_wipe_global (db : Db) (r : RestoreRow) : ¬ (wipe db .empty).HasRow r := by
  cases r <;> simp [wipe_global, Db.HasRow]

/-- A row that appears is one that some token was read as. -/
theorem shaped_of_hasRow {later : Db} {text : CStr} {r : RestoreRow}
    (h : (insertRows (wipe later .empty) (readRows .empty text)).HasRow r) : r.Shaped := by
  rcases hasRow_of_insertRows (wipe_global_linked later) h with hold | ⟨hmem, -⟩
  · exact absurd hold (not_hasRow_wipe_global later r)
  · obtain ⟨tok, -, htok⟩ := List.mem_filterMap.mp hmem
    exact restoreToken_shaped rfl htok

theorem mem_restoredMembers_streamId {db : Db} {r : StreamRow} {m : StreamMember}
    (h : m ∈ restoredMembers db r) : m.streamId = r.streamId := by
  rcases List.mem_append.mp h with h | h
  · obtain ⟨l, -, rfl⟩ := List.mem_map.mp h
    rfl
  · split at h
    · rw [List.mem_singleton] at h
      rw [h]
    · simp at h

/-- What the rows of an uncut payload leave in tables that are linked. -/
theorem insertRows_restoredRows {db tables : Db} (hdb : db.Constraints) (hl : tables.Linked)
    (hdevices : tables.devices = db.devices) :
    insertRows tables (restoredRows db) =
      { tables with
        vlanGroups := (db.vlanGroups.rows.map VlanGroup.reread).foldl Table.replace
          tables.vlanGroups
        vlanMembers := tables.vlanMembers ++ readMembers db
        tsnStreams := (db.tsnStreams.rows.map StreamRow.reread).foldl Table.replace
          tables.tsnStreams
        tsnStreamMembers :=
          (tables.tsnStreamMembers.filter fun m =>
            outside (db.tsnStreams.rows.map PrimaryKey.key) m.streamId.chars) ++
              db.tsnStreams.rows.flatMap (restoredMembers db)
        qosConfigs := (db.qosConfigs.rows.map QosConfig.reread).foldl Table.replace
          tables.qosConfigs } := by
  have hkeys : ((db.tsnStreams.rows.map fun r => (r.reread, restoredMembers db r)).map
      fun b => b.1.streamId.chars) = db.tsnStreams.rows.map PrimaryKey.key := by
    rw [List.map_map]
    rfl
  have hblocks := fun (tables : Db) (hl : tables.Linked) =>
    insertRows_streamBlocks hl (db.tsnStreams.rows.map fun r => (r.reread, restoredMembers db r))
      (hkeys ▸ db.tsnStreams.pk)
      (by
        intro b hb
        obtain ⟨r, hr, rfl⟩ := List.mem_map.mp hb
        exact hdb.status r hr)
      (by
        intro b hb m hm
        obtain ⟨r, hr, rfl⟩ := List.mem_map.mp hb
        exact mem_restoredMembers_streamId hm)
  have hqos : ∀ q ∈ db.qosConfigs.rows.map QosConfig.reread,
      tables.devices.Has q.deviceId.chars := by
    intro q hq
    obtain ⟨q, hmem, rfl⟩ := List.mem_map.mp hq
    rw [hdevices]
    exact hdb.qos q hmem
  rw [restoredRows, insertRows_append, insertRows_append, insertRows_append,
    insertRows_vlanGroups, insertRows_vlanMembers, hblocks, insertRows_qos, hkeys, List.map_map,
    List.flatMap_map]
  · rfl
  · exact hqos
  · exact ⟨hl.members, hl.gcl⟩

end Restored

end Htsn
