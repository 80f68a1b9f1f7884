import WirelessTsn.ConfigVersion.Grammar

/-!
Whether a rollback is all or nothing. The tables are wiped before the buffer
is allocated, the version is read through a field of 4096 bytes, and no INSERT
is checked, so a rollback that reports success may have lost rows and one that
reports an error has lost them all. What a version records is what was printed
into it; which rows are there in the end `KeptBy` says, in terms of the tables
before the rollback and of the rows that the words of the version ask for.
-/

namespace Htsn

open CText Keyed

/-- The entries of a version for the scope. -/
def scopeLines (db : Db) : Option CStr → List (List Field)
  | some d => if d = [] then globalLines db else deviceLines db d
  | none => globalLines db

theorem serializeScope_eq (db : Db) (scope : Option CStr) :
    serializeScope db scope = printLines (scopeLines db scope) := by
  cases scope with
  | none => rfl
  | some d =>
      unfold serializeScope scopeLines
      dsimp only
      split <;> rfl

/-- The entry that is printed for a row. A traffic class, a name, a comment and
the role of a member are not printed. -/
def RestoreRow.line : RestoreRow → List Field
  | .qos q => qosLine q.deviceId.chars q
  | .vlanGroup g => vlanLine g.id.chars g.vlanId
  | .vlanMember m => vmemLine m.groupId.chars m.deviceId.chars
  | .stream r => streamLine r
  | .streamMember m => streammemLine m.streamId.chars m.deviceId.chars
  | .tas t =>
      [.lit tasTag, .word t.id.chars, .lit ":cycle=".toList, .llong t.cycleTimeNs,
        .lit ":tgt=".toList, .word t.deployTarget.chars]
  | .gcl g =>
      [.lit gclTag, .word g.scheduleId.chars, .lit ":".toList, .int g.index, .lit ":".toList,
        .int g.gateState, .lit ":".toList, .llong g.durationNs]

/-- The version that was made of the tables `saved` records the entry: it is
one of a row, and the buffer holds it whole. -/
def Records (saved : Db) (scope : Option CStr) (l : List Field) : Prop :=
  (∃ r : RestoreRow, r.line = l) ∧
    ∃ front back, scopeLines saved scope = front ++ l :: back ∧
      (linesText front).length + (renderLine l).length < cfgPayloadMax

/-- There is a row with the entry's values. -/
def Db.HoldsEntry (db : Db) (l : List Field) : Prop := ∃ r : RestoreRow, r.line = l ∧ db.HasRow r

section Kept

/-- A rollback for the device deletes the row. -/
def RestoreRow.OfDevice (dev : Str) : RestoreRow → Prop
  | .qos q => q.deviceId.chars = dev.chars
  | .vlanMember m => m.deviceId.chars = dev.chars
  | .streamMember m => m.deviceId.chars = dev.chars
  | _ => False

/-- The row is there and outside the scope of the rollback. -/
def Spared (db : Db) (dev : Str) (r : RestoreRow) : Prop :=
  dev.chars ≠ [] ∧ db.HasRow r ∧ ¬ r.OfDevice dev

/-- The INSERT `a`, tried behind those in `before`, is accepted. A qos row
needs its device and a member its stream; the statement of a gate entry does
not prepare. -/
def AcceptedAfter (db : Db) (dev : Str) (before : List (RestoreRow × Bool))
    (a : RestoreRow × Bool) : Prop :=
  a.2 = true ∧
    match a.1 with
    | .qos r => db.devices.Has r.deviceId.chars
    | .stream r => statusChecked r.status
    | .streamMember m => (dev.chars ≠ [] ∧ db.tsnStreams.Has m.streamId.chars) ∨
        ∃ s, (.stream s, true) ∈ before ∧ statusChecked s.status ∧
          s.streamId.chars = m.streamId.chars
    | .gcl _ => False
    | _ => True

/-- No accepted INSERT among the remaining ones evicts `r`. -/
def NotEvicted (db : Db) (dev : Str) (r : RestoreRow) :
    List (RestoreRow × Bool) → List (RestoreRow × Bool) → Prop
  | _, [] => True
  | before, a :: rest =>
      (AcceptedAfter db dev before a → ¬ a.1.Evicts r) ∧
        NotEvicted db dev r (before ++ [a]) rest

/-- The row was there and stays, or one of the INSERTs brings it and it stays
from then on. -/
def KeptBy (db : Db) (dev : Str) (as : List (RestoreRow × Bool)) (r : RestoreRow) : Prop :=
  (Spared db dev r ∧ NotEvicted db dev r [] as) ∨
    ∃ before rest, as = before ++ (r, true) :: rest ∧ AcceptedAfter db dev before (r, true) ∧
      NotEvicted db dev r (before ++ [(r, true)]) rest

theorem hasRow_wipe (db : Db) (dev : Str) (r : RestoreRow) :
    (wipe db dev).HasRow r ↔ Spared db dev r := by
  unfold wipe Spared
  by_cases hdev : dev.chars = []
  · rw [if_pos hdev]
    cases r <;> simp [Db.HasRow, hdev]
  · rw [if_neg hdev]
    cases r <;> simp [Db.HasRow, RestoreRow.OfDevice, hdev, Table.deleteWhere_rows]

theorem has_wipe_tsnStreams (db : Db) (dev : Str) (k : CStr) :
    (wipe db dev).tsnStreams.Has k ↔ dev.chars ≠ [] ∧ db.tsnStreams.Has k := by
  unfold wipe
  by_cases hdev : dev.chars = []
  · rw [if_pos hdev]
    simp [hdev, Table.Has, HasKey]
  · rw [if_neg hdev]
    simp [hdev]

/-- A stream is there after an INSERT if it was before or is the one inserted. -/
theorem has_insertRow_tsnStreams (db : Db) (a : RestoreRow × Bool) (k : CStr) :
    (db.insertRow a).tsnStreams.Has k ↔
      db.tsnStreams.Has k ∨
        ∃ s, a = (.stream s, true) ∧ statusChecked s.status ∧ s.streamId.chars = k := by
  obtain ⟨r, ok⟩ := a
  unfold Db.insertRow
  cases r with
  | stream r =>
      by_cases hacc : ok = true ∧ statusChecked r.status
      · have hadmits : (RestoreRow.stream r, ok).2 = true ∧
            db.Admits (RestoreRow.stream r, ok).1 := ⟨hacc.1, by simp [Sql.namesIndex], hacc.2⟩
        rw [if_pos hadmits]
        have hrep := has_replace db.tsnStreams r k
        simp only [Db.putRow, Db.replaceStream, hrep, Prod.mk.injEq, RestoreRow.stream.injEq]
        constructor
        · rintro (h | h)
          · exact Or.inl h
          · exact Or.inr ⟨r, ⟨rfl, hacc.1⟩, hacc.2, h⟩
        · rintro (h | ⟨s, ⟨rfl, -⟩, -, h⟩)
          · exact Or.inl h
          · exact Or.inr h
      · have hrefused : ¬ ((RestoreRow.stream r, ok).2 = true ∧
            db.Admits (RestoreRow.stream r, ok).1) := fun h => hacc ⟨h.1, h.2.2⟩
        rw [if_neg hrefused]
        constructor
        · exact Or.inl
        · rintro (h | ⟨s, heq, hs, -⟩)
          · exact h
          · obtain ⟨hrow, hok⟩ := Prod.mk.inj heq
            exact absurd ⟨hok, RestoreRow.stream.inj hrow ▸ hs⟩ hacc
  | _ =>
      have hsame : ∀ db' : Db, db'.tsnStreams = db.tsnStreams →
          (db'.tsnStreams.Has k ↔ db.tsnStreams.Has k) := fun db' h => by rw [h]
      simp only [Prod.mk.injEq, reduceCtorEq, false_and, exists_false, or_false]
      apply hsame
      split <;> rfl

theorem has_foldl_tsnStreams (as : List (RestoreRow × Bool)) (db : Db) (k : CStr) :
    (as.foldl Db.insertRow db).tsnStreams.Has k ↔
      db.tsnStreams.Has k ∨
        ∃ s, (.stream s, true) ∈ as ∧ statusChecked s.status ∧ s.streamId.chars = k := by
  induction as generalizing db with
  | nil => simp
  | cons a as ih =>
      rw [List.foldl_cons, ih, has_insertRow_tsnStreams, or_assoc]
      apply or_congr_right
      constructor
      · rintro (⟨s, rfl, hs⟩ | ⟨s, hmem, hs⟩)
        · exact ⟨s, by simp, hs⟩
        · exact ⟨s, by simp [hmem], hs⟩
      · rintro ⟨s, hmem, hs⟩
        rcases List.mem_cons.mp hmem with heq | hmem
        · exact Or.inl ⟨s, heq.symm, hs⟩
        · exact Or.inr ⟨s, hmem, hs⟩

/-- Whether a statement is accepted can be told from the INSERTs before it. -/
theorem acceptedAfter_iff (db : Db) (dev : Str) (before : List (RestoreRow × Bool))
    (a : RestoreRow × Bool) :
    (a.2 = true ∧ (before.foldl Db.insertRow (wipe db dev)).Admits a.1) ↔
      AcceptedAfter db dev before a := by
  obtain ⟨r, ok⟩ := a
  unfold AcceptedAfter
  apply and_congr_right
  intro _
  cases r with
  | qos r => simp [Db.Admits, Sql.namesIndex, foldl_insertRow_devices]
  | streamMember m =>
      simp [Db.Admits, Sql.namesIndex, has_foldl_tsnStreams, has_wipe_tsnStreams]
  | _ => simp [Db.Admits, Sql.namesIndex]

theorem notEvicted_snoc (db : Db) (dev : Str) (r : RestoreRow)
    (before as : List (RestoreRow × Bool)) (a : RestoreRow × Bool) :
    NotEvicted db dev r before (as ++ [a]) ↔
      NotEvicted db dev r before as ∧
        (AcceptedAfter db dev (before ++ as) a → ¬ a.1.Evicts r) := by
  induction as generalizing before with
  | nil => simp [NotEvicted]
  | cons b as ih => simp [NotEvicted, ih, and_assoc]

/-- One more INSERT behind the others. -/
theorem keptBy_snoc (db : Db) (dev : Str) (as : List (RestoreRow × Bool))
    (a : RestoreRow × Bool) (r : RestoreRow) :
    KeptBy db dev (as ++ [a]) r ↔
      (AcceptedAfter db dev as a ∧ a.1 = r) ∨
        (KeptBy db dev as r ∧ ¬ (AcceptedAfter db dev as a ∧ a.1.Evicts r)) := by
  unfold KeptBy
  constructor
  · rintro (⟨hrow, hkept⟩ | ⟨before, rest, heq, hacc, hkept⟩)
    · obtain ⟨hkept, hlast⟩ := (notEvicted_snoc db dev r [] as a).mp hkept
      exact Or.inr ⟨Or.inl ⟨hrow, hkept⟩, fun h => hlast h.1 h.2⟩
    · rcases List.eq_nil_or_concat rest with rfl | ⟨rest, b, rfl⟩
      · obtain ⟨rfl, rfl⟩ := List.append_inj' heq rfl |>.imp id (fun h => (List.cons.inj h).1)
        exact Or.inl ⟨hacc, rfl⟩
      · rw [List.concat_eq_append] at heq hkept
        rw [← List.cons_append, ← List.append_assoc] at heq
        obtain ⟨rfl, hb⟩ := List.append_inj' heq rfl
        obtain rfl := (List.cons.inj hb).1
        obtain ⟨hkept, hlast⟩ := (notEvicted_snoc db dev r _ rest a).mp hkept
        refine Or.inr ⟨Or.inr ⟨before, rest, rfl, hacc, hkept⟩, fun h => hlast ?_ h.2⟩
        simpa using h.1
  · rintro (⟨hacc, rfl⟩ | ⟨hkept, hlast⟩)
    · refine Or.inr ⟨as, [], ?_, ?_, trivial⟩
      · rw [← hacc.1]
      · rw [← hacc.1]
        exact hacc
    · have hlast' : AcceptedAfter db dev as a → ¬ a.1.Evicts r := fun hacc hev => hlast ⟨hacc, hev⟩
      rcases hkept with ⟨hrow, hkept⟩ | ⟨before, rest, rfl, hacc, hkept⟩
      · exact Or.inl ⟨hrow, (notEvicted_snoc db dev r [] as a).mpr ⟨hkept, hlast'⟩⟩
      · refine Or.inr ⟨before, rest ++ [a], by simp, hacc, ?_⟩
        refine (notEvicted_snoc db dev r _ rest a).mpr ⟨hkept, ?_⟩
        simpa using hlast'

/-- The rows that are there after the DELETEs and a run of INSERTs. -/
theorem hasRow_foldl_insertRow {db : Db} (h : db.Linked) (dev : Str)
    (as : List (RestoreRow × Bool)) (r : RestoreRow) :
    (as.foldl Db.insertRow (wipe db dev)).HasRow r ↔ KeptBy db dev as r := by
  induction as using List.reverseRecOn with
  | nil => simp [KeptBy, NotEvicted, hasRow_wipe]
  | append_singleton as a ih =>
      rw [List.foldl_concat, hasRow_insertRow (foldl_insertRow_linked (wipe_linked h dev) as),
        acceptedAfter_iff, ih, keptBy_snoc]

end Kept

/-- The seven tables that a rollback may write. -/
structure SameConfig (db db' : Db) : Prop where
  qosConfigs : db'.qosConfigs = db.qosConfigs
  vlanGroups : db'.vlanGroups = db.vlanGroups
  vlanMembers : db'.vlanMembers = db.vlanMembers
  tsnStreams : db'.tsnStreams = db.tsnStreams
  tsnStreamMembers : db'.tsnStreamMembers = db.tsnStreamMembers
  tasSchedules : db'.tasSchedules = db.tasSchedules
  gclEntries : db'.gclEntries = db.gclEntries

/-- Success means that every recorded row is present, an error that nothing
has changed. -/
def AllOrNothing (env : RestoreEnv) (saved : Db) (scope : Option CStr) (db : Db) (id : Int) :
    Prop :=
  ((cfgVerRollback env db id).1 = .ok →
    ∀ l, Records saved scope l → (cfgVerRollback env db id).2.HoldsEntry l) ∧
  ((cfgVerRollback env db id).1 ≠ .ok → SameConfig db (cfgVerRollback env db id).2)

/-- The DELETEs of the scope find no row. -/
def NothingToWipe (db : Db) (dev : Str) : Prop :=
  if dev.chars = [] then
    db.qosConfigs.rows = [] ∧ db.vlanGroups.rows = [] ∧ db.vlanMembers = [] ∧
      db.tsnStreams.rows = [] ∧ db.tsnStreamMembers = [] ∧ db.tasSchedules.rows = [] ∧
      db.gclEntries = []
  else
    (∀ q ∈ db.qosConfigs.rows, q.deviceId.chars ≠ dev.chars) ∧
      (∀ m ∈ db.vlanMembers, m.deviceId.chars ≠ dev.chars) ∧
      ∀ m ∈ db.tsnStreamMembers, m.deviceId.chars ≠ dev.chars

/-- The version was made of the tables `saved`. -/
def MadeOf (saved : Db) (scope : Option CStr) (v : ConfigVersionRow) : Prop :=
  v.deviceId = scope.getD [] ∧ v.payload = serializeScope saved scope

/-- What a rollback needs: with the buffer allocated, that every recorded row
is kept by the INSERTs that the words within the first 4095 bytes ask for;
without it, that there was nothing to wipe. -/
def RollbackSafe (env : RestoreEnv) (saved : Db) (scope : Option CStr) (db : Db) : Prop :=
  (env.malloc = true → ∀ rows,
    Asks (Buf.copy 256 (scope.getD []))
      (strtok ' ' ((linesText (scopeLines saved scope)).take 4095)) rows →
    ∀ l, Records saved scope l → ∃ r : RestoreRow, r.line = l ∧
      KeptBy db (Buf.copy 256 (scope.getD []))
        (rows.zipIdx.map fun a => (a.1, env.insertOk a.2)) r) ∧
  (env.malloc = false → NothingToWipe db (Buf.copy 256 (scope.getD [])))

theorem table_eq_empty_iff {ρ κ : Type} [PrimaryKey ρ κ] (t : Table ρ) :
    .empty = t ↔ t.rows = [] := by
  rw [Table.ext_iff]
  exact eq_comm

theorem sameConfig_wipe_iff (db : Db) (dev : Str) :
    SameConfig db (wipe db dev) ↔ NothingToWipe db dev := by
  unfold NothingToWipe wipe
  split
  · constructor
    · rintro ⟨hq, hg, hm, hs, hsm, ht, hgcl⟩
      exact ⟨(table_eq_empty_iff _).mp hq, (table_eq_empty_iff _).mp hg, hm.symm,
        (table_eq_empty_iff _).mp hs, hsm.symm, (table_eq_empty_iff _).mp ht, hgcl.symm⟩
    · rintro ⟨hq, hg, hm, hs, hsm, ht, hgcl⟩
      exact ⟨(table_eq_empty_iff _).mpr hq, (table_eq_empty_iff _).mpr hg, hm.symm,
        (table_eq_empty_iff _).mpr hs, hsm.symm, (table_eq_empty_iff _).mpr ht, hgcl.symm⟩
  · have hqos : db.qosConfigs.deleteWhere (fun q => decide (q.deviceId.chars = dev.chars)) =
          db.qosConfigs ↔ ∀ q ∈ db.qosConfigs.rows, q.deviceId.chars ≠ dev.chars := by
      rw [Table.ext_iff, Table.deleteWhere_rows, List.filter_eq_self]
      simp
    have hvmem : db.vlanMembers.filter (fun m => !decide (m.deviceId.chars = dev.chars)) =
          db.vlanMembers ↔ ∀ m ∈ db.vlanMembers, m.deviceId.chars ≠ dev.chars := by
      rw [List.filter_eq_self]
      simp
    have hsmem : db.tsnStreamMembers.filter (fun m => !decide (m.deviceId.chars = dev.chars)) =
          db.tsnStreamMembers ↔ ∀ m ∈ db.tsnStreamMembers, m.deviceId.chars ≠ dev.chars := by
      rw [List.filter_eq_self]
      simp
    constructor
    · rintro ⟨hq, -, hm, -, hsm, -, -⟩
      exact ⟨hqos.mp hq, hvmem.mp hm, hsmem.mp hsm⟩
    · rintro ⟨hq, hm, hsm⟩
      exact ⟨hqos.mpr hq, rfl, hvmem.mpr hm, rfl, hsmem.mpr hsm, rfl, rfl⟩

/-- The INSERTs of a rollback are those that the words ask for. -/
theorem attempts_eq {env : RestoreEnv} {dev : Str} {text : CStr} {rows : List RestoreRow}
    (h : Asks dev (strtok ' ' text) rows) :
    attempts env dev text = rows.zipIdx.map fun a => (a.1, env.insertOk a.2) := by
  rw [(asks_iff (fun _ => not_mem_of_mem_strtok) rows).mp h]
  rfl

theorem exists_asks (dev : Str) (text : CStr) : ∃ rows, Asks dev (strtok ' ' text) rows :=
  ⟨_, (asks_iff (fun _ => not_mem_of_mem_strtok) _).mpr rfl⟩

/-- For every database, every version and every pattern of failures: a
rollback is all or nothing if and only if the version is unknown, or nothing
was there to wipe when the allocation failed, or every recorded row is kept
by the INSERTs that the first 4095 bytes ask for. -/
theorem rollback_all_or_nothing_iff (env : RestoreEnv) (saved : Db) (scope : Option CStr) (db : Db)
    (hdb : db.Constraints) (id : Int)
    (hmade : ∀ v, db.configVersions.find id = some v → MadeOf saved scope v) :
    AllOrNothing env saved scope db id ↔
      (db.configVersions.Has id → RollbackSafe env saved scope db) := by
  cases hv : db.configVersions.find id with
  | none =>
      have hrollback : cfgVerRollback env db id = (.notFound, db) := by
        simp [cfgVerRollback, dbConfigVersionGet, Sql.namesIndex, hv]
      have hunknown : ¬ db.configVersions.Has id := (Table.find_eq_none _).mp hv
      simp only [AllOrNothing, hrollback, reduceCtorEq, false_implies, true_and, ne_eq,
        not_false_eq_true, true_implies, hunknown, iff_true]
      exact ⟨rfl, rfl, rfl, rfl, rfl, rfl, rfl⟩
  | some v =>
      have hhas : db.configVersions.Has id := by
        by_contra hnot
        rw [(Table.find_eq_none _).mpr hnot] at hv
        cases hv
      obtain ⟨hdev, hpayload⟩ := hmade v hv
      have htext : v.payload.take 4095 = (linesText (scopeLines saved scope)).take 4095 := by
        rw [hpayload, serializeScope_eq, printLines_eq, List.take_take]
        rfl
      rw [AllOrNothing, cfgVerRollback_of_find hv env, htext, hdev]
      simp only [hhas, true_implies, RollbackSafe]
      cases hmalloc : env.malloc with
      | true =>
          obtain ⟨rows, hrows⟩ := exists_asks (Buf.copy 256 (scope.getD []))
            ((linesText (scopeLines saved scope)).take 4095)
          simp only [if_true, true_implies, ne_eq, not_true_eq_false, false_implies, and_true,
            reduceCtorEq, Db.HoldsEntry, hasRow_foldl_insertRow hdb.linked]
          constructor
          · intro h rows hrows l hl
            rw [← attempts_eq hrows]
            exact h l hl
          · intro h l hl
            rw [attempts_eq hrows]
            exact h rows hrows l hl
      | false => simp [sameConfig_wipe_iff]

/-- A group that is part of a version, rolled back without a failure. -/
theorem rollback_one_group_all_or_nothing :
    let saved := (dbVlanGroupSave Db.empty ⟨Buf.copy 256 "g1".toList, .empty, 5⟩).2
    AllOrNothing .healthy saved none (cfgVerSnapshot true saved 0 "v1".toList none).2 1 := by
  intro saved
  refine (rollback_all_or_nothing_iff _ _ _ _ ?_ _ ?_).mpr ?_
  · exact ⟨by decide, by decide, by decide, by decide, by decide, by decide⟩
  · intro v hv
    have hrow : some (ConfigVersionRow.mk 1 "v1".toList [] 0 (serializeGlobal saved)) = some v := by
      rw [← hv]
      decide
    obtain rfl := Option.some.inj hrow
    exact ⟨rfl, rfl⟩
  · rintro -
    refine ⟨?_, fun h => by cases h⟩
    rintro - rows hrows l ⟨⟨r, rfl⟩, front, back, hlines, -⟩
    have hread : rows = [.vlanGroup ⟨Buf.copy 256 "g1".toList, Buf.copy 256 "g1".toList, 5⟩] :=
      ((asks_iff (fun _ => not_mem_of_mem_strtok) rows).mp hrows).trans (by decide)
    have hmem : r.line ∈ [vlanLine "g1".toList 5, preLine] := by
      have hall : [vlanLine "g1".toList 5, preLine] = front ++ r.line :: back :=
        (show _ = scopeLines saved none by decide).trans hlines
      rw [hall]
      simp
    subst hread
    rcases List.mem_cons.mp hmem with hline | hline
    · exact ⟨.vlanGroup ⟨Buf.copy 256 "g1".toList, Buf.copy 256 "g1".toList, 5⟩,
        Eq.trans (by decide) hline.symm, Or.inr ⟨[], [], rfl, ⟨rfl, trivial⟩, trivial⟩⟩
    · rw [List.mem_singleton] at hline
      cases r <;> exact absurd (List.cons.inj hline).1 (by decide)

/-- A device of the version was deleted meanwhile: the foreign key refuses
its qos row and the rollback reports success. -/
theorem rollback_loses_qos_of_deleted_device :
    let saved := (dbQosSave Db.empty ⟨Buf.copy 256 "d1".toList, 5, 5, 1000, 5, 0⟩).2
    let version := (cfgVerSnapshot true saved 0 "v2".toList none).2
    ¬ AllOrNothing .healthy saved none (dbDeviceDelete version "d1".toList).2 1 := by
  intro saved version h
  have hrecorded : Records saved none (qosLine "d1".toList ⟨Buf.copy 256 "d1".toList, 5, 5, 1000, 5, 0⟩) :=
    ⟨⟨.qos ⟨Buf.copy 256 "d1".toList, 5, 5, 1000, 5, 0⟩, by decide⟩,
      (dbDeviceForEach saved).map deviceLine, [preLine], by decide, by decide⟩
  obtain ⟨r, hline, hrow⟩ := h.1 (by decide) _ hrecorded
  cases r with
  | qos q =>
      have hnone : (cfgVerRollback .healthy (dbDeviceDelete version "d1".toList).2
          1).2.qosConfigs.rows = [] := by decide
      have hmem : q ∈ (cfgVerRollback .healthy (dbDeviceDelete version "d1".toList).2
          1).2.qosConfigs.rows := hrow
      rw [hnone] at hmem
      exact List.not_mem_nil hmem
  | _ => exact absurd (List.cons.inj hline).1 (by decide)

end Htsn
