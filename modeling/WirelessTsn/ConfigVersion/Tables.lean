import WirelessTsn.ConfigVersion.Tokens
import WirelessTsn.Lib.Run

/-!
What a list of INSERTs leaves in the tables. `hasRow_insertRow` says it for
one statement and any row: an accepted statement adds its own row and evicts
the rows that its REPLACE or a cascade removes. For lists in which nothing is
refused the tables are given exactly.
-/

namespace Htsn

open CText Keyed Run

/-- The table of its kind holds the row. -/
def Db.HasRow (db : Db) : RestoreRow → Prop
  | .qos r => r ∈ db.qosConfigs.rows
  | .vlanGroup r => r ∈ db.vlanGroups.rows
  | .vlanMember r => r ∈ db.vlanMembers
  | .stream r => r ∈ db.tsnStreams.rows
  | .streamMember r => r ∈ db.tsnStreamMembers
  | .tas r => r ∈ db.tasSchedules.rows
  | .gcl r => r ∈ db.gclEntries

/-- An accepted INSERT of the first row removes the second: it has the same
key, or it belongs to a row that has. -/
def RestoreRow.Evicts : RestoreRow → RestoreRow → Prop
  | .qos a, .qos b => b.deviceId.chars = a.deviceId.chars
  | .vlanGroup a, .vlanGroup b => b.id.chars = a.id.chars
  | .stream a, .stream b => b.streamId.chars = a.streamId.chars
  | .stream a, .streamMember m => m.streamId.chars = a.streamId.chars
  | .tas a, .tas b => b.id.chars = a.id.chars
  | .tas a, .gcl g => g.scheduleId.chars = a.id.chars
  | _, _ => False

/-- The foreign keys that a cascade follows. -/
structure Db.Linked (db : Db) : Prop where
  members : ∀ m ∈ db.tsnStreamMembers, db.tsnStreams.Has m.streamId.chars
  gcl : ∀ g ∈ db.gclEntries, db.tasSchedules.Has g.scheduleId.chars

theorem Db.Constraints.linked {db : Db} (h : db.Constraints) : db.Linked := ⟨h.members, h.gcl⟩

theorem has_replace {ρ κ : Type} [PrimaryKey ρ κ] [DecidableEq κ] (t : Table ρ) (r : ρ) (k : κ) :
    (t.replace r).Has k ↔ t.Has k ∨ PrimaryKey.key r = k := by
  constructor
  · rintro ⟨s, hs, hk⟩
    rcases (t.mem_replace r s).mp hs with ⟨hs, -⟩ | rfl
    · exact Or.inl ⟨s, hs, hk⟩
    · exact Or.inr hk
  · rintro (⟨s, hs, hk⟩ | hk)
    · by_cases heq : PrimaryKey.key s = PrimaryKey.key r
      · exact ⟨r, (t.mem_replace r r).mpr (Or.inr rfl), heq.symm.trans hk⟩
      · exact ⟨s, (t.mem_replace r s).mpr (Or.inl ⟨hs, heq⟩), hk⟩
    · exact ⟨r, (t.mem_replace r r).mpr (Or.inr rfl), hk⟩

/-- The members left when a stream is replaced. -/
theorem mem_replaceStream_members {db : Db} (h : db.Linked) (r : StreamRow) (m : StreamMember) :
    m ∈ (db.replaceStream r).tsnStreamMembers ↔
      m ∈ db.tsnStreamMembers ∧ m.streamId.chars ≠ r.streamId.chars := by
  unfold Db.replaceStream
  by_cases hhas : db.tsnStreams.Has r.streamId.chars
  · simp [hhas]
  · simp only [hhas, if_false, iff_self_and]
    intro hm heq
    exact hhas (heq ▸ h.members m hm)

theorem mem_replaceTas_gcl {db : Db} (h : db.Linked) (r : TasRow) (g : GclRow) :
    g ∈ (db.replaceTas r).gclEntries ↔
      g ∈ db.gclEntries ∧ g.scheduleId.chars ≠ r.id.chars := by
  unfold Db.replaceTas
  by_cases hhas : db.tasSchedules.Has r.id.chars
  · simp [hhas]
  · simp only [hhas, if_false, iff_self_and]
    intro hg heq
    exact hhas (heq ▸ h.gcl g hg)

/-- The rows after an accepted statement. -/
theorem hasRow_putRow {db : Db} (h : db.Linked) (a r : RestoreRow) :
    (db.putRow a).HasRow r ↔ a = r ∨ (db.HasRow r ∧ ¬ a.Evicts r) := by
  cases a with
  | qos a =>
      cases r with
      | qos r =>
          simp only [Db.putRow, Db.HasRow, RestoreRow.Evicts, Table.mem_replace,
            RestoreRow.qos.injEq]
          rw [or_comm, eq_comm]
          rfl
      | _ => simp [Db.putRow, Db.HasRow, RestoreRow.Evicts]
  | vlanGroup a =>
      cases r with
      | vlanGroup r =>
          simp only [Db.putRow, Db.HasRow, RestoreRow.Evicts, Table.mem_replace,
            RestoreRow.vlanGroup.injEq]
          rw [or_comm, eq_comm]
          rfl
      | _ => simp [Db.putRow, Db.HasRow, RestoreRow.Evicts]
  | vlanMember a =>
      cases r with
      | vlanMember r => simp [Db.putRow, Db.HasRow, RestoreRow.Evicts, or_comm, eq_comm]
      | _ => simp [Db.putRow, Db.HasRow, RestoreRow.Evicts]
  | stream a =>
      cases r with
      | stream r =>
          simp only [Db.putRow, Db.replaceStream, Db.HasRow, RestoreRow.Evicts,
            Table.mem_replace, RestoreRow.stream.injEq]
          rw [or_comm, eq_comm]
          rfl
      | streamMember m =>
          simp only [Db.putRow, Db.HasRow, RestoreRow.Evicts, mem_replaceStream_members h,
            reduceCtorEq, false_or]
      | _ => simp [Db.putRow, Db.replaceStream, Db.HasRow, RestoreRow.Evicts]
  | streamMember a =>
      cases r with
      | streamMember r => simp [Db.putRow, Db.HasRow, RestoreRow.Evicts, or_comm, eq_comm]
      | _ => simp [Db.putRow, Db.HasRow, RestoreRow.Evicts]
  | tas a =>
      cases r with
      | tas r =>
          simp only [Db.putRow, Db.replaceTas, Db.HasRow, RestoreRow.Evicts, Table.mem_replace,
            RestoreRow.tas.injEq]
          rw [or_comm, eq_comm]
          rfl
      | gcl g =>
          simp only [Db.putRow, Db.HasRow, RestoreRow.Evicts, mem_replaceTas_gcl h, reduceCtorEq,
            false_or]
      | _ => simp [Db.putRow, Db.replaceTas, Db.HasRow, RestoreRow.Evicts]
  | gcl a =>
      cases r with
      | gcl r => simp [Db.putRow, Db.HasRow, RestoreRow.Evicts, or_comm, eq_comm]
      | _ => simp [Db.putRow, Db.HasRow, RestoreRow.Evicts]

/-- The rows after one INSERT, accepted or not. -/
theorem hasRow_insertRow {db : Db} (h : db.Linked) (a : RestoreRow × Bool) (r : RestoreRow) :
    (db.insertRow a).HasRow r ↔
      ((a.2 = true ∧ db.Admits a.1) ∧ a.1 = r) ∨
        (db.HasRow r ∧ ¬ ((a.2 = true ∧ db.Admits a.1) ∧ a.1.Evicts r)) := by
  unfold Db.insertRow
  by_cases hacc : a.2 = true ∧ db.Admits a.1
  · simp [hacc, hasRow_putRow h]
  · simp [hacc]

theorem insertRow_linked {db : Db} (h : db.Linked) (a : RestoreRow × Bool) :
    (db.insertRow a).Linked := by
  unfold Db.insertRow
  split
  · rename_i hacc
    obtain ⟨r, ok⟩ := a
    cases r with
    | qos r => exact ⟨h.members, h.gcl⟩
    | vlanGroup r => exact ⟨h.members, h.gcl⟩
    | vlanMember r => exact ⟨h.members, h.gcl⟩
    | stream r =>
        refine ⟨fun m hm => ?_, h.gcl⟩
        have hold := ((mem_replaceStream_members h r m).mp hm).1
        exact (has_replace db.tsnStreams r _).mpr (Or.inl (h.members m hold))
    | streamMember r =>
        refine ⟨fun m hm => ?_, h.gcl⟩
        rcases List.mem_append.mp hm with hm | hm
        · exact h.members m hm
        · rw [List.mem_singleton] at hm
          exact hm ▸ hacc.2.2
    | tas r =>
        refine ⟨h.members, fun g hg => ?_⟩
        have hold := ((mem_replaceTas_gcl h r g).mp hg).1
        exact (has_replace db.tasSchedules r _).mpr (Or.inl (h.gcl g hold))
    | gcl r => simp [Db.Admits, Sql.namesIndex] at hacc
  · exact h

@[simp] theorem insertRow_devices (db : Db) (a : RestoreRow × Bool) :
    (db.insertRow a).devices = db.devices := by
  unfold Db.insertRow
  split
  · cases a.1 <;> rfl
  · rfl

/-- What no INSERT changes, a list of them does not. -/
theorem foldl_insertRow_devices (as : List (RestoreRow × Bool)) (db : Db) :
    (as.foldl Db.insertRow db).devices = db.devices :=
  @run_invariant _ _ Db.insertRow (fun db' => db'.devices = db.devices)
    (fun db' a h => (insertRow_devices db' a).trans h) db rfl as

theorem foldl_insertRow_linked {db : Db} (h : db.Linked) (as : List (RestoreRow × Bool)) :
    (as.foldl Db.insertRow db).Linked :=
  @run_invariant _ _ Db.insertRow Db.Linked (fun _ a hdb => insertRow_linked hdb a) db h as

theorem wipe_linked {db : Db} (h : db.Linked) (dev : Str) : (wipe db dev).Linked := by
  unfold wipe
  split
  · exact ⟨by simp, by simp⟩
  · refine ⟨fun m hm => h.members m (List.mem_of_mem_filter hm), h.gcl⟩

@[simp] theorem wipe_devices (db : Db) (dev : Str) : (wipe db dev).devices = db.devices := by
  unfold wipe
  split <;> rfl

/-- A rollback of a stored version. -/
theorem cfgVerRollback_of_find {db : Db} {id : Int} {v : ConfigVersionRow}
    (hv : db.configVersions.find id = some v) (env : RestoreEnv) :
    cfgVerRollback env db id =
      if env.malloc then
        (.ok, (attempts env (Buf.copy 256 v.deviceId) (v.payload.take 4095)).foldl Db.insertRow
          (wipe db (Buf.copy 256 v.deviceId)))
      else (.noMemory, wipe db (Buf.copy 256 v.deviceId)) := by
  simp [cfgVerRollback, dbConfigVersionGet, Sql.namesIndex, hv, restorePayload, Buf.copy_chars]

section Exact

/-- INSERTs that do not fail for a reason of their own. -/
def insertRows (db : Db) (rows : List RestoreRow) : Db :=
  rows.foldl (fun db r => db.insertRow (r, true)) db

theorem insertRows_append (db : Db) (as bs : List RestoreRow) :
    insertRows db (as ++ bs) = insertRows (insertRows db as) bs :=
  List.foldl_append

theorem insertRows_eq (db : Db) (rows : List RestoreRow) :
    insertRows db rows = (rows.map fun r => (r, true)).foldl Db.insertRow db :=
  List.foldl_map.symm

theorem insertRows_devices (db : Db) (rows : List RestoreRow) :
    (insertRows db rows).devices = db.devices := by
  rw [insertRows_eq]
  exact foldl_insertRow_devices _ db

theorem insertRows_linked {db : Db} (h : db.Linked) (rows : List RestoreRow) :
    (insertRows db rows).Linked := by
  rw [insertRows_eq]
  exact foldl_insertRow_linked h _

/-- The rows that the tokens of a text record. -/
def readRows (dev : Str) (text : CStr) : List RestoreRow :=
  (strtok ' ' text).filterMap (restoreToken dev)

/-- A rollback in which nothing fails. -/
theorem cfgVerRollback_healthy {db : Db} {id : Int} {v : ConfigVersionRow}
    (hv : db.configVersions.find id = some v) :
    cfgVerRollback .healthy db id =
      (.ok, insertRows (wipe db (Buf.copy 256 v.deviceId))
        (readRows (Buf.copy 256 v.deviceId) (v.payload.take 4095))) := by
  have hattempts : ∀ (dev : Str) (payload : CStr),
      attempts .healthy dev payload = (readRows dev payload).map fun r => (r, true) := by
    intro dev payload
    have hfst := congrArg (List.map fun r : RestoreRow => (r, true))
      (List.zipIdx_map_fst 0 (readRows dev payload))
    rw [List.map_map] at hfst
    exact hfst
  have hmalloc : RestoreEnv.healthy.malloc = true := rfl
  rw [cfgVerRollback_of_find hv, if_pos hmalloc, hattempts, ← insertRows_eq]

/-- The part of `Db.Admits` that no INSERT of a restore changes. -/
def Db.Accepts (db : Db) : RestoreRow → Prop
  | .qos r => db.devices.Has r.deviceId.chars
  | .stream r => statusChecked r.status
  | _ => True

instance (db : Db) : (r : RestoreRow) → Decidable (db.Accepts r)
  | .qos r => inferInstanceAs (Decidable (db.devices.Has r.deviceId.chars))
  | .stream r => inferInstanceAs (Decidable (statusChecked r.status))
  | .vlanGroup _ | .vlanMember _ | .streamMember _ | .tas _ | .gcl _ =>
      inferInstanceAs (Decidable True)

theorem Db.Admits.accepts {db : Db} {r : RestoreRow} (h : db.Admits r) : db.Accepts r := by
  cases r with
  | qos r => exact h.2
  | stream r => exact h.2
  | _ => trivial

theorem accepts_congr {db db' : Db} (h : db'.devices = db.devices) (r : RestoreRow) :
    db'.Accepts r ↔ db.Accepts r := by
  cases r with
  | qos r => simp only [Db.Accepts, h]
  | _ => rfl

/-- No row appears that was not inserted. -/
theorem hasRow_of_insertRows {db : Db} (h : db.Linked) {rows : List RestoreRow} {r : RestoreRow}
    (hr : (insertRows db rows).HasRow r) : db.HasRow r ∨ (r ∈ rows ∧ db.Accepts r) := by
  induction rows generalizing db with
  | nil => exact Or.inl hr
  | cons a rows ih =>
      rcases ih (insertRow_linked h (a, true)) hr with hrow | ⟨hmem, hacc⟩
      · rcases (hasRow_insertRow h (a, true) r).mp hrow with ⟨hadm, rfl⟩ | ⟨hold, -⟩
        · exact Or.inr ⟨by simp, hadm.2.accepts⟩
        · exact Or.inl hold
      · exact Or.inr ⟨by simp [hmem], (accepts_congr (insertRow_devices db _) r).mp hacc⟩

/-- For a qos row, a group or a stream: its table holds a row with its key. -/
def Db.HasKeyOf (db : Db) : RestoreRow → Prop
  | .qos r => db.qosConfigs.Has r.deviceId.chars
  | .vlanGroup r => db.vlanGroups.Has r.id.chars
  | .stream r => db.tsnStreams.Has r.streamId.chars
  | .vlanMember _ | .streamMember _ | .tas _ | .gcl _ => True

instance (db : Db) : (r : RestoreRow) → Decidable (db.HasKeyOf r)
  | .qos r => inferInstanceAs (Decidable (db.qosConfigs.Has r.deviceId.chars))
  | .vlanGroup r => inferInstanceAs (Decidable (db.vlanGroups.Has r.id.chars))
  | .stream r => inferInstanceAs (Decidable (db.tsnStreams.Has r.streamId.chars))
  | .vlanMember _ | .streamMember _ | .tas _ | .gcl _ => inferInstanceAs (Decidable True)

theorem hasKeyOf_insertRow {db : Db} {r : RestoreRow} (h : db.HasKeyOf r)
    (a : RestoreRow × Bool) : (db.insertRow a).HasKeyOf r := by
  unfold Db.insertRow
  split
  · obtain ⟨a, ok⟩ := a
    cases r with
    | qos r =>
        cases a with
        | qos a => exact (has_replace db.qosConfigs a _).mpr (Or.inl h)
        | _ => exact h
    | vlanGroup r =>
        cases a with
        | vlanGroup a => exact (has_replace db.vlanGroups a _).mpr (Or.inl h)
        | _ => exact h
    | stream r =>
        cases a with
        | stream a => exact (has_replace db.tsnStreams a _).mpr (Or.inl h)
        | _ => exact h
    | _ => trivial
  · exact h

theorem hasKeyOf_insertRow_self {db : Db} {r : RestoreRow} (h : db.Accepts r) :
    (db.insertRow (r, true)).HasKeyOf r := by
  cases r with
  | qos r =>
      have hadm : db.Admits (.qos r) := ⟨by simp [Sql.namesIndex], h⟩
      rw [Db.insertRow, if_pos ⟨rfl, hadm⟩]
      exact (has_replace db.qosConfigs r _).mpr (Or.inr rfl)
  | vlanGroup r =>
      have hadm : db.Admits (.vlanGroup r) := by simp [Db.Admits, Sql.namesIndex]
      rw [Db.insertRow, if_pos ⟨rfl, hadm⟩]
      exact (has_replace db.vlanGroups r _).mpr (Or.inr rfl)
  | stream r =>
      have hadm : db.Admits (.stream r) := ⟨by simp [Sql.namesIndex], h⟩
      rw [Db.insertRow, if_pos ⟨rfl, hadm⟩]
      exact (has_replace db.tsnStreams r _).mpr (Or.inr rfl)
  | _ => trivial

/-- The key of a row that was accepted is there in the end. -/
theorem hasKeyOf_insertRows {db : Db} {rows : List RestoreRow} {r : RestoreRow}
    (h : db.HasKeyOf r ∨ (r ∈ rows ∧ db.Accepts r)) : (insertRows db rows).HasKeyOf r := by
  induction rows generalizing db with
  | nil => exact h.resolve_right (by simp)
  | cons a rows ih =>
      apply ih
      rcases h with h | ⟨hmem, hacc⟩
      · exact Or.inl (hasKeyOf_insertRow h _)
      · rcases List.mem_cons.mp hmem with rfl | hmem
        · exact Or.inl (hasKeyOf_insertRow_self hacc)
        · exact Or.inr ⟨hmem, (accepts_congr (insertRow_devices db _) r).mpr hacc⟩

/-- INSERTs of one kind that all act on one table. -/
private theorem insertRows_component {α τ : Type} {mk : α → RestoreRow} (set : τ → Db)
    {put : τ → α → τ} {xs : List α}
    (h : ∀ t, ∀ x ∈ xs, (set t).insertRow (mk x, true) = set (put t x)) (t : τ) :
    insertRows (set t) (xs.map mk) = set (xs.foldl put t) := by
  rw [insertRows, List.foldl_map]
  exact run_component set h t

theorem insertRows_vlanGroups (db : Db) (gs : List VlanGroup) :
    insertRows db (gs.map .vlanGroup) =
      { db with vlanGroups := gs.foldl Table.replace db.vlanGroups } := by
  refine insertRows_component (fun t => { db with vlanGroups := t }) (fun t g _ => ?_)
    db.vlanGroups
  simp [Db.insertRow, Db.Admits, Db.putRow, Sql.namesIndex]

theorem insertRows_qos (db : Db) (qs : List QosConfig)
    (h : ∀ q ∈ qs, db.devices.Has q.deviceId.chars) :
    insertRows db (qs.map .qos) =
      { db with qosConfigs := qs.foldl Table.replace db.qosConfigs } := by
  refine insertRows_component (fun t => { db with qosConfigs := t }) (fun t q hq => ?_)
    db.qosConfigs
  simp [Db.insertRow, Db.Admits, Db.putRow, Sql.namesIndex, h q hq]

private theorem foldl_append_each {α : Type} (l ms : List α) :
    ms.foldl (fun t m => t ++ [m]) l = l ++ ms := by
  rw [List.foldl_append_eq_append, ← List.flatMap_def, List.flatMap_singleton']

theorem insertRows_vlanMembers (db : Db) (ms : List VlanMember) :
    insertRows db (ms.map .vlanMember) = { db with vlanMembers := db.vlanMembers ++ ms } := by
  rw [← foldl_append_each]
  refine insertRows_component (fun t => { db with vlanMembers := t }) (fun t m _ => ?_)
    db.vlanMembers
  simp [Db.insertRow, Db.Admits, Db.putRow, Sql.namesIndex]

theorem insertRows_streamMembers (db : Db) (ms : List StreamMember)
    (h : ∀ m ∈ ms, db.tsnStreams.Has m.streamId.chars) :
    insertRows db (ms.map .streamMember) =
      { db with tsnStreamMembers := db.tsnStreamMembers ++ ms } := by
  rw [← foldl_append_each]
  refine insertRows_component (fun t => { db with tsnStreamMembers := t }) (fun t m hm => ?_)
    db.tsnStreamMembers
  simp [Db.insertRow, Db.Admits, Db.putRow, Sql.namesIndex, h m hm]

/-- The INSERTs of one stream and its members. -/
def streamBlock (r : StreamRow) (ms : List StreamMember) : List RestoreRow :=
  .stream r :: ms.map .streamMember

/-- A stream is added with its members; those it had go. -/
theorem insertRows_streamBlock {db : Db} (h : db.Linked) (r : StreamRow) (ms : List StreamMember)
    (hstatus : statusChecked r.status) (hms : ∀ m ∈ ms, m.streamId = r.streamId) :
    insertRows db (streamBlock r ms) =
      { db with
        tsnStreams := db.tsnStreams.replace r
        tsnStreamMembers :=
          (db.tsnStreamMembers.filter fun m => !decide (m.streamId.chars = r.streamId.chars)) ++
            ms } := by
  have hcascade : (db.replaceStream r).tsnStreamMembers =
      db.tsnStreamMembers.filter fun m => !decide (m.streamId.chars = r.streamId.chars) := by
    unfold Db.replaceStream
    split
    · rfl
    · rename_i hnew
      symm
      rw [List.filter_eq_self]
      intro m hm
      simpa using fun heq : m.streamId.chars = r.streamId.chars => hnew (heq ▸ h.members m hm)
  have hadm : db.Admits (.stream r) := ⟨by simp [Sql.namesIndex], hstatus⟩
  have hstep : db.insertRow (.stream r, true) = db.replaceStream r := by
    rw [Db.insertRow, if_pos ⟨rfl, hadm⟩]
    rfl
  have hrest := insertRows_streamMembers (db.replaceStream r) ms
    fun m hm => (has_replace db.tsnStreams r _).mpr
      (Or.inr (congrArg Buf.chars (hms m hm).symm))
  rw [← hstep] at hrest
  refine hrest.trans ?_
  rw [hstep, hcascade]
  rfl

/-- Streams with distinct ids are added in order, with their members. -/
theorem insertRows_streamBlocks {db : Db} (h : db.Linked)
    (bs : List (StreamRow × List StreamMember))
    (hkeys : (bs.map fun b => b.1.streamId.chars).Nodup)
    (hstatus : ∀ b ∈ bs, statusChecked b.1.status)
    (hms : ∀ b ∈ bs, ∀ m ∈ b.2, m.streamId = b.1.streamId) :
    insertRows db (bs.flatMap fun b => streamBlock b.1 b.2) =
      { db with
        tsnStreams := (bs.map Prod.fst).foldl Table.replace db.tsnStreams
        tsnStreamMembers :=
          (db.tsnStreamMembers.filter fun m =>
            outside (bs.map fun b => b.1.streamId.chars) m.streamId.chars) ++
              bs.flatMap Prod.snd } := by
  induction bs generalizing db with
  | nil => simp [insertRows]
  | cons b bs ih =>
      obtain ⟨hb, hbs⟩ := List.nodup_cons.mp hkeys
      have hstep := insertRows_streamBlock h b.1 b.2 (hstatus b (by simp)) (hms b (by simp))
      have hlinked := insertRows_linked h (streamBlock b.1 b.2)
      rw [List.flatMap_cons, insertRows_append,
        ih hlinked hbs (fun b' hb' => hstatus b' (by simp [hb']))
          fun b' hb' => hms b' (by simp [hb']), hstep]
      -- The members just added belong to none of the streams to come.
      have hkeep : b.2.filter (fun m =>
          outside (bs.map fun b => b.1.streamId.chars) m.streamId.chars) = b.2 := by
        rw [List.filter_eq_self]
        intro m hm
        rw [hms b (by simp) m hm]
        simpa using hb
      simp only [List.map_cons, outside_cons, List.filter_append, List.filter_filter, hkeep,
        List.flatMap_cons, List.append_assoc, List.foldl_cons]

end Exact

end Htsn
