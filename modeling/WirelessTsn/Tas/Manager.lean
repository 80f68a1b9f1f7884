import WirelessTsn.Tas.Schedule
import WirelessTsn.ConfigVersion.Reading
import WirelessTsn.Lib.Run

/-!
`tas_manager.c`: saving and loading schedules. The statements that write and
read the gate entries name the column `index` without quotes and do not
prepare. The INSERT that fails is skipped without a word, the SELECT is
reported, so a schedule is stored without its entries and never loads again.
-/

namespace Htsn

open CText Keyed Run

def toModel (src : TasSchedule) : TasScheduleModel where
  id := src.id
  name := src.name
  cycleTimeNs := src.cycleTimeNs
  deployTarget := src.deployTarget
  gcl := ⟨src.entries, src.cycleTimeNs⟩

def toDbScheduleCopy (src : TasScheduleModel) : TasSchedule where
  id := src.id
  name := src.name
  cycleTimeNs := src.cycleTimeNs
  deployTarget := src.deployTarget
  entries := src.gcl.entries

/-- The result of the database is not looked at. -/
def tasManagerSave (db : Db) (s : TasScheduleModel) : HtsnError × Db :=
  if tasValidate s ≠ .ok then (.invalidArg, db)
  else (.ok, (dbTasSave db (toDbScheduleCopy s)).2)

def tasManagerLoad (db : Db) (id : CStr) : Except HtsnError TasScheduleModel :=
  match dbTasLoad db id with
  | .error e => .error e
  | .ok s => .ok (toModel s)

/-- The row is written, the old entries are deleted and no new ones come. -/
theorem dbTasSave_eq (db : Db) (s : TasSchedule) :
    dbTasSave db s =
      (.ok,
        { db with
          tasSchedules := db.tasSchedules.upsert (tasRow s)
          gclEntries := db.gclEntries.filter fun g =>
            !decide (g.scheduleId.chars = s.id.chars) }) := by
  have hskip : ∀ (es : List (GclEntry × Nat)) (db : Db),
      es.foldl (fun db e => if prepares .gclInsert then db.insertGcl (gclRow s e.2 e.1) else db)
        db = db := by
    intro es
    induction es with
    | nil => exact fun _ => rfl
    | cons e es ih => exact fun db => ih db
  have hschedule : prepares .tasSave = true := by simp [Sql.namesIndex]
  have hdelete : prepares .gclDelete = true := by simp [Sql.namesIndex]
  unfold dbTasSave
  rw [if_pos hschedule, if_pos hdelete]
  simp only [hskip]

/-- A schedule that has a row is not loaded. -/
theorem tasManagerLoad_of_find {db : Db} {id : CStr} {r : TasRow}
    (h : db.tasSchedules.find id = some r) : tasManagerLoad db id = .error .db := by
  simp [tasManagerLoad, dbTasLoad, Sql.namesIndex, h]

theorem tasManagerLoad_ne_ok (db : Db) (id : CStr) (s : TasScheduleModel) :
    tasManagerLoad db id ≠ .ok s := by
  have hnone := dbTasLoad_toOption db id
  unfold tasManagerLoad
  cases hload : dbTasLoad db id with
  | error e => simp
  | ok r =>
      rw [hload] at hnone
      cases hnone

/-- What one save does to the rows of the schedules. -/
theorem find_tasManagerSave (db : Db) (s : TasScheduleModel) (id : CStr) :
    (tasManagerSave db s).2.tasSchedules.find id =
      if tasValidate s = .ok ∧ s.id.chars = id then some (tasRow (toDbScheduleCopy s))
      else db.tasSchedules.find id := by
  unfold tasManagerSave
  by_cases hvalid : tasValidate s = .ok
  · have hkey : PrimaryKey.key (tasRow (toDbScheduleCopy s)) = s.id.chars := rfl
    simp [hvalid, dbTasSave_eq, Table.find_upsert, hkey]
  · simp [hvalid]

/-- The database after saving schedules one after the other. -/
def saveAll (db : Db) (ss : List TasScheduleModel) : Db :=
  run (fun db s => (tasManagerSave db s).2) db ss

/-- Saves of other schedules leave the row of a schedule alone. -/
theorem find_saveAll {db : Db} {id : CStr} {ss : List TasScheduleModel}
    (h : ∀ s ∈ ss, s.id.chars ≠ id) :
    (saveAll db ss).tasSchedules.find id = db.tasSchedules.find id := by
  induction ss generalizing db with
  | nil => rfl
  | cons s ss ih =>
      have hrest := @ih (tasManagerSave db s).2 fun s' hs' => h s' (by simp [hs'])
      have hstep := find_tasManagerSave db s id
      rw [if_neg fun hs => h s (by simp) hs.2] at hstep
      exact hrest.trans hstep

section Durability

/-- The schedule loads with the cycle, the target and the entries it had. -/
def TasHeld (db : Db) (s : TasScheduleModel) : Prop :=
  ∃ loaded, tasManagerLoad db s.id.chars = .ok loaded ∧
    loaded.cycleTimeNs = s.cycleTimeNs ∧ loaded.deployTarget = s.deployTarget ∧
    loaded.gcl.entries = s.gcl.entries

/-- The database after a global snapshot of it was taken and rolled back. -/
def rolledBack (db : Db) (now : Int64) (name : CStr) : Db :=
  (cfgVerRollback .healthy (cfgVerSnapshot true db now name none).2 (nextVersionId db)).2

/-- The schedule is held after its save and those of `others`, and also after
a global snapshot was taken then and rolled back. -/
def TasDurable (db : Db) (s : TasScheduleModel) (others : List TasScheduleModel) : Prop :=
  TasHeld (saveAll db (s :: others)) s ∧
    ∀ (now : Int64) (name : CStr), TasHeld (rolledBack (saveAll db (s :: others)) now name) s

theorem not_tasHeld (db : Db) (s : TasScheduleModel) : ¬ TasHeld db s := by
  rintro ⟨loaded, hload, -⟩
  exact tasManagerLoad_ne_ok db s.id.chars loaded hload

/-- No schedule that a save accepts is durable: the save reports success, the
row is there, and loading it fails, with or without a rollback. -/
theorem saved_schedule_never_durable (db : Db) (s : TasScheduleModel)
    (others : List TasScheduleModel) (hs : tasValidate s = .ok)
    (hothers : ∀ o ∈ others, o.id.chars ≠ s.id.chars) :
    (tasManagerSave db s).1 = .ok ∧
      tasManagerLoad (saveAll db (s :: others)) s.id.chars = .error .db ∧
      (∀ now name, ¬ TasHeld (rolledBack (saveAll db (s :: others)) now name) s) ∧
      ¬ TasDurable db s others := by
  have hrow : (saveAll db (s :: others)).tasSchedules.find s.id.chars =
      some (tasRow (toDbScheduleCopy s)) := by
    have hkeep := @find_saveAll (tasManagerSave db s).2 s.id.chars others hothers
    have hsave := find_tasManagerSave db s s.id.chars
    rw [if_pos ⟨hs, rfl⟩] at hsave
    exact hkeep.trans hsave
  refine ⟨?_, tasManagerLoad_of_find hrow, fun _ _ => not_tasHeld _ s,
    fun h => not_tasHeld _ s h.1⟩
  simp [tasManagerSave, hs]

/-- A schedule of two windows of 50 ms. -/
def controlCycle (id : CStr) : TasScheduleModel where
  id := Buf.copy 256 id
  name := Buf.copy 256 "Control Cycle".toList
  cycleTimeNs := 100000000
  deployTarget := Buf.copy 256 "switch-1".toList
  gcl :=
    let gcl : Gcl := ⟨.empty, 100000000⟩
    (gclAddEntry (gclAddEntry gcl gateOpen 50000000).2 0 50000000).2

theorem controlCycle_never_durable :
    tasManagerLoad (saveAll .empty [controlCycle "tas-1".toList, controlCycle "tas-2".toList])
      "tas-1".toList = .error .db :=
  (saved_schedule_never_durable .empty (controlCycle "tas-1".toList)
    [controlCycle "tas-2".toList] (by decide) (by decide)).2.1

/-- Saved into a new database, a valid schedule cannot be loaded. -/
theorem controlCycle_not_durable :
    ¬ ∀ (db : Db) (s : TasScheduleModel) (others : List TasScheduleModel),
      db.Constraints → (tasManagerSave db s).1 = .ok →
      (∀ o ∈ others, o.id.chars ≠ s.id.chars) → TasDurable db s others := by
  intro hclaim
  have hdurable := hclaim .empty (controlCycle "tas-1".toList) [] Db.empty_constraints
    (by decide) (by simp)
  exact not_tasHeld _ _ hdurable.1

end Durability

end Htsn
