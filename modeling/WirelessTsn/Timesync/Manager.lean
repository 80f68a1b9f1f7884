import WirelessTsn.Db.Open
import WirelessTsn.Lib.Run

/-!
`timesync.c`, `db_timesync.c` and the settings of `timesync_manager.c`. Both
statements of `db_timesync.c` name a column `jitter_ns` that `SCHEMA` gives
to `timesync_reports` and not to `timesync_status`; a statement that does not
prepare is passed over in silence, so the settings live in memory only.
-/

namespace Htsn

open CText Keyed Run

inductive TimesyncMode where
  | disabled
  | localGrandmaster
  | externalGrandmaster
  | auto
deriving DecidableEq

def timesyncModeStr : TimesyncMode → CStr
  | .disabled => "disabled".toList
  | .localGrandmaster => "local_grandmaster".toList
  | .externalGrandmaster => "external_grandmaster".toList
  | .auto => "auto".toList

def timesyncModeParse (s : CStr) : TimesyncMode :=
  if s = "local_grandmaster".toList then .localGrandmaster
  else if s = "external_grandmaster".toList then .externalGrandmaster
  else if s = "auto".toList then .auto
  else .disabled

@[simp] theorem timesyncModeParse_modeStr (m : TimesyncMode) :
    timesyncModeParse (timesyncModeStr m) = m := by
  cases m <;> decide

def timesyncValidateMode (_ : TimesyncMode) : HtsnError := .ok

/-- `htsn_timesync_status`, without the members that only the reports use. -/
structure TimesyncStatus where
  mode : TimesyncMode
  grandmaster : Str
  offsetNs : Int64
  jitterNs : Int64
  quality : Int32
  protocol : Buf 32
deriving DecidableEq

structure TimesyncRow where
  id : CStr
  mode : CStr
  grandmaster : Str
  offsetNs : Int64
  quality : Int32
  jitterNs : Int64

instance : PrimaryKey TimesyncRow CStr := ⟨TimesyncRow.id⟩

/-- An opened database: its columns and the rows of `timesync_status`. -/
structure TimesyncDb where
  file : DbFile
  status : Table TimesyncRow

/-- The columns named by the INSERT and by the SELECT. -/
def timesyncColumns : List Column := [.id, .mode, .grandmaster, .offsetNs, .quality, .jitterNs]

def timesyncPrepares (db : TimesyncDb) : Bool :=
  preparesOn db.file .timesyncStatus timesyncColumns

def timesyncRow (s : TimesyncStatus) : TimesyncRow where
  id := "global".toList
  mode := timesyncModeStr s.mode
  grandmaster := s.grandmaster
  offsetNs := s.offsetNs
  quality := s.quality
  jitterNs := s.jitterNs

def dbTimesyncSave (db : TimesyncDb) (s : TimesyncStatus) : HtsnError × TimesyncDb :=
  if timesyncPrepares db then (.ok, { db with status := db.status.upsert (timesyncRow s) })
  else (.db, db)

def dbTimesyncLoad (db : TimesyncDb) : Except HtsnError TimesyncStatus :=
  if timesyncPrepares db then
    match db.status.find "global".toList with
    | none => .error .notFound
    | some r =>
        .ok {
          mode := timesyncModeParse r.mode
          grandmaster := r.grandmaster
          offsetNs := r.offsetNs
          jitterNs := r.jitterNs
          quality := r.quality
          protocol := .empty }
  else .error .db

/-- The database and `m->status`. -/
structure TimesyncSystem where
  db : TimesyncDb
  status : TimesyncStatus

def timesyncDefault : TimesyncStatus where
  mode := .disabled
  grandmaster := .empty
  offsetNs := 0
  jitterNs := 0
  quality := 0
  protocol := Buf.copy 32 "gptp".toList

def timesyncManagerLoad (db : TimesyncDb) : TimesyncStatus :=
  match dbTimesyncLoad db with
  | .ok s => s
  | .error _ => timesyncDefault

def timesyncManagerCreate (db : TimesyncDb) : TimesyncSystem := ⟨db, timesyncManagerLoad db⟩

/-- The mode goes through `htsn_timesync_validate_mode`, whose answer is not
looked at. -/
def timesyncManagerSetMode (m : TimesyncSystem) (mode : TimesyncMode) :
    HtsnError × TimesyncSystem :=
  let _ := timesyncValidateMode mode
  let status := { m.status with mode := mode }
  (.ok, ⟨(dbTimesyncSave m.db status).2, status⟩)

def timesyncManagerSetGrandmaster (m : TimesyncSystem) (gm : CStr) : HtsnError × TimesyncSystem :=
  let status := { m.status with grandmaster := Buf.copy 256 gm }
  (.ok, ⟨(dbTimesyncSave m.db status).2, status⟩)

inductive TimesyncOp where
  | setMode (mode : TimesyncMode)
  | setGrandmaster (gm : CStr)

def timesyncStep (m : TimesyncSystem) : TimesyncOp → TimesyncSystem
  | .setMode mode => (timesyncManagerSetMode m mode).2
  | .setGrandmaster gm => (timesyncManagerSetGrandmaster m gm).2

/-- The last mode set, if any call set one. -/
def lastMode (ops : List TimesyncOp) : Option TimesyncMode :=
  ops.foldl (fun last op => match op with
    | .setMode mode => some mode
    | .setGrandmaster _ => last) none

/-- The last grandmaster set, as it fits `char grandmaster[HTSN_MAX_STR]`. -/
def lastGrandmaster (ops : List TimesyncOp) : Option Str :=
  ops.foldl (fun last op => match op with
    | .setMode _ => last
    | .setGrandmaster gm => some (Buf.copy 256 gm)) none

/-- A manager created on the database that a run of another one left has the
last mode and the last grandmaster set in that run. -/
def TimesyncDurable (db : TimesyncDb) (ops : List TimesyncOp) : Prop :=
  let fresh := timesyncManagerCreate (run timesyncStep (timesyncManagerCreate db) ops).db
  (∀ mode ∈ lastMode ops, fresh.status.mode = mode) ∧
    ∀ gm ∈ lastGrandmaster ops, fresh.status.grandmaster = gm

/-- Every call leaves the status it saved, and saves if it can. -/
theorem timesyncStep_db (m : TimesyncSystem) (op : TimesyncOp) :
    (timesyncStep m op).db = (dbTimesyncSave m.db (timesyncStep m op).status).2 := by
  cases op <;> rfl

theorem dbTimesyncSave_file (db : TimesyncDb) (s : TimesyncStatus) :
    (dbTimesyncSave db s).2.file = db.file := by
  unfold dbTimesyncSave
  split <;> rfl

theorem run_timesync_file (m : TimesyncSystem) (ops : List TimesyncOp) :
    (run timesyncStep m ops).db.file = m.db.file := by
  have hstep : ∀ (s : TimesyncSystem) (op : TimesyncOp), s.db.file = m.db.file →
      (timesyncStep s op).db.file = m.db.file := by
    intro s op hs
    rw [timesyncStep_db, dbTimesyncSave_file, hs]
  exact run_invariant hstep rfl ops

theorem run_timesync_concat (m : TimesyncSystem) (ops : List TimesyncOp) (op : TimesyncOp) :
    run timesyncStep m (ops ++ [op]) = timesyncStep (run timesyncStep m ops) op :=
  List.foldl_concat _ _ _ _

/-- In memory the last settings are always there. -/
theorem run_timesync_status (m : TimesyncSystem) (ops : List TimesyncOp) :
    (∀ mode ∈ lastMode ops, (run timesyncStep m ops).status.mode = mode) ∧
      ∀ gm ∈ lastGrandmaster ops, (run timesyncStep m ops).status.grandmaster = gm := by
  induction ops using List.reverseRecOn with
  | nil => simp [lastMode, lastGrandmaster]
  | append_singleton ops op ih =>
      rw [run_timesync_concat]
      cases op with
      | setMode mode =>
          refine ⟨?_, ?_⟩
          · simp [lastMode, timesyncStep, timesyncManagerSetMode]
          · simpa [lastGrandmaster, timesyncStep, timesyncManagerSetMode] using ih.2
      | setGrandmaster gm =>
          refine ⟨?_, ?_⟩
          · simpa [lastMode, timesyncStep, timesyncManagerSetGrandmaster] using ih.1
          · simp [lastGrandmaster, timesyncStep, timesyncManagerSetGrandmaster]

/-- Where the statements prepare, a save is read back. -/
theorem timesyncManagerLoad_save {db : TimesyncDb} (h : timesyncPrepares db = true)
    (s : TimesyncStatus) :
    (timesyncManagerLoad (dbTimesyncSave db s).2).mode = s.mode ∧
      (timesyncManagerLoad (dbTimesyncSave db s).2).grandmaster = s.grandmaster := by
  have hfile : timesyncPrepares (dbTimesyncSave db s).2 = true := by
    unfold timesyncPrepares
    rw [dbTimesyncSave_file]
    exact h
  have hfind : (dbTimesyncSave db s).2.status.find "global".toList = some (timesyncRow s) := by
    simp only [dbTimesyncSave, h, if_true]
    rw [Table.find_upsert]
    exact if_pos rfl
  have hload : timesyncManagerLoad (dbTimesyncSave db s).2 =
      { s with protocol := .empty } := by
    unfold timesyncManagerLoad dbTimesyncLoad
    have hmode : timesyncModeParse (timesyncRow s).mode = s.mode := timesyncModeParse_modeStr s.mode
    rw [hfile, if_pos rfl, hfind]
    simp only [hmode]
    rfl
  rw [hload]
  exact ⟨rfl, rfl⟩

/-- Where they do not, a new manager starts from the defaults. -/
theorem timesyncManagerLoad_unprepared {db : TimesyncDb} (h : timesyncPrepares db = false) :
    timesyncManagerLoad db = timesyncDefault := by
  simp [timesyncManagerLoad, dbTimesyncLoad, h]

theorem timesyncDurable_iff (db : TimesyncDb) (ops : List TimesyncOp) :
    TimesyncDurable db ops ↔ timesyncPrepares db = true ∨
      (∀ mode ∈ lastMode ops, mode = .disabled) ∧ ∀ gm ∈ lastGrandmaster ops, gm = .empty := by
  have hfile : ∀ m : TimesyncSystem, m.db = db →
      timesyncPrepares (run timesyncStep m ops).db = timesyncPrepares db := by
    intro m hm
    unfold timesyncPrepares
    rw [run_timesync_file, hm]
  cases hprep : timesyncPrepares db with
  | true =>
      refine iff_of_true ?_ (Or.inl rfl)
      rcases List.eq_nil_or_concat ops with rfl | ⟨before, op, rfl⟩
      · simp [TimesyncDurable, lastMode, lastGrandmaster]
      · obtain ⟨hmode, hgm⟩ := run_timesync_status (timesyncManagerCreate db) (before ++ [op])
        have hbefore : timesyncPrepares (run timesyncStep (timesyncManagerCreate db) before).db =
            true := by
          unfold timesyncPrepares
          rw [run_timesync_file]
          exact hprep
        have hload := timesyncManagerLoad_save hbefore
          (run timesyncStep (timesyncManagerCreate db) (before ++ [op])).status
        rw [run_timesync_concat, ← timesyncStep_db, ← run_timesync_concat] at hload
        simp only [List.concat_eq_append, TimesyncDurable, timesyncManagerCreate] at *
        exact ⟨fun mode hm => hload.1.trans (hmode mode hm),
          fun gm hg => hload.2.trans (hgm gm hg)⟩
  | false =>
      have hload := timesyncManagerLoad_unprepared
        ((hfile (timesyncManagerCreate db) rfl).trans hprep)
      simp only [TimesyncDurable, timesyncManagerCreate] at hload ⊢
      rw [hload]
      simp only [timesyncDefault, Bool.false_eq_true, false_or, eq_comm]

/-- The columns that an existing file brings for `timesync_status`, if it
brings the table. -/
def DbFile.HasTimesyncColumns (f : DbFile) : Prop :=
  ∃ cs, f.columns .timesyncStatus = some cs ∧ ∀ c ∈ timesyncColumns, c ∈ cs

theorem timesyncPrepares_dbOpen (f : DbFile) (rows : Table TimesyncRow) :
    timesyncPrepares ⟨dbOpen f, rows⟩ = true ↔ f.HasTimesyncColumns := by
  have hcolumns := @dbOpen_columns f .timesyncStatus (by decide) (by decide)
  have hplain : ∀ c ∈ timesyncColumns, c.isReserved = false := by
    simp only [Column.isReserved_eq]
    decide
  simp only [timesyncPrepares, preparesOn, hcolumns, List.all_eq_true, Bool.and_eq_true,
    Bool.not_eq_true', List.contains_iff_mem]
  constructor
  · intro h
    cases hf : f.columns .timesyncStatus with
    | none =>
        have hjitter := (h .jitterNs (by decide)).2
        rw [hf, Option.getD_none] at hjitter
        exact absurd hjitter (by decide)
    | some cs =>
        refine ⟨cs, hf, fun c hc => ?_⟩
        simpa [hf] using (h c hc).2
  · rintro ⟨cs, hf, hall⟩ c hc
    rw [hf, Option.getD_some]
    exact ⟨hplain c hc, hall c hc⟩

/-- For every file, fresh or brought along, and every sequence of calls, a
new manager has the last settings if and only if the file brought a
`timesync_status` with all the columns that the statements name, or the last
settings are the defaults. -/
theorem timesync_settings_durable_iff (f : DbFile) (rows : Table TimesyncRow)
    (ops : List TimesyncOp) :
    TimesyncDurable ⟨dbOpen f, rows⟩ ops ↔ f.HasTimesyncColumns ∨
      (∀ mode ∈ lastMode ops, mode = .disabled) ∧ ∀ gm ∈ lastGrandmaster ops, gm = .empty := by
  rw [timesyncDurable_iff, timesyncPrepares_dbOpen]

/-- On a fresh database a mode is gone after a restart. -/
theorem timesync_mode_lost :
    ¬ TimesyncDurable ⟨dbOpen .fresh, .empty⟩ [.setMode .auto] := by
  intro h
  exact absurd (h.1 .auto rfl) (by decide)

end Htsn
