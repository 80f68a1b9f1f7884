import WirelessTsn.Db.Schema

/-!
`htsn_db_open` and `htsn_db_migrate`, as far as they decide which columns a
table has. `CREATE TABLE IF NOT EXISTS` leaves a table that an existing file
brings along as it is, so a migrated database need not have the columns of
`SCHEMA`. A statement is prepared against the columns of the opened file.
-/

namespace Htsn

open CText

/-- The tables of a database file with their columns, and its
`PRAGMA user_version`. -/
structure DbFile where
  columns : TableName → Option (List Column)
  userVersion : Int

/-- A file that does not exist yet. -/
def DbFile.fresh : DbFile := ⟨fun _ => none, 0⟩

/-- `SCHEMA`, statement by statement. -/
def createTables (f : DbFile) : DbFile :=
  { f with columns := fun t => some ((f.columns t).getD t.columns) }

/-- `ALTER TABLE t ADD COLUMN c`; a duplicate column is an error that
`run_migration` passes over. -/
def runMigration (f : DbFile) (t : TableName) (c : Column) : DbFile :=
  { f with
    columns := fun t' =>
      if t' = t then (f.columns t').map fun cs => if c ∈ cs then cs else cs ++ [c]
      else f.columns t' }

def dbMigrate (f : DbFile) : DbFile :=
  let f := createTables f
  let f :=
    if f.userVersion < 1 then
      let f := runMigration f .qosConfigs .preemption
      let f := runMigration f .devices .domain
      let f := runMigration f .devices .heartbeatAt
      { f with userVersion := 1 }
    else f
  if f.userVersion < 2 then { f with userVersion := 2 } else f

def dbOpen (f : DbFile) : DbFile := dbMigrate f

/-- `sqlite3_prepare_v2(..) == SQLITE_OK` for a statement on table `t` that
names the columns `cs` without quotes. -/
def preparesOn (f : DbFile) (t : TableName) (cs : List Column) : Bool :=
  match f.columns t with
  | none => false
  | some have_ => cs.all fun c => !c.isReserved && have_.contains c

/-- No migration step touches a table other than `qos_configs` and
`devices`. -/
theorem dbOpen_columns (f : DbFile) {t : TableName} (hqos : t ≠ .qosConfigs)
    (hdevices : t ≠ .devices) : (dbOpen f).columns t = some ((f.columns t).getD t.columns) := by
  simp only [dbOpen, dbMigrate]
  split
  · split <;> simp [runMigration, createTables, hqos, hdevices]
  · split <;> rfl

end Htsn
