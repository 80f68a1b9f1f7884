import WirelessTsn.Db.Config

/-!
`gcl.c` and `tas.c`: gate control lists and the check that a schedule has to
pass before it is saved. `total` is an `int64_t` and wraps.
-/

namespace Htsn

open CText

/-- `HTSN_GATE_OPEN` -/
def gateOpen : UInt8 := 1

/-- `htsn_gcl`; `entries` holds the first `entry_count` entries. -/
structure Gcl where
  entries : Slots GclEntry maxGclEntries
  cycleTimeNs : Int64
deriving DecidableEq

def gclInit (cycleTimeNs : Int64) : Except HtsnError Gcl :=
  if cycleTimeNs ≤ 0 then .error .invalidArg else .ok ⟨.empty, cycleTimeNs⟩

def gclAddEntry (gcl : Gcl) (gateState : UInt8) (durationNs : Int64) : HtsnError × Gcl :=
  if durationNs < 0 ∨ gcl.entries.items.length ≥ maxGclEntries then (.invalidArg, gcl)
  else (.ok, { gcl with entries := gcl.entries.push ⟨gateState, durationNs⟩ })

def gclTotalDurationNs (gcl : Gcl) : Int64 :=
  gcl.entries.items.foldl (fun total e => total + e.durationNs) 0

def gclIsValid (gcl : Gcl) : Bool :=
  if gcl.entries.items.length = 0 then false
  else decide (gclTotalDurationNs gcl = gcl.cycleTimeNs)

/-- `htsn_tas_schedule_model` -/
structure TasScheduleModel where
  id : Str
  name : Str
  cycleTimeNs : Int64
  deployTarget : Str
  gcl : Gcl
deriving DecidableEq

def tasValidate (s : TasScheduleModel) : HtsnError :=
  if s.cycleTimeNs ≤ 0 then .invalidArg
  else if !gclIsValid s.gcl then .invalidArg
  else if s.name.chars.length = 0 then .invalidArg
  else .ok

end Htsn
