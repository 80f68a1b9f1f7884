import WirelessTsn.Esp32.Json
import WirelessTsn.Lib.Table

/-!
The command handlers of the ESP32 agent for a configuration snapshot and for a
stream (`esp32-agent/main/main.c`) and the state they write
(`esp32-agent/components/htsn_agent/htsn_tsn.c`). A handler returns `none`
when a search in the payload reads outside it, and else the new state and the
acknowledgement. The call of the PTP control plane is left out.
-/

namespace Htsn.Esp32

open CText Json Keyed

/-- `htsn_tsn_state`; `gcl` holds the first `gcl_entries` places of `gates` and
`durations`, which are zero behind them. -/
structure TsnState where
  priority : Int32 := 0
  trafficClass : Int32 := 0
  preemption : Int32 := 0
  vlanId : Int32 := 0
  timesyncMode : Int32 := 0
  tasCycleNs : Int64 := 0
  gcl : List (Int32 × Int64) := []
  deriving DecidableEq

/-- `htsn_config_snapshot` -/
structure ConfigSnapshot where
  priority : Int32
  trafficClass : Int32
  bandwidthKbps : Int32
  latencyMs : Int32
  preemption : Int32
  vlanId : Int32
  group : Buf 32
  timesyncMode : Int32
  grandmaster : Buf 32
  tasCycleNs : Int64
  gcl : List (Int32 × Int64)

/-- `HTSN_GCL_MAX` -/
def gclMax : Nat := 32

/-- `HTSN_STREAM_MAX_LISTENERS` -/
def streamMaxListeners : Nat := 8

/-- `HTSN_STREAM_MAX` -/
def streamMax : Nat := 8

/-- The agent's `htsn_stream`. -/
structure Stream where
  streamId : Buf 48
  name : Buf 64
  talker : Buf 64
  listeners : List CStr
  vlanId : Int32
  maxLatencyNs : Int64
  maxIntervalNs : Int64
  priority : Int32
  dataFramePrio : Int32
  deriving DecidableEq

def Stream.key (s : Stream) : CStr := s.streamId.chars

/-- `g_state`, its copy in NVS, and `g_streams`. -/
structure Agent where
  state : TsnState := {}
  saved : Option TsnState := none
  streams : Slots Stream streamMax := .empty

/-- What `send_ack` is called with. -/
structure Ack where
  ok : Bool
  reason : CStr
  deriving DecidableEq

/-! ### Applying -/

def applyQos (t : TsnState) (priority trafficClass _bwKbps _latMs preemption : Int32) : TsnState :=
  { t with priority, trafficClass, preemption }

def applyVlan (t : TsnState) (vlanId : Int32) (_group : CStr) : TsnState := { t with vlanId }

def applyTimesync (t : TsnState) (mode : Int32) (_gm : CStr) : TsnState :=
  { t with timesyncMode := mode }

def applyTas (t : TsnState) (cycleNs : Int64) (gcl : List (Int32 × Int64)) : TsnState :=
  { t with tasCycleNs := cycleNs, gcl := gcl.take gclMax }

def applyPreemption (t : TsnState) (preemption : Int32) (_emac _pmac : CStr) : TsnState :=
  { t with preemption }

/-- `htsn_tsn_apply_snapshot`, which always returns 0. -/
def tsnApplySnapshot (a : Agent) (cfg : ConfigSnapshot) : Agent :=
  let t := applyQos a.state cfg.priority cfg.trafficClass cfg.bandwidthKbps cfg.latencyMs
    cfg.preemption
  let t := applyVlan t cfg.vlanId cfg.group.chars
  let t := applyTimesync t cfg.timesyncMode cfg.grandmaster.chars
  let t := applyTas t cfg.tasCycleNs cfg.gcl
  let t := applyPreemption t cfg.preemption [] []
  { a with state := t, saved := some t }

/-- `htsn_tsn_apply_stream`; `none` where it returns -1. -/
def tsnApplyStream (a : Agent) (s : Stream) : Option Agent :=
  if s.listeners.length > streamMaxListeners then none
  else if h : HasKey Stream.key s.key a.streams.items then
    some { a with
      streams := a.streams.edit (upsertBy Stream.key s) (length_upsertBy_of_hasKey h).le }
  else if a.streams.items.length ≥ streamMax then none
  else some { a with streams := a.streams.push s }

/-! ### The handlers -/

/-- `apply_snapshot` -/
def applySnapshot (a : Agent) (payload : CStr) : Option (Agent × Ack) :=
  if payload.head? ≠ some '\x7b' then some (a, ⟨false, "bad_json".toList⟩)
  else do
    let prio ← getInt payload "priority".toList
    let trafficClass ← getInt payload "traffic_class".toList
    let bandwidthKbps ← getInt payload "bandwidth_kbps".toList
    let latencyMs ← getInt payload "latency_ms".toList
    let preemption ← getInt payload "preemption".toList
    let vlanId ← getInt payload "vlan_id".toList
    let group ← getStr payload "group".toList 32
    let timesyncMode ← getInt payload "timesync_mode".toList
    let grandmaster ← getStr payload "grandmaster".toList 32
    let tasCycleNs ← getI64 payload "tas_cycle_ns".toList
    let arr ← getRootArray payload "gcl".toList
    let gcl ←
      match arr with
      | some p => parseGcl p gclMax
      | none => some []
    let cfg : ConfigSnapshot :=
      { priority := prio.getD 0
        trafficClass := trafficClass.getD 0
        bandwidthKbps := bandwidthKbps.getD 0
        latencyMs := latencyMs.getD 0
        preemption := preemption.getD 0
        vlanId := vlanId.getD 0
        group := Buf.copy 32 (group.getD [])
        timesyncMode := timesyncMode.getD 0
        grandmaster := Buf.copy 32 (grandmaster.getD [])
        tasCycleNs := tasCycleNs.getD 0
        gcl }
    if prio.isSome ∧ (cfg.priority < 0 ∨ cfg.priority > 7) then
      some (a, ⟨false, "bad_priority".toList⟩)
    else if cfg.preemption < 0 ∨ cfg.preemption > 1 then
      some (a, ⟨false, "bad_preemption".toList⟩)
    else if cfg.timesyncMode < 0 ∨ cfg.timesyncMode > 3 then
      some (a, ⟨false, "bad_timesync_mode".toList⟩)
    else some (tsnApplySnapshot a cfg, ⟨true, []⟩)

/-- The `stream` branch of `on_command`. -/
def onStream (a : Agent) (payload : CStr) : Option (Agent × Ack) := do
  let streamId ← getStr payload "stream_id".toList 48
  let name ← getStr payload "name".toList 64
  let talker ← getStr payload "talker".toList 64
  let vlanId ← getInt payload "vlan_id".toList
  let maxLatencyNs ← getI64 payload "max_latency_ns".toList
  let maxIntervalNs ← getI64 payload "max_interval_ns".toList
  let priority ← getInt payload "priority".toList
  let dataFramePrio ← getInt payload "data_frame_prio".toList
  let arr ← getRootArray payload "listeners".toList
  let s : Stream :=
    { streamId := Buf.copy 48 (streamId.getD [])
      name := Buf.copy 64 (name.getD [])
      talker := Buf.copy 64 (talker.getD [])
      listeners := (arr.map fun p => parseStrArray p streamMaxListeners).getD []
      vlanId := vlanId.getD 0
      maxLatencyNs := maxLatencyNs.getD 0
      maxIntervalNs := maxIntervalNs.getD 0
      priority := priority.getD 0
      dataFramePrio := dataFramePrio.getD 0 }
  if s.streamId.chars = [] then some (a, ⟨false, "stream_invalid".toList⟩)
  else
    match tsnApplyStream a s with
    | some a' => some (a', ⟨true, []⟩)
    | none => some (a, ⟨false, "stream_invalid".toList⟩)

end Htsn.Esp32
