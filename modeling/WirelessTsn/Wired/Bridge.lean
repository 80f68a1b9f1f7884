import WirelessTsn.Lib.Scanf
import WirelessTsn.Wired.Config

/-!
The configuration half of the Raspberry Pi bridge
(`rpi-tsn/tsn_opcua_bridge.c`): its substring JSON readers, the encoder and
the sender of a TSN configuration, the poll of the `cmd_tsn_config` node with
its keepalive, and the telemetry branch that writes the `tsn_app_*` nodes.
-/

namespace Htsn

open CText

/-! ### JSON field extractors -/

def isBlank (c : Char) : Bool := c == ' ' || c == '\t'

/-- The search pattern for a key, as `snprintf(pat, 64, ..)` leaves it. -/
def jpat (key : CStr) : CStr := (('"' :: key) ++ ['"', ':']).take 63

def jfind (buf key : CStr) : Option CStr :=
  (strstr (jpat key) buf).map fun p => (p.drop (jpat key).length).dropWhile isBlank

def jint (buf key : CStr) (dflt : Int64) : Int64 :=
  match jfind buf key with
  | some p => strtoll p
  | none => dflt

/-- The loop of `jintarr`, with `n` places left in the output. -/
def jintarrLoop : Nat → CStr → List Int64
  | 0, _ => []
  | n + 1, p =>
      let p := p.dropWhile isBlank
      if p.head? = some ']' then []
      else
        match scanInt p with
        | none => []
        | some (v, rest) =>
            toCLongLong v :: jintarrLoop n (rest.dropWhile fun c => c == ' ' || c == ',')

def jintarr (buf key : CStr) (maxn : Nat) : List Int64 :=
  match jfind buf key with
  | some ('[' :: p) => jintarrLoop maxn p
  | _ => []

/-! ### Sending a configuration -/

/-- What the bridge remembers between polls. -/
structure Bridge where
  epKnown : Bool := false
  lastTsn : CStr := []
  lastKeepalive : Int := 0
  deriving DecidableEq, Repr

def cfgOfJson (json : CStr) : TsnCfg :=
  let gs := jintarr json "gcl_gs".toList maxGcl
  let dur := jintarr json "gcl_dur".toList maxGcl
  { priority := (jint json "priority".toList 0).toBitVec.setWidth 8
    trafficClass := (jint json "traffic_class".toList 0).toBitVec.setWidth 8
    vlanId := (jint json "vlan_id".toList 0).toBitVec.setWidth 16
    preemption := (jint json "preemption".toList 0).toBitVec.setWidth 8
    timesyncMode := (jint json "timesync_mode".toList 0).toBitVec.setWidth 8
    streamRole := (jint json "st_role".toList 0).toBitVec.setWidth 8
    streamVlanId := (jint json "st_vlan".toList 0).toBitVec.setWidth 16
    streamPriority := (jint json "st_prio".toList 0).toBitVec.setWidth 8
    tasCycleNs := (jint json "tas_cycle_ns".toList 0).toBitVec
    gclCount := BitVec.ofNat 16 (min gs.length dur.length) }

/-- The loop that appends the gate entries while a whole one still fits. -/
def appendGcl (pl : List Byte) : List (Int64 × Int64) → List Byte
  | [] => pl
  | (gs, dur) :: rest =>
      if pl.length + gclEntrySize ≤ frameMaxplen then
        appendGcl (pl ++ gclEntryBytes (gs.toBitVec, dur.toBitVec)) rest
      else pl

/-- The payload `push_tsn_config` builds. -/
def tsnPayload (json : CStr) : List Byte :=
  appendGcl (cfgOfJson json).toBytes
    ((jintarr json "gcl_gs".toList maxGcl).zip (jintarr json "gcl_dur".toList maxGcl))

/-- `push_tsn_config`; `ok` is whether `sendto` succeeds. Returned with the
bridge is the frame that leaves it. -/
def pushTsnConfig (b : Bridge) (json : CStr) (ok : Bool) : Bridge × Option (List Byte) :=
  if b.epKnown then
    match Rpi.htsnFramePack typeCmd kindCmdTsnCfg (tsnPayload json) with
    | none => (b, none)
    | some frame =>
        if ok then ({ b with lastTsn := json.take frameMaxplen }, some frame) else (b, none)
  else (b, none)

/-- What the environment decides at a poll: the value read from the
`cmd_tsn_config` node (`none` when the read fails), the time, and the results
of the two `sendto` calls. -/
structure PollInput where
  node : Option CStr
  now : Int
  pushOk : Bool
  keepaliveOk : Bool
  deriving DecidableEq, Repr

/-- The first part of `poll_commands`: a snapshot that differs from the last
one sent is forwarded. -/
def pollPush (b : Bridge) (i : PollInput) : Bridge × Option (List Byte) :=
  match i.node with
  | none => (b, none)
  | some us =>
      let s := us.take frameMaxplen
      if s ≠ [] ∧ s ≠ b.lastTsn then pushTsnConfig b s i.pushOk else (b, none)

/-- The keepalive of `poll_commands`. -/
def pollKeepalive (b : Bridge) (i : PollInput) : Bridge × Option (List Byte) :=
  if b.lastTsn ≠ [] ∧ i.now - b.lastKeepalive ≥ 10 then
    let (b', sent) := pushTsnConfig b b.lastTsn i.keepaliveOk
    ({ b' with lastKeepalive := i.now }, sent)
  else (b, none)

/-- `poll_commands` up to the actuators, with the frames it sends. The main
loop calls it once the endpoint is known. -/
def pollCommands (b : Bridge) (i : PollInput) : Bridge × List (List Byte) :=
  if b.epKnown then
    let (b₁, push) := pollPush b i
    let (b₂, keepalive) := pollKeepalive b₁ i
    (b₂, push.toList ++ keepalive.toList)
  else (b, [])

/-! ### Receiving telemetry -/

/-- The `tsn_app_*` nodes and `tsn_features`. -/
structure AppNodes where
  vlan : BitVec 16 := 0
  prio : Byte := 0
  preempt : Byte := 0
  timesync : Byte := 0
  strole : Byte := 0
  stvlan : BitVec 16 := 0
  tascyc : BitVec 64 := 0
  features : BitVec 32 := 0
  deriving DecidableEq, Repr

/-- The nodes a configuration is shown in, next to a feature word. -/
def AppNodes.ofCfg (c : TsnCfg) (features : BitVec 32) : AppNodes :=
  { vlan := c.vlanId, prio := c.priority, preempt := c.preemption, timesync := c.timesyncMode,
    strole := c.streamRole, stvlan := c.streamVlanId, tascyc := c.tasCycleNs, features }

/-- The nodes show a configuration. -/
def AppNodes.Shows (n : AppNodes) (c : TsnCfg) : Prop := n = AppNodes.ofCfg c n.features

/-- `on_telemetry`, as far as it writes the `tsn_app_*` nodes; every other kind
writes other nodes. -/
def onTelemetry (n : AppNodes) (kind : Byte) (pl : List Byte) : AppNodes :=
  if kind = kindTelemTsnApplied then
    if pl.length < cfgSize then n
    else
      let cfg := TsnCfg.ofBytes pl
      let gclBytes := cfg.gclCount.toNat * gclEntrySize
      let feat :=
        if pl.length ≥ cfgSize + gclBytes + 4 then
          let byte := fun i => (pl.getD (cfgSize + gclBytes + i) 0).setWidth 32
          byte 0 ||| byte 1 <<< 8 ||| byte 2 <<< 16 ||| byte 3 <<< 24
        else 0
      AppNodes.ofCfg cfg feat
  else n

/-- The receive branch of the main loop: the source is learned and a telemetry
frame is handed on. -/
def bridgeRecv (b : Bridge) (n : AppNodes) (buf : List Byte) : Bridge × AppNodes :=
  ({ b with epKnown := true },
    match Rpi.htsnFrameUnpack buf with
    | some u => if u.type = typeTelem then onTelemetry n u.kind u.payload else n
    | none => n)

/-! ### Lengths -/

theorem appendGcl_length_le (pl : List Byte) (es : List (Int64 × Int64)) :
    pl.length ≤ (appendGcl pl es).length ∧
      (appendGcl pl es).length ≤ pl.length + gclEntrySize * es.length := by
  induction es generalizing pl with
  | nil => simp [appendGcl]
  | cons e es ih =>
      obtain ⟨gs, dur⟩ := e
      rw [appendGcl]
      split
      · have hnext := ih (pl ++ gclEntryBytes (gs.toBitVec, dur.toBitVec))
        simp only [List.length_append, gclEntryBytes_length, List.length_cons,
          Nat.mul_succ] at hnext ⊢
        omega
      · omega

theorem jintarrLoop_length_le (n : Nat) (p : CStr) : (jintarrLoop n p).length ≤ n := by
  induction n generalizing p with
  | zero => simp [jintarrLoop]
  | succ n ih =>
      simp only [jintarrLoop]
      split
      · simp
      · split
        · simp
        · simpa using ih _

theorem jintarr_length_le (buf key : CStr) (n : Nat) : (jintarr buf key n).length ≤ n := by
  unfold jintarr
  split
  · exact jintarrLoop_length_le _ _
  · simp

/-- A configuration always fits a frame, and the endpoint's bounds. -/
theorem tsnPayload_length (json : CStr) :
    cfgSize ≤ (tsnPayload json).length ∧ (tsnPayload json).length ≤ frameMaxplen - 4 := by
  have hgs := jintarr_length_le json "gcl_gs".toList maxGcl
  have hbound := appendGcl_length_le (cfgOfJson json).toBytes
    ((jintarr json "gcl_gs".toList maxGcl).zip (jintarr json "gcl_dur".toList maxGcl))
  rw [TsnCfg.toBytes_length, List.length_zip] at hbound
  unfold tsnPayload
  simp only [cfgSize, frameMaxplen, maxGcl, gclEntrySize] at *
  omega

/-- The frame of a pushed configuration. -/
def cfgFrame (json : CStr) : List Byte :=
  frameHead Rpi.frameConsts typeCmd kindCmdTsnCfg (tsnPayload json) ++
    [lo8 (Rpi.htsnCrc16 (frameHead Rpi.frameConsts typeCmd kindCmdTsnCfg (tsnPayload json))),
      hi8 (Rpi.htsnCrc16 (frameHead Rpi.frameConsts typeCmd kindCmdTsnCfg (tsnPayload json)))]

theorem framePack_cfgFrame (json : CStr) :
    Rpi.htsnFramePack typeCmd kindCmdTsnCfg (tsnPayload json) = some (cfgFrame json) := by
  rw [framePack_eq_some]
  have h := (tsnPayload_length json).2
  simp only [frameMaxplen] at h
  exact ⟨by omega, rfl⟩

/-- A push to a known endpoint sends the frame unless `sendto` fails. -/
theorem pushTsnConfig_eq {b : Bridge} (hknown : b.epKnown = true) (json : CStr) (ok : Bool) :
    pushTsnConfig b json ok =
      if ok then ({ b with lastTsn := json.take frameMaxplen }, some (cfgFrame json))
      else (b, none) := by
  rw [pushTsnConfig, if_pos hknown, framePack_cfgFrame]

end Htsn
