import WirelessTsn.Agent.Host
import WirelessTsn.Lib.Mqtt
import WirelessTsn.Lib.Trace
import WirelessTsn.Common

/-!
`on_message` of the host agent (`src/agent/agent.c`) under the subscriptions
`tsn/cmd/#` and `tsn/fx/#`. The broker hands on the commands of every device
and the handler does not look at the device in the topic, so the agent answers
all of them, in its own name. It stays quiet only when a snapshot keeps
`json_val` in its loop before the first operation is called.
-/

namespace Htsn.Host

open CText Json Mqtt

/-! ### The agent -/

inductive Platform where
  | linux
  | raspberryPi
  | esp32
  | stm32
  | nxp
  deriving DecidableEq

/-- `agt_platform_from_string` -/
def platformFromString (s : CStr) : Platform :=
  if s = "esp32".toList then .esp32
  else if s = "raspberry_pi".toList ∨ s = "rpi".toList then .raspberryPi
  else if s = "stm32".toList then .stm32
  else if s = "nxp".toList then .nxp
  else .linux

/-- The platforms with the Linux adapter. -/
def Platform.isLinux : Platform → Bool
  | .linux | .raspberryPi => true
  | .esp32 | .stm32 | .nxp => false

/-- `htsn_agent`; `mqtt` is set when there is a client to publish with. -/
structure Agent where
  deviceId : Str
  platform : Platform
  mqttHost : Buf 128
  mqttPort : Int32
  mqtt : Bool := false

/-- `htsn_agent_create` -/
def Agent.create (deviceId platformStr : CStr) (mqttHost : Option CStr) (mqttPort : Int32) : Agent where
  deviceId := Buf.copy 256 deviceId
  platform := platformFromString platformStr
  mqttHost := Buf.copy 128 (mqttHost.getD "localhost".toList)
  mqttPort := mqttPort

/-- `htsn_agent_start`; `htsn_mqtt_client_connect` refuses a port that is not
positive and leaves the client without a connection. -/
def Agent.start (a : Agent) : Agent :=
  { a with mqtt := decide (a.mqttHost.chars ≠ [] ∧ 0 < a.mqttPort) }

def Agent.subscriptions (a : Agent) : List CStr :=
  if a.mqtt then ["tsn/cmd/#".toList, "tsn/fx/#".toList] else []

/-- The broker delivers a topic to the agent. -/
def Agent.Delivered (a : Agent) (topic : CStr) : Prop :=
  ∃ filter ∈ a.subscriptions, Delivers filter topic

instance (a : Agent) (topic : CStr) : Decidable (a.Delivered topic) :=
  inferInstanceAs (Decidable (∃ filter ∈ a.subscriptions, Delivers filter topic))

/-- A message and what the handler finds around it. `token_at` returns a
pointer into its own stack frame: `stack` is the text that stands there for a
token when it is read. `sent` is the result of the multicast. -/
structure Message where
  topic : CStr
  payload : CStr
  stack : Nat → CStr
  sent : HtsnError

/-- What the agent does that is seen from outside. -/
inductive Event where
  | op (call : OpCall)
  | publish (topic payload : CStr)
  | multicast (group dataset : CStr)

/-- The result of an operation. The Linux adapter refuses a schedule without
entries, and `agent.c` never hands any on. -/
def Platform.opResult (p : Platform) : OpCall → HtsnError
  | .applyTas _ => if p.isLinux then .invalidArg else .ok
  | .applyQos _ _ _ _ _ | .applyVlan _ _ | .applyTimesync _ _ => .ok

def Agent.call (a : Agent) (call : OpCall) : Trace Event HtsnError := do
  Trace.emit (.op call)
  pure (a.platform.opResult call)

def Agent.publish (a : Agent) (topic payload : CStr) : Trace Event Unit :=
  if a.mqtt then Trace.emit (.publish topic payload) else pure ()

def ackTopic (deviceId : Str) : CStr := (Buf.copy 64 ("tsn/ack/".toList ++ deviceId.chars)).chars

def ackPayload (deviceId : Str) (ok : Bool) : CStr :=
  (Buf.copy 96 ("\x7b\"id\":\"".toList ++ (deviceId.chars ++ ("\",\"ok\":".toList ++
    ((if ok then "true".toList else "false".toList) ++ "\x7d".toList))))).chars

/-- `send_ack` -/
def Agent.sendAck (a : Agent) (ok : Bool) : Trace Event Unit :=
  a.publish (ackTopic a.deviceId) (ackPayload a.deviceId ok)

/-! ### The handler -/

/-- What `apply_snapshot` reads before it calls an operation. -/
structure Snapshot where
  p : Option Int32
  t : Int32
  bw : Int32
  lat : Int32
  pr : Int32
  vid : Int32
  tsmode : Int32
  group : CStr
  gm : CStr

def parseSnapshot (fuel : Nat) (payload : CStr) : Option Snapshot := do
  let p ← jsonGetInt fuel payload "priority".toList
  let t ← jsonGetInt fuel payload "traffic_class".toList
  let bw ← jsonGetInt fuel payload "bandwidth_kbps".toList
  let lat ← jsonGetInt fuel payload "latency_ms".toList
  let pr ← jsonGetInt fuel payload "preemption".toList
  let vid ← jsonGetInt fuel payload "vlan_id".toList
  let tsmode ← jsonGetInt fuel payload "timesync_mode".toList
  let group ← jsonGetStr fuel payload "group".toList 32
  let gm ← jsonGetStr fuel payload "grandmaster".toList 32
  some ⟨p, t.getD 0, bw.getD 0, lat.getD 0, pr.getD 0, vid.getD 0, tsmode.getD 0, group, gm⟩

/-- `apply_snapshot`, with the operations in the order of their calls. -/
def Agent.applySnapshot (a : Agent) (fuel : Nat) (payload : CStr) : Trace Event HtsnError := do
  let s ← Trace.await (parseSnapshot fuel payload)
  if let some p := s.p then
    let _ ← a.call (.applyQos p s.t s.bw s.lat s.pr)
  if s.vid > 0 then
    let _ ← a.call (.applyVlan s.vid s.group)
  let _ ← a.call (.applyTimesync s.tsmode (if s.gm = [] then none else some s.gm))
  let cv ← Trace.await (jsonVal fuel payload "tas_cycle_ns".toList)
  let _ ← a.call (.applyTas (cycleOf cv))
  pure .ok

/-- `token_at` -/
def Message.tokenAt (m : Message) (index : Nat) : CStr :=
  let nparts := ((strtok ':' (Buf.copy 256 m.payload).chars).take 8).length
  if index ≥ nparts then [] else m.stack index

/-- The `fx` branch: a dataset for the field flow, which only the Linux adapter
sends. -/
def Agent.onFx (a : Agent) (m : Message) : Trace Event HtsnError :=
  let group := if m.tokenAt 0 = [] then "239.255.0.1".toList else m.tokenAt 0
  let dataset := if m.tokenAt 1 = [] then "htsnData".toList else m.tokenAt 1
  if a.platform.isLinux then do
    Trace.emit (.multicast group dataset)
    pure m.sent
  else pure .ok

/-- `htsn_agent_handle_command` -/
def Agent.handleCommand (a : Agent) (fuel : Nat) (m : Message) (command : CStr) :
    Trace Event HtsnError :=
  if command = "qos".toList then
    a.call (.applyQos (atoi (m.tokenAt 0)) (atoi (m.tokenAt 1)) (atoi (m.tokenAt 2))
      (atoi (m.tokenAt 3)) (atoi (m.tokenAt 4)))
  else if command = "vlan".toList then a.call (.applyVlan (atoi (m.tokenAt 0)) (m.tokenAt 1))
  else if command = "timesync".toList then
    a.call (.applyTimesync (atoi (m.tokenAt 0)) (some (m.tokenAt 1)))
  else if command = "tas".toList then a.call (.applyTas (atoll m.payload))
  else if command = "stream".toList then a.applySnapshot fuel m.payload
  else if command = "status".toList then do
    a.publish "tsn/status".toList a.deviceId.chars
    pure .ok
  else if command = "fx".toList then a.onFx m
  else pure .notFound

/-- `on_message` -/
def Agent.onMessage (a : Agent) (fuel : Nat) (m : Message) : Trace Event Unit :=
  if strstr "/apply".toList m.topic ≠ none then
    if m.payload.head? = some '\x7b' then do
      let _ ← a.applySnapshot fuel m.payload
      a.sendAck true
    else a.sendAck false
  else do
    let e ← a.handleCommand fuel m (lastLevel m.topic)
    a.sendAck (e = .ok)

/-- A message that is handled as a snapshot. -/
def Message.IsSnapshot (m : Message) : Prop :=
  if strstr "/apply".toList m.topic ≠ none then m.payload.head? = some '\x7b'
  else lastLevel m.topic = "stream".toList

instance (m : Message) : Decidable m.IsSnapshot :=
  inferInstanceAs (Decidable (if strstr "/apply".toList m.topic ≠ none
    then m.payload.head? = some '\x7b' else lastLevel m.topic = "stream".toList))

/-! ### Snapshots -/

variable {a : Agent} {m : Message} {fuel : Nat} {payload : CStr}

/-- The calls of a snapshot before the cycle is read. -/
def Snapshot.calls (s : Snapshot) : List OpCall :=
  (match s.p with
    | some p => [.applyQos p s.t s.bw s.lat s.pr]
    | none => []) ++
  (if s.vid > 0 then [.applyVlan s.vid s.group] else []) ++
  [.applyTimesync s.tsmode (if s.gm = [] then none else some s.gm)]

@[simp] theorem Agent.call_bind {β : Type} (a : Agent) (c : OpCall) (f : HtsnError → Trace Event β) :
    a.call c >>= f =
      ⟨.op c :: (f (a.platform.opResult c)).events, (f (a.platform.opResult c)).result⟩ := rfl

/-- Once the values are read the operations are called; the search for the
cycle comes last and may still keep the handler. -/
theorem applySnapshot_of_parse {s : Snapshot} (h : parseSnapshot fuel payload = some s) :
    a.applySnapshot fuel payload =
      ⟨s.calls.map .op ++
          ((jsonVal fuel payload "tas_cycle_ns".toList).toList.map fun cv => .op (.applyTas (cycleOf cv))),
        (jsonVal fuel payload "tas_cycle_ns".toList).map fun _ => .ok⟩ := by
  obtain ⟨p, t, bw, lat, pr, vid, tsmode, group, gm⟩ := s
  rw [Agent.applySnapshot, h]
  cases hcv : jsonVal fuel payload "tas_cycle_ns".toList with
  | none =>
      cases p with
      | none => by_cases hvid : vid > 0 <;> simp [Snapshot.calls, hvid]
      | some p => by_cases hvid : vid > 0 <;> simp [Snapshot.calls, hvid]
  | some cv =>
      cases p with
      | none => by_cases hvid : vid > 0 <;> simp [Snapshot.calls, hvid]
      | some p => by_cases hvid : vid > 0 <;> simp [Snapshot.calls, hvid]

theorem applySnapshot_of_stuck (h : parseSnapshot fuel payload = none) :
    a.applySnapshot fuel payload = ⟨[], none⟩ := by
  rw [Agent.applySnapshot, h]
  rfl

theorem bind_eq_bind {α β γ : Type} {x : Option α} {f : α → Option γ} {g : α → Option β}
    {k : β → Option γ} (h : ∀ a, f a = (g a).bind k) : x.bind f = (x.bind g).bind k := by
  cases x with
  | none => rfl
  | some a => exact h a

/-- The calls of the earlier `applySnapshot`, when the handler comes back. -/
theorem applySnapshot_eq_map (a : Agent) (fuel : Nat) (payload : CStr) :
    (applySnapshot fuel payload).map (fun calls => calls.map Event.op) =
      (a.applySnapshot fuel payload).result.map fun _ => (a.applySnapshot fuel payload).events := by
  have hsplit : applySnapshot fuel payload =
      (parseSnapshot fuel payload).bind fun s =>
        (jsonVal fuel payload "tas_cycle_ns".toList).map fun cv => s.calls ++ [.applyTas (cycleOf cv)] := by
    -- the same nine searches on both sides
    repeat refine bind_eq_bind fun _ => ?_
    simp only [Option.bind_some, Snapshot.calls, List.append_assoc, List.cons_append, List.nil_append]
    cases jsonVal fuel payload "tas_cycle_ns".toList <;> rfl
  rw [hsplit]
  cases hparse : parseSnapshot fuel payload with
  | none =>
      rw [applySnapshot_of_stuck hparse]
      rfl
  | some s =>
      rw [applySnapshot_of_parse hparse]
      cases jsonVal fuel payload "tas_cycle_ns".toList with
      | none => rfl
      | some cv => simp

/-- The keys that are searched for before the first operation is called. -/
def readKeys : List CStr :=
  ["priority".toList, "traffic_class".toList, "bandwidth_kbps".toList, "latency_ms".toList,
    "preemption".toList, "vlan_id".toList, "timesync_mode".toList, "group".toList,
    "grandmaster".toList]

/-- One of the searches before the first operation never comes back. -/
def Stalls (payload : CStr) : Prop :=
  ∃ key ∈ readKeys, ∀ r, ¬ Loop.Ends (jsonValBody key) payload r

theorem isSome_bind_iff {α β : Type} {x : Option α} {f : α → Option β} {b : Bool} {P : Prop}
    (hx : x.isSome = b) (h : ∀ a, (f a).isSome = true ↔ P) :
    (x.bind f).isSome = true ↔ b = true ∧ P := by
  subst hx
  cases x with
  | none => simp
  | some a => simp [h a]

theorem parseSnapshot_isSome (fuel : Nat) (payload : CStr) :
    (parseSnapshot fuel payload).isSome = true ↔
      ∀ key ∈ readKeys, (jsonVal fuel payload key).isSome = true := by
  simp only [readKeys, List.forall_mem_cons]
  -- one search after the other
  repeat refine isSome_bind_iff Option.isSome_map fun _ => ?_
  exact iff_of_true rfl fun key hkey => absurd hkey List.not_mem_nil

theorem exists_parse {payload : CStr} (h : ¬ Stalls payload) :
    ∃ fuel s, parseSnapshot fuel payload = some s := by
  have hends : ∀ key, ∃ r, key ∈ readKeys → Loop.Ends (jsonValBody key) payload r := by
    intro key
    by_cases hkey : key ∈ readKeys
    · by_contra hno
      refine h ⟨key, hkey, fun r hr => hno ⟨r, fun _ => hr⟩⟩
    · exact ⟨none, fun hmem => absurd hmem hkey⟩
  choose results hresults using hends
  obtain ⟨fuel, hfuel⟩ := Loop.exists_fuel readKeys hresults
  have hsome : (parseSnapshot fuel payload).isSome = true := by
    rw [parseSnapshot_isSome]
    intro key hkey
    rw [jsonVal, hfuel key hkey]
    rfl
  obtain ⟨s, hs⟩ := Option.isSome_iff_exists.mp hsome
  exact ⟨fuel, s, hs⟩

theorem parse_eq_none {payload : CStr} (h : Stalls payload) (fuel : Nat) :
    parseSnapshot fuel payload = none := by
  obtain ⟨key, hkey, hstays⟩ := h
  rw [← Option.not_isSome_iff_eq_none, parseSnapshot_isSome]
  intro hall
  obtain ⟨r, hr⟩ := Option.isSome_iff_exists.mp (hall key hkey)
  exact hstays r ⟨fuel, hr⟩

/-! ### What the agent does with a message -/

/-- An operation that goes through, or an acknowledgement of the agent. -/
def Event.Acts (a : Agent) : Event → Prop
  | .op call => a.platform.opResult call = .ok
  | .publish topic _ => topic = ackTopic a.deviceId
  | .multicast _ _ => False

/-- The agent changes its configuration or sends an acknowledgement, with
enough rounds for the searches. -/
def Agent.Acts (a : Agent) (m : Message) : Prop := ∃ fuel, ∃ e ∈ (a.onMessage fuel m).events, e.Acts a

theorem sendAck_eq (hmqtt : a.mqtt = true) (ok : Bool) :
    a.sendAck ok = ⟨[.publish (ackTopic a.deviceId) (ackPayload a.deviceId ok)], some ()⟩ := by
  rw [Agent.sendAck, Agent.publish, if_pos hmqtt]
  rfl

theorem exists_ack (hmqtt : a.mqtt = true) (ok : Bool) : ∃ e ∈ (a.sendAck ok).events, e.Acts a := by
  rw [sendAck_eq hmqtt]
  exact ⟨_, List.mem_singleton_self _, rfl⟩

theorem publish_result (a : Agent) (topic payload : CStr) :
    (a.publish topic payload).result = some () := by
  rw [Agent.publish]
  split <;> rfl

theorem onFx_result (a : Agent) (m : Message) : ∃ e, (a.onFx m).result = some e := by
  simp only [Agent.onFx]
  split <;> exact ⟨_, rfl⟩

/-- Commands other than `stream` are answered at once. -/
theorem handleCommand_result {command : CStr} (h : command ≠ "stream".toList) :
    ∃ e, (a.handleCommand fuel m command).result = some e := by
  unfold Agent.handleCommand
  split_ifs with hqos hvlan htimesync htas hstatus hfx
  · exact ⟨_, rfl⟩
  · exact ⟨_, rfl⟩
  · exact ⟨_, rfl⟩
  · exact ⟨_, rfl⟩
  · rw [Trace.bind_of_result (publish_result a _ _)]
    exact ⟨_, rfl⟩
  · exact onFx_result a m
  · exact ⟨_, rfl⟩

theorem acts_of_not_isSnapshot (hmqtt : a.mqtt = true) (h : ¬ m.IsSnapshot) : a.Acts m := by
  refine ⟨0, ?_⟩
  rw [Agent.onMessage]
  by_cases happly : strstr "/apply".toList m.topic ≠ none
  · rw [Message.IsSnapshot, if_pos happly] at h
    rw [if_pos happly, if_neg h]
    exact exists_ack hmqtt false
  · rw [Message.IsSnapshot, if_neg happly] at h
    rw [if_neg happly]
    obtain ⟨e, he⟩ := @handleCommand_result a m 0 _ h
    obtain ⟨ack, hack, hacts⟩ := exists_ack hmqtt (e = .ok)
    exact ⟨ack, Trace.mem_events_bind_right he hack, hacts⟩

/-- The `/apply` branch, as `onApply` has it: the operations and then the
acknowledgement. -/
theorem onMessage_of_onApply (hmqtt : a.mqtt = true) (happly : strstr "/apply".toList m.topic ≠ none)
    {calls : List OpCall} {ok : Bool} (h : onApply fuel m.payload = some (calls, ok)) :
    a.onMessage fuel m =
      ⟨calls.map .op ++ [.publish (ackTopic a.deviceId) (ackPayload a.deviceId ok)], some ()⟩ := by
  rw [Agent.onMessage, if_pos happly]
  rw [onApply] at h
  by_cases hopen : m.payload.head? = some '\x7b'
  · rw [if_pos hopen] at h ⊢
    obtain ⟨calls', hcalls, heq⟩ := Option.map_eq_some_iff.mp h
    cases heq
    have hmap := applySnapshot_eq_map a fuel m.payload
    rw [hcalls] at hmap
    obtain ⟨e, he, hevents⟩ := Option.map_eq_some_iff.mp hmap.symm
    rw [Trace.bind_of_result he, hevents, sendAck_eq hmqtt]
  · rw [if_neg hopen] at h ⊢
    cases h
    exact sendAck_eq hmqtt false

/-- A snapshot is applied first, whatever is done with the result. -/
theorem onMessage_of_isSnapshot (a : Agent) (h : m.IsSnapshot) :
    ∃ after : HtsnError → Trace Event Unit,
      ∀ fuel, a.onMessage fuel m = a.applySnapshot fuel m.payload >>= after := by
  by_cases happly : strstr "/apply".toList m.topic ≠ none
  · rw [Message.IsSnapshot, if_pos happly] at h
    refine ⟨fun _ => a.sendAck true, fun fuel => ?_⟩
    rw [Agent.onMessage, if_pos happly, if_pos h]
  · rw [Message.IsSnapshot, if_neg happly] at h
    refine ⟨fun e => a.sendAck (e = .ok), fun fuel => ?_⟩
    have hhandle : a.handleCommand fuel m "stream".toList = a.applySnapshot fuel m.payload := rfl
    rw [Agent.onMessage, if_neg happly, h, hhandle]

theorem acts_iff_of_isSnapshot (h : m.IsSnapshot) : a.Acts m ↔ ¬ Stalls m.payload := by
  obtain ⟨after, hafter⟩ := onMessage_of_isSnapshot a h
  constructor
  · rintro ⟨fuel, e, he, -⟩ hstalls
    rw [hafter, applySnapshot_of_stuck (parse_eq_none hstalls fuel)] at he
    exact absurd he List.not_mem_nil
  · intro hends
    obtain ⟨fuel, s, hs⟩ := exists_parse hends
    refine ⟨fuel, .op (.applyTimesync s.tsmode (if s.gm = [] then none else some s.gm)), ?_, rfl⟩
    rw [hafter]
    apply Trace.mem_events_bind_left
    rw [applySnapshot_of_parse hs]
    simp [Snapshot.calls]

/-- The agent acts on every message but a snapshot that stalls. -/
theorem acts_iff (hmqtt : a.mqtt = true) : a.Acts m ↔ ¬ (m.IsSnapshot ∧ Stalls m.payload) := by
  by_cases h : m.IsSnapshot
  · rw [acts_iff_of_isSnapshot h]
    exact not_congr (iff_and_self.mpr fun _ => h)
  · exact iff_of_true (acts_of_not_isSnapshot hmqtt h) fun hboth => h hboth.1

/-! ### Whose commands -/

/-- The device in a topic: `tsn/cmd/<id>/..`, `tsn/fx/cmd/<id>` or
`tsn/fx/<id>`. -/
def deviceSegment (topic : CStr) : Option CStr :=
  match levels topic with
  | root :: kind :: rest =>
      if root = "tsn".toList ∧ kind = "cmd".toList then rest.head?
      else if root = "tsn".toList ∧ kind = "fx".toList then
        if rest.head? = some "cmd".toList ∧ rest.tail ≠ [] then rest.tail.head? else rest.head?
      else none
  | _ => none

/-- The agent acts on the message only if it is the device in the topic. -/
def Agent.OwnOnly (a : Agent) (m : Message) : Prop :=
  a.Acts m → deviceSegment m.topic = some a.deviceId.chars

theorem mqtt_of_delivered {topic : CStr} (h : a.Delivered topic) : a.mqtt = true := by
  obtain ⟨filter, hfilter, -⟩ := h
  by_contra hmqtt
  rw [Agent.subscriptions, if_neg hmqtt] at hfilter
  exact absurd hfilter List.not_mem_nil

/-- The agent acts on whatever is delivered, so it keeps to its own commands
exactly where the topic is its own or a snapshot stalls. -/
theorem Agent.ownOnly_iff_segment (a : Agent) (m : Message) (hdelivered : a.Delivered m.topic) :
    a.OwnOnly m ↔
      deviceSegment m.topic = some a.deviceId.chars ∨ m.IsSnapshot ∧ Stalls m.payload := by
  rw [Agent.OwnOnly, acts_iff (mqtt_of_delivered hdelivered), or_iff_not_imp_right]

/-- An agent on its default broker. -/
def agentA : Agent := (Agent.create "a".toList "linux".toList none 1883).start

/-- A `qos` command for a device. -/
def qosMessage (device : CStr) : Message where
  topic := "tsn/cmd/".toList ++ (device ++ "/qos".toList)
  payload := "5:5:0:0:0".toList
  stack := fun i => if i < 2 then "5".toList else "0".toList
  sent := .ok

theorem agentA_own_qos : agentA.OwnOnly (qosMessage "a".toList) :=
  (agentA.ownOnly_iff_segment (qosMessage "a".toList) (by decide)).mpr (Or.inl (by decide))

/-- Agent `a` carries out and acknowledges the `qos` command of `b`. -/
theorem agentA_foreign_qos :
    agentA.Delivered (qosMessage "b".toList).topic ∧ ¬ agentA.OwnOnly (qosMessage "b".toList) := by
  refine ⟨by decide, fun h => ?_⟩
  have hacts : agentA.Acts (qosMessage "b".toList) := acts_of_not_isSnapshot rfl (by decide)
  exact absurd (h hacts) (by decide)

end Htsn.Host
