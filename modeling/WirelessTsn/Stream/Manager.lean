import WirelessTsn.Db.Devices
import WirelessTsn.Db.Streams
import WirelessTsn.Lib.Scanf
import WirelessTsn.Lib.Run

/-!
`tsn_manager.c`: an array of at most 512 streams kept beside the stream
tables, and the deployment of a stream to its talker and listeners over MQTT.

The MQTT library is outside the repository. Its part here is the result of
each `mosquitto_publish` call, taken as an arbitrary function of the number
of calls made before; the client records the calls. Event notifications are
not modelled: no function of the model reads them.
-/

namespace Htsn

open CText Keyed Run

/-- One call of `mosquitto_publish` and whether it succeeded. -/
structure Publish where
  topic : CStr
  payload : CStr
  ok : Bool
deriving DecidableEq

/-- `struct htsn_mqtt_client`: whether the library handle exists, what the
library answers, and the calls made so far. -/
structure MqttClient where
  handle : Bool
  accepts : Nat → Bool
  calls : List Publish

/-- A client with its handle and no call made yet. -/
def MqttClient.start (accepts : Nat → Bool) : MqttClient := ⟨true, accepts, []⟩

def mqttClientPublish (c : MqttClient) (topic payload : CStr) : HtsnError × MqttClient :=
  if c.handle then
    let ok := c.accepts c.calls.length
    (if ok then .ok else .net, { c with calls := c.calls ++ [⟨topic, payload, ok⟩] })
  else (.invalidArg, c)

/-- The database, the manager's streams and its MQTT client, which may be
missing. -/
structure TsnSystem where
  db : Db
  streams : Slots Stream maxDevices
  mqtt : Option MqttClient

def tsnManagerCreate (db : Db) (mqtt : Option MqttClient) : TsnSystem where
  db := db
  streams := (dbTsnForEach db).foldl Slots.push .empty
  mqtt := mqtt

def tsnManagerAdd (m : TsnSystem) (s : Stream) : HtsnError × TsnSystem :=
  if streamValidate s ≠ .ok then (streamValidate s, m)
  else if h : HasKey streamKey (streamKey s) m.streams.items then
    (.ok,
      { m with
        db := (dbTsnSave m.db s).2
        streams := m.streams.edit (upsertBy streamKey s) (length_upsertBy_of_hasKey h).le })
  else if m.streams.items.length ≥ maxDevices then (.busy, m)
  else (.ok, { m with db := (dbTsnSave m.db s).2, streams := m.streams.push s })

def tsnManagerLoad (m : TsnSystem) (id : CStr) : Option Stream :=
  findBy streamKey id m.streams.items

def tsnManagerRemove (m : TsnSystem) (id : CStr) : HtsnError × TsnSystem :=
  match tsnManagerLoad m id with
  | none => (.notFound, m)
  | some _ =>
      (.ok,
        { m with
          db := (dbTsnDelete m.db id).2
          streams := m.streams.edit (eraseBy streamKey id) (length_eraseBy_le id _) })

/-- `"tsn/cmd/%s/stream"` -/
def streamTopicText (device : CStr) : CStr :=
  "tsn/cmd/".toList ++ device ++ "/stream".toList

/-- The topic as it fits `char topic[HTSN_MAX_STR]`. -/
def streamTopic (device : CStr) : CStr := (Buf.copy 256 (streamTopicText device)).chars

/-- The JSON snapshot of a stream as it fits `char payload[1024]`. -/
def streamPayload (s : Stream) (role : StreamRole) : CStr :=
  (Buf.copy 1024
    ("\x7b\"stream\":\"".toList ++ s.streamId.chars ++ "\",\"name\":\"".toList ++ s.name.chars ++
      "\",\"role\":\"".toList ++ streamRoleStr role ++ "\",\"talker\":\"".toList ++
      s.talker.chars ++ "\",\"vlan_id\":".toList ++ showInt s.vlanId.toInt ++
      ",\"latency_ns\":".toList ++ showInt s.maxLatencyNs.toInt ++ ",\"interval_ns\":".toList ++
      showInt s.maxIntervalNs.toInt ++ ",\"priority\":".toList ++ showInt s.priority.toInt ++
      ",\"dfprio\":".toList ++ showInt s.dataFramePrio.toInt ++ ",\"status\":\"".toList ++
      streamStatusStr s.status ++ "\"\x7d".toList)).chars

def publishStream (m : TsnSystem) (device : CStr) (s : Stream) (role : StreamRole) :
    HtsnError × TsnSystem :=
  match m.mqtt with
  | none => (.notReady, m)
  | some c =>
      let r := mqttClientPublish c (streamTopic device) (streamPayload s role)
      (if r.1 = .ok then .ok else .net, { m with mqtt := some r.2 })

/-- The test at the top of `all_listener_cb`. `domain` is `none` for NULL. -/
def listensIn (s : Stream) (domain : Option CStr) (dev : Device) : Bool :=
  !decide (dev.id.chars = []) && !decide (dev.id.chars = s.talker.chars) &&
    match domain with
    | none => true
    | some d => decide (dev.domain.chars = d)

/-- `domain && domain[0]` -/
def inScope (domain : Option CStr) : Option CStr :=
  domain.filter fun d => !decide (d = [])

/-- The devices walked for an all-listeners stream. -/
def walkedDevices (db : Db) (domain : Option CStr) : List Device :=
  match inScope domain with
  | some d => dbDeviceForEachInDomain db d
  | none => dbDeviceForEach db

/-- The device ids that `deploy_scoped` pushes a stream to as listeners. -/
def pushedListeners (db : Db) (s : Stream) (domain : Option CStr) : List CStr :=
  if s.listenerAll then
    ((walkedDevices db domain).filter (listensIn s domain)).map fun dev => dev.id.chars
  else (s.listeners.items.filter fun l => !decide (l.chars = [])).map Buf.chars

def deployScoped (m : TsnSystem) (id : CStr) (domain : Option CStr) : HtsnError × TsnSystem :=
  match tsnManagerLoad m id with
  | none => (.notFound, m)
  | some s =>
      if m.mqtt.isNone then (.notReady, m)
      else
        let talked := publishStream m s.talker.chars s .talker
        if talked.1 ≠ .ok then (.net, talked.2)
        else
          let pushed := (pushedListeners m.db s domain).foldl
            (fun m dev => (publishStream m dev s .listener).2) talked.2
          (.ok, { pushed with db := (dbTsnSetStatus pushed.db id streamReady).2 })

def tsnManagerDeploy (m : TsnSystem) (id : CStr) : HtsnError × TsnSystem :=
  deployScoped m id none

/-- Whether a stream belongs to the domain through its talker; a talker
without a row or without a domain belongs to every domain. -/
def streamInDomain (m : TsnSystem) (id : CStr) (domain : Option CStr) : Bool :=
  match inScope domain with
  | none => true
  | some d =>
      match tsnManagerLoad m id with
      | none => true
      | some s =>
          match dbDeviceGet m.db s.talker.chars with
          | .error _ => true
          | .ok talker => decide (talker.domain.chars = []) || decide (talker.domain.chars = d)

def deployCb (domain : Option CStr) (m : TsnSystem) (s : Stream) : TsnSystem :=
  if streamInDomain m s.streamId.chars domain then (deployScoped m s.streamId.chars domain).2
  else m

def tsnManagerDeployAll (m : TsnSystem) (domain : Option CStr) : HtsnError × TsnSystem :=
  (.ok, run (deployCb domain) m m.streams.items)

section Publishing

/-- The calls that pushing a stream to `devices` adds from call number `n`. -/
def publishesTo (accepts : Nat → Bool) (s : Stream) (role : StreamRole) :
    Nat → List CStr → List Publish
  | _, [] => []
  | n, d :: ds =>
      ⟨streamTopic d, streamPayload s role, accepts n⟩ :: publishesTo accepts s role (n + 1) ds

theorem mem_publishesTo_topic {accepts : Nat → Bool} {s : Stream} {role : StreamRole}
    {n : Nat}
    {ds : List CStr} {p : Publish} (h : p ∈ publishesTo accepts s role n ds) :
    ∃ d ∈ ds, p.topic = streamTopic d := by
  induction ds generalizing n with
  | nil => simp [publishesTo] at h
  | cons d ds ih =>
      rcases List.mem_cons.mp h with rfl | h
      · exact ⟨d, by simp, rfl⟩
      · obtain ⟨d', hd', htopic⟩ := ih h
        exact ⟨d', by simp [hd'], htopic⟩

theorem exists_mem_publishesTo {accepts : Nat → Bool} {s : Stream} {role : StreamRole}
    (n : Nat)
    {ds : List CStr} {d : CStr} (h : d ∈ ds) :
    ∃ p ∈ publishesTo accepts s role n ds, p.topic = streamTopic d := by
  induction ds generalizing n with
  | nil => simp at h
  | cons d' ds ih =>
      rcases List.mem_cons.mp h with rfl | h
      · exact ⟨⟨streamTopic d, streamPayload s role, accepts n⟩, by simp [publishesTo], rfl⟩
      · obtain ⟨p, hp, htopic⟩ := ih (n + 1) h
        exact ⟨p, by simp [publishesTo, hp], htopic⟩

/-- One push through a live handle. -/
theorem publishStream_eq {m : TsnSystem} {c : MqttClient} (hc : m.mqtt = some c)
    (hh : c.handle = true) (dev : CStr) (s : Stream) (role : StreamRole) :
    publishStream m dev s role =
      (if c.accepts c.calls.length then .ok else .net,
        { m with mqtt := some { c with
            calls := c.calls ++ publishesTo c.accepts s role c.calls.length [dev] } }) := by
  simp only [publishStream, hc, mqttClientPublish, hh, if_true, publishesTo]
  by_cases hok : c.accepts c.calls.length <;> simp [hok]

/-- Pushing to a list of devices makes one call for each, whatever the calls
before it returned. -/
theorem foldl_publishStream {m : TsnSystem} {c : MqttClient} (hc : m.mqtt = some c)
    (hh : c.handle = true) (s : Stream) (role : StreamRole) (devs : List CStr) :
    devs.foldl (fun m dev => (publishStream m dev s role).2) m =
      { m with mqtt := some { c with
          calls := c.calls ++ publishesTo c.accepts s role c.calls.length devs } } := by
  induction devs generalizing m c with
  | nil =>
      obtain ⟨db, streams, mqtt⟩ := m
      simp only at hc
      simp [hc, publishesTo]
  | cons d devs ih =>
      rw [List.foldl_cons, publishStream_eq hc hh]
      have hrest := @ih { m with mqtt := some { c with
          calls := c.calls ++ publishesTo c.accepts s role c.calls.length [d] } } _ rfl hh
      rw [hrest]
      simp [publishesTo]

/-- A deployment that reaches the end: the stream is cached, the client has
its handle and the talker's publish succeeds. -/
def TsnSystem.TalkerReached (m : TsnSystem) (id : CStr) : Prop :=
  ∃ s ∈ tsnManagerLoad m id, ∃ c ∈ m.mqtt, c.handle = true ∧ c.accepts c.calls.length = true

/-- What a deployment does when it reaches the end. -/
theorem deployScoped_reached {m : TsnSystem} {id : CStr} {s : Stream} {c : MqttClient}
    (hs : tsnManagerLoad m id = some s) (hc : m.mqtt = some c) (hh : c.handle = true)
    (hok : c.accepts c.calls.length = true) (domain : Option CStr) :
    deployScoped m id domain = (.ok,
      { m with
        db := (dbTsnSetStatus m.db id streamReady).2
        mqtt := some { c with
          calls := c.calls ++
            (publishesTo c.accepts s .talker c.calls.length [s.talker.chars] ++
              publishesTo c.accepts s .listener (c.calls.length + 1)
                (pushedListeners m.db s domain)) } }) := by
  have htalk := publishStream_eq hc hh s.talker.chars s .talker
  have hfold := @foldl_publishStream
    { m with mqtt := some { c with
        calls := c.calls ++ publishesTo c.accepts s .talker c.calls.length [s.talker.chars] } } _ rfl hh
    s .listener (pushedListeners m.db s domain)
  have hlen : (c.calls ++ publishesTo c.accepts s .talker c.calls.length [s.talker.chars]).length =
      c.calls.length + 1 := by simp [publishesTo]
  simp only [hlen] at hfold
  simp only [deployScoped, hs, hc, Option.isNone_some, Bool.false_eq_true, if_false, htalk, hok,
    if_true, ne_eq, not_true]
  rw [hfold, List.append_assoc]

/-- What a deployment leaves that does not reach the end: the stored streams
as they were, and at most the one call to the talker. -/
theorem deployScoped_not_reached {m : TsnSystem} {id : CStr} (h : ¬ m.TalkerReached id)
    (domain : Option CStr) :
    (deployScoped m id domain).1 ≠ .ok ∧
      ((deployScoped m id domain).2 = m ∨
        ∃ s c, tsnManagerLoad m id = some s ∧ m.mqtt = some c ∧ c.handle = true ∧
          (deployScoped m id domain).2 =
            { m with mqtt := some { c with
              calls := c.calls ++ publishesTo c.accepts s .talker c.calls.length [s.talker.chars] } }) := by
  cases hs : tsnManagerLoad m id with
  | none => simp [deployScoped, hs]
  | some s =>
      cases hc : m.mqtt with
      | none => simp [deployScoped, hs, hc]
      | some c =>
          by_cases hh : c.handle = true
          · have hno : ¬ c.accepts c.calls.length = true := fun hok =>
              h ⟨s, hs, c, hc, hh, hok⟩
            have htalk := publishStream_eq hc hh s.talker.chars s .talker
            have hdeploy : deployScoped m id domain = (.net,
                { m with mqtt := some { c with
                  calls := c.calls ++
                    publishesTo c.accepts s .talker c.calls.length [s.talker.chars] } }) := by
              simp [deployScoped, hs, hc, htalk, hno]
            rw [hdeploy]
            exact ⟨by simp, Or.inr ⟨s, c, rfl, rfl, hh, rfl⟩⟩
          · have hdeploy : deployScoped m id domain = (.net, m) := by
              have htalk : publishStream m s.talker.chars s .talker = (.net, m) := by
                obtain ⟨db, streams, mqtt⟩ := m
                simp only at hc
                simp [hc, publishStream, mqttClientPublish, hh]
              simp [deployScoped, hs, hc, htalk]
            rw [hdeploy]
            exact ⟨by simp, Or.inl rfl⟩

end Publishing

end Htsn
