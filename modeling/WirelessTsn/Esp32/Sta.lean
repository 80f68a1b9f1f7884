import WirelessTsn.Lib.Scanf
import WirelessTsn.Esp32.Wifi

/-!
The station of an ESP32 node (`esp32-agent/main/main.c`): the handler of its
WiFi events, the two tasks that bring up the provisioning access point, and
the MQTT client that the first address creates. The calls into the system are
recorded in order.

The answers of mDNS and whether the client can be created are part of the
event. What is started behind the client (PTP, sensors, display) is left out.
-/

namespace Htsn.Esp32

open CText

/-! ### The broker's host -/

structure Ip4 where
  a : UInt8
  b : UInt8
  c : UInt8
  d : UInt8
  deriving DecidableEq

/-- `IPSTR` -/
def Ip4.text (ip : Ip4) : CStr :=
  showInt ip.a.toNat ++ ".".toList ++ showInt ip.b.toNat ++ ".".toList ++ showInt ip.c.toNat ++
    ".".toList ++ showInt ip.d.toNat

def dotLocal : CStr := ".local".toList

/-- The name `mdns_query_a` is asked for: without a `.local` at its end. -/
def bareHost (host : CStr) : CStr :=
  if host.length > 6 ∧ host.drop (host.length - 6) = dotLocal then host.take (host.length - 6) else host

/-- The address mDNS gives for a name. The address 0 is no answer. -/
def mdnsAddr (mdns : CStr → Option Ip4) (name : CStr) : Option Ip4 :=
  (mdns name).filter (· ≠ ⟨0, 0, 0, 0⟩)

/-- `resolve_mqtt_host` on a buffer of 64 bytes. -/
def resolveMqttHost (mdns : CStr → Option Ip4) (host : Buf 64) : Buf 64 :=
  if host.chars = [] ∨ strstr dotLocal host.chars = none then host
  else
    match mdnsAddr mdns (bareHost host.chars) with
    | some ip => Buf.copy 64 ip.text
    | none => Buf.copy 64 "192.168.0.149".toList

/-! ### The station -/

/-- What `htsn_mqtt_create_auth` is called with. -/
structure MqttClient where
  host : CStr
  port : Int32
  id : CStr
  user : Option CStr
  pass : Option CStr
  tls : Bool
  tlsCa : Option CStr
  insecure : Bool
  deriving DecidableEq

/-- The keys of the namespace `htsn` that concern the broker and the id. -/
structure BrokerKeys where
  deviceId : Option CStr := none
  mqttHost : Option CStr := none
  mqttPort : Option Int32 := none
  muser : Option CStr := none
  mpass : Option CStr := none
  mtls : Option Int32 := none
  mtlsCa : Option CStr := none
  minsec : Option Int32 := none

inductive LedState where
  | prov
  | conn
  | ok
  deriving DecidableEq

inductive StaCall where
  | setConfig (ssid pass : CStr)
  | connect
  /-- The task `prov_fallback_now` is created. -/
  | createFallback
  | startAp
  | createMqtt (c : MqttClient)
  deriving DecidableEq

structure StaNode where
  deviceId : Buf 32
  keys : BrokerKeys
  nets : List (CStr × CStr)
  host : Buf 64
  port : Int32
  curNet : Nat := 0
  ssid : Buf 64 := Buf.empty
  password : Buf 64 := Buf.empty
  wifiReady : Bool := false
  fallbackStarted : Bool := false
  disconnectStreak : Nat := 0
  ledState : LedState := .conn
  ledSteady : Bool := false
  ip : CStr := "0.0.0.0".toList
  sntpStarted : Bool := false
  mqtt : Option MqttClient := none
  calls : List StaCall := []

/-- `PROV_FALLBACK_DISCONNECTS` -/
def provFallbackDisconnects : Nat := 6

def StaNode.call (n : StaNode) (cs : List StaCall) : StaNode := { n with calls := n.calls ++ cs }

/-- `try_net`, which also answers whether there is such a network. The driver
takes an SSID of 31 and a password of 63 bytes. -/
def StaNode.tryNet (n : StaNode) (idx : Nat) : StaNode × Bool :=
  match n.nets[idx]? with
  | none => (n, false)
  | some (ssid, pass) =>
      if ssid = [] then (n, false)
      else
        ({ n with ssid := Buf.copy 64 ssid, password := Buf.copy 64 pass }.call
          [.setConfig (ssid.take 31) (pass.take 63), .connect], true)

/-- The retry path of a disconnect. -/
def StaNode.retry (n : StaNode) : StaNode :=
  let n := { n with disconnectStreak := n.disconnectStreak + 1 }
  if n.disconnectStreak ≥ provFallbackDisconnects ∧ n.wifiReady = false ∧ n.fallbackStarted = false then
    n.call [.createFallback]
  else n.call [.connect]

/-- `STA_DISCONNECTED` with several networks: the next one is tried. Back at
the first one the round counts as one disconnect, also when it is counted once
more below. -/
def StaNode.nextNet (n : StaNode) : StaNode :=
  let n := { n with curNet := (n.curNet + 1) % n.nets.length }
  let counts := n.curNet = 0 ∧ n.wifiReady = false ∧ n.fallbackStarted = false
  let n := if counts then { n with disconnectStreak := n.disconnectStreak + 1 } else n
  if counts ∧ n.disconnectStreak ≥ provFallbackDisconnects then n.call [.createFallback]
  else if (n.tryNet n.curNet).2 then (n.tryNet n.curNet).1
  else (n.tryNet n.curNet).1.retry

def StaNode.disconnected (n : StaNode) : StaNode :=
  let n := { n with ledSteady := false, ledState := .conn }
  if n.nets.length > 1 then n.nextNet else n.retry

/-- The value of an NVS string as a client argument: empty is `NULL`. -/
def nvsArg (value : Option CStr) (sz : Nat) : Option CStr :=
  if nvsGetStr value sz = [] then none else some (nvsGetStr value sz)

/-- The client that `GOT_IP` creates. -/
def StaNode.newClient (n : StaNode) (mdns : CStr → Option Ip4) : MqttClient where
  host := (resolveMqttHost mdns n.host).chars
  port := n.port
  id := n.deviceId.chars
  user := nvsArg n.keys.muser 64
  pass := nvsArg n.keys.mpass 64
  tls := n.keys.mtls.getD 0 ≠ 0
  tlsCa := nvsArg n.keys.mtlsCa 1024
  insecure := n.keys.minsec.getD 0 ≠ 0

def StaNode.gotIp (n : StaNode) (ip : Ip4) (mdns : CStr → Option Ip4) (createOk : Bool) : StaNode :=
  let n :=
    { n with
      wifiReady := true
      disconnectStreak := 0
      ip := ip.text
      ledSteady := true
      ledState := .ok
      sntpStarted := true }
  if n.mqtt = none then
    { n.call [.createMqtt (n.newClient mdns)] with
      mqtt := if createOk then some (n.newClient mdns) else none }
  else n

/-- An event of the station, a run of the task that a disconnect created, and
the end of the waiting time of `prov_fallback_task`. -/
inductive StaEvent where
  | staStart
  | staDisconnected
  | gotIp (ip : Ip4) (mdns : CStr → Option Ip4) (createOk : Bool)
  | fallbackNow
  | fallbackTimeout

/-- `event_handler`, `prov_fallback_now` and `prov_fallback_task`. Nothing
clears `g_wifi_ready`, so a task that waits for it ends with the first
address. -/
def StaNode.step (n : StaNode) : StaEvent → StaNode
  | .staStart => if n.nets.length > 0 then (n.tryNet n.curNet).1 else n
  | .staDisconnected => n.disconnected
  | .gotIp ip mdns createOk => n.gotIp ip mdns createOk
  | .fallbackNow =>
      if .createFallback ∈ n.calls ∧ n.fallbackStarted = false then
        { n.call [.startAp] with fallbackStarted := true, ledState := .prov }
      else n
  | .fallbackTimeout =>
      if n.wifiReady = false ∧ n.fallbackStarted = false then
        { n.call [.startAp] with fallbackStarted := true, ledState := .prov }
      else n

end Htsn.Esp32
