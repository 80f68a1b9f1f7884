import WirelessTsn.Esp32.Snapshot
import WirelessTsn.Lib.Mqtt

/-!
`on_command` of the ESP32 agent (`esp32-agent/main/main.c`): which handler a
topic leads to, and what the handlers do to the node. The handlers of the
display, the sensors and the actuators leave the node alone and are here by
name only; of what is published only the calls of `send_ack` are kept.
-/

namespace Htsn.Esp32

open CText Json Keyed Mqtt

/-! ### Commands -/

/-- The words that `on_command` knows. -/
inductive Command where
  | wifi
  | addWifi
  | qos
  | vlan
  | timesync
  | tas
  | stream
  | preemption
  | status
  | fx
  | actor
  | display
  | oled
  | fill
  | read
  | run
  | dump
  | paneldump
  | quad
  | bars
  | button
  | servo
  | ping
  | identify
  | ota
  | reset
  | reboot
  | factory
  | wfmRecal
  deriving DecidableEq, Repr

def Command.name : Command → CStr
  | .wifi => "wifi".toList
  | .addWifi => "add_wifi".toList
  | .qos => "qos".toList
  | .vlan => "vlan".toList
  | .timesync => "timesync".toList
  | .tas => "tas".toList
  | .stream => "stream".toList
  | .preemption => "preemption".toList
  | .status => "status".toList
  | .fx => "fx".toList
  | .actor => "actor".toList
  | .display => "display".toList
  | .oled => "oled".toList
  | .fill => "fill".toList
  | .read => "read".toList
  | .run => "run".toList
  | .dump => "dump".toList
  | .paneldump => "paneldump".toList
  | .quad => "quad".toList
  | .bars => "bars".toList
  | .button => "button".toList
  | .servo => "servo".toList
  | .ping => "ping".toList
  | .identify => "identify".toList
  | .ota => "ota".toList
  | .reset => "reset".toList
  | .reboot => "reboot".toList
  | .factory => "factory".toList
  | .wfmRecal => "wfm_recal".toList

/-- The order in which `on_command` compares. -/
def Command.all : List Command :=
  [.wifi, .addWifi, .qos, .vlan, .timesync, .tas, .stream, .preemption, .status, .fx, .actor, .display,
    .oled, .fill, .read, .run, .dump, .paneldump, .quad, .bars, .button, .servo, .ping, .identify, .ota,
    .reset, .reboot, .factory, .wfmRecal]

def Command.ofName (word : CStr) : Option Command := Command.all.find? fun c => c.name = word

/-- Where `on_command` goes with a topic. -/
inductive Route where
  | feed
  | apply
  | command (c : Command)
  | unknown
  deriving DecidableEq, Repr

def route (topic : CStr) : Route :=
  if topic = "tsn/fx/data".toList ∨ topic = "tsn/sensors/event".toList then .feed
  else if topic = "tsn/sensors".toList then .feed
  else if strstr "/apply".toList topic ≠ none then .apply
  else
    match Command.ofName (lastLevel topic) with
    | some c => .command c
    | none => .unknown

/-! ### Handlers -/

/-- A message and what the handler finds around it: the memory behind the
payload, and whether an update can be started. -/
structure Message where
  topic : CStr
  payload : CStr
  behind : List CStr := []
  otaStarts : Bool := true

/-- What a handler does. -/
structure Effect where
  node : Node
  acks : List Ack := []
  restarts : Bool := false
  ota : Option (CStr × Option CStr) := none

def ackOk : Ack := ⟨true, []⟩

/-- `crate_set_wifi` and the acknowledgement, which is not reached when the
node restarts. Without a password the saved one is kept. -/
def Node.crateSetWifi (n : Node) (mem : List CStr) : Effect :=
  let ssid := (getStrIn mem "ssid".toList 64).getD []
  if ssid = [] then { node := n, acks := [ackOk] }
  else
    let pass :=
      match getStrIn mem "pass".toList 64 with
      | some pass => pass
      | none => (Buf.copy 64 (nvsGetStr n.nvs.wifiPass 96)).chars
    { node := { n with nvs := n.nvs.setWifi ssid pass }, restarts := true }

/-- The `add_wifi` branch. -/
def Node.addWifi (n : Node) (mem : List CStr) : Effect :=
  let asid := (getStrIn mem "ssid".toList 64).getD []
  let apass := (getStrIn mem "pass".toList 64).getD []
  if asid = [] then { node := n } else { node := { n with nvs := (n.nvs.netAdd asid apass).1 } }

/-- The stream of the `stream` branch. -/
def parseStream (mem : List CStr) : Stream :=
  { streamId := Buf.copy 48 ((getStrIn mem "stream_id".toList 48).getD [])
    name := Buf.copy 64 ((getStrIn mem "name".toList 64).getD [])
    talker := Buf.copy 64 ((getStrIn mem "talker".toList 64).getD [])
    listeners :=
      ((getRootArrayIn mem "listeners".toList).map fun arr =>
        parseStrArray arr.1 streamMaxListeners).getD []
    vlanId := (getIntIn mem "vlan_id".toList).getD 0
    maxLatencyNs := (getI64In mem "max_latency_ns".toList).getD 0
    maxIntervalNs := (getI64In mem "max_interval_ns".toList).getD 0
    priority := (getIntIn mem "priority".toList).getD 0
    dataFramePrio := (getIntIn mem "data_frame_prio".toList).getD 0 }

/-- The `stream` branch. -/
def Node.onStream (n : Node) (mem : List CStr) : Effect :=
  let s := parseStream mem
  if s.streamId.chars = [] then { node := n, acks := [⟨false, "stream_invalid".toList⟩] }
  else
    match tsnApplyStream n.agent s with
    | some a => { node := { n with streams := a.streams }, acks := [ackOk] }
    | none => { node := n, acks := [⟨false, "stream_invalid".toList⟩] }

/-- The three texts of the `preemption` branch. -/
def preemptionArgs (payload : CStr) : CStr × CStr × CStr :=
  let mode := (payload.takeWhile (· != ',')).take 7
  match payload.dropWhile (· != ',') with
  | [] => (mode, [], [])
  | _ :: p2 =>
      match p2.dropWhile (· != ',') with
      | [] => (mode, p2.take 31, [])
      | _ :: pmac => (mode, (p2.takeWhile (· != ',')).take 31, pmac.take 31)

/-- The `ota` branch. -/
def Node.onOta (n : Node) (m : Message) : Effect :=
  let url := (getStrIn (m.payload :: m.behind) "url".toList 256).getD []
  let crc := (getStrIn (m.payload :: m.behind) "crc32".toList 16).getD []
  if url ≠ [] ∧ m.otaStarts = true then
    { node := n, acks := [ackOk], ota := some (url, if crc = [] then none else some crc) }
  else { node := n, acks := [⟨false, "ota_bad_url".toList⟩] }

/-- The branch of a command. -/
def Node.handle (n : Node) (m : Message) : Command → Effect
  | .wifi => n.crateSetWifi (m.payload :: m.behind)
  | .addWifi => n.addWifi (m.payload :: m.behind)
  | .qos =>
      let p := atoi m.payload
      { node := { n with state := n.state.applyQos p p 0 0 0 }, acks := [ackOk] }
  | .vlan => { node := { n with state := n.state.applyVlan (atoi m.payload) [] }, acks := [ackOk] }
  | .timesync =>
      { node := { n with state := n.state.applyTimesync (atoi m.payload) [] }, acks := [ackOk] }
  | .tas =>
      { node := { n with state := n.state.applyTas (Int64.ofInt (atoi m.payload).toInt) none none 0 }
        acks := [ackOk] }
  | .stream => n.onStream (m.payload :: m.behind)
  | .preemption =>
      let args := preemptionArgs m.payload
      { node := { n with state := n.state.applyPreemption (atoi args.1) args.2.1 args.2.2 }
        acks := [ackOk] }
  | .status => { node := n.loadPersisted }
  | .identify => { node := n, acks := [ackOk] }
  | .ota => n.onOta m
  | .reset =>
      { node := Node.tsnResetState { n with nvs := n.nvs.netClear.setWifi [] [] }
        acks := [⟨true, "reset_ok".toList⟩]
        restarts := true }
  | .reboot => { node := n, acks := [⟨true, "reboot".toList⟩], restarts := true }
  -- `factory_reset` erases the whole namespace
  | .factory => { node := { n with nvs := {} }, restarts := true }
  | .wfmRecal => { node := n, acks := [⟨true, "wfm_recal".toList⟩] }
  | .fx | .actor | .display | .oled | .fill | .read | .run | .dump | .paneldump | .quad | .bars
  | .button | .servo | .ping => { node := n }

/-- `on_command` -/
def Node.onCommand (n : Node) (m : Message) : Effect :=
  match route m.topic with
  | .feed | .unknown => { node := n }
  | .apply =>
      let r := n.applySnapshot m.payload m.behind
      { node := r.1, acks := [r.2] }
  | .command c => n.handle m c

/-- The node when it is ready for the next message. One without a network is
configured first and started once more, which leaves the TSN keys alone. -/
def Node.boot (n : Node) : Node := n.restart.tsnRestore

def Node.step (n : Node) (m : Message) : Node :=
  let e := n.onCommand m
  if e.restarts then e.node.boot else e.node

end Htsn.Esp32
