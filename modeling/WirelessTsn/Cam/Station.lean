import WirelessTsn.Esp32.Sta

/-!
The station of the camera node (`esp32-cam/main/camera_app.c`). It knows one
network, reconnects on every disconnect, and has no task that waits for the
first address.
-/

namespace Htsn.Cam

open CText Esp32

inductive CamCall where
  | connect
  /-- The task `reprov_task` is created. -/
  | createReprov
  | startAp
  | startMqtt
  | startHttpd
  deriving DecidableEq

structure CamStation where
  wifiReady : Bool := false
  reprovStarted : Bool := false
  disconnectStreak : Nat := 0
  ip : CStr := "0.0.0.0".toList
  sntpStarted : Bool := false
  mqtt : Bool := false
  calls : List CamCall := []

def CamStation.call (n : CamStation) (cs : List CamCall) : CamStation :=
  { n with calls := n.calls ++ cs }

/-- An event of the station, with whether `mqtt_start` succeeds, and a run of
the task that a disconnect created. -/
inductive CamEvent where
  | staStart
  | staDisconnected
  | gotIp (ip : Ip4) (mqttOk : Bool)
  | reprov

def CamStation.disconnected (n : CamStation) : CamStation :=
  let n := { n.call [.connect] with disconnectStreak := n.disconnectStreak + 1 }
  if n.disconnectStreak ≥ provFallbackDisconnects ∧ n.wifiReady = false ∧ n.reprovStarted = false then
    n.call [.createReprov]
  else n

def CamStation.gotIp (n : CamStation) (ip : Ip4) (mqttOk : Bool) : CamStation :=
  let n := { n with wifiReady := true, disconnectStreak := 0, ip := ip.text, sntpStarted := true }
  if n.mqtt = false then { n.call [.startMqtt, .startHttpd] with mqtt := mqttOk } else n

/-- `wifi_event_handler` and `reprov_task`. -/
def CamStation.step (n : CamStation) : CamEvent → CamStation
  | .staStart => n.call [.connect]
  | .staDisconnected => n.disconnected
  | .gotIp ip mqttOk => n.gotIp ip mqttOk
  | .reprov =>
      if .createReprov ∈ n.calls ∧ n.reprovStarted = false then
        { n.call [.startAp] with reprovStarted := true }
      else n

end Htsn.Cam
