import WirelessTsn.Lib.CString
import WirelessTsn.Lib.Scanf
import WirelessTsn.Lib.Fields
import WirelessTsn.Lib.Table
import WirelessTsn.Lib.Run
import WirelessTsn.Lib.Loop
import WirelessTsn.Lib.Crc
import WirelessTsn.Lib.Json
import WirelessTsn.Lib.JsonTree
import WirelessTsn.Lib.Mqtt
import WirelessTsn.Lib.Trace
import WirelessTsn.Lib.Snprintf
import WirelessTsn.Lib.Appending
import WirelessTsn.Lib.JsonText
import WirelessTsn.Lib.Lines
import WirelessTsn.Lib.Slew
import WirelessTsn.Lib.OnesComplement
import WirelessTsn.Lib.Shell
import WirelessTsn.Lib.FormUrl
import WirelessTsn.Lib.Ring
import WirelessTsn.Lib.BigEndian
import WirelessTsn.Lib.Utf8
import WirelessTsn.Lib.JsonWord
import WirelessTsn.Lib.Hold
import WirelessTsn.Lib.SqlText
import WirelessTsn.Lib.ReflectedCrc
import WirelessTsn.Common
import WirelessTsn.StrUtil
import WirelessTsn.Db.Schema
import WirelessTsn.Db.Devices
import WirelessTsn.Db.Streams
import WirelessTsn.Db.Config
import WirelessTsn.Db.Sensors
import WirelessTsn.Device.Manager
import WirelessTsn.Device.Coherence
import WirelessTsn.Device.DomainWrites
import WirelessTsn.Sensor.Manager
import WirelessTsn.Sensor.Coherence
import WirelessTsn.Stream.Manager
import WirelessTsn.Stream.Coherence
import WirelessTsn.Stream.Deploy
import WirelessTsn.Esp32.Json
import WirelessTsn.Esp32.Agent
import WirelessTsn.Stream.Registration
import WirelessTsn.Agent.Host
import WirelessTsn.Agent.Snapshot
import WirelessTsn.Vlan.Manager
import WirelessTsn.Store.Integrity
import WirelessTsn.ConfigVersion.Payload
import WirelessTsn.ConfigVersion.Restore
import WirelessTsn.ConfigVersion.Tokens
import WirelessTsn.ConfigVersion.Tables
import WirelessTsn.ConfigVersion.Grammar
import WirelessTsn.ConfigVersion.Atomicity
import WirelessTsn.ConfigVersion.Reading
import WirelessTsn.ConfigVersion.RoundTrip
import WirelessTsn.ConfigVersion.RestoredRows
import WirelessTsn.ConfigVersion.CutReading
import WirelessTsn.ConfigVersion.Truncation
import WirelessTsn.Db.Open
import WirelessTsn.Timesync.Manager
import WirelessTsn.Tas.Schedule
import WirelessTsn.Tas.Manager
import WirelessTsn.Wired.Frame
import WirelessTsn.Wired.Corruption
import WirelessTsn.Wired.Config
import WirelessTsn.Wired.Bridge
import WirelessTsn.Wired.Endpoint
import WirelessTsn.Wired.Convergence
import WirelessTsn.Wired.ConfigPath
import WirelessTsn.Wired.Ptp
import WirelessTsn.Wired.Telemetry
import WirelessTsn.Wired.Actuator
import WirelessTsn.Wired.Commands
import WirelessTsn.Esp32.Memory
import WirelessTsn.Esp32.Nvs
import WirelessTsn.Esp32.Snapshot
import WirelessTsn.Esp32.Commands
import WirelessTsn.Esp32.History
import WirelessTsn.Esp32.Topics
import WirelessTsn.Esp32.Wifi
import WirelessTsn.Agent.Routing
import WirelessTsn.Agent.Nodes
import WirelessTsn.Esp32.Ota
import WirelessTsn.Esp32.Ptp
import WirelessTsn.Esp32.Sta
import WirelessTsn.Cam.Station
import WirelessTsn.Esp32.Reconnect
import WirelessTsn.Esp32.Provisioning
import WirelessTsn.Cam.Replay
import WirelessTsn.Ai.Policy
import WirelessTsn.Ai.Independence
import WirelessTsn.Ai.LlmBridge
import WirelessTsn.ConfigVersion.DeviceScope
import WirelessTsn.ConfigVersion.DeviceRoundTrip
import WirelessTsn.ConfigVersion.Diff
import WirelessTsn.Tas.Rendering
import WirelessTsn.Tas.Coverage
import WirelessTsn.Vlan.Membership
import WirelessTsn.Vlan.Exchange
import WirelessTsn.Stream.Persistence
import WirelessTsn.Telemetry.Payload
import WirelessTsn.Telemetry.Report
import WirelessTsn.Telemetry.Heartbeat
import WirelessTsn.Agent.Lookup
import WirelessTsn.Esp32.Lookup
import WirelessTsn.Esp32.GateList
import WirelessTsn.Esp32.SnapshotFields
import WirelessTsn.Esp32.NetBlob
import WirelessTsn.Esp32.NetList
import WirelessTsn.Wired.RawClock
import WirelessTsn.Wired.Steering
import WirelessTsn.Timesync.Receivers
import WirelessTsn.Wired.Egress
import WirelessTsn.Wired.Enforcement
import WirelessTsn.Wired.Sweep
import WirelessTsn.Cam.Recordings
import WirelessTsn.Esp32.SonarSweep
import WirelessTsn.Esp32.SensorTelemetry
import WirelessTsn.Wired.Poller
import WirelessTsn.Ai.DeviceRows
import WirelessTsn.Ai.HttpRequest
import WirelessTsn.Ai.OllamaCommand
import WirelessTsn.Esp32.FilledForm
import WirelessTsn.Cam.Motion
import WirelessTsn.Db.TraceLog
import WirelessTsn.TraceLog.History
import WirelessTsn.Timesync.Stamps
import WirelessTsn.Esp32.StreamTable
import WirelessTsn.Esp32.RssiWindow
import WirelessTsn.Esp32.UrlDecode
import WirelessTsn.Mvc.EventBus
import WirelessTsn.Esp32.WifiMotion
import WirelessTsn.Esp32.SonarTask
import WirelessTsn.Ai.Reservations
import WirelessTsn.NodeRed.Statements
import WirelessTsn.NodeRed.Firmware
import WirelessTsn.NodeRed.Flash
import WirelessTsn.NodeRed.TsnForm
