import WirelessTsn.Lib.CString

/-!
Types shared by the whole configurator: the result codes of `common.h`, the
device record of `device.h` and the stream record of `stream.h`. A `char[n]`
member is a `Buf n`, an array with its count is a `Slots`, `int` and `time_t`
are `Int32` and `Int64`.
-/

namespace Htsn

open CText

inductive HtsnError where
  | ok
  | invalidArg
  | noMemory
  | notFound
  | alreadyExists
  | db
  | io
  | net
  | notImplemented
  | busy
  | notReady
deriving DecidableEq

/-- `char[HTSN_MAX_STR]` -/
abbrev Str := Buf 256

/-- `HTSN_MAX_DEVICES` -/
def maxDevices : Nat := 512

inductive DeviceKind where
  | unknown
  | esp32
  | raspberryPi
  | stm32
deriving DecidableEq

def deviceKindStr : DeviceKind → CStr
  | .esp32 => "ESP32".toList
  | .raspberryPi => "RaspberryPi".toList
  | .stm32 => "STM32".toList
  | .unknown => "Unknown".toList

def strcasecmp (a b : CStr) : Bool := a.map Char.toLower == b.map Char.toLower

def deviceKindParse (s : Option CStr) : DeviceKind :=
  match s with
  | none => .unknown
  | some s =>
      if strcasecmp s "ESP32".toList then .esp32
      else if strcasecmp s "RaspberryPi".toList then .raspberryPi
      else if strcasecmp s "STM32".toList then .stm32
      else .unknown

@[simp] theorem deviceKindParse_kindStr (k : DeviceKind) :
    deviceKindParse (some (deviceKindStr k)) = k := by
  cases k <;> decide

/-- The values of `htsn_device_status`. The C field is an `int` and is read
back from the database unchecked, so it is not limited to these. -/
def deviceOnline : Int32 := 0

def deviceOffline : Int32 := 1

def deviceError : Int32 := 2

/-- `htsn_device` -/
structure Device where
  id : Str
  ip : Buf 64
  mac : Buf 32
  firmware : Buf 32
  lastSeen : Int64
  status : Int32
  kind : DeviceKind
  tsnFeatures : Slots (Buf 64) 8
  name : Str
  domain : Str
  heartbeatAt : Int64
deriving DecidableEq

/-- A record cleared by `memset` and given an id and a domain. -/
def Device.ofId (id domain : CStr) : Device where
  id := Buf.copy 256 id
  ip := .empty
  mac := .empty
  firmware := .empty
  lastSeen := 0
  status := deviceOnline
  kind := .unknown
  tsnFeatures := .empty
  name := .empty
  domain := Buf.copy 256 domain
  heartbeatAt := 0

/-- `dev->domain[0] ? dev->domain : "default"` -/
def Device.domainOrDefault (d : Device) : CStr :=
  if d.domain.chars = [] then "default".toList else d.domain.chars

/-- The values of `htsn_stream_status`; see `deviceOnline`. -/
def streamConfigured : Int32 := 0

def streamReady : Int32 := 1

def streamFailed : Int32 := 2

def streamStandby : Int32 := 3

inductive StreamRole where
  | talker
  | listener
deriving DecidableEq

/-- `htsn_stream`; `listeners` holds the first `listener_count` entries. -/
structure Stream where
  streamId : Str
  name : Str
  talker : Str
  vlanId : Int32
  maxLatencyNs : Int64
  maxIntervalNs : Int64
  priority : Int32
  dataFramePrio : Int32
  status : Int32
  comment : Str
  listeners : Slots Str maxDevices
  listenerAll : Bool
deriving DecidableEq

/-- A stream request with one listener and otherwise the smallest values that
`htsn_stream_validate` lets pass. -/
def Stream.request (id talker listener : CStr) (status : Int32) : Stream where
  streamId := Buf.copy 256 id
  name := .empty
  talker := Buf.copy 256 talker
  vlanId := 0
  maxLatencyNs := 1
  maxIntervalNs := 1
  priority := 0
  dataFramePrio := 0
  status := status
  comment := .empty
  listeners := Slots.empty.push (Buf.copy 256 listener)
  listenerAll := false

def streamValidate (s : Stream) : HtsnError :=
  if s.streamId.chars.length = 0 then .invalidArg
  else if s.talker.chars.length = 0 then .invalidArg
  else if s.vlanId < 0 ∨ s.vlanId > 4094 then .invalidArg
  else if s.priority < 0 ∨ s.priority > 7 then .invalidArg
  else if s.dataFramePrio < 0 ∨ s.dataFramePrio > 7 then .invalidArg
  else if s.maxLatencyNs ≤ 0 then .invalidArg
  else if s.maxIntervalNs ≤ 0 then .invalidArg
  else if s.listenerAll = false ∧ s.listeners.items.length = 0 then .invalidArg
  else .ok

/-- `HTSN_STREAM_ALL_LISTENERS` -/
def allListeners : CStr := "*".toList

def streamStatusStr (st : Int32) : CStr :=
  if st = streamReady then "ready".toList
  else if st = streamFailed then "failed".toList
  else if st = streamStandby then "standby".toList
  else "configured".toList

def streamRoleStr : StreamRole → CStr
  | .talker => "talker".toList
  | .listener => "listener".toList

end Htsn
