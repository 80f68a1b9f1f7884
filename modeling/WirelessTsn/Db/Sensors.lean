import WirelessTsn.Db.Schema

/-!
`sensor.h`, `sensor.c` and `db_sensors.c`. A `double` is kept as its bits:
nothing here computes with it.
-/

namespace Htsn

open CText Keyed

inductive SensorType where
  | temperature
  | pressure
  | imu
  | distance
  | gpio
deriving DecidableEq

def sensorTypeStr : SensorType → CStr
  | .temperature => "temperature".toList
  | .pressure => "pressure".toList
  | .imu => "imu".toList
  | .distance => "distance".toList
  | .gpio => "gpio".toList

def sensorTypeParse (s : CStr) : SensorType :=
  if s = "temperature".toList then .temperature
  else if s = "pressure".toList then .pressure
  else if s = "imu".toList then .imu
  else if s = "distance".toList then .distance
  else if s = "gpio".toList then .gpio
  else .temperature

@[simp] theorem sensorTypeParse_typeStr (t : SensorType) :
    sensorTypeParse (sensorTypeStr t) = t := by
  cases t <;> decide

/-- `htsn_sensor` -/
structure Sensor where
  deviceId : Str
  sensorId : Str
  type : SensorType
  name : Str
  value : UInt64
  unit : Buf 32
  healthy : Bool
  lastUpdate : Int64
deriving DecidableEq

def sensorKey (s : Sensor) : CStr × CStr := (s.deviceId.chars, s.sensorId.chars)

/-- The bits of a NaN: all exponent bits set, some fraction bit set. -/
def isNan (bits : UInt64) : Bool :=
  decide (bits &&& 0x7FF0000000000000 = 0x7FF0000000000000) &&
    !decide (bits &&& 0x000FFFFFFFFFFFFF = 0)

/-- The row bound by `htsn_db_sensor_upsert`; `sqlite3_bind_double` stores a
NaN as NULL. -/
def sensorRow (s : Sensor) : SensorRow where
  deviceId := s.deviceId
  sensorId := s.sensorId
  type := sensorTypeStr s.type
  name := s.name
  value := if isNan s.value then none else some s.value
  unit := s.unit
  healthy := if s.healthy then 1 else 0
  lastUpdate := s.lastUpdate

@[simp] theorem key_sensorRow (s : Sensor) :
    PrimaryKey.key (sensorRow s) = sensorKey s := rfl

/-- `INSERT .. ON CONFLICT(device_id,sensor_id) DO UPDATE`, subject to the
foreign key. -/
def dbSensorUpsert (db : Db) (s : Sensor) : HtsnError × Db :=
  if prepares .sensorUpsert then
    if db.devices.Has s.deviceId.chars then
      (.ok, { db with sensors := db.sensors.upsert (sensorRow s) })
    else (.db, db)
  else (.db, db)

def dbSensorDelete (db : Db) (deviceId sensorId : CStr) : HtsnError × Db :=
  if prepares .sensorDelete then
    (.ok,
      { db with
        sensors := db.sensors.deleteWhere fun r =>
          decide (r.deviceId.chars = deviceId ∧ r.sensorId.chars = sensorId) })
  else (.db, db)

def rowToSensor (r : SensorRow) : Sensor where
  deviceId := r.deviceId
  sensorId := r.sensorId
  type := sensorTypeParse r.type
  name := r.name
  value := r.value.getD 0
  unit := r.unit
  healthy := !decide (r.healthy = 0)
  lastUpdate := r.lastUpdate

def dbSensorForEach (db : Db) : List Sensor :=
  if prepares .sensorSelect then db.sensors.rows.map rowToSensor else []

end Htsn
