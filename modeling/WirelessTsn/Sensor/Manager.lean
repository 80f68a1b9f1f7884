import WirelessTsn.Db.Sensors

/-!
`sensor_manager.c`: an array of at most 1024 sensors kept beside the sensors
table. The results of the database calls are not looked at, as in the
source.
-/

namespace Htsn

open CText Keyed

/-- `MAX_SENSORS` -/
def maxSensors : Nat := 1024

/-- `struct htsn_sensor_manager`; the first `count` entries of `sensors`. -/
structure SensorManager where
  sensors : Slots Sensor maxSensors
deriving DecidableEq

/-- The database and the manager's copy of the sensors table. -/
structure SensorSystem where
  db : Db
  manager : SensorManager
deriving DecidableEq

def sensorManagerCreate (db : Db) : SensorManager :=
  ⟨(dbSensorForEach db).foldl Slots.push .empty⟩

def sensorManagerUpsert (s : SensorSystem) (x : Sensor) : HtsnError × SensorSystem :=
  if h : HasKey sensorKey (sensorKey x) s.manager.sensors.items then
    (.ok,
      { db := (dbSensorUpsert s.db x).2
        manager := ⟨s.manager.sensors.edit (upsertBy sensorKey x)
          (length_upsertBy_of_hasKey h).le⟩ })
  else if s.manager.sensors.items.length ≥ maxSensors then (.busy, s)
  else
    (.ok,
      { db := (dbSensorUpsert s.db x).2
        manager := ⟨s.manager.sensors.push x⟩ })

def sensorManagerRemove (s : SensorSystem) (dev sid : CStr) : HtsnError × SensorSystem :=
  if HasKey sensorKey (dev, sid) s.manager.sensors.items then
    (.ok,
      { db := (dbSensorDelete s.db dev sid).2
        manager := ⟨s.manager.sensors.edit (eraseBy sensorKey (dev, sid))
          (length_eraseBy_le (dev, sid) _)⟩ })
  else (.notFound, s)

def makeSensor (deviceId sid : CStr) (type : SensorType) (name unit : CStr) (now : Int64) :
    Sensor where
  deviceId := Buf.copy 256 deviceId
  sensorId := Buf.copy 256 sid
  type := type
  name := Buf.copy 256 name
  value := 0
  unit := Buf.copy 32 unit
  healthy := true
  lastUpdate := now

/-- The sensors that `htsn_sensor_manager_auto_detect` makes up for a device,
in its order. `clock i` is what the `i`-th `time(NULL)` returns. -/
def detectedSensors (deviceId : CStr) (clock : Fin 5 → Int64) : List Sensor :=
  [makeSensor deviceId "temp1".toList .temperature "Ambient Temperature".toList "degC".toList
      (clock 0),
    makeSensor deviceId "press1".toList .pressure "Ambient Pressure".toList "hPa".toList (clock 1),
    makeSensor deviceId "imu1".toList .imu "6-axis IMU".toList "g".toList (clock 2),
    makeSensor deviceId "dist1".toList .distance "Ultrasonic Distance".toList "cm".toList (clock 3),
    makeSensor deviceId "gpio1".toList .gpio "GPIO Input".toList [] (clock 4)]

def sensorManagerAutoDetect (s : SensorSystem) (deviceId : CStr) (clock : Fin 5 → Int64) :
    HtsnError × SensorSystem :=
  (.ok, (detectedSensors deviceId clock).foldl (fun s x => (sensorManagerUpsert s x).2) s)

end Htsn
