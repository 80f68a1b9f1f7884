import WirelessTsn.Lib.Appending
import WirelessTsn.Lib.JsonText

/-!
The telemetry that `htsn_sensor_tick` publishes on `tsn/sensors`
(`htsn_agent/htsn_sensor.c`). Up to seven readings are appended to `buf`, of
512 bytes, and only behind the last of them is the position taken back to
where the closing brackets have room.

The three readings of the BME280 are `float`s that are made from integers. A
reading here is what `%.1f` prints of it, and absent where the code leaves it
out.
-/

namespace Htsn.Esp32

open CText JsonText

/-- `%.1f` of a finite number. -/
structure Tenths where
  neg : Bool
  whole : Nat
  tenth : Fin 10

def Tenths.text (x : Tenths) : CStr := Json.numText x.neg x.whole ++ ['.', Nat.digitChar x.tenth]

def Tenths.val (x : Tenths) : ℚ := (if x.neg then -1 else 1) * (x.whole + (x.tenth.val : ℚ) / 10)

/-- What a tick reads: `temp`, `press`, `hum`, `light_mv`, `pir_report`,
`g_st.active` of the motion detector, `wfm_std` and `g_actor_mode`. -/
structure Readings where
  temp : Option Tenths
  press : Option Tenths
  hum : Option Tenths
  lightMv : Int32
  pirReport : Bool
  active : Bool
  wfmStd : Int32
  actorMode : Int32

/-- A flag of C. -/
def flag (b : Bool) : Int := if b then 1 else 0

/-- `htsn_wifimotion_motion` -/
def wifimotionMotion (active : Bool) : Int := flag active

/-- One element of `sensors`. -/
def sensorText (sensorId type value unit : CStr) : CStr :=
  '\x7b' :: ("\"sensor_id\":\"".toList ++ (sensorId ++ ("\",\"type\":".toList ++ (type ++
    (",\"value\":".toList ++ (value ++ (",\"unit\":\"".toList ++ (unit ++
      "\",\"healthy\":1\x7d".toList))))))))

def bufTemp (temp : Tenths) : CStr :=
  (sensorText "temp1".toList "0".toList temp.text "C".toList).take 95

def bufPress (press : Tenths) : CStr :=
  (sensorText "press1".toList "1".toList press.text "hPa".toList).take 95

def bufHum (hum : Tenths) : CStr :=
  (sensorText "hum1".toList "0".toList hum.text "%".toList).take 95

def bufLight (lightMv : Int32) : CStr :=
  (sensorText "light1".toList "4".toList (showInt lightMv.toInt) "lx".toList).take 95

def bufPir (pirReport : Bool) : CStr :=
  (sensorText "pir1".toList "4".toList (showInt (flag pirReport)) []).take 95

def bufWfm (wfm : Int) (wfmStd : Int32) : CStr :=
  (sensorText "wifi_motion".toList "4".toList (showInt wfm) (showInt wfmStd.toInt)).take 79

def actorText (actorMode : Int32) : CStr :=
  sensorText "actor_mode".toList "4".toList (showInt actorMode.toInt) []

/-- `buf` with `m`, and `written`. -/
structure SensorBuf where
  buf : Writer 32
  written : Nat

/-- `m += snprintf(buf + m, sizeof(buf) - m, "%s%s", written++ ? "," : "", ..)` -/
def SensorBuf.add (s : SensorBuf) (text : CStr) : SensorBuf :=
  ⟨s.buf.append 512 ((if s.written = 0 then [] else [',']) ++ text), s.written + 1⟩

def SensorBuf.addAbove (s : SensorBuf) (reading : Option Tenths) (text : Tenths → CStr) : SensorBuf :=
  reading.elim s fun x => s.add (text x)

def telemetryHead (devId : CStr) (ts : Int64) : CStr :=
  '\x7b' :: ("\"id\":\"".toList ++ (devId ++ ("\",\"ts\":".toList ++ (showInt ts.toInt ++
    ",\"sensors\":[".toList))))

/-- `buf` ahead of the closing brackets. -/
def telemetryBuf (devId : CStr) (ts : Int64) (r : Readings) : Writer 32 :=
  let s : SensorBuf := ⟨Writer.fresh.append 511 (telemetryHead devId ts), 0⟩
  let s := s.addAbove r.temp bufTemp
  let s := s.addAbove r.press bufPress
  let s := s.addAbove r.hum bufHum
  let s := s.add (bufLight r.lightMv)
  let s := s.add (bufPir r.pirReport)
  let s := s.add (bufWfm (wifimotionMotion r.active) r.wfmStd)
  (s.add (actorText r.actorMode)).buf

/-- `if (m > sizeof(buf) - 4) m = sizeof(buf) - 4;` -/
def streamCap (b : Writer 32) : Writer 32 := if 508 < b.pos then { b with pos := 508 } else b

/-- `buf` when it is published. -/
def sensorBuf (devId : CStr) (ts : Int64) (r : Readings) : Writer 32 :=
  (streamCap (telemetryBuf devId ts r)).append 512 "]\x7d".toList

/-- The static data that `htsn_sensor_tick` looks at. -/
structure SensorTask where
  mq : Bool := true
  devId : Buf 32
  lastTick : Int64 := 0
  readPeriodNs : Int64

/-- The buffer that a tick publishes on `tsn/sensors`; `now` is the time in
nanoseconds, `ts` what `time(NULL)` returns. -/
def sensorTick (s : SensorTask) (now ts : Int64) (r : Readings) : SensorTask × Option (Writer 32) :=
  if now - s.lastTick < s.readPeriodNs then (s, none)
  else
    let s := { s with lastTick := now }
    if !s.mq then (s, none)
    else if s.devId.chars ≠ "esp32-01".toList ∧ s.devId.chars ≠ "esp32-1".toList then (s, none)
    else (s, some (sensorBuf s.devId.chars ts r))

/-! ### What is to be published -/

/-- An element of the array. -/
def sensorValue (sensorId : CStr) (type : Int) (value : ℚ) (unit : CStr) : JVal :=
  .obj [("sensor_id".toList, .str sensorId), ("type".toList, ofInt type), ("value".toList, .num value),
    ("unit".toList, .str unit), ("healthy".toList, ofInt 1)]

/-- The present readings but the last. -/
def Readings.presentFront (r : Readings) : List JVal :=
  (r.temp.toList.map fun x => sensorValue "temp1".toList 0 x.val "C".toList) ++
  (r.press.toList.map fun x => sensorValue "press1".toList 1 x.val "hPa".toList) ++
  (r.hum.toList.map fun x => sensorValue "hum1".toList 0 x.val "%".toList) ++
  [sensorValue "light1".toList 4 r.lightMv.toInt "lx".toList,
    sensorValue "pir1".toList 4 (flag r.pirReport) [],
    sensorValue "wifi_motion".toList 4 (flag r.active) (showInt r.wfmStd.toInt)]

/-- The present readings, in order. -/
def Readings.present (r : Readings) : List JVal :=
  r.presentFront ++ [sensorValue "actor_mode".toList 4 r.actorMode.toInt []]

/-- The payload is an object with the present readings, and no call started
outside the buffer. -/
structure TelemetryComplete (r : Readings) (b : Writer 32) : Prop where
  inside : ∀ p ∈ b.starts, p ≤ 512
  decodes : ∃ v, Denotes v (b.mem.str 512) ∧ v.get "sensors".toList = some (.arr r.present)

/-- Every formatted value has at most seven characters. -/
structure Readings.Short (r : Readings) : Prop where
  temp : ∀ x ∈ r.temp, x.text.length ≤ 7
  press : ∀ x ∈ r.press, x.text.length ≤ 7
  hum : ∀ x ∈ r.hum, x.text.length ≤ 7
  light : (showInt r.lightMv.toInt).length ≤ 7
  wfmStd : (showInt r.wfmStd.toInt).length ≤ 7
  actor : (showInt r.actorMode.toInt).length ≤ 7

/-- The widths of the elements, each with a comma. -/
def Readings.width (r : Readings) : Nat :=
  (r.temp.elim 0 fun x => x.text.length + 63) + (r.press.elim 0 fun x => x.text.length + 66) +
  (r.hum.elim 0 fun x => x.text.length + 62) + ((showInt r.lightMv.toInt).length + 65) + 62 +
  ((showInt r.wfmStd.toInt).length + 69) + ((showInt r.actorMode.toInt).length + 67)

/-- The text has room for its closing brackets. -/
def TelemetryFits (devId : CStr) (ts : Int64) (r : Readings) : Prop :=
  devId.length + (showInt ts.toInt).length + r.width ≤ 483

instance (devId : CStr) (ts : Int64) (r : Readings) : Decidable (TelemetryFits devId ts r) :=
  inferInstanceAs (Decidable (_ ≤ _))

/-! ### The calls -/

/-- The elements ahead of the last. -/
def Readings.front (r : Readings) : List CStr :=
  r.temp.toList.map bufTemp ++ r.press.toList.map bufPress ++ r.hum.toList.map bufHum ++
    [bufLight r.lightMv, bufPir r.pirReport, bufWfm (wifimotionMotion r.active) r.wfmStd]

theorem commaPieces_concat (ts : List CStr) (t : CStr) :
    commaPieces (ts ++ [t]) = commaPieces ts ++ [(if ts.length = 0 then [] else [',']) ++ t] := by
  cases ts with
  | nil => rfl
  | cons u us => simp [commaPieces]

/-- The elements appended to the buffer so far. -/
structure SensorBuf.Added (s : SensorBuf) (start : Writer 32) (ts : List CStr) : Prop where
  buf : s.buf = start.appendAll 512 (commaPieces ts)
  written : s.written = ts.length

theorem SensorBuf.Added.add {s : SensorBuf} {start : Writer 32} {ts : List CStr}
    (h : s.Added start ts) (text : CStr) : (s.add text).Added start (ts ++ [text]) := by
  constructor
  · rw [commaPieces_concat, Writer.appendAll_concat, ← h.buf, ← h.written]
    rfl
  · rw [List.length_append, ← h.written]
    rfl

theorem SensorBuf.Added.addAbove {s : SensorBuf} {start : Writer 32} {ts : List CStr}
    (h : s.Added start ts) (reading : Option Tenths) (text : Tenths → CStr) :
    (s.addAbove reading text).Added start (ts ++ reading.toList.map text) := by
  cases reading with
  | none => rwa [Option.toList_none, List.map_nil, List.append_nil]
  | some x => exact h.add (text x)

theorem telemetryBuf_eq (devId : CStr) (ts : Int64) (r : Readings) :
    telemetryBuf devId ts r = (Writer.fresh.append 511 (telemetryHead devId ts)).appendAll 512
      (commaPieces (r.front ++ [actorText r.actorMode])) := by
  have hstart : (⟨Writer.fresh.append 511 (telemetryHead devId ts), 0⟩ : SensorBuf).Added
      (Writer.fresh.append 511 (telemetryHead devId ts)) [] := ⟨rfl, rfl⟩
  have hbme := ((hstart.addAbove r.temp bufTemp).addAbove r.press bufPress).addAbove r.hum bufHum
  have hall := (((hbme.add (bufLight r.lightMv)).add (bufPir r.pirReport)).add
    (bufWfm (wifimotionMotion r.active) r.wfmStd)).add (actorText r.actorMode)
  have hfront : [] ++ r.temp.toList.map bufTemp ++ r.press.toList.map bufPress ++
      r.hum.toList.map bufHum ++ [bufLight r.lightMv] ++ [bufPir r.pirReport] ++
        [bufWfm (wifimotionMotion r.active) r.wfmStd] = r.front := by
    simp [Readings.front]
  rw [hfront] at hall
  exact hall.buf

/-! ### The elements -/

theorem reads_tenths (x : Tenths) : Reads (.value (.num x.val)) x.text := by
  have hdigit : ∀ n : Fin 10, (Nat.digitChar n).isDigit = true ∧ (Nat.digitChar n).toNat = n + 48 := by
    decide
  have hdigits : ∀ c ∈ [Nat.digitChar x.tenth], c.isDigit = true := by
    intro c hc
    rw [List.mem_singleton.mp hc]
    exact (hdigit x.tenth).1
  have hreads := Reads.num ⟨x.neg, x.whole, some ⟨[Nat.digitChar x.tenth], List.cons_ne_nil _ _, hdigits⟩,
    none⟩
  have hval : (⟨[Nat.digitChar x.tenth], List.cons_ne_nil _ _, hdigits⟩ : Digits).val = x.tenth := by
    show 10 * 0 + ((Nat.digitChar x.tenth).toNat - 48) = _
    rw [(hdigit x.tenth).2]
    omega
  simp only [Number.val, Number.text, Option.elim_some, Option.elim_none, mul_one, hval,
    List.length_singleton, pow_one, List.append_nil] at hreads
  exact hreads

theorem reads_sensorText {sensorId type value unit : CStr} {t : Int} {q : ℚ}
    (hid : ∀ c ∈ sensorId, IsStrChar c) (hunit : ∀ c ∈ unit, IsStrChar c)
    (htype : Reads (.value (ofInt t)) type) (hvalue : Reads (.value (.num q)) value) :
    Reads (.value (sensorValue sensorId t q unit)) (sensorText sensorId type value unit) := by
  have hmembers := reads_obj
    (.cons (readsMember (by decide : ∀ c ∈ "sensor_id".toList, IsStrChar c) (reads_str hid))
    (.cons (readsMember (by decide : ∀ c ∈ "type".toList, IsStrChar c) htype)
    (.cons (readsMember (by decide : ∀ c ∈ "value".toList, IsStrChar c) hvalue)
    (.cons (readsMember (by decide : ∀ c ∈ "unit".toList, IsStrChar c) (reads_str hunit))
    (.cons (readsMember (by decide : ∀ c ∈ "healthy".toList, IsStrChar c) (reads_int 1)) .nil)))))
  have hone : showInt 1 = ['1'] := rfl
  simp only [commaSep_cons_cons, commaSep_singleton, memberText, hone, String.reduceToList,
    List.append_assoc, List.cons_append, List.nil_append] at hmembers
  simp only [sensorText, sensorValue, String.reduceToList, List.cons_append, List.nil_append]
  exact hmembers

theorem sensorText_length (sensorId type value unit : CStr) :
    (sensorText sensorId type value unit).length =
      sensorId.length + type.length + value.length + unit.length + 55 := by
  simp only [sensorText, String.reduceToList, List.length_append, List.length_cons, List.length_nil]
  omega

/-! ### Short readings -/

section

variable {r : Readings}

theorem bufTemp_eq {x : Tenths} (h : x.text.length ≤ 7) :
    bufTemp x = sensorText "temp1".toList "0".toList x.text "C".toList := by
  apply List.take_of_length_le
  simp only [sensorText_length, String.reduceToList, List.length_cons, List.length_nil]
  omega

theorem bufPress_eq {x : Tenths} (h : x.text.length ≤ 7) :
    bufPress x = sensorText "press1".toList "1".toList x.text "hPa".toList := by
  apply List.take_of_length_le
  simp only [sensorText_length, String.reduceToList, List.length_cons, List.length_nil]
  omega

theorem bufHum_eq {x : Tenths} (h : x.text.length ≤ 7) :
    bufHum x = sensorText "hum1".toList "0".toList x.text "%".toList := by
  apply List.take_of_length_le
  simp only [sensorText_length, String.reduceToList, List.length_cons, List.length_nil]
  omega

theorem bufLight_eq (hr : r.Short) : bufLight r.lightMv =
    sensorText "light1".toList "4".toList (showInt r.lightMv.toInt) "lx".toList := by
  have hlight := hr.light
  apply List.take_of_length_le
  simp only [sensorText_length, String.reduceToList, List.length_cons, List.length_nil]
  omega

theorem flag_length (b : Bool) : (showInt (flag b)).length = 1 := by
  cases b <;> rfl

theorem bufPir_eq (pirReport : Bool) : bufPir pirReport =
    sensorText "pir1".toList "4".toList (showInt (flag pirReport)) [] := by
  have hpir := flag_length pirReport
  apply List.take_of_length_le
  simp only [sensorText_length, String.reduceToList, List.length_cons, List.length_nil]
  omega

theorem bufWfm_eq (hr : r.Short) : bufWfm (wifimotionMotion r.active) r.wfmStd =
    sensorText "wifi_motion".toList "4".toList (showInt (flag r.active)) (showInt r.wfmStd.toInt) := by
  have hwfm : (showInt (wifimotionMotion r.active)).length = 1 := flag_length r.active
  have hstd := hr.wfmStd
  apply List.take_of_length_le
  simp only [sensorText_length, String.reduceToList, List.length_cons, List.length_nil]
  omega

/-- What the present readings of an optional one come to. -/
theorem sum_reading {reading : Option Tenths} {text : Tenths → CStr} {k : Nat}
    (h : ∀ x ∈ reading, (text x).length + 1 = x.text.length + k) :
    ((reading.toList.map text).map fun t => t.length + 1).sum =
      reading.elim 0 fun x => x.text.length + k := by
  cases reading with
  | none => rfl
  | some x => simpa using h x rfl

theorem front_length (hr : r.Short) : (r.front.map fun t => t.length + 1).sum + 
    ((showInt r.actorMode.toInt).length + 67) = r.width := by
  have htemp := @sum_reading r.temp bufTemp 63 (by
    intro x hx
    rw [bufTemp_eq (hr.temp x hx), sensorText_length]
    simp only [String.reduceToList, List.length_cons, List.length_nil]
    omega)
  have hpress := @sum_reading r.press bufPress 66 (by
    intro x hx
    rw [bufPress_eq (hr.press x hx), sensorText_length]
    simp only [String.reduceToList, List.length_cons, List.length_nil]
    omega)
  have hhum := @sum_reading r.hum bufHum 62 (by
    intro x hx
    rw [bufHum_eq (hr.hum x hx), sensorText_length]
    simp only [String.reduceToList, List.length_cons, List.length_nil]
    omega)
  have hpir := flag_length r.pirReport
  have hwfm := flag_length r.active
  rw [Readings.front, List.map_append, List.map_append, List.map_append, List.sum_append,
    List.sum_append, List.sum_append, htemp, hpress, hhum, bufLight_eq hr, bufPir_eq, bufWfm_eq hr]
  simp only [List.map_cons, List.map_nil, List.sum_cons, List.sum_nil, sensorText_length,
    String.reduceToList, List.length_cons, List.length_nil, Readings.width, hpir, hwfm]
  omega

/-- What an optional reading is to be and what is printed of it. -/
theorem reads_reading {reading : Option Tenths} {text : Tenths → CStr} {value : Tenths → JVal}
    (h : ∀ x ∈ reading, Reads (.value (value x)) (text x)) :
    List.Forall₂ (fun v t => Reads (.value v) t) (reading.toList.map value)
      (reading.toList.map text) := by
  cases reading with
  | none => exact .nil
  | some x => exact .cons (h x rfl) .nil

theorem reads_front (hr : r.Short) :
    List.Forall₂ (fun v t => Reads (.value v) t) r.presentFront r.front := by
  have hzero : Reads (.value (ofInt 0)) "0".toList := reads_int 0
  have hone : Reads (.value (ofInt 1)) "1".toList := reads_int 1
  have hfour : Reads (.value (ofInt 4)) "4".toList := reads_int 4
  have hclean : ∀ v : Int, ∀ c ∈ showInt v, IsStrChar c := strChar_showInt
  have htemp := @reads_reading r.temp bufTemp
    (fun x => sensorValue "temp1".toList 0 x.val "C".toList) (by
    intro x hx
    rw [bufTemp_eq (hr.temp x hx)]
    exact reads_sensorText (by decide) (by decide) hzero (reads_tenths x))
  have hpress := @reads_reading r.press bufPress
    (fun x => sensorValue "press1".toList 1 x.val "hPa".toList) (by
    intro x hx
    rw [bufPress_eq (hr.press x hx)]
    exact reads_sensorText (by decide) (by decide) hone (reads_tenths x))
  have hhum := @reads_reading r.hum bufHum
    (fun x => sensorValue "hum1".toList 0 x.val "%".toList) (by
    intro x hx
    rw [bufHum_eq (hr.hum x hx)]
    exact reads_sensorText (by decide) (by decide) hzero (reads_tenths x))
  have hlight : Reads (.value (sensorValue "light1".toList 4 r.lightMv.toInt "lx".toList))
      (bufLight r.lightMv) := by
    rw [bufLight_eq hr]
    exact reads_sensorText (by decide) (by decide) hfour (reads_int _)
  have hpir : Reads (.value (sensorValue "pir1".toList 4 (flag r.pirReport) [])) (bufPir r.pirReport) := by
    rw [bufPir_eq]
    exact reads_sensorText (by decide) (by decide) hfour (reads_int _)
  have hwfm : Reads (.value (sensorValue "wifi_motion".toList 4 (flag r.active)
      (showInt r.wfmStd.toInt))) (bufWfm (wifimotionMotion r.active) r.wfmStd) := by
    rw [bufWfm_eq hr]
    exact reads_sensorText (by decide) (hclean _) hfour (reads_int _)
  exact List.rel_append (List.rel_append (List.rel_append htemp hpress) hhum)
    (.cons hlight (.cons hpir (.cons hwfm .nil)))

theorem reads_actor (actorMode : Int32) :
    Reads (.value (sensorValue "actor_mode".toList 4 actorMode.toInt [])) (actorText actorMode) :=
  reads_sensorText (by decide) (by decide) (reads_int 4) (reads_int _)

theorem reads_elements (hr : r.Short) :
    List.Forall₂ (fun v t => Reads (.value v) t) r.present (r.front ++ [actorText r.actorMode]) :=
  List.rel_append (reads_front hr) (.cons (reads_actor r.actorMode) .nil)

/-! ### The payload -/

/-- The ids with which telemetry is published. -/
def IsSensorId (devId : CStr) : Prop := devId = "esp32-01".toList ∨ devId = "esp32-1".toList

theorem IsSensorId.clean {devId : CStr} (h : IsSensorId devId) :
    (∀ c ∈ devId, IsStrChar c) ∧ devId.length ≤ 8 := by
  rcases h with rfl | rfl <;> decide

theorem telemetryHead_length (devId : CStr) (ts : Int64) :
    (telemetryHead devId ts).length = devId.length + (showInt ts.toInt).length + 26 := by
  simp only [telemetryHead, String.reduceToList, List.length_append, List.length_cons,
    List.length_nil]
  omega

/-- What the calls ahead of the closing brackets print. -/
def telemetryCalls (devId : CStr) (ts : Int64) (r : Readings) : List CStr :=
  telemetryHead devId ts :: commaPieces (r.front ++ [actorText r.actorMode])

/-- The text ahead of its closing brackets. -/
def telemetryText (devId : CStr) (ts : Int64) (r : Readings) : CStr :=
  telemetryHead devId ts ++ commaSep (r.front ++ [actorText r.actorMode])

def telemetryValue (devId : CStr) (ts : Int64) (r : Readings) : JVal :=
  .obj [("id".toList, .str devId), ("ts".toList, ofInt ts.toInt), ("sensors".toList, .arr r.present)]

theorem telemetryValue_get (devId : CStr) (ts : Int64) (r : Readings) :
    (telemetryValue devId ts r).get "sensors".toList = some (.arr r.present) := rfl

theorem reads_telemetryText {devId : CStr} (hid : IsSensorId devId) (ts : Int64) (hr : r.Short) :
    Reads (.value (telemetryValue devId ts r)) (telemetryText devId ts r ++ "]\x7d".toList) := by
  have hmembers := reads_obj
    (.cons (readsMember (by decide : ∀ c ∈ "id".toList, IsStrChar c) (reads_str hid.clean.1))
    (.cons (readsMember (by decide : ∀ c ∈ "ts".toList, IsStrChar c) (reads_int ts.toInt))
    (.cons (readsMember (by decide : ∀ c ∈ "sensors".toList, IsStrChar c)
      (reads_arr (reads_elements hr))) .nil)))
  rw [commaSep_cons_cons, commaSep_cons_cons, commaSep_singleton] at hmembers
  simp only [memberText, String.reduceToList, List.append_assoc, List.cons_append,
    List.nil_append] at hmembers
  simp only [telemetryText, telemetryHead, telemetryValue, String.reduceToList, List.append_assoc,
    List.cons_append, List.nil_append]
  exact hmembers

theorem front_ne_nil (r : Readings) : r.front ≠ [] := by
  simp [Readings.front]

theorem telemetryText_length (devId : CStr) (ts : Int64) (hr : r.Short) :
    (telemetryText devId ts r).length + 1 =
      devId.length + (showInt ts.toInt).length + 26 + r.width := by
  have hsum := commaSep_length (List.append_ne_nil_of_left_ne_nil (front_ne_nil r)
    [actorText r.actorMode])
  have hfront := front_length hr
  rw [List.map_append, List.sum_append, List.map_singleton, List.sum_singleton, actorText,
    sensorText_length] at hsum
  simp only [String.reduceToList, List.length_cons, List.length_nil] at hsum
  rw [telemetryText, List.length_append, telemetryHead_length]
  simp only [actorText, String.reduceToList]
  omega

theorem showInt_ts_length (ts : Int64) : (showInt ts.toInt).length ≤ 20 := by
  have hlo := ts.le_toInt
  have hhi := ts.toInt_lt
  exact showInt_length_le (by decide) (by omega)

/-- The first call may as well have the whole buffer. -/
theorem telemetryBuf_appendAll {devId : CStr} (hid : IsSensorId devId) (ts : Int64) (r : Readings) :
    telemetryBuf devId ts r = Writer.fresh.appendAll 512 (telemetryCalls devId ts r) := by
  have hid8 := hid.clean.2
  have hts := showInt_ts_length ts
  have hhead := telemetryHead_length devId ts
  have hroom : (Writer.fresh : Writer 32).append 511 (telemetryHead devId ts) =
      Writer.fresh.append 512 (telemetryHead devId ts) := by
    apply Writer.append_of_room
    · show _ < 511
      omega
    · show _ < 512
      omega
  rw [telemetryBuf_eq, hroom]
  rfl

theorem width_le (hr : r.Short) : r.width ≤ 502 := by
  have hoption : ∀ (reading : Option Tenths) (k : Nat), (∀ x ∈ reading, x.text.length ≤ 7) →
      (reading.elim 0 fun x => x.text.length + k) ≤ 7 + k := by
    intro reading k h
    cases reading with
    | none => exact Nat.zero_le _
    | some x => exact Nat.add_le_add_right (h x rfl) k
  have htemp := hoption r.temp 63 hr.temp
  have hpress := hoption r.press 66 hr.press
  have hhum := hoption r.hum 62 hr.hum
  have hlight := hr.light
  have hstd := hr.wfmStd
  have hactor := hr.actor
  unfold Readings.width
  omega

theorem telemetryCalls_flatten (devId : CStr) (ts : Int64) (r : Readings) :
    (telemetryCalls devId ts r).flatten = telemetryText devId ts r := rfl

theorem telemetryBuf_pos {devId : CStr} (hid : IsSensorId devId) (ts : Int64) (hr : r.Short) :
    (telemetryBuf devId ts r).pos.toNat = (telemetryText devId ts r).length := by
  have hlength := telemetryText_length devId ts hr
  have hwidth := width_le hr
  have hid8 := hid.clean.2
  have hts := showInt_ts_length ts
  rw [telemetryBuf_appendAll hid, Writer.pos_appendAll, telemetryCalls_flatten]
  rw [telemetryCalls_flatten]
  omega

theorem telemetryComplete_of_fits {devId : CStr} (hid : IsSensorId devId) {ts : Int64}
    (hr : r.Short) (hfits : TelemetryFits devId ts r) :
    TelemetryComplete r (sensorBuf devId ts r) := by
  have hlength := telemetryText_length devId ts hr
  unfold TelemetryFits at hfits
  have hcap : streamCap (telemetryBuf devId ts r) = telemetryBuf devId ts r := by
    refine if_neg ?_
    rw [BitVec.lt_def, telemetryBuf_pos hid ts hr]
    show ¬ 508 < _
    omega
  have hbuf : sensorBuf devId ts r =
      Writer.fresh.appendAll 512 (telemetryCalls devId ts r ++ ["]\x7d".toList]) := by
    rw [sensorBuf, hcap, telemetryBuf_appendAll hid, Writer.appendAll_concat]
  have hwhole : (telemetryCalls devId ts r ++ ["]\x7d".toList]).flatten =
      telemetryText devId ts r ++ "]\x7d".toList := by
    rw [List.flatten_append, telemetryCalls_flatten, List.flatten_singleton]
  have hshort : (telemetryText devId ts r ++ "]\x7d".toList).length ≤ 511 := by
    rw [List.length_append]
    show _ + 2 ≤ 511
    omega
  have hreads := reads_telemetryText hid ts hr
  rw [hbuf]
  constructor
  · have hinside := @Writer.startsInside_appendAll 32 512 (telemetryCalls devId ts r ++
      ["]\x7d".toList]) (by
        rw [List.dropLast_concat, telemetryCalls_flatten]
        show _ < 512
        omega)
    exact fun p hp => BitVec.le_of_lt (hinside p hp)
  · have hstr := @Writer.str_appendAll 32 512 (telemetryCalls devId ts r ++ ["]\x7d".toList])
      (by simp) (by rw [hwhole]; exact nulFree_reads hreads) (by decide) (by rw [hwhole]; omega)
    rw [hwhole] at hstr
    have hpayload := hstr.trans (List.take_of_length_le hshort)
    exact ⟨_, hpayload ▸ denotes_of_reads hreads, telemetryValue_get devId ts r⟩

/-- A longer text is cut in its last element, and the closing brackets are put
behind the cut. -/
theorem sensorBuf_str_of_long {devId : CStr} (hid : IsSensorId devId) {ts : Int64} (hr : r.Short)
    (hlong : ¬ TelemetryFits devId ts r) :
    (sensorBuf devId ts r).mem.str 512 =
      (telemetryText devId ts r).take 508 ++ "]\x7d".toList := by
  have hlength := telemetryText_length devId ts hr
  have hwidth := width_le hr
  have hid8 := hid.clean.2
  have hts := showInt_ts_length ts
  unfold TelemetryFits at hlong
  have hcap : streamCap (telemetryBuf devId ts r) =
      ⟨(telemetryBuf devId ts r).mem, 508, (telemetryBuf devId ts r).starts⟩ := by
    refine if_pos ?_
    rw [BitVec.lt_def, telemetryBuf_pos hid ts hr]
    show 508 < _
    omega
  have hheld := @Writer.holds_appendAll 32 512 (telemetryCalls devId ts r) (List.cons_ne_nil _ _)
    (by decide) (by rw [telemetryCalls_flatten]; omega)
  rw [telemetryCalls_flatten, ← telemetryBuf_appendAll hid] at hheld
  have hstarts : (telemetryBuf devId ts r).mem.Starts ((telemetryText devId ts r).take 508) := by
    have htake := hheld.starts.take 508
    rwa [List.take_take] at htake
  have hcut : ((telemetryText devId ts r).take 508).length = 508 := by
    rw [List.length_take]
    omega
  have hend := hstarts.snprintf (n := 512) (by omega) "]\x7d".toList
  have hnul := nulFree_reads (reads_telemetryText hid ts hr)
  rw [hcut, List.take_of_length_le (by rw [List.length_append, hcut]; decide)] at hend
  have hpos : (508 : BitVec 32).toNat = 508 := by decide
  have hroom : (512 - 508 : BitVec 32).toNat = 512 - 508 := by decide
  rw [sensorBuf, hcap, Writer.append_mem, hpos, hroom]
  have hfree : '\x00' ∉ (telemetryText devId ts r).take 508 ++ "]\x7d".toList := by
    intro hmem
    rcases List.mem_append.mp hmem with hmem | hmem
    · exact hnul (List.mem_append_left _ (List.mem_of_mem_take hmem))
    · exact hnul (List.mem_append_right _ hmem)
  have hshort : ((telemetryText devId ts r).take 508 ++ "]\x7d".toList).length < 512 := by
    rw [List.length_append, hcut]
    decide
  rw [hend.str hfree hshort]

/-- Behind the elements but the last, and their comma. -/
theorem brackets_front {devId : CStr} (hid : IsSensorId devId) (ts : Int64) (hr : r.Short) :
    brackets (.out, 0) (telemetryHead devId ts ++ (commaSep r.front ++ [','])) = (.out, 2) := by
  have hhead : brackets (.out, 0) (telemetryHead devId ts) = (.out, 2) := by
    have hopen : ∀ d, brackets (.out, 0) ('\x7b' :: ("\"id\":\"".toList ++ (d ++ "\",\"ts\":".toList))) =
        (.out, 1) → brackets (.out, 0) ('\x7b' :: ("\"id\":\"".toList ++ (d ++ ("\",\"ts\":".toList ++
          (showInt ts.toInt ++ ",\"sensors\":[".toList))))) = (.out, 2) := by
      intro d hd
      have htext : '\x7b' :: ("\"id\":\"".toList ++ (d ++ ("\",\"ts\":".toList ++
          (showInt ts.toInt ++ ",\"sensors\":[".toList)))) = ('\x7b' :: ("\"id\":\"".toList ++
            (d ++ "\",\"ts\":".toList))) ++ (showInt ts.toInt ++ ",\"sensors\":[".toList) := by
        simp only [List.append_assoc, List.cons_append]
      rw [htext, brackets_append, hd, brackets_append,
        brackets_quiet (quiet_showInt ts.toInt) (by decide)]
      decide
    apply hopen
    rcases hid with rfl | rfl <;> decide
  have hfront : Balanced (commaSep r.front) := by
    apply balanced_commaSep
    intro t ht
    obtain ⟨v, hreads⟩ := reads_of_mem (reads_front hr) ht
    exact balanced_reads hreads
  rw [brackets_append, hhead, brackets_append, hfront.back]
  rfl

/-- The elements but the last fit the buffer, whatever their values. -/
theorem front_fits {devId : CStr} (hid : IsSensorId devId) (ts : Int64) (hr : r.Short) :
    (telemetryHead devId ts ++ (commaSep r.front ++ [','])).length < 508 := by
  have hsum := commaSep_length (front_ne_nil r)
  have hfront := front_length hr
  have hwidth := width_le hr
  have hid8 := hid.clean.2
  have hts := showInt_ts_length ts
  rw [List.length_append, List.length_append, telemetryHead_length, List.length_singleton]
  omega

theorem not_telemetryComplete_of_long {devId : CStr} (hid : IsSensorId devId) {ts : Int64}
    (hr : r.Short) (hlong : ¬ TelemetryFits devId ts r) :
    ¬ TelemetryComplete r (sensorBuf devId ts r) := by
  rintro ⟨-, v, hdenotes, -⟩
  have hlength := telemetryText_length devId ts hr
  have hfront := front_fits hid ts hr
  rw [sensorBuf_str_of_long hid hr hlong] at hdenotes
  unfold TelemetryFits at hlong
  have htext : telemetryText devId ts r =
      (telemetryHead devId ts ++ (commaSep r.front ++ [','])) ++ actorText r.actorMode := by
    rw [telemetryText, commaSep_concat (front_ne_nil r), List.append_assoc, List.append_assoc]
    rfl
  generalize hA : telemetryHead devId ts ++ (commaSep r.front ++ [',']) = A at htext hfront
  have hcut : (telemetryText devId ts r).take 508 = A ++ (actorText r.actorMode).take (508 - A.length) := by
    rw [htext, List.take_append, List.take_of_length_le (by omega)]
  have hdeep := (reads_actor r.actorMode).cut rfl (List.take_prefix (508 - A.length) _) (by
    rw [Ne, List.take_eq_nil_iff]
    rintro (hnil | hnil)
    · omega
    · cases hnil) (by
    rw [htext, List.length_append] at hlength
    rw [Ne, List.take_eq_self_iff]
    omega) 2
  have hopen : 0 < (brackets (.out, 0) ((telemetryText devId ts r).take 508 ++ "]\x7d".toList)).2 := by
    rw [hcut, brackets_append, brackets_append, ← hA, brackets_front hid ts hr]
    rw [hA]
    have hfirst := bracketStep_ge (brackets (.out, 2) ((actorText r.actorMode).take (508 - A.length))) ']'
    have hsecond := bracketStep_ge (bracketStep
      (brackets (.out, 2) ((actorText r.actorMode).take (508 - A.length))) ']') '\x7d'
    show 0 < (bracketStep (bracketStep _ ']') '\x7d').2
    omega
  exact not_denotes_of_open hopen v hdenotes

/-- What is published comes from one of the two devices with sensors. -/
theorem sensorTick_published {s : SensorTask} {now ts : Int64} {b : Writer 32}
    (h : (sensorTick s now ts r).2 = some b) :
    IsSensorId s.devId.chars ∧ b = sensorBuf s.devId.chars ts r := by
  unfold sensorTick at h
  split at h
  · cases h
  · dsimp only at h
    split at h
    · cases h
    · split at h
      · cases h
      · rename_i hid
        refine ⟨?_, (Option.some.inj h).symm⟩
        rw [not_and_or, not_not, not_not] at hid
        exact hid

/-- Telemetry is complete exactly when the text has room for its brackets. -/
theorem telemetryComplete_iff {s : SensorTask} {now ts : Int64} {b : Writer 32} (hr : r.Short)
    (h : (sensorTick s now ts r).2 = some b) :
    TelemetryComplete r b ↔ TelemetryFits s.devId.chars ts r := by
  obtain ⟨hid, rfl⟩ := sensorTick_published h
  constructor
  · intro hcomplete
    by_contra hlong
    exact not_telemetryComplete_of_long hid hr hlong hcomplete
  · exact telemetryComplete_of_fits hid hr

end

/-- A tick without the BME280. -/
def lightOnly : Readings := ⟨none, none, none, 812, true, true, 14, 0⟩

def sensorBoard : SensorTask := { devId := Buf.copy 32 "esp32-01".toList, readPeriodNs := 1000000 }

theorem lightOnly_complete :
    TelemetryComplete lightOnly (sensorBuf "esp32-01".toList 1700000000 lightOnly) ↔
      TelemetryFits "esp32-01".toList 1700000000 lightOnly :=
  @telemetryComplete_iff lightOnly sensorBoard 2000000 1700000000 _
    ⟨nofun, nofun, nofun, by decide, by decide, by decide⟩ rfl

/-- A tick with all sensors: 21.5 C, 1013.2 hPa and 45.0 %. -/
def allSensors : Readings :=
  ⟨some ⟨false, 21, 5⟩, some ⟨false, 1013, 2⟩, some ⟨false, 45, 0⟩, 1234, false, false, 12, 3⟩

theorem allSensors_short : allSensors.Short where
  temp := by
    rintro x ⟨⟩
    decide
  press := by
    rintro x ⟨⟩
    decide
  hum := by
    rintro x ⟨⟩
    decide
  light := by decide
  wfmStd := by decide
  actor := by decide

theorem allSensors_incomplete :
    ¬ TelemetryComplete allSensors (sensorBuf "esp32-01".toList 1700000000 allSensors) :=
  not_telemetryComplete_of_long (.inl rfl) allSensors_short (by decide)

end Htsn.Esp32
