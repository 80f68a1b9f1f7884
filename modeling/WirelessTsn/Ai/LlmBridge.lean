import WirelessTsn.Ai.Policy

/-!
The LLM bridge (`rpi-ai/llm_bridge.c`) from the point where the model has
answered: the content is taken out of the answer, an action out of the
content, and an action of the allowlist is executed. The two extractors search
for a key as a piece of text, wherever it stands.
-/

namespace Htsn.Ai

open CText Keyed

/-! ### The extractors -/

/-- The loop of `json_get_str`: what is copied while `n` characters fit. A
backslash gives way to the character behind it. -/
def copyValue : Nat → CStr → CStr
  | 0, _ => []
  | _ + 1, [] => []
  | _ + 1, '"' :: _ => []
  | n + 1, '\\' :: c :: p => c :: copyValue n p
  | n + 1, c :: p => c :: copyValue n p

def isGap (c : Char) : Bool := c = ' ' ∨ c = ':' ∨ c = '\t'

/-- `json_get_str` -/
def jsonGetStr (json key : CStr) (cap : Nat) : Option CStr :=
  let pat := '"' :: (key ++ ['"'])
  match strstr pat json with
  | none => none
  | some p =>
      match (p.drop pat.length).dropWhile isGap with
      | '"' :: p => some (copyValue (cap - 1) p)
      | _ => none

/-- `json_get_int` -/
def jsonGetInt (json key : CStr) : Option Int32 :=
  let pat := '"' :: (key ++ ['"', ':'])
  (strstr pat json).map fun p => atoi ((p.drop pat.length).dropWhile fun c => c = ' ')

/-- What is copied fits. -/
theorem length_copyValue (n : Nat) (p : CStr) : (copyValue n p).length ≤ n := by
  fun_induction copyValue n p with
  | case1 p => exact Nat.le_refl 0
  | case2 n => exact Nat.zero_le _
  | case3 n p => exact Nat.zero_le _
  | case4 n c p ih => exact Nat.succ_le_succ ih
  | case5 n c p hquote hesc ih => exact Nat.succ_le_succ ih

theorem length_jsonGetStr {json key s : CStr} {cap : Nat} (hcap : 0 < cap)
    (h : jsonGetStr json key cap = some s) : s.length < cap := by
  unfold jsonGetStr at h
  dsimp only at h
  split at h
  · cases h
  split at h
  · rw [Option.some_inj] at h
    rw [← h]
    have hlen := length_copyValue (cap - 1)
    exact Nat.lt_of_le_of_lt (hlen _) (by omega)
  · cases h

/-! ### Actions -/

/-- `ALLOWLIST` -/
def llmAllowlist : List CStr :=
  ["save_qos", "save_vlan", "save_tas", "save_stream", "deploy_stream", "ping_device", "exec_all",
    "reboot_device"].map String.toList

def isAllowed (action : CStr) : Bool := decide (action ∈ llmAllowlist)

def clampi (v lo hi : Int32) : Int32 := if v < lo then lo else if v > hi then hi else v

/-- The device a content names: `char device_id[128]` after `json_get_str`. -/
def deviceOf (json : CStr) : CStr := (jsonGetStr json "device_id".toList 128).getD []

/-- A number of a content, 0 where it has none. -/
def numberOf (json key : CStr) : Int32 := (jsonGetInt json key).getD 0

/-- The settings that a content proposes, clamped. -/
def proposedQos (json : CStr) : QosConfig where
  deviceId := Buf.copy 256 (deviceOf json)
  priority := clampi (numberOf json "priority".toList) 0 7
  trafficClass := clampi (numberOf json "traffic_class".toList) 0 7
  bandwidthKbps := clampi (numberOf json "bandwidth_kbps".toList) 0 100000
  latencyMs := clampi (numberOf json "latency_ms".toList) 1 1000
  preemption := 0

/-- The store, whether there is an MQTT client, and what was published. -/
structure LlmBridge where
  db : Db
  mqtt : Bool
  published : List (CStr × CStr)

/-- The topic of a ping: what `snprintf` writes into 256 bytes. -/
def pingTopic (dev : CStr) : CStr := ("tsn/cmd/".toList ++ dev ++ "/ping".toList).take 255

/-- `execute_action`. All actions but two are acknowledged only. -/
def LlmBridge.executeAction (b : LlmBridge) (action json : CStr) : LlmBridge :=
  if action = "save_qos".toList ∧ deviceOf json ≠ [] then
    { b with db := (dbQosSave b.db (proposedQos json)).2 }
  else if action = "ping_device".toList ∧ deviceOf json ≠ [] ∧ b.mqtt = true then
    { b with published := b.published ++ [(pingTopic (deviceOf json), "\x7b\x7d".toList)] }
  else b

/-! ### The answer -/

/-- A reply as it is printed into `cap` bytes. -/
def httpReply (cap : Nat) (status : CStr) (length : Nat) (body : CStr) : CStr :=
  ("HTTP/1.1 ".toList ++ status ++ "\r\nContent-Type: application/json\r\nContent-Length: ".toList ++
    showInt length ++ "\r\n\r\n".toList ++ body).take (cap - 1)

def executedBody (action : CStr) : CStr :=
  "\x7b\"action\":\"".toList ++ action ++ "\",\"status\":\"executed\"\x7d".toList

def refusedBody (action : CStr) : CStr :=
  "\x7b\"error\":\"action not allowed: ".toList ++ action ++ "\"\x7d".toList

/-- The loop that escapes a guide text; `n` characters still fit, and one more
may be written after the last check. -/
def escapeGuide (n : Nat) : CStr → CStr
  | [] => []
  | c :: cs =>
      if n = 0 then []
      else if c = '"' ∨ c = '\\' then '\\' :: c :: escapeGuide (n - 2) cs
      else c :: escapeGuide (n - 1) cs

def guideBody (safe : CStr) : CStr := "\x7b\"guide\":\"".toList ++ safe ++ "\"\x7d".toList

/-- `char content[4096]` and `char action[128]` of an answer. -/
def contentOf (resp : CStr) : CStr := (jsonGetStr resp "content".toList 4096).getD []

def actionOf (resp : CStr) : Option CStr := jsonGetStr (contentOf resp) "action".toList 128

/-- What `handle_client` does with an answer of the model, and its reply. -/
def LlmBridge.handleResponse (b : LlmBridge) (resp : CStr) : LlmBridge × CStr :=
  match actionOf resp with
  | some action =>
      if isAllowed action then
        (b.executeAction action (contentOf resp),
          httpReply 512 "200 OK".toList (executedBody action).length (executedBody action))
      else
        (b, httpReply 512 "403 Forbidden".toList (refusedBody action).length (refusedBody action))
  | none =>
      let safe := escapeGuide 4094 (contentOf resp)
      (b, httpReply 4600 "200 OK".toList (safe.length + 16) (guideBody safe))

/-! ### What an answer may do -/

/-- The ranges of a setting that the model may propose. -/
structure QosInRange (cfg : QosConfig) : Prop where
  priority : 0 ≤ cfg.priority ∧ cfg.priority ≤ 7
  trafficClass : 0 ≤ cfg.trafficClass ∧ cfg.trafficClass ≤ 7
  bandwidth : 0 ≤ cfg.bandwidthKbps ∧ cfg.bandwidthKbps ≤ 100000
  latency : 1 ≤ cfg.latencyMs ∧ cfg.latencyMs ≤ 1000

/-- The store is as it was, or the answer asks for `save_qos` and the settings
of one device of the store are other ones within the ranges. -/
def SafeChange (resp : CStr) (db db' : Db) : Prop :=
  db' = db ∨
    actionOf resp = some "save_qos".toList ∧
      ∃ cfg : QosConfig, QosInRange cfg ∧ db.devices.Has cfg.deviceId.chars ∧
        db' = { db with qosConfigs := db.qosConfigs.upsert cfg }

/-- The answer asks for `save_qos` of a device that the store does not have. -/
def NamesUnknown (db : Db) (resp : CStr) : Prop :=
  actionOf resp = some "save_qos".toList ∧ deviceOf (contentOf resp) ≠ [] ∧
    ¬ db.devices.Has (deviceOf (contentOf resp))

theorem clampi_mem (v : Int32) {lo hi : Int32} (h : lo ≤ hi) : lo ≤ clampi v lo hi ∧ clampi v lo hi ≤ hi := by
  unfold clampi
  split
  · exact ⟨Int32.le_refl lo, h⟩
  rename_i hlo
  split
  · exact ⟨h, Int32.le_refl hi⟩
  · rename_i hhi
    exact ⟨Int32.not_lt.mp hlo, Int32.not_lt.mp hhi⟩

theorem proposedQos_inRange (json : CStr) : QosInRange (proposedQos json) :=
  ⟨clampi_mem _ (by decide), clampi_mem _ (by decide), clampi_mem _ (by decide), clampi_mem _ (by decide)⟩

theorem proposedQos_device (json : CStr) : (proposedQos json).deviceId.chars = deviceOf json := by
  have hlen : (deviceOf json).length < 128 := by
    unfold deviceOf
    cases hget : jsonGetStr json "device_id".toList 128 with
    | none => exact Nat.zero_lt_of_ne_zero (by decide)
    | some s => exact length_jsonGetStr (by omega) hget
  exact Buf.copy_chars_of_lt (by omega)

theorem dbQosSave_of_has {db : Db} {cfg : QosConfig} (h : db.devices.Has cfg.deviceId.chars) :
    (dbQosSave db cfg).2 = { db with qosConfigs := db.qosConfigs.upsert cfg } := by
  have hstub : db.devices.insertOrIgnore (stubDevice cfg.deviceId) = db.devices := dif_pos h
  simp only [dbQosSave, prepares_eq, Sql.namesIndex, Bool.not_false, if_true, hstub, if_pos h]

theorem isAllowed_saveQos : isAllowed "save_qos".toList = true := by decide

/-- What an answer does to the store: `save_qos` with a device saves what it
proposes. -/
theorem handleResponse_db (b : LlmBridge) (resp : CStr) :
    (b.handleResponse resp).1.db =
      if actionOf resp = some "save_qos".toList ∧ deviceOf (contentOf resp) ≠ [] then
        (dbQosSave b.db (proposedQos (contentOf resp))).2
      else b.db := by
  unfold LlmBridge.handleResponse
  cases haction : actionOf resp with
  | none => simp
  | some action =>
      simp only [Option.some_inj]
      by_cases hsave : action = "save_qos".toList ∧ deviceOf (contentOf resp) ≠ []
      · have hallowed : isAllowed action = true := hsave.1 ▸ isAllowed_saveQos
        rw [if_pos hallowed, if_pos hsave]
        dsimp only
        rw [LlmBridge.executeAction, if_pos hsave]
      · rw [if_neg hsave]
        split
        · dsimp only
          rw [LlmBridge.executeAction, if_neg hsave]
          split
          · rfl
          · rfl
        · rfl

/-- `save_qos` of an unknown device adds it to the devices. -/
theorem not_safe_of_namesUnknown {b : LlmBridge} {resp : CStr} (h : NamesUnknown b.db resp) :
    ¬ SafeChange resp b.db (b.handleResponse resp).1.db := by
  obtain ⟨haction, hnamed, hunknown⟩ := h
  have hnow := dbQosSave_has b.db (proposedQos (contentOf resp))
  rw [proposedQos_device] at hnow
  rw [handleResponse_db, if_pos ⟨haction, hnamed⟩]
  rintro (hsame | ⟨-, cfg, -, -, hsame⟩)
  · rw [hsame] at hnow
    exact hunknown hnow
  · rw [hsame] at hnow
    exact hunknown hnow

/-- An answer does what the model may do exactly when it does not name an
unknown device for `save_qos`. -/
theorem response_safe_iff (b : LlmBridge) (resp : CStr) :
    SafeChange resp b.db (b.handleResponse resp).1.db ↔ ¬ NamesUnknown b.db resp := by
  refine ⟨fun hsafe hunknown => not_safe_of_namesUnknown hunknown hsafe, fun hknown => ?_⟩
  rw [handleResponse_db]
  split
  · rename_i hsave
    have hhas : b.db.devices.Has (proposedQos (contentOf resp)).deviceId.chars := by
      rw [proposedQos_device]
      by_contra hunknown
      exact hknown ⟨hsave.1, hsave.2, hunknown⟩
    exact Or.inr ⟨hsave.1, _, proposedQos_inRange _, hhas, dbQosSave_of_has hhas⟩
  · exact Or.inl rfl

/-- An answer for a device that an empty store cannot have. -/
def ghostResponse : CStr :=
  "\x7b\"content\":\"\x7b\\\"action\\\":\\\"save_qos\\\",\\\"device_id\\\":\\\"ghost\\\"\x7d\"\x7d".toList

theorem ghostResponse_not_safe :
    ¬ ∀ (b : LlmBridge) (resp : CStr), SafeChange resp b.db (b.handleResponse resp).1.db := by
  intro h
  apply @not_safe_of_namesUnknown ⟨.empty, false, []⟩ ghostResponse _ (h _ _)
  exact ⟨by decide, by decide, by decide⟩

end Htsn.Ai
