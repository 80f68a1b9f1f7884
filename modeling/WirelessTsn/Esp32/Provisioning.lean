import WirelessTsn.Lib.Run
import WirelessTsn.Esp32.Sta

/-!
The provisioning portal (`shared/htsn_prov/htsn_prov.c`) and the start after it
(`esp32-agent/main/main.c`, `htsn_cfg.c`). The portal hands the broker field
over as one text and the callback stores it whole, always with the port 1883.
The device id is stored too, and the next start writes the id of the board's
role over it.

NVS writes succeed and a read gives the last value written.
-/

namespace Htsn.Esp32

open CText

/-! ### The form -/

/-- What C reads of the bytes: up to the first NUL. -/
def cText (s : CStr) : CStr := s.takeWhile fun c => c ≠ '\x00'

/-- `url_decode`. A percent sign without two digits behind it stays. -/
def urlDecode : CStr → CStr
  | [] => []
  | '%' :: h :: l :: s =>
      match hexVal h, hexVal l with
      | some hi, some lo => Char.ofNat (16 * hi + lo) :: urlDecode s
      | _, _ => '%' :: urlDecode (h :: l :: s)
  | '+' :: s => ' ' :: urlDecode s
  | c :: s => c :: urlDecode s

/-- The key and the decoded value of one part of the body. -/
def pairOf (tok : CStr) : Option (CStr × CStr) :=
  match tok.dropWhile fun c => c ≠ '=' with
  | [] => none
  | _ :: val => some (tok.takeWhile (fun c => c ≠ '='), cText (urlDecode val))

structure PortalForm where
  ssid : Buf 64 := Buf.empty
  pass : Buf 64 := Buf.empty
  mqtt : Buf 64 := Buf.empty
  muser : Buf 64 := Buf.empty
  mpass : Buf 64 := Buf.empty
  devid : Buf 32 := Buf.empty

def PortalForm.put (f : PortalForm) (key val : CStr) : PortalForm :=
  if key = "ssid".toList then { f with ssid := Buf.copy 64 val }
  else if key = "pass".toList then { f with pass := Buf.copy 64 val }
  else if key = "mqtt".toList then { f with mqtt := Buf.copy 64 val }
  else if key = "muser".toList then { f with muser := Buf.copy 64 val }
  else if key = "mpass".toList then { f with mpass := Buf.copy 64 val }
  else if key = "devid".toList ∨ key = "id".toList then { f with devid := Buf.copy 32 val }
  else f

/-- One part of the body, copied into a buffer of 128 bytes first. -/
def PortalForm.token (f : PortalForm) (tok : CStr) : PortalForm :=
  match pairOf (Buf.copy 128 tok).chars with
  | none => f
  | some (key, val) => f.put key val

/-- A request: its body, and how many bytes the one call of `httpd_req_recv`
finds (0 also for an error). -/
structure PortalRequest where
  body : CStr
  segment : Nat

/-- What stands in the buffer of 512 bytes. -/
def PortalRequest.received (r : PortalRequest) : CStr := r.body.take (min r.segment 511)

def PortalRequest.form (r : PortalRequest) : PortalForm :=
  (strtok '&' (cText r.received)).foldl PortalForm.token {}

/-- The broker text that is stored. -/
def PortalRequest.keptHost (r : PortalRequest) : Buf 64 :=
  if r.form.mqtt.chars = [] then Buf.copy 64 "htsn-broker.local".toList else r.form.mqtt

/-! ### Saving -/

/-- The namespace `htsn`. -/
structure Flash where
  nvs : Nvs := {}
  keys : BrokerKeys := {}

/-- `htsn_cfg_save` -/
def Flash.cfgSave (f : Flash) (devid : Option CStr) (ssid pass host : CStr) (port : Int32) : Flash where
  nvs := f.nvs.setWifi ssid pass
  keys :=
    { f.keys with
      deviceId := devid <|> f.keys.deviceId
      mqttHost := some host
      mqttPort := some port }

/-- `prov_save` -/
def Flash.provSave (f : Flash) (ssid pass devid mqtt : CStr) : Flash :=
  let f := f.cfgSave (if devid = [] then none else some devid) ssid pass mqtt 1883
  { f with nvs := (f.nvs.netAdd ssid pass).1 }

inductive PortalReply where
  | noBody
  | ssidRequired
  | saved
  deriving DecidableEq

/-- `handle_config`; on `saved` the node restarts. -/
def handleConfig (f : Flash) (r : PortalRequest) : PortalReply × Flash :=
  if r.received = [] then (.noBody, f)
  else
    let form := r.form
    if form.ssid.chars = [] then (.ssidRequired, f)
    else
      let auth (v : CStr) : Option CStr := if v = [] then none else some v
      let f := { f with
        keys := { f.keys with muser := auth form.muser.chars, mpass := auth form.mpass.chars } }
      (.saved, f.provSave form.ssid.chars form.pass.chars form.devid.chars r.keptHost.chars)

/-! ### The start -/

/-- The id of the board that has the sensors, and of any other. -/
def roleId (sensors : Bool) : CStr := if sensors then "esp32-01".toList else "esp32-02".toList

/-- `ensure_device_id` without a fixed id in the build. -/
def Flash.ensureDeviceId (f : Flash) (sensors : Bool) : Flash :=
  { f with keys := { f.keys with deviceId := some (roleId sensors) } }

/-- The broker of `htsn_cfg_load`. -/
def BrokerKeys.host (k : BrokerKeys) : CStr :=
  if nvsGetStr k.mqttHost 64 = [] then "htsn-broker.local".toList else nvsGetStr k.mqttHost 64

/-- `app_main` up to the start of WiFi; `none` in provisioning mode. -/
def Flash.appMain (f : Flash) (sensors : Bool) : Option StaNode :=
  let f := f.ensureDeviceId sensors
  if nvsGetStr f.nvs.wifiSsid 64 = [] then none
  else
    some
      { deviceId := Buf.copy 32 (nvsGetStr f.keys.deviceId 32)
        keys := f.keys
        nets := ({ nvs := f.nvs.migrate } : Node).loadNets
        host := Buf.copy 64 f.keys.host
        port := f.keys.mqttPort.getD 1883 }

/-! ### What was submitted -/

/-- The last value given for one of the keys among the parts of a body. -/
def lastValue (parts : List CStr) (keys : List CStr) : Option CStr :=
  (((parts.filterMap pairOf).filter fun kv => keys.any fun k => k = kv.1).getLast?).map Prod.snd

/-- The last value given for one of the keys, whole. -/
def submitted (body : CStr) (keys : List CStr) : Option CStr := lastValue (strtok '&' (cText body)) keys

/-- The broker text that is left of a submission: of the first 511 bytes that are
there at once, the last value of the field, where 127 bytes of a part and 63 of
a value count; the default where that leaves nothing. -/
def PortalRequest.keptText (r : PortalRequest) : CStr :=
  match lastValue ((strtok '&' (cText (r.body.take (min r.segment 511)))).map (List.take 127))
      ["mqtt".toList] with
  | some (c :: val) => (c :: val).take 63
  | _ => "htsn-broker.local".toList

/-- A broker, as `host` or `host:port`. -/
structure Broker where
  host : CStr
  port : Option Nat
  ne : host ≠ []
  noColon : ':' ∉ host
  inRange : ∀ p, port = some p → 1 ≤ p ∧ p ≤ 65535

def Broker.text (b : Broker) : CStr :=
  match b.port with
  | none => b.host
  | some p => b.host ++ ':' :: showInt p

/-- A submission of the portal's form, with what its fields say. -/
structure Submission where
  request : PortalRequest
  ssid : CStr
  devid : CStr
  broker : Broker
  ssid_eq : submitted request.body ["ssid".toList] = some ssid
  ssid_ne : ssid ≠ []
  devid_eq : submitted request.body ["devid".toList, "id".toList] = some devid
  devid_ne : devid ≠ []
  devid_le : devid.length ≤ 31
  broker_eq : submitted request.body ["mqtt".toList] = some broker.text

/-- Where a host is: a name with `.local` where mDNS says, any other at its
own text. -/
def hostAddr (mdns : CStr → Option Ip4) (host : CStr) : Option CStr :=
  if strstr dotLocal host = none then some host else (mdnsAddr mdns (bareHost host)).map Ip4.text

/-- When a client that is given the text `kept` is given the address of `host`:
both name it without mDNS and are the same, or mDNS answers for both alike. The
other four are coincidences: the one text spells what mDNS answers for the
other, or the fixed address that is taken without an answer. -/
inductive SameBroker (mdns : CStr → Option Ip4) (host kept : CStr) : Prop where
  | plain (hhost : strstr dotLocal host = none) (heq : kept = host)
  | named (hhost : strstr dotLocal host ≠ none) (hkept : strstr dotLocal kept ≠ none) (ip : Ip4)
      (hanswer : mdnsAddr mdns (bareHost host) = some ip) (hsame : mdnsAddr mdns (bareHost kept) = some ip)
  | answered (hhost : strstr dotLocal host = none) (hkept : strstr dotLocal kept ≠ none) (ip : Ip4)
      (hanswer : mdnsAddr mdns (bareHost kept) = some ip) (heq : ip.text = host)
  | fixed (hkept : strstr dotLocal kept ≠ none) (hsilent : mdnsAddr mdns (bareHost kept) = none)
      (heq : host = "192.168.0.149".toList)
  | spelled (hhost : strstr dotLocal host ≠ none) (hkept : strstr dotLocal kept = none) (ip : Ip4)
      (hanswer : mdnsAddr mdns (bareHost host) = some ip) (heq : kept = ip.text)
  | fixedAnswer (hhost : strstr dotLocal host ≠ none) (hkept : strstr dotLocal kept ≠ none) (ip : Ip4)
      (hanswer : mdnsAddr mdns (bareHost host) = some ip) (hsilent : mdnsAddr mdns (bareHost kept) = none)
      (heq : ip.text = "192.168.0.149".toList)

/-- The clients that were created so far. -/
def StaNode.clients (n : StaNode) : List MqttClient :=
  n.calls.filterMap fun c => match c with | .createMqtt c => some c | _ => none

/-- The node runs under the submitted id, and its one client was created with
the submitted host and port. -/
def TakesEffect (n : StaNode) (mdns : CStr → Option Ip4) (s : Submission) : Prop :=
  n.deviceId.chars = s.devid ∧
    ∃ c, n.clients = [c] ∧ some c.host = hostAddr mdns s.broker.host ∧
      c.port.toInt = s.broker.port.getD 1883

/-! ### The first address -/

/-- What the client is created from has not changed. -/
structure StaNode.SameClient (n n' : StaNode) : Prop where
  deviceId : n'.deviceId = n.deviceId
  keys : n'.keys = n.keys
  host : n'.host = n.host
  port : n'.port = n.port
  mqtt : n'.mqtt = n.mqtt
  clients : n'.clients = n.clients

theorem sameClient_refl (n : StaNode) : n.SameClient n := ⟨rfl, rfl, rfl, rfl, rfl, rfl⟩

theorem sameClient_trans {n n' n'' : StaNode} (h : n.SameClient n') (h' : n'.SameClient n'') :
    n.SameClient n'' :=
  ⟨h'.deviceId.trans h.deviceId, h'.keys.trans h.keys, h'.host.trans h.host, h'.port.trans h.port,
    h'.mqtt.trans h.mqtt, h'.clients.trans h.clients⟩

/-- Calls that create no client. -/
theorem call_sameClient (n : StaNode) {cs : List StaCall} (h : ∀ c, .createMqtt c ∉ cs) :
    n.SameClient (n.call cs) := by
  refine ⟨rfl, rfl, rfl, rfl, rfl, ?_⟩
  have hnone : (cs.filterMap fun c => match c with | .createMqtt c => some c | _ => none) = [] := by
    rw [List.filterMap_eq_nil_iff]
    intro c hc
    cases c with
    | createMqtt c => exact absurd hc (h c)
    | setConfig ssid pass | connect | createFallback | startAp => rfl
  simp only [StaNode.clients, StaNode.call, List.filterMap_append, hnone, List.append_nil]

theorem tryNet_sameClient (n : StaNode) (idx : Nat) : n.SameClient (n.tryNet idx).1 := by
  unfold StaNode.tryNet
  split
  · exact sameClient_refl n
  split
  · exact sameClient_refl n
  · rename_i ssid pass _ _
    have hctx : n.SameClient { n with ssid := Buf.copy 64 ssid, password := Buf.copy 64 pass } :=
      ⟨rfl, rfl, rfl, rfl, rfl, rfl⟩
    exact sameClient_trans hctx (call_sameClient _ (by simp))

theorem retry_sameClient (n : StaNode) : n.SameClient n.retry := by
  have hstreak : n.SameClient { n with disconnectStreak := n.disconnectStreak + 1 } :=
    ⟨rfl, rfl, rfl, rfl, rfl, rfl⟩
  unfold StaNode.retry
  dsimp only
  split
  · exact sameClient_trans hstreak (call_sameClient _ (by simp))
  · exact sameClient_trans hstreak (call_sameClient _ (by simp))

theorem nextNet_sameClient (n : StaNode) : n.SameClient n.nextNet := by
  unfold StaNode.nextNet
  dsimp only
  generalize hm : (if (n.curNet + 1) % n.nets.length = 0 ∧ n.wifiReady = false ∧
      n.fallbackStarted = false then
    { { n with curNet := (n.curNet + 1) % n.nets.length } with
      disconnectStreak := n.disconnectStreak + 1 }
    else { n with curNet := (n.curNet + 1) % n.nets.length } : StaNode) = m
  have hcount : n.SameClient m := by
    rw [← hm]
    split
    · exact ⟨rfl, rfl, rfl, rfl, rfl, rfl⟩
    · exact ⟨rfl, rfl, rfl, rfl, rfl, rfl⟩
  refine sameClient_trans hcount ?_
  split
  · exact call_sameClient m (by simp)
  split
  · exact tryNet_sameClient m m.curNet
  · exact sameClient_trans (tryNet_sameClient m m.curNet) (retry_sameClient _)

/-- Until an address comes, no client is created. -/
theorem step_sameClient (n : StaNode) {e : StaEvent} (h : ∀ ip mdns ok, e ≠ .gotIp ip mdns ok) :
    n.SameClient (n.step e) := by
  cases e with
  | gotIp ip mdns ok => exact absurd rfl (h ip mdns ok)
  | staStart =>
      unfold StaNode.step
      dsimp only
      split
      · exact tryNet_sameClient n n.curNet
      · exact sameClient_refl n
  | staDisconnected =>
      have hled : n.SameClient { n with ledSteady := false, ledState := .conn } :=
        ⟨rfl, rfl, rfl, rfl, rfl, rfl⟩
      unfold StaNode.step StaNode.disconnected
      dsimp only
      split
      · exact sameClient_trans hled (nextNet_sameClient _)
      · exact sameClient_trans hled (retry_sameClient _)
  | fallbackNow | fallbackTimeout =>
      unfold StaNode.step
      dsimp only
      split
      · have hcall := @call_sameClient n [.startAp] (by simp)
        exact ⟨hcall.deviceId, hcall.keys, hcall.host, hcall.port, hcall.mqtt, hcall.clients⟩
      · exact sameClient_refl n

theorem run_sameClient (n : StaNode) {evs : List StaEvent}
    (h : ∀ e ∈ evs, ∀ ip mdns ok, e ≠ .gotIp ip mdns ok) : n.SameClient (Run.run StaNode.step n evs) := by
  induction evs generalizing n with
  | nil => exact sameClient_refl n
  | cons e evs ih =>
      have hfirst := step_sameClient n (h e List.mem_cons_self)
      exact sameClient_trans hfirst (ih (n.step e) fun e' he' => h e' (List.mem_cons_of_mem e he'))

/-- The first address creates the one client. -/
theorem gotIp_clients {n : StaNode} (hmqtt : n.mqtt = none) (hclients : n.clients = []) (ip : Ip4)
    (mdns : CStr → Option Ip4) (ok : Bool) :
    (n.gotIp ip mdns ok).clients = [n.newClient mdns] ∧ (n.gotIp ip mdns ok).deviceId = n.deviceId := by
  unfold StaNode.gotIp
  simp only [hmqtt, if_true]
  refine ⟨?_, rfl⟩
  have hcalls : (n.calls.filterMap fun c => match c with | .createMqtt c => some c | _ => none) = [] :=
    hclients
  simp only [StaNode.clients, StaNode.call, List.filterMap_append, hcalls, List.nil_append]
  rfl

/-! ### The submission and the start after it -/

section

variable {f : Flash} {r : PortalRequest}

theorem keptHost_ne (r : PortalRequest) : r.keptHost.chars ≠ [] := by
  unfold PortalRequest.keptHost
  split
  · decide
  · assumption

/-- What a submission that is accepted leaves in the flash. -/
theorem handleConfig_saved (h : (handleConfig f r).1 = .saved) :
    (handleConfig f r).2.nvs.wifiSsid = some r.form.ssid.chars ∧ r.form.ssid.chars ≠ [] ∧
      (handleConfig f r).2.keys.mqttHost = some r.keptHost.chars ∧
      (handleConfig f r).2.keys.mqttPort = some 1883 := by
  unfold handleConfig at h ⊢
  by_cases hbody : r.received = []
  · rw [if_pos hbody] at h
    cases h
  rw [if_neg hbody] at h ⊢
  by_cases hssid : r.form.ssid.chars = []
  · simp only [hssid, if_true] at h
    cases h
  simp only [hssid, if_false]
  exact ⟨Nvs.netAdd_wifiSsid _ hssid _, hssid, rfl, rfl⟩

/-- The node that starts: under the id of its role, with the broker text as
its host and the fixed port. -/
theorem appMain_saved (h : (handleConfig f r).1 = .saved) (sensors : Bool) :
    ∃ n, (handleConfig f r).2.appMain sensors = some n ∧ n.deviceId.chars = roleId sensors ∧
      n.host = r.keptHost ∧ n.port = 1883 ∧ n.mqtt = none ∧ n.clients = [] := by
  obtain ⟨hssid, hne, hhost, hport⟩ := handleConfig_saved h
  generalize (handleConfig f r).2 = g at hssid hhost hport
  have hread : nvsGetStr g.nvs.wifiSsid 64 = r.form.ssid.chars := by
    rw [hssid]
    exact if_pos r.form.ssid.fits
  have hreadHost : nvsGetStr g.keys.mqttHost 64 = r.keptHost.chars := by
    rw [hhost]
    exact if_pos r.keptHost.fits
  have hkept : (g.ensureDeviceId sensors).keys.host = r.keptHost.chars := by
    show (if nvsGetStr g.keys.mqttHost 64 = [] then _ else nvsGetStr g.keys.mqttHost 64) = _
    rw [hreadHost, if_neg (keptHost_ne r)]
  have hrole : (roleId sensors).length < 32 := by cases sensors <;> decide
  refine ⟨_, if_neg (show nvsGetStr g.nvs.wifiSsid 64 ≠ [] by rwa [hread]), ?_, ?_, ?_, rfl, rfl⟩
  · show (Buf.copy 32 (nvsGetStr (some (roleId sensors)) 32)).chars = _
    have hid : nvsGetStr (some (roleId sensors)) 32 = roleId sensors := if_pos hrole
    rw [hid, Buf.copy_chars_of_lt hrole]
  · show Buf.copy 64 (g.ensureDeviceId sensors).keys.host = r.keptHost
    rw [hkept, Buf.copy_self]
  · show g.keys.mqttPort.getD 1883 = 1883
    rw [hport]
    rfl

end

/-! ### The broker text -/

theorem mqtt_put (f : PortalForm) (key val : CStr) :
    (f.put key val).mqtt = if key = "mqtt".toList then Buf.copy 64 val else f.mqtt := by
  have hssid : "mqtt".toList ≠ "ssid".toList := by decide
  have hpass : "mqtt".toList ≠ "pass".toList := by decide
  by_cases hkey : key = "mqtt".toList
  · subst hkey
    rw [PortalForm.put, if_neg hssid, if_neg hpass, if_pos rfl]
    rfl
  · unfold PortalForm.put
    rw [if_neg hkey]
    split_ifs <;> rfl

/-- One more part, and what the last value is then. -/
theorem lastValue_concat (parts : List CStr) (tok : CStr) (key : CStr) :
    lastValue (parts ++ [tok]) [key] =
      match pairOf tok with
      | none => lastValue parts [key]
      | some (k, val) => if k = key then some val else lastValue parts [key] := by
  rw [lastValue, lastValue, List.filterMap_append, List.filter_append]
  cases hpair : pairOf tok with
  | none => simp [hpair]
  | some kv =>
      obtain ⟨k, val⟩ := kv
      by_cases hk : k = key
      · subst hk
        simp [hpair]
      · simp [hpair, hk, Ne.symm hk]

/-- The field after the loop over the parts. -/
theorem mqtt_foldl_token (parts : List CStr) :
    (parts.foldl PortalForm.token {}).mqtt =
      Buf.copy 64 ((lastValue (parts.map (List.take 127)) ["mqtt".toList]).getD []) := by
  induction parts using List.reverseRecOn with
  | nil => rfl
  | append_singleton parts tok ih =>
      rw [List.foldl_concat, List.map_append, List.map_singleton, lastValue_concat, PortalForm.token]
      have hcopy : (Buf.copy 128 tok).chars = tok.take 127 := rfl
      rw [hcopy]
      cases pairOf (tok.take 127) with
      | none => exact ih
      | some kv =>
          dsimp only
          rw [mqtt_put]
          split
          · rfl
          · exact ih

theorem keptHost_chars (r : PortalRequest) : r.keptHost.chars = r.keptText := by
  rw [PortalRequest.keptHost, PortalRequest.keptText, PortalRequest.form, mqtt_foldl_token,
    PortalRequest.received]
  cases lastValue ((strtok '&' (cText (r.body.take (min r.segment 511)))).map (List.take 127))
      ["mqtt".toList] with
  | none => rfl
  | some val =>
      cases val with
      | nil => rfl
      | cons c val => rfl

/-! ### Where the broker is looked for -/

theorem byteText_length (b : UInt8) : (showInt b.toNat).length ≤ 3 := by
  have hshow : showInt b.toNat = Nat.toDigits 10 b.toNat := if_neg (by omega)
  have hlt := b.toNat_lt
  rw [hshow, Nat.length_toDigits_le_iff (by decide) (by decide)]
  omega

theorem Ip4.text_fits (ip : Ip4) : ip.text.length < 64 := by
  have ha := byteText_length ip.a
  have hb := byteText_length ip.b
  have hc := byteText_length ip.c
  have hd := byteText_length ip.d
  have hdot : ".".toList.length = 1 := rfl
  simp only [Ip4.text, List.length_append, hdot]
  omega

theorem dotted_inj {a b : UInt8} {s t : CStr}
    (h : showInt a.toNat ++ '.' :: s = showInt b.toNat ++ '.' :: t) : a = b ∧ s = t := by
  have hscan : ∀ (x : UInt8) (rest : CStr),
      scanInt (showInt x.toNat ++ '.' :: rest) = some ((x.toNat : Int), '.' :: rest) := by
    intro x rest
    exact scanInt_showInt x.toNat ('.' :: rest) (by simp)
  have hboth := (hscan a s).symm.trans ((congrArg scanInt h).trans (hscan b t))
  obtain ⟨hval, hrest⟩ := Prod.mk.inj (Option.some_inj.mp hboth)
  exact ⟨UInt8.toNat_inj.mp (by exact_mod_cast hval), (List.cons.inj hrest).2⟩

theorem Ip4.text_inj {ip ip' : Ip4} (h : ip.text = ip'.text) : ip = ip' := by
  obtain ⟨a, b, c, d⟩ := ip
  obtain ⟨a', b', c', d'⟩ := ip'
  have hdot : ".".toList = ['.'] := rfl
  simp only [Ip4.text, hdot, List.append_assoc, List.singleton_append] at h
  obtain ⟨ha, hrest⟩ := dotted_inj h
  obtain ⟨hb, hrest⟩ := dotted_inj hrest
  obtain ⟨hc, hrest⟩ := dotted_inj hrest
  have hlast : showInt d.toNat ++ '.' :: [] = showInt d'.toNat ++ '.' :: [] := congrArg (· ++ ['.']) hrest
  rw [ha, hb, hc, (dotted_inj hlast).1]

section Resolving

variable {mdns : CStr → Option Ip4} {host : CStr} {kept : Buf 64} {ip : Ip4}

theorem resolve_plain (h : strstr dotLocal kept.chars = none) : resolveMqttHost mdns kept = kept :=
  if_pos (Or.inr h)

theorem resolve_local (h : strstr dotLocal kept.chars ≠ none) :
    (resolveMqttHost mdns kept).chars =
      ((mdnsAddr mdns (bareHost kept.chars)).map Ip4.text).getD "192.168.0.149".toList := by
  have hne : kept.chars ≠ [] := by
    intro hnil
    rw [hnil] at h
    exact h rfl
  rw [resolveMqttHost, if_neg (not_or.mpr ⟨hne, h⟩)]
  cases mdnsAddr mdns (bareHost kept.chars) with
  | none => rfl
  | some ip => exact Buf.copy_chars_of_lt ip.text_fits

theorem hostAddr_plain (h : strstr dotLocal host = none) : hostAddr mdns host = some host := if_pos h

theorem hostAddr_local (h : strstr dotLocal host ≠ none) :
    hostAddr mdns host = (mdnsAddr mdns (bareHost host)).map Ip4.text := if_neg h

theorem sameBroker_of_resolve (h : some (resolveMqttHost mdns kept).chars = hostAddr mdns host) :
    SameBroker mdns host kept.chars := by
  by_cases hhost : strstr dotLocal host = none
  · rw [hostAddr_plain hhost, Option.some_inj] at h
    by_cases hkept : strstr dotLocal kept.chars = none
    · rw [resolve_plain hkept] at h
      exact .plain hhost h
    · rw [resolve_local hkept] at h
      cases hanswer : mdnsAddr mdns (bareHost kept.chars) with
      | some ip =>
          rw [hanswer] at h
          exact .answered hhost hkept ip hanswer h
      | none =>
          rw [hanswer] at h
          exact .fixed hkept hanswer h.symm
  · rw [hostAddr_local hhost, eq_comm, Option.map_eq_some_iff] at h
    obtain ⟨ip, hanswer, heq⟩ := h
    by_cases hkept : strstr dotLocal kept.chars = none
    · rw [resolve_plain hkept] at heq
      exact .spelled hhost hkept ip hanswer heq.symm
    · rw [resolve_local hkept] at heq
      cases hsame : mdnsAddr mdns (bareHost kept.chars) with
      | some ip' =>
          rw [hsame] at heq
          obtain rfl := Ip4.text_inj heq
          exact .named hhost hkept ip hanswer hsame
      | none =>
          rw [hsame] at heq
          exact .fixedAnswer hhost hkept ip hanswer hsame heq

theorem resolve_of_sameBroker (h : SameBroker mdns host kept.chars) :
    some (resolveMqttHost mdns kept).chars = hostAddr mdns host := by
  cases h with
  | plain hhost heq => rw [resolve_plain (heq ▸ hhost), hostAddr_plain hhost, heq]
  | named hhost hkept ip hanswer hsame =>
      rw [resolve_local hkept, hostAddr_local hhost, hanswer, hsame]
      rfl
  | answered hhost hkept ip hanswer heq =>
      rw [resolve_local hkept, hostAddr_plain hhost, hanswer, ← heq]
      rfl
  | fixed hkept hsilent heq =>
      have hhost : strstr dotLocal host = none := by
        rw [heq]
        decide
      rw [resolve_local hkept, hostAddr_plain hhost, hsilent, heq]
      rfl
  | spelled hhost hkept ip hanswer heq =>
      rw [resolve_plain hkept, hostAddr_local hhost, hanswer, heq]
      rfl
  | fixedAnswer hhost hkept ip hanswer hsilent heq =>
      rw [resolve_local hkept, hostAddr_local hhost, hanswer, hsilent, ← heq]
      rfl

/-- What the node resolves the text it kept to, against where the host is. -/
theorem resolve_iff :
    some (resolveMqttHost mdns kept).chars = hostAddr mdns host ↔ SameBroker mdns host kept.chars :=
  ⟨sameBroker_of_resolve, resolve_of_sameBroker⟩

end Resolving

/-- For every submission that is accepted, and the start after it: it takes
effect exactly when the id is that of the board's role, the port is none or
1883, and the text that is left of the broker is that of its host, or comes to
the same address by mDNS. -/
theorem provisioned_iff (s : Submission) (f : Flash) (sensors : Bool) (before : List StaEvent) (ip : Ip4)
    (mdns : CStr → Option Ip4) (ok : Bool) (haccept : (handleConfig f s.request).1 = .saved)
    (hbefore : ∀ e ∈ before, ∀ ip mdns ok, e ≠ .gotIp ip mdns ok) :
    ∃ n, (handleConfig f s.request).2.appMain sensors = some n ∧
      (TakesEffect (Run.run StaNode.step n (before ++ [.gotIp ip mdns ok])) mdns s ↔
        s.devid = roleId sensors ∧ s.broker.port.getD 1883 = 1883 ∧
          SameBroker mdns s.broker.host s.request.keptText) := by
  obtain ⟨n, hboot, hid, hhost, hport, hmqtt, hclients⟩ := appMain_saved haccept sensors
  refine ⟨n, hboot, ?_⟩
  have hsame := run_sameClient n hbefore
  rw [Run.run_append]
  generalize Run.run StaNode.step n before = m at hsame
  obtain ⟨hcreated, hkeeps⟩ :=
    gotIp_clients (hsame.mqtt.trans hmqtt) (hsame.clients.trans hclients) ip mdns ok
  show TakesEffect (m.gotIp ip mdns ok) mdns s ↔ _
  have hclientHost : (m.newClient mdns).host = (resolveMqttHost mdns s.request.keptHost).chars := by
    rw [← hhost, ← hsame.host]
    rfl
  have hclientPort : (m.newClient mdns).port.toInt = 1883 := by
    rw [show (m.newClient mdns).port = 1883 from hsame.port.trans hport]
    decide
  unfold TakesEffect
  rw [hcreated, hkeeps, hsame.deviceId, hid, eq_comm]
  refine and_congr_right fun _ => ?_
  constructor
  · rintro ⟨c, hc, haddr, hnum⟩
    obtain rfl := List.singleton_inj.mp hc
    rw [hclientPort] at hnum
    rw [hclientHost, resolve_iff, keptHost_chars] at haddr
    exact ⟨by exact_mod_cast hnum.symm, haddr⟩
  · rintro ⟨hnum, hbroker⟩
    rw [← keptHost_chars, ← resolve_iff, ← hclientHost] at hbroker
    exact ⟨_, rfl, hbroker, by rw [hclientPort, hnum]; rfl⟩

/-! ### Two submissions -/

def plainBroker : Broker where
  host := "192.168.1.248".toList
  port := none
  ne := by decide
  noColon := by decide
  inRange := by simp

/-- The sensor board, provisioned under its own id. -/
def ownSubmission : Submission where
  request := ⟨"ssid=home&pass=secret&devid=esp32-01&mqtt=192.168.1.248".toList, 100⟩
  ssid := "home".toList
  devid := "esp32-01".toList
  broker := plainBroker
  ssid_eq := by decide
  ssid_ne := by decide
  devid_eq := by decide
  devid_ne := by decide
  devid_le := by decide
  broker_eq := by decide

theorem ownSubmission_takes_effect :
    ∃ n, (handleConfig {} ownSubmission.request).2.appMain true = some n ∧
      TakesEffect (Run.run StaNode.step n [.gotIp ⟨192, 168, 1, 20⟩ (fun _ => none) true]) (fun _ => none)
        ownSubmission := by
  obtain ⟨n, hboot, hiff⟩ := provisioned_iff ownSubmission {} true [] ⟨192, 168, 1, 20⟩ (fun _ => none)
    true (by decide) (by simp)
  exact ⟨n, hboot, hiff.mpr ⟨by decide, by decide, .plain (by decide) (by decide)⟩⟩

/-- The same board under another id, with the broker's port. -/
def otherSubmission : Submission where
  request := ⟨"ssid=home&pass=secret&devid=hall-3&mqtt=192.168.1.248:1883".toList, 100⟩
  ssid := "home".toList
  devid := "hall-3".toList
  broker := { plainBroker with port := some 1883, inRange := by simp }
  ssid_eq := by decide
  ssid_ne := by decide
  devid_eq := by decide
  devid_ne := by decide
  devid_le := by decide
  broker_eq := by decide

/-- It runs under the old id and looks for the broker under the whole text. -/
theorem otherSubmission_no_effect :
    (handleConfig {} otherSubmission.request).1 = .saved ∧
      ¬ ∃ n, (handleConfig {} otherSubmission.request).2.appMain true = some n ∧
        TakesEffect (Run.run StaNode.step n [.gotIp ⟨192, 168, 1, 20⟩ (fun _ => none) true])
          (fun _ => none) otherSubmission := by
  have haccept : (handleConfig {} otherSubmission.request).1 = .saved := by decide
  refine ⟨haccept, ?_⟩
  rintro ⟨n, hboot, heffect⟩
  obtain ⟨m, hboot', hid, -⟩ := appMain_saved haccept true
  obtain rfl := Option.some_inj.mp (hboot.symm.trans hboot')
  have hdevid : (Run.run StaNode.step n [.gotIp ⟨192, 168, 1, 20⟩ (fun _ => none) true]).deviceId =
      n.deviceId := by
    show (n.gotIp _ _ _).deviceId = _
    unfold StaNode.gotIp
    dsimp only
    split
    · rfl
    · rfl
  have hsame := heffect.1
  rw [hdevid, hid] at hsame
  exact absurd hsame (by decide)

end Htsn.Esp32
