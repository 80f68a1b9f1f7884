import WirelessTsn.Esp32.Commands
import WirelessTsn.Lib.Run

/-!
The subscriptions of an ESP32 node
(`esp32-agent/components/htsn_agent/htsn_mqtt.c`) together with `on_command`,
which does not look at the device in the topic. Below `tsn/cmd/` the broker
filters by the node's own id, but `tsn/fx/cmd/#` hands on the commands of
every device.
-/

namespace Htsn.Esp32

open CText Json Keyed Mqtt

/-! ### Subscriptions -/

/-- The words that `on_connected` subscribes to below the own id, those of the
display last. -/
def ownWords : List CStr :=
  ["apply".toList, "qos".toList, "vlan".toList, "wifi".toList, "timesync".toList, "tas".toList,
    "stream".toList, "preemption".toList, "status".toList, "fx".toList, "actor".toList, "servo".toList,
    "identify".toList, "ping".toList, "ota".toList, "factory".toList, "reset".toList, "reboot".toList,
    "display".toList, "button".toList, "oled".toList, "fill".toList, "read".toList, "run".toList,
    "dump".toList, "paneldump".toList, "quad".toList, "bars".toList]

/-- `snprintf(t, sizeof(t), "tsn/cmd/%s/<word>", ..)` -/
def ownFilter (deviceId : Buf 32) (word : CStr) : CStr :=
  (Buf.copy 64 ("tsn/cmd/".toList ++
    ((if deviceId.chars = [] then "+".toList else deviceId.chars) ++ '/' :: word))).chars

/-- The filters of `on_connected`. -/
def subscriptions (deviceId : Buf 32) : List CStr :=
  ownWords.map (ownFilter deviceId) ++
    ["tsn/fx/cmd/#".toList, "tsn/fx/data".toList, "tsn/sensors/event".toList, "tsn/sensors".toList]

/-- The broker delivers a topic to the node. -/
def Delivered (deviceId : Buf 32) (topic : CStr) : Prop :=
  ∃ filter ∈ subscriptions deviceId, Delivers filter topic

instance (deviceId : Buf 32) (topic : CStr) : Decidable (Delivered deviceId topic) :=
  inferInstanceAs (Decidable (∃ filter ∈ subscriptions deviceId, Delivers filter topic))

/-- A topic below `tsn/fx/cmd`. -/
def FxCommand (topic : CStr) : Prop := ["tsn".toList, "fx".toList, "cmd".toList] <+: levels topic

instance (topic : CStr) : Decidable (FxCommand topic) :=
  inferInstanceAs (Decidable (_ <+: levels topic))

/-- The topic names the device, below `tsn/cmd` or `tsn/fx/cmd`. -/
def AddressedTo (id topic : CStr) : Prop :=
  (∃ command, topic = "tsn/cmd/".toList ++ (id ++ '/' :: command)) ∨
    topic = "tsn/fx/cmd/".toList ++ id ∨
    ∃ command, topic = "tsn/fx/cmd/".toList ++ (id ++ '/' :: command)

/-! ### Effects -/

/-- The handler changed the TSN state, the streams or NVS, restarts the node
or started an update. -/
def Acted (n : Node) (e : Effect) : Prop :=
  e.node.state ≠ n.state ∨ e.node.streams ≠ n.streams ∨ e.node.nvs ≠ n.nvs ∨ e.restarts = true ∨
    e.ota ≠ none

/-- The commands that can do so. -/
def Command.acting : List Command :=
  [.wifi, .addWifi, .qos, .vlan, .timesync, .tas, .stream, .preemption, .ota, .reset, .reboot, .factory]

def Route.acts : Route → Bool
  | .apply => true
  | .command c => c ∈ Command.acting
  | .feed | .unknown => false

/-- Whatever message comes with the topic: if the node, which runs, acts on
it, it is addressed to the node. -/
def OwnOnly (id topic : CStr) : Prop :=
  ∀ (n : Node) (m : Message), m.topic = topic → n.loaded = true → Acted n (n.onCommand m) →
    AddressedTo id topic

/-! ### Which topics are acted on -/

theorem not_acted (n : Node) (acks : List Ack) : ¬ Acted n { node := n, acks } := by
  simp [Acted]

/-- The other routes leave the node alone. -/
theorem acts_of_acted {n : Node} {m : Message} (hloaded : n.loaded = true)
    (h : Acted n (n.onCommand m)) : (route m.topic).acts = true := by
  rw [Node.onCommand] at h
  cases hroute : route m.topic with
  | feed | unknown =>
      rw [hroute] at h
      exact absurd h (not_acted n [])
  | apply => rfl
  | command c =>
      rw [hroute] at h
      cases c with
      | wifi | addWifi | qos | vlan | timesync | tas | stream | preemption | ota | reset | reboot
      | factory => rfl
      | status =>
          have hsame : n.loadPersisted = n := if_pos hloaded
          simp only [Node.handle, hsame] at h
          exact absurd h (not_acted n [])
      | identify => exact absurd h (not_acted n [ackOk])
      | wfmRecal => exact absurd h (not_acted n [⟨true, "wfm_recal".toList⟩])
      | _ => exact absurd h (not_acted n [])

/-! ### A message that is acted on -/

/-- A node with a configuration that every command changes. -/
def busyNode : Node :=
  { state := { priority := 1, preemption := 1, vlanId := 1, timesyncMode := 1, tasCycleNs := 1 }
    loaded := true }

def busyMembers : List (Plain × Value) :=
  [(.lit "ssid".toList, .str (.lit "a".toList)),
    (.lit "url".toList, .str (.lit "a".toList)),
    (.lit "stream_id".toList, .str (.lit "a".toList))]

/-- A payload that names a network, an image and a stream, and no number. -/
def busyPayload : CStr := (compactObject busyMembers).text

theorem getStrIn_busy (key : CStr) {later : List (Plain × Value)}
    (h : memberAt key busyMembers = some (.str (.lit "a".toList), later)) {sz : Nat}
    (hsz : 2 ≤ sz) : getStrIn [busyPayload] key sz = some "a".toList := by
  obtain ⟨k, rfl⟩ : ∃ k, sz = k + 2 := ⟨sz - 2, by omega⟩
  apply readIn_lookup
  rw [busyPayload, lookup_compact, h]
  simp [readStr, Value.text, splitQuote]

theorem getIntIn_busy (key : CStr) (h : memberAt key busyMembers = none) :
    getIntIn [busyPayload] key = none := by
  apply readIn_lookup
  rw [busyPayload, lookup_compact, h]
  rfl

theorem acted_apply : Acted busyNode
    { node := (busyNode.applySnapshot busyPayload []).1
      acks := [(busyNode.applySnapshot busyPayload []).2] } := by
  have hprio := getIntIn_busy "priority".toList rfl
  have hrefusal : (parseSnapshot busyPayload []).refusal = none := by
    rw [refusal_eq_none_iff]
    simp only [parseSnapshot, hprio, getIntIn_busy "preemption".toList rfl,
      getIntIn_busy "timesync_mode".toList rfl]
    decide
  rcases applySnapshot_cases busyNode busyPayload [] with ⟨-, -, hbad⟩ | ⟨happly, -, -⟩
  · have hhead : busyPayload.head? = some '\x7b' := rfl
    exact absurd hbad (by simp [hhead, hrefusal])
  · refine Or.inl fun hsame => ?_
    rw [happly] at hsame
    have hpriority : (parseSnapshot busyPayload []).cfg.priority = 1 := congrArg RawState.priority hsame
    simp only [parseSnapshot, hprio] at hpriority
    exact absurd hpriority (by decide)

theorem acted_stream : Acted busyNode (busyNode.onStream [busyPayload]) := by
  have hid : (parseStream [busyPayload]).streamId.chars = "a".toList := by
    simp only [parseStream, getStrIn_busy "stream_id".toList rfl (by decide : 2 ≤ 48), Option.getD_some]
    rfl
  have hlisteners : (parseStream [busyPayload]).listeners = [] := by
    have harray : getRootArray busyPayload "listeners".toList = some none := by
      rw [getRootArray, busyPayload, lookup_compact]
      rfl
    simp only [parseStream, getRootArrayIn_lookup harray]
    rfl
  have happly : tsnApplyStream busyNode.agent (parseStream [busyPayload]) =
      some { busyNode.agent with
        streams := busyNode.agent.streams.push (parseStream [busyPayload]) } := by
    have hempty : busyNode.agent.streams.items = [] := rfl
    rw [tsnApplyStream, hlisteners, if_neg (by decide), dif_neg (by simp [hempty, HasKey]),
      if_neg (by simp [hempty, streamMax])]
  rw [Node.onStream]
  simp only [hid, happly]
  refine Or.inr (Or.inl fun hsame => ?_)
  exact absurd (congrArg (fun s => s.items.length) hsame) (by decide +revert)

/-- The value of `atoi` on a payload that starts with a brace. -/
theorem atoi_busy : atoi busyPayload = 0 := by decide

theorem acted_handle (topic : CStr) {c : Command} (hc : c ∈ Command.acting) :
    Acted busyNode (busyNode.handle { topic, payload := busyPayload } c) := by
  have hssid := getStrIn_busy "ssid".toList rfl (by decide : 2 ≤ 64)
  have hurl := getStrIn_busy "url".toList rfl (by decide : 2 ≤ 256)
  have hzero : (0 : Int32) ≠ 1 := by decide
  cases c with
  | qos =>
      refine Or.inl fun hsame => hzero ?_
      rw [← atoi_busy]
      exact congrArg RawState.priority hsame
  | vlan =>
      refine Or.inl fun hsame => hzero ?_
      rw [← atoi_busy]
      exact congrArg RawState.vlanId hsame
  | timesync =>
      refine Or.inl fun hsame => hzero ?_
      rw [← atoi_busy]
      exact congrArg RawState.timesyncMode hsame
  | preemption =>
      refine Or.inl fun hsame => hzero ?_
      have hmode : atoi (preemptionArgs busyPayload).1 = 0 := by decide
      rw [← hmode]
      exact congrArg RawState.preemption hsame
  | tas =>
      refine Or.inl fun hsame => ?_
      have hcycle : Int64.ofInt (atoi busyPayload).toInt = 1 := congrArg RawState.tasCycleNs hsame
      rw [atoi_busy] at hcycle
      exact absurd hcycle (by decide)
  | wifi =>
      refine Or.inr (Or.inr (Or.inr (Or.inl ?_)))
      simp only [Node.handle, Node.crateSetWifi, hssid]
      rfl
  | addWifi =>
      refine Or.inr (Or.inr (Or.inl fun hsame => ?_))
      simp only [Node.handle, Node.addWifi, hssid] at hsame
      have hkey := congrArg Nvs.wifiSsid hsame
      exact absurd ((Nvs.netAdd_wifiSsid _ (by decide) _).symm.trans hkey) (Option.some_ne_none _)
  | stream => exact acted_stream
  | ota =>
      refine Or.inr (Or.inr (Or.inr (Or.inr ?_)))
      simp only [Node.handle, Node.onOta, hurl]
      exact Option.some_ne_none _
  | reset | reboot | factory => exact Or.inr (Or.inr (Or.inr (Or.inl rfl)))
  | _ => exact absurd hc (by decide)

/-- A topic whose route acts is acted on, by some node and some message. -/
theorem exists_acted {topic : CStr} (h : (route topic).acts = true) :
    ∃ (n : Node) (m : Message), m.topic = topic ∧ n.loaded = true ∧ Acted n (n.onCommand m) := by
  refine ⟨busyNode, { topic, payload := busyPayload }, rfl, rfl, ?_⟩
  rw [Node.onCommand]
  cases hroute : route topic with
  | feed | unknown =>
      rw [hroute] at h
      cases h
  | apply => exact acted_apply
  | command c =>
      rw [hroute] at h
      exact acted_handle topic (of_decide_eq_true h)

/-! ### What is delivered -/

theorem ownFilter_eq {deviceId : Buf 32} {word : CStr} (hid : deviceId.chars ≠ [])
    (hword : word ∈ ownWords) :
    ownFilter deviceId word = "tsn/cmd/".toList ++ (deviceId.chars ++ '/' :: word) := by
  have hlen : word.length ≤ 10 := (by decide : ∀ w ∈ ownWords, w.length ≤ 10) word hword
  have hfits := deviceId.fits
  rw [ownFilter, if_neg hid]
  apply Buf.copy_chars_of_lt
  simp only [String.reduceToList, List.length_append, List.length_cons, List.length_nil]
  omega

theorem levels_ownFilter {id word : CStr} (hword : '/' ∉ word) :
    levels ("tsn/cmd/".toList ++ (id ++ '/' :: word)) =
      "tsn".toList :: "cmd".toList :: (levels id ++ [word]) := by
  have htail : levels (id ++ '/' :: word) = levels id ++ [word] := by
    rw [levels_append, levels_word hword]
  have hcmd := levels_append "cmd".toList (id ++ '/' :: word)
  rw [htail, levels_word (by decide : '/' ∉ "cmd".toList)] at hcmd
  have htsn := levels_append "tsn".toList ("cmd".toList ++ '/' :: (id ++ '/' :: word))
  rw [hcmd, levels_word (by decide : '/' ∉ "tsn".toList)] at htsn
  exact htsn

/-- Without a wildcard in the id, a filter with the own id matches only topics
of the node. -/
theorem addressed_of_ownFilter {deviceId : Buf 32} {word topic : CStr} (hid : deviceId.chars ≠ [])
    (hplain : ['+'] ∉ levels deviceId.chars) (hword : word ∈ ownWords)
    (h : Delivers (ownFilter deviceId word) topic) : AddressedTo deviceId.chars topic := by
  obtain ⟨hslash, hplus, hhash⟩ :=
    (by decide : ∀ w ∈ ownWords, '/' ∉ w ∧ ['+'] ≠ w ∧ w ≠ ['#']) word hword
  rw [ownFilter_eq hid hword] at h
  rw [delivers_literal] at h
  · exact Or.inl ⟨word, h⟩
  · rw [levels_ownFilter hslash]
    simp only [List.mem_cons, List.mem_append, List.not_mem_nil, or_false, not_or]
    exact ⟨by decide, by decide, hplain, hplus⟩
  · rw [levels_ownFilter hslash]
    simp [List.getLast?_cons, hhash]

/-- What the broker delivers to a node: topics of the node, topics below
`tsn/fx/cmd`, and the shared feeds. -/
theorem delivered_cases {deviceId : Buf 32} {topic : CStr} (hid : deviceId.chars ≠ [])
    (h : Delivered deviceId topic) :
    ['+'] ∈ levels deviceId.chars ∨ AddressedTo deviceId.chars topic ∨ FxCommand topic ∨
      route topic = .feed := by
  obtain ⟨filter, hfilter, hdel⟩ := h
  rcases List.mem_append.mp hfilter with hown | hshared
  · obtain ⟨word, hword, rfl⟩ := List.mem_map.mp hown
    by_cases hplain : ['+'] ∈ levels deviceId.chars
    · exact Or.inl hplain
    · exact Or.inr (Or.inl (addressed_of_ownFilter hid hplain hword hdel))
  · simp only [List.mem_cons, List.not_mem_nil, or_false] at hshared
    rcases hshared with rfl | rfl | rfl | rfl
    · refine Or.inr (Or.inr (Or.inl ?_))
      have hlevels : levels "tsn/fx/cmd/#".toList =
          ["tsn".toList, "fx".toList, "cmd".toList] ++ [['#']] := by decide
      rwa [Delivers, hlevels, matchLevels_hash (by decide)] at hdel
    · rw [delivers_literal (by decide) (by decide)] at hdel
      rw [hdel]
      exact Or.inr (Or.inr (Or.inr (by decide)))
    · rw [delivers_literal (by decide) (by decide)] at hdel
      rw [hdel]
      exact Or.inr (Or.inr (Or.inr (by decide)))
    · rw [delivers_literal (by decide) (by decide)] at hdel
      rw [hdel]
      exact Or.inr (Or.inr (Or.inr (by decide)))

/-- A node acts on its own commands only, unless an acting command of another
device arrives below `tsn/fx/cmd`, or the node's id is itself a wildcard. -/
theorem ownOnly_iff (deviceId : Buf 32) (topic : CStr) (hid : deviceId.chars ≠ [])
    (hdelivered : Delivered deviceId topic) :
    OwnOnly deviceId.chars topic ↔
      (FxCommand topic ∨ ['+'] ∈ levels deviceId.chars → (route topic).acts = true →
        AddressedTo deviceId.chars topic) := by
  constructor
  · intro h _ hacts
    obtain ⟨n, m, htopic, hloaded, hacted⟩ := exists_acted hacts
    exact h n m htopic hloaded hacted
  · rintro h n m rfl hloaded hacted
    have hacts := acts_of_acted hloaded hacted
    rcases delivered_cases hid hdelivered with hwild | hown | hfx | hfeed
    · exact h (Or.inr hwild) hacts
    · exact hown
    · exact h (Or.inl hfx) hacts
    · rw [hfeed] at hacts
      cases hacts

/-- A `reset` for the node itself. -/
theorem ownReset_ownOnly : OwnOnly "a".toList "tsn/cmd/a/reset".toList := by
  have hdelivered : Delivered ⟨"a".toList, by decide⟩ "tsn/cmd/a/reset".toList := by decide
  refine (ownOnly_iff ⟨"a".toList, by decide⟩ "tsn/cmd/a/reset".toList (by decide) hdelivered).mpr ?_
  intro h
  exact absurd h (by decide)

/-- A `reset` for node `b` resets node `a`. -/
theorem foreignReset_not_ownOnly :
    Delivered ⟨"a".toList, by decide⟩ "tsn/fx/cmd/b/reset".toList ∧
      ¬ OwnOnly "a".toList "tsn/fx/cmd/b/reset".toList := by
  refine ⟨by decide, fun h => ?_⟩
  have hacts : (route "tsn/fx/cmd/b/reset".toList).acts = true := by decide
  obtain ⟨n, m, htopic, hloaded, hacted⟩ := exists_acted hacts
  rcases h n m htopic hloaded hacted with ⟨command, heq⟩ | heq | ⟨command, heq⟩
  · exact absurd (congrArg (List.take 5) heq) (by simp)
  · exact absurd heq (by decide)
  · exact absurd (congrArg (List.take 12) heq) (by simp)

end Htsn.Esp32
