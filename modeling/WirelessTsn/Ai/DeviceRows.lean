import WirelessTsn.Ai.LlmBridge
import WirelessTsn.Lib.Mqtt

/-!
The rows that rule R1 writes. Both the raise and the restore save fixed settings
under the device's id, and the save creates a device that is missing; R3 writes
streams only. What a run leaves in the row of a device is therefore what the
last raise or restore of that device put there.
-/

namespace Htsn.Ai

open CText Keyed

section

variable {e : PolicyEngine} {now : Int} {dev : Buf 128}

/-! ### A raise and a restore -/

/-- A raise or a restore of the device. -/
def PolicyWrite.IsQosOf (dev : Buf 128) : PolicyWrite → Prop
  | .raise d _ | .restore d _ => d = dev
  | .reserve _ _ => False

/-- The device is raised, later restored, and not written before and behind. -/
def RaisedAndRestored (dev : Buf 128) (ws : List PolicyWrite) : Prop :=
  ∃ front t mid t' back, ws = front ++ .raise dev t :: (mid ++ .restore dev t' :: back) ∧
    (∀ w ∈ front, ¬ w.IsQosOf dev) ∧ ∀ w ∈ back, ¬ w.IsQosOf dev

theorem foldl_rowAfter {ws : List PolicyWrite} (h : ∀ w ∈ ws, ¬ w.IsQosOf dev) (row : Option QosConfig) :
    ws.foldl (rowAfter dev) row = row := by
  induction ws with
  | nil => rfl
  | cons w ws ih =>
      obtain ⟨hw, hws⟩ := List.forall_mem_cons.mp h
      have hone : rowAfter dev row w = row := by
        cases w with
        | raise d t | restore d t => exact if_neg hw
        | reserve d t => rfl
      rw [List.foldl_cons, hone]
      exact ih hws

/-- What a restore leaves, whatever was there before. -/
theorem foldl_raisedAndRestored {ws : List PolicyWrite} (h : RaisedAndRestored dev ws)
    (row : Option QosConfig) : ws.foldl (rowAfter dev) row = some (restoredQos dev) := by
  obtain ⟨front, t, mid, t', back, rfl, -, hback⟩ := h
  have hsplit : front ++ PolicyWrite.raise dev t :: (mid ++ .restore dev t' :: back) =
      (front ++ .raise dev t :: mid) ++ .restore dev t' :: back := by simp
  rw [hsplit, List.foldl_append, List.foldl_cons, foldl_rowAfter hback]
  exact if_pos rfl

theorem qosRow_restored {evs : List PolicyEvent} {ws : List PolicyWrite}
    (hws : (Run.run PolicyEngine.step e evs).writes = e.writes ++ ws) (h : RaisedAndRestored dev ws) :
    (Run.run PolicyEngine.step e evs).qosRow dev = some (restoredQos dev) := by
  rw [qosRow_run hws, foldl_raisedAndRestored h]

/-- Over every run in which a device with settings is raised and restored: its
settings are again what they were exactly when they were those of a restore. -/
theorem raise_restore_neutral_iff (e : PolicyEngine) (evs : List PolicyEvent) (dev : Buf 128) (q : QosConfig)
    (ws : List PolicyWrite) (hrow : e.qosRow dev = some q)
    (hws : (Run.run PolicyEngine.step e evs).writes = e.writes ++ ws) (h : RaisedAndRestored dev ws) :
    (Run.run PolicyEngine.step e evs).qosRow dev = some q ↔
      q.priority = 3 ∧ q.trafficClass = 1 ∧ q.bandwidthKbps = 10000 ∧ q.latencyMs = 50 ∧ q.preemption = 0 := by
  have hid : q.deviceId = Buf.copy 256 dev.chars := by
    apply Buf.chars_injective
    rw [qosId_chars]
    exact (e.db.qosConfigs.find_eq_some.mp hrow).2
  rw [qosRow_restored hws h, Option.some_inj]
  constructor
  · rintro rfl
    exact ⟨rfl, rfl, rfl, rfl, rfl⟩
  · rintro ⟨hprio, htc, hbw, hlat, hpre⟩
    cases q
    simp only at hid hprio htc hbw hlat hpre
    simp only [restoredQos, hid, hprio, htc, hbw, hlat, hpre]

/-- A camera with settings of its own, a detection, and the end of the calm
time. -/
def camera : Buf 128 := Buf.copy 128 "cam-1".toList

def detectionAndCalm : List PolicyEvent :=
  [⟨1000, .message ⟨"tsn/sensors/event/cam-1".toList, "\x7b\"pir\":1\x7d".toList⟩⟩, ⟨1301, .poll⟩]

def cameraWrites : List PolicyWrite := [.raise camera 1000, .restore camera 1301]

theorem cameraWrites_raisedAndRestored : RaisedAndRestored camera cameraWrites :=
  ⟨[], 1000, [], 1301, [], rfl, by simp, by simp⟩

theorem writes_detectionAndCalm (q : QosConfig) :
    (Run.run PolicyEngine.step { db := (dbQosSave .empty q).2 } detectionAndCalm).writes = [] ++ cameraWrites := by
  rfl

/-- Settings of the camera with a priority. -/
def cameraQos (priority : Int32) : QosConfig := { restoredQos camera with priority }

theorem qosRow_cameraQos (priority : Int32) :
    PolicyEngine.qosRow { db := (dbQosSave .empty (cameraQos priority)).2 } camera =
      some (cameraQos priority) := by
  refine (qosRow_save (cameraQos priority) rfl .empty camera).trans ?_
  exact if_pos rfl

theorem cameraQos_neutral :
    (Run.run PolicyEngine.step { db := (dbQosSave .empty (cameraQos 3)).2 } detectionAndCalm).qosRow camera =
        some (cameraQos 3) ↔
      (cameraQos 3).priority = 3 ∧ (cameraQos 3).trafficClass = 1 ∧ (cameraQos 3).bandwidthKbps = 10000 ∧
        (cameraQos 3).latencyMs = 50 ∧ (cameraQos 3).preemption = 0 :=
  raise_restore_neutral_iff _ detectionAndCalm camera (cameraQos 3) cameraWrites (qosRow_cameraQos 3)
    (writes_detectionAndCalm _) cameraWrites_raisedAndRestored

/-- A camera of the highest priority comes back with priority 3. -/
theorem cameraQos_not_neutral :
    ¬ ∀ (e : PolicyEngine) (evs : List PolicyEvent) (dev : Buf 128) (q : QosConfig) (ws : List PolicyWrite),
      e.qosRow dev = some q → (Run.run PolicyEngine.step e evs).writes = e.writes ++ ws →
        RaisedAndRestored dev ws → (Run.run PolicyEngine.step e evs).qosRow dev = some q := by
  intro h
  have hrow := h _ detectionAndCalm camera (cameraQos 7) cameraWrites (qosRow_cameraQos 7)
    (writes_detectionAndCalm _) cameraWrites_raisedAndRestored
  rw [qosRow_restored (writes_detectionAndCalm _) cameraWrites_raisedAndRestored, Option.some_inj] at hrow
  have hprio : (3 : Int32) = 7 := congrArg QosConfig.priority hrow
  exact absurd hprio (by decide)

end

/-! ### The device of an event -/

/-- The filter that `on_connect` subscribes to. -/
def eventFilter : CStr := "tsn/sensors/event/#".toList

def eventTopic (d : CStr) : CStr := "tsn/sensors/event/".toList ++ d

/-- The topic has one level behind that of the events, and `d` is its text. -/
def NamesDevice (topic d : CStr) : Prop := topic = eventTopic d ∧ d ≠ [] ∧ '/' ∉ d

/-- The device `k` is created or changed, or its settings are. -/
def ChangesRows (k : CStr) (db db' : Db) : Prop :=
  db'.devices.find k ≠ db.devices.find k ∨ db'.qosConfigs.find k ≠ db.qosConfigs.find k

/-- Whatever the engine's state and the time: a message changes the rows of the
device that its topic names, and of no other. -/
def WritesNamedOnly (m : PolicyMessage) : Prop :=
  ∀ (e : PolicyEngine) (now : Int) (k : CStr), ChangesRows k e.db (e.onMessage now m).db →
    NamesDevice m.topic k

/-- The payload tells of a person or a motion. -/
def PolicyMessage.IsDetection (m : PolicyMessage) : Prop :=
  strstr "\"ai_person\"".toList m.payload ≠ none ∨ strstr "\"pir\"".toList m.payload ≠ none

section

variable {e : PolicyEngine} {m : PolicyMessage} {now : Int} {k : CStr}

theorem not_changesRows (db : Db) : ¬ ChangesRows k db db := fun h => h.elim (fun h => h rfl) fun h => h rfl

theorem not_changesRows_fireR1 {dev : Buf 128} (h : dev.chars ≠ k) :
    ¬ ChangesRows k e.db (e.fireR1 now dev).db := by
  have hid : (raisedQos dev).deviceId.chars ≠ k := by
    rw [raisedQos, qosId_chars]
    exact h
  rintro (hdevices | hqos)
  · exact hdevices (device_dbQosSave hid)
  · apply hqos
    refine (qosRow_dbQosSave e.db (raisedQos dev) k).trans ?_
    exact if_neg hid

/-- A detection touches the rows of its device. -/
theorem not_changesRows_applyR1 {dev : Buf 128} (h : dev.chars ≠ k) :
    ¬ ChangesRows k e.db (e.applyR1 now dev).db := by
  have hfire := @not_changesRows_fireR1 e now k dev h
  have hsame := @not_changesRows k e.db
  unfold PolicyEngine.applyR1
  split
  · split
    · exact hsame
    · exact hfire
  · split
    · exact hsame
    · exact hfire

theorem changesRows_checkR3 (e' : PolicyEngine) (dev : Buf 128) (lat : Int32) (db : Db) :
    ChangesRows k db (e'.checkR3 now dev lat).db ↔ ChangesRows k db e'.db := by
  obtain ⟨hdevices, hqos⟩ := rows_checkR3 e' now dev lat
  rw [ChangesRows, ChangesRows, hdevices, hqos]

/-- Of a message, what concerns R1 changes rows. -/
theorem changesRows_onMessage (hpayload : m.payload ≠ []) :
    ChangesRows k e.db (e.onMessage now m).db ↔
      ∃ dev, m.r1Device = some dev ∧ ChangesRows k e.db (e.applyR1 now dev).db := by
  rw [PolicyEngine.onMessage, if_neg hpayload]
  cases m.r1Device with
  | none =>
      have hquiet : ChangesRows k e.db e.db ↔
          ∃ dev, none = some dev ∧ ChangesRows k e.db (e.applyR1 now dev).db := by
        simpa using not_changesRows e.db
      dsimp only
      split
      · rwa [changesRows_checkR3]
      · exact hquiet
  | some dev =>
      have hraised : ChangesRows k e.db (e.applyR1 now dev).db ↔
          ∃ d, some dev = some d ∧ ChangesRows k e.db (e.applyR1 now d).db := by
        simp
      dsimp only
      split
      · rwa [changesRows_checkR3]
      · exact hraised

theorem intercalate_append {as bs : List CStr} (has : as ≠ []) (hbs : bs ≠ []) :
    List.intercalate ['/'] (as ++ bs) = List.intercalate ['/'] as ++ '/' :: List.intercalate ['/'] bs := by
  induction as with
  | nil => exact absurd rfl has
  | cons a as ih =>
      cases as with
      | nil =>
          rw [List.singleton_append, List.intercalate_cons_of_ne_nil hbs, List.intercalate_singleton,
            List.append_assoc, List.singleton_append]
      | cons a' as =>
          have hrest := ih (List.cons_ne_nil a' as)
          rw [List.cons_append] at hrest
          rw [List.cons_append, List.cons_append, List.intercalate_cons_cons, hrest, List.intercalate_cons_cons,
            List.append_assoc _ (List.intercalate ['/'] (a' :: as))]

theorem eventTopic_eq (s : CStr) : eventTopic s = "tsn/sensors/event".toList ++ '/' :: s := rfl

/-- The topics that the subscription delivers. -/
theorem eventTopic_of_delivers {topic : CStr} (h : Mqtt.Delivers eventFilter topic) :
    topic = "tsn/sensors/event".toList ∨ ∃ s, topic = eventTopic s := by
  have hlevels : Mqtt.levels eventFilter = Mqtt.levels "tsn/sensors/event".toList ++ [['#']] :=
    Mqtt.levels_append "tsn/sensors/event".toList ['#']
  rw [Mqtt.Delivers, hlevels, Mqtt.matchLevels_hash (by decide)] at h
  obtain ⟨rest, hrest⟩ := h
  have htopic : topic = List.intercalate ['/'] (Mqtt.levels topic) := (List.intercalate_splitOn _).symm
  by_cases hnil : rest = []
  · rw [hnil, List.append_nil] at hrest
    exact Or.inl (Mqtt.levels_injective hrest.symm)
  · refine Or.inr ⟨List.intercalate ['/'] rest, ?_⟩
    rw [htopic, ← hrest, intercalate_append (by decide) hnil, Mqtt.levels, List.intercalate_splitOn]
    rfl

theorem behindLast_append {u d : CStr} (h : '/' ∉ d) : behindLast '/' (u ++ '/' :: d) = some d := by
  have hlast := @Mqtt.lastLevel_append u d h
  have hmem : '/' ∈ u ++ '/' :: d := by simp
  rw [behindLast, if_pos hmem, Option.some_inj]
  refine Eq.trans ?_ hlast
  rw [Mqtt.lastLevel]
  congr 2
  funext c
  rw [bne, beq_eq_decide, decide_not]

/-- A text with a slash, split at the last one. -/
theorem exists_lastSlash {s : CStr} (h : '/' ∈ s) : ∃ u d, s = u ++ '/' :: d ∧ '/' ∉ d := by
  obtain ⟨as, bs, hrev, has⟩ := List.eq_append_cons_of_mem (List.mem_reverse.mpr h)
  refine ⟨bs.reverse, as.reverse, ?_, by simpa using has⟩
  rw [← List.reverse_reverse s, hrev]
  simp

theorem strstr_prefix {pat s : CStr} (h : pat <+: s) (hpat : pat ≠ []) : strstr pat s = some s := by
  cases s with
  | nil => exact absurd (List.prefix_nil.mp h) hpat
  | cons c s => exact if_pos (List.isPrefixOf_iff_prefix.mpr h)

/-- The device of a delivered message, from the text behind the last slash. -/
theorem r1Device_event {u d : CStr} (h : Mqtt.Delivers eventFilter m.topic) (htopic : m.topic = u ++ '/' :: d)
    (hd : '/' ∉ d) {dev : Buf 128} :
    m.r1Device = some dev ↔ m.IsDetection ∧ d ≠ [] ∧ Buf.copy 128 d = dev := by
  have hprefix : "tsn/sensors/event".toList <+: m.topic := by
    rcases eventTopic_of_delivers h with hbare | ⟨s, hs⟩
    · rw [hbare]
    · exact ⟨'/' :: s, (hs.trans (eventTopic_eq s)).symm⟩
  have hstr := strstr_prefix hprefix (by decide)
  have hempty : (Buf.copy 128 d).chars = [] ↔ d = [] := by
    rw [Buf.copy_chars, List.take_eq_nil_iff]
    simp
  have hlast : (behindLast '/' m.topic).getD [] = d := by
    rw [htopic, behindLast_append hd]
    rfl
  rw [PolicyMessage.r1Device, hstr, hlast]
  dsimp only
  constructor
  · intro hsome
    split at hsome
    · rename_i hdet
      split at hsome
      · cases hsome
      · rename_i hne
        exact ⟨hdet.2, fun hnil => hne (hempty.mpr hnil), Option.some_inj.mp hsome⟩
    · cases hsome
  · rintro ⟨hdet, hne, rfl⟩
    rw [if_pos ⟨Option.some_ne_none _, hdet⟩, if_neg fun hnil => hne (hempty.mp hnil)]

/-- A detection has a payload. -/
theorem payload_ne_nil (h : m.IsDetection) : m.payload ≠ [] := by
  intro hnil
  rw [PolicyMessage.IsDetection, hnil] at h
  rcases h with hperson | hpir
  · exact hperson rfl
  · exact hpir rfl

/-- A raise of a device that is missing brings it into the store. -/
theorem changesRows_fireR1 {dev : Buf 128} (h : ¬ e.db.devices.Has dev.chars) :
    ChangesRows dev.chars e.db (e.fireR1 now dev).db := by
  have hhas := dbQosSave_has e.db (raisedQos dev)
  rw [raisedQos, qosId_chars] at hhas
  refine Or.inl fun hsame => ?_
  rw [e.db.devices.find_eq_none.mpr h] at hsame
  exact (Table.find_eq_none _).mp hsame hhas

/-- The first detection of all. -/
theorem changesRows_first (now : Int) (dev : Buf 128) :
    ChangesRows dev.chars Db.empty (PolicyEngine.applyR1 { } now dev).db := by
  have hnone : ¬ Db.empty.devices.Has dev.chars := by
    rintro ⟨r, hr, -⟩
    cases hr
  exact @changesRows_fireR1 { } now dev hnone

/-- A message that R1 does not take for a device changes no rows. -/
theorem writesNamedOnly_of_none (h : m.r1Device = none) : WritesNamedOnly m := by
  intro e now k hchange
  by_cases hpayload : m.payload = []
  · rw [PolicyEngine.onMessage, if_pos hpayload] at hchange
    exact absurd hchange (not_changesRows e.db)
  · obtain ⟨dev, hdev, -⟩ := (changesRows_onMessage hpayload).mp hchange
    rw [h] at hdev
    cases hdev

/-- For every delivered message: R1 writes rows of the device that the topic
names, and no others, exactly when the message is no detection, or the topic
has an empty last level, or it names a device whose id fits its buffer. -/
theorem writesNamedOnly_iff (m : PolicyMessage) (h : Mqtt.Delivers eventFilter m.topic) :
    WritesNamedOnly m ↔
      ¬ m.IsDetection ∨ (∃ s, m.topic = s ++ ['/']) ∨ ∃ d, NamesDevice m.topic d ∧ d.length < 128 := by
  have hslash : '/' ∈ m.topic := by
    rcases eventTopic_of_delivers h with hbare | ⟨s, hs⟩
    · rw [hbare]
      decide
    · rw [hs, eventTopic_eq]
      simp
  obtain ⟨u, d, htopic, hd⟩ := exists_lastSlash hslash
  have hdevice : ∀ dev, m.r1Device = some dev ↔ m.IsDetection ∧ d ≠ [] ∧ Buf.copy 128 d = dev :=
    fun dev => r1Device_event h htopic hd
  constructor
  · intro honly
    by_cases hdet : m.IsDetection
    · refine Or.inr ?_
      by_cases hnil : d = []
      · exact Or.inl ⟨u, by rw [htopic, hnil]⟩
      · have hdev := (hdevice _).mpr ⟨hdet, hnil, rfl⟩
        have hchange : ChangesRows (Buf.copy 128 d).chars Db.empty (PolicyEngine.onMessage { } 0 m).db :=
          (changesRows_onMessage (payload_ne_nil hdet)).mpr ⟨_, hdev, changesRows_first 0 _⟩
        exact Or.inr ⟨_, honly { } 0 _ hchange, (Buf.copy 128 d).fits⟩
    · exact Or.inl hdet
  · have hnone : (¬ m.IsDetection ∨ d = []) → WritesNamedOnly m := by
      intro hor
      apply writesNamedOnly_of_none
      rw [Option.eq_none_iff_forall_ne_some]
      intro dev hdev
      obtain ⟨hdet, hne, -⟩ := (hdevice dev).mp hdev
      exact hor.elim (fun hno => hno hdet) hne
    rintro (hdet | ⟨s, hs⟩ | ⟨d', hnames, hlen⟩)
    · exact hnone (Or.inl hdet)
    · apply hnone
      refine Or.inr ?_
      have hend := congrArg (behindLast '/') (htopic.symm.trans hs)
      rw [behindLast_append hd, @behindLast_append s [] List.not_mem_nil, Option.some_inj] at hend
      exact hend
    · intro e now k hchange
      obtain ⟨htopic', -, hd'⟩ := id hnames
      have hend := congrArg (behindLast '/') (htopic.symm.trans htopic')
      rw [eventTopic_eq, behindLast_append hd, behindLast_append hd', Option.some_inj] at hend
      subst hend
      have hpayload : m.payload ≠ [] := by
        intro hnil
        rw [PolicyEngine.onMessage, if_pos hnil] at hchange
        exact not_changesRows e.db hchange
      obtain ⟨dev, hdev, hrows⟩ := (changesRows_onMessage hpayload).mp hchange
      obtain ⟨-, -, rfl⟩ := (hdevice dev).mp hdev
      by_contra hother
      refine not_changesRows_applyR1 (fun hk => hother ?_) hrows
      rw [Buf.copy_chars_of_lt hlen] at hk
      exact hk ▸ hnames

theorem camera_event_named :
    WritesNamedOnly ⟨"tsn/sensors/event/cam-1".toList, "\x7b\"pir\":1\x7d".toList⟩ ↔
      ¬ PolicyMessage.IsDetection ⟨"tsn/sensors/event/cam-1".toList, "\x7b\"pir\":1\x7d".toList⟩ ∨
        (∃ s, "tsn/sensors/event/cam-1".toList = s ++ ['/']) ∨
          ∃ d, NamesDevice "tsn/sensors/event/cam-1".toList d ∧ d.length < 128 :=
  writesNamedOnly_iff ⟨"tsn/sensors/event/cam-1".toList, "\x7b\"pir\":1\x7d".toList⟩ (by decide)

/-- What the firmware publishes at a motion, without a device: it makes one of
the name `event`. -/
theorem bare_event_not_named :
    ¬ ∀ m : PolicyMessage, Mqtt.Delivers eventFilter m.topic → WritesNamedOnly m := by
  intro h
  have honly := h ⟨"tsn/sensors/event".toList, "\x7b\"pir\":1\x7d".toList⟩ (by decide)
  have hdev : PolicyMessage.r1Device ⟨"tsn/sensors/event".toList, "\x7b\"pir\":1\x7d".toList⟩ =
      some (Buf.copy 128 "event".toList) := by decide
  have hchange := (changesRows_onMessage (e := { }) (k := "event".toList) (List.cons_ne_nil _ _)).mpr
    ⟨_, hdev, changesRows_first 0 (Buf.copy 128 "event".toList)⟩
  have hnames := honly { } 0 "event".toList hchange
  have hlength := congrArg List.length hnames.1
  exact absurd hlength (by decide)

end

end Htsn.Ai
