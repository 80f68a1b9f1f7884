import WirelessTsn.Ai.Policy

/-!
What one device sees of the policy engine. R1 keeps one table of 64 places
for all devices and never frees one; a device that has a place in it is
treated as by a rule of its own. R3 keeps one cooldown for all devices, and two
long ids share a stream id; where neither gets in the way, the device is again
treated as by a rule of its own.
-/

namespace Htsn.Ai

open CText Keyed

def PolicyWrite.device : PolicyWrite → Buf 128
  | .raise dev _ | .restore dev _ | .reserve dev _ => dev

/-- The raises and restores of a device. -/
def qosWritesFor (dev : Buf 128) (ws : List PolicyWrite) : List PolicyWrite :=
  ws.filter fun w =>
    match w with
    | .raise d _ | .restore d _ => d = dev
    | .reserve _ _ => false

/-- The times of the reservations of a device. -/
def reservesFor (dev : Buf 128) (ws : List PolicyWrite) : List Int :=
  ws.filterMap fun w =>
    match w with
    | .reserve d now => if d = dev then some now else none
    | _ => none

/-- The time of the last reservation of a device, 0 before the first. -/
def lastReserve (dev : Buf 128) (ws : List PolicyWrite) : Int := (reservesFor dev ws).getLastD 0

/-! ### The rules for one device -/

structure QosView where
  entry : Option RuleState
  writes : List PolicyWrite

structure ReserveView where
  reserved : Bool
  times : List Int

def PolicyEngine.qosView (e : PolicyEngine) (dev : Buf 128) : QosView where
  entry := e.findR1 dev
  writes := qosWritesFor dev e.writes

def PolicyEngine.reserveView (e : PolicyEngine) (dev : Buf 128) : ReserveView where
  reserved := decide (e.db.tsnStreams.Has (aiStreamId dev).chars)
  times := reservesFor dev e.writes

/-- R1 at a detection. -/
def QosView.detect (v : QosView) (now : Int) (dev : Buf 128) : QosView :=
  match v.entry with
  | some s =>
      if s.active = true ∧ now - s.lastFired < r1CooldownS then v
      else { entry := some ⟨dev, now, true⟩, writes := v.writes ++ [.raise dev now] }
  | none => { entry := some ⟨dev, now, true⟩, writes := v.writes ++ [.raise dev now] }

/-- R1 at a pass of the main loop. -/
def QosView.poll (v : QosView) (now : Int) (dev : Buf 128) : QosView :=
  match v.entry with
  | some s =>
      if s.active = true ∧ now - s.lastFired > r1CalmS then
        { entry := some s.idle, writes := v.writes ++ [.restore dev now] }
      else v
  | none => v

def QosView.step (dev : Buf 128) (v : QosView) (ev : PolicyEvent) : QosView :=
  match ev.input with
  | .message m => if m.payload ≠ [] ∧ m.r1Device = some dev then v.detect ev.time dev else v
  | .poll => v.poll ev.time dev

/-- R3 at a report, with a cooldown of its own. -/
def ReserveView.report (v : ReserveView) (now : Int) (latencyMs : Int32) : ReserveView :=
  if latencyMs < r3LatencyMs then v
  else if now - v.times.getLastD 0 < r3CooldownS then v
  else if v.reserved then v
  else { reserved := true, times := v.times ++ [now] }

def ReserveView.step (dev : Buf 128) (v : ReserveView) (ev : PolicyEvent) : ReserveView :=
  match ev.input with
  | .message m =>
      match m.r3Report with
      | some (d, lat) => if m.payload ≠ [] ∧ d = dev then v.report ev.time lat else v
      | none => v
  | .poll => v

/-! ### Which messages are about a device, and what may disturb it -/

def PolicyMessage.IsAbout (m : PolicyMessage) (dev : Buf 128) : Prop :=
  m.r1Device = some dev ∨ m.r3Report.map Prod.fst = some dev

instance (m : PolicyMessage) (dev : Buf 128) : Decidable (m.IsAbout dev) :=
  inferInstanceAs (Decidable (_ ∨ _))

def PolicyEvent.message (ev : PolicyEvent) : Option PolicyMessage :=
  match ev.input with
  | .message m => some m
  | .poll => none

/-- The events that two runs share which differ in the messages about other
devices only: the messages about the device and the polls. -/
def PolicyEvent.concerns (dev : Buf 128) (ev : PolicyEvent) : Bool :=
  match ev.input with
  | .message m => decide (m.IsAbout dev)
  | .poll => true

/-- At a detection the device has a place in the table or there is one left. -/
def HasRoom (dev : Buf 128) (e : PolicyEngine) (ev : PolicyEvent) : Prop :=
  ∀ m ∈ ev.message, m.r1Device = some dev → e.findR1 dev ≠ none ∨ e.r1.length < policyMaxDevices

instance (dev : Buf 128) (e : PolicyEngine) (ev : PolicyEvent) : Decidable (HasRoom dev e ev) :=
  inferInstanceAs (Decidable (∀ m ∈ ev.message, _))

/-- At a high latency the common cooldown runs exactly when the device's own
would, and no other device reports under its stream id. -/
def OwnCooldown (dev : Buf 128) (e : PolicyEngine) (ev : PolicyEvent) : Prop :=
  ∀ m ∈ ev.message, ∀ report ∈ m.r3Report,
    if report.1 = dev then
      r3LatencyMs ≤ report.2 →
        (ev.time - e.r3Last < r3CooldownS ↔ ev.time - lastReserve dev e.writes < r3CooldownS)
    else aiStreamId report.1 ≠ aiStreamId dev

instance (dev : Buf 128) (e : PolicyEngine) (ev : PolicyEvent) : Decidable (OwnCooldown dev e ev) :=
  inferInstanceAs (Decidable (∀ m ∈ ev.message, _))

section

variable {e m : PolicyEngine} {now : Int} {dev d : Buf 128}

theorem qosWritesFor_concat (dev : Buf 128) (ws : List PolicyWrite) (w : PolicyWrite) :
    qosWritesFor dev (ws ++ [w]) =
      match w with
      | .raise d _ | .restore d _ => if d = dev then qosWritesFor dev ws ++ [w] else qosWritesFor dev ws
      | .reserve _ _ => qosWritesFor dev ws := by
  rw [qosWritesFor, List.filter_append]
  cases w with
  | raise d t | restore d t =>
      by_cases hd : d = dev
      · simp [qosWritesFor, hd]
      · simp [qosWritesFor, hd]
  | reserve d t => simp [qosWritesFor]

theorem reservesFor_concat (dev : Buf 128) (ws : List PolicyWrite) (w : PolicyWrite) :
    reservesFor dev (ws ++ [w]) =
      match w with
      | .reserve d now => if d = dev then reservesFor dev ws ++ [now] else reservesFor dev ws
      | _ => reservesFor dev ws := by
  rw [reservesFor, List.filterMap_append]
  cases w with
  | raise d t | restore d t => simp [reservesFor]
  | reserve d t =>
      by_cases hd : d = dev
      · simp [reservesFor, hd]
      · simp [reservesFor, hd]

/-! ### R1: a detection -/

/-- A raise of the device, and one of another. -/
theorem qosView_fireR1 (h : (e.r1.map RuleState.deviceId).Nodup) (now : Int) (d : Buf 128) :
    (e.fireR1 now d).qosView dev =
      if d = dev then
        { entry := some ⟨dev, now, true⟩, writes := (e.qosView dev).writes ++ [.raise dev now] }
      else e.qosView dev := by
  have hfind := findR1_fireR1 h now d dev
  have hwrites : qosWritesFor dev (e.fireR1 now d).writes =
      if d = dev then qosWritesFor dev e.writes ++ [.raise d now] else qosWritesFor dev e.writes :=
    qosWritesFor_concat dev e.writes (.raise d now)
  rw [PolicyEngine.qosView, hfind, hwrites]
  by_cases hd : d = dev
  · subst hd
    simp only [if_true, PolicyEngine.qosView]
  · simp only [hd, if_false, PolicyEngine.qosView]

/-- A restore of the device, and one of another. -/
theorem qosView_lowerR1 (h : (e.r1.map RuleState.deviceId).Nodup) (now : Int) (d : Buf 128) :
    (e.lowerR1 now d).qosView dev =
      if d = dev then
        { entry := (e.findR1 dev).map RuleState.idle
          writes := (e.qosView dev).writes ++ [.restore dev now] }
      else e.qosView dev := by
  have hfind := findR1_lowerR1 h now d dev
  have hwrites : qosWritesFor dev (e.lowerR1 now d).writes =
      if d = dev then qosWritesFor dev e.writes ++ [.restore d now] else qosWritesFor dev e.writes :=
    qosWritesFor_concat dev e.writes (.restore d now)
  rw [PolicyEngine.qosView, hfind, hwrites]
  by_cases hd : d = dev
  · subst hd
    simp only [if_true, PolicyEngine.qosView]
  · simp only [hd, Ne.symm hd, if_false, PolicyEngine.qosView]

theorem nodup_applyR1 (h : (e.r1.map RuleState.deviceId).Nodup) (now : Int) (d : Buf 128) :
    ((e.applyR1 now d).r1.map RuleState.deviceId).Nodup := by
  have hfire : ((e.fireR1 now d).r1.map RuleState.deviceId).Nodup := nodup_upsertBy h
  unfold PolicyEngine.applyR1
  split
  · split
    · exact h
    · exact hfire
  · split
    · exact h
    · exact hfire

theorem qosView_applyR1_other (h : (e.r1.map RuleState.deviceId).Nodup) (hd : d ≠ dev) (now : Int) :
    (e.applyR1 now d).qosView dev = e.qosView dev := by
  have hfire : (e.fireR1 now d).qosView dev = e.qosView dev := by
    rw [qosView_fireR1 h, if_neg hd]
  unfold PolicyEngine.applyR1
  split
  · split
    · rfl
    · exact hfire
  · split
    · rfl
    · exact hfire

theorem qosView_applyR1_self (h : (e.r1.map RuleState.deviceId).Nodup)
    (hroom : e.findR1 dev ≠ none ∨ e.r1.length < policyMaxDevices) (now : Int) :
    (e.applyR1 now dev).qosView dev = (e.qosView dev).detect now dev := by
  have hfire := @qosView_fireR1 e dev h now dev
  rw [if_pos rfl] at hfire
  have hentry : (e.qosView dev).entry = e.findR1 dev := rfl
  rw [PolicyEngine.applyR1, QosView.detect, hentry]
  cases hfind : e.findR1 dev with
  | some s =>
      dsimp only
      split
      · rfl
      · exact hfire
  | none =>
      have hleft : ¬ e.r1.length ≥ policyMaxDevices := by
        have hlt := hroom.resolve_left fun hsome => hsome hfind
        omega
      dsimp only
      rw [if_neg hleft]
      exact hfire

/-! ### R1: the poll -/

theorem keys_pollAt (now : Int) (e : PolicyEngine) (i : Nat) :
    (PolicyEngine.pollAt now e i).r1.map RuleState.deviceId = e.r1.map RuleState.deviceId := by
  unfold PolicyEngine.pollAt PolicyEngine.restoreR1
  split
  · rfl
  split
  · split
    · rfl
    split
    · exact keys_lowerR1 e now _
    · rfl
  · rfl

theorem poll_of_none {v : QosView} (h : v.entry = none) (now : Int) (dev : Buf 128) :
    v.poll now dev = v := by
  rw [QosView.poll, h]

theorem poll_of_some {v : QosView} {s : RuleState} (h : v.entry = some s) (now : Int) (dev : Buf 128) :
    v.poll now dev =
      if s.active = true ∧ now - s.lastFired > r1CalmS then
        { entry := some s.idle, writes := v.writes ++ [.restore dev now] }
      else v := by
  rw [QosView.poll, h]

/-- The place of another device leaves the view, its own does what a poll
does. -/
theorem qosView_pollAt (h : (e.r1.map RuleState.deviceId).Nodup) (now : Int) (dev : Buf 128) (i : Nat) :
    (PolicyEngine.pollAt now e i).qosView dev =
      if (e.r1.map RuleState.deviceId)[i]? = some dev then (e.qosView dev).poll now dev
      else e.qosView dev := by
  rw [List.getElem?_map, PolicyEngine.pollAt]
  cases hi : e.r1[i]? with
  | none => rfl
  | some s =>
      have hs : e.findR1 s.deviceId = some s :=
        (findBy_eq_some h).mpr ⟨List.mem_of_getElem? hi, rfl⟩
      simp only [Option.map_some, Option.some_inj]
      by_cases hd : s.deviceId = dev
      · subst hd
        have hentry : (e.qosView s.deviceId).entry = some s := hs
        rw [if_pos rfl, poll_of_some hentry]
        split
        · rename_i hdue
          rw [PolicyEngine.restoreR1, hs]
          dsimp only
          rw [if_pos hdue.1, qosView_lowerR1 h, if_pos rfl, hs]
          rfl
        · rfl
      · rw [if_neg hd]
        split
        · rw [PolicyEngine.restoreR1, hs]
          dsimp only
          split
          · rw [qosView_lowerR1 h, if_neg hd]
          · rfl
        · rfl

/-- A second poll at one time does nothing. -/
theorem poll_poll (v : QosView) (now : Int) (dev : Buf 128) :
    (v.poll now dev).poll now dev = v.poll now dev := by
  cases hentry : v.entry with
  | none => rw [poll_of_none hentry, poll_of_none hentry]
  | some s =>
      rw [poll_of_some hentry]
      split
      · rw [QosView.poll]
        exact if_neg fun hdue => by cases hdue.1
      · rename_i hnot
        rw [poll_of_some hentry, if_neg hnot]

theorem keys_foldl_pollAt (now : Int) (e : PolicyEngine) (places : List Nat) :
    (places.foldl (PolicyEngine.pollAt now) e).r1.map RuleState.deviceId =
      e.r1.map RuleState.deviceId := by
  induction places generalizing e with
  | nil => rfl
  | cons i places ih => rw [List.foldl_cons, ih, keys_pollAt]

theorem qosView_foldl_pollAt (h : (e.r1.map RuleState.deviceId).Nodup) (now : Int) (dev : Buf 128)
    (places : List Nat) :
    (places.foldl (PolicyEngine.pollAt now) e).qosView dev =
      if ∃ i ∈ places, (e.r1.map RuleState.deviceId)[i]? = some dev then (e.qosView dev).poll now dev
      else e.qosView dev := by
  induction places generalizing e with
  | nil => simp
  | cons i places ih =>
      have hkeys := keys_pollAt now e i
      rw [List.foldl_cons, ih (hkeys ▸ h), hkeys, qosView_pollAt h]
      simp only [List.exists_mem_cons_iff]
      by_cases hi : (e.r1.map RuleState.deviceId)[i]? = some dev
      · simp only [hi, if_true, true_or, poll_poll, ite_self]
      · simp only [hi, if_false, false_or]

theorem qosView_poll (h : (e.r1.map RuleState.deviceId).Nodup) (now : Int) (dev : Buf 128) :
    (e.poll now).qosView dev = (e.qosView dev).poll now dev := by
  rw [PolicyEngine.poll, qosView_foldl_pollAt h]
  split
  · rfl
  · rename_i hnone
    have hentry : (e.qosView dev).entry = none := by
      refine findBy_eq_none.mpr ?_
      rintro ⟨s, hs, hid⟩
      obtain ⟨i, hi, hget⟩ := List.getElem_of_mem hs
      refine hnone ⟨i, List.mem_range.mpr hi, ?_⟩
      rw [List.getElem?_map, List.getElem?_eq_getElem hi, hget, ← hid]
      rfl
    rw [poll_of_none hentry]

/-! ### R3 -/

theorem dbQosSave_tsnStreams (db : Db) (cfg : QosConfig) : (dbQosSave db cfg).2.tsnStreams = db.tsnStreams := by
  simp only [dbQosSave, prepares_eq, Sql.namesIndex, Bool.not_false, if_true]
  split
  · rfl
  · rfl

/-- What R3 reads and writes is the same in two states. -/
structure SameReserves (dev : Buf 128) (m e : PolicyEngine) : Prop where
  last : m.r3Last = e.r3Last
  streams : m.db.tsnStreams = e.db.tsnStreams
  times : reservesFor dev m.writes = reservesFor dev e.writes

theorem SameReserves.view (h : SameReserves dev m e) : m.reserveView dev = e.reserveView dev := by
  simp only [PolicyEngine.reserveView, h.streams, h.times]

theorem sameReserves_refl (dev : Buf 128) (e : PolicyEngine) : SameReserves dev e e := ⟨rfl, rfl, rfl⟩

theorem sameReserves_applyR1 (dev : Buf 128) (e : PolicyEngine) (now : Int) (d : Buf 128) :
    SameReserves dev (e.applyR1 now d) e := by
  have hfire : SameReserves dev (e.fireR1 now d) e :=
    ⟨rfl, dbQosSave_tsnStreams _ _, reservesFor_concat dev e.writes (.raise d now)⟩
  unfold PolicyEngine.applyR1
  split
  · split
    · exact sameReserves_refl dev e
    · exact hfire
  · split
    · exact sameReserves_refl dev e
    · exact hfire

theorem sameReserves_pollAt (dev : Buf 128) (now : Int) (e : PolicyEngine) (i : Nat) :
    SameReserves dev (PolicyEngine.pollAt now e i) e := by
  unfold PolicyEngine.pollAt PolicyEngine.restoreR1
  split
  · exact sameReserves_refl dev e
  split
  · split
    · exact sameReserves_refl dev e
    split
    · exact ⟨rfl, dbQosSave_tsnStreams _ _, reservesFor_concat dev e.writes (.restore _ now)⟩
    · exact sameReserves_refl dev e
  · exact sameReserves_refl dev e

theorem reserveView_poll (dev : Buf 128) (now : Int) (e : PolicyEngine) :
    (e.poll now).reserveView dev = e.reserveView dev := by
  unfold PolicyEngine.poll
  generalize List.range e.r1.length = places
  induction places generalizing e with
  | nil => rfl
  | cons i places ih => exact (ih _).trans (sameReserves_pollAt dev now e i).view

theorem aiStream_id (d : Buf 128) : (aiStream d).streamId.chars = (aiStreamId d).chars :=
  Buf.copy_chars_of_lt (by have := (aiStreamId d).fits; omega)

theorem dbTsnLoad_error_iff (db : Db) (id : CStr) :
    (∃ err, dbTsnLoad db id = .error err) ↔ ¬ db.tsnStreams.Has id := by
  have hload := dbTsnLoad_toOption db id
  constructor
  · rintro ⟨err, herr⟩ hhas
    rw [herr] at hload
    have hnone : db.tsnStreams.find id = none := Option.map_eq_none_iff.mp hload.symm
    exact (Table.find_eq_none _).mp hnone hhas
  · intro hnot
    rw [(Table.find_eq_none _).mpr hnot] at hload
    cases hdb : dbTsnLoad db id with
    | error err => exact ⟨err, rfl⟩
    | ok s =>
        rw [hdb] at hload
        cases hload

/-- What `check_r3` does: a stream that does not exist yet is reserved. -/
theorem checkR3_eq (e : PolicyEngine) (now : Int) (d : Buf 128) (lat : Int32) :
    e.checkR3 now d lat =
      if lat < r3LatencyMs ∨ now - e.r3Last < r3CooldownS ∨ e.db.tsnStreams.Has (aiStreamId d).chars then e
      else { e.log (.reserve d now) with db := (dbTsnSave e.db (aiStream d)).2, r3Last := now } := by
  have hok : (dbTsnSave e.db (aiStream d)).1 = .ok := by rw [dbTsnSave_eq]
  unfold PolicyEngine.checkR3
  by_cases hlat : lat < r3LatencyMs
  · rw [if_pos hlat, if_pos (Or.inl hlat)]
  by_cases hcool : now - e.r3Last < r3CooldownS
  · rw [if_neg hlat, if_pos hcool, if_pos (Or.inr (Or.inl hcool))]
  rw [if_neg hlat, if_neg hcool]
  by_cases hhas : e.db.tsnStreams.Has (aiStreamId d).chars
  · rw [if_pos (Or.inr (Or.inr hhas))]
    cases hload : dbTsnLoad e.db (aiStreamId d).chars with
    | ok s => rfl
    | error err => exact absurd hhas ((dbTsnLoad_error_iff _ _).mp ⟨err, hload⟩)
  · obtain ⟨err, hload⟩ := (dbTsnLoad_error_iff _ _).mpr hhas
    rw [hload]
    dsimp only
    rw [if_pos hok]
    refine (if_neg ?_).symm
    rintro (h | h | h)
    · exact hlat h
    · exact hcool h
    · exact hhas h

theorem has_dbTsnSave (db : Db) (d : Buf 128) (id : CStr) :
    (dbTsnSave db (aiStream d)).2.tsnStreams.Has id ↔ (aiStreamId d).chars = id ∨ db.tsnStreams.Has id := by
  have hstatus : statusChecked (aiStream d).status := Or.inl rfl
  have hsave : (dbTsnSave db (aiStream d)).2.tsnStreams = db.tsnStreams.upsert (streamRow (aiStream d)) := by
    simp only [dbTsnSave_eq, hstatus, if_true]
  rw [hsave, Table.has_upsert, key_streamRow, aiStream_id]

theorem nodup_checkR3 (h : (e.r1.map RuleState.deviceId).Nodup) (now : Int) (d : Buf 128) (lat : Int32) :
    ((e.checkR3 now d lat).r1.map RuleState.deviceId).Nodup := by
  rw [checkR3_eq]
  split
  · exact h
  · exact h

/-- R3 leaves what R1 reads and writes. -/
theorem qosView_checkR3 (now : Int) (d : Buf 128) (lat : Int32) :
    (e.checkR3 now d lat).qosView dev = e.qosView dev := by
  rw [checkR3_eq]
  split
  · rfl
  · have hwrites := qosWritesFor_concat dev e.writes (.reserve d now)
    simp only [PolicyEngine.qosView, PolicyEngine.findR1, PolicyEngine.log, hwrites]

/-- A report of another device whose stream has another id does not show. -/
theorem reserveView_checkR3_other (hd : d ≠ dev) (hid : aiStreamId d ≠ aiStreamId dev) (now : Int)
    (lat : Int32) : (e.checkR3 now d lat).reserveView dev = e.reserveView dev := by
  rw [checkR3_eq]
  split
  · rfl
  · have hhas := has_dbTsnSave e.db d (aiStreamId dev).chars
    rw [or_iff_right fun heq => hid (Buf.chars_injective heq)] at hhas
    have htimes := reservesFor_concat dev e.writes (.reserve d now)
    simp only [hd, if_false] at htimes
    simp only [PolicyEngine.reserveView, PolicyEngine.log, hhas, htimes]

/-- A report of the device, when the common cooldown agrees with its own. -/
theorem reserveView_checkR3_self {now : Int} {lat : Int32}
    (hcool : r3LatencyMs ≤ lat →
      (now - e.r3Last < r3CooldownS ↔ now - lastReserve dev e.writes < r3CooldownS)) :
    (e.checkR3 now dev lat).reserveView dev = (e.reserveView dev).report now lat := by
  rw [checkR3_eq, ReserveView.report]
  by_cases hlat : lat < r3LatencyMs
  · rw [if_pos (Or.inl hlat), if_pos hlat]
  have hown : (e.reserveView dev).times.getLastD 0 = lastReserve dev e.writes := rfl
  have hreserved : (e.reserveView dev).reserved = true ↔ e.db.tsnStreams.Has (aiStreamId dev).chars :=
    decide_eq_true_iff
  rw [if_neg hlat, hown]
  have hsame := hcool (Int32.not_lt.mp hlat)
  by_cases hrun : now - lastReserve dev e.writes < r3CooldownS
  · rw [if_pos hrun, if_pos (Or.inr (Or.inl (hsame.mpr hrun)))]
  rw [if_neg hrun]
  by_cases hhas : e.db.tsnStreams.Has (aiStreamId dev).chars
  · rw [if_pos (Or.inr (Or.inr hhas)), if_pos (hreserved.mpr hhas)]
  · have hdue : ¬ (lat < r3LatencyMs ∨ now - e.r3Last < r3CooldownS ∨
        e.db.tsnStreams.Has (aiStreamId dev).chars) := by
      rintro (h | h | h)
      · exact hlat h
      · exact hrun (hsame.mp h)
      · exact hhas h
    rw [if_neg hdue, if_neg fun h => hhas (hreserved.mp h)]
    have hnow := (has_dbTsnSave e.db dev (aiStreamId dev).chars).mpr (Or.inl rfl)
    have htimes := reservesFor_concat dev e.writes (.reserve dev now)
    simp only [if_true] at htimes
    simp only [PolicyEngine.reserveView, PolicyEngine.log, hnow, htimes, decide_true]

/-! ### Whole runs -/

/-- The first half of `on_message`. -/
def PolicyEngine.onDetection (e : PolicyEngine) (now : Int) (m : PolicyMessage) : PolicyEngine :=
  match m.r1Device with
  | some d => e.applyR1 now d
  | none => e

theorem onMessage_eq (e : PolicyEngine) (now : Int) (m : PolicyMessage) :
    e.onMessage now m =
      if m.payload = [] then e
      else
        match m.r3Report with
        | some (d, lat) => (e.onDetection now m).checkR3 now d lat
        | none => e.onDetection now m :=
  rfl

theorem nodup_onDetection (h : (e.r1.map RuleState.deviceId).Nodup) (now : Int) (m : PolicyMessage) :
    ((e.onDetection now m).r1.map RuleState.deviceId).Nodup := by
  unfold PolicyEngine.onDetection
  split
  · exact nodup_applyR1 h now _
  · exact h

theorem sameReserves_onDetection (dev : Buf 128) (e : PolicyEngine) (now : Int) (m : PolicyMessage) :
    SameReserves dev (e.onDetection now m) e := by
  unfold PolicyEngine.onDetection
  split
  · exact sameReserves_applyR1 dev e now _
  · exact sameReserves_refl dev e

theorem qosView_onDetection (h : (e.r1.map RuleState.deviceId).Nodup) {m : PolicyMessage}
    (hroom : m.r1Device = some dev → e.findR1 dev ≠ none ∨ e.r1.length < policyMaxDevices) (now : Int) :
    (e.onDetection now m).qosView dev =
      if m.r1Device = some dev then (e.qosView dev).detect now dev else e.qosView dev := by
  unfold PolicyEngine.onDetection
  cases hdev : m.r1Device with
  | none => rfl
  | some d =>
      by_cases hd : d = dev
      · subst hd
        rw [if_pos rfl]
        exact qosView_applyR1_self h (hroom hdev) now
      · rw [if_neg (by simpa using hd)]
        exact qosView_applyR1_other h hd now

theorem nodup_step (h : (e.r1.map RuleState.deviceId).Nodup) (ev : PolicyEvent) :
    ((e.step ev).r1.map RuleState.deviceId).Nodup := by
  unfold PolicyEngine.step
  cases ev.input with
  | message m =>
      have hfirst := nodup_onDetection h ev.time m
      show ((e.onMessage ev.time m).r1.map RuleState.deviceId).Nodup
      rw [onMessage_eq]
      split
      · exact h
      · split
        · exact nodup_checkR3 hfirst ev.time _ _
        · exact hfirst
  | poll =>
      show ((e.poll ev.time).r1.map RuleState.deviceId).Nodup
      rw [PolicyEngine.poll, keys_foldl_pollAt]
      exact h

/-- With room in the table, R1 does for the device what its own rule would. -/
theorem qosView_step (h : (e.r1.map RuleState.deviceId).Nodup) {ev : PolicyEvent}
    (hroom : HasRoom dev e ev) : (e.step ev).qosView dev = (e.qosView dev).step dev ev := by
  unfold PolicyEngine.step QosView.step
  cases hinput : ev.input with
  | poll => exact qosView_poll h ev.time dev
  | message m =>
      have hm : m ∈ ev.message := by rw [PolicyEvent.message, hinput]; rfl
      have hfirst := qosView_onDetection h (hroom m hm) ev.time
      show (e.onMessage ev.time m).qosView dev = _
      rw [onMessage_eq]
      by_cases hpayload : m.payload = []
      · rw [if_pos hpayload]
        exact (if_neg fun hcond => hcond.1 hpayload).symm
      · rw [if_neg hpayload]
        simp only [ne_eq, hpayload, not_false_eq_true, true_and]
        rw [← hfirst]
        split
        · exact qosView_checkR3 ev.time _ _
        · rfl

/-- With a cooldown that agrees with its own, so does R3. -/
theorem reserveView_step {ev : PolicyEvent} (hown : OwnCooldown dev e ev) :
    (e.step ev).reserveView dev = (e.reserveView dev).step dev ev := by
  unfold PolicyEngine.step ReserveView.step
  cases hinput : ev.input with
  | poll => exact reserveView_poll dev ev.time e
  | message m =>
      have hm : m ∈ ev.message := by rw [PolicyEvent.message, hinput]; rfl
      have hfirst := sameReserves_onDetection dev e ev.time m
      show (e.onMessage ev.time m).reserveView dev = _
      rw [onMessage_eq, ← hfirst.view]
      by_cases hpayload : m.payload = []
      · simp only [hpayload, ne_eq, not_true_eq_false, false_and, if_true, if_false]
        rw [hfirst.view]
        split
        · rfl
        · rfl
      · rw [if_neg hpayload]
        cases hreport : m.r3Report with
        | none => simp only [hreport]
        | some report =>
            obtain ⟨d, lat⟩ := report
            have hcond := hown m hm (d, lat) hreport
            simp only [ne_eq, hpayload, not_false_eq_true, true_and, hreport] at hcond ⊢
            by_cases hd : d = dev
            · subst hd
              rw [if_pos rfl] at hcond ⊢
              apply reserveView_checkR3_self
              intro hlat
              rw [hfirst.last, lastReserve, hfirst.times]
              exact hcond hlat
            · rw [if_neg hd] at hcond ⊢
              exact reserveView_checkR3_other hd hcond ev.time lat

/-- At a message about another device neither rule does anything. -/
theorem step_of_not_concerns {ev : PolicyEvent} (h : ev.concerns dev = false) :
    (∀ v : QosView, v.step dev ev = v) ∧ ∀ v : ReserveView, v.step dev ev = v := by
  unfold PolicyEvent.concerns at h
  unfold QosView.step ReserveView.step
  cases hinput : ev.input with
  | poll =>
      rw [hinput] at h
      cases h
  | message m =>
      rw [hinput] at h
      have hnot : ¬ m.IsAbout dev := of_decide_eq_false h
      refine ⟨fun v => if_neg fun hcond => hnot (Or.inl hcond.2), fun v => ?_⟩
      dsimp only
      split
      · rename_i d lat hreport
        refine if_neg fun hcond => hnot (Or.inr ?_)
        rw [hreport, hcond.2]
        rfl
      · rfl

theorem qosView_run (db : Db) {evs : List PolicyEvent}
    (hroom : Run.AllSteps PolicyEngine.step (HasRoom dev) { db } evs) :
    (Run.run PolicyEngine.step { db } evs).qosView dev =
      Run.run (QosView.step dev) (PolicyEngine.qosView { db } dev) (evs.filter (PolicyEvent.concerns dev)) := by
  have hempty : ((PolicyEngine.r1 { db }).map RuleState.deviceId).Nodup := List.nodup_nil
  have hrun := Run.AllSteps.run_refines (fun e : PolicyEngine => e.qosView dev) id
    (fun e ev h _ => nodup_step h ev) (fun e ev h hok => qosView_step h hok) hempty hroom
  rw [Run.run_filter fun v ev h => (step_of_not_concerns h).1 v]
  rwa [List.map_id] at hrun

theorem reserveView_run (db : Db) {evs : List PolicyEvent}
    (hown : Run.AllSteps PolicyEngine.step (OwnCooldown dev) { db } evs) :
    (Run.run PolicyEngine.step { db } evs).reserveView dev =
      Run.run (ReserveView.step dev) (PolicyEngine.reserveView { db } dev)
        (evs.filter (PolicyEvent.concerns dev)) := by
  have hstep : ∀ e ev, True → OwnCooldown dev e ev →
      (e.step ev).reserveView dev = (e.reserveView dev).step dev (id ev) :=
    fun _ _ _ hok => reserveView_step hok
  have hrun := Run.AllSteps.run_refines (fun e : PolicyEngine => e.reserveView dev) id
    (fun _ _ _ _ => trivial) hstep trivial hown
  rw [Run.run_filter fun v ev h => (step_of_not_concerns h).2 v]
  rwa [List.map_id] at hrun

end

/-- Two runs with the same polls and the same messages about a device: where it
has room in the table, its QoS writes are the same, and where the common
cooldown agrees with its own, its reservations are. -/
theorem writes_independent (db : Db) (dev : Buf 128) (evs evs' : List PolicyEvent)
    (hsame : evs.filter (PolicyEvent.concerns dev) = evs'.filter (PolicyEvent.concerns dev)) :
    (Run.AllSteps PolicyEngine.step (HasRoom dev) { db } evs →
      Run.AllSteps PolicyEngine.step (HasRoom dev) { db } evs' →
        qosWritesFor dev (Run.run PolicyEngine.step { db } evs).writes =
          qosWritesFor dev (Run.run PolicyEngine.step { db } evs').writes) ∧
      (Run.AllSteps PolicyEngine.step (OwnCooldown dev) { db } evs →
        Run.AllSteps PolicyEngine.step (OwnCooldown dev) { db } evs' →
          reservesFor dev (Run.run PolicyEngine.step { db } evs).writes =
            reservesFor dev (Run.run PolicyEngine.step { db } evs').writes) := by
  constructor
  · intro hroom hroom'
    have hview : (Run.run PolicyEngine.step { db } evs).qosView dev =
        (Run.run PolicyEngine.step { db } evs').qosView dev := by
      rw [qosView_run db hroom, qosView_run db hroom', hsame]
    exact congrArg QosView.writes hview
  · intro hown hown'
    have hview : (Run.run PolicyEngine.step { db } evs).reserveView dev =
        (Run.run PolicyEngine.step { db } evs').reserveView dev := by
      rw [reserveView_run db hown, reserveView_run db hown', hsame]
    exact congrArg ReserveView.times hview

def detectionOf (id : CStr) : PolicyMessage :=
  ⟨"tsn/sensors/event/".toList ++ id, "\x7b\"pir\":1\x7d".toList⟩

def latencyOf (id : CStr) : PolicyMessage :=
  ⟨"tsn/metrics/".toList ++ id ++ "/latency".toList, "\x7b\"ms\":60\x7d".toList⟩

def cam : Buf 128 := Buf.copy 128 "cam-1".toList

/-- What one device sends, with the polls. -/
def camEvents : List PolicyEvent :=
  [⟨1000, .message (detectionOf cam.chars)⟩, ⟨1020, .message (latencyOf cam.chars)⟩, ⟨1301, .poll⟩]

/-- The same with a detection of another device before it and a report behind. -/
def sharedEvents : List PolicyEvent :=
  ⟨990, .message (detectionOf "cam-2".toList)⟩ :: camEvents ++
    [⟨1302, .message (latencyOf "cam-2".toList)⟩]

theorem cam_writes_independent :
    qosWritesFor cam (Run.run PolicyEngine.step { db := .empty } sharedEvents).writes =
        qosWritesFor cam (Run.run PolicyEngine.step { db := .empty } camEvents).writes ∧
      reservesFor cam (Run.run PolicyEngine.step { db := .empty } sharedEvents).writes =
        reservesFor cam (Run.run PolicyEngine.step { db := .empty } camEvents).writes := by
  have h := writes_independent .empty cam sharedEvents camEvents (by decide +kernel)
  exact ⟨h.1 (by decide +kernel) (by decide +kernel), h.2 (by decide +kernel) (by decide +kernel)⟩

/-- Detections of as many devices as the table has places. -/
def crowd : List PolicyEvent :=
  (List.range policyMaxDevices).map fun i =>
    ⟨1000, .message (detectionOf [Char.ofNat (48 + i)])⟩

/-- Behind the crowd a detection of a further device raises nothing. -/
theorem crowd_hides_detection :
    ¬ ∀ (db : Db) (dev : Buf 128) (evs evs' : List PolicyEvent),
      evs.filter (PolicyEvent.concerns dev) = evs'.filter (PolicyEvent.concerns dev) →
        qosWritesFor dev (Run.run PolicyEngine.step { db } evs).writes =
            qosWritesFor dev (Run.run PolicyEngine.step { db } evs').writes ∧
          reservesFor dev (Run.run PolicyEngine.step { db } evs).writes =
            reservesFor dev (Run.run PolicyEngine.step { db } evs').writes := by
  intro h
  have hcam := (h .empty cam (crowd ++ camEvents) camEvents (by decide +kernel)).1
  have hlost : qosWritesFor cam (Run.run PolicyEngine.step { db := .empty } (crowd ++ camEvents)).writes =
      [] := by decide +kernel
  have hraised : qosWritesFor cam (Run.run PolicyEngine.step { db := .empty } camEvents).writes =
      [.raise cam 1000, .restore cam 1301] := by decide +kernel
  rw [hlost, hraised] at hcam
  cases hcam

end Htsn.Ai
