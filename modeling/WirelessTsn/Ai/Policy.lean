import WirelessTsn.Lib.Run
import WirelessTsn.Lib.Scanf
import WirelessTsn.Db.Config
import WirelessTsn.Db.Streams

/-!
The policy engine (`rpi-ai/policy_engine.c`). Rule R1 raises the QoS of a
device at a detection and restores it after a calm time; rule R3 reserves a
stream for a device whose latency is high. R2 has limits but no code. What the
rules write is recorded with its time.

The callback and the main loop run in one thread. A message is handled at one
reading of the clock.
-/

namespace Htsn.Ai

open CText Keyed

/-! ### The state -/

/-- `rule_state_t`, without `calm_since`, which nothing reads. -/
structure RuleState where
  deviceId : Buf 128
  lastFired : Int
  active : Bool
  deriving DecidableEq

/-- `MAX_DEVICES` -/
def policyMaxDevices : Nat := 64

/-- `R1_COOLDOWN_S`, `R1_CALM_S`, `R3_LATENCY_MS` and `R3_COOLDOWN_S`. -/
def r1CooldownS : Int := 120
def r1CalmS : Int := 300
def r3LatencyMs : Int32 := 50
def r3CooldownS : Int := 300

inductive PolicyWrite where
  | raise (dev : Buf 128) (time : Int)
  | restore (dev : Buf 128) (time : Int)
  | reserve (dev : Buf 128) (time : Int)
  deriving DecidableEq

/-- `g_r1` up to its count, the one place of `g_r3_last` that is used, and the
store. -/
structure PolicyEngine where
  r1 : List RuleState := []
  r3Last : Int := 0
  db : Db := .empty
  writes : List PolicyWrite := []

variable {e : PolicyEngine}

/-- `find_r1` -/
def PolicyEngine.findR1 (e : PolicyEngine) (dev : Buf 128) : Option RuleState :=
  findBy RuleState.deviceId dev e.r1

def PolicyEngine.log (e : PolicyEngine) (w : PolicyWrite) : PolicyEngine :=
  { e with writes := e.writes ++ [w] }

/-! ### The rules -/

/-- The settings of a raise and of a restore. -/
def raisedQos (dev : Buf 128) : QosConfig where
  deviceId := Buf.copy 256 dev.chars
  priority := 5
  trafficClass := 3
  bandwidthKbps := 50000
  latencyMs := 5
  preemption := 0

def restoredQos (dev : Buf 128) : QosConfig where
  deviceId := Buf.copy 256 dev.chars
  priority := 3
  trafficClass := 1
  bandwidthKbps := 10000
  latencyMs := 50
  preemption := 0

/-- The raise of `apply_r1`: the settings are saved and the device's place says
so. A device that is not in the table gets the next place of it. -/
def PolicyEngine.fireR1 (e : PolicyEngine) (now : Int) (dev : Buf 128) : PolicyEngine :=
  { e.log (.raise dev now) with
    db := (dbQosSave e.db (raisedQos dev)).2
    r1 := upsertBy RuleState.deviceId ⟨dev, now, true⟩ e.r1 }

/-- `apply_r1` -/
def PolicyEngine.applyR1 (e : PolicyEngine) (now : Int) (dev : Buf 128) : PolicyEngine :=
  match e.findR1 dev with
  | some s => if s.active = true ∧ now - s.lastFired < r1CooldownS then e else e.fireR1 now dev
  | none => if e.r1.length ≥ policyMaxDevices then e else e.fireR1 now dev

def RuleState.idle (s : RuleState) : RuleState := { s with active := false }

/-- The restore of `restore_r1`. -/
def PolicyEngine.lowerR1 (e : PolicyEngine) (now : Int) (dev : Buf 128) : PolicyEngine :=
  { e.log (.restore dev now) with
    db := (dbQosSave e.db (restoredQos dev)).2
    r1 := modifyBy RuleState.deviceId dev RuleState.idle e.r1 }

/-- `restore_r1` -/
def PolicyEngine.restoreR1 (e : PolicyEngine) (now : Int) (dev : Buf 128) : PolicyEngine :=
  match e.findR1 dev with
  | none => e
  | some s => if s.active = true then e.lowerR1 now dev else e

/-- The stream id of a device: what `snprintf` writes into 128 bytes. -/
def aiStreamId (dev : Buf 128) : Buf 128 := Buf.copy 128 ("ai-".toList ++ dev.chars)

def aiStream (dev : Buf 128) : Stream where
  streamId := Buf.copy 256 (aiStreamId dev).chars
  name := Buf.copy 256 "AI latency stream".toList
  talker := Buf.copy 256 dev.chars
  vlanId := 100
  maxLatencyNs := 2000000
  maxIntervalNs := 200000
  priority := 5
  dataFramePrio := 5
  status := streamConfigured
  comment := .empty
  listeners := Slots.empty.push (Buf.copy 256 "rpi-cnc".toList)
  listenerAll := false

/-- `check_r3`. The cooldown is that of all devices together. -/
def PolicyEngine.checkR3 (e : PolicyEngine) (now : Int) (dev : Buf 128) (latencyMs : Int32) :
    PolicyEngine :=
  if latencyMs < r3LatencyMs then e
  else if now - e.r3Last < r3CooldownS then e
  else
    match dbTsnLoad e.db (aiStreamId dev).chars with
    | .ok _ => e
    | .error _ =>
        let saved := dbTsnSave e.db (aiStream dev)
        if saved.1 = .ok then { e.log (.reserve dev now) with db := saved.2, r3Last := now }
        else { e with db := saved.2 }

/-! ### Messages -/

structure PolicyMessage where
  topic : CStr
  payload : CStr
  deriving DecidableEq

/-- The text behind the last `c`. -/
def behindLast (c : Char) (s : CStr) : Option CStr :=
  if c ∈ s then some (s.reverse.takeWhile fun x => x ≠ c).reverse else none

/-- The device a message is a detection for. -/
def PolicyMessage.r1Device (m : PolicyMessage) : Option (Buf 128) :=
  if strstr "tsn/sensors/event".toList m.topic ≠ none ∧
      (strstr "\"ai_person\"".toList m.payload ≠ none ∨ strstr "\"pir\"".toList m.payload ≠ none) then
    let dev : Buf 128 := Buf.copy 128 ((behindLast '/' m.topic).getD [])
    if dev.chars = [] then none else some dev
  else none

/-- The level behind `metrics/`; one that does not fit counts as none. -/
def PolicyMessage.metricsDevice (m : PolicyMessage) : CStr :=
  match strstr "metrics/".toList m.topic with
  | none => []
  | some s =>
      let level := (s.drop 8).takeWhile fun c => c ≠ '/'
      if level.length < 128 then level else []

/-- The device whose latency a message reports, with the value. -/
def PolicyMessage.r3Report (m : PolicyMessage) : Option (Buf 128 × Int32) :=
  if strstr "tsn/metrics/".toList m.topic ≠ none ∧ strstr "latency".toList m.topic ≠ none then
    let lat := ((behindLast ':' m.payload).map atoi).getD 0
    if m.metricsDevice ≠ [] ∧ lat > 0 then some (Buf.copy 128 m.metricsDevice, lat) else none
  else none

/-- `on_message` -/
def PolicyEngine.onMessage (e : PolicyEngine) (now : Int) (m : PolicyMessage) : PolicyEngine :=
  if m.payload = [] then e
  else
    let e :=
      match m.r1Device with
      | some dev => e.applyR1 now dev
      | none => e
    match m.r3Report with
    | some (dev, lat) => e.checkR3 now dev lat
    | none => e

/-- One place of the table in the loop of `main`. -/
def PolicyEngine.pollAt (now : Int) (e : PolicyEngine) (i : Nat) : PolicyEngine :=
  match e.r1[i]? with
  | none => e
  | some s => if s.active = true ∧ now - s.lastFired > r1CalmS then e.restoreR1 now s.deviceId else e

/-- The periodic part of `main`. A restore adds and removes no place. -/
def PolicyEngine.poll (e : PolicyEngine) (now : Int) : PolicyEngine :=
  (List.range e.r1.length).foldl (PolicyEngine.pollAt now) e

inductive PolicyInput where
  | message (m : PolicyMessage)
  | poll
  deriving DecidableEq

/-- A message or a pass of the main loop, at its time. -/
structure PolicyEvent where
  time : Int
  input : PolicyInput
  deriving DecidableEq

def PolicyEngine.step (e : PolicyEngine) (ev : PolicyEvent) : PolicyEngine :=
  match ev.input with
  | .message m => e.onMessage ev.time m
  | .poll => e.poll ev.time

/-! ### What the writes must look like -/

/-- The time of the last raise of a device. -/
def lastRaise (dev : Buf 128) (ws : List PolicyWrite) : Option Int :=
  ws.foldl (fun t w => match w with | .raise d now => if d = dev then some now else t | _ => t) none

/-- Whether the last of the raises and restores of a device is a raise. -/
def isRaised (dev : Buf 128) (ws : List PolicyWrite) : Bool :=
  ws.foldl (fun b w =>
    match w with
    | .raise d _ => if d = dev then true else b
    | .restore d _ => if d = dev then false else b
    | .reserve _ _ => b) false

def PolicyWrite.IsRaise (dev : Buf 128) : PolicyWrite → Prop
  | .raise d _ => d = dev
  | _ => False

/-- What rule R1 may write next. -/
def WriteAllowed (before : List PolicyWrite) : PolicyWrite → Prop
  | .raise dev t => ∀ t', lastRaise dev before = some t' → r1CooldownS ≤ t - t'
  | .restore dev t =>
      isRaised dev before = true ∧ ∃ t', lastRaise dev before = some t' ∧ r1CalmS < t - t'
  | .reserve _ _ => True

/-- Two successive raises of a device are a cooldown apart, a restore follows
its last raise by more than the calm time, and between two restores the device
is raised. -/
structure RateLimited (ws : List PolicyWrite) : Prop where
  raises : ∀ before dev t mid t' after, ws = before ++ .raise dev t :: (mid ++ .raise dev t' :: after) →
    (∀ w ∈ mid, ¬ w.IsRaise dev) → 120 ≤ t' - t
  restores : ∀ before dev t after, ws = before ++ .restore dev t :: after →
    ∃ front t' back, before = front ++ .raise dev t' :: back ∧ (∀ w ∈ back, ¬ w.IsRaise dev) ∧ 300 < t - t'
  between : ∀ before dev t mid t' after,
    ws = before ++ .restore dev t :: (mid ++ .restore dev t' :: after) → ∃ w ∈ mid, w.IsRaise dev

section

variable {ws mid : List PolicyWrite} {dev : Buf 128} {w : PolicyWrite}

theorem lastRaise_concat (dev : Buf 128) (ws : List PolicyWrite) (w : PolicyWrite) :
    lastRaise dev (ws ++ [w]) =
      match w with | .raise d now => if d = dev then some now else lastRaise dev ws | _ => lastRaise dev ws := by
  rw [lastRaise, List.foldl_append]
  rfl

theorem isRaised_concat (dev : Buf 128) (ws : List PolicyWrite) (w : PolicyWrite) :
    isRaised dev (ws ++ [w]) =
      match w with
      | .raise d _ => if d = dev then true else isRaised dev ws
      | .restore d _ => if d = dev then false else isRaised dev ws
      | .reserve _ _ => isRaised dev ws := by
  rw [isRaised, List.foldl_append]
  rfl

/-- Without a raise in between, the last raise stays the last. -/
theorem lastRaise_append (h : ∀ w ∈ mid, ¬ w.IsRaise dev) (ws : List PolicyWrite) :
    lastRaise dev (ws ++ mid) = lastRaise dev ws := by
  induction mid using List.reverseRecOn with
  | nil => rw [List.append_nil]
  | append_singleton mid w ih =>
      have hw := h w (by simp)
      rw [← List.append_assoc, lastRaise_concat, ih fun w' hw' => h w' (by simp [hw'])]
      cases w with
      | raise d now => exact if_neg hw
      | restore d now | reserve d now => rfl

/-- Without a raise in between, a restored device stays restored. -/
theorem isRaised_append (h : ∀ w ∈ mid, ¬ w.IsRaise dev) (hws : isRaised dev ws = false) :
    isRaised dev (ws ++ mid) = false := by
  induction mid using List.reverseRecOn with
  | nil => rwa [List.append_nil]
  | append_singleton mid w ih =>
      have hw := h w (by simp)
      have hmid := ih fun w' hw' => h w' (by simp [hw'])
      rw [← List.append_assoc, isRaised_concat, hmid]
      cases w with
      | raise d now => exact if_neg hw
      | restore d now => exact ite_self false
      | reserve d now => rfl

theorem exists_of_lastRaise {t : Int} (h : lastRaise dev ws = some t) :
    ∃ front back, ws = front ++ .raise dev t :: back ∧ ∀ w ∈ back, ¬ w.IsRaise dev := by
  induction ws using List.reverseRecOn with
  | nil => cases h
  | append_singleton ws w ih =>
      by_cases hw : w.IsRaise dev
      · cases w with
        | raise d now =>
            have hd : d = dev := hw
            rw [lastRaise_concat] at h
            simp only [hd, if_true, Option.some_inj] at h
            subst hd h
            exact ⟨ws, [], rfl, by simp⟩
        | restore d now | reserve d now => exact absurd hw id
      · have hlast : lastRaise dev ws = some t := by
          rw [← h]
          exact (@lastRaise_append [w] dev (by simpa using hw) ws).symm
        obtain ⟨front, back, rfl, hback⟩ := ih hlast
        refine ⟨front, back ++ [w], by simp, ?_⟩
        intro w' hw'
        rcases List.mem_append.mp hw' with hw' | hw'
        · exact hback w' hw'
        · rwa [List.mem_singleton.mp hw']

theorem rateLimited_of_allowed (h : Run.AllAfter WriteAllowed ws) : RateLimited ws := by
  refine ⟨?_, ?_, ?_⟩
  · intro before dev t mid t' after hws hmid
    have hsplit : ws = (before ++ .raise dev t :: mid) ++ .raise dev t' :: after := by simp [hws]
    have hallowed := h _ _ _ hsplit
    apply hallowed t
    have hmid' := lastRaise_append hmid (before ++ [.raise dev t])
    rw [List.append_assoc, List.singleton_append] at hmid'
    rw [hmid', lastRaise_concat]
    exact if_pos rfl
  · intro before dev t after hws
    obtain ⟨-, t', hlast, hcalm⟩ := h _ _ _ hws
    obtain ⟨front, back, hbefore, hback⟩ := exists_of_lastRaise hlast
    exact ⟨front, t', back, hbefore, hback, hcalm⟩
  · intro before dev t mid t' after hws
    have hsplit : ws = (before ++ .restore dev t :: mid) ++ .restore dev t' :: after := by simp [hws]
    obtain ⟨hraised, -⟩ := h _ _ _ hsplit
    by_contra hnone
    simp only [not_exists, not_and] at hnone
    have hrestored : isRaised dev (before ++ [.restore dev t]) = false := by
      rw [isRaised_concat]
      exact if_pos rfl
    have hmid := isRaised_append hnone hrestored
    rw [List.append_assoc, List.singleton_append] at hmid
    rw [hmid] at hraised
    cases hraised

end

/-! ### The table keeps track of the writes -/

/-- At the time `now`: what the table says of a device is what was written
for it. -/
structure Tracked (now : Int) (e : PolicyEngine) : Prop where
  nodup : (e.r1.map RuleState.deviceId).Nodup
  size : e.r1.length ≤ policyMaxDevices
  absent : ∀ dev, e.findR1 dev = none → lastRaise dev e.writes = none
  fired : ∀ dev s, e.findR1 dev = some s →
    lastRaise dev e.writes = some s.lastFired ∧ isRaised dev e.writes = s.active
  calm : ∀ dev s, e.findR1 dev = some s → s.active = false → r1CalmS < now - s.lastFired
  allowed : Run.AllAfter WriteAllowed e.writes

theorem tracked_init (now : Int) (db : Db) : Tracked now { db } := by
  refine ⟨List.nodup_nil, Nat.zero_le _, fun dev _ => rfl, ?_, ?_, Run.allAfter_nil⟩
  · intro dev s h
    cases h
  · intro dev s h
    cases h

section

variable {now now' : Int} {dev : Buf 128}

theorem tracked_later (h : Tracked now e) (hle : now ≤ now') : Tracked now' e := by
  refine ⟨h.nodup, h.size, h.absent, h.fired, fun dev s hs hidle => ?_, h.allowed⟩
  have hcalm := h.calm dev s hs hidle
  omega

theorem findR1_fireR1 (h : (e.r1.map RuleState.deviceId).Nodup) (now : Int) (dev d : Buf 128) :
    (e.fireR1 now dev).findR1 d = if dev = d then some ⟨dev, now, true⟩ else e.findR1 d :=
  findBy_upsertBy h d

/-- A raise that is allowed, of a device that has a place or gets one. -/
theorem tracked_fire (h : Tracked now e) (hallowed : WriteAllowed e.writes (.raise dev now))
    (hroom : e.findR1 dev = none → e.r1.length < policyMaxDevices) : Tracked now (e.fireR1 now dev) := by
  have hfind := findR1_fireR1 h.nodup now dev
  have hwrites : (e.fireR1 now dev).writes = e.writes ++ [.raise dev now] := rfl
  refine ⟨?_, ?_, ?_, ?_, ?_, ?_⟩
  · exact nodup_upsertBy h.nodup
  · show (upsertBy RuleState.deviceId ⟨dev, now, true⟩ e.r1).length ≤ policyMaxDevices
    by_cases hkey : HasKey RuleState.deviceId dev e.r1
    · rw [length_upsertBy_of_hasKey hkey]
      exact h.size
    · rw [upsertBy_of_not_hasKey hkey, List.length_append]
      exact hroom (findBy_eq_none.mpr hkey)
  · intro d hd
    rw [hfind] at hd
    split at hd
    · cases hd
    · rename_i hne
      rw [hwrites, lastRaise_concat]
      exact (if_neg hne).trans (h.absent d hd)
  · intro d s hs
    rw [hfind] at hs
    rw [hwrites, lastRaise_concat, isRaised_concat]
    split at hs
    · rename_i heq
      obtain rfl := Option.some_inj.mp hs
      exact ⟨if_pos heq, if_pos heq⟩
    · rename_i hne
      simp only [hne, if_false]
      exact h.fired d s hs
  · intro d s hs hidle
    rw [hfind] at hs
    split at hs
    · obtain rfl := Option.some_inj.mp hs
      cases hidle
    · exact h.calm d s hs hidle
  · rw [hwrites, Run.allAfter_concat]
    exact ⟨h.allowed, hallowed⟩

theorem tracked_applyR1 (h : Tracked now e) (dev : Buf 128) : Tracked now (e.applyR1 now dev) := by
  unfold PolicyEngine.applyR1
  split
  · rename_i s hs
    split
    · exact h
    · rename_i hcool
      refine tracked_fire h ?_ fun hnone => ?_
      · intro t' ht'
        rw [(h.fired dev s hs).1, Option.some_inj] at ht'
        subst ht'
        cases hactive : s.active with
        | true =>
            simp only [hactive, true_and] at hcool
            omega
        | false =>
            have hcalm := h.calm dev s hs hactive
            simp only [r1CalmS, r1CooldownS] at hcalm ⊢
            omega
      · rw [hs] at hnone
        cases hnone
  · rename_i hnone
    split
    · exact h
    · rename_i hroom
      refine tracked_fire h ?_ fun _ => by omega
      intro t' ht'
      rw [h.absent dev hnone] at ht'
      cases ht'

theorem findR1_lowerR1 (h : (e.r1.map RuleState.deviceId).Nodup) (now : Int) (dev d : Buf 128) :
    (e.lowerR1 now dev).findR1 d = if d = dev then (e.findR1 d).map RuleState.idle else e.findR1 d := by
  have hmap : (e.lowerR1 now dev).findR1 d =
      (e.findR1 d).map fun r => if r.deviceId = dev then r.idle else r := by
    have hr1 : (e.lowerR1 now dev).r1 = modifyBy RuleState.deviceId dev RuleState.idle e.r1 := rfl
    rw [PolicyEngine.findR1, hr1, modifyBy_eq_map h]
    exact findBy_map _ (fun r => by split <;> rfl) d e.r1
  rw [hmap]
  cases hfind : e.findR1 d with
  | none => split <;> rfl
  | some s =>
      have hid : s.deviceId = d := ((findBy_eq_some h).mp hfind).2
      rw [Option.map_some, hid]
      split <;> rfl

theorem keys_lowerR1 (e : PolicyEngine) (now : Int) (dev : Buf 128) :
    (e.lowerR1 now dev).r1.map RuleState.deviceId = e.r1.map RuleState.deviceId :=
  @modifyBy_keys _ _ _ RuleState.deviceId dev RuleState.idle (fun _ => rfl) e.r1

/-- A restore of an active device whose calm time is over. -/
theorem tracked_lower (h : Tracked now e) {s : RuleState} (hs : e.findR1 dev = some s)
    (hactive : s.active = true) (hcalm : r1CalmS < now - s.lastFired) : Tracked now (e.lowerR1 now dev) := by
  have hfind := findR1_lowerR1 h.nodup now dev
  have hwrites : (e.lowerR1 now dev).writes = e.writes ++ [.restore dev now] := rfl
  refine ⟨?_, ?_, ?_, ?_, ?_, ?_⟩
  · rw [keys_lowerR1]
    exact h.nodup
  · have hlen : (e.lowerR1 now dev).r1.length = e.r1.length := length_modifyBy dev _ e.r1
    rw [hlen]
    exact h.size
  · intro d hd
    rw [hwrites, lastRaise_concat]
    refine h.absent d ?_
    rw [hfind] at hd
    split at hd
    · exact Option.map_eq_none_iff.mp hd
    · exact hd
  · intro d r hr
    rw [hfind] at hr
    rw [hwrites, lastRaise_concat, isRaised_concat]
    split at hr
    · rename_i hd
      subst hd
      obtain ⟨r', hr', rfl⟩ := Option.map_eq_some_iff.mp hr
      exact ⟨(h.fired d r' hr').1, if_pos rfl⟩
    · rename_i hd
      simp only [Ne.symm hd, if_false]
      exact h.fired d r hr
  · intro d r hr hidle
    rw [hfind] at hr
    split at hr
    · rename_i hd
      subst hd
      obtain rfl := Option.some_inj.mp ((congrArg (Option.map RuleState.idle) hs).symm.trans hr)
      exact hcalm
    · exact h.calm d r hr hidle
  · rw [hwrites, Run.allAfter_concat]
    refine ⟨h.allowed, ?_, s.lastFired, (h.fired dev s hs).1, hcalm⟩
    rw [(h.fired dev s hs).2, hactive]

theorem tracked_restoreR1 (h : Tracked now e)
    (hcalm : ∀ s, e.findR1 dev = some s → r1CalmS < now - s.lastFired) :
    Tracked now (e.restoreR1 now dev) := by
  unfold PolicyEngine.restoreR1
  split
  · exact h
  · rename_i s hs
    split
    · rename_i hactive
      exact tracked_lower h hs hactive (hcalm s hs)
    · exact h

/-- What concerns R1 is untouched. -/
theorem tracked_of_reserve {m : PolicyEngine} (h : Tracked now e) (hr1 : m.r1 = e.r1)
    (hwrites : m.writes = e.writes ∨ m.writes = e.writes ++ [.reserve dev now]) : Tracked now m := by
  have hfind : ∀ d, m.findR1 d = e.findR1 d := fun d => by rw [PolicyEngine.findR1, hr1]; rfl
  have hlast : ∀ d, lastRaise d m.writes = lastRaise d e.writes := by
    intro d
    rcases hwrites with hw | hw
    · rw [hw]
    · rw [hw, lastRaise_concat]
  have hraised : ∀ d, isRaised d m.writes = isRaised d e.writes := by
    intro d
    rcases hwrites with hw | hw
    · rw [hw]
    · rw [hw, isRaised_concat]
  refine ⟨hr1 ▸ h.nodup, hr1 ▸ h.size, ?_, ?_, ?_, ?_⟩
  · intro d hd
    rw [hlast]
    exact h.absent d (hfind d ▸ hd)
  · intro d s hs
    rw [hlast, hraised]
    exact h.fired d s (hfind d ▸ hs)
  · intro d s hs
    exact h.calm d s (hfind d ▸ hs)
  · rcases hwrites with hw | hw
    · rw [hw]
      exact h.allowed
    · rw [hw, Run.allAfter_concat]
      exact ⟨h.allowed, trivial⟩

theorem tracked_checkR3 (h : Tracked now e) (dev : Buf 128) (lat : Int32) :
    Tracked now (e.checkR3 now dev lat) := by
  unfold PolicyEngine.checkR3
  split
  · exact h
  split
  · exact h
  split
  · exact h
  dsimp only
  split
  · exact tracked_of_reserve h rfl (Or.inr rfl)
  · exact @tracked_of_reserve e now dev _ h rfl (Or.inl rfl)

theorem tracked_onMessage (h : Tracked now e) (m : PolicyMessage) : Tracked now (e.onMessage now m) := by
  unfold PolicyEngine.onMessage
  split
  · exact h
  · dsimp only
    have hfirst : Tracked now (match m.r1Device with | some dev => e.applyR1 now dev | none => e) := by
      split
      · exact tracked_applyR1 h _
      · exact h
    split
    · exact tracked_checkR3 hfirst _ _
    · exact hfirst

theorem tracked_pollAt (h : Tracked now e) (i : Nat) : Tracked now (PolicyEngine.pollAt now e i) := by
  unfold PolicyEngine.pollAt
  split
  · exact h
  rename_i s hi
  split
  · rename_i hcond
    refine tracked_restoreR1 h fun s' hs' => ?_
    have hs : e.findR1 s.deviceId = some s :=
      (findBy_eq_some h.nodup).mpr ⟨List.mem_of_getElem? hi, rfl⟩
    rw [hs, Option.some_inj] at hs'
    subst hs'
    exact hcond.2
  · exact h

theorem tracked_poll (h : Tracked now e) : Tracked now (e.poll now) := by
  unfold PolicyEngine.poll
  generalize List.range e.r1.length = places
  induction places generalizing e with
  | nil => exact h
  | cons i places ih => exact ih (tracked_pollAt h i)

theorem tracked_step (h : Tracked now e) (ev : PolicyEvent) (hle : now ≤ ev.time) :
    Tracked ev.time (e.step ev) := by
  have hlater := tracked_later h hle
  unfold PolicyEngine.step
  cases ev.input with
  | message m => exact tracked_onMessage hlater m
  | poll => exact tracked_poll hlater

/-- Along a run whose clock does not go back. -/
theorem tracked_run {evs : List PolicyEvent} (h : Tracked now e)
    (hclock : (now :: evs.map PolicyEvent.time).Pairwise (· ≤ ·)) :
    ∃ now', Tracked now' (Run.run PolicyEngine.step e evs) := by
  induction evs generalizing e now with
  | nil => exact ⟨now, h⟩
  | cons ev evs ih =>
      obtain ⟨hfirst, hrest⟩ := List.pairwise_cons.mp hclock
      exact ih (tracked_step h ev (hfirst _ (by simp))) hrest

end

/-! ### The writes and the settings -/

/-- Settings of a device that does not exist bring it into the store. -/
theorem dbQosSave_has (db : Db) (cfg : QosConfig) : (dbQosSave db cfg).2.devices.Has cfg.deviceId.chars := by
  have hstub : (db.devices.insertOrIgnore (stubDevice cfg.deviceId)).Has cfg.deviceId.chars := by
    unfold Table.insertOrIgnore
    split
    · rename_i hhas
      exact hhas
    · exact ⟨stubDevice cfg.deviceId, by simp, rfl⟩
  simp only [dbQosSave, prepares_eq, Sql.namesIndex, Bool.not_false, if_true, hstub]

theorem dbQosSave_eq (db : Db) (cfg : QosConfig) :
    (dbQosSave db cfg).2 =
      { db with
        devices := db.devices.insertOrIgnore (stubDevice cfg.deviceId)
        qosConfigs := db.qosConfigs.upsert cfg } := by
  have hhas := dbQosSave_has db cfg
  simp only [dbQosSave, prepares_eq, Sql.namesIndex, Bool.not_false, if_true] at hhas ⊢
  split
  · rfl
  · rename_i hnone
    rw [if_neg hnone] at hhas
    exact absurd hhas hnone

/-- The settings of a device after a save, its own and another's. -/
theorem qosRow_dbQosSave (db : Db) (cfg : QosConfig) (k : CStr) :
    (dbQosSave db cfg).2.qosConfigs.find k =
      if cfg.deviceId.chars = k then some cfg else db.qosConfigs.find k := by
  rw [dbQosSave_eq]
  exact db.qosConfigs.find_upsert cfg k

/-- The rows of other devices are untouched. -/
theorem device_dbQosSave {db : Db} {cfg : QosConfig} {k : CStr} (h : cfg.deviceId.chars ≠ k) :
    (dbQosSave db cfg).2.devices.find k = db.devices.find k := by
  rw [dbQosSave_eq]
  exact Table.find_insertOrIgnore h

/-- The settings of a device behind a write of the engine. -/
def rowAfter (dev : Buf 128) (row : Option QosConfig) : PolicyWrite → Option QosConfig
  | .raise d _ => if d = dev then some (raisedQos dev) else row
  | .restore d _ => if d = dev then some (restoredQos dev) else row
  | .reserve _ _ => row

def PolicyEngine.qosRow (e : PolicyEngine) (dev : Buf 128) : Option QosConfig :=
  e.db.qosConfigs.find dev.chars

/-- `m` comes from `e` by writes that are recorded, and these made the settings
of every device what they are. -/
def WritesRows (e m : PolicyEngine) : Prop :=
  ∃ ws, m.writes = e.writes ++ ws ∧ ∀ dev, m.qosRow dev = ws.foldl (rowAfter dev) (e.qosRow dev)

section

variable {e m n : PolicyEngine} {now : Int} {dev : Buf 128}

theorem WritesRows.refl (e : PolicyEngine) : WritesRows e e :=
  ⟨[], (List.append_nil _).symm, fun _ => rfl⟩

theorem WritesRows.trans (hm : WritesRows e m) (hn : WritesRows m n) : WritesRows e n := by
  obtain ⟨ws, hws, hrows⟩ := hm
  obtain ⟨vs, hvs, hrows'⟩ := hn
  refine ⟨ws ++ vs, ?_, fun dev => ?_⟩
  · rw [hvs, hws, List.append_assoc]
  · rw [hrows', hrows, List.foldl_append]

/-- One write of the engine. -/
theorem WritesRows.single {w : PolicyWrite} (hwrites : m.writes = e.writes ++ [w])
    (hrows : ∀ dev, m.qosRow dev = rowAfter dev (e.qosRow dev) w) : WritesRows e m :=
  ⟨[w], hwrites, hrows⟩

theorem qosId_chars (dev : Buf 128) : (Buf.copy 256 dev.chars).chars = dev.chars :=
  Buf.copy_chars_of_lt (dev.fits.trans (by decide))

/-- Settings saved under the id of a device. -/
theorem qosRow_save (cfg : QosConfig) {d : Buf 128} (hid : cfg.deviceId = Buf.copy 256 d.chars) (db : Db)
    (dev : Buf 128) :
    (dbQosSave db cfg).2.qosConfigs.find dev.chars =
      if d = dev then some cfg else db.qosConfigs.find dev.chars := by
  rw [qosRow_dbQosSave, hid, qosId_chars]
  simp only [Buf.chars_injective.eq_iff]

theorem writesRows_fireR1 (e : PolicyEngine) (now : Int) (d : Buf 128) : WritesRows e (e.fireR1 now d) := by
  refine WritesRows.single (w := .raise d now) rfl fun dev => ?_
  refine (qosRow_save (raisedQos d) rfl e.db dev).trans ?_
  rw [rowAfter]
  split
  · rename_i heq
    rw [heq]
  · rfl

theorem writesRows_applyR1 (e : PolicyEngine) (now : Int) (d : Buf 128) : WritesRows e (e.applyR1 now d) := by
  unfold PolicyEngine.applyR1
  split
  · split
    · exact .refl e
    · exact writesRows_fireR1 e now d
  · split
    · exact .refl e
    · exact writesRows_fireR1 e now d

theorem writesRows_restoreR1 (e : PolicyEngine) (now : Int) (d : Buf 128) :
    WritesRows e (e.restoreR1 now d) := by
  have hlower : WritesRows e (e.lowerR1 now d) := by
    refine WritesRows.single (w := .restore d now) rfl fun dev => ?_
    refine (qosRow_save (restoredQos d) rfl e.db dev).trans ?_
    rw [rowAfter]
    split
    · rename_i heq
      rw [heq]
    · rfl
  unfold PolicyEngine.restoreR1
  split
  · exact .refl e
  split
  · exact hlower
  · exact .refl e

/-- R3 writes streams: devices and settings stay. -/
theorem rows_checkR3 (e : PolicyEngine) (now : Int) (d : Buf 128) (lat : Int32) :
    (e.checkR3 now d lat).db.devices = e.db.devices ∧
      (e.checkR3 now d lat).db.qosConfigs = e.db.qosConfigs := by
  unfold PolicyEngine.checkR3
  split
  · exact ⟨rfl, rfl⟩
  split
  · exact ⟨rfl, rfl⟩
  split
  · exact ⟨rfl, rfl⟩
  · simp only [dbTsnSave_eq, if_true]
    exact ⟨trivial, trivial⟩

theorem writesRows_checkR3 (e : PolicyEngine) (now : Int) (d : Buf 128) (lat : Int32) :
    WritesRows e (e.checkR3 now d lat) := by
  have hrow : ∀ dev, (e.checkR3 now d lat).qosRow dev = e.qosRow dev := by
    intro dev
    rw [PolicyEngine.qosRow, (rows_checkR3 e now d lat).2]
    rfl
  have hwrites : (e.checkR3 now d lat).writes = e.writes ∨
      (e.checkR3 now d lat).writes = e.writes ++ [.reserve d now] := by
    unfold PolicyEngine.checkR3
    split
    · exact Or.inl rfl
    split
    · exact Or.inl rfl
    split
    · exact Or.inl rfl
    dsimp only
    split
    · exact Or.inr rfl
    · exact Or.inl rfl
  rcases hwrites with hsame | hreserve
  · exact ⟨[], by rw [hsame, List.append_nil], hrow⟩
  · exact WritesRows.single hreserve hrow

theorem writesRows_onMessage (e : PolicyEngine) (now : Int) (m : PolicyMessage) :
    WritesRows e (e.onMessage now m) := by
  unfold PolicyEngine.onMessage
  split
  · exact .refl e
  · cases m.r1Device with
    | none =>
        dsimp only
        split
        · exact writesRows_checkR3 _ now _ _
        · exact .refl e
    | some dev =>
        have hfirst := writesRows_applyR1 e now dev
        dsimp only
        split
        · exact hfirst.trans (writesRows_checkR3 _ now _ _)
        · exact hfirst

theorem writesRows_poll (e : PolicyEngine) (now : Int) : WritesRows e (e.poll now) := by
  have hat : ∀ (e : PolicyEngine) (i : Nat), WritesRows e (PolicyEngine.pollAt now e i) := by
    intro e i
    unfold PolicyEngine.pollAt
    split
    · exact .refl e
    split
    · exact writesRows_restoreR1 e now _
    · exact .refl e
  unfold PolicyEngine.poll
  generalize List.range e.r1.length = places
  induction places generalizing e with
  | nil => exact .refl e
  | cons i places ih => exact (hat e i).trans (ih _)

theorem writesRows_step (e : PolicyEngine) (ev : PolicyEvent) : WritesRows e (e.step ev) := by
  unfold PolicyEngine.step
  cases ev.input with
  | message m => exact writesRows_onMessage e ev.time m
  | poll => exact writesRows_poll e ev.time

theorem writesRows_run (e : PolicyEngine) (evs : List PolicyEvent) :
    WritesRows e (Run.run PolicyEngine.step e evs) :=
  @Run.run_invariant _ _ PolicyEngine.step (WritesRows e) (fun _ ev h => h.trans (writesRows_step _ ev)) _
    (.refl e) evs

end

/-- The recorded writes are those of the settings: after a run the row of a
device is what they make of the row before. -/
theorem qosRow_run {e : PolicyEngine} {evs : List PolicyEvent} {ws : List PolicyWrite}
    (hws : (Run.run PolicyEngine.step e evs).writes = e.writes ++ ws) (dev : Buf 128) :
    (Run.run PolicyEngine.step e evs).qosRow dev = ws.foldl (rowAfter dev) (e.qosRow dev) := by
  obtain ⟨vs, hvs, hrows⟩ := writesRows_run e evs
  obtain rfl : vs = ws := List.append_cancel_left (hvs.symm.trans hws)
  exact hrows dev

/-- Over every run whose clock does not go back, from any store: R1 is rate
limited, and its table has each device once and at most 64 of them. -/
theorem r1_rate_limited (db : Db) (evs : List PolicyEvent)
    (hclock : (evs.map PolicyEvent.time).Pairwise (· ≤ ·)) :
    RateLimited (Run.run PolicyEngine.step { db } evs).writes ∧
      ((Run.run PolicyEngine.step { db } evs).r1.map RuleState.deviceId).Nodup ∧
        (Run.run PolicyEngine.step { db } evs).r1.length ≤ 64 := by
  obtain ⟨now, h⟩ : ∃ now, Tracked now (Run.run PolicyEngine.step { db } evs) := by
    cases evs with
    | nil => exact ⟨0, tracked_init 0 db⟩
    | cons ev evs =>
        have hfirst := tracked_step (tracked_init ev.time db) ev (le_refl _)
        rw [Run.run_cons]
        exact tracked_run hfirst hclock
  exact ⟨rateLimited_of_allowed h.allowed, h.nodup, h.size⟩

/-- A detection, one that comes too soon, the restore, and the next raise. -/
def detections : List PolicyEvent :=
  let m : PolicyMessage := ⟨"tsn/sensors/event/cam-1".toList, "\x7b\"pir\":1\x7d".toList⟩
  [⟨1000, .message m⟩, ⟨1100, .message m⟩, ⟨1301, .poll⟩, ⟨1305, .message m⟩]

theorem detections_rate_limited :
    RateLimited (Run.run PolicyEngine.step { db := .empty } detections).writes ∧
      ((Run.run PolicyEngine.step { db := .empty } detections).r1.map RuleState.deviceId).Nodup ∧
        (Run.run PolicyEngine.step { db := .empty } detections).r1.length ≤ 64 :=
  r1_rate_limited .empty detections (by decide)

end Htsn.Ai
