import WirelessTsn.Lib.Hold
import WirelessTsn.Esp32.RssiWindow

/-!
The motion detection over the WiFi link
(`esp32-agent/components/htsn_agent/htsn_wifimotion.c`). Windows are reviewed
one after another: the first ones calibrate the floor of an empty room, each
later one either shows movement or not, and a change of the debounced state is
published. The arithmetic on `float` is a parameter, times are microseconds
since the start.
-/

namespace Htsn.Esp32

open Run Hold

/-- The results of the `float` arithmetic: the spread of a window, the floors
learned from it and the comparisons with them. -/
structure WmFloats (F : Type) where
  zero : F
  /-- `rssi_stddev` -/
  stddev : RssiStat → F
  /-- `rssi_std * 0.9f` -/
  rssiFloor : F → F
  /-- `csi * 1.3f + 2.0f` -/
  csiFloor : F → F
  /-- `rssi_std > cal_rssi_std + HTSN_WFM_RSSI_THRESHOLD` -/
  rssiAbove : F → F → Bool
  /-- `csi > cal_csi_mag + HTSN_WFM_CSI_THRESHOLD` -/
  csiAbove : F → F → Bool

/-- `HTSN_WFM_SAMPLE_MS * 1000LL` -/
def sampleUs : Int := 3500 * 1000

/-- `HTSN_WFM_CAL_MS * 1000LL` -/
def calUs : Int := 12000 * 1000

/-- `HTSN_WFM_IDLE_MS * 1000LL` -/
def idleUs : Int := 4500 * 1000

/-- `HTSN_WFM_RSSI_MOS` -/
def rssiMos : Nat := rssiN / 2

/-- `g_rssi` with `g_st`; no report yet is the `-1` of `last_report`. -/
structure WmState (F : Type) where
  rssi : RssiStat := {}
  lastStddev : F
  windowStart : Int
  calStart : Int := 0
  calRssiStd : F
  calCsiMag : F
  calDone : Bool := false
  active : Bool := false
  latched : Bool := false
  latchUntil : Int := 0
  lastReport : Option Bool := none

/-- One published event. -/
structure WifiEvent (F : Type) where
  motion : Bool
  rssiStd : F

/-- What a run leaves behind: the windows that were reviewed, with the event that
was published if there was one, and the calibrations that were begun. -/
inductive WmTrace (F : Type) where
  | calibrating (now : Int)
  | review (now : Int) (hit : Bool) (event : Option (WifiEvent F))

section

variable {F : Type} (fl : WmFloats F)

/-- `g_st` after `htsn_wifimotion_init`, with the ring as it is. -/
def wifimotionInit (rssi : RssiStat) (now : Int) : WmState F where
  rssi := rssi
  lastStddev := fl.zero
  windowStart := now
  calRssiStd := fl.zero
  calCsiMag := fl.zero

/-- `wm_publish_event` -/
def wmPublishEvent (s : WmState F) (motion : Bool) : WmState F × Option (WifiEvent F) :=
  if s.lastReport = some motion then (s, none)
  else ({ s with lastReport := some motion }, some ⟨motion, s.lastStddev⟩)

/-- `cal_start`, which is set with the first window unless a request has set it. -/
def WmState.begin (s : WmState F) (now : Int) : WmState F :=
  if s.calStart = 0 then { s with calStart := now } else s

/-- The branch of `wm_tick` for a window of the calibration; one that is late
enough ends it. -/
def wmCalibrate (s : WmState F) (now : Int) (rssiStd csi : F) : WmState F :=
  if now - (s.begin now).calStart ≥ calUs then
    { s.begin now with
      calRssiStd := fl.rssiFloor rssiStd
      calCsiMag := fl.csiFloor csi
      calDone := true
      windowStart := now }
  else { s.begin now with windowStart := now }

/-- `move` before the latch is asked. -/
def wmDetect (s : WmState F) (rssiStd csi : F) : Bool :=
  let move := if s.rssi.filled ≥ rssiMos then fl.rssiAbove rssiStd s.calRssiStd else false
  if !move && fl.csiAbove csi s.calCsiMag then true else move

/-- The debouncing of `move`, with its result. -/
def wmDebounce (s : WmState F) (now : Int) (move : Bool) : WmState F × Bool :=
  if move then ({ s with active := true, latched := true, latchUntil := now + idleUs }, true)
  else if s.latched ∧ now < s.latchUntil then (s, true)
  else ({ s with active := false, latched := false }, false)

/-- The branch of `wm_tick` for a window after the calibration. -/
def wmReview (s : WmState F) (now : Int) (hit : Bool) : WmState F × Option (WifiEvent F) :=
  let debounced := wmDebounce s now hit
  let published := wmPublishEvent debounced.1 debounced.2
  ({ published.1 with windowStart := now }, published.2)

/-- `wm_tick`; `csi` is the result of `csi_scalar` for the window. -/
def wmTick (s : WmState F) (now : Int) (csi : F) : WmState F × List (WmTrace F) :=
  if s.windowStart = 0 then (s, [])
  else if now - s.windowStart < sampleUs then (s, [])
  else
    let rssiStd := fl.stddev s.rssi
    let s := { s with lastStddev := rssiStd }
    if !s.calDone then (wmCalibrate fl s now rssiStd csi, [])
    else
      let hit := wmDetect fl s rssiStd csi
      let reviewed := wmReview s now hit
      (reviewed.1, [.review now hit reviewed.2])

/-- `htsn_wifimotion_recalibrate` -/
def wifimotionRecalibrate (s : WmState F) (now : Int) : WmState F × List (WmTrace F) :=
  ({ s with
      calDone := false
      calStart := now
      active := false
      latched := false }, [.calibrating now])

/-- What happens to the sensor: a clean data frame is received, a tick, or one of
the requests to calibrate anew. -/
inductive WmOp (F : Type) where
  | frame (rssi : Int16)
  | tick (now : Int) (csi : F)
  | recalibrate (now : Int)

def wmStep (s : WmState F) : WmOp F → WmState F × List (WmTrace F)
  | .frame rssi => ({ s with rssi := rssiPush s.rssi rssi }, [])
  | .tick now csi => wmTick fl s now csi
  | .recalibrate now => wifimotionRecalibrate s now

/-- The traces of a run, from the first calibration on. -/
def wmTraces (rssi : RssiStat) (start : Int) (ops : List (WmOp F)) : List (WmTrace F) :=
  .calibrating start :: outputs (wmStep fl) (wifimotionInit fl rssi start) ops

end

/-! ### What the traces say -/

section

variable {F : Type}

/-- The reviews since the last calibration was begun. -/
def reviewLog (traces : List (WmTrace F)) : List (Int × Bool) :=
  traces.foldl (fun log t => match t with
    | .calibrating _ => []
    | .review now hit _ => log ++ [(now, hit)]) []

def WmTrace.event? : WmTrace F → Option (WifiEvent F)
  | .calibrating _ => none
  | .review _ _ event => event

/-- The published events. -/
def wifiEvents (traces : List (WmTrace F)) : List (WifiEvent F) := traces.filterMap WmTrace.event?

/-- What the last event said. -/
def lastMotion (traces : List (WmTrace F)) : Option Bool := (wifiEvents traces).getLast?.map WifiEvent.motion

theorem reviewLog_calibrating (traces : List (WmTrace F)) (now : Int) :
    reviewLog (traces ++ [.calibrating now]) = [] := by
  rw [reviewLog, List.foldl_append]
  rfl

theorem reviewLog_review (traces : List (WmTrace F)) (now : Int) (hit : Bool) (event : Option (WifiEvent F)) :
    reviewLog (traces ++ [.review now hit event]) = reviewLog traces ++ [(now, hit)] := by
  rw [reviewLog, List.foldl_append]
  rfl

theorem wifiEvents_append (traces : List (WmTrace F)) (t : WmTrace F) :
    wifiEvents (traces ++ [t]) = wifiEvents traces ++ t.event?.toList := by
  rw [wifiEvents, List.filterMap_append, wifiEvents]
  cases h : t.event? with
  | none => simp [h]
  | some e => simp [h]

/-- After a review the last event says whether a window of the hold time showed
movement. -/
def Reported (front : List (WmTrace F)) : WmTrace F → Prop
  | .calibrating _ => True
  | .review now hit event =>
      lastMotion (front ++ [.review now hit event]) =
        some (decide (Held idleUs (reviewLog front ++ [(now, hit)]) now))

/-- Motion was published, or rest. -/
def Says (motion : Bool) (event : Option (WifiEvent F)) : Prop := ∃ e ∈ event, e.motion = motion

/-- Windows are a sampling time apart, the first one comes a window after a whole
calibration, and motion that was published stays for the hold time. -/
def Apart : WmTrace F → WmTrace F → Prop
  | .calibrating t, .review now _ _ => t + calUs + sampleUs ≤ now
  | .review t _ event, .review now _ event' =>
      t + sampleUs ≤ now ∧ (Says true event → Says false event' → t + idleUs ≤ now)
  | _, .calibrating _ => True

/-- The time does not go back. -/
def WmOp.time (last : Int) : WmOp F → Int
  | .frame _ => last
  | .tick now _ => now
  | .recalibrate now => now

def Clocked : Int → List (WmOp F) → Prop
  | _, [] => True
  | last, op :: ops => last ≤ op.time last ∧ Clocked (op.time last) ops

/-! ### One step -/

def WmState.latch (s : WmState F) : Latch Int := ⟨s.latched, s.latchUntil⟩

/-- What an earlier trace means for the next review. -/
def Pending (s : WmState F) (log : List (Int × Bool)) : WmTrace F → Prop
  | .calibrating t =>
      (s.calDone = false ∧ (s.calStart = 0 → t ≤ s.windowStart) ∧ (s.calStart ≠ 0 → t ≤ s.calStart)) ∨
        t + calUs ≤ s.windowStart
  | .review t _ event =>
      t ≤ s.windowStart ∧ (Says true event →
        (t, true) ∈ log ∨ t + idleUs ≤ s.windowStart ∨
          (s.calDone = false ∧ s.calStart ≠ 0 ∧ t ≤ s.calStart))

def WmTrace.time : WmTrace F → Int
  | .calibrating now => now
  | .review now _ _ => now

/-- While a calibration goes on there is no motion, later it is what the last
event said. -/
def motionNow (traces : List (WmTrace F)) : Bool :=
  match traces.getLast? with
  | some (.review _ _ _) => lastMotion traces == some true
  | _ => false

/-- The state after some traces, at the time `last`. -/
structure WmInv (s : WmState F) (traces : List (WmTrace F)) (last : Int) : Prop where
  positive : 0 < last
  window : s.windowStart ≤ last
  times : ∀ t ∈ traces, t.time ≤ last
  active : s.active = s.latched
  follows : Follows idleUs (reviewLog traces) last s.latch
  held : s.latched = true → s.lastReport = some true
  report : s.lastReport = lastMotion traces
  motion : s.active = motionNow traces
  pending : ∀ t ∈ traces, Pending s (reviewLog traces) t
  reported : AllAfter Reported traces
  apart : traces.Pairwise Apart
  alternate : (wifiEvents traces).IsChain fun a b => a.motion ≠ b.motion

theorem WmInv.later {s : WmState F} {traces : List (WmTrace F)} {last now : Int} (h : WmInv s traces last)
    (hlast : last ≤ now) : WmInv s traces now :=
  { h with
    positive := h.positive.trans_le hlast
    window := h.window.trans hlast
    times := fun t ht => (h.times t ht).trans hlast
    follows := h.follows.later hlast }

variable (fl : WmFloats F)

/-- A window of the calibration leaves everything but the calibration as it is. -/
theorem begin_frame (s : WmState F) (now : Int) :
    (s.begin now).windowStart = s.windowStart ∧ (s.begin now).active = s.active ∧
      (s.begin now).latch = s.latch ∧ (s.begin now).lastReport = s.lastReport ∧
      (s.begin now).calDone = s.calDone := by
  unfold WmState.begin
  split <;> exact ⟨rfl, rfl, rfl, rfl, rfl⟩

theorem begin_calStart (s : WmState F) (now : Int) :
    (s.begin now).calStart = if s.calStart = 0 then now else s.calStart := by
  unfold WmState.begin
  split <;> rfl

theorem wmCalibrate_frame (s : WmState F) (now : Int) (r c : F) :
    (wmCalibrate fl s now r c).windowStart = now ∧ (wmCalibrate fl s now r c).active = s.active ∧
      (wmCalibrate fl s now r c).latch = s.latch ∧ (wmCalibrate fl s now r c).lastReport = s.lastReport ∧
      (wmCalibrate fl s now r c).calStart = (s.begin now).calStart := by
  obtain ⟨-, hactive, hlatch, hreport, -⟩ := begin_frame s now
  unfold wmCalibrate
  split <;> exact ⟨rfl, hactive, hlatch, hreport, rfl⟩

/-- It ends once it has lasted long enough. -/
theorem wmCalibrate_calDone {s : WmState F} (h : s.calDone = false) (now : Int) (r c : F) :
    (wmCalibrate fl s now r c).calDone = decide (now - (s.begin now).calStart ≥ calUs) := by
  unfold wmCalibrate
  split
  · next hlate => exact (decide_eq_true hlate).symm
  · next hearly => exact ((begin_frame s now).2.2.2.2.trans h).trans (decide_eq_false hearly).symm

theorem idleUs_le_calUs : idleUs ≤ calUs := by decide

theorem WmInv.calibrate {s : WmState F} {traces : List (WmTrace F)} {now : Int} (h : WmInv s traces now)
    (hcal : s.calDone = false) (r c : F) : WmInv (wmCalibrate fl s now r c) traces now := by
  obtain ⟨hwindow, hactive, hlatch, hreport, hstart⟩ := wmCalibrate_frame fl s now r c
  have hdone := wmCalibrate_calDone fl hcal now r c
  have hbegin := begin_calStart s now
  have hlatched : (wmCalibrate fl s now r c).latched = s.latched := congrArg Latch.latched hlatch
  refine ⟨h.positive, hwindow.le, h.times, ?_, ?_, ?_, ?_, ?_, ?_, h.reported, h.apart, h.alternate⟩
  · rw [hactive, hlatched, h.active]
  · rw [hlatch]
    exact h.follows
  · rw [hlatched, hreport]
    exact h.held
  · rw [hreport, h.report]
  · rw [hactive, h.motion]
  · intro t ht
    have hold := h.pending t ht
    have htime := h.times t ht
    have hpos := h.positive
    have hws := h.window
    have hidle := idleUs_le_calUs
    cases t with
    | calibrating t =>
        simp only [Pending, WmTrace.time, hcal, hwindow, hstart, hdone, hbegin] at hold htime ⊢
        split at * <;> grind
    | review t hit event =>
        simp only [Pending, WmTrace.time, hcal, hwindow, hstart, hdone, hbegin] at hold htime ⊢
        split at * <;> grind

/-- A request starts anew: the hold is over, the last event stays. -/
theorem WmInv.recalibrate {s : WmState F} {traces : List (WmTrace F)} {now : Int} (h : WmInv s traces now) :
    WmInv (wifimotionRecalibrate s now).1 (traces ++ [.calibrating now]) now := by
  have hevents : wifiEvents (traces ++ [.calibrating now]) = wifiEvents traces := by
    rw [wifiEvents_append]
    exact List.append_nil _
  constructor
  · exact h.positive
  · exact h.window
  · intro t ht
    rcases List.mem_append.mp ht with ht | ht
    · exact h.times t ht
    · rw [List.mem_singleton.mp ht]
      exact le_rfl
  · rfl
  · rw [reviewLog_calibrating]
    exact follows_nil _ _ _
  · intro hlatched
    cases hlatched
  · rw [lastMotion, hevents]
    exact h.report
  · rw [motionNow, List.getLast?_concat]
    rfl
  · intro t ht
    have hpos := h.positive
    have hws := h.window
    rcases List.mem_append.mp ht with ht | ht
    · have hold := h.pending t ht
      have htime := h.times t ht
      cases t with
      | calibrating t =>
          exact Or.inl ⟨rfl, fun hzero => absurd hzero hpos.ne', fun _ => htime⟩
      | review t hit event => exact ⟨hold.1, fun _ => Or.inr (Or.inr ⟨rfl, hpos.ne', htime⟩)⟩
    · rw [List.mem_singleton.mp ht]
      exact Or.inl ⟨rfl, fun hzero => absurd hzero hpos.ne', fun _ => le_rfl⟩
  · exact (allAfter_concat _ _).mpr ⟨h.reported, trivial⟩
  · refine List.pairwise_append.mpr ⟨h.apart, List.pairwise_singleton _ _, fun a _ b hb => ?_⟩
    rw [List.mem_singleton.mp hb]
    cases a with
    | calibrating t => trivial
    | review t hit event => trivial
  · rw [hevents]
    exact h.alternate

/-! A review debounces, publishes a change and starts the next window. -/

theorem wmDebounce_latch (s : WmState F) (now : Int) (hit : Bool) :
    (wmDebounce s now hit).1.latch = s.latch.next idleUs now hit := by
  unfold wmDebounce Latch.next
  split
  · rfl
  · rcases Decidable.em (s.latched = true ∧ now < s.latchUntil) with hheld | hover
    · rw [if_pos hheld, if_pos (id hheld : s.latch.latched = true ∧ now < s.latch.deadline)]
    · rw [if_neg hover, if_neg (id hover : ¬ (s.latch.latched = true ∧ now < s.latch.deadline))]
      rfl

theorem wmDebounce_move {s : WmState F} (h : s.active = s.latched) (now : Int) (hit : Bool) :
    (wmDebounce s now hit).2 = (wmDebounce s now hit).1.latched ∧
      (wmDebounce s now hit).1.active = (wmDebounce s now hit).1.latched := by
  unfold wmDebounce
  split
  · exact ⟨rfl, rfl⟩
  · split
    · next hheld => exact ⟨hheld.1.symm, h⟩
    · exact ⟨rfl, rfl⟩

theorem wmDebounce_lastReport (s : WmState F) (now : Int) (hit : Bool) :
    (wmDebounce s now hit).1.lastReport = s.lastReport := by
  unfold wmDebounce
  split
  · rfl
  · split <;> rfl

theorem wmPublishEvent_fst (s : WmState F) (motion : Bool) :
    (wmPublishEvent s motion).1 = { s with lastReport := some motion } := by
  unfold wmPublishEvent
  split
  · next hsame => rw [← hsame]
  · rfl

theorem wmPublishEvent_snd (s : WmState F) (motion : Bool) :
    (wmPublishEvent s motion).2 = if s.lastReport = some motion then none else some ⟨motion, s.lastStddev⟩ := by
  unfold wmPublishEvent
  split <;> rfl

section

variable {report : Option Bool} {traces : List (WmTrace F)}

theorem lastMotion_publish (h : report = lastMotion traces) (now : Int) (hit m : Bool) (std : F) :
    lastMotion (traces ++ [.review now hit (if report = some m then none else some ⟨m, std⟩)]) = some m := by
  rw [lastMotion, wifiEvents_append]
  split
  · next hsame =>
      rw [WmTrace.event?, Option.toList_none, List.append_nil]
      exact h.symm.trans hsame
  · rw [WmTrace.event?, Option.toList_some, List.getLast?_concat]
    rfl

theorem alternate_publish (h : report = lastMotion traces)
    (halt : (wifiEvents traces).IsChain fun a b => a.motion ≠ b.motion) (now : Int) (hit m : Bool) (std : F) :
    (wifiEvents (traces ++ [.review now hit (if report = some m then none else some ⟨m, std⟩)])).IsChain
      fun a b => a.motion ≠ b.motion := by
  rw [wifiEvents_append]
  split
  · rw [WmTrace.event?, Option.toList_none, List.append_nil]
    exact halt
  · next hnew =>
      refine List.isChain_append.mpr ⟨halt, List.isChain_singleton _, fun a ha b hb heq => hnew ?_⟩
      cases hb
      rw [h, lastMotion, ha]
      exact congrArg some heq

/-- What is published differs from the last event. -/
theorem says_publish {b m : Bool} {std : F}
    (h : Says b (if report = some m then none else some (WifiEvent.mk m std))) : m = b ∧ report ≠ some m := by
  obtain ⟨e, he, hb⟩ := h
  split at he
  · cases he
  · next hnew =>
      cases he
      exact ⟨hb, hnew⟩

end

/-- A review says whether something is held, and what it publishes is far enough
from what was published before. -/
theorem WmInv.review {s : WmState F} {traces : List (WmTrace F)} {last now : Int} (h : WmInv s traces last)
    (hcal : s.calDone = true) (hwindow : s.windowStart + sampleUs ≤ now) (hlast : last ≤ now) (hit : Bool) :
    WmInv (wmReview s now hit).1 (traces ++ [.review now hit (wmReview s now hit).2]) now := by
  have hlatch := wmDebounce_latch s now hit
  obtain ⟨hmove, hactive⟩ := wmDebounce_move h.active now hit
  have hreport := wmDebounce_lastReport s now hit
  have hheld : (wmDebounce s now hit).2 = true ↔ Held idleUs (reviewLog traces ++ [(now, hit)]) now := by
    rw [hmove, ← h.follows.next_latched (by decide) hlast hit, ← hlatch]
    rfl
  have hsnd : (wmReview s now hit).2 =
      if lastMotion traces = some (wmDebounce s now hit).2 then none
      else some ⟨(wmDebounce s now hit).2, (wmDebounce s now hit).1.lastStddev⟩ := by
    rw [wmReview, wmPublishEvent_snd, hreport, h.report]
  have hfst : (wmReview s now hit).1 =
      { (wmDebounce s now hit).1 with
        lastReport := some (wmDebounce s now hit).2
        windowStart := now } := by
    rw [wmReview, wmPublishEvent_fst]
  -- A window that is published as motion shows movement itself.
  have hhit : Says true (wmReview s now hit).2 → hit = true := by
    intro hsays
    rw [hsnd] at hsays
    obtain ⟨hm, hnew⟩ := says_publish hsays
    by_contra hmiss
    rw [Bool.not_eq_true] at hmiss
    rw [hm, ← h.report] at hnew
    refine hnew (h.held ?_)
    have hh := hheld.mp hm
    rw [hmiss, held_concat_miss] at hh
    exact ((h.follows.later hlast).latched_iff.mpr hh).1
  have hlastMotion : lastMotion (traces ++ [.review now hit (wmReview s now hit).2]) =
      some (wmDebounce s now hit).2 := by
    rw [hsnd]
    exact lastMotion_publish rfl now hit _ _
  have hsample : 0 < sampleUs := by decide
  constructor
  · exact h.positive.trans_le hlast
  · rw [hfst]
  · intro t ht
    rcases List.mem_append.mp ht with ht | ht
    · exact (h.times t ht).trans hlast
    · rw [List.mem_singleton.mp ht]
      exact le_rfl
  · rw [hfst]
    exact hactive
  · rw [hfst, reviewLog_review]
    exact hlatch ▸ h.follows.next hlast hit
  · rw [hfst]
    intro hlatched
    exact congrArg some (hmove.trans hlatched)
  · rw [hlastMotion, hfst]
  · rw [motionNow, List.getLast?_concat, hlastMotion, hfst]
    dsimp only
    rw [hactive, ← hmove]
    cases (wmDebounce s now hit).2 with
    | true => rfl
    | false => rfl
  · intro t ht
    rw [hfst, reviewLog_review]
    have hws : s.windowStart ≤ now := by omega
    rcases List.mem_append.mp ht with ht | ht
    · have hold := h.pending t ht
      cases t with
      | calibrating t =>
          rcases hold with ⟨hfalse, -⟩ | hover
          · rw [hcal] at hfalse
            cases hfalse
          · exact Or.inr (hover.trans hws)
      | review t hit' event =>
          refine ⟨hold.1.trans hws, fun hsays => ?_⟩
          rcases hold.2 hsays with hmem | hover | ⟨hfalse, -⟩
          · exact Or.inl (List.mem_append_left _ hmem)
          · exact Or.inr (Or.inl (hover.trans hws))
          · rw [hcal] at hfalse
            cases hfalse
    · rw [List.mem_singleton.mp ht]
      exact ⟨le_rfl, fun hsays => Or.inl (by simp [hhit hsays])⟩
  · refine (allAfter_concat _ _).mpr ⟨h.reported, ?_⟩
    rw [Reported, hlastMotion, Option.some_inj]
    exact Bool.eq_iff_iff.mpr (hheld.trans decide_eq_true_iff.symm)
  · refine List.pairwise_append.mpr ⟨h.apart, List.pairwise_singleton _ _, fun a ha b hb => ?_⟩
    rw [List.mem_singleton.mp hb]
    have hold := h.pending a ha
    cases a with
    | calibrating t =>
        rcases hold with ⟨hfalse, -⟩ | hover
        · rw [hcal] at hfalse
          cases hfalse
        · rw [Apart]
          omega
    | review t hit' event =>
        refine ⟨by have := hold.1; omega, fun hsays hrest => ?_⟩
        rcases hold.2 hsays with hmem | hover | ⟨hfalse, -⟩
        · rw [hsnd] at hrest
          have hquiet := (says_publish hrest).1
          by_contra hearly
          have hh := hheld.mpr ⟨t, List.mem_append_left _ hmem, not_le.mp hearly⟩
          rw [hquiet] at hh
          cases hh
        · omega
        · rw [hcal] at hfalse
          cases hfalse
  · rw [hsnd]
    exact alternate_publish rfl h.alternate now hit _ _

theorem WmInv.tick {s : WmState F} {traces : List (WmTrace F)} {last now : Int} (h : WmInv s traces last)
    (hlast : last ≤ now) (csi : F) : WmInv (wmTick fl s now csi).1 (traces ++ (wmTick fl s now csi).2) now := by
  have hnow := h.later hlast
  unfold wmTick
  split
  · rw [List.append_nil]
    exact hnow
  · split
    · rw [List.append_nil]
      exact hnow
    · next hwindow =>
        have hspread : WmInv { s with lastStddev := fl.stddev s.rssi } traces now := { hnow with }
        dsimp only
        split
        · next hcal =>
            rw [List.append_nil]
            exact hspread.calibrate fl (by simpa using hcal) _ _
        · next hcal =>
            exact hspread.review (by simpa using hcal) (by dsimp only; omega) le_rfl _

theorem WmInv.step {s : WmState F} {traces : List (WmTrace F)} {last : Int} (h : WmInv s traces last)
    (op : WmOp F) (hlast : last ≤ op.time last) :
    WmInv (next (wmStep fl) s op) (traces ++ (wmStep fl s op).2) (op.time last) := by
  cases op with
  | frame rssi =>
      rw [wmStep, List.append_nil]
      exact { h with }
  | tick now csi => exact h.tick fl hlast csi
  | recalibrate now => exact (h.later hlast).recalibrate

theorem WmInv.run {s : WmState F} {traces : List (WmTrace F)} {last : Int} (h : WmInv s traces last)
    {ops : List (WmOp F)} (hops : Clocked last ops) :
    ∃ now, WmInv (run (next (wmStep fl)) s ops) (traces ++ outputs (wmStep fl) s ops) now := by
  induction ops generalizing s traces last with
  | nil =>
      rw [outputs, List.append_nil]
      exact ⟨last, h⟩
  | cons op ops ih =>
      rw [outputs, ← List.append_assoc]
      exact ih (h.step fl op hops.1) hops.2

theorem wmInv_init (rssi : RssiStat) {start : Int} (h : 0 < start) :
    WmInv (wifimotionInit fl rssi start) [.calibrating start] start where
  positive := h
  window := le_rfl
  times := by simp [WmTrace.time]
  active := rfl
  follows := follows_nil _ _ _
  held := by simp [wifimotionInit]
  report := rfl
  motion := rfl
  pending := by
    intro t ht
    rw [List.mem_singleton.mp ht]
    exact Or.inl ⟨rfl, fun _ => le_rfl, fun hne => absurd rfl hne⟩
  reported := (allAfter_concat [] _).mpr ⟨allAfter_nil, trivial⟩
  apart := List.pairwise_singleton _ _
  alternate := .nil

/-! ### Runs -/

/-- While the clock goes on, after every review the last published event says
motion exactly when a window that was reviewed since the last calibration and is
younger than the hold time showed movement, and `htsn_wifimotion_motion` agrees
with it; while a calibration goes on it gives zero. -/
theorem wifi_motion_reported (rssi : RssiStat) (start : Int) (ops : List (WmOp F)) (hstart : 0 < start)
    (hops : Clocked start ops) :
    AllAfter Reported (wmTraces fl rssi start ops) ∧
      (run (next (wmStep fl)) (wifimotionInit fl rssi start) ops).active =
        motionNow (wmTraces fl rssi start ops) := by
  obtain ⟨now, h⟩ := (wmInv_init fl rssi hstart).run fl hops
  exact ⟨h.reported, h.motion⟩

/-- The sensor in tenths of a decibel, where no frame has come in. -/
def roomFloats : WmFloats Int where
  zero := 0
  stddev _ := 0
  rssiFloor std := std * 9 / 10
  csiFloor csi := csi * 13 / 10 + 20
  rssiAbove std cal := decide (std > cal + 50)
  csiAbove csi cal := decide (csi > cal + 1200)

/-- Calibrated from the fourth second to the seventeenth, then somebody comes in
and leaves. -/
def roomOps : List (WmOp Int) :=
  [.tick 4000000 30, .tick 8000000 30, .tick 17000000 30, .tick 21000000 5000, .tick 25000000 30, .tick 29000000 30]

theorem roomOps_clocked : Clocked 1 roomOps := by simp [roomOps, Clocked, WmOp.time]

theorem room_reported :
    AllAfter Reported (wmTraces roomFloats {} 1 roomOps) ∧
      (run (next (wmStep roomFloats)) (wifimotionInit roomFloats {} 1) roomOps).active =
        motionNow (wmTraces roomFloats {} 1 roomOps) :=
  wifi_motion_reported roomFloats {} 1 roomOps (by decide) roomOps_clocked

example : (wifiEvents (wmTraces roomFloats {} 1 roomOps)).map WifiEvent.motion = [true, false] := by decide

/-- The published events take turns, and however often the sensor is asked to
calibrate anew, reviews are a sampling time apart, none comes before a whole
calibration and a further window are over, and rest follows motion no earlier
than the hold time. -/
theorem wifi_motion_apart (rssi : RssiStat) (start : Int) (ops : List (WmOp F)) (hstart : 0 < start)
    (hops : Clocked start ops) :
    (wmTraces fl rssi start ops).Pairwise Apart ∧
      (wifiEvents (wmTraces fl rssi start ops)).IsChain fun a b => a.motion ≠ b.motion := by
  obtain ⟨now, h⟩ := (wmInv_init fl rssi hstart).run fl hops
  exact ⟨h.apart, h.alternate⟩

theorem room_apart :
    (wmTraces roomFloats {} 1 roomOps).Pairwise Apart ∧
      (wifiEvents (wmTraces roomFloats {} 1 roomOps)).IsChain fun a b => a.motion ≠ b.motion :=
  wifi_motion_apart roomFloats {} 1 roomOps (by decide) roomOps_clocked

end

end Htsn.Esp32
