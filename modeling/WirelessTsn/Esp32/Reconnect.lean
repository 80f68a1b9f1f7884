import WirelessTsn.Lib.Run
import WirelessTsn.Cam.Station

/-!
When a node brings up its provisioning access point. Both firmwares keep a
streak of disconnects and a flag for the first address, and they ask for the
access point only while the flag is clear. Nothing clears it again. So a node
that has had an address and then loses its network for good never asks.

The two handlers refine one small machine, and the runs are about that.
-/

namespace Htsn.Esp32

open CText

/-! ### The machine -/

inductive LinkEvent where
  | other
  | lost
  | joined
  | taskRuns
  | timeout
  deriving DecidableEq

structure Fallback where
  ready : Bool := false
  started : Bool := false
  created : Bool := false
  streak : Nat := 0
  deriving DecidableEq

def Fallback.step (f : Fallback) : LinkEvent → Fallback
  | .other => f
  | .lost =>
      { f with
        streak := f.streak + 1
        created := f.created ||
          decide (provFallbackDisconnects ≤ f.streak + 1 ∧ f.ready = false ∧ f.started = false) }
  | .joined => { f with ready := true, streak := 0 }
  | .taskRuns => { f with started := f.started || f.created }
  | .timeout => { f with started := f.started || !f.ready }

/-- A task that brings up the access point was created for it. -/
def Fallback.ApCalled (f : Fallback) : Prop := f.created = true ∨ f.started = true

variable {evs front : List LinkEvent} {f : Fallback}

/-- The disconnects since the last address, or since the boot. -/
def lostSinceJoin (evs : List LinkEvent) : Nat :=
  evs.foldl (fun k e => match e with | .joined => 0 | .lost => k + 1 | _ => k) 0

/-- What happens before the first address. -/
def beforeJoin (evs : List LinkEvent) : List LinkEvent := evs.takeWhile fun e => e ≠ .joined

/-- Six disconnects, or the end of the waiting time, before the first
address. -/
def CalledEarly (evs : List LinkEvent) : Prop :=
  provFallbackDisconnects ≤ (beforeJoin evs).count .lost ∨ .timeout ∈ beforeJoin evs

theorem beforeJoin_of_not_mem (h : .joined ∉ evs) : beforeJoin evs = evs := by
  rw [beforeJoin, List.takeWhile_eq_self_iff]
  intro e he
  have hne : e ≠ .joined := fun heq => h (heq ▸ he)
  simpa using hne

theorem beforeJoin_append_of_mem (h : .joined ∈ front) (rest : List LinkEvent) :
    beforeJoin (front ++ rest) = beforeJoin front := by
  induction front with
  | nil => cases h
  | cons e front ih =>
      by_cases he : e = .joined
      · simp [beforeJoin, he]
      · have hmem : .joined ∈ front := (List.mem_cons.mp h).resolve_left (Ne.symm he)
        have hskip : ∀ l, beforeJoin (e :: l) = e :: beforeJoin l := by
          intro l
          rw [beforeJoin, List.takeWhile_cons_of_pos (by simpa using he)]
          rfl
        rw [List.cons_append, hskip, hskip, ih hmem]

theorem lostSinceJoin_of_not_mem (h : .joined ∉ evs) : lostSinceJoin evs = evs.count .lost := by
  induction evs using List.reverseRecOn with
  | nil => rfl
  | append_singleton evs e ih =>
      have hevs : .joined ∉ evs := fun hmem => h (List.mem_append_left _ hmem)
      have hlost := ih hevs
      simp only [lostSinceJoin] at hlost
      cases e with
      | joined => simp at h
      | other | lost | taskRuns | timeout => simp [lostSinceJoin, hlost]

/-- What the machine knows of its run. -/
structure Tracks (f : Fallback) (evs : List LinkEvent) : Prop where
  ready : f.ready = true ↔ .joined ∈ evs
  streak : .joined ∉ evs → f.streak = evs.count .lost
  called : f.ApCalled ↔ CalledEarly evs

theorem ready_step (f : Fallback) (e : LinkEvent) :
    (f.step e).ready = true ↔ f.ready = true ∨ e = .joined := by
  cases e <;> simp [Fallback.step]

/-- Before the first address an event counts for what is called early. -/
theorem calledEarly_concat {e : LinkEvent} (hevs : .joined ∉ evs) (he : e ≠ .joined) :
    CalledEarly (evs ++ [e]) ↔
      provFallbackDisconnects ≤ (evs ++ [e]).count .lost ∨ .timeout ∈ evs ++ [e] := by
  have hnone : .joined ∉ evs ++ [e] := by simp [hevs, Ne.symm he]
  rw [CalledEarly, beforeJoin_of_not_mem hnone]

theorem beforeJoin_concat_joined (hevs : .joined ∉ evs) : beforeJoin (evs ++ [.joined]) = evs := by
  have hall : ∀ e ∈ evs, decide (e ≠ .joined) = true := by
    intro e he
    have hne : e ≠ .joined := fun heq => hevs (heq ▸ he)
    exact decide_eq_true hne
  rw [beforeJoin, List.takeWhile_append_of_pos hall]
  simp

/-- Once the flag is set nothing is created any more. -/
theorem tracks_after_join (h : Tracks f evs) (hjoined : .joined ∈ evs) (e : LinkEvent) :
    Tracks (f.step e) (evs ++ [e]) := by
  have hready : f.ready = true := h.ready.mpr hjoined
  refine ⟨by simp [ready_step, hready, hjoined], fun hno => absurd (by simp [hjoined]) hno, ?_⟩
  have hearly : CalledEarly (evs ++ [e]) ↔ CalledEarly evs := by
    rw [CalledEarly, beforeJoin_append_of_mem hjoined, CalledEarly]
  rw [hearly, ← h.called]
  cases e with
  | other | joined => exact Iff.rfl
  | lost => simp [Fallback.step, Fallback.ApCalled, hready]
  | taskRuns =>
      simp only [Fallback.step, Fallback.ApCalled, Bool.or_eq_true]
      tauto
  | timeout => simp [Fallback.step, Fallback.ApCalled, hready]

/-- Before the first address a disconnect is counted, and the sixth one calls
for the access point unless it is up. -/
theorem apCalled_lost {lost : Nat} {timedOut : Prop} (hready : f.ready = false) (hstreak : f.streak = lost)
    (hcalled : f.ApCalled ↔ provFallbackDisconnects ≤ lost ∨ timedOut) :
    (f.step .lost).ApCalled ↔ provFallbackDisconnects ≤ lost + 1 ∨ timedOut := by
  simp only [Fallback.step, Fallback.ApCalled, Bool.or_eq_true, decide_eq_true_eq, hready, hstreak,
    true_and] at hcalled ⊢
  cases hstarted : f.started with
  | true =>
      refine iff_of_true (Or.inr rfl) ?_
      rcases hcalled.mp (Or.inr hstarted) with hlost | htimeout
      · exact Or.inl (by omega)
      · exact Or.inr htimeout
  | false =>
      simp only [hstarted, Bool.false_eq_true, or_false] at hcalled
      rw [hcalled]
      simp only [and_true, Bool.false_eq_true, or_false]
      constructor
      · rintro ((hlost | htimeout) | hlost)
        · exact Or.inl (by omega)
        · exact Or.inr htimeout
        · exact Or.inl hlost
      · rintro (hlost | htimeout)
        · exact Or.inr hlost
        · exact Or.inl (Or.inr htimeout)

theorem tracks_before_join (h : Tracks f evs) (hjoined : .joined ∉ evs) (e : LinkEvent) :
    Tracks (f.step e) (evs ++ [e]) := by
  have hready : f.ready = false := by
    rw [← Bool.not_eq_true, h.ready]
    exact hjoined
  have hstreak := h.streak hjoined
  have hcalled := h.called
  rw [CalledEarly, beforeJoin_of_not_mem hjoined] at hcalled
  refine ⟨?_, fun hno => ?_, ?_⟩
  · rw [ready_step, hready, List.mem_append, List.mem_singleton, @eq_comm _ e]
    simp [hjoined]
  · cases e with
    | joined => simp at hno
    | other | lost | taskRuns | timeout => simp [Fallback.step, hstreak]
  cases e with
  | joined =>
      rw [CalledEarly, beforeJoin_concat_joined hjoined]
      exact hcalled
  | other =>
      rw [calledEarly_concat hjoined (by decide)]
      have hsame : f.step .other = f := rfl
      rw [hsame, hcalled]
      simp
  | lost =>
      rw [calledEarly_concat hjoined (by decide), apCalled_lost hready hstreak hcalled]
      simp
  | taskRuns =>
      have hsame : (f.step .taskRuns).ApCalled ↔ f.ApCalled := by
        simp only [Fallback.step, Fallback.ApCalled, Bool.or_eq_true]
        tauto
      rw [calledEarly_concat hjoined (by decide), hsame, hcalled]
      simp
  | timeout =>
      refine iff_of_true (Or.inr (by simp [Fallback.step, hready])) ?_
      rw [calledEarly_concat hjoined (by decide)]
      simp

theorem tracks_concat (h : Tracks f evs) (e : LinkEvent) : Tracks (f.step e) (evs ++ [e]) := by
  by_cases hjoined : .joined ∈ evs
  · exact tracks_after_join h hjoined e
  · exact tracks_before_join h hjoined e

theorem tracks_run (evs : List LinkEvent) : Tracks (Run.run Fallback.step {} evs) evs := by
  induction evs using List.reverseRecOn with
  | nil => exact ⟨by simp [Run.run], fun _ => rfl, by simp [Run.run, Fallback.ApCalled, CalledEarly,
      beforeJoin, provFallbackDisconnects]⟩
  | append_singleton evs e ih =>
      rw [Run.run_append]
      exact tracks_concat ih e

/-- The access point was called for before the first address, or no six
disconnects in a row follow an address. -/
def EarlyOrStable (evs : List LinkEvent) : Prop :=
  CalledEarly evs ∨
    ∀ front, front <+: evs → .joined ∈ front → lostSinceJoin front < provFallbackDisconnects

theorem callsInTime_iff (evs : List LinkEvent) :
    (∀ front, front <+: evs → provFallbackDisconnects ≤ lostSinceJoin front →
      (Run.run Fallback.step {} front).ApCalled) ↔ EarlyOrStable evs := by
  have hcalled : ∀ front, (Run.run Fallback.step {} front).ApCalled ↔ CalledEarly front :=
    fun front => (tracks_run front).called
  constructor
  · intro h
    by_cases hearly : CalledEarly evs
    · exact Or.inl hearly
    · refine Or.inr fun front hfront hjoined => ?_
      by_contra hlost
      have hfrontCalled := (hcalled front).mp (h front hfront (by omega))
      obtain ⟨rest, rfl⟩ := hfront
      rw [CalledEarly, ← beforeJoin_append_of_mem hjoined rest] at hfrontCalled
      exact hearly hfrontCalled
  · intro h front hfront hlost
    rw [hcalled]
    by_cases hjoined : .joined ∈ front
    · rcases h with hearly | hstable
      · obtain ⟨rest, rfl⟩ := hfront
        rw [CalledEarly, beforeJoin_append_of_mem hjoined] at hearly
        exact hearly
      · exact absurd (hstable front hfront hjoined) (by omega)
    · rw [lostSinceJoin_of_not_mem hjoined] at hlost
      exact Or.inl (by rwa [beforeJoin_of_not_mem hjoined])

/-! ### The two firmwares -/

def StaEvent.link : StaEvent → LinkEvent
  | .staStart => .other
  | .staDisconnected => .lost
  | .gotIp _ _ _ => .joined
  | .fallbackNow => .taskRuns
  | .fallbackTimeout => .timeout

/-- A node with one saved network when its station starts. -/
def StaNode.boot (deviceId : Buf 32) (keys : BrokerKeys) (net : CStr × CStr) (host : Buf 64)
    (port : Int32) : StaNode :=
  { deviceId, keys, nets := [net], host, port }

def StaNode.fallback (n : StaNode) : Fallback where
  ready := n.wifiReady
  started := n.fallbackStarted
  created := decide (.createFallback ∈ n.calls)
  streak := n.disconnectStreak

def StaNode.ApCalled (n : StaNode) : Prop := .createFallback ∈ n.calls ∨ n.fallbackStarted = true

theorem apCalled_fallback (n : StaNode) : n.fallback.ApCalled ↔ n.ApCalled :=
  or_congr decide_eq_true_iff Iff.rfl

theorem tryNet_fallback (n : StaNode) (idx : Nat) :
    (n.tryNet idx).1.fallback = n.fallback ∧ (n.tryNet idx).1.nets = n.nets := by
  unfold StaNode.tryNet
  split
  · exact ⟨rfl, rfl⟩
  split
  · exact ⟨rfl, rfl⟩
  · simp [StaNode.fallback, StaNode.call]

theorem retry_fallback (n : StaNode) : n.retry.fallback = n.fallback.step .lost ∧ n.retry.nets = n.nets := by
  unfold StaNode.retry
  dsimp only
  split
  · rename_i h
    obtain ⟨hstreak, hready, hstarted⟩ := h
    simp [StaNode.fallback, StaNode.call, Fallback.step, hstreak, hready, hstarted]
  · rename_i h
    simp only [StaNode.fallback, StaNode.call, Fallback.step, h]
    simp

/-- A node with one network does what the machine does. -/
theorem step_fallback {n : StaNode} (hnets : n.nets.length = 1) (e : StaEvent) :
    (n.step e).fallback = n.fallback.step e.link ∧ (n.step e).nets = n.nets := by
  cases e with
  | staStart =>
      have hstep : n.step .staStart = (n.tryNet n.curNet).1 := by
        rw [StaNode.step, if_pos (by omega)]
      rw [hstep]
      exact tryNet_fallback n n.curNet
  | staDisconnected =>
      have hstep : n.step .staDisconnected =
          StaNode.retry { n with ledSteady := false, ledState := .conn } := by
        rw [StaNode.step, StaNode.disconnected]
        exact if_neg (by simp [hnets])
      rw [hstep]
      exact retry_fallback { n with ledSteady := false, ledState := .conn }
  | gotIp ip mdns createOk =>
      simp only [StaNode.step, StaNode.gotIp]
      split
      · simp [StaNode.fallback, StaNode.call, Fallback.step, StaEvent.link]
      · simp [StaNode.fallback, Fallback.step, StaEvent.link]
  | fallbackNow =>
      simp only [StaNode.step]
      split
      · rename_i h
        simp [StaNode.fallback, StaNode.call, Fallback.step, StaEvent.link, h]
      · rename_i h
        cases hstarted : n.fallbackStarted with
        | true => simp [StaNode.fallback, Fallback.step, StaEvent.link, hstarted]
        | false =>
            have hnone : .createFallback ∉ n.calls := fun hmem => h ⟨hmem, hstarted⟩
            simp [StaNode.fallback, Fallback.step, StaEvent.link, hstarted, hnone]
  | fallbackTimeout =>
      simp only [StaNode.step]
      split
      · rename_i h
        simp [StaNode.fallback, StaNode.call, Fallback.step, StaEvent.link, h]
      · rename_i h
        cases hstarted : n.fallbackStarted with
        | true => simp [StaNode.fallback, Fallback.step, StaEvent.link, hstarted]
        | false =>
            have hready : n.wifiReady = true := by
              by_contra hno
              exact h ⟨by simpa using hno, hstarted⟩
            simp [StaNode.fallback, Fallback.step, StaEvent.link, hstarted, hready]

theorem run_fallback (deviceId : Buf 32) (keys : BrokerKeys) (net : CStr × CStr) (host : Buf 64)
    (port : Int32) (evs : List StaEvent) :
    (Run.run StaNode.step (StaNode.boot deviceId keys net host port) evs).ApCalled ↔
      (Run.run Fallback.step {} (evs.map StaEvent.link)).ApCalled := by
  have hrun := @Run.run_refines _ _ StaNode.step _ _ Fallback.step (fun n => n.nets.length = 1)
    StaNode.fallback StaEvent.link (fun n e h => by rw [(step_fallback h e).2, h])
    (fun n e h => (step_fallback h e).1) (StaNode.boot deviceId keys net host port) rfl evs
  have hboot : (StaNode.boot deviceId keys net host port).fallback = {} := by
    simp [StaNode.boot, StaNode.fallback]
  rw [hboot] at hrun
  rw [← hrun, apCalled_fallback]

end Htsn.Esp32

namespace Htsn.Cam

open Esp32

def CamEvent.link : CamEvent → LinkEvent
  | .staStart => .other
  | .staDisconnected => .lost
  | .gotIp _ _ => .joined
  | .reprov => .taskRuns

def CamStation.fallback (n : CamStation) : Fallback where
  ready := n.wifiReady
  started := n.reprovStarted
  created := decide (.createReprov ∈ n.calls)
  streak := n.disconnectStreak

def CamStation.ApCalled (n : CamStation) : Prop := .createReprov ∈ n.calls ∨ n.reprovStarted = true

theorem apCalled_fallback (n : CamStation) : n.fallback.ApCalled ↔ n.ApCalled :=
  or_congr decide_eq_true_iff Iff.rfl

theorem call_fallback (n : CamStation) (cs : List CamCall) (h : .createReprov ∉ cs) :
    (n.call cs).fallback = n.fallback := by
  simp [CamStation.fallback, CamStation.call, h]

theorem step_fallback (n : CamStation) (e : CamEvent) :
    (n.step e).fallback = n.fallback.step e.link := by
  cases e with
  | staStart => exact call_fallback n [.connect] (by decide)
  | staDisconnected =>
      show n.disconnected.fallback = n.fallback.step .lost
      unfold CamStation.disconnected
      dsimp only
      split
      · rename_i h
        simp only [CamStation.call] at h
        simp [CamStation.fallback, CamStation.call, Fallback.step, h]
      · rename_i h
        simp only [CamStation.fallback, CamStation.call, Fallback.step] at h ⊢
        simp [h]
  | gotIp ip mqttOk =>
      simp only [CamStation.step, CamStation.gotIp]
      split
      · simp [CamStation.fallback, CamStation.call, Fallback.step, CamEvent.link]
      · simp [CamStation.fallback, Fallback.step, CamEvent.link]
  | reprov =>
      simp only [CamStation.step]
      split
      · rename_i h
        simp [CamStation.fallback, CamStation.call, Fallback.step, CamEvent.link, h]
      · rename_i h
        cases hstarted : n.reprovStarted with
        | true => simp [CamStation.fallback, Fallback.step, CamEvent.link, hstarted]
        | false =>
            have hnone : .createReprov ∉ n.calls := fun hmem => h ⟨hmem, hstarted⟩
            simp [CamStation.fallback, Fallback.step, CamEvent.link, hstarted, hnone]

theorem run_fallback (evs : List CamEvent) :
    (Run.run CamStation.step {} evs).ApCalled ↔
      (Run.run Fallback.step {} (evs.map CamEvent.link)).ApCalled := by
  have hrun := @Run.run_refines _ _ CamStation.step _ _ Fallback.step (fun _ => True)
    CamStation.fallback CamEvent.link (fun _ _ _ => trivial) (fun n e _ => step_fallback n e) {} trivial
    evs
  have hboot : ({} : CamStation).fallback = {} := by simp [CamStation.fallback]
  rw [hboot] at hrun
  rw [← hrun, apCalled_fallback]

end Htsn.Cam

namespace Htsn.Esp32

open CText Cam

/-- After every initial part of a run: six disconnects in a row since the boot
or the last address, and the access point has been called for. -/
def CallsApInTime {ε : Type} (link : ε → LinkEvent) (called : List ε → Prop) (evs : List ε) : Prop :=
  ∀ front, front <+: evs → provFallbackDisconnects ≤ lostSinceJoin (front.map link) → called front

/-- Along a run of a firmware that does what the machine does. -/
theorem callsApInTime_iff {ε : Type} {link : ε → LinkEvent} {called : List ε → Prop}
    (hcalled : ∀ evs, called evs ↔ (Run.run Fallback.step {} (evs.map link)).ApCalled) (evs : List ε) :
    CallsApInTime link called evs ↔ EarlyOrStable (evs.map link) := by
  rw [← callsInTime_iff]
  constructor
  · intro h front hfront hlost
    obtain ⟨front', hfront', rfl⟩ := List.prefix_map_iff.mp hfront
    exact (hcalled front').mp (h front' hfront' hlost)
  · intro h front hfront hlost
    exact (hcalled front).mpr (h (front.map link) (hfront.map link) hlost)

/-- In both firmwares the access point is called for in time exactly in the
runs that call for it before the first address, or in which no six disconnects
in a row follow an address. -/
theorem reprovisions_iff (deviceId : Buf 32) (keys : BrokerKeys) (net : CStr × CStr) (host : Buf 64)
    (port : Int32) (evs : List StaEvent) (camEvs : List CamEvent) :
    (CallsApInTime StaEvent.link
        (fun front => (Run.run StaNode.step (StaNode.boot deviceId keys net host port) front).ApCalled)
        evs ↔
      EarlyOrStable (evs.map StaEvent.link)) ∧
      (CallsApInTime CamEvent.link (fun front => (Run.run CamStation.step {} front).ApCalled) camEvs ↔
        EarlyOrStable (camEvs.map CamEvent.link)) := by
  constructor
  · exact callsApInTime_iff (run_fallback deviceId keys net host port) evs
  · exact callsApInTime_iff Cam.run_fallback camEvs

/-- The network is there once and then gone. -/
def lostForGood : List CamEvent :=
  [.staStart, .gotIp ⟨192, 168, 0, 20⟩ true] ++ List.replicate 6 .staDisconnected

theorem lostForGood_not_called :
    ¬ CallsApInTime CamEvent.link (fun front => (Run.run CamStation.step {} front).ApCalled)
      lostForGood := by
  intro h
  have hcalled := h lostForGood (List.prefix_refl _) (by decide)
  exact absurd hcalled (by unfold CamStation.ApCalled; decide)

end Htsn.Esp32
