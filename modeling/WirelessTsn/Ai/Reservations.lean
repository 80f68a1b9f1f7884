import WirelessTsn.Ai.Independence
import WirelessTsn.Ai.DeviceRows

/-!
The reservations of rule R3 over a run of the policy engine
(`rpi-ai/policy_engine.c`). Between two of them the cooldown has passed, no stream
is reserved twice, and each stays in the store as it was reserved, whatever rule R1
writes in between. Two devices whose ids begin with the same 124 characters have
one stream id, so one of them is never reserved for.
-/

namespace Htsn.Ai

open CText Keyed

variable {e : PolicyEngine}

def PolicyWrite.reservation? : PolicyWrite → Option (Buf 128 × Int)
  | .reserve dev now => some (dev, now)
  | _ => none

/-- The reservations with their times. -/
def reservations (ws : List PolicyWrite) : List (Buf 128 × Int) := ws.filterMap PolicyWrite.reservation?

theorem reservations_concat (ws : List PolicyWrite) (w : PolicyWrite) :
    reservations (ws ++ [w]) = reservations ws ++ w.reservation?.toList := by
  rw [reservations, List.filterMap_append, reservations]
  cases h : w.reservation? with
  | none => simp [h]
  | some r => simp [h]

/-- What is read when the stream of a device is loaded. -/
def loadedStream (db : Db) (dev : Buf 128) : Option Stream := (dbTsnLoad db (aiStreamId dev).chars).toOption

structure Reserved (e : PolicyEngine) : Prop where
  stored : ∀ r ∈ reservations e.writes, loadedStream e.db r.1 = some (aiStream r.1)
  latest : ∀ r ∈ reservations e.writes, r.2 ≤ e.r3Last
  apart : (reservations e.writes).Pairwise fun r r' =>
    r.2 + r3CooldownS ≤ r'.2 ∧ aiStreamId r.1 ≠ aiStreamId r'.1

/-- What reservations do not see. -/
theorem Reserved.congr {m : PolicyEngine} (h : Reserved e)
    (hwrites : reservations m.writes = reservations e.writes) (hlast : m.r3Last = e.r3Last)
    (hload : ∀ dev, loadedStream m.db dev = loadedStream e.db dev) : Reserved m where
  stored r hr := (hload r.1).trans (h.stored r (hwrites ▸ hr))
  latest r hr := hlast ▸ h.latest r (hwrites ▸ hr)
  apart := hwrites ▸ h.apart

/-! ### Rule R1 -/

theorem loadedStream_dbQosSave (db : Db) (cfg : QosConfig) (dev : Buf 128) :
    loadedStream (dbQosSave db cfg).2 dev = loadedStream db dev := by
  simp only [loadedStream, dbTsnLoad_toOption, dbQosSave_eq]
  rfl

theorem Reserved.applyR1 (h : Reserved e) (now : Int) (dev : Buf 128) : Reserved (e.applyR1 now dev) := by
  have hfire : Reserved (e.fireR1 now dev) :=
    h.congr (by simp [PolicyEngine.fireR1, PolicyEngine.log, reservations_concat, PolicyWrite.reservation?]) rfl
      (loadedStream_dbQosSave _ _)
  unfold PolicyEngine.applyR1
  split
  · split
    · exact h
    · exact hfire
  · split
    · exact h
    · exact hfire

theorem Reserved.restoreR1 (h : Reserved e) (now : Int) (dev : Buf 128) : Reserved (e.restoreR1 now dev) := by
  have hlower : Reserved (e.lowerR1 now dev) :=
    h.congr (by simp [PolicyEngine.lowerR1, PolicyEngine.log, reservations_concat, PolicyWrite.reservation?]) rfl
      (loadedStream_dbQosSave _ _)
  unfold PolicyEngine.restoreR1
  split
  · exact h
  · split
    · exact hlower
    · exact h

theorem Reserved.poll (h : Reserved e) (now : Int) : Reserved (e.poll now) := by
  unfold PolicyEngine.poll
  generalize List.range e.r1.length = places
  induction places generalizing e with
  | nil => exact h
  | cons i places ih =>
      refine ih ?_
      unfold PolicyEngine.pollAt
      split
      · exact h
      · split
        · exact h.restoreR1 now _
        · exact h

/-! ### Rule R3 -/

/-- The one listener is read back as it was saved. -/
theorem aiStream_reloaded (dev : Buf 128) : (aiStream dev).reloaded = aiStream dev := rfl

theorem loadedStream_save_self (db : Db) (dev : Buf 128) :
    loadedStream (dbTsnSave db (aiStream dev)).2 dev = some (aiStream dev) := by
  rw [loadedStream, ← aiStream_id, dbTsnLoad_save_self db (aiStream dev) (Or.inl rfl), aiStream_reloaded]

theorem loadedStream_save_other (db : Db) {dev dev' : Buf 128} (h : aiStreamId dev ≠ aiStreamId dev') :
    loadedStream (dbTsnSave db (aiStream dev)).2 dev' = loadedStream db dev' := by
  apply dbTsnLoad_save_other
  rw [aiStream_id]
  exact fun heq => h (Buf.ext heq)

theorem loadedStream_isSome_iff (db : Db) (dev : Buf 128) :
    (loadedStream db dev).isSome ↔ db.tsnStreams.Has (aiStreamId dev).chars := by
  rw [loadedStream, dbTsnLoad_toOption, Option.isSome_map, ← not_iff_not, Bool.not_eq_true,
    Option.isSome_eq_false_iff, Option.isNone_iff_eq_none, Table.find_eq_none]

/-- A new reservation comes after the cooldown and for a stream that is not there,
so for none that was reserved before. -/
theorem Reserved.checkR3 (h : Reserved e) (now : Int) (dev : Buf 128) (lat : Int32) :
    Reserved (e.checkR3 now dev lat) := by
  rw [checkR3_eq]
  split
  · exact h
  · next hnew =>
      have hcool : r3CooldownS ≤ now - e.r3Last := not_lt.mp fun hlt => hnew (Or.inr (Or.inl hlt))
      have hfresh : ∀ r ∈ reservations e.writes, aiStreamId r.1 ≠ aiStreamId dev := by
        intro r hr heq
        have hsome : (loadedStream e.db r.1).isSome := by
          rw [h.stored r hr]
          rfl
        refine hnew (Or.inr (Or.inr ?_))
        rw [← heq]
        exact (loadedStream_isSome_iff e.db r.1).mp hsome
      have hpos : (0 : Int) ≤ r3CooldownS := by decide
      have hadded : reservations (e.writes ++ [.reserve dev now]) = reservations e.writes ++ [(dev, now)] :=
        reservations_concat _ _
      constructor
      · intro r hr
        dsimp only [PolicyEngine.log] at hr ⊢
        rw [hadded] at hr
        rcases List.mem_append.mp hr with hr | hr
        · rw [loadedStream_save_other _ (hfresh r hr).symm]
          exact h.stored r hr
        · rw [List.mem_singleton.mp hr]
          exact loadedStream_save_self e.db dev
      · intro r hr
        dsimp only [PolicyEngine.log] at hr ⊢
        rw [hadded] at hr
        rcases List.mem_append.mp hr with hr | hr
        · have hold := h.latest r hr
          omega
        · rw [List.mem_singleton.mp hr]
      · dsimp only [PolicyEngine.log]
        rw [hadded, List.pairwise_append]
        refine ⟨h.apart, List.pairwise_singleton _ _, fun r hr r' hr' => ?_⟩
        rw [List.mem_singleton.mp hr']
        have hold := h.latest r hr
        exact ⟨by omega, hfresh r hr⟩

/-! ### Runs -/

theorem Reserved.step (h : Reserved e) (ev : PolicyEvent) : Reserved (e.step ev) := by
  unfold PolicyEngine.step
  cases ev.input with
  | poll => exact h.poll ev.time
  | message m =>
      have hdetection : Reserved (e.onDetection ev.time m) := by
        unfold PolicyEngine.onDetection
        split
        · exact h.applyR1 ev.time _
        · exact h
      dsimp only
      rw [onMessage_eq]
      split
      · exact h
      · split
        · exact hdetection.checkR3 ev.time _ _
        · exact hdetection

/-- Over every run, from any store and with any clock: two reservations are at
least the cooldown apart and for different streams, and every stream that was
reserved is in the store as it was reserved. -/
theorem r3_reserved (db : Db) (evs : List PolicyEvent) :
    (reservations (Run.run PolicyEngine.step { db } evs).writes).Pairwise (fun r r' =>
        r.2 + 300 ≤ r'.2 ∧ aiStreamId r.1 ≠ aiStreamId r'.1) ∧
      ∀ r ∈ reservations (Run.run PolicyEngine.step { db } evs).writes,
        dbTsnLoad (Run.run PolicyEngine.step { db } evs).db (aiStreamId r.1).chars = .ok (aiStream r.1) := by
  have hstart : Reserved { db } := ⟨nofun, nofun, List.Pairwise.nil⟩
  have hrun : Reserved (Run.run PolicyEngine.step { db } evs) :=
    Run.run_invariant (fun _ ev h => h.step ev) hstart evs
  refine ⟨hrun.apart, fun r hr => ?_⟩
  have hload := hrun.stored r hr
  rw [loadedStream] at hload
  cases hdb : dbTsnLoad (Run.run PolicyEngine.step { db } evs).db (aiStreamId r.1).chars with
  | error err =>
      rw [hdb] at hload
      cases hload
  | ok s =>
      rw [hdb] at hload
      exact congrArg Except.ok (Option.some.inj hload)

end Htsn.Ai
