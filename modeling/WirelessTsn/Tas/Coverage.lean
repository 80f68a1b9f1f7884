import WirelessTsn.Tas.Manager

/-!
What `htsn_tas_validate` says about a schedule. The sum of the durations is
compared with the cycle of the gate list, not with that of the schedule, and
it is the sum modulo 2^64.
-/

namespace Htsn

open CText

/-- The gate lists that `htsn_gcl_init` and `htsn_gcl_add_entry` build. -/
inductive Gcl.Built : Gcl → Prop where
  | init {cycleTimeNs : Int64} {gcl : Gcl} (h : gclInit cycleTimeNs = .ok gcl) : Gcl.Built gcl
  | addEntry {gcl : Gcl} (h : Gcl.Built gcl) (gateState : UInt8) (durationNs : Int64) :
      Gcl.Built (gclAddEntry gcl gateState durationNs).2

/-- The sum of the durations, without a limit. -/
def durationSum (es : List GclEntry) : Int := (es.map fun e => e.durationNs.toInt).sum

/-- The durations make up the cycle of the schedule. -/
def CoversCycle (s : TasScheduleModel) : Prop :=
  durationSum s.gcl.entries.items = s.cycleTimeNs.toInt

/-- Saved, and others after it, the schedule is loaded as one that passes the
check. -/
def ReloadsValid (db : Db) (s : TasScheduleModel) (others : List TasScheduleModel) : Prop :=
  ∃ loaded, tasManagerLoad (saveAll db (s :: others)) s.id.chars = .ok loaded ∧
    tasValidate loaded = .ok

theorem Gcl.Built.nonneg {gcl : Gcl} (h : gcl.Built) :
    ∀ e ∈ gcl.entries.items, 0 ≤ e.durationNs.toInt := by
  induction h with
  | init h =>
      unfold gclInit at h
      split at h
      · cases h
      · cases h
        intro e he
        cases he
  | @addEntry gcl _ gateState durationNs ih =>
      unfold gclAddEntry
      split
      · exact ih
      · rename_i hroom
        rw [not_or, Nat.not_le] at hroom
        have hdur : 0 ≤ durationNs.toInt := Int64.le_iff_toInt_le.mp (Int64.not_lt.mp hroom.1)
        intro e he
        simp only [Slots.push, hroom.2, dif_pos, List.mem_append, List.mem_singleton] at he
        rcases he with he | rfl
        · exact ih e he
        · exact hdur

theorem durationSum_nonneg {gcl : Gcl} (h : gcl.Built) : 0 ≤ durationSum gcl.entries.items := by
  apply List.sum_nonneg
  intro d hd
  obtain ⟨e, he, rfl⟩ := List.mem_map.mp hd
  exact h.nonneg e he

/-- The total is the sum modulo 2^64. -/
theorem gclTotalDurationNs_eq (gcl : Gcl) :
    gclTotalDurationNs gcl = Int64.ofInt (durationSum gcl.entries.items) := by
  have hfold : ∀ (es : List GclEntry) (acc : Int64),
      es.foldl (fun total e => total + e.durationNs) acc = acc + Int64.ofInt (durationSum es) := by
    intro es
    induction es with
    | nil => exact fun acc => (Int64.add_zero acc).symm
    | cons e es ih =>
        intro acc
        have hsum : durationSum (e :: es) = e.durationNs.toInt + durationSum es := List.sum_cons
        rw [List.foldl_cons, ih, hsum, Int64.ofInt_add, Int64.ofInt_toInt, Int64.add_assoc]
  rw [gclTotalDurationNs, hfold, Int64.zero_add]

/-- A schedule that passes has a total equal to the cycle of its gate list. -/
theorem total_of_tasValidate {s : TasScheduleModel} (h : tasValidate s = .ok) :
    gclTotalDurationNs s.gcl = s.gcl.cycleTimeNs := by
  unfold tasValidate at h
  split at h
  · cases h
  split at h
  · cases h
  · rename_i hvalid
    rw [Bool.not_eq_true, Bool.not_eq_false'] at hvalid
    unfold gclIsValid at hvalid
    split at hvalid
    · cases hvalid
    · exact of_decide_eq_true hvalid

/-- An accepted schedule covers its own cycle exactly when its two cycles agree
and the durations do not add up to 2^63 or more. Loading it back succeeds for
none. -/
theorem accepted_covers_iff (db : Db) (s : TasScheduleModel) (others : List TasScheduleModel)
    (hbuilt : s.gcl.Built) (hok : tasValidate s = .ok) :
    (CoversCycle s ↔
      s.gcl.cycleTimeNs = s.cycleTimeNs ∧ durationSum s.gcl.entries.items < 2 ^ 63) ∧
      ¬ ReloadsValid db s others := by
  have htotal := total_of_tasValidate hok
  rw [gclTotalDurationNs_eq] at htotal
  have hnonneg := durationSum_nonneg hbuilt
  refine ⟨⟨fun hcovers => ?_, fun ⟨hsame, hsmall⟩ => ?_⟩, ?_⟩
  · have hsum : durationSum s.gcl.entries.items = s.cycleTimeNs.toInt := hcovers
    rw [hsum, Int64.ofInt_toInt] at htotal
    exact ⟨htotal.symm, hsum ▸ s.cycleTimeNs.toInt_lt⟩
  · rw [CoversCycle, ← hsame, ← htotal, Int64.toInt_ofInt_of_le (by omega) hsmall]
  · rintro ⟨loaded, hload, -⟩
    exact tasManagerLoad_ne_ok _ _ loaded hload

theorem controlCycle_covers :
    CoversCycle (controlCycle "tas-1".toList) ∧
      ¬ ReloadsValid .empty (controlCycle "tas-1".toList) [] := by
  have hbuilt : (controlCycle "tas-1".toList).gcl.Built :=
    ((@Gcl.Built.init 100000000 _ rfl).addEntry gateOpen 50000000).addEntry 0 50000000
  obtain ⟨hcovers, hload⟩ := accepted_covers_iff .empty (controlCycle "tas-1".toList) [] hbuilt
    (by decide)
  exact ⟨hcovers.mpr (by decide), hload⟩

/-- Gate windows of 100 ms in a schedule with a cycle of 200 ms. -/
theorem halfCycle_accepted :
    ¬ ∀ (db : Db) (s : TasScheduleModel) (others : List TasScheduleModel), s.gcl.Built →
      tasValidate s = .ok → CoversCycle s ∧ ReloadsValid db s others := by
  intro hclaim
  have hbuilt : (controlCycle "tas-1".toList).gcl.Built :=
    ((@Gcl.Built.init 100000000 _ rfl).addEntry gateOpen 50000000).addEntry 0 50000000
  have hcovers := (hclaim .empty
    { controlCycle "tas-1".toList with cycleTimeNs := 200000000 } [] hbuilt (by decide)).1
  unfold CoversCycle at hcovers
  exact absurd hcovers (by decide)

end Htsn
