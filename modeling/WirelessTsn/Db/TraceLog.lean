import WirelessTsn.Common

/-!
The table `trace_log` and its statements (`src/db/db_trace_log.c`). SQLite keeps
the rows in the order of their ids, and AUTOINCREMENT gives every row an id
above all that the table ever had, so the table carries both facts.
-/

namespace Htsn

open CText

/-- `htsn_trace_type` -/
inductive TraceType where
  | comm
  | frame
  | config
  | multicast
deriving DecidableEq

/-- `htsn_trace_entry` -/
structure TraceEntry where
  timestamp : Buf 32
  type : TraceType
  source : Str
  line : Buf 256
deriving DecidableEq

/-- What a row says. -/
structure TraceRecord where
  ts : Int64
  type : TraceType
  source : CStr
  line : CStr
deriving DecidableEq

structure TraceRow where
  id : Nat
  record : TraceRecord

structure TraceLog where
  rows : List TraceRow
  /-- The AUTOINCREMENT counter. -/
  seq : Nat
  ordered : rows.Pairwise fun a b => a.id < b.id
  below : ∀ r ∈ rows, r.id ≤ seq

/-- A table without rows, which may have had some. -/
def TraceLog.empty (seq : Nat) : TraceLog := ⟨[], seq, .nil, nofun⟩

def TraceLog.records (t : TraceLog) : List TraceRecord := t.rows.map TraceRow.record

/-- `htsn_db_trace_log_insert` at the time `now`. -/
def dbTraceLogInsert (t : TraceLog) (now : Int64) (e : TraceEntry) : TraceLog where
  rows := t.rows ++ [⟨t.seq + 1, ⟨now, e.type, e.source.chars, e.line.chars⟩⟩]
  seq := t.seq + 1
  ordered := by
    rw [List.pairwise_append]
    refine ⟨t.ordered, List.pairwise_singleton _ _, ?_⟩
    intro a ha b hb
    rw [List.mem_singleton] at hb
    subst hb
    exact Nat.lt_succ_of_le (t.below a ha)
  below := by
    intro r hr
    rcases List.mem_append.mp hr with hold | hnew
    · exact Nat.le_succ_of_le (t.below r hold)
    · rw [List.mem_singleton] at hnew
      subst hnew
      exact le_rfl

/-- `LIMIT ?`: a negative number is no limit. -/
def sqlLimit {α : Type} (limit : Int32) (xs : List α) : List α :=
  if limit < 0 then xs else xs.take limit.toNatClampNeg

/-- `SELECT id FROM trace_log ORDER BY id DESC LIMIT ?` -/
def TraceLog.newestIds (t : TraceLog) (limit : Int32) : List Nat := sqlLimit limit (t.rows.reverse.map TraceRow.id)

/-- `htsn_db_trace_prune` -/
def dbTracePrune (t : TraceLog) (keep : Int32) : TraceLog where
  rows := t.rows.filter fun r => r.id ∈ t.newestIds keep
  seq := t.seq
  ordered := t.ordered.filter _
  below := fun r hr => t.below r (List.mem_filter.mp hr).1

/-! ### What a prune leaves -/

/-- The last elements, as many as a limit allows. -/
def lastOf {α : Type} (limit : Int32) (xs : List α) : List α :=
  if limit < 0 then xs else xs.drop (xs.length - limit.toNatClampNeg)

theorem sqlLimit_reverse {α : Type} (limit : Int32) (xs : List α) :
    sqlLimit limit xs.reverse = (lastOf limit xs).reverse := by
  rw [sqlLimit, lastOf]
  split
  · rfl
  · rw [List.take_reverse]

theorem lastOf_map {α β : Type} (f : α → β) (limit : Int32) (xs : List α) :
    lastOf limit (xs.map f) = (lastOf limit xs).map f := by
  rw [lastOf, lastOf, List.length_map]
  split
  · rfl
  · rw [List.map_drop]

/-- Cutting after every addition is cutting once. -/
theorem lastOf_lastOf_append {α : Type} (limit : Int32) (xs ys : List α) :
    lastOf limit (lastOf limit xs ++ ys) = lastOf limit (xs ++ ys) := by
  by_cases hneg : limit < 0
  · simp only [lastOf, if_pos hneg]
  · simp only [lastOf, if_neg hneg]
    have hcut : xs.length - limit.toNatClampNeg ≤ xs.length := Nat.sub_le _ _
    rw [← List.drop_append_of_le_length hcut, List.drop_drop, List.length_drop, List.length_append]
    congr 1
    omega

theorem exists_append_lastOf {α : Type} (limit : Int32) (xs : List α) : ∃ front, xs = front ++ lastOf limit xs := by
  rw [lastOf]
  split
  · exact ⟨[], rfl⟩
  · exact ⟨_, (List.take_append_drop _ _).symm⟩

/-- A prune leaves the rows that were written last. -/
theorem dbTracePrune_rows (t : TraceLog) (keep : Int32) : (dbTracePrune t keep).rows = lastOf keep t.rows := by
  obtain ⟨front, hsplit⟩ := exists_append_lastOf keep t.rows
  have hids : t.newestIds keep = ((lastOf keep t.rows).map TraceRow.id).reverse := by
    rw [TraceLog.newestIds, List.map_reverse, sqlLimit_reverse, lastOf_map]
  have hordered := t.ordered
  rw [hsplit, List.pairwise_append] at hordered
  have hgone : front.filter (fun r => r.id ∈ t.newestIds keep) = [] := by
    rw [List.filter_eq_nil_iff]
    intro r hr hmem
    rw [decide_eq_true_eq, hids, List.mem_reverse, List.mem_map] at hmem
    obtain ⟨s, hs, heq⟩ := hmem
    exact absurd heq (hordered.2.2 r hr s hs).ne'
  have hkept : (lastOf keep t.rows).filter (fun r => r.id ∈ t.newestIds keep) = lastOf keep t.rows := by
    rw [List.filter_eq_self]
    intro r hr
    rw [decide_eq_true_eq, hids, List.mem_reverse]
    exact List.mem_map_of_mem hr
  calc (dbTracePrune t keep).rows
      = (front ++ lastOf keep t.rows).filter fun r => r.id ∈ t.newestIds keep := by
        rw [← hsplit]
        rfl
    _ = lastOf keep t.rows := by rw [List.filter_append, hgone, hkept, List.nil_append]

end Htsn
