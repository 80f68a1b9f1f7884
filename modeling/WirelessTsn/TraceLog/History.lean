import WirelessTsn.Db.TraceLog
import WirelessTsn.Lib.FormUrl
import WirelessTsn.Lib.Ring
import WirelessTsn.Lib.Run

/-!
The trace of the configurator (`src/trace/trace.c`): a ring of the last entries
in memory, which a clear empties, and the table `trace_log` behind it, which is
pruned after every entry. Both are compared with the list of what was pushed.
-/

namespace Htsn

open CText Ring Run

/-- `HTSN_TRACE_MAX` -/
def traceMax : Nat := 1024

instance : NeZero traceMax := ⟨by decide⟩

/-- The clock while an entry is pushed: the text that `stamp` puts together and
the time that the row gets. -/
structure TraceMoment where
  stamp : Buf 32
  now : Int64

/-- `struct htsn_trace`, less the event bus. -/
structure HtsnTrace where
  entries : Vector TraceEntry traceMax
  count : Nat
  fits : count ≤ traceMax
  head : Fin traceMax
  db : Option TraceLog
  keep : UInt64

/-- An entry cleared by `memset`. -/
def TraceEntry.zero : TraceEntry := ⟨Buf.empty, .comm, Buf.empty, Buf.empty⟩

/-- `htsn_trace_create_persistent` -/
def traceCreatePersistent (db : Option TraceLog) (keep : UInt64) : HtsnTrace where
  entries := Vector.replicate traceMax .zero
  count := 0
  fits := by decide
  head := 0
  db
  keep

/-- The `(int)t->keep` of the prune. -/
def keepInt (keep : UInt64) : Int32 := keep.toUInt32.toInt32

/-- The entry that `push` puts together. -/
def traceEntry (m : TraceMoment) (type : TraceType) (source line : Option CStr) : TraceEntry where
  timestamp := m.stamp
  type
  source := Buf.copy 256 (source.getD "-".toList)
  line := Buf.copy 256 (line.getD [])

def tracePush (t : HtsnTrace) (m : TraceMoment) (type : TraceType) (source line : Option CStr) : HtsnTrace :=
  let e := traceEntry m type source line
  { t with
    entries := t.entries.set t.head e
    db := t.db.map fun db =>
      let db := dbTraceLogInsert db m.now e
      if t.keep > 0 then dbTracePrune db (keepInt t.keep) else db
    head := t.head + 1
    count := if t.count < traceMax then t.count + 1 else t.count
    fits := by
      split
      · assumption
      · exact t.fits }

def traceAddComm (t : HtsnTrace) (m : TraceMoment) (source msg : Option CStr) : HtsnError × HtsnTrace :=
  match msg with
  | none => (.invalidArg, t)
  | some msg => (.ok, tracePush t m .comm source msg)

/-- `"%02X "` -/
def hexByte (b : UInt8) : CStr := [hexUpper (b.toNat / 16), hexUpper (b.toNat % 16), ' ']

/-- The loop of `htsn_trace_add_frame` with `off` characters written. -/
def frameText : Nat → List UInt8 → CStr
  | _, [] => []
  | off, b :: bs => if off + 4 < 256 then hexByte b ++ frameText (off + 3) bs else []

/-- `htsn_trace_add_frame` -/
def traceAddFrame (t : HtsnTrace) (m : TraceMoment) (source : Option CStr) (bytes : Option (List UInt8)) (len : Nat) :
    HtsnError × HtsnTrace :=
  if bytes = none ∧ len > 0 then (.invalidArg, t)
  else (.ok, tracePush t m .frame source (frameText 0 ((bytes.getD []).take len)))

def traceAddConfig (t : HtsnTrace) (m : TraceMoment) (source what : Option CStr) : HtsnError × HtsnTrace :=
  match what with
  | none => (.invalidArg, t)
  | some what => (.ok, tracePush t m .config source what)

def traceAddMulticast (t : HtsnTrace) (m : TraceMoment) (source group msg : Option CStr) : HtsnError × HtsnTrace :=
  match msg with
  | none => (.invalidArg, t)
  | some msg =>
      let line : Buf 256 := Buf.copy 256 ("FX mcast -> ".toList ++ (group.getD "?".toList ++ (": ".toList ++ msg)))
      (.ok, tracePush t m .multicast source line.chars)

/-- `htsn_trace_entry_at` -/
def traceEntryAt (t : HtsnTrace) (index : Int) : Option TraceEntry :=
  if index < 0 ∨ index ≥ t.count then none
  else some (t.entries.get (Fin.ofNat traceMax (((t.head : Int) - 1 - index + traceMax).tmod traceMax).toNat))

def traceCount (t : HtsnTrace) : Nat := t.count

def traceClear (t : HtsnTrace) : HtsnTrace := { t with count := 0, fits := by decide, head := 0 }

/-! ### Runs -/

inductive TraceOp where
  | addComm (m : TraceMoment) (source msg : Option CStr)
  | addFrame (m : TraceMoment) (source : Option CStr) (bytes : Option (List UInt8)) (len : Nat)
  | addConfig (m : TraceMoment) (source what : Option CStr)
  | addMulticast (m : TraceMoment) (source group msg : Option CStr)
  | clear

def traceStep (t : HtsnTrace) : TraceOp → HtsnTrace
  | .addComm m source msg => (traceAddComm t m source msg).2
  | .addFrame m source bytes len => (traceAddFrame t m source bytes len).2
  | .addConfig m source what => (traceAddConfig t m source what).2
  | .addMulticast m source group msg => (traceAddMulticast t m source group msg).2
  | .clear => traceClear t

/-! ### What was pushed -/

/-- An entry and the time that its row gets. -/
structure Pushed where
  entry : TraceEntry
  now : Int64
deriving DecidableEq

def Pushed.record (p : Pushed) : TraceRecord := ⟨p.now, p.entry.type, p.entry.source.chars, p.entry.line.chars⟩

def pushOf (m : TraceMoment) (type : TraceType) (source line : Option CStr) : Pushed :=
  ⟨traceEntry m type source line, m.now⟩

/-- What a call pushes, if it is not refused. -/
def TraceOp.pushed : TraceOp → Option Pushed
  | .addComm m source msg => msg.map fun msg => pushOf m .comm source msg
  | .addFrame m source bytes len =>
      if bytes = none ∧ len > 0 then none
      else some (pushOf m .frame source (frameText 0 ((bytes.getD []).take len)))
  | .addConfig m source what => what.map fun what => pushOf m .config source what
  | .addMulticast m source group msg =>
      msg.map fun msg =>
        let line : Buf 256 := Buf.copy 256 ("FX mcast -> ".toList ++ (group.getD "?".toList ++ (": ".toList ++ msg)))
        pushOf m .multicast source line.chars
  | .clear => none

def TraceOp.isClear : TraceOp → Bool
  | .clear => true
  | _ => false

/-- All pushes of a run in order. -/
def pushesOf (ops : List TraceOp) : List Pushed := ops.filterMap TraceOp.pushed

/-- The part of a run behind its last clear. -/
def sinceClear (ops : List TraceOp) : List TraceOp := (ops.reverse.takeWhile fun op => !op.isClear).reverse

/-- `push` of an entry that is put together. -/
def HtsnTrace.put (t : HtsnTrace) (p : Pushed) : HtsnTrace :=
  { t with
    entries := t.entries.set t.head p.entry
    db := t.db.map fun db =>
      let db := dbTraceLogInsert db p.now p.entry
      if t.keep > 0 then dbTracePrune db (keepInt t.keep) else db
    head := t.head + 1
    count := if t.count < traceMax then t.count + 1 else t.count
    fits := by
      split
      · assumption
      · exact t.fits }

/-- A call clears the ring, or puts in what it pushes. -/
theorem traceStep_eq (t : HtsnTrace) (op : TraceOp) :
    traceStep t op = if op.isClear then traceClear t else op.pushed.elim t t.put := by
  cases op with
  | addComm m source msg => cases msg <;> rfl
  | addFrame m source bytes len =>
      have hclear : (TraceOp.addFrame m source bytes len).isClear = false := rfl
      rw [traceStep, traceAddFrame, TraceOp.pushed, hclear, if_neg Bool.false_ne_true]
      split <;> rfl
  | addConfig m source what => cases what <;> rfl
  | addMulticast m source group msg => cases msg <;> rfl
  | clear => rfl

theorem pushed_of_isClear {op : TraceOp} (h : op.isClear = true) : op.pushed = none := by
  cases op with
  | clear => rfl
  | addComm | addFrame | addConfig | addMulticast => cases h

theorem sinceClear_concat (ops : List TraceOp) (op : TraceOp) :
    sinceClear (ops ++ [op]) = if op.isClear then [] else sinceClear ops ++ [op] := by
  rw [sinceClear, List.reverse_concat]
  cases h : op.isClear with
  | true => rw [List.takeWhile_cons_of_neg (by simp [h]), List.reverse_nil, if_pos rfl]
  | false =>
      rw [List.takeWhile_cons_of_pos (by simp [h]), List.reverse_cons, if_neg Bool.false_ne_true]
      rfl

theorem pushesOf_concat (ops : List TraceOp) (op : TraceOp) :
    pushesOf (ops ++ [op]) = pushesOf ops ++ op.pushed.toList := by
  rw [pushesOf, pushesOf, List.filterMap_append]
  cases h : op.pushed with
  | none => simp [h]
  | some p => simp [h]

/-! ### The ring -/

/-- The ring holds what was pushed since it was cleared. -/
structure HtsnTrace.Recalls (t : HtsnTrace) (xs : List TraceEntry) : Prop where
  count : t.count = min xs.length traceMax
  head : t.head = turn traceMax xs.length
  holds : Holds t.entries xs

theorem recalls_clear (t : HtsnTrace) : (traceClear t).Recalls [] where
  count := rfl
  head := rfl
  holds := holds_nil _

theorem HtsnTrace.Recalls.put {t : HtsnTrace} {xs : List TraceEntry} (h : t.Recalls xs) (p : Pushed) :
    (t.put p).Recalls (xs ++ [p.entry]) where
  count := by
    show (if t.count < traceMax then t.count + 1 else t.count) = _
    rw [h.count, List.length_append, List.length_singleton]
    split <;> omega
  head := by
    show t.head + 1 = _
    rw [h.head, List.length_append, List.length_singleton]
    apply Fin.ext
    rw [Fin.val_add, turn_val, turn_val]
    exact Nat.mod_add_mod _ _ _
  holds := h.holds.push p.entry t.head.isLt (congrArg Fin.val h.head)

/-- The index counts back from the last push. -/
theorem HtsnTrace.Recalls.entryAt {t : HtsnTrace} {xs : List TraceEntry} (h : t.Recalls xs) (i : Int) :
    traceEntryAt t i = if 0 ≤ i ∧ i < t.count then xs.reverse[i.toNat]? else none := by
  rw [traceEntryAt]
  by_cases hin : 0 ≤ i ∧ i < t.count
  · have hnear : i.toNat < min xs.length traceMax := by
      rw [← h.count]
      omega
    have hhead : (t.head : Int) = (xs.length % traceMax : Nat) := by rw [h.head, turn_val]
    rw [if_neg (by omega), if_pos hin, h.holds.recent hnear, hhead]
    congr 2
    apply Fin.ext
    rw [turn_val, Fin.val_ofNat, Int.tmod_eq_emod_of_nonneg (by omega)]
    simp only [traceMax] at hnear ⊢
    omega
  · rw [if_pos (by omega), if_neg hin]

theorem pushesOf_sinceClear_concat (ops : List TraceOp) (op : TraceOp) :
    pushesOf (sinceClear (ops ++ [op])) =
      if op.isClear then [] else pushesOf (sinceClear ops) ++ op.pushed.toList := by
  rw [sinceClear_concat]
  split
  · rfl
  · exact pushesOf_concat (sinceClear ops) op

theorem recalls_run (db : Option TraceLog) (keep : UInt64) (ops : List TraceOp) :
    (run traceStep (traceCreatePersistent db keep) ops).Recalls
      ((pushesOf (sinceClear ops)).map Pushed.entry) := by
  induction ops using List.reverseRecOn with
  | nil => exact ⟨rfl, rfl, holds_nil _⟩
  | append_singleton ops op ih =>
      rw [run_append, run_cons, traceStep_eq, pushesOf_sinceClear_concat]
      cases hclear : op.isClear with
      | true => exact recalls_clear _
      | false =>
          rw [if_neg Bool.false_ne_true, if_neg Bool.false_ne_true]
          cases hpushed : op.pushed with
          | none =>
              rw [Option.toList_none, List.append_nil]
              exact ih
          | some p =>
              rw [Option.toList_some, List.map_append]
              exact ih.put p

/-! ### The table -/

theorem records_insert (log : TraceLog) (p : Pushed) :
    (dbTraceLogInsert log p.now p.entry).records = log.records ++ [p.record] :=
  List.map_append

theorem records_prune (log : TraceLog) (keep : Int32) : (dbTracePrune log keep).records = lastOf keep log.records := by
  rw [TraceLog.records, TraceLog.records, dbTracePrune_rows, lastOf_map]

/-- The table behind a trace that keeps some of its rows. -/
structure HtsnTrace.Logs (t : HtsnTrace) (n : UInt64) (all : List TraceRecord) : Prop where
  keep : t.keep = n
  records : t.db.map TraceLog.records = some (lastOf (keepInt n) all)

theorem HtsnTrace.Logs.put {t : HtsnTrace} {keep : UInt64} (hkeep : 0 < keep) {all : List TraceRecord}
    (h : t.Logs keep all) (p : Pushed) : (t.put p).Logs keep (all ++ [p.record]) where
  keep := h.keep
  records := by
    obtain ⟨log, hlog, hrecords⟩ := Option.map_eq_some_iff.mp h.records
    have hput : (t.put p).db = some (dbTracePrune (dbTraceLogInsert log p.now p.entry) (keepInt keep)) := by
      show t.db.map _ = _
      rw [hlog, h.keep, Option.map_some, if_pos hkeep]
    rw [hput, Option.map_some, records_prune, records_insert, hrecords, lastOf_lastOf_append]

theorem lastOf_nil {α : Type} (limit : Int32) : lastOf limit ([] : List α) = [] := by
  rw [lastOf, List.drop_nil, ite_self]

theorem logs_run {keep : UInt64} (hkeep : 0 < keep) (seq : Nat) (ops : List TraceOp) :
    (run traceStep (traceCreatePersistent (some (.empty seq)) keep) ops).Logs keep
      ((pushesOf ops).map Pushed.record) := by
  induction ops using List.reverseRecOn with
  | nil => exact ⟨rfl, congrArg some (lastOf_nil _).symm⟩
  | append_singleton ops op ih =>
      rw [run_append, run_cons, traceStep_eq, pushesOf_concat]
      cases hclear : op.isClear with
      | true =>
          rw [pushed_of_isClear hclear, Option.toList_none, List.append_nil]
          exact ⟨ih.keep, ih.records⟩
      | false =>
          rw [if_neg Bool.false_ne_true]
          cases hpushed : op.pushed with
          | none =>
              rw [Option.toList_none, List.append_nil]
              exact ih
          | some p =>
              rw [Option.toList_some, List.map_append]
              exact ih.put hkeep p

/-! ### Both against the history -/

/-- What a trace shows after the calls of a run: the ring the pushes since the
last clear, the table as many of all pushes as it is told to keep. -/
structure HtsnTrace.Shows (t : HtsnTrace) (ops : List TraceOp) (keep : UInt64) : Prop where
  count : traceCount t = min (pushesOf (sinceClear ops)).length traceMax
  entryAt : ∀ i : Int, traceEntryAt t i =
    if 0 ≤ i ∧ i < traceCount t then (pushesOf (sinceClear ops)).reverse[i.toNat]?.map Pushed.entry else none
  records : t.db.map TraceLog.records =
    some (((pushesOf ops).map Pushed.record).drop ((pushesOf ops).length - keep.toNat))

/-- The number to keep gets through the conversion to `int`, or so few entries
were pushed that its loss does not show. -/
def KeepHolds (keep : UInt64) (pushes : Nat) : Prop :=
  (keepInt keep).toInt = keep.toNat ∨ (pushes : Int) ≤ (keepInt keep).toInt ∨
    (keepInt keep).toInt < 0 ∧ pushes ≤ keep.toNat

theorem keepInt_toInt (keep : UInt64) : (keepInt keep).toInt = (keep.toNat : Int).bmod (2 ^ 32) := by
  have hcast : (keepInt keep).toInt = ((keep.toUInt32.toNat : Nat) : Int).bmod (2 ^ 32) :=
    BitVec.toInt_eq_toNat_bmod keep.toUInt32.toBitVec
  rw [hcast, UInt64.toNat_toUInt32, Int.natCast_emod]
  exact Int.emod_bmod _ _

theorem drop_inj {α : Type} {xs : List α} {a b : Nat} (ha : a ≤ xs.length) (hb : b ≤ xs.length) :
    xs.drop a = xs.drop b ↔ a = b := by
  constructor
  · intro h
    have hlen := congrArg List.length h
    rw [List.length_drop, List.length_drop] at hlen
    omega
  · rintro rfl
    rfl

/-- What the converted number leaves of the pushes. -/
theorem lastOf_keepInt_iff {α : Type} (keep : UInt64) (xs : List α) :
    lastOf (keepInt keep) xs = xs.drop (xs.length - keep.toNat) ↔ KeepHolds keep xs.length := by
  have hle : (keepInt keep).toInt ≤ keep.toNat := by
    rw [keepInt_toInt, Int.bmod_def]
    split <;> omega
  rw [lastOf, KeepHolds]
  by_cases hneg : keepInt keep < 0
  · have hbelow : (keepInt keep).toInt < 0 := Int32.lt_iff_toInt_lt.mp hneg
    have hwhole : xs = xs.drop 0 := rfl
    rw [if_pos hneg]
    conv_lhs => lhs; rw [hwhole]
    rw [drop_inj (Nat.zero_le _) (Nat.sub_le _ _)]
    omega
  · have habove : 0 ≤ (keepInt keep).toInt := not_lt.mp fun h => hneg (Int32.lt_iff_toInt_lt.mpr h)
    have hnat : ((keepInt keep).toNatClampNeg : Int) = (keepInt keep).toInt := Int.toNat_of_nonneg habove
    rw [if_neg hneg, drop_inj (Nat.sub_le _ _) (Nat.sub_le _ _)]
    omega

/-- The trace shows its history exactly as long as the conversion of the number
to keep does not show. -/
theorem history_iff {keep : UInt64} (hkeep : 0 < keep) (seq : Nat) (ops : List TraceOp) :
    (run traceStep (traceCreatePersistent (some (.empty seq)) keep) ops).Shows ops keep ↔
      KeepHolds keep (pushesOf ops).length := by
  have hrecalls := recalls_run (some (.empty seq)) keep ops
  have hlogs := logs_run hkeep seq ops
  have hcut := lastOf_keepInt_iff keep ((pushesOf ops).map Pushed.record)
  rw [List.length_map] at hcut
  constructor
  · intro h
    have hrecords := hlogs.records.symm.trans h.records
    exact hcut.mp (Option.some.inj hrecords)
  · intro h
    constructor
    · show HtsnTrace.count _ = _
      rw [hrecalls.count, List.length_map]
    · intro i
      rw [hrecalls.entryAt i, ← List.map_reverse, List.getElem?_map]
      rfl
    · rw [hlogs.records, hcut.mpr h]

/-- A call that says that the server was started. -/
def startedOp : TraceOp := .addConfig ⟨Buf.copy 32 "12:00:00".toList, 0⟩ none (some "started".toList)

/-- The number that the server passes gets through the conversion. -/
theorem started_shows :
    (run traceStep (traceCreatePersistent (some (.empty 0)) 20000) [startedOp, .clear, startedOp]).Shows
      [startedOp, .clear, startedOp] 20000 :=
  (history_iff (by decide) 0 [startedOp, .clear, startedOp]).mpr (Or.inl (by decide))

/-- Of the number 2^32 nothing is left, so the prune takes the row that was just
written. -/
theorem wide_keep_shows_nothing :
    ¬ (run traceStep (traceCreatePersistent (some (.empty 0)) 4294967296) [startedOp]).Shows [startedOp]
      4294967296 := by
  intro h
  have hkeep : (0 : UInt64) < 4294967296 := by decide
  have hlogs := logs_run hkeep 0 [startedOp]
  have hrecords := Option.some.inj (hlogs.records.symm.trans h.records)
  exact absurd (congrArg List.length hrecords) (by decide)

end Htsn
