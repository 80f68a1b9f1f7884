import WirelessTsn.Esp32.Agent
import WirelessTsn.Lib.Run

/-!
The stream table of the agent, slot by slot
(`esp32-agent/components/htsn_agent/htsn_tsn.c`). An accepted call copies the
whole structure into its slot and then clears the listeners that it does not
count. The slots in use are the keyed list that `tsnApplyStream` works on.
-/

namespace Htsn.Esp32

open CText Keyed Run

/-- `htsn_stream`, with all its listeners. -/
structure StreamArg where
  streamId : Buf 48
  name : Buf 64
  talker : Buf 64
  listeners : Vector (Buf 64) streamMaxListeners
  listenerCount : Int32
  vlanId : Int32
  maxLatencyNs : Int64
  maxIntervalNs : Int64
  priority : Int32
  dataFramePrio : Int32

def StreamArg.key (s : StreamArg) : CStr := s.streamId.chars

/-- A slot cleared at the start of the program. -/
def StreamArg.zero : StreamArg :=
  ⟨Buf.empty, Buf.empty, Buf.empty, Vector.replicate _ Buf.empty, 0, 0, 0, 0, 0, 0⟩

/-- `g_streams` and `htsn_tsn_stream_count`. -/
structure StreamTable where
  slots : Vector StreamArg streamMax := Vector.replicate _ .zero
  count : Nat := 0
  fits : count ≤ streamMax := by decide

/-- The slots in use. -/
def StreamTable.items (t : StreamTable) : List StreamArg := t.slots.toList.take t.count

def StreamTable.findSlot (t : StreamTable) (id : CStr) : Option Nat := t.items.findIdx? fun s => s.key = id

/-- `htsn_tsn_find_stream` -/
def StreamTable.findStream (t : StreamTable) (id : Option CStr) : Option StreamArg :=
  id.bind fun id => (t.findSlot id).bind fun i => t.slots[i]?

/-- The loop that clears the listeners from `start` on. From a negative start it
writes in front of them. -/
def clearListeners (ls : Vector (Buf 64) streamMaxListeners) (start : Int) :
    Option (Vector (Buf 64) streamMaxListeners) :=
  if start < 0 then none
  else some (Vector.ofFn fun i => if start ≤ i.val then Buf.empty else ls.get i)

/-- What a slot holds after the copy and the loop. -/
def StreamArg.stored (s : StreamArg) : Option StreamArg :=
  (clearListeners s.listeners s.listenerCount.toInt).map fun listeners => { s with listeners }

/-- `htsn_tsn_apply_stream`: what it returns and the table behind it. -/
def StreamTable.applyStream (t : StreamTable) : Option StreamArg → Option (Int32 × StreamTable)
  | none => some (-1, t)
  | some s =>
      if s.listenerCount.toInt > streamMaxListeners then some (-1, t)
      else
        match t.findSlot s.key with
        | some i => s.stored.map fun dst => (0, { t with slots := t.slots.setIfInBounds i dst })
        | none =>
            if h : t.count ≥ streamMax then some (-1, t)
            else
              s.stored.map fun dst =>
                (0, { slots := t.slots.set t.count dst (by omega), count := t.count + 1, fits := by omega })

/-! ### The table as a keyed list -/

/-- A stream as the table keeps it: the listeners it does not count are empty. -/
def StreamArg.kept (s : StreamArg) : StreamArg :=
  { s with
    listeners := Vector.ofFn fun i => if s.listenerCount.toInt ≤ i.val then Buf.empty else s.listeners.get i }

theorem stored_eq {s : StreamArg} (h : 0 ≤ s.listenerCount.toInt) : s.stored = some s.kept := by
  rw [StreamArg.stored, clearListeners, if_neg (by omega)]
  rfl

theorem length_items (t : StreamTable) : t.items.length = t.count := by
  have hslots : t.slots.toList.length = streamMax := Vector.length_toList
  have hfits := t.fits
  rw [StreamTable.items, List.length_take, hslots]
  omega

/-- Overwriting a row is an update of its place. -/
theorem upsertBy_of_findIdx? {ρ κ : Type} [DecidableEq κ] {key : ρ → κ} {x : ρ} {l : List ρ} {i : Nat}
    (h : l.findIdx? (fun r => key r = key x) = some i) : upsertBy key x l = l.set i x := by
  induction l generalizing i with
  | nil => cases h
  | cons y ys ih =>
      rw [List.findIdx?_cons] at h
      by_cases hy : key y = key x
      · rw [if_pos (decide_eq_true hy)] at h
        cases h
        rw [upsertBy, if_pos hy, List.set_cons_zero]
      · rw [if_neg (by simpa using hy)] at h
        obtain ⟨j, hj, rfl⟩ := Option.map_eq_some_iff.mp h
        rw [upsertBy, if_neg hy, ih hj, List.set_cons_succ]

theorem hasKey_iff_findIdx? {ρ κ : Type} [DecidableEq κ] {key : ρ → κ} {k : κ} {l : List ρ} :
    HasKey key k l ↔ (l.findIdx? fun r => key r = k).isSome := by
  rw [List.findIdx?_isSome, List.any_eq_true]
  simp [HasKey]

theorem items_replace (t : StreamTable) (i : Nat) (x : StreamArg) :
    ({ t with slots := t.slots.setIfInBounds i x } : StreamTable).items = t.items.set i x := by
  rw [StreamTable.items, StreamTable.items, Vector.toList_setIfInBounds, List.take_set]

theorem items_insert (t : StreamTable) (x : StreamArg) (h : t.count < streamMax) :
    ({ slots := t.slots.set t.count x h, count := t.count + 1, fits := h } : StreamTable).items = t.items ++ [x] := by
  have hin : t.count < (t.slots.toList.set t.count x).length := by simpa using h
  rw [StreamTable.items, StreamTable.items, Vector.toList_set, List.take_succ_eq_append_getElem hin,
    List.getElem_set_self, List.take_set_of_le le_rfl]

/-- The call is one the table has room for. -/
def StreamTable.Accepts (t : StreamTable) (s : StreamArg) : Prop :=
  s.listenerCount.toInt ≤ streamMaxListeners ∧ (HasKey StreamArg.key s.key t.items ∨ t.count < streamMax)

/-- What a call does: nothing, or one write under the key of its stream. -/
theorem applyStream_cases (t : StreamTable) {s : StreamArg} (h : 0 ≤ s.listenerCount.toInt) :
    t.applyStream (some s) = some (-1, t) ∧ ¬ t.Accepts s ∨
      t.Accepts s ∧ ∃ t', t.applyStream (some s) = some (0, t') ∧
        t'.items = upsertBy StreamArg.key s.kept t.items := by
  rw [StreamTable.applyStream, stored_eq h]
  by_cases hmany : s.listenerCount.toInt > streamMaxListeners
  · rw [if_pos hmany]
    exact Or.inl ⟨rfl, fun haccepts => absurd haccepts.1 (not_le.mpr hmany)⟩
  rw [if_neg hmany]
  cases hslot : t.findSlot s.key with
  | some i =>
      have hkey : HasKey StreamArg.key s.key t.items := hasKey_iff_findIdx?.mpr (by rw [← StreamTable.findSlot, hslot]; rfl)
      refine Or.inr ⟨⟨not_lt.mp hmany, Or.inl hkey⟩, _, rfl, ?_⟩
      rw [items_replace]
      exact (upsertBy_of_findIdx? (x := s.kept) hslot).symm
  | none =>
      have hkey : ¬ HasKey StreamArg.key s.key t.items := by
        rw [hasKey_iff_findIdx?, ← StreamTable.findSlot, hslot]
        exact Bool.false_ne_true
      dsimp only
      by_cases hfull : t.count ≥ streamMax
      · rw [dif_pos hfull]
        exact Or.inl ⟨rfl, fun haccepts => haccepts.2.elim hkey (not_lt.mpr hfull)⟩
      · rw [dif_neg hfull]
        refine Or.inr ⟨⟨not_lt.mp hmany, Or.inr (not_le.mp hfull)⟩, _, rfl, ?_⟩
        rw [items_insert]
        exact (upsertBy_of_not_hasKey (x := s.kept) hkey).symm

theorem findStream_eq (t : StreamTable) (id : CStr) : t.findStream (some id) = findBy StreamArg.key id t.items := by
  show ((t.findSlot id).bind fun i => t.slots[i]?) = _
  cases hslot : t.findSlot id with
  | none =>
      have hkey : ¬ HasKey StreamArg.key id t.items := by
        rw [hasKey_iff_findIdx?, ← StreamTable.findSlot, hslot]
        exact Bool.false_ne_true
      exact (findBy_eq_none.mpr hkey).symm
  | some i =>
      obtain ⟨hlen, -⟩ := List.findIdx?_eq_some_iff_findIdx_eq.mp hslot
      have hin : i < t.count := length_items t ▸ hlen
      have hfind : findBy StreamArg.key id t.items = t.items[i]? := by
        rw [findBy, List.find?_eq_bind_findIdx?_getElem?]
        show (t.findSlot id).bind _ = _
        rw [hslot]
        rfl
      rw [hfind, StreamTable.items, List.getElem?_take_of_lt hin]
      exact Vector.getElem?_toList.symm

/-- The stream as the handlers see it. -/
def StreamArg.toStream (s : StreamArg) : Stream where
  streamId := s.streamId
  name := s.name
  talker := s.talker
  listeners := (s.listeners.toList.take s.listenerCount.toNatClampNeg).map Buf.chars
  vlanId := s.vlanId
  maxLatencyNs := s.maxLatencyNs
  maxIntervalNs := s.maxIntervalNs
  priority := s.priority
  dataFramePrio := s.dataFramePrio

/-- The listeners that a stream counts are the ones it came with. -/
theorem toStream_kept {s : StreamArg} : s.kept.toStream = s.toStream := by
  have hlisteners : s.kept.listeners.toList.take s.listenerCount.toNatClampNeg =
      s.listeners.toList.take s.listenerCount.toNatClampNeg := by
    apply List.ext_getElem?
    intro i
    rw [List.getElem?_take, List.getElem?_take]
    split
    · rename_i hi
      have hcounted : ¬ s.listenerCount.toInt ≤ i := by
        have hclamp : s.listenerCount.toNatClampNeg = s.listenerCount.toInt.toNat := rfl
        omega
      rw [Vector.getElem?_toList, Vector.getElem?_toList, StreamArg.kept, Vector.getElem?_ofFn]
      split
      · rename_i hin
        exact (Vector.getElem?_eq_getElem hin).symm
      · rename_i hout
        exact (Vector.getElem?_eq_none (Nat.le_of_not_lt hout)).symm
    · rfl
  simp only [StreamArg.toStream]
  rw [show s.kept.listenerCount = s.listenerCount from rfl, hlisteners]
  rfl

/-- The table with its slots does what the agent's list of streams does. -/
theorem applyStream_refines {a : Agent} {t : StreamTable} (ha : a.streams.items = t.items.map StreamArg.toStream)
    {s : StreamArg} (h : 0 ≤ s.listenerCount.toInt) (hmany : s.listenerCount.toInt ≤ streamMaxListeners) :
    (t.applyStream (some s) = some (-1, t) ∧ tsnApplyStream a s.toStream = none) ∨
      ∃ t' a', t.applyStream (some s) = some (0, t') ∧ tsnApplyStream a s.toStream = some a' ∧
        a'.streams.items = t'.items.map StreamArg.toStream := by
  have hlisteners : s.toStream.listeners.length ≤ streamMaxListeners := by
    rw [StreamArg.toStream, List.length_map, List.length_take, Vector.length_toList]
    exact Nat.min_le_right _ _
  have hkeys : HasKey Stream.key s.toStream.key a.streams.items ↔ HasKey StreamArg.key s.key t.items := by
    rw [ha, hasKey_iff_mem_map, hasKey_iff_mem_map, List.map_map]
    rfl
  have hcount : a.streams.items.length = t.count := by rw [ha, List.length_map, length_items]
  have hupsert : (upsertBy StreamArg.key s.kept t.items).map StreamArg.toStream =
      upsertBy Stream.key s.toStream a.streams.items := by
    have hsame : ∀ r : StreamArg, r.toStream.key = r.key := fun _ => rfl
    rw [map_upsertBy StreamArg.toStream hsame, toStream_kept, ha]
  rcases applyStream_cases t h with ⟨hcall, hrefused⟩ | ⟨haccepts, t', hcall, hitems⟩
  · refine Or.inl ⟨hcall, ?_⟩
    have hkey : ¬ HasKey Stream.key s.toStream.key a.streams.items :=
      fun hk => hrefused ⟨hmany, Or.inl (hkeys.mp hk)⟩
    have hfull : a.streams.items.length ≥ streamMax := by
      rw [hcount]
      exact not_lt.mp fun hroom => hrefused ⟨hmany, Or.inr hroom⟩
    rw [tsnApplyStream, if_neg (not_lt.mpr hlisteners), dif_neg hkey, if_pos hfull]
  · obtain ⟨a', happly, hrows⟩ : ∃ a', tsnApplyStream a s.toStream = some a' ∧
        a'.streams.items = upsertBy Stream.key s.toStream a.streams.items := by
      rw [tsnApplyStream, if_neg (not_lt.mpr hlisteners)]
      by_cases hkey : HasKey Stream.key s.toStream.key a.streams.items
      · rw [dif_pos hkey]
        exact ⟨_, rfl, rfl⟩
      · have hroom : a.streams.items.length < streamMax := by
          rw [hcount]
          exact haccepts.2.resolve_left fun hk => hkey (hkeys.mpr hk)
        rw [dif_neg hkey, if_neg (not_le.mpr hroom), upsertBy_of_not_hasKey hkey]
        refine ⟨_, rfl, ?_⟩
        show (Slots.push _ _).items = _
        rw [Slots.push, dif_pos hroom]
    exact Or.inr ⟨t', a', hcall, happly, by rw [hrows, hitems, hupsert]⟩

/-! ### Histories -/

/-- A call, with the stream it brought when it is accepted. -/
def StreamTable.emit (t : StreamTable) (s : Option StreamArg) : StreamTable × List StreamArg :=
  match t.applyStream s with
  | some (rc, t') => (t', if rc = 0 then s.toList else [])
  | none => (t, [])

/-- The table after a run of calls. -/
def tableAfter (ops : List (Option StreamArg)) : StreamTable := run (next StreamTable.emit) {} ops

/-- The streams of the accepted calls of a run. -/
def acceptedBy (ops : List (Option StreamArg)) : List StreamArg := outputs StreamTable.emit {} ops

/-- The calls of a run count no negative number of listeners. -/
def CountsListeners (ops : List (Option StreamArg)) : Prop := ∀ s, some s ∈ ops → 0 ≤ s.listenerCount.toInt

/-- One write for each stream that a step accepts. -/
theorem items_emit (t : StreamTable) {s : Option StreamArg} (h : ∀ x, s = some x → 0 ≤ x.listenerCount.toInt) :
    (next StreamTable.emit t s).items =
      ((t.emit s).2.map StreamArg.kept).foldl (fun l x => upsertBy StreamArg.key x l) t.items := by
  cases s with
  | none => rfl
  | some x =>
      rcases applyStream_cases t (h x rfl) with ⟨hcall, -⟩ | ⟨-, t', hcall, hitems⟩
      · rw [next, StreamTable.emit, hcall]
        rfl
      · rw [next, StreamTable.emit, hcall]
        exact hitems

theorem items_run (t : StreamTable) {ops : List (Option StreamArg)} (h : CountsListeners ops) :
    (run (next StreamTable.emit) t ops).items =
      ((outputs StreamTable.emit t ops).map StreamArg.kept).foldl (fun l x => upsertBy StreamArg.key x l) t.items := by
  induction ops generalizing t with
  | nil => rfl
  | cons s ops ih =>
      have hstep := items_emit t fun x hx => h x (hx ▸ List.mem_cons_self)
      have hrest := ih (next StreamTable.emit t s) fun x hx => h x (List.mem_cons_of_mem s hx)
      rw [run_cons, hrest, hstep, outputs, List.map_append, List.foldl_append]

/-- Of the rows written into an empty list, the last one of a key is found. -/
theorem findBy_foldl_upsertBy {ρ κ : Type} [DecidableEq κ] {key : ρ → κ} (xs : List ρ) :
    ((xs.foldl (fun l x => upsertBy key x l) []).map key).Nodup ∧
      ∀ k, findBy key k (xs.foldl (fun l x => upsertBy key x l) []) = findBy key k xs.reverse := by
  induction xs using List.reverseRecOn with
  | nil => exact ⟨List.nodup_nil, fun _ => rfl⟩
  | append_singleton xs x ih =>
      rw [List.foldl_append]
      refine ⟨nodup_upsertBy ih.1, fun k => ?_⟩
      rw [List.foldl_cons, List.foldl_nil, findBy_upsertBy ih.1, ih.2, List.reverse_concat]
      by_cases hk : key x = k
      · simp [findBy, hk]
      · simp [findBy, hk]

theorem findBy_map_kept (id : CStr) (xs : List StreamArg) :
    findBy StreamArg.key id (xs.map StreamArg.kept) = (findBy StreamArg.key id xs).map StreamArg.kept :=
  findBy_map StreamArg.kept (fun _ => rfl) id xs

theorem items_tableAfter {ops : List (Option StreamArg)} (h : CountsListeners ops) :
    (tableAfter ops).items =
      ((acceptedBy ops).map StreamArg.kept).foldl (fun l x => upsertBy StreamArg.key x l) [] :=
  items_run {} h

/-- Over every history of calls the table is the one of its last accepted
writes. It refuses a call without a change, and has room for a stream that it
has, as long as the call counts no more listeners than there are places. -/
theorem streamTable_law {ops : List (Option StreamArg)} (h : CountsListeners ops) :
    (tableAfter ops).count ≤ streamMax ∧
    ((tableAfter ops).items.map StreamArg.key).Nodup ∧
    (∀ id : CStr, (tableAfter ops).findStream (some id) =
      ((acceptedBy ops).reverse.find? fun s => s.key = id).map StreamArg.kept) ∧
    (∀ s : Option StreamArg, CountsListeners [s] → ∃ rc t', (tableAfter ops).applyStream s = some (rc, t') ∧
      (rc = 0 ∨ rc = -1 ∧ t' = tableAfter ops)) ∧
    (∀ s : StreamArg, 0 ≤ s.listenerCount.toInt → s.listenerCount.toInt ≤ streamMaxListeners →
      ((tableAfter ops).findStream (some s.key)).isSome → ∃ t', (tableAfter ops).applyStream (some s) = some (0, t')) := by
  have hitems := items_tableAfter h
  have hwrites := @findBy_foldl_upsertBy _ _ _ StreamArg.key ((acceptedBy ops).map StreamArg.kept)
  refine ⟨(tableAfter ops).fits, hitems ▸ hwrites.1, ?_, ?_, ?_⟩
  · intro id
    rw [findStream_eq, hitems, hwrites.2, ← List.map_reverse, findBy_map_kept]
    rfl
  · intro s hs
    cases s with
    | none => exact ⟨-1, _, rfl, Or.inr ⟨rfl, rfl⟩⟩
    | some s =>
        rcases applyStream_cases (tableAfter ops) (hs s List.mem_cons_self) with ⟨hcall, -⟩ | ⟨-, t', hcall, -⟩
        · exact ⟨_, _, hcall, Or.inr ⟨rfl, rfl⟩⟩
        · exact ⟨_, _, hcall, Or.inl rfl⟩
  · intro s hs hmany hfound
    have hkey : HasKey StreamArg.key s.key (tableAfter ops).items := by
      rw [findStream_eq] at hfound
      by_contra hno
      rw [findBy_eq_none.mpr hno] at hfound
      cases hfound
    rcases applyStream_cases (tableAfter ops) hs with ⟨-, hrefused⟩ | ⟨-, t', hcall, -⟩
    · exact absurd ⟨hmany, Or.inl hkey⟩ hrefused
    · exact ⟨t', hcall⟩

/-- A stream with one letter as its id. -/
def letterStream (c : Char) (listenerCount : Int32) : StreamArg :=
  { StreamArg.zero with streamId := Buf.copy 48 [c], listenerCount }

/-- Calls that fill the table. -/
def fillingCalls : List (Option StreamArg) := "abcdefgh".toList.map fun c => some (letterStream c 1)

theorem filling_counts : CountsListeners fillingCalls := by
  intro s hs
  obtain ⟨c, -, hc⟩ := List.mem_map.mp hs
  cases hc
  exact (by decide : (0 : Int) ≤ (1 : Int32).toInt)

/-- The full table takes a further call for a stream that it has. -/
theorem full_table_law :
    ((tableAfter fillingCalls).findStream (some "a".toList)).isSome ∧
      ∃ t', (tableAfter fillingCalls).applyStream (some (letterStream 'a' 8)) = some (0, t') := by
  have hfound : ((tableAfter fillingCalls).findStream (some "a".toList)).isSome := by decide
  exact ⟨hfound, (streamTable_law filling_counts).2.2.2.2 (letterStream 'a' 8) (by decide) (by decide) hfound⟩

/-- It refuses one that counts nine listeners. -/
theorem crowded_update_refused :
    CountsListeners fillingCalls ∧ ((tableAfter fillingCalls).findStream (some "a".toList)).isSome ∧
      0 ≤ (letterStream 'a' 9).listenerCount.toInt ∧
      (tableAfter fillingCalls).applyStream (some (letterStream 'a' 9)) = some (-1, tableAfter fillingCalls) :=
  ⟨filling_counts, by decide, by decide, by rw [StreamTable.applyStream, if_pos (by decide)]⟩

/-! ### The list of the handlers -/

/-- The call counts listeners that there are places for. -/
def StreamArg.Counted (s : StreamArg) : Prop :=
  0 ≤ s.listenerCount.toInt ∧ s.listenerCount.toInt ≤ streamMaxListeners

/-- The agent of the handlers after a run of calls. -/
def agentAfter (ops : List Stream) : Agent := run (fun a s => (tsnApplyStream a s).getD a) {} ops

theorem items_agentAfter {ops : List StreamArg} (h : ∀ s ∈ ops, s.Counted) :
    (agentAfter (ops.map StreamArg.toStream)).streams.items =
      (tableAfter (ops.map some)).items.map StreamArg.toStream := by
  have hrun : ∀ (a : Agent) (t : StreamTable), a.streams.items = t.items.map StreamArg.toStream →
      (run (fun a s => (tsnApplyStream a s).getD a) a (ops.map StreamArg.toStream)).streams.items =
        (run (next StreamTable.emit) t (ops.map some)).items.map StreamArg.toStream := by
    induction ops with
    | nil => exact fun _ _ hitems => hitems
    | cons s ops ih =>
        intro a t hitems
        obtain ⟨hlow, hhigh⟩ := h s List.mem_cons_self
        rw [List.map_cons, List.map_cons, run_cons, run_cons]
        apply ih (fun x hx => h x (List.mem_cons_of_mem s hx))
        rcases applyStream_refines hitems hlow hhigh with ⟨hcall, hlist⟩ | ⟨t', a', hcall, hlist, hitems'⟩
        · rw [hlist, next, StreamTable.emit, hcall]
          exact hitems
        · rw [hlist, next, StreamTable.emit, hcall]
          exact hitems'
  exact hrun {} {} rfl

/-- After every history of calls the slots in use hold the streams of the list
that the handlers work on, and a further call gets the same answer from both. -/
theorem table_refines_list {ops : List StreamArg} (h : ∀ s ∈ ops, s.Counted) :
    (tableAfter (ops.map some)).items.map StreamArg.toStream =
        (agentAfter (ops.map StreamArg.toStream)).streams.items ∧
      ∀ s : StreamArg, s.Counted →
        ((∃ t', (tableAfter (ops.map some)).applyStream (some s) = some (0, t')) ↔
          (tsnApplyStream (agentAfter (ops.map StreamArg.toStream)) s.toStream).isSome) := by
  have hitems := items_agentAfter h
  refine ⟨hitems.symm, fun s hs => ?_⟩
  rcases applyStream_refines hitems hs.1 hs.2 with ⟨hcall, hlist⟩ | ⟨t', a', hcall, hlist, -⟩
  · rw [hcall, hlist]
    simp
  · rw [hcall, hlist]
    simp

/-- Two calls for two streams, and one more for the first. -/
theorem two_streams_refine :
    (∀ s ∈ ([letterStream 'a' 1, letterStream 'b' 2] : List StreamArg), s.Counted) ∧
      (letterStream 'a' 8).Counted ∧
      ((∃ t', (tableAfter ([letterStream 'a' 1, letterStream 'b' 2].map some)).applyStream
          (some (letterStream 'a' 8)) = some (0, t')) ↔
        (tsnApplyStream (agentAfter ([letterStream 'a' 1, letterStream 'b' 2].map StreamArg.toStream))
          (letterStream 'a' 8).toStream).isSome) := by
  have hcounted : ∀ s ∈ ([letterStream 'a' 1, letterStream 'b' 2] : List StreamArg), s.Counted := by
    intro s hs
    simp only [List.mem_cons, List.not_mem_nil, or_false] at hs
    rcases hs with rfl | rfl
    · exact ⟨by decide, by decide⟩
    · exact ⟨by decide, by decide⟩
  have hlast : (letterStream 'a' 8).Counted := ⟨by decide, by decide⟩
  exact ⟨hcounted, hlast, (table_refines_list hcounted).2 _ hlast⟩

end Htsn.Esp32
