import WirelessTsn.Esp32.Nvs

/-!
The saved networks as `htsn_cfg.c` keeps them: a blob of records of 98 bytes
each, a `char[33]` and a `char[65]`, in which strings are compared, cut, moved
and overwritten in place. What stands behind the NUL of a string is whatever
was there before. The operations on the blob are those of `Nvs` on the list of
its entries.

A byte is a `Char`. NVS returns the last blob that was committed.
-/

namespace Htsn.Esp32

open CText

/-! ### Bytes -/

/-- The string that starts where the bytes do. -/
def cString (p : List Char) : CStr := p.takeWhile (· != '\x00')

/-- The first bytes replaced. -/
def overwrite (dst new : List Char) : List Char := new ++ dst.drop new.length

/-- `memcpy` or `memmove` to an offset. -/
def writeAt (mem : List Char) (pos : Nat) (new : List Char) : List Char :=
  mem.take pos ++ overwrite (mem.drop pos) new

/-- What `htsn_strlcpy` writes to a buffer of `sz` bytes. -/
def strlcpyBytes (src : CStr) (sz : Nat) : List Char := src.take (sz - 1) ++ ['\x00']

/-- The array holds the string; behind its NUL there may be anything. -/
structure HoldsStr {n : Nat} (bytes : List Char) (b : Buf n) : Prop where
  size : bytes.length = n
  starts : ∃ gap, bytes = b.chars ++ '\x00' :: gap
  noNul : '\x00' ∉ b.chars

variable {n : Nat}

theorem HoldsStr.cString_append {bytes : List Char} {b : Buf n} (h : HoldsStr bytes b)
    (rest : List Char) : cString (bytes ++ rest) = b.chars := by
  obtain ⟨gap, rfl⟩ := h.starts
  have hne : ∀ c ∈ b.chars, (c != '\x00') = true :=
    fun c hc => bne_iff_ne.mpr fun heq => h.noNul (heq ▸ hc)
  rw [cString, List.append_assoc, List.takeWhile_append_of_pos hne, List.cons_append,
    List.takeWhile_cons_of_neg (by decide), List.append_nil]

theorem strlcpyBytes_length_le [NeZero n] (src : CStr) : (strlcpyBytes src n).length ≤ n := by
  have hpos : 0 < n := Nat.pos_of_neZero n
  simp only [strlcpyBytes, List.length_append, List.length_take, List.length_singleton]
  omega

/-- A bounded copy over an array, whatever it held. -/
theorem holdsStr_overwrite [NeZero n] {dst : List Char} (hdst : dst.length = n) {src : CStr}
    (hsrc : '\x00' ∉ src) : HoldsStr (overwrite dst (strlcpyBytes src n)) (Buf.copy n src) where
  size := by
    have hle := strlcpyBytes_length_le (n := n) src
    rw [overwrite, List.length_append, List.length_drop, hdst]
    omega
  starts := ⟨dst.drop (strlcpyBytes src n).length, by
    rw [overwrite, Buf.copy_chars, strlcpyBytes, List.append_assoc]
    rfl⟩
  noNul := fun h => hsrc (List.mem_of_mem_take h)

theorem writeAt_append (front : List Char) {dst new : List Char} (hnew : new.length ≤ dst.length)
    (rest : List Char) :
    writeAt (front ++ (dst ++ rest)) front.length new = front ++ (overwrite dst new ++ rest) := by
  rw [writeAt, List.take_left, List.drop_left, overwrite, overwrite,
    List.drop_append_of_le_length hnew, List.append_assoc]

/-! ### Records -/

/-- `sizeof(net_entry_t)` -/
def netSize : Nat := 98

/-- The bytes of one entry. -/
def IsRecord (bytes : List Char) (e : NetEntry) : Prop :=
  ∃ ssid pass, bytes = ssid ++ pass ∧ HoldsStr ssid e.ssid ∧ HoldsStr pass e.pass

theorem IsRecord.length {bytes : List Char} {e : NetEntry} (h : IsRecord bytes e) :
    bytes.length = netSize := by
  obtain ⟨ssid, pass, rfl, hssid, hpass⟩ := h
  rw [List.length_append, hssid.size, hpass.size]
  rfl

theorem IsRecord.ssid {bytes : List Char} {e : NetEntry} (h : IsRecord bytes e)
    (rest : List Char) : cString (bytes ++ rest) = e.ssid.chars := by
  obtain ⟨ssid, pass, rfl, hssid, -⟩ := h
  rw [List.append_assoc]
  exact hssid.cString_append _

theorem IsRecord.pass {bytes : List Char} {e : NetEntry} (h : IsRecord bytes e)
    (rest : List Char) : cString ((bytes ++ rest).drop 33) = e.pass.chars := by
  obtain ⟨ssid, pass, rfl, hssid, hpass⟩ := h
  rw [List.append_assoc, List.drop_left' hssid.size]
  exact hpass.cString_append _

/-- The bytes of a list of entries. -/
inductive IsRecords : List Char → List NetEntry → Prop where
  | nil : IsRecords [] []
  | cons {r bytes : List Char} {e : NetEntry} {es : List NetEntry} :
      IsRecord r e → IsRecords bytes es → IsRecords (r ++ bytes) (e :: es)

theorem IsRecords.length {bytes : List Char} {es : List NetEntry} (h : IsRecords bytes es) :
    bytes.length = netSize * es.length := by
  induction h with
  | nil => rfl
  | cons hr _ ih =>
      rw [List.length_append, hr.length, ih, List.length_cons]
      ring

theorem IsRecords.append {bytes bytes' : List Char} {es es' : List NetEntry}
    (h : IsRecords bytes es) (h' : IsRecords bytes' es') :
    IsRecords (bytes ++ bytes') (es ++ es') := by
  induction h with
  | nil => exact h'
  | cons hr _ ih =>
      rw [List.append_assoc]
      exact .cons hr ih

theorem IsRecord.single {bytes : List Char} {e : NetEntry} (h : IsRecord bytes e) :
    IsRecords bytes [e] := by
  rw [← List.append_nil bytes]
  exact .cons h .nil

theorem IsRecords.split {es es' : List NetEntry} {bytes : List Char}
    (h : IsRecords bytes (es ++ es')) :
    ∃ front rest, bytes = front ++ rest ∧ IsRecords front es ∧ IsRecords rest es' := by
  induction es generalizing bytes with
  | nil => exact ⟨[], bytes, rfl, .nil, h⟩
  | cons e es ih =>
      cases h with
      | cons hr h =>
          obtain ⟨front, rest, rfl, hfront, hrest⟩ := ih h
          exact ⟨_ ++ front, rest, (List.append_assoc _ _ _).symm, .cons hr hfront, hrest⟩

/-! ### `htsn_cfg.c` -/

/-- What NVS keeps under `net_list`. -/
abbrev Stored := Option (List Char)

/-- `htsn_cfg_net_count`, with `net_count_from_blob` -/
def netCount : Stored → Nat
  | none => 0
  | some blob => min (blob.length / netSize) netMax

/-- `net_load_blob` into an array of `netMax` records. -/
def netLoadBlob : Stored → List Char
  | none => List.replicate (netMax * netSize) '\x00'
  | some blob =>
      if blob.length ≤ netMax * netSize then
        blob ++ List.replicate (netMax * netSize - blob.length) '\x00'
      else List.replicate (netMax * netSize) '\x00'

/-- `net_save_blob` -/
def netSaveBlob (blob : List Char) (n : Nat) : Stored :=
  if n = 0 then none else some (blob.take (n * netSize))

/-- The network that `htsn_cfg_net_get` copies out. -/
def netAt (blob : List Char) (i : Nat) : CStr × CStr :=
  (cString (blob.drop (i * netSize)), cString (blob.drop (i * netSize + 33)))

/-- The networks in order. -/
def nets (stored : Stored) : List (CStr × CStr) :=
  (List.range (netCount stored)).map (netAt (netLoadBlob stored))

/-- The search of `htsn_cfg_net_add` over `n` records from the `i`-th on. -/
def netFind (blob : List Char) (ssid : CStr) : Nat → Nat → Option Nat
  | 0, _ => none
  | n + 1, i =>
      if cString (blob.drop (i * netSize)) = ssid then some i else netFind blob ssid n (i + 1)

/-- The `memmove` of a full list. -/
def netDropOldest (blob : List Char) : List Char :=
  writeAt blob 0 ((blob.drop netSize).take ((netMax - 1) * netSize))

/-- The end of `htsn_cfg_net_add`: a record behind `cnt` others. -/
def netAppend (blob : List Char) (cnt : Nat) (ssid pass : CStr) : Stored :=
  let blob := writeAt blob (cnt * netSize) (strlcpyBytes ssid 33)
  let blob := writeAt blob (cnt * netSize + 33) (strlcpyBytes pass 65)
  netSaveBlob blob (cnt + 1)

/-- The list of `htsn_cfg_net_add` for a password that is not `NULL`, and its
answer. -/
def netAddBlob (stored : Stored) (ssid pass : CStr) : Stored × Bool :=
  if ssid = [] then (stored, false)
  else
    let cnt := netCount stored
    let blob := netLoadBlob stored
    match netFind blob ssid cnt 0 with
    | some i =>
        (netSaveBlob (writeAt blob (i * netSize + 33) (strlcpyBytes pass 65)) cnt, false)
    | none =>
        (if cnt ≥ netMax then netAppend (netDropOldest blob) (netMax - 1) ssid pass
          else netAppend blob cnt ssid pass, true)

/-- The loop of `htsn_cfg_net_remove` over `n` records from the `i`-th on,
of which `out` were kept so far. -/
def netCompact (ssid : CStr) : Nat → Nat → Nat → List Char → Nat × List Char
  | 0, _, out, blob => (out, blob)
  | n + 1, i, out, blob =>
      if cString (blob.drop (i * netSize)) = ssid then netCompact ssid n (i + 1) out blob
      else
        let blob :=
          if out ≠ i then writeAt blob (out * netSize) ((blob.drop (i * netSize)).take netSize)
          else blob
        netCompact ssid n (i + 1) (out + 1) blob

/-- `htsn_cfg_net_remove` -/
def netRemoveBlob (stored : Stored) (ssid : CStr) : Stored :=
  if ssid = [] then stored
  else
    let cnt := netCount stored
    if cnt = 0 then stored
    else
      let (out, blob) := netCompact ssid cnt 0 0 (netLoadBlob stored)
      netSaveBlob blob out

/-- `htsn_cfg_net_clear` -/
def netClearBlob : Stored := netSaveBlob [] 0

/-- `htsn_cfg_net_remove` on the list of entries. -/
def Nvs.netRemove (nvs : Nvs) (ssid : CStr) : Nvs :=
  if ssid = [] then nvs
  else
    { nvs with
      netList := nvs.netList.edit (List.filter fun e => e.ssid.chars ≠ ssid)
        (List.length_filter_le _ _) }

/-! ### The blob of a list -/

/-- An empty list has no blob. -/
inductive Stores : Stored → List NetEntry → Prop where
  | none : Stores none []
  | some {blob : List Char} {es : List NetEntry} :
      IsRecords blob es → es ≠ [] → Stores (some blob) es

variable {stored : Stored} {es : List NetEntry}

theorem stores_save {bytes : List Char} (h : IsRecords bytes es) (rest : List Char) :
    Stores (netSaveBlob (bytes ++ rest) es.length) es := by
  rw [netSaveBlob]
  by_cases hnil : es = []
  · rw [if_pos (List.length_eq_zero_iff.mpr hnil), hnil]
    exact .none
  · rw [if_neg fun h0 => hnil (List.length_eq_zero_iff.mp h0), Nat.mul_comm,
      List.take_left' h.length]
    exact .some h hnil

theorem Stores.count (h : Stores stored es) (hfit : es.length ≤ netMax) :
    netCount stored = es.length := by
  cases h with
  | none => rfl
  | some h _ =>
      rw [netCount, h.length, Nat.mul_div_cancel_left _ (by decide), Nat.min_eq_left hfit]

/-- The loaded array starts with the records. -/
theorem Stores.load (h : Stores stored es) (hfit : es.length ≤ netMax) :
    ∃ bytes rest, netLoadBlob stored = bytes ++ rest ∧ IsRecords bytes es ∧
      es.length * netSize + rest.length = netMax * netSize := by
  cases h with
  | none =>
      refine ⟨[], List.replicate (netMax * netSize) '\x00', rfl, .nil, ?_⟩
      rw [List.length_nil, Nat.zero_mul, Nat.zero_add, List.length_replicate]
  | @some blob _ h _ =>
      have hle : es.length * netSize ≤ netMax * netSize := Nat.mul_le_mul_right _ hfit
      have hlen : blob.length = es.length * netSize := h.length.trans (Nat.mul_comm _ _)
      refine ⟨blob, List.replicate (netMax * netSize - blob.length) '\x00', ?_, h, ?_⟩
      · rw [netLoadBlob, if_pos (hlen ▸ hle)]
      · rw [List.length_replicate, hlen]
        omega

/-- The search from an entry on. -/
theorem netFind_records {bytes : List Char} (h : IsRecords bytes es) (ssid : CStr) (i : Nat)
    (front rest : List Char) (hfront : front.length = i * netSize) :
    netFind (front ++ (bytes ++ rest)) ssid es.length i =
      (es.findIdx? fun e => e.ssid.chars = ssid).map (i + ·) := by
  induction h generalizing i front with
  | nil => rfl
  | @cons r bytes e es hr _ ih =>
      have hstr : cString ((front ++ (r ++ bytes ++ rest)).drop (i * netSize)) = e.ssid.chars := by
        rw [← hfront, List.drop_left, List.append_assoc]
        exact hr.ssid _
      have hnext : (front ++ r).length = (i + 1) * netSize := by
        rw [List.length_append, hfront, hr.length]
        ring
      have hshift : front ++ (r ++ bytes ++ rest) = front ++ r ++ (bytes ++ rest) := by
        simp only [List.append_assoc]
      rw [List.length_cons, netFind, hstr, List.findIdx?_cons]
      by_cases hssid : e.ssid.chars = ssid
      · simp [hssid]
      · rw [if_neg hssid, hshift, ih (i + 1) (front ++ r) hnext]
        simp [hssid, Option.map_map, Function.comp_def, Nat.add_assoc, Nat.add_comm 1]

theorem netAt_record {r : List Char} {e : NetEntry} (hr : IsRecord r e) (i : Nat)
    (front rest : List Char) (hfront : front.length = i * netSize) :
    netAt (front ++ (r ++ rest)) i = (e.ssid.chars, e.pass.chars) := by
  rw [netAt, ← hfront, List.drop_left, hr.ssid, ← List.drop_drop, List.drop_left, hr.pass]

theorem map_netAt {bytes : List Char} (h : IsRecords bytes es) (i : Nat) (front rest : List Char)
    (hfront : front.length = i * netSize) :
    (List.range' i es.length).map (netAt (front ++ (bytes ++ rest))) =
      es.map fun e => (e.ssid.chars, e.pass.chars) := by
  induction h generalizing i front with
  | nil => rfl
  | @cons r bytes e es hr _ ih =>
      have hnext : (front ++ r).length = (i + 1) * netSize := by
        rw [List.length_append, hfront, hr.length]
        ring
      have hrest := ih (i + 1) (front ++ r) hnext
      rw [List.append_assoc front] at hrest
      rw [List.length_cons, List.range'_succ, List.map_cons, List.map_cons, List.append_assoc r,
        netAt_record hr i front _ hfront, hrest]

/-- The stored networks are those of the entries. -/
theorem Stores.nets_eq (h : Stores stored es) (hfit : es.length ≤ netMax) :
    nets stored = es.map fun e => (e.ssid.chars, e.pass.chars) := by
  obtain ⟨bytes, rest, hload, hrecords, -⟩ := h.load hfit
  rw [nets, h.count hfit, hload, List.range_eq_range']
  exact map_netAt hrecords 0 [] rest rfl

/-! ### Adding -/

/-- A password written over that of a record. -/
theorem IsRecord.setPass {r : List Char} {e : NetEntry} (hr : IsRecord r e) {pass : CStr}
    (hpass : '\x00' ∉ pass) (i : Nat) (front rest : List Char)
    (hfront : front.length = i * netSize) :
    ∃ r', writeAt (front ++ (r ++ rest)) (i * netSize + 33) (strlcpyBytes pass 65) =
        front ++ (r' ++ rest) ∧
      IsRecord r' { e with pass := Buf.copy 65 pass } := by
  obtain ⟨sbytes, pbytes, rfl, hs, hp⟩ := hr
  refine ⟨sbytes ++ overwrite pbytes (strlcpyBytes pass 65), ?_,
    sbytes, _, rfl, hs, holdsStr_overwrite hp.size hpass⟩
  have hle : (strlcpyBytes pass 65).length ≤ pbytes.length := by
    rw [hp.size]
    exact strlcpyBytes_length_le pass
  have hpos : (front ++ sbytes).length = i * netSize + 33 := by
    rw [List.length_append, hfront, hs.size]
  have hwrite := writeAt_append (front ++ sbytes) hle rest
  rw [hpos] at hwrite
  simpa only [List.append_assoc] using hwrite

/-- Both strings written over any record. -/
theorem isRecord_write {r : List Char} (hr : r.length = netSize) {ssid pass : CStr}
    (hssid : '\x00' ∉ ssid) (hpass : '\x00' ∉ pass) (i : Nat) (front rest : List Char)
    (hfront : front.length = i * netSize) :
    ∃ r', writeAt (writeAt (front ++ (r ++ rest)) (i * netSize) (strlcpyBytes ssid 33))
        (i * netSize + 33) (strlcpyBytes pass 65) = front ++ (r' ++ rest) ∧
      IsRecord r' ⟨Buf.copy 33 ssid, Buf.copy 65 pass⟩ := by
  have htake : (r.take 33).length = 33 := by simp [hr, netSize]
  have hdrop : (r.drop 33).length = 65 := by simp [hr, netSize]
  have hle : (strlcpyBytes ssid 33).length ≤ (r.take 33).length := by
    rw [htake]
    exact strlcpyBytes_length_le ssid
  have hs := holdsStr_overwrite htake hssid
  have hwrite := writeAt_append front hle (r.drop 33 ++ rest)
  rw [hfront, ← List.append_assoc (r.take 33), List.take_append_drop] at hwrite
  have hle' : (strlcpyBytes pass 65).length ≤ (r.drop 33).length := by
    rw [hdrop]
    exact strlcpyBytes_length_le pass
  have hpos : (front ++ overwrite (r.take 33) (strlcpyBytes ssid 33)).length = i * netSize + 33 := by
    rw [List.length_append, hfront, hs.size]
  have hwrite' := writeAt_append (front ++ overwrite (r.take 33) (strlcpyBytes ssid 33)) hle' rest
  rw [hpos] at hwrite'
  refine ⟨overwrite (r.take 33) (strlcpyBytes ssid 33) ++ overwrite (r.drop 33) (strlcpyBytes pass 65),
    ?_, _, _, rfl, hs, holdsStr_overwrite hdrop hpass⟩
  rw [hwrite]
  simpa only [List.append_assoc] using hwrite'

/-- A new record behind the others. -/
theorem stores_append {bytes : List Char} (h : IsRecords bytes es) {rest : List Char}
    (hrest : netSize ≤ rest.length) {ssid pass : CStr} (hssid : '\x00' ∉ ssid)
    (hpass : '\x00' ∉ pass) :
    Stores (netAppend (bytes ++ rest) es.length ssid pass)
      (es ++ [⟨Buf.copy 33 ssid, Buf.copy 65 pass⟩]) := by
  have htake : (rest.take netSize).length = netSize := List.length_take_of_le hrest
  obtain ⟨r', hwrite, hr'⟩ := isRecord_write htake hssid hpass es.length bytes (rest.drop netSize)
    (h.length.trans (Nat.mul_comm _ _))
  rw [List.take_append_drop] at hwrite
  have hsave := stores_save (h.append hr'.single) (rest.drop netSize)
  rw [List.length_append, List.length_singleton, List.append_assoc, ← hwrite] at hsave
  exact hsave

/-- What a full array holds once its oldest record is dropped. -/
theorem netDropOldest_records {r bytes : List Char} (hr : r.length = netSize)
    (hbytes : bytes.length = (netMax - 1) * netSize) :
    netDropOldest (r ++ bytes) = bytes ++ (r ++ bytes).drop ((netMax - 1) * netSize) := by
  rw [netDropOldest, List.drop_left' hr, List.take_of_length_le hbytes.le, writeAt, List.take_zero,
    List.nil_append, List.drop_zero, overwrite, hbytes]

/-- The list of `Nvs.netAdd`, and its answer. -/
theorem Nvs.netAdd_eq (nvs : Nvs) {ssid : CStr} (hssid : ssid ≠ []) (pass : CStr) :
    ((nvs.netAdd ssid pass).1.netList.items, (nvs.netAdd ssid pass).2) =
      match nvs.netList.items.findIdx? fun e => e.ssid.chars = ssid with
      | some i => (nvs.netList.items.modify i fun e => { e with pass := Buf.copy 65 pass }, false)
      | none => ((pushNet nvs.netList ⟨Buf.copy 33 ssid, Buf.copy 65 pass⟩).items, true) := by
  have hlist : (nvs.setWifi ssid pass).netList = nvs.netList := rfl
  rw [Nvs.netAdd, if_neg hssid]
  simp only [hlist]
  cases nvs.netList.items.findIdx? fun e => e.ssid.chars = ssid <;> rfl

theorem pushNet_items (nets : Slots NetEntry netMax) (e : NetEntry) :
    (pushNet nets e).items =
      (if nets.items.length ≥ netMax then nets.items.drop 1 else nets.items) ++ [e] := by
  have hfit := nets.fits
  rw [pushNet]
  by_cases hfull : nets.items.length ≥ netMax
  · have hroom : (nets.edit (List.drop 1) (by simp)).items.length < netMax := by
      rw [Slots.edit_items, List.length_drop]
      have hpos : 0 < netMax := by decide
      omega
    rw [if_pos hfull, if_pos hfull, Slots.push, dif_pos hroom]
    rfl
  · rw [if_neg hfull, if_neg hfull, Slots.push, dif_pos (Nat.lt_of_not_ge hfull)]

/-- A new network in the blob of a list. -/
theorem Stores.pushNet {nets : Slots NetEntry netMax} {bytes rest : List Char}
    (hrecords : IsRecords bytes nets.items)
    (hroom : nets.items.length * netSize + rest.length = netMax * netSize) {ssid pass : CStr}
    (hssid : '\x00' ∉ ssid) (hpass : '\x00' ∉ pass) :
    Stores
      (if nets.items.length ≥ netMax then netAppend (netDropOldest (bytes ++ rest)) (netMax - 1) ssid pass
        else netAppend (bytes ++ rest) nets.items.length ssid pass)
      (Esp32.pushNet nets ⟨Buf.copy 33 ssid, Buf.copy 65 pass⟩).items := by
  rw [pushNet_items]
  by_cases hfull : nets.items.length ≥ netMax
  · rw [if_pos hfull, if_pos hfull]
    have hlen : nets.items.length = netMax := Nat.le_antisymm nets.fits hfull
    have hrest : rest = [] := by
      rw [hlen] at hroom
      exact List.length_eq_zero_iff.mp (by omega)
    cases hitems : nets.items with
    | nil =>
        rw [hitems] at hlen
        cases hlen
    | cons e es =>
        rw [hitems] at hrecords hlen
        have hes : es.length = netMax - 1 := by
          rw [← hlen]
          rfl
        cases hrecords with
        | @cons r more _ _ hr hmore =>
            have hbytes : more.length = (netMax - 1) * netSize := by
              rw [hmore.length, hes, Nat.mul_comm]
            rw [hrest, List.append_nil, netDropOldest_records hr.length hbytes, ← hes]
            refine stores_append hmore ?_ hssid hpass
            rw [List.length_drop, List.length_append, hr.length, hbytes, hes]
            omega
  · rw [if_neg hfull, if_neg hfull]
    have hlt : (nets.items.length + 1) * netSize ≤ netMax * netSize :=
      Nat.mul_le_mul_right _ (Nat.lt_of_not_ge hfull)
    refine stores_append hrecords ?_ hssid hpass
    rw [Nat.succ_mul] at hlt
    omega

/-- A new password in the blob of a list. -/
theorem Stores.modify {bytes : List Char} (hrecords : IsRecords bytes es) (rest : List Char)
    {pass : CStr} (hpass : '\x00' ∉ pass) {i : Nat} (hi : i < es.length) :
    Stores
      (netSaveBlob (writeAt (bytes ++ rest) (i * netSize + 33) (strlcpyBytes pass 65)) es.length)
      (es.modify i fun e => { e with pass := Buf.copy 65 pass }) := by
  have hsplit : es = es.take i ++ es[i] :: es.drop (i + 1) := by
    rw [← List.drop_eq_getElem_cons hi, List.take_append_drop]
  rw [hsplit] at hrecords
  obtain ⟨front, tail, rfl, hfront, htail⟩ := hrecords.split
  cases htail with
  | @cons r more _ _ hr hmore =>
      have hpos : front.length = i * netSize := by
        rw [hfront.length, List.length_take_of_le hi.le, Nat.mul_comm]
      obtain ⟨r', hwrite, hr'⟩ := hr.setPass hpass i front (more ++ rest) hpos
      have hsave := stores_save (hfront.append (.cons hr' hmore)) rest
      rw [List.append_assoc, List.append_assoc, ← hwrite] at hsave
      have hlen : (es.modify i fun e => { e with pass := Buf.copy 65 pass }).length = es.length :=
        List.length_modify ..
      rw [List.modify_eq_take_cons_drop hi] at hlen ⊢
      rw [hlen] at hsave
      rw [List.append_assoc, List.append_assoc]
      exact hsave

/-- Adding to the blob adds to the list. -/
theorem Stores.netAdd {nvs : Nvs} (h : Stores stored nvs.netList.items) {ssid pass : CStr}
    (hssid : '\x00' ∉ ssid) (hpass : '\x00' ∉ pass) :
    Stores (netAddBlob stored ssid pass).1 (nvs.netAdd ssid pass).1.netList.items ∧
      (netAddBlob stored ssid pass).2 = (nvs.netAdd ssid pass).2 := by
  by_cases hnil : ssid = []
  · rw [netAddBlob, Nvs.netAdd, if_pos hnil, if_pos hnil]
    exact ⟨h, rfl⟩
  have hfit := nvs.netList.fits
  obtain ⟨bytes, rest, hload, hrecords, hroom⟩ := h.load hfit
  have hfind := netFind_records hrecords ssid 0 [] rest rfl
  have heq := Nvs.netAdd_eq nvs hnil pass
  rw [netAddBlob, if_neg hnil]
  simp only [h.count hfit, hload, List.nil_append] at hfind ⊢
  rw [hfind]
  cases hidx : nvs.netList.items.findIdx? fun e => e.ssid.chars = ssid with
  | some i =>
      rw [hidx] at heq
      obtain ⟨hitems, hanswer⟩ := Prod.mk.inj heq
      obtain ⟨hi, -⟩ := List.findIdx?_eq_some_iff_getElem.mp hidx
      rw [hitems, hanswer, Option.map_some, Nat.zero_add]
      exact ⟨.modify hrecords rest hpass hi, rfl⟩
  | none =>
      rw [hidx] at heq
      obtain ⟨hitems, hanswer⟩ := Prod.mk.inj heq
      rw [hitems, hanswer, Option.map_none]
      exact ⟨.pushNet hrecords hroom hssid hpass, rfl⟩

/-! ### Removing -/

/-- A record moved down to the end of what was kept. -/
theorem writeAt_slot {r junk : List Char} (hr : r.length = netSize) {i out : Nat} (front : List Char)
    (tail : List Char) (hfront : front.length = out * netSize)
    (hjunk : front.length + junk.length = i * netSize) :
    (if out ≠ i then writeAt (front ++ (junk ++ (r ++ tail))) (out * netSize) r
      else front ++ (junk ++ (r ++ tail))) =
      front ++ (r ++ ((junk ++ r).drop netSize ++ tail)) := by
  by_cases hout : out = i
  · have hnil : junk = [] := by
      rw [hfront, hout] at hjunk
      exact List.length_eq_zero_iff.mp (by omega)
    rw [if_neg (not_not.mpr hout), hnil, List.nil_append, List.nil_append, List.drop_of_length_le hr.le,
      List.nil_append]
  · have hslot : ((junk ++ r).take netSize).length = netSize := by
      rw [List.length_take, List.length_append, hr]
      omega
    have hwrite := writeAt_append front (hr.trans hslot.symm).le ((junk ++ r).drop netSize ++ tail)
    rw [← List.append_assoc ((junk ++ r).take netSize), List.take_append_drop, hfront] at hwrite
    rw [if_pos hout, ← List.append_assoc junk, hwrite, overwrite,
      List.drop_of_length_le (hslot.trans hr.symm).le, List.append_nil]

/-- The loop from a record on: what is kept moves down behind what was kept
before. -/
theorem netCompact_records {bytes : List Char} (h : IsRecords bytes es) (ssid : CStr)
    (i out : Nat) (front junk rest : List Char) (hfront : front.length = out * netSize)
    (hjunk : front.length + junk.length = i * netSize) :
    ∃ kept behind,
      netCompact ssid es.length i out (front ++ (junk ++ (bytes ++ rest))) =
        (out + (es.filter fun e => e.ssid.chars ≠ ssid).length, front ++ (kept ++ behind)) ∧
      IsRecords kept (es.filter fun e => e.ssid.chars ≠ ssid) := by
  induction h generalizing i out front junk with
  | nil => exact ⟨[], junk ++ ([] ++ rest), rfl, .nil⟩
  | @cons r bytes e es hr _ ih =>
      have hdrop : (front ++ (junk ++ (r ++ (bytes ++ rest)))).drop (i * netSize) =
          r ++ (bytes ++ rest) := by
        rw [← List.append_assoc front, ← List.length_append.trans hjunk, List.drop_left]
      rw [List.length_cons, netCompact, List.append_assoc r, hdrop, hr.ssid, List.take_left' hr.length]
      by_cases hssid : e.ssid.chars = ssid
      · have hnext : front.length + (junk ++ r).length = (i + 1) * netSize := by
          rw [List.length_append, ← Nat.add_assoc, hjunk, hr.length, Nat.succ_mul]
        obtain ⟨kept, behind, hrun, hkept⟩ := ih (i + 1) out front (junk ++ r) hfront hnext
        rw [if_pos hssid, List.filter_cons_of_neg (by simpa using hssid)]
        refine ⟨kept, behind, ?_, hkept⟩
        rw [← hrun, List.append_assoc junk]
      · have hkeep : (front ++ r).length = (out + 1) * netSize := by
          rw [List.length_append, hfront, hr.length, Nat.succ_mul]
        have hnext : (front ++ r).length + ((junk ++ r).drop netSize).length = (i + 1) * netSize := by
          rw [List.length_drop, List.length_append, List.length_append, hr.length, Nat.succ_mul]
          omega
        obtain ⟨kept, behind, hrun, hkept⟩ :=
          ih (i + 1) (out + 1) (front ++ r) ((junk ++ r).drop netSize) hkeep hnext
        rw [if_neg hssid, List.filter_cons_of_pos (by simpa using hssid)]
        refine ⟨r ++ kept, behind, ?_, .cons hr hkept⟩
        rw [List.append_assoc front] at hrun
        simp only [writeAt_slot hr.length front (bytes ++ rest) hfront hjunk, hrun, List.length_cons,
          List.append_assoc, Nat.add_assoc, Nat.add_comm 1]

/-- Removing from the blob removes from the list. -/
theorem Stores.netRemove {nvs : Nvs} (h : Stores stored nvs.netList.items) (ssid : CStr) :
    Stores (netRemoveBlob stored ssid) (nvs.netRemove ssid).netList.items := by
  rw [netRemoveBlob, Nvs.netRemove]
  by_cases hnil : ssid = []
  · rw [if_pos hnil, if_pos hnil]
    exact h
  have hfit := nvs.netList.fits
  rw [if_neg hnil, if_neg hnil]
  simp only [h.count hfit, Slots.edit_items]
  by_cases hzero : nvs.netList.items.length = 0
  · rw [if_pos hzero, List.length_eq_zero_iff.mp hzero]
    rw [List.length_eq_zero_iff.mp hzero] at h
    exact h
  · obtain ⟨bytes, rest, hload, hrecords, -⟩ := h.load hfit
    obtain ⟨kept, behind, hrun, hkept⟩ := netCompact_records hrecords ssid 0 0 [] [] rest rfl rfl
    simp only [List.nil_append, Nat.zero_add] at hrun
    rw [if_neg hzero, hload, hrun]
    exact stores_save hkept behind

theorem stores_netClear (nvs : Nvs) : Stores netClearBlob nvs.netClear.netList.items := .none

end Htsn.Esp32
