import WirelessTsn.Lib.Json
import WirelessTsn.Wired.Convergence

/-!
The way of a configuration from the `cmd_tsn_config` node to the endpoint and
back into the `tsn_app_*` nodes. The bridge copies the first 384 bytes of the
JSON text and searches them for each key, so what arrives is the configuration
exactly when everything that is not zero or empty can be read there.
-/

namespace Htsn

open CText Json

/-! ### What a configuration text says -/

/-- The integers of an array; absent members count as empty. -/
def listOf (o : Object) (key : CStr) : List Int :=
  ((findMember key o.members).map fun m => m.val.intList).getD []

/-- The scalar fields with the bounds of `htsn_tsn_cfg_t`. -/
def scalarBounds : List (CStr × Int × Int) :=
  [("priority".toList, 0, 7), ("traffic_class".toList, 0, 7), ("vlan_id".toList, 0, 4094),
    ("preemption".toList, 0, 2), ("timesync_mode".toList, 0, 2), ("st_role".toList, 0, 2),
    ("st_vlan".toList, 0, 4094), ("st_prio".toList, 0, 7),
    ("tas_cycle_ns".toList, -(2 ^ 63), 2 ^ 63 - 1)]

def gsKey : CStr := "gcl_gs".toList
def durKey : CStr := "gcl_dur".toList

/-- A configuration within the documented ranges: an object with one member
for a key, integers in the scalar fields, and two arrays of one length. -/
structure IsConfig (o : Object) : Prop where
  distinct : Distinct o.members
  scalars : ∀ f ∈ scalarBounds, ∀ m, findMember f.1 o.members = some m →
    ∃ neg n tail, m.val = .num neg n tail ∧ tail.chars = []
  lists : ∀ key ∈ [gsKey, durKey], ∀ m, findMember key o.members = some m →
    ∃ pad items, m.val = .ints pad items
  bounds : ∀ f ∈ scalarBounds, f.2.1 ≤ scalarOf o f.1 ∧ scalarOf o f.1 ≤ f.2.2
  lengths : (listOf o gsKey).length = (listOf o durKey).length
  count : (listOf o gsKey).length ≤ maxGcl
  gates : ∀ v ∈ listOf o gsKey, 0 ≤ v ∧ v ≤ 255
  durations : ∀ v ∈ listOf o durKey, 0 ≤ v

/-! ### What can be read of it -/

/-- A scalar is read whole: its key stands directly before the colon, and its
last digit within the first 384 bytes. -/
def ScalarReadable (o : Object) (key : CStr) : Prop :=
  ∃ off m later neg n tail, o.locate key = some (off, m, later) ∧ m.val = .num neg n tail ∧
    m.mid.chars = [] ∧
    off + m.valueAt + (m.post.chars.length + (numText neg n).length) ≤ frameMaxplen

/-- The elements before the last are followed by nothing but spaces. -/
def SpacedItems : List Item → Prop
  | [] => True
  | [_] => True
  | i :: is => (∀ c ∈ i.fin.chars, c = ' ') ∧ SpacedItems is

/-- The length of an array up to the last digit of its last element. -/
def reachItems : List Item → Nat
  | [] => 0
  | [i] => i.pre.chars.length + (numText i.neg i.n).length
  | i :: is =>
      i.pre.chars.length + (numText i.neg i.n).length + i.fin.chars.length + 1 + reachItems is

/-- An array is read whole: its key stands directly before the colon, nothing
but spaces and tabs before the bracket, nothing but spaces before a comma, and
its last digit within the first 384 bytes. -/
def ListReadable (o : Object) (key : CStr) : Prop :=
  ∃ off m later pad items, o.locate key = some (off, m, later) ∧ m.val = .ints pad items ∧
    m.mid.chars = [] ∧ (∀ c ∈ m.post.chars, isBlank c = true) ∧ SpacedItems items ∧
    off + m.valueAt + (m.post.chars.length + 1 + reachItems items) ≤ frameMaxplen

/-- Everything that is not zero or empty is read whole, and the durations fit
`long long`. -/
def ConfigReadable (o : Object) : Prop :=
  (∀ f ∈ scalarBounds, scalarOf o f.1 ≠ 0 → ScalarReadable o f.1) ∧
  (listOf o gsKey ≠ [] → ListReadable o gsKey ∧ ListReadable o durKey ∧
    ∀ v ∈ listOf o durKey, v < 2 ^ 63)

/-! ### Reading a scalar -/

theorem jpat_eq {key : CStr} (h : key.length ≤ 60) : jpat key = keyPat key := by
  rw [jpat, keyPat, List.cons_append]
  exact List.take_of_length_le (by simp; omega)

theorem jfind_object {key : CStr} (hkey : IsKey key) (hlen : key.length ≤ 60) {o : Object}
    (hdist : Distinct o.members) (n : Nat) :
    jfind (o.text.take n) key =
      (searched o.trail n (o.locate key)).map fun p => p.dropWhile isBlank := by
  rw [jfind, jpat_eq hlen, strstr_object hkey hdist, Option.map_map]
  congr 1
  funext p
  simp

theorem scanInt_dropWhile_isBlank (s : CStr) : scanInt (s.dropWhile isBlank) = scanInt s := by
  have hdrop : (s.dropWhile isBlank).dropWhile isSpace = s.dropWhile isSpace := by
    induction s with
    | nil => rfl
    | cons c s ih =>
        by_cases hc : isBlank c = true
        · have hspace : isSpace c = true := by
            simp only [isBlank, Bool.or_eq_true, beq_iff_eq] at hc
            rcases hc with rfl | rfl <;> rfl
          rw [List.dropWhile_cons_of_pos hc, List.dropWhile_cons_of_pos hspace, ih]
        · rw [List.dropWhile_cons_of_neg hc]
  simp only [scanInt, hdrop]

theorem strtoll_toInt {p rest : CStr} {v : Int} (h : scanInt p = some (v, rest))
    (hlo : -(2 ^ 63) ≤ v) (hhi : v < 2 ^ 63) : (strtoll p).toInt = v := by
  rw [strtoll, h]
  exact toInt_toCLongLong hlo hhi

theorem strtoll_none {p : CStr} (h : scanInt p = none) : strtoll p = 0 := by
  rw [strtoll, h]

theorem scalarReadable_iff {o : Object} {key : CStr} {off : Nat} {m : Member}
    {later : List Member} {neg : Bool} {n : Nat} {tail : NumTail}
    (hloc : o.locate key = some (off, m, later)) (hval : m.val = .num neg n tail) :
    ScalarReadable o key ↔ m.mid.chars = [] ∧
      off + m.valueAt + (m.post.chars.length + (numText neg n).length) ≤ frameMaxplen := by
  constructor
  · rintro ⟨off', m', later', neg', n', tail', hloc', hval', hmid, hend⟩
    rw [hloc, Option.some.injEq, Prod.mk.injEq, Prod.mk.injEq] at hloc'
    obtain ⟨rfl, rfl, rfl⟩ := hloc'
    rw [hval, Value.num.injEq] at hval'
    obtain ⟨rfl, rfl, rfl⟩ := hval'
    exact ⟨hmid, hend⟩
  · rintro ⟨hmid, hend⟩
    exact ⟨off, m, later, neg, n, tail, hloc, hval, hmid, hend⟩

/-- A number behind a colon, in a text cut `b` characters after the colon. -/
theorem strtoll_value {m : Member} {neg : Bool} {n : Nat} {tail : NumTail}
    (hval : m.val = .num neg n tail) (htail : tail.chars = []) (trail : CStr)
    (later : List Member) (hlo : -(2 ^ 63) ≤ numVal neg n) (hhi : numVal neg n < 2 ^ 63) (b : Nat) :
    ∃ v, (strtoll (((m.valueText (membersTail trail later)).take b).dropWhile isBlank)).toInt = v ∧
      min (numVal neg n) 0 ≤ v ∧ v ≤ max (numVal neg n) 0 ∧
      (v = numVal neg n ↔
        (numVal neg n ≠ 0 → m.post.chars.length + (numText neg n).length ≤ b)) := by
  have htext : m.valueText (membersTail trail later) =
      m.post.chars ++ (numText neg n ++ (m.fin.chars ++ membersTail trail later)) := by
    rw [Member.valueText, hval, Value.text, htail, List.nil_append]
  by_cases hfits : m.post.chars.length + (numText neg n).length ≤ b
  · have hread := scanInt_take m.post neg n (afterValue_not_digit m.fin trail later) hfits
    rw [← htext, ← scanInt_dropWhile_isBlank] at hread
    exact ⟨numVal neg n, strtoll_toInt hread hlo hhi, by omega, by omega, by simp [hfits]⟩
  · have hread := scanInt_take_cut m.post neg n (m.fin.chars ++ membersTail trail later)
      (Nat.lt_of_not_le hfits)
    rw [← htext, ← scanInt_dropWhile_isBlank] at hread
    rcases hread with hnone | ⟨v, hsome, hne, hmin, hmax⟩
    · rw [strtoll_none hnone]
      refine ⟨0, rfl, by omega, by omega, ?_⟩
      simp only [hfits, imp_false, ne_eq, not_not]
      omega
    · refine ⟨v, strtoll_toInt hsome (by omega) (by omega), hmin, hmax, ?_⟩
      simp only [hfits, imp_false, ne_eq, not_not]
      omega

/-- A scalar field as the bridge reads it lies between the value and zero, and
is the value exactly when that is zero or can be read whole. -/
theorem jint_object {key : CStr} (hkey : IsKey key) (hlen : key.length ≤ 60) {o : Object}
    (hdist : Distinct o.members)
    (hnum : ∀ m, findMember key o.members = some m →
      ∃ neg n tail, m.val = .num neg n tail ∧ tail.chars = [])
    (hlo : -(2 ^ 63) ≤ scalarOf o key) (hhi : scalarOf o key < 2 ^ 63) :
    ∃ v, (jint (o.text.take frameMaxplen) key 0).toInt = v ∧
      min (scalarOf o key) 0 ≤ v ∧ v ≤ max (scalarOf o key) 0 ∧
      (v = scalarOf o key ↔ (scalarOf o key ≠ 0 → ScalarReadable o key)) := by
  have hfind := jfind_object hkey hlen hdist frameMaxplen
  rw [jint]
  cases hloc : o.locate key with
  | none =>
      have habsent : scalarOf o key = 0 := by
        rw [scalarOf, findMember_of_locate_none hloc]
        rfl
      rw [hloc] at hfind
      rw [hfind, habsent]
      exact ⟨0, rfl, by omega, by omega, by simp⟩
  | some l =>
      obtain ⟨off, m, later⟩ := l
      obtain ⟨neg, n, tail, hval, htail⟩ := hnum m (findMember_of_locate hloc)
      have hscalar : scalarOf o key = numVal neg n := by
        rw [scalarOf, findMember_of_locate hloc, intOf, Option.map_some, Option.getD_some, hval, Value.int]
      rw [scalarReadable_iff hloc hval]
      rw [hscalar] at hlo hhi ⊢
      rw [hloc, searched] at hfind
      by_cases hstart : m.mid.chars = [] ∧ off + m.valueAt ≤ frameMaxplen
      · rw [if_pos hstart] at hfind
        rw [hfind]
        obtain ⟨v, hv, hmin, hmax, hiff⟩ := strtoll_value hval htail o.trail.chars later hlo hhi
          (frameMaxplen - (off + m.valueAt))
        refine ⟨v, hv, hmin, hmax, hiff.trans (imp_congr_right fun _ => ?_)⟩
        have hpos : 0 < (numText neg n).length := List.length_pos_iff.mpr (numText_ne_nil neg n)
        constructor
        · intro hb
          exact ⟨hstart.1, by omega⟩
        · rintro ⟨_, hend⟩
          omega
      · rw [if_neg hstart] at hfind
        rw [hfind]
        refine ⟨0, rfl, by omega, by omega, ?_⟩
        have hnot : ¬ (m.mid.chars = [] ∧
            off + m.valueAt + (m.post.chars.length + (numText neg n).length) ≤ frameMaxplen) := by
          rintro ⟨hmid, hend⟩
          exact hstart ⟨hmid, by omega⟩
        simp only [hnot, imp_false, ne_eq, not_not]
        omega

/-! ### Reading an array -/

def isSpaceOrComma (c : Char) : Bool := c == ' ' || c == ','

/-- The loop ends where no number follows. -/
theorem jintarrLoop_stop {s : CStr} (h : scanInt s = none) (k : Nat) : jintarrLoop k s = [] := by
  cases k with
  | zero => rfl
  | succ k =>
      simp only [jintarrLoop, scanInt_dropWhile_isBlank, h]
      split <;> rfl

theorem jintarrLoop_number {s rest : CStr} {v : Int} (h : scanInt s = some (v, rest)) (k : Nat) :
    jintarrLoop (k + 1) s = toCLongLong v :: jintarrLoop k (rest.dropWhile isSpaceOrComma) := by
  have hhead : (s.dropWhile isBlank).head? ≠ some ']' := by
    intro hbracket
    have hscan := scanInt_dropWhile_isBlank s
    cases hs : s.dropWhile isBlank with
    | nil => simp [hs] at hbracket
    | cons c cs =>
        rw [hs, List.head?_cons, Option.some.injEq] at hbracket
        subst hbracket
        rw [hs, h] at hscan
        cases hscan
  simp only [jintarrLoop, hhead, if_false, scanInt_dropWhile_isBlank, h]
  rfl

/-- Only what follows the leading blanks matters. -/
theorem jintarrLoop_congr {s t : CStr} (h : s.dropWhile isBlank = t.dropWhile isBlank) (k : Nat) :
    jintarrLoop k s = jintarrLoop k t := by
  cases k with
  | zero => rfl
  | succ k => simp only [jintarrLoop, h]

/-- No number follows white space and then a bracket, a comma or the end. -/
theorem scanInt_stop (w : Ws) {rest : CStr} (h : ∀ c ∈ rest.head?, c = ']' ∨ c = ',') (b : Nat) :
    scanInt ((w.chars ++ rest).take b) = none := by
  rw [List.take_append]
  have hws := scanInt_ws ⟨w.chars.take b, fun c hc => w.blank c (List.mem_of_mem_take hc)⟩
    (rest.take (b - w.chars.length))
  rw [hws]
  cases rest with
  | nil =>
      rw [List.take_nil]
      rfl
  | cons c cs =>
      cases b - w.chars.length with
      | zero => rfl
      | succ k =>
          rcases h c (by simp) with rfl | rfl <;> rfl

theorem Ws.tail_blank {c : Char} {cs : CStr} (h : ∀ x ∈ c :: cs, isWs x = true) :
    ∀ x ∈ cs, isWs x = true :=
  fun x hx => h x (List.mem_cons_of_mem _ hx)

theorem not_comma_of_isWs {c : Char} (h : isWs c = true) (hspace : c ≠ ' ') :
    isSpaceOrComma c = false := by
  have hcomma : c ≠ ',' := by
    rintro rfl
    exact absurd h (by decide)
  simp [isSpaceOrComma, hspace, hcomma]

/-- Behind the last element nothing is read. -/
theorem scanInt_last {ws rest : CStr} (hws : ∀ c ∈ ws, isWs c = true)
    (hrest : ∀ c ∈ rest.head?, c = ']') (b : Nat) :
    scanInt (((ws ++ rest).take b).dropWhile isSpaceOrComma) = none := by
  have hstop : ∀ c ∈ rest.head?, c = ']' ∨ c = ',' := fun c hc => Or.inl (hrest c hc)
  induction ws generalizing b with
  | nil =>
      cases rest with
      | nil => simp [scanInt, scanNat]
      | cons c cs =>
          obtain rfl := hrest c (by simp)
          cases b with
          | zero => rfl
          | succ b => rfl
  | cons c ws ih =>
      cases b with
      | zero => rfl
      | succ b =>
          by_cases hc : c = ' '
          · subst hc
            exact ih (Ws.tail_blank hws) b
          · rw [List.cons_append, List.take_succ_cons, List.dropWhile_cons_of_neg
              (by simp [not_comma_of_isWs (hws c List.mem_cons_self) hc])]
            exact scanInt_stop ⟨c :: ws, hws⟩ hstop (b + 1)

/-- White space other than spaces before a comma ends the reading. -/
theorem scanInt_unspaced {ws rest : CStr} (hws : ∀ c ∈ ws, isWs c = true)
    (hunspaced : ¬ ∀ c ∈ ws, c = ' ') (hrest : ∀ c ∈ rest.head?, c = ',') (b : Nat) :
    scanInt (((ws ++ rest).take b).dropWhile isSpaceOrComma) = none := by
  have hstop : ∀ c ∈ rest.head?, c = ']' ∨ c = ',' := fun c hc => Or.inr (hrest c hc)
  induction ws generalizing b with
  | nil => exact absurd (by simp) hunspaced
  | cons c ws ih =>
      cases b with
      | zero => rfl
      | succ b =>
          by_cases hc : c = ' '
          · subst hc
            exact ih (Ws.tail_blank hws) (fun hall => hunspaced (by simpa using hall)) b
          · rw [List.cons_append, List.take_succ_cons, List.dropWhile_cons_of_neg
              (by simp [not_comma_of_isWs (hws c List.mem_cons_self) hc])]
            exact scanInt_stop ⟨c :: ws, hws⟩ hstop (b + 1)

/-- Spaces and a comma are skipped. -/
theorem dropWhile_spaced {ws : CStr} (hspaced : ∀ c ∈ ws, c = ' ') (t : CStr) (b : Nat) :
    ((ws ++ ',' :: t).take b).dropWhile isSpaceOrComma =
      (t.take (b - (ws.length + 1))).dropWhile isSpaceOrComma := by
  induction ws generalizing b with
  | nil =>
      cases b with
      | zero => rfl
      | succ b => rfl
  | cons c ws ih =>
      obtain rfl := hspaced c List.mem_cons_self
      cases b with
      | zero => simp
      | succ b =>
          have hrest := ih (fun x hx => hspaced x (List.mem_cons_of_mem _ hx)) b
          rw [List.length_cons, Nat.add_sub_add_right, ← hrest]
          rfl

/-- In front of an element the comma's skipping changes nothing. -/
theorem dropWhile_element {ws rest : CStr} (hws : ∀ c ∈ ws, isWs c = true)
    (hrest : ∀ c ∈ rest.head?, isSpaceOrComma c = false) (b : Nat) :
    (((ws ++ rest).take b).dropWhile isSpaceOrComma).dropWhile isBlank =
      ((ws ++ rest).take b).dropWhile isBlank := by
  induction ws generalizing b with
  | nil =>
      cases rest with
      | nil => simp
      | cons c cs =>
          cases b with
          | zero => rfl
          | succ b =>
              rw [List.nil_append, List.take_succ_cons,
                List.dropWhile_cons_of_neg (by simp [hrest c (by simp)])]
  | cons c ws ih =>
      cases b with
      | zero => rfl
      | succ b =>
          by_cases hc : c = ' '
          · subst hc
            exact ih (Ws.tail_blank hws) b
          · rw [List.cons_append, List.take_succ_cons, List.dropWhile_cons_of_neg
              (by simp [not_comma_of_isWs (hws c List.mem_cons_self) hc])]

/-- The elements read from a text that is cut `b` characters behind the
opening bracket. -/
def readItems : Nat → List Item → List Int
  | _, [] => []
  | b, i :: is =>
      if i.pre.chars.length + (numText i.neg i.n).length ≤ b then
        i.val ::
          if is ≠ [] ∧ ∀ c ∈ i.fin.chars, c = ' ' then
            readItems (b - (i.pre.chars.length + (numText i.neg i.n).length +
              (i.fin.chars.length + 1))) is
          else []
      else
        match scanInt ((i.pre.chars ++ numText i.neg i.n).take b) with
        | some (v, _) => [v]
        | none => []

theorem head_numText (neg : Bool) (n : Nat) (rest : CStr) :
    ∀ c ∈ (numText neg n ++ rest).head?, isSpaceOrComma c = false := by
  intro c hc
  cases htext : numText neg n with
  | nil => exact absurd htext (numText_ne_nil neg n)
  | cons x xs =>
      rw [htext, List.cons_append, List.head?_cons, Option.mem_def, Option.some.injEq] at hc
      subst hc
      have hmem := @mem_numText x neg n (by simp [htext])
      have hspace : x ≠ ' ' := by
        rintro rfl
        exact absurd hmem (by decide)
      have hcomma : x ≠ ',' := by
        rintro rfl
        exact absurd hmem (by decide)
      simp [isSpaceOrComma, hspace, hcomma]

/-- What stands behind an element does not start with a digit. -/
theorem afterItem_not_digit (w : Ws) (rest : CStr) (is : List Item) :
    ∀ c ∈ (w.chars ++ itemsTail rest is).head?, c.isDigit = false := by
  refine w.head_append (by decide) fun c hc => ?_
  cases is with
  | nil =>
      cases hc
      rfl
  | cons i is =>
      cases hc
      rfl

theorem scanInt_item_cut (i : Item) {b : Nat}
    (hcut : ¬ i.pre.chars.length + (numText i.neg i.n).length ≤ b) :
    scanInt ((i.pre.chars ++ numText i.neg i.n).take b) = none ∨
      ∃ v, scanInt ((i.pre.chars ++ numText i.neg i.n).take b) = some (v, []) ∧ v ≠ i.val ∧
        min i.val 0 ≤ v ∧ v ≤ max i.val 0 := by
  have h := scanInt_take_cut i.pre i.neg i.n [] (Nat.lt_of_not_le hcut)
  rw [List.append_nil] at h
  exact h

/-- An element that is cut, or begins behind the cut, is the last one read. -/
theorem jintarrLoop_cut (i : Item) (is : List Item) (rest : CStr) {b : Nat} (k : Nat)
    (hcut : ¬ i.pre.chars.length + (numText i.neg i.n).length ≤ b) :
    jintarrLoop (k + 1) ((i.text rest).take b) = (readItems b (i :: is)).map toCLongLong := by
  have htake : (i.text rest).take b = (i.pre.chars ++ numText i.neg i.n).take b := by
    rw [Item.text, ← List.append_assoc]
    exact List.take_append_of_le_length (by rw [List.length_append]; omega)
  rw [htake, readItems, if_neg hcut]
  rcases scanInt_item_cut i hcut with hnone | ⟨v, hsome, _⟩
  · rw [jintarrLoop_stop hnone, hnone]
    rfl
  · rw [jintarrLoop_number hsome, hsome, List.dropWhile_nil, jintarrLoop_stop rfl]
    rfl

theorem jintarrLoop_items (i : Item) (is : List Item) (rest : CStr) (b : Nat) {k : Nat}
    (hk : (i :: is).length ≤ k) :
    jintarrLoop k ((i.text (itemsTail rest is)).take b) =
      (readItems b (i :: is)).map toCLongLong := by
  induction is generalizing i b k with
  | nil =>
      obtain ⟨k, rfl⟩ : ∃ k', k = k' + 1 := ⟨k - 1, by simp at hk; omega⟩
      by_cases hfits : i.pre.chars.length + (numText i.neg i.n).length ≤ b
      · have hread := scanInt_take i.pre i.neg i.n (afterItem_not_digit i.fin rest []) hfits
        have hstop := @scanInt_last _ (itemsTail rest []) i.fin.blank
          (by simp [itemsTail]) (b - (i.pre.chars.length + (numText i.neg i.n).length))
        rw [Item.text, jintarrLoop_number hread, jintarrLoop_stop hstop, readItems, if_pos hfits,
          if_neg fun h => h.1 rfl]
        rfl
      · exact jintarrLoop_cut i [] _ k hfits
  | cons j js ih =>
      obtain ⟨k, rfl⟩ : ∃ k', k = k' + 1 := ⟨k - 1, by simp at hk; omega⟩
      by_cases hfits : i.pre.chars.length + (numText i.neg i.n).length ≤ b
      · have hread := scanInt_take i.pre i.neg i.n (afterItem_not_digit i.fin rest (j :: js)) hfits
        rw [Item.text, jintarrLoop_number hread, readItems, if_pos hfits, List.map_cons]
        by_cases hspaced : ∀ c ∈ i.fin.chars, c = ' '
        · have hnext := ih j (b - (i.pre.chars.length + (numText i.neg i.n).length +
            (i.fin.chars.length + 1))) (k := k) (by simpa using hk)
          rw [if_pos ⟨by simp, hspaced⟩, ← hnext, itemsTail, dropWhile_spaced hspaced, Nat.sub_sub]
          congr 1
          apply jintarrLoop_congr
          exact dropWhile_element j.pre.blank (head_numText _ _ _) _
        · have hstop := @scanInt_unspaced _ (itemsTail rest (j :: js)) i.fin.blank hspaced
            (by simp [itemsTail]) (b - (i.pre.chars.length + (numText i.neg i.n).length))
          rw [if_neg fun h => hspaced h.2, jintarrLoop_stop hstop]
          rfl
      · exact jintarrLoop_cut i (j :: js) _ k hfits

/-- An array text behind its bracket. -/
theorem jintarrLoop_itemsText (pad : Ws) (items : List Item) (rest : CStr) (b : Nat) {k : Nat}
    (hk : items.length ≤ k) :
    jintarrLoop k ((itemsText pad rest items).take b) = (readItems b items).map toCLongLong := by
  cases items with
  | nil => exact jintarrLoop_stop (scanInt_stop pad (by simp) b) k
  | cons i is => exact jintarrLoop_items i is rest b hk

theorem readItems_length_le (b : Nat) (items : List Item) :
    (readItems b items).length ≤ items.length := by
  induction items generalizing b with
  | nil => simp [readItems]
  | cons i is ih =>
      rw [readItems]
      split
      · split
        · simpa using ih _
        · simp
      · split
        · simp
        · simp

/-- What is read of an element lies between it and zero. -/
theorem readItems_between (b : Nat) (items : List Item) :
    ∀ p ∈ (readItems b items).zip (items.map Item.val), min p.2 0 ≤ p.1 ∧ p.1 ≤ max p.2 0 := by
  induction items generalizing b with
  | nil => simp [readItems]
  | cons i is ih =>
      rw [readItems]
      split
      · rw [List.map_cons, List.zip_cons_cons]
        intro p hp
        rcases List.mem_cons.mp hp with rfl | hp
        · simp
        · split at hp
          · exact ih _ p hp
          · simp at hp
      · rename_i hfits
        rcases scanInt_item_cut i hfits with hnone | ⟨v, hsome, _, hmin, hmax⟩
        · simp [hnone]
        · intro p hp
          rw [hsome, List.map_cons, List.zip_cons_cons, List.zip_nil_left,
            List.mem_singleton] at hp
          subst hp
          exact ⟨hmin, hmax⟩

/-- All elements are read exactly when nothing stops the reading before the
last digit. -/
theorem readItems_eq_iff (i : Item) (is : List Item) (b : Nat) :
    readItems b (i :: is) = (i :: is).map Item.val ↔
      SpacedItems (i :: is) ∧ reachItems (i :: is) ≤ b := by
  induction is generalizing i b with
  | nil =>
      rw [readItems]
      by_cases hfits : i.pre.chars.length + (numText i.neg i.n).length ≤ b
      · simp [hfits, SpacedItems, reachItems]
      · rw [if_neg hfits]
        rcases scanInt_item_cut i hfits with hnone | ⟨v, hsome, hne⟩
        · simp [hnone, reachItems, hfits]
        · simp only [hsome, reachItems, hfits, and_false, iff_false, List.map_cons, List.map_nil,
            List.cons.injEq, and_true]
          exact hne.1
  | cons j js ih =>
      rw [readItems]
      by_cases hfits : i.pre.chars.length + (numText i.neg i.n).length ≤ b
      · rw [if_pos hfits, List.map_cons, List.cons.injEq]
        by_cases hspaced : ∀ c ∈ i.fin.chars, c = ' '
        · have hpos : 0 < reachItems (j :: js) := by
            have hnum : 0 < (numText j.neg j.n).length :=
              List.length_pos_iff.mpr (numText_ne_nil j.neg j.n)
            cases js with
            | nil =>
                rw [reachItems]
                omega
            | cons _ _ =>
                rw [reachItems]
                · omega
                · simp
          rw [if_pos ⟨by simp, hspaced⟩, ih]
          simp only [SpacedItems, reachItems, true_and]
          constructor
          · rintro ⟨hs, hr⟩
            exact ⟨⟨hspaced, hs⟩, by omega⟩
          · rintro ⟨⟨_, hs⟩, hr⟩
            exact ⟨hs, by omega⟩
        · rw [if_neg fun h => hspaced h.2]
          simp [SpacedItems, hspaced]
      · rw [if_neg hfits]
        have hreach : ¬ reachItems (i :: j :: js) ≤ b := by
          rw [reachItems]
          · omega
          · simp
        rcases scanInt_item_cut i hfits with hnone | ⟨v, hsome, _⟩
        · simp [hnone, hreach]
        · simp [hsome, hreach]

theorem dropWhile_bracket {post : CStr} (hblank : ∀ c ∈ post, isBlank c = true) (t : CStr) {b : Nat}
    (hb : post.length + 1 ≤ b) :
    ((post ++ '[' :: t).take b).dropWhile isBlank = '[' :: t.take (b - (post.length + 1)) := by
  obtain ⟨k, hk⟩ : ∃ k, b - post.length = k + 1 := ⟨b - post.length - 1, by omega⟩
  have hrest : b - (post.length + 1) = k := by omega
  rw [List.take_append, List.take_of_length_le (by omega), List.dropWhile_append_of_pos hblank, hk,
    hrest]
  rfl

/-- Cut before the bracket, or other white space than spaces and tabs before
it: the reader does not see the bracket. -/
theorem dropWhile_not_bracket {post : CStr} (hws : ∀ c ∈ post, isWs c = true) (t : CStr) {b : Nat}
    (h : ¬ ((∀ c ∈ post, isBlank c = true) ∧ post.length + 1 ≤ b)) (p : CStr) :
    ((post ++ '[' :: t).take b).dropWhile isBlank ≠ '[' :: p := by
  induction post generalizing b with
  | nil =>
      have hb : b = 0 := by
        by_contra hb
        exact h ⟨by simp, by simp only [List.length_nil]; omega⟩
      subst hb
      simp
  | cons c post ih =>
      cases b with
      | zero => simp
      | succ b =>
          rw [List.cons_append, List.take_succ_cons]
          by_cases hc : isBlank c = true
          · rw [List.dropWhile_cons_of_pos hc]
            refine ih (Ws.tail_blank hws) fun hrest => h ⟨?_, by simp only [List.length_cons]; omega⟩
            intro x hx
            rcases List.mem_cons.mp hx with rfl | hx
            · exact hc
            · exact hrest.1 x hx
          · rw [List.dropWhile_cons_of_neg hc]
            intro heq
            have hbracket := (List.cons.inj heq).1
            rw [hbracket] at hws
            exact absurd (hws '[' List.mem_cons_self) (by decide)

/-- The elements of an array as the bridge reads them. -/
def readList (o : Object) (key : CStr) : List Int :=
  match o.locate key with
  | none => []
  | some (off, m, _) =>
      match m.val with
      | .ints _ items =>
          if m.mid.chars = [] ∧ (∀ c ∈ m.post.chars, isBlank c = true) ∧
              off + m.valueAt + (m.post.chars.length + 1) ≤ frameMaxplen then
            readItems (frameMaxplen - (off + m.valueAt + (m.post.chars.length + 1))) items
          else []
      | _ => []

theorem jintarr_object {key : CStr} (hkey : IsKey key) (hlen : key.length ≤ 60) {o : Object}
    (hdist : Distinct o.members)
    (hints : ∀ m, findMember key o.members = some m → ∃ pad items, m.val = .ints pad items)
    (hcount : (listOf o key).length ≤ maxGcl) :
    jintarr (o.text.take frameMaxplen) key maxGcl = (readList o key).map toCLongLong := by
  have hfind := jfind_object hkey hlen hdist frameMaxplen
  rw [jintarr, readList]
  cases hloc : o.locate key with
  | none =>
      rw [hloc] at hfind
      rw [hfind]
      rfl
  | some l =>
      obtain ⟨off, m, later⟩ := l
      obtain ⟨pad, items, hval⟩ := hints m (findMember_of_locate hloc)
      have hitems : items.length ≤ maxGcl := by
        have hlist : listOf o key = items.map Item.val := by
          rw [listOf, findMember_of_locate hloc, Option.map_some, Option.getD_some, hval,
            Value.intList]
        rwa [hlist, List.length_map] at hcount
      have htext : m.valueText (membersTail o.trail.chars later) = m.post.chars ++
          '[' :: itemsText pad (m.fin.chars ++ membersTail o.trail.chars later) items := by
        rw [Member.valueText, hval, Value.text]
      rw [hloc, searched, htext] at hfind
      simp only [hval]
      by_cases hstart : m.mid.chars = [] ∧ off + m.valueAt ≤ frameMaxplen
      · rw [if_pos hstart] at hfind
        by_cases hopen : (∀ c ∈ m.post.chars, isBlank c = true) ∧
            m.post.chars.length + 1 ≤ frameMaxplen - (off + m.valueAt)
        · have hroom : off + m.valueAt + (m.post.chars.length + 1) ≤ frameMaxplen := by
            omega
          rw [Option.map_some, dropWhile_bracket hopen.1 _ hopen.2, Nat.sub_sub] at hfind
          rw [hfind, if_pos ⟨hstart.1, hopen.1, hroom⟩]
          exact jintarrLoop_itemsText pad items _ _ hitems
        · have hnot : ¬ (m.mid.chars = [] ∧ (∀ c ∈ m.post.chars, isBlank c = true) ∧
              off + m.valueAt + (m.post.chars.length + 1) ≤ frameMaxplen) := by
            rintro ⟨_, hblank, hroom⟩
            exact hopen ⟨hblank, by omega⟩
          rw [hfind, Option.map_some, if_neg hnot]
          have hbracket := dropWhile_not_bracket m.post.blank
            (itemsText pad (m.fin.chars ++ membersTail o.trail.chars later) items) hopen
          split
          · rename_i p heq
            exact absurd (Option.some.inj heq) (hbracket p)
          · rfl
      · have hnot : ¬ (m.mid.chars = [] ∧ (∀ c ∈ m.post.chars, isBlank c = true) ∧
            off + m.valueAt + (m.post.chars.length + 1) ≤ frameMaxplen) := by
          rintro ⟨hmid, _, hroom⟩
          exact hstart ⟨hmid, by omega⟩
        rw [if_neg hstart] at hfind
        rw [hfind, if_neg hnot]
        rfl

/-- The array is read as it is exactly when it is empty or can be read
whole. -/
theorem readList_eq_iff {key : CStr} {o : Object}
    (hints : ∀ m, findMember key o.members = some m → ∃ pad items, m.val = .ints pad items) :
    readList o key = listOf o key ↔ (listOf o key ≠ [] → ListReadable o key) := by
  rw [readList]
  cases hloc : o.locate key with
  | none =>
      have habsent : listOf o key = [] := by
        rw [listOf, findMember_of_locate_none hloc]
        rfl
      simp [habsent]
  | some l =>
      obtain ⟨off, m, later⟩ := l
      obtain ⟨pad, items, hval⟩ := hints m (findMember_of_locate hloc)
      have hlist : listOf o key = items.map Item.val := by
        rw [listOf, findMember_of_locate hloc, Option.map_some, Option.getD_some, hval, Value.intList]
      have hreadable : ListReadable o key ↔ m.mid.chars = [] ∧
          (∀ c ∈ m.post.chars, isBlank c = true) ∧ SpacedItems items ∧
          off + m.valueAt + (m.post.chars.length + 1 + reachItems items) ≤ frameMaxplen := by
        constructor
        · rintro ⟨off', m', later', pad', items', hloc', hval', hrest⟩
          rw [hloc, Option.some.injEq, Prod.mk.injEq, Prod.mk.injEq] at hloc'
          obtain ⟨rfl, rfl, rfl⟩ := hloc'
          rw [hval, Value.ints.injEq] at hval'
          obtain ⟨rfl, rfl⟩ := hval'
          exact hrest
        · intro hrest
          exact ⟨off, m, later, pad, items, hloc, hval, hrest⟩
      simp only [hval, hlist, hreadable]
      cases items with
      | nil => simp [readItems]
      | cons i is =>
          by_cases hopen : m.mid.chars = [] ∧ (∀ c ∈ m.post.chars, isBlank c = true) ∧
              off + m.valueAt + (m.post.chars.length + 1) ≤ frameMaxplen
          · rw [if_pos hopen, readItems_eq_iff]
            obtain ⟨hmid, hblank, hroom⟩ := hopen
            constructor
            · rintro ⟨hspaced, hreach⟩ _
              exact ⟨hmid, hblank, hspaced, by omega⟩
            · intro hall
              obtain ⟨_, _, hspaced, hreach⟩ := hall (by simp)
              exact ⟨hspaced, by omega⟩
          · rw [if_neg hopen]
            constructor
            · intro heq
              cases heq
            · intro hall
              obtain ⟨hmid, hblank, _, hreach⟩ := hall (by simp)
              exact absurd ⟨hmid, hblank, by omega⟩ hopen

theorem readList_length_le (o : Object) (key : CStr) :
    (readList o key).length ≤ (listOf o key).length := by
  rw [readList]
  cases hloc : o.locate key with
  | none => simp
  | some l =>
      obtain ⟨off, m, later⟩ := l
      rw [listOf, findMember_of_locate hloc, Option.map_some, Option.getD_some]
      cases hval : m.val with
      | ints pad items =>
          simp only [hval, Value.intList, List.length_map]
          split
          · exact readItems_length_le _ _
          · simp
      | str s => simp [hval]
      | num neg n tail => simp [hval]
      | lit l => simp [hval]

theorem readList_between {key : CStr} {o : Object} :
    ∀ p ∈ (readList o key).zip (listOf o key), min p.2 0 ≤ p.1 ∧ p.1 ≤ max p.2 0 := by
  rw [readList]
  cases hloc : o.locate key with
  | none => simp
  | some l =>
      obtain ⟨off, m, later⟩ := l
      rw [listOf, findMember_of_locate hloc, Option.map_some, Option.getD_some]
      cases hval : m.val with
      | ints pad items =>
          simp only [hval, Value.intList]
          split
          · exact readItems_between _ _
          · simp
      | str s => simp [hval]
      | num neg n tail => simp [hval]
      | lit l => simp [hval]

/-! ### What arrives -/

/-- A stored payload carries the configuration of a text: every scalar and the
whole gate list. -/
structure Carries (o : Object) (p : List Byte) : Prop where
  priority : ((TsnCfg.ofBytes p).priority.toNat : Int) = scalarOf o "priority".toList
  trafficClass : ((TsnCfg.ofBytes p).trafficClass.toNat : Int) = scalarOf o "traffic_class".toList
  vlanId : ((TsnCfg.ofBytes p).vlanId.toNat : Int) = scalarOf o "vlan_id".toList
  preemption : ((TsnCfg.ofBytes p).preemption.toNat : Int) = scalarOf o "preemption".toList
  timesyncMode : ((TsnCfg.ofBytes p).timesyncMode.toNat : Int) = scalarOf o "timesync_mode".toList
  streamRole : ((TsnCfg.ofBytes p).streamRole.toNat : Int) = scalarOf o "st_role".toList
  streamVlanId : ((TsnCfg.ofBytes p).streamVlanId.toNat : Int) = scalarOf o "st_vlan".toList
  streamPriority : ((TsnCfg.ofBytes p).streamPriority.toNat : Int) = scalarOf o "st_prio".toList
  tasCycleNs : (TsnCfg.ofBytes p).tasCycleNs.toInt = scalarOf o "tas_cycle_ns".toList
  gates : (gclOfBytes (TsnCfg.ofBytes p).gclCount.toNat (p.drop cfgSize)).map
    (fun e => ((e.1.toNat : Int), (e.2.toNat : Int))) = (listOf o gsKey).zip (listOf o durKey)

/-- The `tsn_app_*` nodes, as the signed and unsigned numbers they hold, are
those of the text. -/
structure NodesCarry (o : Object) (n : AppNodes) : Prop where
  vlan : n.vlan.toInt = scalarOf o "vlan_id".toList
  prio : (n.prio.toNat : Int) = scalarOf o "priority".toList
  preempt : (n.preempt.toNat : Int) = scalarOf o "preemption".toList
  timesync : (n.timesync.toNat : Int) = scalarOf o "timesync_mode".toList
  strole : (n.strole.toNat : Int) = scalarOf o "st_role".toList
  stvlan : n.stvlan.toInt = scalarOf o "st_vlan".toList
  tascyc : n.tascyc.toInt = scalarOf o "tas_cycle_ns".toList

/-- A poll that finds the text new, with the endpoint known and `sendto`
working. -/
structure FindsNew (o : Object) (b : Bridge) (i : PollInput) : Prop where
  known : b.epKnown = true
  new : b.lastTsn ≠ o.text.take frameMaxplen
  node : i.node = some o.text
  sent : i.pushOk = true

/-- The nodes when what the endpoint sends is delivered. It may stay quiet. -/
def nodesAfter (b : Bridge) (n : AppNodes) : Option (List Byte) → AppNodes
  | none => n
  | some report => (bridgeRecv b n report).2

/-- The configuration reaches the endpoint unchanged: the first frame of the poll
makes the endpoint hold the configuration, and when what the endpoint sends then
is delivered, the nodes show it. -/
def ConfigArrives (o : Object) (b : Bridge) (i : PollInput) (e : Endpoint) (n : AppNodes) : Prop :=
  ∃ frame more, (pollCommands b i).2 = frame :: more ∧
    Carries o (cmdTask e frame).1.payload ∧
    NodesCarry o (nodesAfter (pollCommands b i).1 n (cmdTask e frame).2)

/-- The struct of a configuration, from the numbers of its text. -/
def configCfg (o : Object) : TsnCfg where
  priority := BitVec.ofInt 8 (scalarOf o "priority".toList)
  trafficClass := BitVec.ofInt 8 (scalarOf o "traffic_class".toList)
  vlanId := BitVec.ofInt 16 (scalarOf o "vlan_id".toList)
  preemption := BitVec.ofInt 8 (scalarOf o "preemption".toList)
  timesyncMode := BitVec.ofInt 8 (scalarOf o "timesync_mode".toList)
  streamRole := BitVec.ofInt 8 (scalarOf o "st_role".toList)
  streamVlanId := BitVec.ofInt 16 (scalarOf o "st_vlan".toList)
  streamPriority := BitVec.ofInt 8 (scalarOf o "st_prio".toList)
  tasCycleNs := BitVec.ofInt 64 (scalarOf o "tas_cycle_ns".toList)
  gclCount := BitVec.ofNat 16 (listOf o gsKey).length

/-- The bytes of a configuration: the struct, and nine bytes for each gate. -/
def configBytes (o : Object) : List Byte :=
  (configCfg o).toBytes ++ ((listOf o gsKey).zip (listOf o durKey)).flatMap fun g =>
    BitVec.ofInt 8 g.1 :: le64Bytes (BitVec.ofInt 64 g.2)

/-! ### From the text to the stored payload -/

theorem appendGcl_eq {pl : List Byte} {es : List (Int64 × Int64)}
    (h : pl.length + gclEntrySize * es.length ≤ frameMaxplen) :
    appendGcl pl es =
      pl ++ (es.map fun e => (e.1.toBitVec, e.2.toBitVec)).flatMap gclEntryBytes := by
  induction es generalizing pl with
  | nil => simp [appendGcl]
  | cons e es ih =>
      obtain ⟨gs, dur⟩ := e
      rw [List.length_cons, Nat.mul_succ] at h
      rw [appendGcl, if_pos (by omega), ih (by
        rw [List.length_append, gclEntryBytes_length]
        omega)]
      simp

/-- The entries the bridge pairs up. -/
def readGates (json : CStr) : List (Int64 × Int64) :=
  (jintarr json gsKey maxGcl).zip (jintarr json durKey maxGcl)

theorem tsnPayload_eq (json : CStr) :
    tsnPayload json = (cfgOfJson json).toBytes ++
      ((readGates json).map fun e => (e.1.toBitVec, e.2.toBitVec)).flatMap gclEntryBytes := by
  rw [tsnPayload]
  apply appendGcl_eq
  have hgs := jintarr_length_le json gsKey maxGcl
  rw [TsnCfg.toBytes_length, List.length_zip]
  have hroom : cfgSize + gclEntrySize * maxGcl ≤ frameMaxplen := by decide
  have hgates : gclEntrySize * min (jintarr json gsKey maxGcl).length
      (jintarr json durKey maxGcl).length ≤ gclEntrySize * maxGcl :=
    Nat.mul_le_mul_left _ ((Nat.min_le_left _ _).trans hgs)
  exact (Nat.add_le_add_left hgates _).trans hroom

theorem gclCount_toNat (json : CStr) :
    (cfgOfJson json).gclCount.toNat = (readGates json).length := by
  have hgs := jintarr_length_le json gsKey maxGcl
  have hcount : (cfgOfJson json).gclCount = BitVec.ofNat 16 (readGates json).length := by
    rw [readGates, List.length_zip]
    rfl
  rw [hcount, BitVec.toNat_ofNat]
  apply Nat.mod_eq_of_lt
  rw [readGates, List.length_zip]
  simp only [maxGcl] at hgs ⊢
  omega

theorem gates_tsnPayload (json : CStr) :
    gclOfBytes (TsnCfg.ofBytes (tsnPayload json)).gclCount.toNat ((tsnPayload json).drop cfgSize) =
      (readGates json).map fun e => (e.1.toBitVec.setWidth 8, e.2.toBitVec) := by
  have hlen : ((readGates json).map fun e => (e.1.toBitVec, e.2.toBitVec)).length =
      (readGates json).length := List.length_map _
  have hentries := gclOfBytes_entries
    ((readGates json).map fun e => (e.1.toBitVec, e.2.toBitVec)) []
  rw [List.append_nil, hlen, List.map_map] at hentries
  rw [tsnPayload_eq, TsnCfg.ofBytes_toBytes, gclCount_toNat,
    ← TsnCfg.toBytes_length (cfgOfJson json), List.drop_left, hentries]
  rfl

/-- An `int64_t` in the range of a narrower field keeps its value there. -/
theorem setWidth_toNat {x : Int64} {w : Nat} (h0 : 0 ≤ x.toInt) (hw : x.toInt < 2 ^ w) :
    ((x.toBitVec.setWidth w).toNat : Int) = x.toInt := by
  have hint : x.toInt = x.toBitVec.toInt := rfl
  rw [hint, BitVec.toInt_eq_toNat_cond] at h0 hw ⊢
  have hlt := x.toBitVec.isLt
  split at h0
  · rename_i hsmall
    rw [if_pos hsmall] at hw ⊢
    rw [BitVec.toNat_setWidth]
    have hpow : x.toBitVec.toNat < 2 ^ w := by exact_mod_cast hw
    rw [Nat.mod_eq_of_lt hpow]
  · omega

/-! ### The scalar fields -/

/-- The keys are keys, and the bounds are those of an `int64_t` at least. -/
theorem scalarBounds_spec : ∀ f ∈ scalarBounds,
    IsKey f.1 ∧ f.1.length ≤ 60 ∧ -(2 ^ 63) ≤ f.2.1 ∧ f.2.2 < 2 ^ 63 := by
  have halpha : ∀ f ∈ scalarBounds, ('"' ∉ f.1 ∧ (f.1.head?.any Char.isAlpha) = true) ∧
      f.1.length ≤ 60 ∧ -(2 ^ 63) ≤ f.2.1 ∧ f.2.2 < 2 ^ 63 := by decide
  intro f hf
  obtain ⟨⟨hquote, hhead⟩, hrest⟩ := halpha f hf
  exact ⟨⟨hquote, (Option.any_eq_true _ _).mp hhead⟩, hrest⟩

/-- A field as `jint` reads it. -/
theorem jint_config {o : Object} (h : IsConfig o) {f : CStr × Int × Int} (hf : f ∈ scalarBounds) :
    f.2.1 ⊓ 0 ≤ (jint (o.text.take frameMaxplen) f.1 0).toInt ∧
      (jint (o.text.take frameMaxplen) f.1 0).toInt ≤ f.2.2 ⊔ 0 ∧
      ((jint (o.text.take frameMaxplen) f.1 0).toInt = scalarOf o f.1 ↔
        (scalarOf o f.1 ≠ 0 → ScalarReadable o f.1)) := by
  obtain ⟨hkey, hlen, hmin, hmax⟩ := scalarBounds_spec f hf
  obtain ⟨hlo, hhi⟩ := h.bounds f hf
  obtain ⟨v, rfl, hle, hge, hiff⟩ := jint_object hkey hlen h.distinct (h.scalars f hf)
    (by omega) (by omega)
  exact ⟨by omega, by omega, hiff⟩

/-- A field narrowed to an unsigned type that holds its range. -/
theorem field_eq_iff {o : Object} (h : IsConfig o) {f : CStr × Int × Int} (hf : f ∈ scalarBounds)
    {w : Nat} (hlo : f.2.1 = 0) (hhi : f.2.2 ⊔ 0 < 2 ^ w) :
    (((jint (o.text.take frameMaxplen) f.1 0).toBitVec.setWidth w).toNat : Int) =
      scalarOf o f.1 ↔ (scalarOf o f.1 ≠ 0 → ScalarReadable o f.1) := by
  obtain ⟨hmin, hmax, hiff⟩ := jint_config h hf
  rw [setWidth_toNat (by omega) (by omega), hiff]

/-! ### The gate list -/

theorem map_eq_of_zip {α : Type} {f : α → α} {xs ys : List α} (hlen : xs.length = ys.length)
    (hf : ∀ p ∈ xs.zip ys, f p.1 = p.2 → p.1 = p.2) (heq : xs.map f = ys) : xs = ys := by
  induction xs generalizing ys with
  | nil => simpa using heq
  | cons x xs ih =>
      cases ys with
      | nil => cases heq
      | cons y ys =>
          obtain ⟨hhead, htail⟩ := List.cons.inj heq
          have hx : x = y := hf (x, y) (by simp) hhead
          have hxs : xs = ys := by
            apply ih (by simpa using hlen) _ htail
            intro p hp
            exact hf p (by simp [hp])
          rw [hx, hxs]

/-- A gate state as stored. -/
def storedState (v : Int) : Int := ((toCLongLong v).toBitVec.setWidth 8).toNat

/-- A duration as stored. -/
def storedDuration (v : Int) : Int := (toCLongLong v).toBitVec.toNat

theorem storedState_eq {v : Int} (h0 : 0 ≤ v) (h : v ≤ 255) : storedState v = v := by
  have hint := @toInt_toCLongLong v (by omega) (by omega)
  rw [storedState, setWidth_toNat (by omega) (by omega), hint]

theorem storedDuration_eq {v : Int} (h0 : 0 ≤ v) (h : v < 2 ^ 63) : storedDuration v = v := by
  have hint := @toInt_toCLongLong v (by omega) h
  have hwide := @setWidth_toNat (toCLongLong v) 64 (by omega) (by omega)
  rw [BitVec.setWidth_eq, hint] at hwide
  exact hwide

/-- A duration beyond `long long` is stored as a smaller one. -/
theorem storedDuration_lt {v : Int} (h : 2 ^ 63 ≤ v) : storedDuration v < 2 ^ 63 := by
  have hclamp : clampLong v = 2 ^ 63 - 1 := by
    rw [clampLong]
    omega
  rw [storedDuration, toCLongLong, hclamp]
  decide

theorem gsKey_isKey : IsKey gsKey := ⟨by decide, 'g', rfl, by decide⟩

theorem durKey_isKey : IsKey durKey := ⟨by decide, 'g', rfl, by decide⟩

theorem readGates_eq {o : Object} (h : IsConfig o) :
    readGates (o.text.take frameMaxplen) =
      ((readList o gsKey).map toCLongLong).zip ((readList o durKey).map toCLongLong) := by
  have hdur : (listOf o durKey).length ≤ maxGcl := by
    rw [← h.lengths]
    exact h.count
  rw [readGates,
    jintarr_object gsKey_isKey (by decide) h.distinct (h.lists gsKey (by simp)) h.count,
    jintarr_object durKey_isKey (by decide) h.distinct (h.lists durKey (by simp)) hdur]

/-- The gate list as stored. -/
theorem storedGates_eq {o : Object} (h : IsConfig o) :
    ((readGates (o.text.take frameMaxplen)).map fun e =>
        (e.1.toBitVec.setWidth 8, e.2.toBitVec)).map
      (fun e => ((e.1.toNat : Int), (e.2.toNat : Int))) =
      ((readList o gsKey).map storedState).zip ((readList o durKey).map storedDuration) := by
  rw [readGates_eq h, List.map_map, List.zip_map, List.zip_map, List.map_map]
  rfl

/-- Two lists zipped are two lists of that length zipped when they are the
same. -/
theorem zip_eq_zip {α β : Type} {as cs : List α} {bs ds : List β}
    (hcd : cs.length = ds.length) (has : as.length ≤ cs.length) (hbs : bs.length ≤ ds.length)
    (h : as.zip bs = cs.zip ds) : as = cs ∧ bs = ds := by
  have hlen := congrArg List.length h
  rw [List.length_zip, List.length_zip] at hlen
  have hfst := congrArg (List.map Prod.fst) h
  have hsnd := congrArg (List.map Prod.snd) h
  rw [List.map_fst_zip (by omega), List.map_fst_zip (by omega)] at hfst
  rw [List.map_snd_zip (by omega), List.map_snd_zip (by omega)] at hsnd
  exact ⟨hfst, hsnd⟩

theorem map_eq_self_iff {α : Type} {f : α → α} {xs : List α} :
    xs.map f = xs ↔ ∀ x ∈ xs, f x = x := by
  have h := List.map_inj_left (l := xs) (f := f) (g := id)
  rwa [List.map_id] at h

/-- The states are stored as they are exactly when they are read so. -/
theorem storedStates_eq_iff {o : Object} (h : IsConfig o) :
    (readList o gsKey).map storedState = listOf o gsKey ↔ readList o gsKey = listOf o gsKey := by
  constructor
  · intro heq
    have hlen := congrArg List.length heq
    rw [List.length_map] at hlen
    apply map_eq_of_zip hlen _ heq
    intro p hp hstored
    obtain ⟨hlo, hhi⟩ := readList_between p hp
    obtain ⟨hlo', hhi'⟩ := h.gates p.2 (List.of_mem_zip hp).2
    rwa [storedState_eq (by omega) (by omega)] at hstored
  · intro heq
    rw [heq, map_eq_self_iff]
    intro v hv
    obtain ⟨hlo, hhi⟩ := h.gates v hv
    exact storedState_eq hlo hhi

/-- The durations are stored as they are exactly when they are read so and fit
`long long`. -/
theorem storedDurations_eq_iff {o : Object} (h : IsConfig o) :
    (readList o durKey).map storedDuration = listOf o durKey ↔
      readList o durKey = listOf o durKey ∧ ∀ v ∈ listOf o durKey, v < 2 ^ 63 := by
  constructor
  · intro heq
    have hlen := congrArg List.length heq
    rw [List.length_map] at hlen
    have hread : readList o durKey = listOf o durKey := by
      apply map_eq_of_zip hlen _ heq
      intro p hp hstored
      obtain ⟨hlo, hhi⟩ := readList_between p hp
      have hdur := h.durations p.2 (List.of_mem_zip hp).2
      by_cases hfits : p.1 < 2 ^ 63
      · rwa [storedDuration_eq (by omega) hfits] at hstored
      · have hclamped := storedDuration_lt (Int.not_lt.mp hfits)
        omega
    refine ⟨hread, fun v hv => ?_⟩
    rw [hread, map_eq_self_iff] at heq
    by_contra hbig
    have hclamped := storedDuration_lt (Int.not_lt.mp hbig)
    have hsame := heq v hv
    omega
  · rintro ⟨heq, hfit⟩
    rw [heq, map_eq_self_iff]
    intro v hv
    exact storedDuration_eq (h.durations v hv) (hfit v hv)

theorem gates_iff {o : Object} (h : IsConfig o) :
    ((readList o gsKey).map storedState).zip ((readList o durKey).map storedDuration) =
        (listOf o gsKey).zip (listOf o durKey) ↔
      (listOf o gsKey ≠ [] → ListReadable o gsKey ∧ ListReadable o durKey ∧
        ∀ v ∈ listOf o durKey, v < 2 ^ 63) := by
  have hgs := readList_length_le o gsKey
  have hdur := readList_length_le o durKey
  have hempty : listOf o gsKey = [] ↔ listOf o durKey = [] := by
    rw [← List.length_eq_zero_iff, ← List.length_eq_zero_iff, h.lengths]
  constructor
  · intro heq hne
    obtain ⟨hstates, hdurations⟩ := zip_eq_zip h.lengths (by simpa using hgs) (by simpa using hdur) heq
    obtain ⟨hread, hfit⟩ := (storedDurations_eq_iff h).mp hdurations
    refine ⟨?_, ?_, hfit⟩
    · exact (readList_eq_iff (h.lists gsKey (by simp))).mp ((storedStates_eq_iff h).mp hstates) hne
    · exact (readList_eq_iff (h.lists durKey (by simp))).mp hread fun hnil => hne (hempty.mpr hnil)
  · intro hreadable
    by_cases hnil : listOf o gsKey = []
    · have hread : readList o gsKey = [] := by
        rw [hnil, List.length_nil, Nat.le_zero] at hgs
        exact List.eq_nil_of_length_eq_zero hgs
      rw [hread, hnil]
      rfl
    · obtain ⟨hstates, hdurations, hfit⟩ := hreadable hnil
      rw [(storedStates_eq_iff h).mpr ((readList_eq_iff (h.lists gsKey (by simp))).mpr fun _ => hstates),
        (storedDurations_eq_iff h).mpr
          ⟨(readList_eq_iff (h.lists durKey (by simp))).mpr fun _ => hdurations, hfit⟩]

/-! ### The whole way -/

/-- The payload of a configuration carries it exactly when the text can be
read. -/
theorem carries_iff {o : Object} (h : IsConfig o) :
    Carries o (tsnPayload (o.text.take frameMaxplen)) ↔ ConfigReadable o := by
  have hcfg : TsnCfg.ofBytes (tsnPayload (o.text.take frameMaxplen)) =
      cfgOfJson (o.text.take frameMaxplen) := by
    rw [tsnPayload_eq, TsnCfg.ofBytes_toBytes]
  have hgates := gates_tsnPayload (o.text.take frameMaxplen)
  rw [hcfg] at hgates
  have hcycle := (jint_config h (f := ("tas_cycle_ns".toList, -(2 ^ 63), 2 ^ 63 - 1)) (by decide)).2.2
  constructor
  · intro hc
    refine ⟨?_, ?_⟩
    · obtain ⟨h1, h2, h3, h4, h5, h6, h7, h8, h9, _⟩ := hc
      rw [hcfg] at h1 h2 h3 h4 h5 h6 h7 h8 h9
      intro f hf
      have hmem := hf
      simp only [scalarBounds, List.mem_cons, List.not_mem_nil, or_false] at hmem
      rcases hmem with rfl | rfl | rfl | rfl | rfl | rfl | rfl | rfl | rfl
      · exact (field_eq_iff h hf rfl (by decide)).mp h1
      · exact (field_eq_iff h hf rfl (by decide)).mp h2
      · exact (field_eq_iff h hf rfl (by decide)).mp h3
      · exact (field_eq_iff h hf rfl (by decide)).mp h4
      · exact (field_eq_iff h hf rfl (by decide)).mp h5
      · exact (field_eq_iff h hf rfl (by decide)).mp h6
      · exact (field_eq_iff h hf rfl (by decide)).mp h7
      · exact (field_eq_iff h hf rfl (by decide)).mp h8
      · exact hcycle.mp h9
    · have hstored := hc.gates
      rw [hcfg, hgates, storedGates_eq h] at hstored
      exact (gates_iff h).mp hstored
  · rintro ⟨hscalars, hlists⟩
    have hfield : ∀ f ∈ scalarBounds, ∀ w, f.2.1 = 0 → f.2.2 ⊔ 0 < 2 ^ w →
        (((jint (o.text.take frameMaxplen) f.1 0).toBitVec.setWidth w).toNat : Int) =
          scalarOf o f.1 :=
      fun f hf w hlo hhi => (field_eq_iff h hf hlo hhi).mpr (hscalars f hf)
    constructor
    · rw [hcfg]
      exact hfield ("priority".toList, 0, 7) (by decide) 8 rfl (by decide)
    · rw [hcfg]
      exact hfield ("traffic_class".toList, 0, 7) (by decide) 8 rfl (by decide)
    · rw [hcfg]
      exact hfield ("vlan_id".toList, 0, 4094) (by decide) 16 rfl (by decide)
    · rw [hcfg]
      exact hfield ("preemption".toList, 0, 2) (by decide) 8 rfl (by decide)
    · rw [hcfg]
      exact hfield ("timesync_mode".toList, 0, 2) (by decide) 8 rfl (by decide)
    · rw [hcfg]
      exact hfield ("st_role".toList, 0, 2) (by decide) 8 rfl (by decide)
    · rw [hcfg]
      exact hfield ("st_vlan".toList, 0, 4094) (by decide) 16 rfl (by decide)
    · rw [hcfg]
      exact hfield ("st_prio".toList, 0, 7) (by decide) 8 rfl (by decide)
    · rw [hcfg]
      exact hcycle.mpr (hscalars ("tas_cycle_ns".toList, -(2 ^ 63), 2 ^ 63 - 1) (by decide))
    · rw [hcfg, hgates, storedGates_eq h]
      exact (gates_iff h).mpr hlists

theorem text_take_ne_nil (o : Object) : o.text.take frameMaxplen ≠ [] := by
  have hne : o.text ≠ [] := by simp [Object.text]
  simpa [List.take_eq_nil_iff, frameMaxplen] using hne

/-- The first frame of a poll that finds a new text. -/
theorem FindsNew.pollCommands {b : Bridge} {i : PollInput} {o : Object} (h : FindsNew o b i) :
    ∃ more, (pollCommands b i).2 = cfgFrame (o.text.take frameMaxplen) :: more := by
  have hpush : (pollPush b i).2 = some (cfgFrame (o.text.take frameMaxplen)) := by
    simp only [pollPush, h.node]
    rw [if_pos ⟨text_take_ne_nil o, h.new.symm⟩, pushTsnConfig_eq h.known, h.sent, if_pos rfl]
  refine ⟨(pollKeepalive (pollPush b i).1 i).2.toList, ?_⟩
  simp only [Htsn.pollCommands, h.known, if_true, hpush]
  rfl

/-- Whatever the endpoint held, it then holds the pushed payload. -/
theorem cmdTask_payload (e : Endpoint) (json : CStr) :
    (cmdTask e (cfgFrame json)).1.payload = tsnPayload json := by
  obtain ⟨hlo, hhi⟩ := tsnPayload_length json
  rw [cmdTask_cfgFrame, tsnHandleCfg_eq hlo hhi]
  split
  · rename_i hsame
    exact hsame.2
  · rfl

/-- A VLAN id is the same number in the signed node. -/
theorem vlan_toInt {x : BitVec 16} {v : Int} (h : (x.toNat : Int) = v) (hv : v ≤ 4094) :
    x.toInt = v := by
  rw [BitVec.toInt_eq_toNat_of_lt (by omega), h]

/-- Nodes that show the stored struct carry what the payload carries. -/
theorem nodesCarry_of_shows {o : Object} (h : IsConfig o) {n : AppNodes}
    (hc : Carries o (tsnPayload (o.text.take frameMaxplen)))
    (hn : n.Shows (cfgOfJson (o.text.take frameMaxplen))) : NodesCarry o n := by
  have hcfg : TsnCfg.ofBytes (tsnPayload (o.text.take frameMaxplen)) =
      cfgOfJson (o.text.take frameMaxplen) := by
    rw [tsnPayload_eq, TsnCfg.ofBytes_toBytes]
  have hvlan := (h.bounds ("vlan_id".toList, 0, 4094) (by decide)).2
  have hstvlan := (h.bounds ("st_vlan".toList, 0, 4094) (by decide)).2
  rw [AppNodes.Shows, ← hcfg] at hn
  rw [hn]
  exact ⟨vlan_toInt hc.vlanId hvlan, hc.priority, hc.preemption, hc.timesyncMode, hc.streamRole,
    vlan_toInt hc.streamVlanId hstvlan, hc.tasCycleNs⟩

/-- The way over the wire: the endpoint reports the pushed payload unless it
holds it already, and stays quiet then. -/
theorem arrives_iff_carries {o : Object} (h : IsConfig o) {b : Bridge} {i : PollInput}
    (hnew : FindsNew o b i) (e : Endpoint) (n : AppNodes) :
    ConfigArrives o b i e n ↔ Carries o (tsnPayload (o.text.take frameMaxplen)) ∧
      (e.valid = true → e.payload = tsnPayload (o.text.take frameMaxplen) → NodesCarry o n) := by
  obtain ⟨more, hsent⟩ := hnew.pollCommands
  obtain ⟨hlo, hhi⟩ := tsnPayload_length (o.text.take frameMaxplen)
  have hpayload := cmdTask_payload e (o.text.take frameMaxplen)
  have harrives : ConfigArrives o b i e n ↔
      Carries o (tsnPayload (o.text.take frameMaxplen)) ∧
        NodesCarry o (nodesAfter (Htsn.pollCommands b i).1 n
          (cmdTask e (cfgFrame (o.text.take frameMaxplen))).2) := by
    constructor
    · rintro ⟨frame, more', hsent', hcarries, hnodes⟩
      obtain rfl := (List.cons.inj (hsent'.symm.trans hsent)).1
      exact ⟨hpayload ▸ hcarries, hnodes⟩
    · rintro ⟨hcarries, hnodes⟩
      exact ⟨_, more, hsent, hpayload.symm ▸ hcarries, hnodes⟩
  rw [harrives]
  apply and_congr_right
  intro hcarries
  rw [cmdTask_cfgFrame, tsnHandleCfg_eq hlo hhi]
  split
  · rename_i hheld
    exact ⟨fun hnodes _ _ => hnodes, fun hnodes => hnodes hheld.1 hheld.2⟩
  · rename_i hheld
    obtain ⟨report, hreport⟩ := exists_reportFrame
      (show (Endpoint.applied (tsnPayload (o.text.take frameMaxplen))).payload = _ from rfl)
    rw [hreport]
    refine iff_of_true ?_ fun hvalid hsame => absurd ⟨hvalid, hsame⟩ hheld
    exact nodesCarry_of_shows h hcarries (bridgeRecv_reports (reports_pack rfl hreport) _ n)

theorem eq_ofInt_of_toNat {w : Nat} {x : BitVec w} {v : Int} (h : (x.toNat : Int) = v) :
    x = BitVec.ofInt w v := by
  rw [← h, BitVec.ofInt_natCast, BitVec.ofNat_toNat, BitVec.setWidth_eq]

/-- A payload that carries the configuration is the one of its numbers. -/
theorem payload_of_carries {o : Object} (h : IsConfig o)
    (hc : Carries o (tsnPayload (o.text.take frameMaxplen))) :
    tsnPayload (o.text.take frameMaxplen) = configBytes o := by
  have hcfg : TsnCfg.ofBytes (tsnPayload (o.text.take frameMaxplen)) =
      cfgOfJson (o.text.take frameMaxplen) := by
    rw [tsnPayload_eq, TsnCfg.ofBytes_toBytes]
  have hgates := hc.gates
  rw [gates_tsnPayload] at hgates
  have hcount : (readGates (o.text.take frameMaxplen)).length = (listOf o gsKey).length := by
    have hlen := congrArg List.length hgates
    rwa [List.length_map, List.length_map, List.length_zip, ← h.lengths, Nat.min_self] at hlen
  have hgclCount : (cfgOfJson (o.text.take frameMaxplen)).gclCount =
      BitVec.ofNat 16 (listOf o gsKey).length := by
    rw [← hcount, ← gclCount_toNat, BitVec.ofNat_toNat, BitVec.setWidth_eq]
  obtain ⟨h1, h2, h3, h4, h5, h6, h7, h8, h9, -⟩ := hc
  rw [hcfg] at h1 h2 h3 h4 h5 h6 h7 h8 h9
  have hstruct : cfgOfJson (o.text.take frameMaxplen) = configCfg o := by
    rw [configCfg, ← eq_ofInt_of_toNat h1, ← eq_ofInt_of_toNat h2, ← eq_ofInt_of_toNat h3,
      ← eq_ofInt_of_toNat h4, ← eq_ofInt_of_toNat h5, ← eq_ofInt_of_toNat h6,
      ← eq_ofInt_of_toNat h7, ← eq_ofInt_of_toNat h8, ← h9, BitVec.ofInt_toInt, ← hgclCount]
    rfl
  rw [tsnPayload_eq, hstruct, configBytes, ← hgates]
  simp only [List.flatMap_map, BitVec.ofInt_natCast, BitVec.ofNat_toNat, BitVec.setWidth_eq]
  rfl

/-- For every poll that finds the text new and every state of endpoint and nodes:
the configuration arrives exactly when its text can be read from its first 384
bytes, and the nodes show it already if the endpoint holds it, as that is not
reported again. -/
theorem config_arrives_iff (o : Object) (h : IsConfig o) {b : Bridge} {i : PollInput}
    (hnew : FindsNew o b i) (e : Endpoint) (n : AppNodes) :
    ConfigArrives o b i e n ↔
      ConfigReadable o ∧ (e.valid = true → e.payload = configBytes o → NodesCarry o n) := by
  rw [arrives_iff_carries h hnew, ← carries_iff h]
  apply and_congr_right
  intro hcarries
  rw [payload_of_carries h hcarries]

/-! ### Sixteen gates -/

def compactInts (ns : List Nat) : Value := .ints .none (ns.map fun n => ⟨.none, false, n, .none⟩)

/-- The text the Node-RED form writes, with sixteen gates of one duration. -/
def gateConfig (duration : Nat) : Object :=
  ⟨.none, .none,
    [.compact (.lit "priority".toList) (.ofInt 7),
      .compact (.lit "traffic_class".toList) (.ofInt 7),
      .compact (.lit "vlan_id".toList) (.ofInt 4094),
      .compact (.lit "preemption".toList) (.ofInt 1),
      .compact (.lit "timesync_mode".toList) (.ofInt 2),
      .compact (.lit "st_role".toList) (.ofInt 2),
      .compact (.lit "st_vlan".toList) (.ofInt 4094),
      .compact (.lit "st_prio".toList) (.ofInt 7),
      .compact (.lit "tas_cycle_ns".toList) (.ofInt 1000000000),
      .compact (.lit gsKey) (compactInts (List.replicate 16 255)),
      .compact (.lit durKey) (compactInts (List.replicate 16 duration))],
    .none⟩

theorem gateConfig_states (d : Nat) : listOf (gateConfig d) gsKey = List.replicate 16 255 := rfl

theorem gateConfig_durations (d : Nat) :
    listOf (gateConfig d) durKey = List.replicate 16 (d : Int) := rfl

theorem gateConfig_isConfig (d : Nat) : IsConfig (gateConfig d) where
  distinct := by
    have hkeys : ((gateConfig d).members.map fun m => m.key.chars) =
        (gateConfig 0).members.map fun m => m.key.chars := rfl
    rw [Distinct, hkeys]
    decide
  scalars := by
    intro f hf m hm
    simp only [scalarBounds, List.mem_cons, List.not_mem_nil, or_false] at hf
    rcases hf with rfl | rfl | rfl | rfl | rfl | rfl | rfl | rfl | rfl
    all_goals
      cases hm
      exact ⟨_, _, _, rfl, rfl⟩
  lists := by
    intro key hkey m hm
    simp only [List.mem_cons, List.not_mem_nil, or_false] at hkey
    rcases hkey with rfl | rfl
    all_goals
      cases hm
      exact ⟨_, _, rfl⟩
  bounds := by
    have hbounds : ∀ f ∈ scalarBounds,
        f.2.1 ≤ scalarOf (gateConfig 0) f.1 ∧ scalarOf (gateConfig 0) f.1 ≤ f.2.2 := by decide
    intro f hf
    have hsame : scalarOf (gateConfig d) f.1 = scalarOf (gateConfig 0) f.1 := by
      simp only [scalarBounds, List.mem_cons, List.not_mem_nil, or_false] at hf
      rcases hf with rfl | rfl | rfl | rfl | rfl | rfl | rfl | rfl | rfl <;> rfl
    rw [hsame]
    exact hbounds f hf
  lengths := rfl
  count := by
    rw [gateConfig_states]
    decide
  gates := by
    rw [gateConfig_states]
    decide
  durations := by
    intro v hv
    rw [gateConfig_durations] at hv
    rw [List.eq_of_mem_replicate hv]
    omega

/-- The first poll after the endpoint was heard of. -/
def freshBridge : Bridge := { epKnown := true }

def firstPoll (o : Object) : PollInput := ⟨some o.text, 0, true, true⟩

theorem firstPoll_findsNew (o : Object) : FindsNew o freshBridge (firstPoll o) :=
  ⟨rfl, (text_take_ne_nil o).symm, rfl, rfl⟩

/-- Sixteen gates of 62.5 ms each reach a fresh endpoint. -/
theorem gateConfig_arrives :
    IsConfig (gateConfig 62500000) ∧
      ConfigArrives (gateConfig 62500000) freshBridge (firstPoll (gateConfig 62500000)) {} {} := by
  have hconfig := gateConfig_isConfig 62500000
  refine ⟨hconfig, (config_arrives_iff _ hconfig (firstPoll_findsNew _) _ _).mpr
    ⟨⟨?_, fun _ => ⟨?_, ?_, ?_⟩⟩, by simp⟩⟩
  · intro f hf _
    simp only [scalarBounds, List.mem_cons, List.not_mem_nil, or_false] at hf
    rcases hf with rfl | rfl | rfl | rfl | rfl | rfl | rfl | rfl | rfl
    all_goals exact ⟨_, _, _, _, _, _, rfl, rfl, rfl, by decide⟩
  · refine ⟨_, _, _, _, _, rfl, rfl, rfl, by simp [Ws.none, Member.compact], ?_, by decide⟩
    simp [SpacedItems, Ws.none, List.replicate]
  · refine ⟨_, _, _, _, _, rfl, rfl, rfl, by simp [Ws.none, Member.compact], ?_, by decide⟩
    simp [SpacedItems, Ws.none, List.replicate]
  · rw [gateConfig_durations]
    decide

/-- Of sixteen gates of 100 ms each the last one is cut. -/
theorem gateConfig_cut :
    IsConfig (gateConfig 100000000) ∧
      ¬ ConfigArrives (gateConfig 100000000) freshBridge (firstPoll (gateConfig 100000000)) {} {} := by
  have hconfig := gateConfig_isConfig 100000000
  refine ⟨hconfig, fun harrives => ?_⟩
  have hcarries := ((arrives_iff_carries hconfig (firstPoll_findsNew _) _ _).mp harrives).1
  obtain ⟨_, hdur, _⟩ := ((carries_iff hconfig).mp hcarries).2 (by
    rw [gateConfig_states]
    decide)
  obtain ⟨off, m, later, pad, items, hloc, hval, _, _, _, hend⟩ := hdur
  cases hloc
  cases hval
  exact absurd hend (by decide)

end Htsn
