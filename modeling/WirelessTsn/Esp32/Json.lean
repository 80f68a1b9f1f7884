import WirelessTsn.Lib.Loop
import WirelessTsn.Lib.Json

/-!
The JSON readers of the ESP32 agent
(`esp32-agent/components/htsn_agent/htsn_json.c`). A search for a key walks
over the root members; at white space before the end of the text it steps over
the terminator and reads on outside the payload, which is `Probe.overrun`
here. On the text of a flat object it finds the first member with the key.
-/

namespace Htsn.Esp32

open CText Json

/-- What `probe_value` comes back with. -/
inductive Probe where
  | found (val : CStr)
  | absent
  | overrun
  deriving DecidableEq, Repr

def skipws (s : CStr) : CStr := s.dropWhile isWs

/-- The loop over a nested value, `d` levels deep. -/
def skipNested (opening closing : Char) : Nat → CStr → CStr
  | 0, p => p
  | _ + 1, [] => []
  | d + 1, c :: p =>
      if c = opening then skipNested opening closing (d + 2) p
      else if c = closing then skipNested opening closing d p
      else skipNested opening closing (d + 1) p

/-- The part of `probe_value` that skips a value. -/
def skipValue (val : CStr) : CStr :=
  match val with
  | [] => []
  | c :: v =>
      if c = '"' then
        match splitQuote v with
        | some (_, rest) => rest
        | none => v
      else if c = '\x7b' then skipNested '\x7b' '\x7d' 1 v
      else if c = '[' then skipNested '[' ']' 1 v
      else val.dropWhile fun c => c != ',' && c != '\x7d' && c != ' '

/-- One round of the loop of `probe_value`. -/
def probeBody (key p : CStr) : Loop.Step CStr Probe :=
  if p = [] then .done .absent
  else
    match skipws p with
    | [] => .done .overrun
    | c :: ks =>
        if c ≠ '"' then .next ks
        else
          match splitQuote ks with
          | none => .done .absent
          | some (k, p) =>
              match skipws p with
              | [] => .done .overrun
              | c :: v =>
                  if c ≠ ':' then .next v
                  else if k = key then .done (.found (skipws v))
                  else .next (skipValue (skipws v))

/-! ### The search ends -/

theorem skipws_length_le (s : CStr) : (skipws s).length ≤ s.length :=
  (List.dropWhile_sublist _).length_le

theorem skipNested_length_le (opening closing : Char) (d : Nat) (p : CStr) :
    (skipNested opening closing d p).length ≤ p.length := by
  induction p generalizing d with
  | nil => cases d <;> simp [skipNested]
  | cons c p ih =>
      cases d with
      | zero => simp [skipNested]
      | succ d =>
          have hup := ih (d + 2)
          have hdown := ih d
          have hsame := ih (d + 1)
          rw [skipNested, List.length_cons]
          split
          · omega
          · split
            · omega
            · omega

theorem skipValue_length_le (val : CStr) : (skipValue val).length ≤ val.length := by
  cases val with
  | nil => simp [skipValue]
  | cons c v =>
      simp only [skipValue]
      split
      · split
        · rename_i rest heq
          have hlt := splitQuote_length heq
          rw [List.length_cons]
          omega
        · simp
      · split
        · exact (skipNested_length_le _ _ _ _).trans (by simp)
        · split
          · exact (skipNested_length_le _ _ _ _).trans (by simp)
          · exact (List.dropWhile_sublist _).length_le

/-- Every round that goes on has moved forward. -/
theorem probeBody_length (key p q : CStr) (h : probeBody key p = .next q) :
    q.length < p.length := by
  have hp := skipws_length_le p
  rw [probeBody] at h
  split at h
  · cases h
  · split at h
    · cases h
    · rename_i c ks hskip
      rw [hskip, List.length_cons] at hp
      split at h
      · cases h
        omega
      · split at h
        · cases h
        · rename_i k rest hsplit
          have hrest := splitQuote_length hsplit
          have hws := skipws_length_le rest
          split at h
          · cases h
          · rename_i c' v hcolon
            rw [hcolon, List.length_cons] at hws
            split at h
            · cases h
              omega
            · split at h
              · cases h
              · cases h
                have hval := skipValue_length_le (skipws v)
                have hv := skipws_length_le v
                omega

def probeValue (json key : CStr) : Probe :=
  Loop.total (probeBody key) List.length (probeBody_length key) json

/-! ### The readers

A reader returns `none` when its search reads outside the payload. -/

/-- The value of `atoi` where `long` has 32 bits. -/
def atoi (s : CStr) : Int32 :=
  match scanInt s with
  | some (v, _) => Int32.ofInt (max (-(2 ^ 31)) (min v (2 ^ 31 - 1)))
  | none => 0

/-- A reader applied to the value of a key. -/
def lookup {α : Type} (read : CStr → Option α) (json key : CStr) : Option (Option α) :=
  match probeValue json key with
  | .overrun => none
  | .absent => some none
  | .found v => some (read v)

def getInt (json key : CStr) : Option (Option Int32) := lookup (readNumber 31 atoi) json key

def getI64 (json key : CStr) : Option (Option Int64) := lookup (readNumber 31 atoll) json key

def getStr (json key : CStr) (sz : Nat) : Option (Option CStr) := lookup (readStr sz) json key

/-- The array of `htsn_json_get_root_array`. -/
def readArray (v : CStr) : Option CStr := if v.head? = some '[' then some v else none

def getRootArray (json key : CStr) : Option (Option CStr) := lookup readArray json key

/-- The loop of `htsn_json_parse_str_array` with `n` places left. -/
def strArrayLoop : Nat → CStr → List CStr
  | 0, _ => []
  | n + 1, p =>
      match p.dropWhile fun c => isWs c || c == ',' with
      | [] => []
      | c :: s =>
          if c ≠ '"' then []
          else
            match splitQuote s with
            | none => []
            | some (e, rest) => e.take 63 :: strArrayLoop n rest

def parseStrArray (arr : CStr) (maxEntries : Nat) : List CStr := strArrayLoop maxEntries (arr.drop 1)

/-- The loop of `htsn_json_parse_gcl` with `n` places left. -/
def gclLoop : Nat → CStr → Option (List (Int32 × Int64))
  | 0, _ => some []
  | n + 1, p =>
      match p.dropWhile fun c => isWs c || c == ',' || c == '\x7b' with
      | [] => some []
      | c :: q =>
          if c = ']' then some []
          else do
            let gs ← getInt (c :: q) "gate_state".toList
            let dur ← getI64 (c :: q) "duration_ns".toList
            let more ←
              match (c :: q).dropWhile (· != '\x7d') with
              | [] => some []
              | _ :: rest => gclLoop n rest
            some ((gs.getD 0, dur.getD 0) :: more)

def parseGcl (arr : CStr) (maxEntries : Nat) : Option (List (Int32 × Int64)) :=
  gclLoop maxEntries (arr.drop 1)

/-! ### The search on the text of an object -/

theorem probeValue_done {key p : CStr} {r : Probe} (h : probeBody key p = .done r) :
    probeValue p key = r :=
  Loop.total_done h

theorem probeValue_next {key p q : CStr} (h : probeBody key p = .next q) :
    probeValue p key = probeValue q key :=
  Loop.total_next h

/-- White space before other text makes no difference. -/
theorem probeValue_ws {key s : CStr} {c : Char} (hc : isWs c = true) (hs : s ≠ []) :
    probeValue (c :: s) key = probeValue s key := by
  have hbody : probeBody key (c :: s) = probeBody key s := by
    rw [probeBody, probeBody, if_neg (List.cons_ne_nil c s), if_neg hs]
    simp only [skipws, List.dropWhile_cons_of_pos hc]
  cases h : probeBody key s with
  | next q => rw [probeValue_next h, probeValue_next (hbody.trans h)]
  | done r => rw [probeValue_done h, probeValue_done (hbody.trans h)]

/-- Any other character than a quote is stepped over. -/
theorem probeValue_step {key s : CStr} {c : Char} (hws : isWs c = false) (hq : c ≠ '"') :
    probeValue (c :: s) key = probeValue s key := by
  apply probeValue_next
  have hskip : skipws (c :: s) = c :: s := by
    rw [skipws, List.dropWhile_cons_of_neg (by simp [hws])]
  rw [probeBody, if_neg (List.cons_ne_nil c s), hskip]
  simp only [ne_eq, hq, not_false_eq_true, if_true]

/-- A text without quotes is stepped over. -/
theorem probeValue_skip {key seg s : CStr} (hseg : '"' ∉ seg) (hs : s ≠ []) :
    probeValue (seg ++ s) key = probeValue s key := by
  induction seg with
  | nil => rfl
  | cons c seg ih =>
      have hc : c ≠ '"' := fun heq => hseg (by simp [heq])
      rw [List.cons_append, ← ih fun hmem => hseg (by simp [hmem])]
      cases hws : isWs c with
      | true => exact probeValue_ws hws (by simp [hs])
      | false => exact probeValue_step hws hc

/-- White space that trails a text leads the search out of it. -/
theorem probeValue_trail (key : CStr) (trail : Ws) :
    probeValue trail.chars key = if trail.chars = [] then .absent else .overrun := by
  split
  · rename_i hnil
    rw [hnil]
    exact probeValue_done (by simp [probeBody])
  · rename_i hne
    apply probeValue_done
    have hskip : skipws trail.chars = [] := by
      rw [skipws, List.dropWhile_eq_nil_iff]
      exact trail.blank
    rw [probeBody, if_neg hne, hskip]

/-- Behind the last member only the closing brace and white space are left. -/
theorem probeValue_close (key : CStr) (trail : Ws) :
    probeValue ('\x7d' :: trail.chars) key = if trail.chars = [] then .absent else .overrun := by
  rw [probeValue_step (by decide) (by decide), probeValue_trail]

theorem skipNested_skip {opening closing : Char} {seg : CStr} (hopen : opening ∉ seg)
    (hclose : closing ∉ seg) (d : Nat) (rest : CStr) :
    skipNested opening closing (d + 1) (seg ++ rest) = skipNested opening closing (d + 1) rest := by
  induction seg with
  | nil => rfl
  | cons c seg ih =>
      rw [List.mem_cons, not_or] at hopen hclose
      rw [List.cons_append, skipNested, if_neg (Ne.symm hopen.1), if_neg (Ne.symm hclose.1),
        ih hopen.2 hclose.2]

theorem skipNested_close {opening closing : Char} (hne : closing ≠ opening) (d : Nat) (rest : CStr) :
    skipNested opening closing (d + 1) (closing :: rest) = skipNested opening closing d rest := by
  rw [skipNested, if_neg hne, if_pos rfl]

/-- An array of integers holds no bracket before its end. -/
theorem skipNested_item (i : Item) (rest : CStr) :
    skipNested '[' ']' 1 (i.text rest) = skipNested '[' ']' 1 rest := by
  have hnum : ∀ c : Char, c.isDigit = false → c ≠ '-' → c ∉ numText i.neg i.n :=
    fun c hdigit hminus => not_mem_numText hdigit hminus i.neg i.n
  rw [Item.text, skipNested_skip (Ws.not_mem i.pre (by decide)) (Ws.not_mem i.pre (by decide)),
    skipNested_skip (hnum '[' (by decide) (by decide)) (hnum ']' (by decide) (by decide)),
    skipNested_skip (Ws.not_mem i.fin (by decide)) (Ws.not_mem i.fin (by decide))]

theorem skipNested_itemsTail (is : List Item) (rest : CStr) :
    skipNested '[' ']' 1 (itemsTail rest is) = rest := by
  induction is with
  | nil =>
      rw [itemsTail, skipNested_close (by decide), skipNested]
  | cons i is ih =>
      have hcomma := @skipNested_skip '[' ']' [','] (by decide) (by decide) 0 (i.text (itemsTail rest is))
      rw [itemsTail]
      exact hcomma.trans ((skipNested_item i _).trans ih)

theorem skipNested_itemsText (pad : Ws) (is : List Item) (rest : CStr) :
    skipNested '[' ']' 1 (itemsText pad rest is) = rest := by
  cases is with
  | nil =>
      rw [itemsText, skipNested_skip (Ws.not_mem pad (by decide)) (Ws.not_mem pad (by decide)),
        skipNested_close (by decide), skipNested]
  | cons i is => rw [itemsText, skipNested_item, skipNested_itemsTail]

/-- A scalar is skipped up to a comma, a brace or a space. -/
theorem dropWhile_scalar {word rest : CStr} (fin : Ws)
    (hword : ∀ c ∈ word, c ≠ ',' ∧ c ≠ '\x7d' ∧ c ≠ ' ')
    (hrest : ∀ c ∈ rest.head?, c = ',' ∨ c = '\x7d') :
    ∃ seg, '"' ∉ seg ∧
      (word ++ (fin.chars ++ rest)).dropWhile (fun c => c != ',' && c != '\x7d' && c != ' ') =
        seg ++ rest := by
  refine ⟨fin.chars.dropWhile fun c => c != ',' && c != '\x7d' && c != ' ', ?_, ?_⟩
  · intro hmem
    exact fin.noQuote ((List.dropWhile_sublist _).subset hmem)
  · rw [List.dropWhile_append_of_pos (by simpa [and_assoc] using hword), List.dropWhile_append]
    split
    · rename_i hempty
      rw [List.isEmpty_iff] at hempty
      rw [hempty, List.nil_append]
      cases rest with
      | nil => rfl
      | cons c rest =>
          apply List.dropWhile_cons_of_neg
          rcases hrest c rfl with rfl | rfl <;> decide
    · rfl

theorem skipValue_scalar {word rest : CStr} (fin : Ws) (hne : word ≠ [])
    (hhead : ∀ c ∈ word.head?, c ≠ '"' ∧ c ≠ '\x7b' ∧ c ≠ '[')
    (hword : ∀ c ∈ word, c ≠ ',' ∧ c ≠ '\x7d' ∧ c ≠ ' ')
    (hrest : ∀ c ∈ rest.head?, c = ',' ∨ c = '\x7d') :
    ∃ seg, '"' ∉ seg ∧ skipValue (word ++ (fin.chars ++ rest)) = seg ++ rest := by
  obtain ⟨seg, hseg, hdrop⟩ := dropWhile_scalar fin hword hrest
  refine ⟨seg, hseg, ?_⟩
  cases word with
  | nil => exact absurd rfl hne
  | cons c word =>
      obtain ⟨hq, hb, hs⟩ := hhead c rfl
      rw [← hdrop, List.cons_append]
      simp only [skipValue, hq, hb, hs, if_false]

/-- Behind a skipped value no quote stands before what follows the member. -/
theorem skipValue_text (v : Value) (fin : Ws) {rest : CStr}
    (hrest : ∀ c ∈ rest.head?, c = ',' ∨ c = '\x7d') :
    ∃ seg, '"' ∉ seg ∧ skipValue (v.text (fin.chars ++ rest)) = seg ++ rest := by
  cases v with
  | str s =>
      refine ⟨fin.chars, fin.noQuote, ?_⟩
      simp only [Value.text, skipValue, if_true, splitQuote_append s.noQuote]
  | ints pad items =>
      refine ⟨fin.chars, fin.noQuote, ?_⟩
      have hopen : ('[' : Char) ≠ '"' ∧ ('[' : Char) ≠ '\x7b' := by decide
      simp only [Value.text, skipValue, hopen.1, hopen.2, if_false, if_true, skipNested_itemsText]
  | lit l =>
      have hchars : ∀ c ∈ l.text,
          (c ≠ '"' ∧ c ≠ '\x7b' ∧ c ≠ '[') ∧ c ≠ ',' ∧ c ≠ '\x7d' ∧ c ≠ ' ' := by
        cases l <;> decide
      apply skipValue_scalar fin _ _ _ hrest
      · cases l <;> decide
      · exact fun c hc => (hchars c (List.mem_of_mem_head? hc)).1
      · exact fun c hc => (hchars c hc).2
  | num neg n tail =>
      have hnot : ∀ d : Char, d.isDigit = false → d ∉ ['.', 'e', 'E', '+', '-'] →
          ∀ c ∈ numText neg n ++ tail.chars, c ≠ d := by
        rintro d hdigit hsign c hc rfl
        rcases mem_number hc with h | h
        · rw [h] at hdigit
          cases hdigit
        · exact hsign h
      rw [Value.text, ← List.append_assoc]
      apply skipValue_scalar fin _ _ _ hrest
      · simp [numText_ne_nil]
      · intro c hc
        have hmem := List.mem_of_mem_head? hc
        exact ⟨hnot '"' (by decide) (by decide) c hmem,
          hnot '\x7b' (by decide) (by decide) c hmem,
          hnot '[' (by decide) (by decide) c hmem⟩
      · intro c hmem
        exact ⟨hnot ',' (by decide) (by decide) c hmem,
          hnot '\x7d' (by decide) (by decide) c hmem,
          hnot ' ' (by decide) (by decide) c hmem⟩

/-- A quoted key with its colon: the value behind it when it is the key searched
for, and else what follows the value. -/
theorem probeValue_key (key : CStr) (pre mid : Ws) {k : CStr} (hk : '"' ∉ k) {text v : CStr}
    (hv : skipws text = v) :
    probeValue (pre.chars ++ '"' :: (k ++ '"' :: (mid.chars ++ ':' :: text))) key =
      if k = key then .found v else probeValue (skipValue v) key := by
  have hquote : skipws ('"' :: (k ++ '"' :: (mid.chars ++ ':' :: text))) =
      '"' :: (k ++ '"' :: (mid.chars ++ ':' :: text)) :=
    List.dropWhile_cons_of_neg (by decide)
  have hcolon : skipws (mid.chars ++ ':' :: text) = ':' :: text :=
    mid.dropWhile_append (by simp [isWs])
  have hbody : probeBody key ('"' :: (k ++ '"' :: (mid.chars ++ ':' :: text))) =
      if k = key then .done (.found v) else .next (skipValue v) := by
    rw [probeBody, if_neg (List.cons_ne_nil _ _), hquote]
    simp only [ne_eq, not_true_eq_false, if_false, splitQuote_append hk, hcolon, hv]
  rw [probeValue_skip pre.noQuote (by simp)]
  split
  · rename_i hkey
    rw [if_pos hkey] at hbody
    exact probeValue_done hbody
  · rename_i hkey
    rw [if_neg hkey] at hbody
    exact probeValue_next hbody

/-- One member: its value when the key matches, and else what follows. -/
theorem probeValue_member (key : CStr) (m : Member) (rest : CStr) :
    probeValue (m.text rest) key =
      if m.key.chars = key then .found (m.val.text (m.fin.chars ++ rest))
      else probeValue (skipValue (m.val.text (m.fin.chars ++ rest))) key :=
  probeValue_key key m.pre m.mid m.key.noQuote (m.dropWhile_valueText rest)

/-- What the search for a key comes back with. -/
def probed (trail : Ws) : Option (Nat × Member × List Member) → Probe
  | some (_, m, later) => .found (m.val.text (m.fin.chars ++ membersTail trail.chars later))
  | none => if trail.chars = [] then .absent else .overrun

/-- The members one after another. -/
theorem probeValue_members (key : CStr) (trail : Ws) (m : Member) (ms : List Member) (off : Nat) :
    probeValue (m.text (membersTail trail.chars ms)) key = probed trail (locate key off (m :: ms)) := by
  induction ms generalizing m off with
  | nil =>
      rw [probeValue_member, locate]
      split
      · rfl
      · obtain ⟨seg, hseg, hskip⟩ := skipValue_text m.val m.fin (membersTail_head trail.chars [])
        rw [hskip, probeValue_skip hseg (by simp [membersTail]), membersTail, probeValue_close]
        rfl
  | cons m' ms ih =>
      rw [probeValue_member, locate]
      split
      · rfl
      · obtain ⟨seg, hseg, hskip⟩ :=
          skipValue_text m.val m.fin (membersTail_head trail.chars (m' :: ms))
        rw [hskip, probeValue_skip hseg (by simp [membersTail]), membersTail,
          probeValue_step (by decide) (by decide), ih m' (off + m.size + 1)]

/-- On the text of an object the search finds the first member with the key;
without one it ends at the end of the text, or outside it when white space
trails. -/
theorem probeValue_object (key : CStr) (o : Object) :
    probeValue o.text key = probed o.trail (o.locate key) := by
  rw [Object.text, probeValue_skip o.lead.noQuote (by simp),
    probeValue_step (by decide) (by decide), Object.locate]
  cases h : o.members with
  | nil =>
      rw [membersText, probeValue_skip o.pad.noQuote (by simp), probeValue_close]
      rfl
  | cons m ms => exact probeValue_members key o.trail m ms _

/-! ### The readers on the text of an object -/

theorem lookup_object {α : Type} (read : CStr → Option α) (o : Object) (key : CStr) :
    lookup read o.text key =
      match o.locate key with
      | some (_, m, later) =>
          some (read (m.val.text (m.fin.chars ++ membersTail o.trail.chars later)))
      | none => if o.trail.chars = [] then some none else none := by
  rw [lookup, probeValue_object]
  cases o.locate key with
  | some l => rfl
  | none =>
      by_cases hnil : o.trail.chars = []
      · simp only [probed, hnil, if_true]
      · simp only [probed, hnil, if_false]

/-- On an object without white space no search leaves the text. -/
theorem lookup_compact {α : Type} (read : CStr → Option α) (ms : List (Plain × Value)) (key : CStr) :
    lookup read (compactObject ms).text key =
      some ((memberAt key ms).bind fun l => read (l.1.text (membersTail [] (compactMembers l.2)))) := by
  have hmember := locate_compact key 1 ms
  have hloc : (compactObject ms).locate key = locate key 1 (compactMembers ms) := rfl
  rw [lookup_object, hloc]
  cases h : locate key 1 (compactMembers ms) with
  | none =>
      rw [h, Option.map_none] at hmember
      rw [Option.map_eq_none_iff.mp hmember.symm]
      rfl
  | some l =>
      rw [h, Option.map_some] at hmember
      obtain ⟨v, hv, hpair⟩ := Option.map_eq_some_iff.mp hmember.symm
      rw [Prod.mk.injEq] at hpair
      have hskip : (v.1.text (membersTail [] (compactMembers v.2))).dropWhile isWs =
          v.1.text (membersTail [] (compactMembers v.2)) :=
        Ws.none.dropWhile_append (Value.head_not_ws v.1 _)
      have hws := congrArg (List.dropWhile isWs) hpair.2
      rw [l.2.1.dropWhile_valueText, hskip] at hws
      rw [hv, Option.bind_some, hws]
      rfl

end Htsn.Esp32
