import WirelessTsn.Lib.Json
import WirelessTsn.Lib.Loop

/-!
`parse_payload` of `htsn_telemetry.c`. The loop goes from comma to comma and
looks only at what directly follows a comma or an opening brace and quotes, so
a member behind white space is passed over. The test for `jitter_ns` compares
its terminator as well and never succeeds on a member, and an id is copied
with the quotes around it.
-/

namespace Htsn.Telemetry

open CText Json

/-! ### The parser -/

inductive TlKind where
  | none
  | heartbeat
  | syncReport
  | sensor
deriving DecidableEq

/-- The kind that `parse_payload` returns, and what stands behind its pointers. -/
@[ext]
structure Parsed where
  kind : TlKind
  id : CStr
  offset : Int64
  jitter : Int64
  loss : Int32
deriving DecidableEq

def isOpen (c : Char) : Bool := c == '\x7b' || c == '\x7d' || c == '"'

/-- `p = strchr(p, c)` and `p++` -/
def behind (c : Char) (p : CStr) : Option CStr := (strchr c p).map List.tail

def isIdChar (c : Char) : Bool := c != ',' && c != '\x7d'

/-- The loop that copies the id. -/
def copyId (cap : Nat) (p : CStr) : CStr := (p.take cap).takeWhile isIdChar

/-- The tests for the keys; `none` is the `break` without a colon. -/
def readMember (idCap : Nat) (p : CStr) (out : Parsed) : Option (CStr × Parsed) :=
  if strncmpEq 9 p "offset_ns".toList then
    (behind ':' p).map fun p => (p, { out with offset := strtoll p, kind := .syncReport })
  else if strncmpEq 10 p "jitter_ns".toList then
    (behind ':' p).map fun p => (p, { out with jitter := strtoll p })
  else if strncmpEq 4 p "loss".toList then
    (behind ':' p).map fun p => (p, { out with loss := atoi p })
  else if strncmpEq 9 p "heartbeat".toList then some (p, { out with kind := .heartbeat })
  else if strncmpEq 2 p "id".toList then
    (behind ':' p).map fun p =>
      let p := p.dropWhile (· == ' ')
      let id := copyId (idCap - 1) p
      (p.drop id.length, { out with id := id })
  else some (p, out)

/-- The end of a round: on to the next comma. -/
def nextMember (p : CStr) (out : Parsed) : Loop.Step (CStr × Parsed) Parsed :=
  match behind ',' p with
  | none => .done out
  | some p => .next (p, out)

/-- One round of the loop of `parse_payload`. -/
def payloadBody (idCap : Nat) (s : CStr × Parsed) : Loop.Step (CStr × Parsed) Parsed :=
  match s.1 with
  | [] => .done s.2
  | c :: rest =>
      if isOpen c then .next (rest, s.2)
      else
        match readMember idCap s.1 s.2 with
        | none => .done s.2
        | some (p, out) => nextMember p out

theorem behind_length {c : Char} {p q : CStr} (h : behind c p = some q) : q.length < p.length := by
  induction p with
  | nil => cases h
  | cons x p ih =>
      unfold behind strchr at h
      split at h
      · cases h
        exact Nat.lt_succ_self _
      · exact Nat.lt_succ_of_lt (ih h)

private theorem map_behind_length {c : Char} {p : CStr} {f : CStr → CStr × Parsed} {t : CStr × Parsed}
    (hf : ∀ q, (f q).1.length ≤ q.length) (h : (behind c p).map f = some t) :
    t.1.length ≤ p.length := by
  obtain ⟨q, hq, rfl⟩ := Option.map_eq_some_iff.mp h
  exact (hf q).trans (behind_length hq).le

theorem readMember_length {idCap : Nat} {p : CStr} {out : Parsed} {t : CStr × Parsed}
    (h : readMember idCap p out = some t) : t.1.length ≤ p.length := by
  have hcopy : ∀ q : CStr, ((q.dropWhile (· == ' ')).drop
      (copyId (idCap - 1) (q.dropWhile (· == ' '))).length).length ≤ q.length :=
    fun q => (List.drop_sublist _ _).length_le.trans (List.dropWhile_sublist _).length_le
  unfold readMember at h
  split at h
  · exact map_behind_length (fun _ => Nat.le_refl _) h
  split at h
  · exact map_behind_length (fun _ => Nat.le_refl _) h
  split at h
  · exact map_behind_length (fun _ => Nat.le_refl _) h
  split at h
  · cases h
    exact Nat.le_refl _
  split at h
  · exact map_behind_length hcopy h
  · cases h
    exact Nat.le_refl _

/-- Every round gets closer to the end of the buffer. -/
theorem payloadBody_length {idCap : Nat} (s t : CStr × Parsed) (h : payloadBody idCap s = .next t) :
    t.1.length < s.1.length := by
  obtain ⟨p, out⟩ := s
  cases p with
  | nil => cases h
  | cons c rest =>
      unfold payloadBody at h
      simp only at h
      split at h
      · cases h
        exact Nat.lt_succ_self _
      split at h
      · cases h
      · rename_i q out' hread
        unfold nextMember at h
        split at h
        · cases h
        · rename_i q' hq
          cases h
          exact Nat.lt_of_lt_of_le (behind_length hq) (readMember_length hread)

/-- The loop from a place of the buffer. -/
def parseFrom (idCap : Nat) (p : CStr) (out : Parsed) : Parsed :=
  Loop.total (payloadBody idCap) (fun s => s.1.length) payloadBody_length (p, out)

/-- `parse_payload` with what stands behind its pointers before. -/
def parsePayload (payload : Option CStr) (idCap : Nat) (out : Parsed) : Parsed :=
  match payload with
  | none => { out with kind := .none }
  | some text => parseFrom idCap (text.take 511) { out with kind := .none, id := [] }

/-! ### What a round makes of a text -/

/-- The keys that are found. -/
inductive Key where
  | offset
  | loss
  | id
deriving DecidableEq

def Key.text : Key → CStr
  | .offset => "offset_ns".toList
  | .loss => "loss".toList
  | .id => "id".toList

/-- What is made of the text behind the colon. -/
def Key.read : Key → CStr → Parsed → Parsed
  | .offset, v, out => { out with offset := strtoll v, kind := .syncReport }
  | .loss, v, out => { out with loss := atoi v }
  | .id, v, out => { out with id := copyId 255 (v.dropWhile (· == ' ')) }

/-- A member that no key is found in. -/
def readOther (b : CStr) (out : Parsed) : Parsed :=
  if "heartbeat".toList <+: b then { out with kind := .heartbeat } else out

/-- The rest of the parse, from where a member ends. -/
def parseRest (tail : CStr) (out : Parsed) : Parsed :=
  match behind ',' tail with
  | none => out
  | some p => parseFrom 256 p out

theorem behind_append {c : Char} {u : CStr} (h : c ∉ u) (s : CStr) :
    behind c (u ++ s) = behind c s := by
  rw [behind, behind, strchr_append h]

theorem behind_cons_self (c : Char) (s : CStr) : behind c (c :: s) = some s := by
  rw [behind, strchr_cons_self]
  rfl

theorem behind_eq_none {c : Char} {s : CStr} (h : c ∉ s) : behind c s = none := by
  rw [behind, strchr_eq_none h]
  rfl

theorem parseRest_append {u : CStr} (h : ',' ∉ u) (s : CStr) (out : Parsed) :
    parseRest (u ++ s) out = parseRest s out := by
  rw [parseRest, parseRest, behind_append h]

theorem parseRest_comma (s : CStr) (out : Parsed) :
    parseRest (',' :: s) out = parseFrom 256 s out := by
  rw [parseRest, behind_cons_self]

theorem parseRest_end {s : CStr} (h : ',' ∉ s) (out : Parsed) : parseRest s out = out := by
  rw [parseRest, behind_eq_none h]

theorem parseFrom_nil (out : Parsed) : parseFrom 256 [] out = out := Loop.total_done rfl

/-- Braces and quotes are stepped over. -/
theorem parseFrom_opens {o : CStr} (ho : ∀ c ∈ o, isOpen c = true) (s : CStr) (out : Parsed) :
    parseFrom 256 (o ++ s) out = parseFrom 256 s out := by
  induction o with
  | nil => rfl
  | cons c o ih =>
      obtain ⟨hc, ho⟩ := List.forall_mem_cons.mp ho
      have hbody : payloadBody 256 (c :: (o ++ s), out) = .next (o ++ s, out) := if_pos hc
      rw [List.cons_append, parseFrom, Loop.total_next hbody]
      exact ih ho

/-- A round that finds or passes over a member, and the rest of the parse. -/
theorem parseFrom_read {c : Char} {s p : CStr} {out out' : Parsed} (hc : isOpen c = false)
    (h : readMember 256 (c :: s) out = some (p, out')) :
    parseFrom 256 (c :: s) out = parseRest p out' := by
  have hbody : payloadBody 256 (c :: s, out) = nextMember p out' := by
    unfold payloadBody
    simp only [hc, Bool.false_eq_true, if_false, h]
  unfold nextMember at hbody
  unfold parseRest
  split at hbody
  · exact Loop.total_done hbody
  · exact Loop.total_next hbody

/-- A round without the colon it looks for ends the parse. -/
theorem parseFrom_break {c : Char} {s : CStr} {out : Parsed} (hc : isOpen c = false)
    (h : readMember 256 (c :: s) out = none) : parseFrom 256 (c :: s) out = out := by
  have hbody : payloadBody 256 (c :: s, out) = .done out := by
    unfold payloadBody
    simp only [hc, Bool.false_eq_true, if_false, h]
  exact Loop.total_done hbody

theorem Key.head (k : Key) : ∃ c s, k.text = c :: s ∧ isOpen c = false := by
  cases k with
  | offset => exact ⟨'o', "ffset_ns".toList, rfl, rfl⟩
  | loss => exact ⟨'l', "oss".toList, rfl, rfl⟩
  | id => exact ⟨'i', "d".toList, rfl, rfl⟩

/-- Where the loop stands behind the value of a key. -/
def Key.stop : Key → CStr → CStr
  | .id, v => (v.dropWhile (· == ' ')).drop (copyId 255 (v.dropWhile (· == ' '))).length
  | _, v => v

theorem readMember_key (k : Key) (s : CStr) (out : Parsed) :
    readMember 256 (k.text ++ s) out = (behind ':' s).map fun v => (k.stop v, k.read v out) := by
  have hcolon : ':' ∉ k.text := by cases k <;> decide
  have hbehind : behind ':' (k.text ++ s) = behind ':' s := behind_append hcolon s
  rw [← hbehind]
  cases k with
  | offset => exact if_pos rfl
  | loss => rfl
  | id => rfl

/-- A value ends before a comma, before a brace or with the text. -/
def Ends (tail : CStr) : Prop := ∀ c ∈ tail.head?, c = ',' ∨ c = '\x7d'

theorem scanInt_ends {tail : CStr} (ht : Ends tail) (v : CStr) :
    scanInt (v ++ tail) = (scanInt v).map fun p => (p.1, p.2 ++ tail) := by
  cases tail with
  | nil => simp
  | cons c rest =>
      rcases ht c rfl with rfl | rfl
      · exact scanInt_before (by decide) (by decide) (by decide) (by decide) v rest
      · exact scanInt_before (by decide) (by decide) (by decide) (by decide) v rest

/-- The copy of an id stops before the end of the value. -/
theorem copyId_ends {tail : CStr} (ht : Ends tail) (cap : Nat) (v : CStr) :
    copyId cap (v ++ tail) = copyId cap v := by
  have hstop : ∀ n, (tail.take n).takeWhile isIdChar = [] := by
    intro n
    cases tail with
    | nil => simp
    | cons c rest =>
        cases n with
        | zero => rfl
        | succ n => rcases ht c rfl with rfl | rfl <;> rfl
  unfold copyId
  rw [List.take_append, List.takeWhile_append, hstop, List.append_nil]
  split
  · rename_i hall
    rw [(List.takeWhile_prefix _).eq_of_length hall]
  · rfl

theorem dropWhile_ends {tail : CStr} (ht : Ends tail) (v : CStr) :
    (v ++ tail).dropWhile (· == ' ') = v.dropWhile (· == ' ') ++ tail := by
  induction v with
  | nil =>
      cases tail with
      | nil => rfl
      | cons c rest => rcases ht c rfl with rfl | rfl <;> rfl
  | cons x v ih =>
      by_cases hx : x = ' '
      · subst hx
        exact ih
      · rw [List.cons_append, List.dropWhile_cons_of_neg (by simpa using hx),
          List.dropWhile_cons_of_neg (by simpa using hx), List.cons_append]

/-- What is read of a value does not depend on what follows it. -/
theorem Key.read_ends {tail : CStr} (ht : Ends tail) (k : Key) (v : CStr) (out : Parsed) :
    k.read (v ++ tail) out = k.read v out := by
  cases k with
  | offset =>
      have hvalue : strtoll (v ++ tail) = strtoll v := by
        rw [strtoll, strtoll, scanInt_ends ht]
        cases scanInt v <;> rfl
      rw [Key.read, Key.read, hvalue]
  | loss =>
      have hvalue : atoi (v ++ tail) = atoi v := by
        rw [atoi, atoi, scanInt_ends ht]
        cases scanInt v <;> rfl
      rw [Key.read, Key.read, hvalue]
  | id => rw [Key.read, Key.read, dropWhile_ends ht, copyId_ends ht]

theorem isIdChar_of_mem_copyId {cap : Nat} {p : CStr} {c : Char} (h : c ∈ copyId cap p) :
    isIdChar c = true :=
  List.mem_takeWhile_imp h

theorem comma_not_mem_copyId (cap : Nat) (p : CStr) : ',' ∉ copyId cap p :=
  fun h => absurd (isIdChar_of_mem_copyId h) (by decide)

theorem isIdChar_eq_true {c : Char} : isIdChar c = true ↔ c ≠ ',' ∧ c ≠ '\x7d' := by
  rw [isIdChar, Bool.and_eq_true, bne_iff_ne, bne_iff_ne]

theorem copyId_length_le (cap : Nat) (p : CStr) : (copyId cap p).length ≤ cap :=
  (List.takeWhile_prefix _).length_le.trans (List.length_take_le cap p)

theorem copyId_isPrefix (cap : Nat) (p : CStr) : copyId cap p <+: p :=
  (List.takeWhile_prefix _).trans (List.take_prefix cap p)

/-- The next comma is the same from where the value starts. -/
theorem parseRest_stop (k : Key) (v : CStr) (out : Parsed) :
    parseRest (k.stop v) out = parseRest v out := by
  cases k with
  | offset => rfl
  | loss => rfl
  | id =>
      have hspaces : ',' ∉ v.takeWhile (· == ' ') := fun h => by
        simpa using List.mem_takeWhile_imp h
      have hcopy := parseRest_append (comma_not_mem_copyId 255 (v.dropWhile (· == ' ')))
        (Key.id.stop v) out
      have hskip := parseRest_append hspaces (v.dropWhile (· == ' ')) out
      rw [List.takeWhile_append_dropWhile] at hskip
      rw [Key.stop, ← List.prefix_append_drop (copyId_isPrefix 255 _)] at hcopy
      rw [hskip, hcopy, Key.stop]

/-- A round on a key with its colon. -/
theorem parseFrom_key (k : Key) {gap v tail : CStr} (hgap : ':' ∉ gap) (hv : ',' ∉ v)
    (ht : Ends tail) (out : Parsed) :
    parseFrom 256 (k.text ++ (gap ++ ':' :: (v ++ tail))) out = parseRest tail (k.read v out) := by
  obtain ⟨c, s, htext, hc⟩ := k.head
  have hread : readMember 256 (k.text ++ (gap ++ ':' :: (v ++ tail))) out =
      some (k.stop (v ++ tail), k.read (v ++ tail) out) := by
    rw [readMember_key, behind_append hgap, behind_cons_self]
    rfl
  rw [htext, List.cons_append] at hread ⊢
  rw [parseFrom_read hc hread, parseRest_stop, parseRest_append hv, Key.read_ends ht]

/-- A key without a colon behind it. -/
theorem parseFrom_no_colon (k : Key) {gap : CStr} (hgap : ':' ∉ gap) (out : Parsed) :
    parseFrom 256 (k.text ++ gap) out = out := by
  obtain ⟨c, s, htext, hc⟩ := k.head
  have hread : readMember 256 (k.text ++ gap) out = none := by
    rw [readMember_key, behind_eq_none hgap]
    rfl
  rw [htext, List.cons_append] at hread ⊢
  exact parseFrom_break hc hread

theorem prefix_of_ends {l b tail : CStr} (ht : Ends tail) (hcomma : ',' ∉ l) (hbrace : '\x7d' ∉ l) :
    l <+: b ++ tail ↔ l <+: b := by
  refine ⟨fun h => ?_, fun h => h.trans (List.prefix_append b tail)⟩
  by_cases hlen : l.length ≤ b.length
  · exact List.prefix_of_prefix_length_le h (List.prefix_append b tail) hlen
  · obtain ⟨r, rfl⟩ := List.prefix_of_prefix_length_le (List.prefix_append b tail) h (by omega)
    rw [List.prefix_append_right_inj] at h
    cases r with
    | nil => simp at hlen
    | cons c r =>
        obtain ⟨t, rfl⟩ := h
        rcases ht c rfl with rfl | rfl
        · exact absurd (List.mem_append_right b List.mem_cons_self) hcomma
        · exact absurd (List.mem_append_right b List.mem_cons_self) hbrace

theorem readMember_other {p : CStr} (hkey : ∀ k : Key, ¬ k.text <+: p) (out : Parsed) :
    readMember 256 p out =
      if p = "jitter_ns".toList then none else some (p, readOther p out) := by
  have hoffset : ¬ strncmpEq 9 p "offset_ns".toList = true := fun h =>
    hkey .offset ((strncmpEq_length p "offset_ns".toList).mp h)
  have hloss : ¬ strncmpEq 4 p "loss".toList = true := fun h =>
    hkey .loss ((strncmpEq_length p "loss".toList).mp h)
  have hid : ¬ strncmpEq 2 p "id".toList = true := fun h =>
    hkey .id ((strncmpEq_length p "id".toList).mp h)
  have hjitter : strncmpEq 10 p "jitter_ns".toList = true ↔ p = "jitter_ns".toList :=
    strncmpEq_succ p "jitter_ns".toList
  have hheart : strncmpEq 9 p "heartbeat".toList = true ↔ "heartbeat".toList <+: p :=
    strncmpEq_length p "heartbeat".toList
  rw [readMember, if_neg hoffset]
  by_cases hp : p = "jitter_ns".toList
  · -- the only text that passes the test has no colon
    rw [if_pos (hjitter.mpr hp), if_pos hp, hp]
    rfl
  · rw [if_neg (mt hjitter.mp hp), if_neg hloss, if_neg hid, if_neg hp]
    unfold readOther
    simp only [hheart]
    split
    · rfl
    · rfl

/-- A round on a member that no key is found in. -/
theorem parseFrom_other {b tail : CStr} (hhead : ∀ c ∈ (b ++ tail).head?, isOpen c = false)
    (hcomma : ',' ∉ b) (hkey : ∀ k : Key, ¬ k.text <+: b) (ht : Ends tail) (out : Parsed) :
    parseFrom 256 (b ++ tail) out = parseRest tail (readOther b out) := by
  have hnokey : ∀ k : Key, ¬ k.text <+: b ++ tail := by
    intro k
    rw [prefix_of_ends ht (by cases k <;> decide) (by cases k <;> decide)]
    exact hkey k
  have hheart : "heartbeat".toList <+: b ++ tail ↔ "heartbeat".toList <+: b :=
    prefix_of_ends ht (by decide) (by decide)
  have hother : readOther (b ++ tail) out = readOther b out := by
    rw [readOther, readOther]
    simp only [hheart]
  have hread := readMember_other hnokey out
  rw [hother] at hread
  rw [← parseRest_append hcomma tail]
  cases htext : b ++ tail with
  | nil =>
      rw [List.append_eq_nil_iff] at htext
      rw [htext.1, parseFrom_nil]
      rfl
  | cons c s =>
      rw [htext] at hread hhead
      have hc := hhead c rfl
      by_cases hj : c :: s = "jitter_ns".toList
      · rw [if_pos hj] at hread
        have hnot : ¬ "heartbeat".toList <+: b := by
          rw [← hheart, htext, hj]
          decide
        have hend : ',' ∉ c :: s := by
          rw [hj]
          decide
        rw [parseFrom_break hc hread, parseRest_end hend, readOther, if_neg hnot]
      · rw [if_neg hj] at hread
        exact parseFrom_read hc hread

end Htsn.Telemetry
