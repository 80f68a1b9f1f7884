import WirelessTsn.Telemetry.Payload

/-!
Status reports in the documented form, a JSON object with the members `id`,
`offset_ns`, `jitter_ns` and `loss` in any order and with any white space, and
what `parse_payload` makes of them.
-/

namespace Htsn.Telemetry

open CText Json

/-- A JSON integer. -/
structure Integer where
  neg : Bool
  n : Nat

def Integer.val (i : Integer) : Int := numVal i.neg i.n

def Integer.value (i : Integer) : Value := .num i.neg i.n .none

/-- What a status report says. -/
structure StatusReport where
  id : Plain
  clean : ∀ c ∈ id.chars, c ≠ ',' ∧ c ≠ '\x7b' ∧ c ≠ '\x7d'
  offset : Integer
  jitter : Integer
  loss : Integer

def StatusReport.fields (r : StatusReport) : List (CStr × Value) :=
  [("id".toList, .str r.id), ("offset_ns".toList, r.offset.value),
    ("jitter_ns".toList, r.jitter.value), ("loss".toList, r.loss.value)]

/-- The object is a text of the report, in the documented form. -/
def Documents (o : Object) (r : StatusReport) : Prop :=
  (o.members.map fun m => (m.key.chars, m.val)).Perm r.fields ∧ o.text.length ≤ 511

/-- The parser gives what the report says. -/
def Parsed.Reports (out : Parsed) (r : StatusReport) : Prop :=
  out.kind = .syncReport ∧ out.id = r.id.chars ∧ out.offset.toInt = r.offset.val ∧
    out.jitter.toInt = r.jitter.val ∧ out.loss.toInt = r.loss.val

/-- The members whose key directly follows the comma or the brace before it. -/
def seenMembers (o : Object) : List Member :=
  (if o.lead.chars = [] then o.members else o.members.tail).filter fun m => m.pre.chars = []

/-- The parser looks at the member with the key. -/
def Sees (o : Object) (key : CStr) : Prop := ∃ m ∈ seenMembers o, m.key.chars = key

instance (o : Object) (key : CStr) : Decidable (Sees o key) :=
  inferInstanceAs (Decidable (∃ m ∈ seenMembers o, m.key.chars = key))

/-! ### One member -/

/-- What a member that is looked at changes. -/
def see (out : Parsed) (m : Member) : Parsed :=
  if m.key.chars = Key.offset.text then Key.offset.read (m.valueText []) out
  else if m.key.chars = Key.loss.text then Key.loss.read (m.valueText []) out
  else if m.key.chars = Key.id.text then Key.id.read (m.valueText []) out
  else out

variable {r : StatusReport} {m : Member}

theorem see_key {k : Key} (hk : m.key.chars = k.text) (out : Parsed) :
    see out m = k.read (m.valueText []) out := by
  rw [see, hk]
  cases k <;> rfl

theorem see_jitter_ns (hk : m.key.chars = "jitter_ns".toList) (out : Parsed) : see out m = out := by
  rw [see, hk]
  rfl

theorem mem_fields {key : CStr} {v : Value} (h : (key, v) ∈ r.fields) :
    (key = "id".toList ∧ v = .str r.id) ∨ (key = "offset_ns".toList ∧ v = r.offset.value) ∨
      (key = "jitter_ns".toList ∧ v = r.jitter.value) ∨ (key = "loss".toList ∧ v = r.loss.value) := by
  simpa [StatusReport.fields] using h

theorem valueText_append (m : Member) (tail : CStr) : m.valueText tail = m.valueText [] ++ tail := by
  rw [Member.valueText, Member.valueText, m.val.text_append (m.fin.chars ++ tail),
    m.val.text_append (m.fin.chars ++ [])]
  simp

/-- No member of a report holds a comma. -/
theorem comma_not_mem_value {key : CStr} {v : Value} (h : (key, v) ∈ r.fields) :
    ',' ∉ v.text [] := by
  have hnumber : ∀ i : Integer, ',' ∉ i.value.text [] := by
    intro i
    rw [Integer.value, Value.text, List.append_nil, NumTail.none, List.append_nil]
    exact not_mem_numText (by decide) (by decide) i.neg i.n
  rcases mem_fields h with ⟨-, rfl⟩ | ⟨-, rfl⟩ | ⟨-, rfl⟩ | ⟨-, rfl⟩
  · rw [Value.text, List.mem_cons, List.mem_append, not_or, not_or]
    exact ⟨by decide, fun hc => (r.clean ',' hc).1 rfl, by decide⟩
  · exact hnumber r.offset
  · exact hnumber r.jitter
  · exact hnumber r.loss

theorem comma_not_mem_valueText (h : (m.key.chars, m.val) ∈ r.fields) : ',' ∉ m.valueText [] := by
  rw [Member.valueText, m.val.text_append, List.mem_append, List.mem_append, List.append_nil, not_or,
    not_or]
  exact ⟨Ws.not_mem _ (by decide), comma_not_mem_value h, Ws.not_mem _ (by decide)⟩

theorem comma_not_mem_key (h : (m.key.chars, m.val) ∈ r.fields) : ',' ∉ m.key.chars := by
  rcases mem_fields h with ⟨hk, -⟩ | ⟨hk, -⟩ | ⟨hk, -⟩ | ⟨hk, -⟩ <;> (rw [hk]; decide)

theorem comma_not_mem_text (h : (m.key.chars, m.val) ∈ r.fields) : ',' ∉ m.text [] := by
  simp only [Member.text, List.mem_append, List.mem_cons, not_or]
  exact ⟨Ws.not_mem _ (by decide), by decide, comma_not_mem_key h, by decide,
    Ws.not_mem _ (by decide), by decide, comma_not_mem_valueText h⟩

/-- Behind white space no key is found. -/
theorem parseFrom_ws {w : Ws} (hw : w.chars ≠ []) {s tail : CStr} (hs : ',' ∉ s) (ht : Ends tail)
    (out : Parsed) : parseFrom 256 (w.chars ++ s ++ tail) out = parseRest tail out := by
  have hcomma : ',' ∉ w.chars ++ s := by
    rw [List.mem_append, not_or]
    exact ⟨w.not_mem (by decide), hs⟩
  obtain ⟨c, cs, hchars⟩ := List.exists_cons_of_ne_nil hw
  have hc : isWs c = true := w.blank c (by rw [hchars]; exact List.mem_cons_self)
  have hfirst : isOpen c = false ∧ c ≠ 'o' ∧ c ≠ 'l' ∧ c ≠ 'i' ∧ c ≠ 'h' :=
    forall_isWs (P := fun c => isOpen c = false ∧ c ≠ 'o' ∧ c ≠ 'l' ∧ c ≠ 'i' ∧ c ≠ 'h')
      (by decide) c hc
  have hstart : ∀ {d : Char} {l : CStr}, c ≠ d → ¬ d :: l <+: w.chars ++ s := by
    intro d l hd h
    rw [hchars, List.cons_append, List.cons_prefix_cons] at h
    exact hd h.1.symm
  have hkey : ∀ k : Key, ¬ k.text <+: w.chars ++ s := by
    intro k
    cases k with
    | offset => exact hstart hfirst.2.1
    | loss => exact hstart hfirst.2.2.1
    | id => exact hstart hfirst.2.2.2.1
  have hhead : ∀ x ∈ (w.chars ++ s ++ tail).head?, isOpen x = false := by
    intro x hx
    rw [hchars] at hx
    cases hx
    exact hfirst.1
  have hheart : ¬ "heartbeat".toList <+: w.chars ++ s := hstart hfirst.2.2.2.2
  rw [parseFrom_other hhead hcomma hkey ht, readOther, if_neg hheart]

/-- The key `jitter_ns` is not found. -/
theorem parseFrom_jitter (s : CStr) {tail : CStr} (hs : ',' ∉ s) (ht : Ends tail) (out : Parsed) :
    parseFrom 256 ("jitter_ns".toList ++ (s ++ tail)) out = parseRest tail out := by
  have hcomma : ',' ∉ "jitter_ns".toList ++ s := by
    rw [List.mem_append, not_or]
    exact ⟨by decide, hs⟩
  have hstart : ∀ {d : Char} {l : CStr}, d ≠ 'j' → ¬ d :: l <+: "jitter_ns".toList ++ s :=
    fun hd h => hd (List.cons_prefix_cons.mp h).1
  have hkey : ∀ k : Key, ¬ k.text <+: "jitter_ns".toList ++ s := by
    intro k
    cases k with
    | offset => exact hstart (by decide)
    | loss => exact hstart (by decide)
    | id => exact hstart (by decide)
  have hhead : ∀ c ∈ ("jitter_ns".toList ++ s ++ tail).head?, isOpen c = false := by
    intro c hc
    cases hc
    rfl
  have hheart : ¬ "heartbeat".toList <+: "jitter_ns".toList ++ s := hstart (by decide)
  rw [← List.append_assoc, parseFrom_other hhead hcomma hkey ht, readOther, if_neg hheart]

/-- A member that is looked at. -/
theorem parseFrom_member (h : (m.key.chars, m.val) ∈ r.fields) (hpre : m.pre.chars = []) {tail : CStr}
    (ht : Ends tail) (out : Parsed) :
    parseFrom 256 (m.text tail) out = parseRest tail (see out m) := by
  have hquote : ∀ c ∈ ['"'], isOpen c = true := by decide
  have hgap : ':' ∉ '"' :: m.mid.chars := by
    rw [List.mem_cons, not_or]
    exact ⟨by decide, Ws.not_mem _ (by decide)⟩
  have htext : m.text tail =
      ['"'] ++ (m.key.chars ++ (('"' :: m.mid.chars) ++ ':' :: (m.valueText [] ++ tail))) := by
    rw [Member.text, hpre, ← valueText_append]
    simp
  have hkey : ∀ k : Key, m.key.chars = k.text →
      parseFrom 256 (m.text tail) out = parseRest tail (k.read (m.valueText []) out) := by
    intro k hk
    rw [htext, parseFrom_opens hquote, hk]
    exact parseFrom_key k hgap (comma_not_mem_valueText h) ht out
  rcases mem_fields h with ⟨hk, -⟩ | ⟨hk, -⟩ | ⟨hk, -⟩ | ⟨hk, -⟩
  · rw [hkey .id hk, see_key (k := .id) hk]
  · rw [hkey .offset hk, see_key (k := .offset) hk]
  · have hcomma : ',' ∉ ('"' :: m.mid.chars) ++ ':' :: m.valueText [] := by
      rw [List.mem_append, List.mem_cons, List.mem_cons, not_or, not_or, not_or]
      exact ⟨⟨by decide, Ws.not_mem _ (by decide)⟩, by decide, comma_not_mem_valueText h⟩
    have hbehind : ('"' :: m.mid.chars) ++ ':' :: (m.valueText [] ++ tail) =
        (('"' :: m.mid.chars) ++ ':' :: m.valueText []) ++ tail := by
      simp
    rw [htext, parseFrom_opens hquote, hk, see_jitter_ns hk, hbehind]
    exact parseFrom_jitter _ hcomma ht out
  · rw [hkey .loss hk, see_key (k := .loss) hk]

/-! ### All members -/

theorem ends_membersTail (trail : Ws) (ms : List Member) : Ends (membersTail trail.chars ms) := by
  intro c hc
  cases ms with
  | nil =>
      cases hc
      exact .inr rfl
  | cons m ms =>
      cases hc
      exact .inl rfl

/-- From a member on the parser sees the members without white space before
their keys. -/
theorem parseFrom_members (trail : Ws) (ms : List Member)
    (h : ∀ x ∈ ms, (x.key.chars, x.val) ∈ r.fields) (out : Parsed) :
    parseRest (membersTail trail.chars ms) out =
      (ms.filter fun m => m.pre.chars = []).foldl see out := by
  induction ms generalizing out with
  | nil =>
      apply parseRest_end
      rw [membersTail, List.mem_cons, not_or]
      exact ⟨by decide, trail.not_mem (by decide)⟩
  | cons m ms ih =>
      obtain ⟨hm, hms⟩ := List.forall_mem_cons.mp h
      have ht := ends_membersTail trail ms
      rw [membersTail, parseRest_comma]
      by_cases hpre : m.pre.chars = []
      · rw [parseFrom_member hm hpre ht, ih hms, List.filter_cons_of_pos (by simpa using hpre),
          List.foldl_cons]
      · have htext : m.text [] = m.pre.chars ++ (m.text []).drop m.pre.chars.length := by
          rw [Member.text, List.drop_left]
        have hrest : ',' ∉ (m.text []).drop m.pre.chars.length :=
          fun hc => comma_not_mem_text hm (List.mem_of_mem_drop hc)
        rw [m.text_append, htext, parseFrom_ws hpre hrest ht, ih hms,
          List.filter_cons_of_neg (by simpa using hpre)]

/-- The parse of a report in the documented form. -/
theorem parsePayload_object {o : Object} (h : Documents o r) (init : Parsed) :
    parsePayload (some o.text) 256 init =
      (seenMembers o).foldl see { init with kind := .none, id := [] } := by
  obtain ⟨hperm, hlen⟩ := h
  have hmem : ∀ m ∈ o.members, (m.key.chars, m.val) ∈ r.fields :=
    fun m hm => hperm.subset (List.mem_map_of_mem hm)
  obtain ⟨m, ms, hms⟩ : ∃ m ms, o.members = m :: ms := by
    cases hms : o.members with
    | nil =>
        rw [hms] at hperm
        exact absurd hperm.length_eq (by simp [StatusReport.fields])
    | cons m ms => exact ⟨m, ms, rfl⟩
  rw [hms] at hmem
  obtain ⟨hm, hrest⟩ := List.forall_mem_cons.mp hmem
  have ht := ends_membersTail o.trail ms
  have hbrace : ∀ c ∈ ['\x7b'], isOpen c = true := by decide
  have htext : o.text = o.lead.chars ++ (['\x7b'] ++ m.text (membersTail o.trail.chars ms)) := by
    rw [Object.text, hms]
    rfl
  rw [parsePayload, List.take_of_length_le hlen, htext]
  by_cases hlead : o.lead.chars = []
  · have hall := parseFrom_members (r := r) o.trail (m :: ms) hmem { init with kind := .none, id := [] }
    rw [membersTail, parseRest_comma] at hall
    rw [hlead, List.nil_append, parseFrom_opens hbrace, hall, seenMembers, if_pos hlead, hms]
  · have hcomma : ',' ∉ ['\x7b'] ++ m.text [] := by
      rw [List.mem_append, not_or]
      exact ⟨by decide, comma_not_mem_text hm⟩
    rw [m.text_append, ← List.append_assoc, ← List.append_assoc, List.append_assoc o.lead.chars,
      parseFrom_ws hlead hcomma ht, parseFrom_members o.trail ms hrest, seenMembers, if_neg hlead, hms,
      List.tail_cons]

/-! ### What the parse gives -/

/-- A field that only the members with one key change, and all to one value. -/
theorem foldl_see {β : Type} (f : Parsed → β) (key : CStr) (b : β) {ms : List Member}
    (h : ∀ m ∈ ms, ∀ out, f (see out m) = if m.key.chars = key then b else f out) (out : Parsed) :
    f (ms.foldl see out) = if ∃ m ∈ ms, m.key.chars = key then b else f out := by
  induction ms generalizing out with
  | nil => simp
  | cons m ms ih =>
      obtain ⟨hm, hms⟩ := List.forall_mem_cons.mp h
      rw [List.foldl_cons, ih hms, hm out]
      simp only [List.exists_mem_cons_iff]
      by_cases hrest : ∃ x ∈ ms, x.key.chars = key
      · rw [if_pos hrest, if_pos (.inr hrest)]
      · rw [if_neg hrest]
        simp only [hrest, or_false]

theorem mem_seenMembers {o : Object} (h : m ∈ seenMembers o) : m ∈ o.members := by
  have hmem := List.mem_of_mem_filter h
  split at hmem
  · exact hmem
  · exact List.mem_of_mem_tail hmem

theorem scanInt_integer (i : Integer) (h : m.val = i.value) :
    scanInt (m.valueText []) = some (i.val, m.fin.chars) := by
  have hrest : ∀ c ∈ m.fin.chars.head?, c.isDigit = false := by
    have hhead : ∀ c ∈ (m.fin.chars ++ []).head?, c.isDigit = false :=
      m.fin.head_append (by decide) (by simp)
    rwa [List.append_nil] at hhead
  rw [Member.valueText, h, Integer.value, Value.text, NumTail.none, List.nil_append, List.append_nil,
    scanInt_ws, scanInt_numText _ _ hrest]
  rfl

/-- The copy of an id starts with its quote, or with white space other than a
space. -/
theorem dropWhile_quote {w : CStr} (hw : ∀ c ∈ w, isWs c = true) (t : CStr) :
    ∃ c s, (w ++ '"' :: t).dropWhile (· == ' ') = c :: s ∧ (c = '"' ∨ (isWs c = true ∧ c ≠ ' ')) := by
  induction w with
  | nil => exact ⟨'"', t, rfl, .inl rfl⟩
  | cons x w ih =>
      obtain ⟨hx, hw⟩ := List.forall_mem_cons.mp hw
      by_cases hspace : x = ' '
      · rw [hspace]
        exact ih hw
      · exact ⟨x, w ++ '"' :: t, List.dropWhile_cons_of_neg (by simpa using hspace), .inr ⟨hx, hspace⟩⟩

theorem copyId_ne (h : m.val = .str r.id) :
    copyId 255 ((m.valueText []).dropWhile (· == ' ')) ≠ r.id.chars := by
  obtain ⟨c, s, hdrop, hc⟩ := dropWhile_quote m.post.blank (r.id.chars ++ '"' :: (m.fin.chars ++ []))
  have hfresh : c ∉ r.id.chars := by
    rcases hc with rfl | ⟨hws, hspace⟩
    · exact r.id.noQuote
    · intro hmem
      exact forall_isWs (P := fun c => c ≠ ' ' → ¬ ' ' ≤ c) (by decide) c hws hspace
        (r.id.clean c hmem).2
  have hgoes : isIdChar c = true := by
    rcases hc with rfl | ⟨hws, -⟩
    · rfl
    · exact forall_isWs (P := fun c => isIdChar c = true) (by decide) c hws
  rw [Member.valueText, h, Value.text, hdrop, copyId, List.take_succ_cons, List.takeWhile_cons,
    if_pos hgoes]
  intro heq
  exact hfresh (heq ▸ List.mem_cons_self)

/-- What decides whether a report is read right: its id is empty and passed
over, its offset is looked at and fits, and the jitter that stands behind the
pointer before is that of the report, as is the loss or else it is looked at. -/
structure ReadRight (o : Object) (r : StatusReport) (init : Parsed) : Prop where
  emptyId : r.id.chars = []
  idPassed : ¬ Sees o "id".toList
  offsetSeen : Sees o "offset_ns".toList
  offsetFits : -(2 ^ 63) ≤ r.offset.val ∧ r.offset.val < 2 ^ 63
  jitter : init.jitter.toInt = r.jitter.val
  loss : if Sees o "loss".toList then -(2 ^ 31) ≤ r.loss.val ∧ r.loss.val < 2 ^ 31
    else init.loss.toInt = r.loss.val

theorem see_kind (h : (m.key.chars, m.val) ∈ r.fields) (out : Parsed) :
    (see out m).kind = if m.key.chars = "offset_ns".toList then .syncReport else out.kind := by
  rcases mem_fields h with ⟨hk, -⟩ | ⟨hk, -⟩ | ⟨hk, -⟩ | ⟨hk, -⟩
  · rw [see_key (k := .id) hk, hk]
    rfl
  · rw [see_key (k := .offset) hk, hk]
    rfl
  · rw [see_jitter_ns hk, hk]
    rfl
  · rw [see_key (k := .loss) hk, hk]
    rfl

theorem see_offset (h : (m.key.chars, m.val) ∈ r.fields) (out : Parsed) :
    (see out m).offset =
      if m.key.chars = "offset_ns".toList then toCLongLong r.offset.val else out.offset := by
  rcases mem_fields h with ⟨hk, -⟩ | ⟨hk, hv⟩ | ⟨hk, -⟩ | ⟨hk, -⟩
  · rw [see_key (k := .id) hk, hk]
    rfl
  · have hread : strtoll (m.valueText []) = toCLongLong r.offset.val := by
      rw [strtoll, scanInt_integer r.offset hv]
    rw [see_key (k := .offset) hk, hk, ← hread]
    rfl
  · rw [see_jitter_ns hk, hk]
    rfl
  · rw [see_key (k := .loss) hk, hk]
    rfl

/-- No key changes the jitter. -/
theorem Key.read_jitter (k : Key) (v : CStr) (out : Parsed) : (k.read v out).jitter = out.jitter := by
  cases k <;> rfl

theorem see_jitter (h : (m.key.chars, m.val) ∈ r.fields) (out : Parsed) :
    (see out m).jitter = out.jitter := by
  rcases mem_fields h with ⟨hk, -⟩ | ⟨hk, -⟩ | ⟨hk, -⟩ | ⟨hk, -⟩
  · rw [see_key (k := .id) hk, Key.read_jitter]
  · rw [see_key (k := .offset) hk, Key.read_jitter]
  · rw [see_jitter_ns hk]
  · rw [see_key (k := .loss) hk, Key.read_jitter]

theorem see_loss (h : (m.key.chars, m.val) ∈ r.fields) (out : Parsed) :
    (see out m).loss = if m.key.chars = "loss".toList then toCInt r.loss.val else out.loss := by
  rcases mem_fields h with ⟨hk, -⟩ | ⟨hk, -⟩ | ⟨hk, -⟩ | ⟨hk, hv⟩
  · rw [see_key (k := .id) hk, hk]
    rfl
  · rw [see_key (k := .offset) hk, hk]
    rfl
  · rw [see_jitter_ns hk, hk]
    rfl
  · have hread : atoi (m.valueText []) = toCInt r.loss.val := by
      rw [atoi, scanInt_integer r.loss hv]
    rw [see_key (k := .loss) hk, hk, ← hread]
    rfl

/-- An id that is looked at is wrong. -/
theorem see_id (h : (m.key.chars, m.val) ∈ r.fields) (out : Parsed) :
    ((see out m).id = r.id.chars) =
      if m.key.chars = "id".toList then False else (out.id = r.id.chars) := by
  rcases mem_fields h with ⟨hk, hv⟩ | ⟨hk, -⟩ | ⟨hk, -⟩ | ⟨hk, -⟩
  · rw [see_key (k := .id) hk, if_pos hk]
    exact eq_false (copyId_ne hv)
  · rw [see_key (k := .offset) hk, hk]
    rfl
  · rw [see_jitter_ns hk, hk]
    rfl
  · rw [see_key (k := .loss) hk, hk]
    rfl

theorem mem_fields_seen {o : Object} (h : Documents o r) :
    ∀ m ∈ seenMembers o, (m.key.chars, m.val) ∈ r.fields :=
  fun _ hm => h.1.subset (List.mem_map_of_mem (mem_seenMembers hm))

section

variable {o : Object} (h : Documents o r) (init : Parsed)
include h

theorem parsePayload_kind : (parsePayload (some o.text) 256 init).kind =
    if Sees o "offset_ns".toList then .syncReport else .none := by
  rw [parsePayload_object h]
  exact foldl_see Parsed.kind _ _ (fun m hm => see_kind (mem_fields_seen h m hm)) _

theorem parsePayload_id : ((parsePayload (some o.text) 256 init).id = r.id.chars) =
    if Sees o "id".toList then False else ([] = r.id.chars) := by
  rw [parsePayload_object h]
  exact foldl_see (fun out => out.id = r.id.chars) _ _
    (fun m hm => see_id (mem_fields_seen h m hm)) _

theorem parsePayload_offset : (parsePayload (some o.text) 256 init).offset =
    if Sees o "offset_ns".toList then toCLongLong r.offset.val else init.offset := by
  rw [parsePayload_object h]
  exact foldl_see Parsed.offset _ _ (fun m hm => see_offset (mem_fields_seen h m hm)) _

theorem parsePayload_loss : (parsePayload (some o.text) 256 init).loss =
    if Sees o "loss".toList then toCInt r.loss.val else init.loss := by
  rw [parsePayload_object h]
  exact foldl_see Parsed.loss _ _ (fun m hm => see_loss (mem_fields_seen h m hm)) _

/-- The jitter is never read. -/
theorem parsePayload_jitter : (parsePayload (some o.text) 256 init).jitter = init.jitter := by
  have hall : ∀ (ms : List Member), (∀ m ∈ ms, (m.key.chars, m.val) ∈ r.fields) →
      ∀ out, (ms.foldl see out).jitter = out.jitter := by
    intro ms
    induction ms with
    | nil => exact fun _ _ => rfl
    | cons m ms ih =>
        intro hms out
        obtain ⟨hm, hrest⟩ := List.forall_mem_cons.mp hms
        rw [List.foldl_cons, ih hrest, see_jitter hm]
  rw [parsePayload_object h, hall _ (mem_fields_seen h)]

end

/-- A report in the documented form is read right exactly if the condition
holds of its spacing, its id and what stands behind the pointers before. -/
theorem parsePayload_reports_iff (o : Object) (r : StatusReport) (h : Documents o r)
    (init : Parsed) : (parsePayload (some o.text) 256 init).Reports r ↔ ReadRight o r init := by
  rw [Parsed.Reports, parsePayload_kind h, parsePayload_id h, parsePayload_offset h,
    parsePayload_jitter h, parsePayload_loss h]
  constructor
  · rintro ⟨hkind, hid, hoffset, hjitter, hloss⟩
    have hseen : Sees o "offset_ns".toList := by
      by_contra hno
      rw [if_neg hno] at hkind
      cases hkind
    have hpassed : ¬ Sees o "id".toList := by
      intro hsees
      rwa [if_pos hsees] at hid
    rw [if_neg hpassed] at hid
    rw [if_pos hseen] at hoffset
    refine ⟨hid.symm, hpassed, hseen, toInt_toCLongLong_iff.mp hoffset, hjitter, ?_⟩
    split
    · rename_i hsees
      rw [if_pos hsees] at hloss
      exact toInt_toCInt_iff.mp hloss
    · rename_i hno
      rwa [if_neg hno] at hloss
  · intro hright
    rw [if_pos hright.offsetSeen, if_pos hright.offsetSeen, if_neg hright.idPassed]
    refine ⟨rfl, hright.emptyId.symm, toInt_toCLongLong_iff.mpr hright.offsetFits, hright.jitter, ?_⟩
    have hloss := hright.loss
    split
    · rename_i hsees
      rw [if_pos hsees] at hloss
      exact toInt_toCInt_iff.mpr hloss
    · rename_i hno
      rwa [if_neg hno] at hloss

/-- The members of a report in a row, the first behind white space. -/
def reportObject (pad : Ws) (r : StatusReport) : Object where
  lead := .none
  pad := .none
  members :=
    [⟨pad, .lit "id".toList, .none, .none, .str r.id, .none⟩,
      .compact (.lit "offset_ns".toList) r.offset.value,
      .compact (.lit "jitter_ns".toList) r.jitter.value,
      .compact (.lit "loss".toList) r.loss.value]
  trail := .none

/-- What `on_message` passes. -/
def cleared : Parsed := ⟨.none, [], 0, 0, 0⟩

def namelessReport : StatusReport where
  id := .lit []
  clean := by decide
  offset := ⟨true, 120⟩
  jitter := ⟨false, 0⟩
  loss := ⟨false, 3⟩

/-- `{ "id":"","offset_ns":-120,"jitter_ns":0,"loss":3}` -/
theorem namelessReport_read :
    (parsePayload (some (reportObject ⟨[' '], by decide⟩ namelessReport).text) 256 cleared).Reports
      namelessReport :=
  (parsePayload_reports_iff (reportObject ⟨[' '], by decide⟩ namelessReport) namelessReport
    ⟨.refl _, by decide⟩ cleared).mpr
    ⟨rfl, by decide, by decide, by decide, by decide, by decide⟩

def espReport : StatusReport where
  id := .lit "esp-1".toList
  clean := by decide
  offset := ⟨true, 120⟩
  jitter := ⟨false, 40⟩
  loss := ⟨false, 0⟩

/-- `{"id":"esp-1","offset_ns":-120,"jitter_ns":40,"loss":0}` gives the id with
its quotes and no jitter. -/
theorem espReport_misread : ¬ ∀ (o : Object) (r : StatusReport) (init : Parsed), Documents o r →
    (parsePayload (some o.text) 256 init).Reports r := by
  intro h
  have hdoc : Documents (reportObject .none espReport) espReport := ⟨.refl _, by decide⟩
  have hjitter := (h _ _ cleared hdoc).2.2.2.1
  rw [parsePayload_jitter hdoc] at hjitter
  exact absurd hjitter (by decide)

end Htsn.Telemetry
