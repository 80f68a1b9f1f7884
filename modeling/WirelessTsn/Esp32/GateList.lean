import WirelessTsn.Esp32.Lookup

/-!
`htsn_json_parse_gcl` of `htsn_json.c`. The loop looks the two keys of an entry
up in the whole rest of the text, so a member that an object leaves out is
taken from a later object, and when none has it the search runs to the end of
the text. An entry is read from its own object exactly if neither happens.
-/

namespace Htsn.Esp32

open CText Json

/-- The loop of `htsn_json_parse_gcl` over the slots that are left of the
caller's two arrays: the number of entries parsed, and what the slots hold
then. -/
def gclFill : List (Int32 × Int64) → CStr → Option (Nat × List (Int32 × Int64))
  | [], _ => some (0, [])
  | (gate, duration) :: slots, p =>
      match p.dropWhile fun c => isWs c || c == ',' || c == '\x7b' with
      | [] => some (0, (gate, duration) :: slots)
      | c :: q =>
          if c = ']' then some (0, (gate, duration) :: slots)
          else do
            let gs ← getInt (c :: q) "gate_state".toList
            let dur ← getI64 (c :: q) "duration_ns".toList
            let (n, slots) ←
              match (c :: q).dropWhile (· != '\x7d') with
              | [] => some (0, slots)
              | _ :: rest => gclFill slots rest
            some (n + 1, (gs.getD gate, dur.getD duration) :: slots)

/-- `htsn_json_parse_gcl` on arrays with these slots. -/
def parseGclInto (arr : CStr) (slots : List (Int32 × Int64)) :
    Option (Nat × List (Int32 × Int64)) :=
  gclFill slots (arr.drop 1)

/-- The list of `parseGcl` is what is written to arrays that were cleared. -/
theorem gclFill_replicate (n : Nat) (p : CStr) :
    gclFill (List.replicate n (0, 0)) p =
      (gclLoop n p).map fun gcl => (gcl.length, gcl ++ List.replicate (n - gcl.length) (0, 0)) := by
  induction n generalizing p with
  | zero => rfl
  | succ n ih =>
      rw [List.replicate_succ, gclFill, gclLoop]
      cases p.dropWhile fun c => isWs c || c == ',' || c == '\x7b' with
      | nil => rfl
      | cons c q =>
          by_cases hclose : c = ']'
          · simp only [hclose, if_true]
            rfl
          · simp only [hclose, if_false]
            cases getInt (c :: q) "gate_state".toList with
            | none => rfl
            | some gs =>
                cases getI64 (c :: q) "duration_ns".toList with
                | none => rfl
                | some dur =>
                    cases (c :: q).dropWhile (· != '\x7d') with
                    | nil => simp
                    | cons d rest =>
                        simp only [Option.bind_eq_bind, Option.bind_some, ih]
                        cases gclLoop n rest <;> simp

/-! ### The text of a gate list -/

def gateKeys : List CStr := ["gate_state".toList, "duration_ns".toList]

/-- A member of a gate entry. -/
def IsGateMember (key : Word) (v : Tree) : Prop :=
  v.isFlat = true ∧ (key.chars ∈ gateKeys → ∃ neg n, v = .num neg n)

/-- A flat object whose `gate_state` and `duration_ns`, if they are there, are
integers. -/
structure GateEntry where
  pre : Ws
  pad : Ws
  members : Pairs
  gate : members.All IsGateMember
  fin : Ws

def GateEntry.text (e : GateEntry) (rest : CStr) : CStr :=
  e.pre.chars ++ (Tree.obj e.pad e.members).text (e.fin.chars ++ rest)

/-- The integer of the first member with the key. -/
def GateEntry.int (e : GateEntry) (key : CStr) : Option Int := (e.members.find key).bind Tree.int

/-- What follows an entry. -/
def entriesTail (rest : CStr) : List GateEntry → CStr
  | [] => ']' :: rest
  | e :: es => ',' :: e.text (entriesTail rest es)

structure GateArray where
  pad : Ws
  entries : List GateEntry
  trail : Ws

def GateArray.text (a : GateArray) : CStr :=
  '[' :: match a.entries with
    | [] => a.pad.chars ++ ']' :: a.trail.chars
    | e :: es => e.text (entriesTail a.trail.chars es)

/-! ### What an entry gets -/

/-- A slot holds the integer of the entry, or what it held before. -/
def KeptOr {α : Type} (toInt : α → Int) (own : Option Int) (old new : α) : Prop :=
  match own with
  | some v => toInt new = v
  | none => new = old

/-- Each slot in order belongs to one entry; the further ones are untouched. -/
def Filled : List GateEntry → List (Int32 × Int64) → List (Int32 × Int64) → Prop
  | e :: es, old :: slots, new :: out =>
      KeptOr Int32.toInt (e.int "gate_state".toList) old.1 new.1 ∧
        KeptOr Int64.toInt (e.int "duration_ns".toList) old.2 new.2 ∧ Filled es slots out
  | _, slots, out => out = slots

/-- Whatever the arrays hold, the entries that fit are read, each from its own
object. -/
def EntryLocal (a : GateArray) (maxEntries : Nat) : Prop :=
  ∀ slots : List (Int32 × Int64), slots.length = maxEntries →
    ∃ out, parseGclInto a.text slots = some (min a.entries.length maxEntries, out) ∧
      Filled a.entries slots out

/-- The entry has the member, and its value fits; or no later entry has it
either, and nothing trails the array. -/
def KeyLocal (trail : Ws) (lo hi : Int) (key : CStr) (e : GateEntry) (later : List GateEntry) : Prop :=
  match e.int key with
  | some v => lo ≤ v ∧ v < hi
  | none => (∀ e' ∈ later, e'.int key = none) ∧ trail.chars = []

/-- Both members of each of the first `n` entries are local. -/
def EntriesLocal (trail : Ws) : List GateEntry → Nat → Prop
  | e :: es, n + 1 =>
      KeyLocal trail (-(2 ^ 31)) (2 ^ 31) "gate_state".toList e es ∧
        KeyLocal trail (-(2 ^ 63)) (2 ^ 63) "duration_ns".toList e es ∧ EntriesLocal trail es n
  | _, _ => True

/-! ### The search in the rest of the text -/

/-- The entries behind the white space and the opening brace of the first. -/
def entriesBody (trail : Ws) : List GateEntry → CStr
  | [] => ']' :: trail.chars
  | e :: es => e.members.body (e.fin.chars ++ entriesTail trail.chars es)

/-- What the loop steps over before an entry. -/
def isGclSep (c : Char) : Bool := isWs c || c == ',' || c == '\x7b'

theorem isGclSep_of_isWs {c : Char} (h : isWs c = true) : isGclSep c = true := by
  rw [isGclSep, h, Bool.true_or, Bool.true_or]

/-- Separators lead into an object. -/
theorem exists_sep_obj (pre pad : Ws) (members : Pairs) (rest : CStr) :
    ∃ seg, (∀ c ∈ seg, isGclSep c = true) ∧
      pre.chars ++ (Tree.obj pad members).text rest = seg ++ members.body rest := by
  obtain ⟨w, hw⟩ := Pairs.exists_text_eq pad members rest
  refine ⟨pre.chars ++ '\x7b' :: w.chars, ?_, ?_⟩
  · intro c hc
    rcases List.mem_append.mp hc with hpre | hrest
    · exact isGclSep_of_isWs (pre.blank c hpre)
    · rcases List.mem_cons.mp hrest with rfl | hws
      · rfl
      · exact isGclSep_of_isWs (w.blank c hws)
  · rw [Tree.text_obj, hw, List.append_assoc, List.cons_append]

theorem exists_sep_text (e : GateEntry) (trail : Ws) (es : List GateEntry) :
    ∃ seg, (∀ c ∈ seg, isGclSep c = true) ∧
      e.text (entriesTail trail.chars es) = seg ++ entriesBody trail (e :: es) :=
  exists_sep_obj e.pre e.pad e.members _

/-- Behind an entry, separators lead to the next. -/
theorem exists_sep_tail (fin trail : Ws) (es : List GateEntry) :
    ∃ seg, (∀ c ∈ seg, isGclSep c = true) ∧
      fin.chars ++ entriesTail trail.chars es = seg ++ entriesBody trail es := by
  cases es with
  | nil => exact ⟨fin.chars, fun c hc => isGclSep_of_isWs (fin.blank c hc), rfl⟩
  | cons e es =>
      obtain ⟨seg, hseg, htext⟩ := exists_sep_text e trail es
      refine ⟨fin.chars ++ ',' :: seg, ?_, ?_⟩
      · intro c hc
        rcases List.mem_append.mp hc with hfin | hrest
        · exact isGclSep_of_isWs (fin.blank c hfin)
        · rcases List.mem_cons.mp hrest with rfl | hmem
          · rfl
          · exact hseg c hmem
      · rw [entriesTail, htext, List.append_assoc, List.cons_append]

theorem exists_sep_array (a : GateArray) :
    ∃ seg, (∀ c ∈ seg, isGclSep c = true) ∧
      a.text.drop 1 = seg ++ entriesBody a.trail a.entries := by
  rw [GateArray.text, List.drop_succ_cons, List.drop_zero]
  cases a.entries with
  | nil => exact ⟨a.pad.chars, fun c hc => isGclSep_of_isWs (a.pad.blank c hc), rfl⟩
  | cons e es => exact exists_sep_text e a.trail es

theorem sep_noQuote {seg : CStr} (h : ∀ c ∈ seg, isGclSep c = true) : '"' ∉ seg :=
  fun hmem => absurd (h _ hmem) (by decide)

theorem Pairs.body_ne_nil (ps : Pairs) (rest : CStr) : ps.body rest ≠ [] := by
  cases ps <;> exact List.cons_ne_nil _ _

theorem entriesBody_ne_nil (trail : Ws) (es : List GateEntry) : entriesBody trail es ≠ [] := by
  cases es with
  | nil => exact List.cons_ne_nil _ _
  | cons e es => exact Pairs.body_ne_nil _ _

/-- The search from within an object. -/
theorem probeValue_body (key : CStr) (rest : CStr) (ps : Pairs) :
    probeValue (ps.body rest) key =
      match ps.locate key with
      | some (t, fin, more) => .found (t.text (fin.chars ++ more.tail rest))
      | none => probeValue ('\x7d' :: rest) key := by
  obtain ⟨w, hw⟩ := Pairs.exists_text_eq .none ps rest
  have hpairs := probeValue_pairs key .none rest ps
  rwa [hw, probeValue_skip w.noQuote (Pairs.body_ne_nil ps rest)] at hpairs

/-- The member that a lookup in the rest of the text finds. -/
def entriesFind (key : CStr) : List GateEntry → Option Tree
  | [] => none
  | e :: es => (e.members.find key).or (entriesFind key es)

/-- The search goes on into the later entries. -/
theorem finds_entries (key : CStr) (trail : Ws) (es : List GateEntry) :
    Finds (entriesBody trail es) key trail (entriesFind key es) := by
  induction es with
  | nil =>
      show probeValue (']' :: trail.chars) key = _
      rw [probeValue_step (by decide) (by decide), probeValue_trail]
  | cons e es ih =>
      obtain ⟨seg, hseg, htail⟩ := exists_sep_tail e.fin trail es
      have hnext : probeValue ('\x7d' :: (e.fin.chars ++ entriesTail trail.chars es)) key =
          probeValue (entriesBody trail es) key := by
        rw [probeValue_step (by decide) (by decide), htail,
          probeValue_skip (sep_noQuote hseg) (entriesBody_ne_nil trail es)]
      refine finds_of_probe (probeValue_body key _ e.members) ?_
      unfold Finds at ih ⊢
      rw [hnext]
      exact ih

/-! ### One entry -/

/-- The text of a flat value holds no bracket. -/
theorem exists_flat_text {t : Tree} (h : t.isFlat = true) :
    ∃ seg, BracketFree seg ∧ ∀ rest, t.text rest = seg ++ rest := by
  cases t with
  | str s =>
      refine ⟨'"' :: (s.chars ++ ['"']), ?_, fun rest => by simp [Tree.text]⟩
      have hquote : BracketFree ['"'] := by
        unfold BracketFree
        decide
      exact bracketFree_append (s := ['"']) hquote (bracketFree_append (bracketFree_word s) hquote)
  | num neg n => exact ⟨numText neg n, bracketFree_num neg n, fun rest => rfl⟩
  | lit l => exact ⟨l.text, bracketFree_lit l, fun rest => rfl⟩
  | arr pad items | obj pad members => cases h

/-- The text of flat members holds no brace before the closing one. -/
theorem exists_close_tail (rest : CStr) :
    (ps : Pairs) → ps.Flat →
      ∃ seg, BracketFree seg ∧ ps.tail rest = seg ++ '\x7d' :: rest
  | .nil, _ => ⟨[], by simp [BracketFree], rfl⟩
  | .cons pre key mid post v fin more, h => by
      obtain ⟨seg, hseg, htail⟩ := exists_close_tail rest more h.2
      obtain ⟨value, hvalue, htext⟩ := exists_flat_text h.1
      have hcomma : BracketFree [','] := by
        unfold BracketFree
        decide
      refine ⟨[','] ++ keyText pre key mid post (value ++ (fin.chars ++ seg)),
        bracketFree_append hcomma (bracketFree_keyText pre key mid post
          (bracketFree_append hvalue (bracketFree_append (bracketFree_ws fin) hseg))), ?_⟩
      rw [Pairs.tail, htail, htext, List.append_assoc, ← keyText_append]
      simp

theorem exists_close_body (rest : CStr) {ps : Pairs} (h : ps.Flat) :
    ∃ seg, BracketFree seg ∧ ps.body rest = seg ++ '\x7d' :: rest := by
  cases ps with
  | nil => exact ⟨[], by simp [BracketFree], rfl⟩
  | cons pre key mid post v fin more =>
      obtain ⟨seg, hseg, htail⟩ := exists_close_tail rest more h.2
      obtain ⟨value, hvalue, htext⟩ := exists_flat_text h.1
      refine ⟨keyText .none key mid post (value ++ (fin.chars ++ seg)),
        bracketFree_keyText .none key mid post
          (bracketFree_append hvalue (bracketFree_append (bracketFree_ws fin) hseg)), ?_⟩
      rw [Pairs.body, htail, htext, ← keyText_append]
      simp

/-- Separators before the rest of the text make no difference. -/
theorem gclFill_sep {seg : CStr} (h : ∀ c ∈ seg, isGclSep c = true) (slots : List (Int32 × Int64))
    (p : CStr) : gclFill slots (seg ++ p) = gclFill slots p := by
  cases slots with
  | nil => simp [gclFill]
  | cons slot slots =>
      have hdrop : (seg ++ p).dropWhile (fun c => isWs c || c == ',' || c == '\x7b') =
          p.dropWhile fun c => isWs c || c == ',' || c == '\x7b' :=
        List.dropWhile_append_of_pos h
      rw [gclFill, gclFill, hdrop]

/-- An entry starts with a quote or with its closing brace. -/
theorem exists_body_cons (ps : Pairs) (rest : CStr) :
    ∃ c q, ps.body rest = c :: q ∧ isGclSep c = false ∧ c ≠ ']' := by
  cases ps with
  | nil => exact ⟨_, _, rfl, by decide, by decide⟩
  | cons pre key mid post v fin more => exact ⟨_, _, rfl, by decide, by decide⟩

/-- One round of the loop. -/
theorem gclFill_entry (trail : Ws) (e : GateEntry) (es : List GateEntry) (gate : Int32)
    (duration : Int64) (slots : List (Int32 × Int64)) :
    gclFill ((gate, duration) :: slots) (entriesBody trail (e :: es)) =
      (getInt (entriesBody trail (e :: es)) "gate_state".toList).bind fun gs =>
        (getI64 (entriesBody trail (e :: es)) "duration_ns".toList).bind fun dur =>
          (gclFill slots (entriesBody trail es)).map fun r =>
            (r.1 + 1, (gs.getD gate, dur.getD duration) :: r.2) := by
  obtain ⟨c, q, hbody, hsep, hclose⟩ :=
    exists_body_cons e.members (e.fin.chars ++ entriesTail trail.chars es)
  obtain ⟨seg, hseg, hbrace⟩ := exists_close_body (e.fin.chars ++ entriesTail trail.chars es)
    (e.gate.imp fun _ _ h => h.1)
  obtain ⟨sep, hsepTail, htail⟩ := exists_sep_tail e.fin trail es
  have hskip : (c :: q).dropWhile (fun c => isWs c || c == ',' || c == '\x7b') = c :: q :=
    List.dropWhile_cons_of_neg (by simpa [isGclSep] using hsep)
  have hend : (c :: q).dropWhile (· != '\x7d') = '\x7d' :: (sep ++ entriesBody trail es) := by
    have hne : ∀ c ∈ seg, (c != '\x7d') = true :=
      fun c hc => bne_iff_ne.mpr fun heq => hseg c hc (by simp [heq])
    rw [← hbody, hbrace, htail, List.dropWhile_append_of_pos hne]
    exact List.dropWhile_cons_of_neg (by decide)
  rw [show entriesBody trail (e :: es) = c :: q from hbody, gclFill, hskip]
  simp only [hclose, if_false, hend, gclFill_sep hsepTail, Option.map_eq_bind]
  rfl

theorem gclFill_end (trail : Ws) (slots : List (Int32 × Int64)) :
    gclFill slots (entriesBody trail []) = some (0, slots) := by
  cases slots with
  | nil => rfl
  | cons slot slots =>
      have hskip : (']' :: trail.chars).dropWhile (fun c => isWs c || c == ',' || c == '\x7b') =
          ']' :: trail.chars :=
        List.dropWhile_cons_of_neg (by decide)
      rw [entriesBody, gclFill, hskip]
      rfl

/-! ### The condition -/

instance nontrivialInt32 : Nontrivial Int32 := ⟨0, 1, by decide⟩

instance nontrivialInt64 : Nontrivial Int64 := ⟨0, 1, by decide⟩

/-- A gate member is an integer wherever it is found. -/
theorem entriesFind_num {key : CStr} (hkey : key ∈ gateKeys) {es : List GateEntry} {t : Tree}
    (h : entriesFind key es = some t) : ∃ neg n, t = .num neg n := by
  induction es with
  | nil => cases h
  | cons e es ih =>
      rw [entriesFind, Option.or_eq_some_iff] at h
      rcases h with hown | ⟨-, hlater⟩
      · obtain ⟨k, rfl, hgate⟩ := e.gate.of_find hown
        exact hgate.2 hkey
      · exact ih hlater

theorem int_eq_none_iff {key : CStr} (hkey : key ∈ gateKeys) (e : GateEntry) :
    e.int key = none ↔ e.members.find key = none := by
  rw [GateEntry.int]
  cases hfind : e.members.find key with
  | none => simp
  | some t =>
      obtain ⟨k, rfl, hgate⟩ := e.gate.of_find hfind
      obtain ⟨neg, n, rfl⟩ := hgate.2 hkey
      simp [Tree.int]

theorem entriesFind_eq_none_iff {key : CStr} (hkey : key ∈ gateKeys) (es : List GateEntry) :
    entriesFind key es = none ↔ ∀ e ∈ es, e.int key = none := by
  induction es with
  | nil => simp [entriesFind]
  | cons e es ih => simp [entriesFind, Option.or_eq_none_iff, ih, int_eq_none_iff hkey]

/-- A slot gets the entry's own integer, whatever it held, exactly if the key
is local. -/
theorem keyLocal_iff {α : Type} [Nontrivial α] {conv : CStr → α} {toInt : α → Int} {lo hi : Int}
    (hconv : ∀ neg n, toInt (conv ((numText neg n).take 31)) = numVal neg n ↔
      lo ≤ numVal neg n ∧ numVal neg n < hi)
    {key : CStr} (hkey : key ∈ gateKeys) (trail : Ws) (e : GateEntry) (es : List GateEntry) :
    (∃ x, lookup (readNumber 31 conv) (entriesBody trail (e :: es)) key = some x ∧
      ∀ old, KeptOr toInt (e.int key) old (x.getD old)) ↔ KeyLocal trail lo hi key e es := by
  rw [lookup_number conv (finds_entries key trail (e :: es)), KeyLocal, entriesFind]
  cases hfind : e.members.find key with
  | some t =>
      obtain ⟨k, rfl, hgate⟩ := e.gate.of_find hfind
      obtain ⟨neg, n, rfl⟩ := hgate.2 hkey
      have hown : e.int k.chars = some (numVal neg n) := by
        rw [GateEntry.int, hfind]
        rfl
      simp [hown, Tree.readNumber, KeptOr, hconv]
  | none =>
      have hown : e.int key = none := (int_eq_none_iff hkey e).mpr hfind
      have hall := entriesFind_eq_none_iff hkey es
      generalize hlater : entriesFind key es = later at hall
      simp only [hown, Option.none_or, KeptOr, ← hall]
      cases later with
      | none => by_cases hnil : trail.chars = [] <;> simp [hnil]
      | some t =>
          obtain ⟨neg, n, rfl⟩ := entriesFind_num hkey hlater
          obtain ⟨y, hy⟩ := exists_ne (conv ((numText neg n).take 31))
          constructor
          · rintro ⟨x, hx, hold⟩
            simp only [Option.isNone_some, Bool.false_eq_true, false_and, if_false,
              Option.some_inj] at hx
            subst hx
            exact absurd (hold y).symm hy
          · rintro ⟨hnone, -⟩
            cases hnone

theorem atoi_fits (neg : Bool) (n : Nat) :
    (atoi ((numText neg n).take 31)).toInt = numVal neg n ↔
      -(2 ^ 31) ≤ numVal neg n ∧ numVal neg n < 2 ^ 31 := by
  constructor
  · intro h
    rw [← h]
    exact ⟨Int32.le_toInt _, Int32.toInt_lt _⟩
  · rintro ⟨hlo, hhi⟩
    rw [atoi_copied hlo hhi, Int32.toInt_ofInt_of_le hlo hhi]

theorem atoll_fits (neg : Bool) (n : Nat) :
    (atoll ((numText neg n).take 31)).toInt = numVal neg n ↔
      -(2 ^ 63) ≤ numVal neg n ∧ numVal neg n < 2 ^ 63 := by
  constructor
  · intro h
    rw [← h]
    exact ⟨Int64.le_toInt _, Int64.toInt_lt _⟩
  · rintro ⟨hlo, hhi⟩
    rw [atoll_copied hlo hhi, Int64.toInt_ofInt_of_le hlo hhi]

/-- The entries are read each from its own object, whatever the slots hold. -/
def ReadsLocal (trail : Ws) (es : List GateEntry) (k : Nat) : Prop :=
  ∀ slots : List (Int32 × Int64), slots.length = k →
    ∃ out, gclFill slots (entriesBody trail es) = some (min es.length k, out) ∧
      Filled es slots out

/-- The first entry and the others are independent of each other. -/
theorem readsLocal_cons (trail : Ws) (e : GateEntry) (es : List GateEntry) (k : Nat) :
    ReadsLocal trail (e :: es) (k + 1) ↔
      (∃ gs, getInt (entriesBody trail (e :: es)) "gate_state".toList = some gs ∧
        ∀ old, KeptOr Int32.toInt (e.int "gate_state".toList) old (gs.getD old)) ∧
      (∃ dur, getI64 (entriesBody trail (e :: es)) "duration_ns".toList = some dur ∧
        ∀ old, KeptOr Int64.toInt (e.int "duration_ns".toList) old (dur.getD old)) ∧
      ReadsLocal trail es k := by
  constructor
  · intro h
    -- one run of the loop for each choice of the first slot and of the others
    have hrun : ∀ (gate : Int32) (duration : Int64) (slots : List (Int32 × Int64)),
        slots.length = k → ∃ gs dur r,
          getInt (entriesBody trail (e :: es)) "gate_state".toList = some gs ∧
          getI64 (entriesBody trail (e :: es)) "duration_ns".toList = some dur ∧
          gclFill slots (entriesBody trail es) = some r ∧ r.1 = min es.length k ∧
          Filled (e :: es) ((gate, duration) :: slots)
            ((gs.getD gate, dur.getD duration) :: r.2) := by
      intro gate duration slots hlen
      obtain ⟨out, hfill, hout⟩ := h ((gate, duration) :: slots) (by simp [hlen])
      rw [gclFill_entry] at hfill
      obtain ⟨gs, hgs, hfill⟩ := Option.bind_eq_some_iff.mp hfill
      obtain ⟨dur, hdur, hfill⟩ := Option.bind_eq_some_iff.mp hfill
      obtain ⟨r, hr, heq⟩ := Option.map_eq_some_iff.mp hfill
      obtain ⟨hn, rfl⟩ := Prod.mk.inj heq
      refine ⟨gs, dur, r, hgs, hdur, hr, ?_, hout⟩
      rw [List.length_cons] at hn
      omega
    obtain ⟨gs, dur, -, hgs, hdur, -⟩ := hrun 0 0 (List.replicate k (0, 0)) (by simp)
    refine ⟨⟨gs, hgs, fun old => ?_⟩, ⟨dur, hdur, fun old => ?_⟩, fun slots hlen => ?_⟩
    · obtain ⟨gs', _, _, hgs', -, -, -, hout⟩ := hrun old 0 (List.replicate k (0, 0)) (by simp)
      obtain rfl := Option.some_inj.mp (hgs.symm.trans hgs')
      exact hout.1
    · obtain ⟨_, dur', _, -, hdur', -, -, hout⟩ := hrun 0 old (List.replicate k (0, 0)) (by simp)
      obtain rfl := Option.some_inj.mp (hdur.symm.trans hdur')
      exact hout.2.1
    · obtain ⟨_, _, ⟨n, out⟩, -, -, hr, rfl, hout⟩ := hrun 0 0 slots hlen
      exact ⟨out, hr, hout.2.2⟩
  · rintro ⟨⟨gs, hgs, hgate⟩, ⟨dur, hdur, hduration⟩, hrest⟩ slots hlen
    cases slots with
    | nil => cases hlen
    | cons slot slots =>
        obtain ⟨out, hfill, hout⟩ := hrest slots (Nat.succ.inj hlen)
        refine ⟨(gs.getD slot.1, dur.getD slot.2) :: out, ?_, hgate _, hduration _, hout⟩
        rw [gclFill_entry, hgs, hdur, hfill, List.length_cons, Nat.add_min_add_right]
        rfl

theorem readsLocal_iff (trail : Ws) (es : List GateEntry) (k : Nat) :
    ReadsLocal trail es k ↔ EntriesLocal trail es k := by
  induction es generalizing k with
  | nil =>
      refine ⟨fun _ => trivial, fun _ slots _ => ⟨slots, ?_, ?_⟩⟩
      · rw [gclFill_end, List.length_nil, Nat.zero_min]
      · simp [Filled]
  | cons e es ih =>
      cases k with
      | zero =>
          refine ⟨fun _ => trivial, fun _ slots hlen => ⟨[], ?_, ?_⟩⟩
          · rw [List.length_eq_zero_iff.mp hlen, Nat.min_zero]
            rfl
          · rw [List.length_eq_zero_iff.mp hlen]
            rfl
      | succ k =>
          have hgate : "gate_state".toList ∈ gateKeys := by decide
          have hduration : "duration_ns".toList ∈ gateKeys := by decide
          rw [readsLocal_cons, EntriesLocal, ih, ← keyLocal_iff atoi_fits hgate,
            ← keyLocal_iff atoll_fits hduration]
          rfl

theorem entryLocal_iff_readsLocal (a : GateArray) (maxEntries : Nat) :
    EntryLocal a maxEntries ↔ ReadsLocal a.trail a.entries maxEntries := by
  obtain ⟨seg, hseg, htext⟩ := exists_sep_array a
  simp only [EntryLocal, ReadsLocal, parseGclInto, htext, gclFill_sep hseg]

/-- The entries are read each from its own object exactly if each member of the
entries that are read is there and fits, or is in no later object and nothing
trails the array. -/
theorem entryLocal_iff (a : GateArray) (maxEntries : Nat) :
    EntryLocal a maxEntries ↔ EntriesLocal a.trail a.entries maxEntries :=
  (entryLocal_iff_readsLocal a maxEntries).trans (readsLocal_iff a.trail a.entries maxEntries)

/-- The text `[{},{"gate_state":1}]`. -/
def emptyFirst : GateArray where
  pad := .none
  entries :=
    [{ pre := .none, pad := .none, members := .nil, gate := trivial, fin := .none },
      { pre := .none
        pad := .none
        members :=
          .cons .none ⟨"gate_state".toList, by decide⟩ .none .none (.num false 1) .none .nil
        gate := ⟨⟨rfl, fun _ => ⟨_, _, rfl⟩⟩, trivial⟩
        fin := .none }]
  trail := .none

/-- The first object has no `gate_state`, and its slot gets that of the
second. -/
theorem emptyFirst_not_local : ¬ EntryLocal emptyFirst 2 := by
  rw [entryLocal_iff_readsLocal, readsLocal_iff]
  rintro ⟨⟨hnone, -⟩, -⟩
  exact absurd (hnone _ (List.mem_singleton_self _)) (by decide)

example : emptyFirst.text = "[\x7b\x7d,\x7b\"gate_state\":1\x7d]".toList := by decide

end Htsn.Esp32
