import WirelessTsn.Lib.Loop
import WirelessTsn.Lib.Json

/-!
The snapshot handler of the host agent (`src/agent/agent.c`) with its own JSON
scanner. The scanner's loop does not move on a closing brace, so a search has
fuel here and `Loop.Ends` says that it comes back.

The scanner looks for separators also inside strings: behind a comma or an
opening brace it takes a quote for the start of a key, whichever quote it is.
`hostScan` follows it over the members of a flat object.
-/

namespace Htsn.Host

open CText Json

/-! ### The scanner -/

def isSep (c : Char) : Bool := c == ',' || c == '\x7b'

/-- Where the loops over a value stop. -/
def isStop (c : Char) : Bool := isSep c || c == '\x7d'

/-- One round of the loop of `json_val`. -/
def jsonValBody (key p : CStr) : Loop.Step CStr (Option CStr) :=
  if p = [] then .done none
  else
    match p.dropWhile fun c => isWs c || isSep c with
    | [] => .next []
    | c :: ks =>
        if c ≠ '"' then .next ((c :: ks).dropWhile fun c => !isStop c)
        else
          match splitQuote ks with
          | none => .done none
          | some (k, rest) =>
              if k = key then
                match rest.dropWhile (· != ':') with
                | [] => .done none
                | _ :: v => .done (some (v.dropWhile isWs))
              else .next (rest.dropWhile fun c => !isStop c)

/-- `json_val` with at most `fuel` rounds. -/
def jsonVal (fuel : Nat) (json key : CStr) : Option (Option CStr) :=
  Loop.run (jsonValBody key) fuel json

def jsonGetInt (fuel : Nat) (json key : CStr) : Option (Option Int32) :=
  (jsonVal fuel json key).map fun v => v.bind (readNumber 15 atoi)

/-- `json_get_str`; what is not found is the empty string. -/
def jsonGetStr (fuel : Nat) (json key : CStr) (sz : Nat) : Option CStr :=
  (jsonVal fuel json key).map fun v => (v.bind (readStr sz)).getD []

/-! ### The handler -/

/-- The calls of the platform's operations. -/
inductive OpCall where
  | applyQos (priority tc bwKbps latMs preemption : Int32)
  | applyVlan (vlanId : Int32) (group : CStr)
  | applyTimesync (mode : Int32) (gm : Option CStr)
  | applyTas (cycleNs : Int64)
  deriving DecidableEq

/-- The cycle of a snapshot: `atoll` of what follows the key, unless that is a
string. -/
def cycleOf (cv : Option CStr) : Int64 :=
  match cv with
  | none => 0
  | some v => if v.head? = some '"' then 0 else atoll v

/-- `apply_snapshot`, with the operations it calls. -/
def applySnapshot (fuel : Nat) (payload : CStr) : Option (List OpCall) := do
  let p ← jsonGetInt fuel payload "priority".toList
  let t ← jsonGetInt fuel payload "traffic_class".toList
  let bw ← jsonGetInt fuel payload "bandwidth_kbps".toList
  let lat ← jsonGetInt fuel payload "latency_ms".toList
  let pr ← jsonGetInt fuel payload "preemption".toList
  let vid ← jsonGetInt fuel payload "vlan_id".toList
  let tsmode ← jsonGetInt fuel payload "timesync_mode".toList
  let group ← jsonGetStr fuel payload "group".toList 32
  let gm ← jsonGetStr fuel payload "grandmaster".toList 32
  let cv ← jsonVal fuel payload "tas_cycle_ns".toList
  let qos :=
    match p with
    | some p => [.applyQos p (t.getD 0) (bw.getD 0) (lat.getD 0) (pr.getD 0)]
    | none => []
  let vlan := if vid.getD 0 > 0 then [.applyVlan (vid.getD 0) group] else []
  some (qos ++ vlan ++
    [.applyTimesync (tsmode.getD 0) (if gm = [] then none else some gm), .applyTas (cycleOf cv)])

/-- The `/apply` branch of `on_message`: the operations called and the
acknowledgement. -/
def onApply (fuel : Nat) (payload : CStr) : Option (List OpCall × Bool) :=
  if payload.head? = some '\x7b' then (applySnapshot fuel payload).map fun calls => (calls, true)
  else some ([], false)

/-! ### The scanner on a text -/

/-- Whether the scanner is at the top of its loop, where a quote starts a key,
or runs to the next separator. -/
inductive Mode where
  | ready
  | away
  deriving DecidableEq

def Mode.step (m : Mode) (c : Char) : Mode :=
  if isSep c then .ready else if m = .ready ∧ isWs c = true then .ready else .away

/-- From a text in a mode the search for `key` comes back with `r`. -/
def Mode.Finds (m : Mode) (key s : CStr) (r : Option CStr) : Prop :=
  match m with
  | .ready => Loop.Ends (jsonValBody key) s r
  | .away => Loop.Ends (jsonValBody key) (s.dropWhile fun c => !isStop c) r

variable {key s : CStr} {r : Option CStr} {c : Char}

theorem ends_nil : Loop.Ends (jsonValBody key) [] r ↔ r = none :=
  Loop.ends_done (by simp [jsonValBody])

/-- White space and separators are skipped at the top of the loop. -/
theorem ready_skip (hc : (isWs c || isSep c) = true) :
    Mode.ready.Finds key (c :: s) r ↔ Mode.ready.Finds key s r := by
  have hdrop : (c :: s).dropWhile (fun c => isWs c || isSep c) =
      s.dropWhile fun c => isWs c || isSep c := List.dropWhile_cons_of_pos hc
  cases s with
  | nil =>
      have hbody : jsonValBody key [c] = .next [] := by
        rw [jsonValBody, if_neg (List.cons_ne_nil _ _), hdrop]
        rfl
      exact Loop.ends_next hbody
  | cons d s =>
      have hbody : jsonValBody key (c :: d :: s) = jsonValBody key (d :: s) := by
        rw [jsonValBody, jsonValBody, if_neg (List.cons_ne_nil _ _), if_neg (List.cons_ne_nil _ _),
          hdrop]
      cases h : jsonValBody key (d :: s) with
      | next t => exact (Loop.ends_next (hbody.trans h)).trans (Loop.ends_next h).symm
      | done r' => exact (Loop.ends_done (hbody.trans h)).trans (Loop.ends_done h).symm

theorem away_skip (hc : isStop c = false) :
    Mode.away.Finds key (c :: s) r ↔ Mode.away.Finds key s r := by
  simp only [Mode.Finds]
  rw [List.dropWhile_cons_of_pos (by simp [hc])]

/-- A round that does not start at a quote runs to the next separator. -/
theorem ready_other (hws : (isWs c || isSep c) = false) (hq : c ≠ '"') :
    Mode.ready.Finds key (c :: s) r ↔ Mode.away.Finds key (c :: s) r := by
  have hdrop : (c :: s).dropWhile (fun c => isWs c || isSep c) = c :: s :=
    List.dropWhile_cons_of_neg (by simp [hws])
  apply Loop.ends_next
  rw [jsonValBody, if_neg (List.cons_ne_nil _ _), hdrop]
  simp only [ne_eq, hq, not_false_eq_true, if_true]

theorem away_stop (hc : isStop c = true) :
    Mode.away.Finds key (c :: s) r ↔ Mode.ready.Finds key (c :: s) r := by
  simp only [Mode.Finds]
  rw [List.dropWhile_cons_of_neg (by simp [hc])]

/-- The loop does not move on a closing brace. -/
theorem not_finds_brace (m : Mode) : ¬ m.Finds key ('\x7d' :: s) r := by
  have hdrop : ('\x7d' :: s).dropWhile (fun c => isWs c || isSep c) = '\x7d' :: s :=
    List.dropWhile_cons_of_neg (by decide)
  have hstop : ('\x7d' :: s).dropWhile (fun c => !isStop c) = '\x7d' :: s :=
    List.dropWhile_cons_of_neg (by decide)
  have hready : ¬ Mode.ready.Finds key ('\x7d' :: s) r := by
    apply Loop.not_ends_of_fixed
    rw [jsonValBody, if_neg (List.cons_ne_nil _ _), hdrop]
    simp only [ne_eq, (by decide : ('\x7d' : Char) ≠ '"'), not_false_eq_true, if_true, hstop]
  cases m with
  | ready => exact hready
  | away => rwa [away_stop (by decide)]

theorem isStop_eq_false (hsep : isSep c = false) (hb : c ≠ '\x7d') : isStop c = false := by
  simp [isStop, hsep, hb]

theorem isStop_of_isDigit (h : c.isDigit = true) : isStop c = false := by
  cases hstop : isStop c with
  | false => rfl
  | true =>
      simp only [isStop, isSep, Bool.or_eq_true, beq_iff_eq] at hstop
      rcases hstop with (rfl | rfl) | rfl <;> exact absurd h (by decide)

/-- Any character but a quote and a closing brace. -/
theorem finds_char (m : Mode) (hq : c ≠ '"') (hb : c ≠ '\x7d') :
    m.Finds key (c :: s) r ↔ (m.step c).Finds key s r := by
  cases hsep : isSep c with
  | true =>
      have hstep : m.step c = .ready := if_pos hsep
      have hskip : Mode.ready.Finds key (c :: s) r ↔ Mode.ready.Finds key s r :=
        ready_skip (by simp [hsep])
      rw [hstep]
      cases m with
      | ready => exact hskip
      | away => exact (away_stop (by simp [isStop, hsep])).trans hskip
  | false =>
      have hskip : Mode.away.Finds key (c :: s) r ↔ Mode.away.Finds key s r :=
        away_skip (isStop_eq_false hsep hb)
      cases m with
      | away =>
          have hstep : Mode.away.step c = .away := by simp [Mode.step, hsep]
          rw [hstep]
          exact hskip
      | ready =>
          cases hws : isWs c with
          | true =>
              have hstep : Mode.ready.step c = .ready := by simp [Mode.step, hsep, hws]
              rw [hstep]
              exact ready_skip (by simp [hws])
          | false =>
              have hstep : Mode.ready.step c = .away := by simp [Mode.step, hsep, hws]
              rw [hstep]
              exact (ready_other (by simp [hws, hsep]) hq).trans hskip

theorem finds_text (m : Mode) {seg : CStr} (hq : '"' ∉ seg) (hb : '\x7d' ∉ seg) :
    m.Finds key (seg ++ s) r ↔ (seg.foldl Mode.step m).Finds key s r := by
  induction seg generalizing m with
  | nil => rfl
  | cons c seg ih =>
      rw [List.mem_cons, not_or] at hq hb
      rw [List.cons_append, finds_char m (Ne.symm hq.1) (Ne.symm hb.1), List.foldl_cons]
      exact ih (m.step c) hq.2 hb.2

theorem not_finds_text (m : Mode) {seg : CStr} (hq : '"' ∉ seg) (hb : '\x7d' ∈ seg) :
    ¬ m.Finds key (seg ++ s) r := by
  induction seg generalizing m with
  | nil => cases hb
  | cons c seg ih =>
      rw [List.mem_cons, not_or] at hq
      by_cases hc : c = '\x7d'
      · rw [hc]
        exact not_finds_brace m
      · rw [List.cons_append, finds_char m (Ne.symm hq.1) hc]
        refine ih (m.step c) hq.2 ?_
        rcases List.mem_cons.mp hb with heq | hmem
        · exact absurd heq.symm hc
        · exact hmem

/-- Text without separators and braces is run over, quotes included. -/
theorem away_text {seg : CStr} (h : ∀ c ∈ seg, isStop c = false) :
    Mode.away.Finds key (seg ++ s) r ↔ Mode.away.Finds key s r := by
  induction seg with
  | nil => rfl
  | cons c seg ih =>
      rw [List.cons_append, away_skip (h c List.mem_cons_self)]
      exact ih fun d hd => h d (List.mem_cons_of_mem c hd)

theorem ready_ws (w : Ws) : Mode.ready.Finds key (w.chars ++ s) r ↔ Mode.ready.Finds key s r := by
  have h : ∀ seg : CStr, (∀ c ∈ seg, isWs c = true) →
      (Mode.ready.Finds key (seg ++ s) r ↔ Mode.ready.Finds key s r) := by
    intro seg hseg
    induction seg with
    | nil => rfl
    | cons c seg ih =>
        rw [List.cons_append, ready_skip (by simp [hseg c List.mem_cons_self])]
        exact ih fun d hd => hseg d (List.mem_cons_of_mem c hd)
  exact h w.chars w.blank

/-! ### A quote at the top of the loop -/

theorem jsonValBody_quote (key ks : CStr) :
    jsonValBody key ('"' :: ks) =
      match splitQuote ks with
      | none => .done none
      | some (k, rest) =>
          if k = key then
            match rest.dropWhile (· != ':') with
            | [] => .done none
            | _ :: v => .done (some (v.dropWhile isWs))
          else .next (rest.dropWhile fun c => !isStop c) := by
  have hdrop : ('"' :: ks).dropWhile (fun c => isWs c || isSep c) = '"' :: ks :=
    List.dropWhile_cons_of_neg (by decide)
  rw [jsonValBody, if_neg (List.cons_ne_nil _ _), hdrop]
  simp only [ne_eq, not_true_eq_false, if_false]

/-- The key itself. -/
theorem ready_found {v : CStr} (mid : Ws) (hkey : '"' ∉ key) :
    Mode.ready.Finds key ('"' :: (key ++ '"' :: (mid.chars ++ ':' :: v))) r ↔
      r = some (v.dropWhile isWs) := by
  have hmid : ∀ c ∈ mid.chars, (c != ':') = true := by
    intro c hc
    rw [bne_iff_ne]
    rintro rfl
    exact absurd (mid.blank ':' hc) (by decide)
  apply Loop.ends_done
  rw [jsonValBody_quote, splitQuote_append hkey]
  simp only [if_true, List.dropWhile_append_of_pos hmid, bne_self_eq_false, Bool.false_eq_true,
    not_false_eq_true, List.dropWhile_cons_of_neg]

/-- Another text between two quotes. -/
theorem ready_pass {k : CStr} (hk : '"' ∉ k) (hne : k ≠ key) :
    Mode.ready.Finds key ('"' :: (k ++ '"' :: s)) r ↔ Mode.away.Finds key s r := by
  apply Loop.ends_next
  rw [jsonValBody_quote, splitQuote_append hk]
  simp only [hne, if_false]

/-- The last quote of the text. -/
theorem ready_last {k : CStr} (hk : '"' ∉ k) :
    Mode.ready.Finds key ('"' :: k) r ↔ r = none := by
  have hsplit : splitQuote k = none := by
    have hdrop : k.dropWhile (· != '"') = [] := by
      rw [List.dropWhile_eq_nil_iff]
      intro c hc
      rw [bne_iff_ne]
      rintro rfl
      exact hk hc
    rw [splitQuote, hdrop]
  apply Loop.ends_done
  rw [jsonValBody_quote, hsplit]

/-! ### The scanner on the members of a flat object -/

/-- Whether the last character that is not white space is a separator. -/
def endsOpen (s : CStr) : Bool := (s.reverse.dropWhile isWs).head?.any isSep

theorem not_isWs_of_isSep (h : isSep c = true) : isWs c = false := by
  simp only [isSep, Bool.or_eq_true, beq_iff_eq] at h
  rcases h with rfl | rfl <;> rfl

theorem foldl_step (s : CStr) :
    s.foldl Mode.step .away = if endsOpen s then .ready else .away := by
  induction s using List.reverseRecOn with
  | nil => rfl
  | append_singleton s c ih =>
      rw [List.foldl_append, ih, List.foldl_cons, List.foldl_nil, Mode.step]
      simp only [endsOpen, List.reverse_append, List.reverse_singleton, List.singleton_append]
      cases hsep : isSep c with
      | true =>
          rw [List.dropWhile_cons_of_neg (by simp [not_isWs_of_isSep hsep])]
          simp [hsep]
      | false =>
          cases hws : isWs c with
          | true =>
              rw [List.dropWhile_cons_of_pos hws]
              by_cases hopen : (s.reverse.dropWhile isWs).head?.any isSep = true
              · simp [hopen]
              · simp [hopen]
          | false =>
              rw [List.dropWhile_cons_of_neg (by simp [hws])]
              simp [hsep]

/-- How the scanner gets over the content of a string: past its closing quote,
astray because it takes that quote for the start of a key, or not at all. -/
inductive Pass where
  | past
  | astray
  | stuck
  deriving DecidableEq

def strPass (s : CStr) : Pass :=
  if '\x7d' ∈ s then .stuck else if endsOpen s then .astray else .past

def valuePass : Value → Pass
  | .str s => strPass s.chars
  | _ => .past

/-- What the scanner makes of the members. -/
inductive Sight where
  | found (m : Member) (later : List Member)
  | nothing
  | hangs

/-- The scan over the members, by how it got over what stands before them. -/
def hostScan (key : CStr) : Pass → List Member → Sight
  | .stuck, _ => .hangs
  | .past, [] => .hangs
  | .astray, [] => .nothing
  | .past, m :: ms => if m.key.chars = key then .found m ms else hostScan key (valuePass m.val) ms
  | .astray, m :: ms =>
      -- the scan is inside the member's key and looks for a separator there
      match strPass m.key.chars, m.val with
      | .stuck, _ => .hangs
      | .past, v => hostScan key (valuePass v) ms
      | .astray, .str s => hostScan key (strPass s.chars) ms
      | .astray, _ => hostScan key .astray ms

/-- The results that fit what the scanner sees. -/
def Sight.Gives (trail : CStr) (r : Option CStr) : Sight → Prop
  | .found m later => r = some (m.val.text (m.fin.chars ++ membersTail trail later))
  | .nothing => r = none
  | .hangs => False

/-- The content of a string, entered running to a separator. -/
theorem away_str {content : CStr} (hq : '"' ∉ content) :
    Mode.away.Finds key (content ++ '"' :: s) r ↔
      match strPass content with
      | .past => Mode.away.Finds key s r
      | .astray => Mode.ready.Finds key ('"' :: s) r
      | .stuck => False := by
  rw [strPass]
  by_cases hb : '\x7d' ∈ content
  · simp only [hb, if_true, iff_false]
    exact not_finds_text .away hq hb
  · rw [if_neg hb, finds_text .away hq hb, foldl_step]
    cases hopen : endsOpen content with
    | true => rfl
    | false => exact away_skip (by decide)

/-- A number or a literal holds neither separator nor brace nor quote. -/
theorem scalar_text {v : Value} (hflat : v.isFlat = true) (hstr : ∀ t, v ≠ .str t) :
    ∃ word, (∀ rest, v.text rest = word ++ rest) ∧ (∀ c ∈ word, isStop c = false) ∧ '"' ∉ word := by
  cases v with
  | str t => exact absurd rfl (hstr t)
  | ints pad items => cases hflat
  | lit l => exact ⟨l.text, fun _ => rfl, by cases l <;> decide, by cases l <;> decide⟩
  | num neg n tail =>
      refine ⟨numText neg n ++ tail.chars, fun rest => (List.append_assoc _ _ _).symm, ?_, ?_⟩
      · intro c hc
        rcases mem_number hc with hdigit | hsign
        · exact isStop_of_isDigit hdigit
        · exact (by decide : ∀ c ∈ ['.', 'e', 'E', '+', '-'], isStop c = false) c hsign
      · rw [List.mem_append, not_or]
        exact ⟨not_mem_numText (by decide) (by decide) neg n, tail.noQuote⟩

theorem isStop_of_isWs (h : isWs c = true) : isStop c = false :=
  forall_isWs (P := fun c => isStop c = false) (by decide) c h

theorem away_ws (w : Ws) : Mode.away.Finds key (w.chars ++ s) r ↔ Mode.away.Finds key s r :=
  away_text fun c hc => isStop_of_isWs (w.blank c hc)

/-- Behind the key of a member that is passed over. -/
theorem away_colon (m : Member) (rest : CStr) :
    Mode.away.Finds key (m.mid.chars ++ ':' :: m.valueText rest) r ↔
      Mode.away.Finds key (m.val.text (m.fin.chars ++ rest)) r := by
  rw [away_ws, away_skip (by decide), Member.valueText, away_ws]

/-- The value of a member that is passed over. -/
theorem away_value {v : Value} (hflat : v.isFlat = true) (rest : CStr) :
    Mode.away.Finds key (v.text rest) r ↔
      match valuePass v with
      | .past => Mode.away.Finds key rest r
      | .astray => Mode.ready.Finds key ('"' :: rest) r
      | .stuck => False := by
  by_cases hstr : ∃ t, v = .str t
  · obtain ⟨t, rfl⟩ := hstr
    rw [Value.text, away_skip (by decide), away_str t.noQuote]
    rfl
  · obtain ⟨word, htext, hstop, _⟩ := scalar_text hflat fun t ht => hstr ⟨t, ht⟩
    have hpast : valuePass v = .past := by
      cases v with
      | str t => exact absurd ⟨t, rfl⟩ hstr
      | num neg n tail => rfl
      | lit l => rfl
      | ints pad items => rfl
    rw [htext, away_text hstop, hpast]

/-- A text that starts with no letter is no key. -/
theorem ne_key (hkey : IsKey key) {seg : CStr} (hhead : ∀ c ∈ seg.head?, c.isAlpha = false) :
    seg ≠ key := by
  rintro rfl
  obtain ⟨c, hc, halpha⟩ := hkey.alpha
  rw [hhead c hc] at halpha
  cases halpha

/-- Behind the opening quote of a member. -/
def inner (m : Member) (rest : CStr) : CStr :=
  m.key.chars ++ '"' :: (m.mid.chars ++ ':' :: m.valueText rest)

/-- A closing quote taken for the start of a key: the text up to the next
quote is no key, and without a further quote the search is over. -/
theorem ready_astray (hkey : IsKey key) (trail : Ws) {seg : CStr} (hq : '"' ∉ seg)
    (hhead : ∀ c ∈ seg.head?, c.isAlpha = false) (ms : List Member) :
    Mode.ready.Finds key ('"' :: (seg ++ membersTail trail.chars ms)) r ↔
      match ms with
      | [] => r = none
      | m :: ms => Mode.away.Finds key (inner m (membersTail trail.chars ms)) r := by
  cases ms with
  | nil =>
      apply ready_last
      rw [membersTail, List.mem_append, List.mem_cons, not_or, not_or]
      exact ⟨hq, by decide, trail.noQuote⟩
  | cons m ms =>
      have htext : seg ++ membersTail trail.chars (m :: ms) =
          (seg ++ ',' :: m.pre.chars) ++ '"' :: inner m (membersTail trail.chars ms) := by
        simp [membersTail, Member.text, inner]
      rw [htext]
      apply ready_pass
      · rw [List.mem_append, List.mem_cons, not_or, not_or]
        exact ⟨hq, by decide, m.pre.noQuote⟩
      · apply ne_key hkey
        intro c hc
        cases seg with
        | nil =>
            cases hc
            rfl
        | cons d seg => exact hhead c hc

section

variable {trail : Ws} {ms : List Member}

/-- What the scan of the further members gives, by how a value was passed. -/
theorem gives_of_pass
    (hpast : ∀ fin : Ws, Mode.away.Finds key (fin.chars ++ membersTail trail.chars ms) r ↔
      (hostScan key .past ms).Gives trail.chars r)
    (hastray : ∀ seg, '"' ∉ seg → (∀ c ∈ seg.head?, c.isAlpha = false) →
      (Mode.ready.Finds key ('"' :: (seg ++ membersTail trail.chars ms)) r ↔
        (hostScan key .astray ms).Gives trail.chars r)) (p : Pass) (fin : Ws) :
    (match p with
      | .past => Mode.away.Finds key (fin.chars ++ membersTail trail.chars ms) r
      | .astray => Mode.ready.Finds key ('"' :: (fin.chars ++ membersTail trail.chars ms)) r
      | .stuck => False) ↔
      (hostScan key p ms).Gives trail.chars r := by
  cases p with
  | past => exact hpast fin
  | astray =>
      have hhead : ∀ c ∈ (fin.chars ++ []).head?, c.isAlpha = false :=
        fin.head_append (by decide) (by simp)
      rw [List.append_nil] at hhead
      exact hastray fin.chars fin.noQuote hhead
  | stuck =>
      rw [hostScan]
      rfl

/-- The closing quote of a member's key taken for the start of a key: the next
quote is that of a string value, or else that of the next member. -/
theorem ready_colon (hkey : IsKey key) {m : Member} (hflat : m.val.isFlat = true)
    (hpast : ∀ fin : Ws, Mode.away.Finds key (fin.chars ++ membersTail trail.chars ms) r ↔
      (hostScan key .past ms).Gives trail.chars r)
    (hastray : ∀ seg, '"' ∉ seg → (∀ c ∈ seg.head?, c.isAlpha = false) →
      (Mode.ready.Finds key ('"' :: (seg ++ membersTail trail.chars ms)) r ↔
        (hostScan key .astray ms).Gives trail.chars r)) :
    Mode.ready.Finds key
        ('"' :: (m.mid.chars ++ ':' :: m.valueText (membersTail trail.chars ms))) r ↔
      Sight.Gives trail.chars r
        (match m.val with
        | .str t => hostScan key (strPass t.chars) ms
        | _ => hostScan key .astray ms) := by
  have hhead : ∀ rest : CStr, ∀ c ∈ (m.mid.chars ++ ':' :: rest).head?, c.isAlpha = false :=
    fun rest => m.mid.head_append (by decide) (by simp)
  have hcolon : '"' ∉ m.mid.chars ++ ':' :: m.post.chars := by
    rw [List.mem_append, List.mem_cons, not_or, not_or]
    exact ⟨m.mid.noQuote, by decide, m.post.noQuote⟩
  by_cases hstr : ∃ t, m.val = .str t
  · obtain ⟨t, hval⟩ := hstr
    have htext : m.mid.chars ++ ':' :: m.valueText (membersTail trail.chars ms) =
        (m.mid.chars ++ ':' :: m.post.chars) ++
          '"' :: (t.chars ++ '"' :: (m.fin.chars ++ membersTail trail.chars ms)) := by
      simp [Member.valueText, hval, Value.text]
    rw [htext, ready_pass hcolon (ne_key hkey (hhead _)), away_str t.noQuote, hval]
    exact gives_of_pass hpast hastray (strPass t.chars) m.fin
  · obtain ⟨word, hword, _, hquote⟩ := scalar_text hflat fun t ht => hstr ⟨t, ht⟩
    have htext : m.mid.chars ++ ':' :: m.valueText (membersTail trail.chars ms) =
        (m.mid.chars ++ ':' :: (m.post.chars ++ (word ++ m.fin.chars))) ++
          membersTail trail.chars ms := by
      simp [Member.valueText, hword]
    have hscan : (match m.val with
        | .str t => hostScan key (strPass t.chars) ms
        | _ => hostScan key .astray ms) = hostScan key .astray ms := by
      split
      · rename_i t hval
        exact absurd ⟨t, hval⟩ hstr
      · rfl
    rw [htext, hscan]
    apply hastray _ _ (hhead _)
    simp only [List.mem_append, List.mem_cons, not_or]
    exact ⟨m.mid.noQuote, by decide, m.post.noQuote, hquote, m.fin.noQuote⟩

/-- The search over the members gives what `hostScan` sees. -/
theorem finds_members (hkey : IsKey key) (trail : Ws) (ms : List Member)
    (hflat : ∀ m ∈ ms, m.val.isFlat = true) :
    (∀ fin : Ws, Mode.away.Finds key (fin.chars ++ membersTail trail.chars ms) r ↔
      (hostScan key .past ms).Gives trail.chars r) ∧
    ∀ seg, '"' ∉ seg → (∀ c ∈ seg.head?, c.isAlpha = false) →
      (Mode.ready.Finds key ('"' :: (seg ++ membersTail trail.chars ms)) r ↔
        (hostScan key .astray ms).Gives trail.chars r) := by
  induction ms with
  | nil =>
      refine ⟨fun fin => ?_, fun seg hq hhead => ready_astray hkey trail hq hhead []⟩
      rw [away_ws, membersTail]
      exact iff_false_intro (not_finds_brace .away)
  | cons m ms ih =>
      obtain ⟨hpast, hastray⟩ := ih fun x hx => hflat x (List.mem_cons_of_mem m hx)
      have hm : m.val.isFlat = true := hflat m List.mem_cons_self
      have hvalue : Mode.away.Finds key
          (m.mid.chars ++ ':' :: m.valueText (membersTail trail.chars ms)) r ↔
          (hostScan key (valuePass m.val) ms).Gives trail.chars r := by
        rw [away_colon, away_value hm]
        exact gives_of_pass hpast hastray (valuePass m.val) m.fin
      refine ⟨fun fin => ?_, fun seg hq hhead => ?_⟩
      · rw [away_ws, membersTail, away_stop (by decide), ready_skip (by decide), Member.text,
          ready_ws, hostScan]
        by_cases hsame : m.key.chars = key
        · rw [if_pos hsame, hsame, ready_found m.mid hkey.noQuote, m.dropWhile_valueText]
          rfl
        · rw [if_neg hsame, ready_pass m.key.noQuote hsame]
          exact hvalue
      · rw [ready_astray hkey trail hq hhead, hostScan]
        simp only [inner]
        rw [away_str m.key.noQuote]
        cases strPass m.key.chars with
        | stuck => rfl
        | past => exact hvalue
        | astray =>
            refine (ready_colon hkey hm hpast hastray).trans ?_
            cases m.val <;> exact Iff.rfl

/-- On the text of a flat object the search gives what `hostScan` sees. -/
theorem ends_object (hkey : IsKey key) {o : Object} (hlead : o.lead.chars = [])
    (hflat : ∀ m ∈ o.members, m.val.isFlat = true) :
    Loop.Ends (jsonValBody key) o.text r ↔
      (hostScan key .past o.members).Gives o.trail.chars r := by
  have hopen : Mode.ready.Finds key o.text r ↔
      Mode.ready.Finds key (membersText o.pad o.trail.chars o.members) r := by
    rw [Object.text, hlead, List.nil_append, ready_skip (by decide)]
  refine hopen.trans ?_
  have hmembers := finds_members (r := r) hkey o.trail o.members hflat
  cases hms : o.members with
  | nil =>
      rw [membersText, ready_ws]
      exact iff_false_intro (not_finds_brace .ready)
  | cons m ms =>
      rw [hms] at hmembers
      have htail := hmembers.1 .none
      rw [away_ws, membersTail, away_stop (by decide), ready_skip (by decide)] at htail
      exact htail

end

end Htsn.Host
