import WirelessTsn.Lib.JsonTree
import WirelessTsn.Esp32.Json

/-!
What the readers of `htsn_json.c` return for an object of any depth. The search
skips a nested value by its depth of brackets of one kind, so it never looks
for a key inside one, and it finds the first root member. Only where the key
is missing does white space behind the object lead it out of the text.
-/

namespace Htsn.Esp32

open CText Json

/-! ### Nested values are skipped -/

inductive Bracket where
  | square
  | brace

def Bracket.opening : Bracket → Char
  | .square => '['
  | .brace => '\x7b'

def Bracket.closing : Bracket → Char
  | .square => ']'
  | .brace => '\x7d'

/-- The loop of `probe_value` over a value that opens with this bracket. -/
abbrev Bracket.skip (b : Bracket) (d : Nat) (p : CStr) : CStr := skipNested b.opening b.closing d p

/-- A text without brackets. -/
def BracketFree (s : CStr) : Prop := ∀ c ∈ s, c ∉ ['[', ']', '\x7b', '\x7d']

theorem bracketFree_append {s t : CStr} (hs : BracketFree s) (ht : BracketFree t) :
    BracketFree (s ++ t) :=
  fun c hc => (List.mem_append.mp hc).elim (hs c) (ht c)

theorem bracketFree_ws (w : Ws) : BracketFree w.chars :=
  fun c hc => forall_isWs (P := fun c => c ∉ ['[', ']', '\x7b', '\x7d']) (by decide) c (w.blank c hc)

theorem bracketFree_word (w : Word) : BracketFree w.chars := by
  intro c hc hmem
  exact (w.clean c hc).2 (by simp only [List.mem_cons, List.not_mem_nil, or_false] at hmem ⊢; tauto)

theorem bracketFree_num (neg : Bool) (n : Nat) : BracketFree (numText neg n) := by
  intro c hc hmem
  have hnot : ∀ d ∈ ['[', ']', '\x7b', '\x7d'], d.isDigit = false ∧ d ≠ '-' := by decide
  exact not_mem_numText (hnot c hmem).1 (hnot c hmem).2 neg n hc

theorem bracketFree_lit (l : Literal) : BracketFree l.text := by
  cases l <;> (unfold BracketFree; decide)

theorem bracketFree_keyText (pre : Ws) (key : Word) (mid post : Ws) {value : CStr}
    (h : BracketFree value) : BracketFree (keyText pre key mid post value) := by
  have hquote : BracketFree ['"'] := by
    unfold BracketFree
    decide
  have hcolon : BracketFree [':'] := by
    unfold BracketFree
    decide
  rw [keyText]
  exact bracketFree_append (bracketFree_ws pre) (bracketFree_append hquote
    (bracketFree_append (bracketFree_word key) (bracketFree_append hquote
      (bracketFree_append (bracketFree_ws mid) (bracketFree_append hcolon
        (bracketFree_append (bracketFree_ws post) h))))))

section

variable (b : Bracket) (d : Nat)

theorem skip_free {seg : CStr} (h : BracketFree seg) (rest : CStr) :
    b.skip (d + 1) (seg ++ rest) = b.skip (d + 1) rest := by
  have hopen : b.opening ∉ seg := fun hmem => h _ hmem (by cases b <;> decide)
  have hclose : b.closing ∉ seg := fun hmem => h _ hmem (by cases b <;> decide)
  exact skipNested_skip hopen hclose d rest

theorem skip_free_cons {c : Char} (hc : c ∉ ['[', ']', '\x7b', '\x7d']) (rest : CStr) :
    b.skip (d + 1) (c :: rest) = b.skip (d + 1) rest :=
  skip_free b d (List.forall_mem_singleton.mpr hc) rest

/-- An array is skipped whole, whichever bracket is counted. -/
theorem skip_square {inner rest : CStr}
    (h : ∀ d, b.skip (d + 1) inner = b.skip (d + 1) (']' :: rest)) :
    b.skip (d + 1) ('[' :: inner) = b.skip (d + 1) rest := by
  cases b with
  | square =>
      have hinner : skipNested '[' ']' (d + 2) inner = skipNested '[' ']' (d + 1) rest :=
        (h (d + 1)).trans (skipNested_close (by decide) (d + 1) rest)
      exact hinner
  | brace =>
      -- the other kind of bracket is a character like any other
      have hpast : '\x7b' ∉ [']'] ∧ '\x7d' ∉ [']'] := by decide
      exact (h d).trans (skipNested_skip hpast.1 hpast.2 d rest)

theorem skip_brace {inner rest : CStr}
    (h : ∀ d, b.skip (d + 1) inner = b.skip (d + 1) ('\x7d' :: rest)) :
    b.skip (d + 1) ('\x7b' :: inner) = b.skip (d + 1) rest := by
  cases b with
  | square =>
      have hpast : '[' ∉ ['\x7d'] ∧ ']' ∉ ['\x7d'] := by decide
      exact (h d).trans (skipNested_skip hpast.1 hpast.2 d rest)
  | brace =>
      have hinner : skipNested '\x7b' '\x7d' (d + 2) inner = skipNested '\x7b' '\x7d' (d + 1) rest :=
        (h (d + 1)).trans (skipNested_close (by decide) (d + 1) rest)
      exact hinner

theorem skip_keyText (pre : Ws) (key : Word) (mid post : Ws) (value : CStr) :
    b.skip (d + 1) (keyText pre key mid post value) = b.skip (d + 1) value := by
  rw [keyText, skip_free b d (bracketFree_ws pre), skip_free_cons b d (by decide),
    skip_free b d (bracketFree_word key), skip_free_cons b d (by decide),
    skip_free b d (bracketFree_ws mid), skip_free_cons b d (by decide),
    skip_free b d (bracketFree_ws post)]

end

mutual

/-- The depth behind a value is that before it. -/
theorem skip_text (b : Bracket) (d : Nat) (t : Tree) (rest : CStr) :
    b.skip (d + 1) (t.text rest) = b.skip (d + 1) rest := by
  match t with
  | .str s =>
      rw [Tree.text, skip_free_cons b d (by decide), skip_free b d (bracketFree_word s),
        skip_free_cons b d (by decide)]
  | .num neg n => exact skip_free b d (bracketFree_num neg n) rest
  | .lit l => exact skip_free b d (bracketFree_lit l) rest
  | .arr pad items =>
      rw [Tree.text_arr]
      exact skip_square b d fun d => skip_elemsText b d pad items rest
  | .obj pad members =>
      rw [Tree.text_obj]
      exact skip_brace b d fun d => skip_pairsText b d pad members rest

theorem skip_elemsText (b : Bracket) (d : Nat) (pad : Ws) (es : Elems) (rest : CStr) :
    b.skip (d + 1) (es.text pad rest) = b.skip (d + 1) (']' :: rest) := by
  match es with
  | .nil => exact skip_free b d (bracketFree_ws pad) _
  | .cons pre v fin more =>
      rw [Elems.text, skip_free b d (bracketFree_ws pre), skip_text b d v,
        skip_free b d (bracketFree_ws fin), skip_elems b d more]

theorem skip_elems (b : Bracket) (d : Nat) (es : Elems) (rest : CStr) :
    b.skip (d + 1) (es.tail rest) = b.skip (d + 1) (']' :: rest) := by
  match es with
  | .nil => rfl
  | .cons pre v fin more =>
      rw [Elems.tail, skip_free_cons b d (by decide), skip_free b d (bracketFree_ws pre),
        skip_text b d v, skip_free b d (bracketFree_ws fin), skip_elems b d more]

theorem skip_pairsText (b : Bracket) (d : Nat) (pad : Ws) (ps : Pairs) (rest : CStr) :
    b.skip (d + 1) (ps.text pad rest) = b.skip (d + 1) ('\x7d' :: rest) := by
  match ps with
  | .nil => exact skip_free b d (bracketFree_ws pad) _
  | .cons pre key mid post v fin more =>
      rw [Pairs.text, skip_keyText, skip_text b d v, skip_free b d (bracketFree_ws fin),
        skip_pairs b d more]

theorem skip_pairs (b : Bracket) (d : Nat) (ps : Pairs) (rest : CStr) :
    b.skip (d + 1) (ps.tail rest) = b.skip (d + 1) ('\x7d' :: rest) := by
  match ps with
  | .nil => rfl
  | .cons pre key mid post v fin more =>
      rw [Pairs.tail, skip_free_cons b d (by decide), skip_keyText, skip_text b d v,
        skip_free b d (bracketFree_ws fin), skip_pairs b d more]

end

theorem skip_close (b : Bracket) (rest : CStr) : b.skip 1 (b.closing :: rest) = rest := by
  have hne : b.closing ≠ b.opening := by cases b <;> decide
  rw [Bracket.skip, skipNested_close hne, skipNested]

/-- Behind a skipped value no quote stands before what follows the member. -/
theorem skipValue_tree (t : Tree) (fin : Ws) {rest : CStr}
    (hrest : ∀ c ∈ rest.head?, c = ',' ∨ c = '\x7d') :
    ∃ seg, '"' ∉ seg ∧ skipValue (t.text (fin.chars ++ rest)) = seg ++ rest := by
  cases t with
  | str s =>
      refine ⟨fin.chars, fin.noQuote, ?_⟩
      simp only [Tree.text, skipValue, if_true, splitQuote_append s.noQuote]
  | num neg n =>
      have hnot : ∀ d : Char, d.isDigit = false → d ≠ '-' → ∀ c ∈ numText neg n, c ≠ d := by
        rintro d hdigit hminus c hc rfl
        exact not_mem_numText hdigit hminus neg n hc
      apply skipValue_scalar fin (numText_ne_nil neg n) _ _ hrest
      · intro c hc
        have hmem := List.mem_of_mem_head? hc
        exact ⟨hnot '"' (by decide) (by decide) c hmem, hnot '\x7b' (by decide) (by decide) c hmem,
          hnot '[' (by decide) (by decide) c hmem⟩
      · intro c hmem
        exact ⟨hnot ',' (by decide) (by decide) c hmem, hnot '\x7d' (by decide) (by decide) c hmem,
          hnot ' ' (by decide) (by decide) c hmem⟩
  | lit l =>
      have hchars : ∀ c ∈ l.text,
          (c ≠ '"' ∧ c ≠ '\x7b' ∧ c ≠ '[') ∧ c ≠ ',' ∧ c ≠ '\x7d' ∧ c ≠ ' ' := by
        cases l <;> decide
      apply skipValue_scalar fin _ _ _ hrest
      · cases l <;> decide
      · exact fun c hc => (hchars c (List.mem_of_mem_head? hc)).1
      · exact fun c hc => (hchars c hc).2
  | arr pad items =>
      have hinner : skipNested '[' ']' 1 (items.text pad (fin.chars ++ rest)) = fin.chars ++ rest :=
        (skip_elemsText .square 0 pad items _).trans (skip_close .square _)
      refine ⟨fin.chars, fin.noQuote, ?_⟩
      rw [Tree.text_arr]
      exact hinner
  | obj pad members =>
      have hinner : skipNested '\x7b' '\x7d' 1 (members.text pad (fin.chars ++ rest)) =
          fin.chars ++ rest :=
        (skip_pairsText .brace 0 pad members _).trans (skip_close .brace _)
      refine ⟨fin.chars, fin.noQuote, ?_⟩
      rw [Tree.text_obj]
      exact hinner

/-! ### The search over the root members -/

/-- One root member: its value when the key matches, and else the search goes
on behind the member. -/
theorem probeValue_keyText (key : CStr) (pre : Ws) (k : Word) (mid post : Ws) (t : Tree) (fin : Ws)
    {rest : CStr} (hne : rest ≠ []) (hrest : ∀ c ∈ rest.head?, c = ',' ∨ c = '\x7d') :
    probeValue (keyText pre k mid post (t.text (fin.chars ++ rest))) key =
      if k.chars = key then .found (t.text (fin.chars ++ rest)) else probeValue rest key := by
  rw [keyText, probeValue_key key pre mid k.noQuote (t.dropWhile_text post (fin.chars ++ rest))]
  obtain ⟨seg, hseg, hskip⟩ := skipValue_tree t fin hrest
  rw [hskip, probeValue_skip hseg hne]

/-- What may stand behind a value in an object. -/
def EndsValue (after : CStr) : Prop := ∀ c ∈ after.head?, isWs c = true ∨ c = ',' ∨ c = '\x7d'

theorem endsValue_member (fin : Ws) (ps : Pairs) (rest : CStr) :
    EndsValue (fin.chars ++ ps.tail rest) :=
  fin.head_append (by decide) fun c hc => Or.inr (ps.tail_head rest c hc)

theorem Pairs.tail_ne_nil (ps : Pairs) (rest : CStr) : ps.tail rest ≠ [] := by
  cases ps <;> exact List.cons_ne_nil _ _

/-- The search behind a member: the first further member with the key, or what
the search behind the object comes back with. -/
theorem probeValue_tail (key : CStr) (rest : CStr) (ps : Pairs) :
    probeValue (ps.tail rest) key =
      match ps.locate key with
      | some (t, fin, more) => .found (t.text (fin.chars ++ more.tail rest))
      | none => probeValue ('\x7d' :: rest) key := by
  match ps with
  | .nil => rfl
  | .cons pre k mid post t fin more =>
      have ih := probeValue_tail key rest more
      have hmember := probeValue_keyText key pre k mid post t fin (Pairs.tail_ne_nil more rest)
        (more.tail_head rest)
      rw [Pairs.tail, probeValue_step (by decide) (by decide), hmember, Pairs.locate]
      by_cases hk : k.chars = key
      · simp only [hk, if_true]
      · simpa only [hk, if_false] using ih

theorem probeValue_pairs (key : CStr) (pad : Ws) (rest : CStr) (ps : Pairs) :
    probeValue (ps.text pad rest) key =
      match ps.locate key with
      | some (t, fin, more) => .found (t.text (fin.chars ++ more.tail rest))
      | none => probeValue ('\x7d' :: rest) key := by
  cases ps with
  | nil => exact probeValue_skip pad.noQuote (List.cons_ne_nil _ _)
  | cons pre k mid post t fin more =>
      have htail := probeValue_tail key rest more
      have hmember := probeValue_keyText key pre k mid post t fin (Pairs.tail_ne_nil more rest)
        (more.tail_head rest)
      rw [Pairs.text, hmember, Pairs.locate]
      by_cases hk : k.chars = key
      · simp only [hk, if_true]
      · simpa only [hk, if_false] using htail

/-- A search comes back with the value it is to find; without one it ends with
the text, or outside it when white space trails. -/
def Finds (text key : CStr) (trail : Ws) (find : Option Tree) : Prop :=
  match find with
  | some t => ∃ after, EndsValue after ∧ probeValue text key = .found (t.text after)
  | none => probeValue text key = if trail.chars = [] then .absent else .overrun

/-- The first member with the key, or what the search behind the members is to
find. -/
theorem finds_of_probe {text key : CStr} {trail : Ws} {ps : Pairs} {rest : CStr}
    {later : Option Tree}
    (htext : probeValue text key =
      match ps.locate key with
      | some (t, fin, more) => .found (t.text (fin.chars ++ more.tail rest))
      | none => probeValue ('\x7d' :: rest) key)
    (hlater : Finds ('\x7d' :: rest) key trail later) :
    Finds text key trail ((ps.find key).or later) := by
  rw [Pairs.find_eq_locate]
  cases hloc : ps.locate key with
  | some found =>
      obtain ⟨t, fin, more⟩ := found
      rw [hloc] at htext
      exact ⟨_, endsValue_member fin more rest, htext⟩
  | none =>
      rw [hloc] at htext
      unfold Finds at hlater ⊢
      rw [show probeValue text key = probeValue ('\x7d' :: rest) key from htext]
      exact hlater

theorem finds_close (key : CStr) (trail : Ws) : Finds ('\x7d' :: trail.chars) key trail none :=
  probeValue_close key trail

theorem probeValue_document (key : CStr) (d : Document) :
    probeValue d.text key =
      match d.members.locate key with
      | some (t, fin, more) => .found (t.text (fin.chars ++ more.tail d.trail.chars))
      | none => probeValue ('\x7d' :: d.trail.chars) key := by
  rw [← probeValue_pairs key d.pad d.trail.chars d.members, Document.text, Tree.text_obj,
    probeValue_skip d.lead.noQuote (List.cons_ne_nil _ _), probeValue_step (by decide) (by decide)]

/-- The search in a whole object. -/
theorem finds_document (key : CStr) (d : Document) : Finds d.text key d.trail (d.members.find key) := by
  have hfinds := finds_of_probe (probeValue_document key d) (finds_close key d.trail)
  rwa [Option.or_none] at hfinds

/-- A reader returns what it makes of the value that is found. -/
theorem Finds.lookup_eq {α : Type} {read : CStr → Option α} {of : Tree → Option α} {text key : CStr}
    {trail : Ws} {find : Option Tree} (h : Finds text key trail find)
    (hread : ∀ t after, EndsValue after → read (t.text after) = of t) :
    lookup read text key =
      if find.isNone ∧ trail.chars ≠ [] then none else some (find.bind of) := by
  cases find with
  | some t =>
      obtain ⟨after, hafter, hfound⟩ := h
      rw [lookup, hfound, if_neg (by simp), Option.bind_some]
      exact congrArg some (hread t after hafter)
  | none =>
      have hprobe : probeValue text key = if trail.chars = [] then .absent else .overrun := h
      rw [lookup, hprobe]
      by_cases hnil : trail.chars = []
      · simp [hnil]
      · simp [hnil]

/-! ### The readers -/

theorem endsValue_not_digit {after : CStr} (h : EndsValue after) :
    ∀ c ∈ after.head?, c.isDigit = false := by
  intro c hc
  rcases h c hc with hws | rfl | rfl
  · exact forall_isWs (P := fun c => c.isDigit = false) (by decide) c hws
  · rfl
  · rfl

theorem readNumber_tree {α : Type} {cap : Nat} (hcap : 0 < cap) (conv : CStr → α) (t : Tree)
    {after : CStr} (hafter : EndsValue after) :
    readNumber cap conv (t.text after) = t.readNumber cap conv := by
  have hnone : ([] : CStr).take cap = [] := List.take_nil
  cases t with
  | str s => rfl
  | lit l => cases l <;> exact if_pos hnone
  | arr pad items =>
      rw [Tree.text_arr]
      exact if_pos hnone
  | obj pad members =>
      rw [Tree.text_obj]
      exact if_pos hnone
  | num neg n =>
      have hhead : (numText neg n ++ after).head? ≠ some '"' :=
        numText_head_ne neg n (by decide) (by decide) after
      have hchars : (numText neg n).take cap ≠ [] := by
        rw [Ne, List.take_eq_nil_iff, not_or]
        exact ⟨by omega, numText_ne_nil neg n⟩
      simp only [Json.readNumber, Tree.text, hhead, if_false,
        signDigits_numText neg n (endsValue_not_digit hafter), hchars, Tree.readNumber]

theorem readStr_tree (sz : Nat) (t : Tree) (after : CStr) :
    readStr sz (t.text after) = t.chars.map (List.take (sz - 1)) := by
  cases t with
  | str s => simp [readStr, Tree.text, splitQuote_append s.noQuote, Tree.chars]
  | num neg n =>
      obtain ⟨c, cs, hnum, hc⟩ := numText_head neg n
      simp [readStr, Tree.text, hnum, hc, Tree.chars]
  | lit l => cases l <;> rfl
  | arr pad items =>
      rw [Tree.text_arr]
      rfl
  | obj pad members =>
      rw [Tree.text_obj]
      rfl

/-- A number of at most 30 digits is read whole. -/
theorem scanInt_copied {neg : Bool} {n : Nat} (h : n < 10 ^ 30) :
    scanInt ((numText neg n).take 31) = some (numVal neg n, []) := by
  have hscan := @scanInt_numText neg n [] (by simp)
  rw [List.append_nil] at hscan
  rw [List.take_of_length_le (numText_length_le (by omega) h), hscan]

theorem atoi_copied {neg : Bool} {n : Nat} (hlo : -(2 ^ 31) ≤ numVal neg n)
    (hhi : numVal neg n < 2 ^ 31) :
    atoi ((numText neg n).take 31) = Int32.ofInt (numVal neg n) := by
  have hn : n < 10 ^ 30 := by
    cases neg <;> simp only [numVal, if_true, Bool.false_eq_true, if_false] at hlo hhi <;> omega
  rw [atoi, scanInt_copied hn]
  show Int32.ofInt (max (-(2 ^ 31)) (min (numVal neg n) (2 ^ 31 - 1))) = _
  congr 1
  omega

theorem atoll_copied {neg : Bool} {n : Nat} (hlo : -(2 ^ 63) ≤ numVal neg n)
    (hhi : numVal neg n < 2 ^ 63) :
    atoll ((numText neg n).take 31) = Int64.ofInt (numVal neg n) := by
  have hn : n < 10 ^ 30 := by
    cases neg <;> simp only [numVal, if_true, Bool.false_eq_true, if_false] at hlo hhi <;> omega
  rw [atoll, strtoll, scanInt_copied hn]
  show Int64.ofInt (clampLong (numVal neg n)) = _
  rw [clampLong_of_mem hlo hhi]

/-! ### The readers on an object -/

/-- A reader comes back, with `v` exactly when `P v`. -/
def Returns {α : Type} (r : Option (Option α)) (P : α → Prop) : Prop :=
  ∃ x, r = some x ∧ ∀ v, x = some v ↔ P v

/-- The readers of numbers and strings tell what the first root member with
the key is; a number has to fit the type asked for. -/
structure LookupsAgree (d : Document) (key : CStr) : Prop where
  int : (∀ v, d.int key = some v → -(2 ^ 31) ≤ v ∧ v < 2 ^ 31) →
    Returns (getInt d.text key) fun v : Int32 => d.int key = some v.toInt
  i64 : (∀ v, d.int key = some v → -(2 ^ 63) ≤ v ∧ v < 2 ^ 63) →
    Returns (getI64 d.text key) fun v : Int64 => d.int key = some v.toInt
  str : ∀ sz, 0 < sz →
    Returns (getStr d.text key sz) fun s => ∃ w : CStr, d.chars key = some w ∧ s = w.take (sz - 1)

theorem lookup_number {α : Type} (conv : CStr → α) {text key : CStr} {trail : Ws}
    {find : Option Tree} (h : Finds text key trail find) :
    lookup (readNumber 31 conv) text key =
      if find.isNone ∧ trail.chars ≠ [] then none else some (find.bind (Tree.readNumber 31 conv)) :=
  h.lookup_eq fun t _ hafter => readNumber_tree (by decide) conv t hafter

/-- A number reader on a number that fits. -/
theorem returns_number {α : Type} {conv : CStr → α} {toInt : α → Int} {lo hi : Int} {d : Document}
    {key : CStr} (hinj : Function.Injective toInt)
    (hconv : ∀ neg n, lo ≤ numVal neg n → numVal neg n < hi →
      toInt (conv ((numText neg n).take 31)) = numVal neg n)
    (hroom : d.members.find key ≠ none ∨ d.trail.chars = [])
    (hfits : ∀ v, d.int key = some v → lo ≤ v ∧ v < hi) :
    Returns (lookup (readNumber 31 conv) d.text key) fun v => d.int key = some (toInt v) := by
  have hinside : ¬ ((d.members.find key).isNone ∧ d.trail.chars ≠ []) := by
    rw [Option.isNone_iff_eq_none]
    tauto
  rw [lookup_number conv (finds_document key d), if_neg hinside]
  refine ⟨_, rfl, fun v => ?_⟩
  rw [Document.int] at hfits ⊢
  cases hfind : d.members.find key with
  | none => simp
  | some t =>
      rw [hfind] at hfits
      cases t with
      | num neg n =>
          obtain ⟨hlo, hhi⟩ := hfits (numVal neg n) rfl
          have hv := hconv neg n hlo hhi
          constructor
          · intro h
            cases h
            exact congrArg some hv.symm
          · intro h
            exact congrArg some (hinj (hv.trans (Option.some.inj h)))
      | str s | lit l | arr pad items | obj pad members => simp [Tree.readNumber, Tree.int]

theorem lookup_str {d : Document} {key : CStr} (sz : Nat) :
    getStr d.text key sz =
      if (d.members.find key).isNone ∧ d.trail.chars ≠ [] then none
      else some ((d.members.find key).bind fun t => t.chars.map (List.take (sz - 1))) :=
  (finds_document key d).lookup_eq fun t after _ => readStr_tree sz t after

/-- A lookup that comes back stayed in the text. -/
theorem LookupsAgree.room {d : Document} {key : CStr} (h : LookupsAgree d key) :
    d.members.find key ≠ none ∨ d.trail.chars = [] := by
  by_contra hnot
  rw [not_or, not_not] at hnot
  obtain ⟨x, hx, -⟩ := h.str 1 (by decide)
  rw [lookup_str, if_pos ⟨Option.isNone_iff_eq_none.mpr hnot.1, hnot.2⟩] at hx
  cases hx

/-- The lookups of a key agree with the root members exactly if the key is
there or the text ends with the closing brace. -/
theorem lookups_agree_iff (d : Document) (key : CStr) :
    LookupsAgree d key ↔ d.members.find key ≠ none ∨ d.trail.chars = [] := by
  refine ⟨LookupsAgree.room, fun hroom => ⟨fun hfits => ?_, fun hfits => ?_, fun sz _ => ?_⟩⟩
  · refine returns_number (fun _ _ => Int32.toInt_inj.mp) (fun neg n hlo hhi => ?_) hroom hfits
    rw [atoi_copied hlo hhi, Int32.toInt_ofInt_of_le hlo hhi]
  · refine returns_number (fun _ _ => Int64.toInt_inj.mp) (fun neg n hlo hhi => ?_) hroom hfits
    rw [atoll_copied hlo hhi, Int64.toInt_ofInt_of_le hlo hhi]
  · have hinside : ¬ ((d.members.find key).isNone ∧ d.trail.chars ≠ []) := by
      rw [Option.isNone_iff_eq_none]
      tauto
    rw [lookup_str, if_neg hinside]
    refine ⟨_, rfl, fun s => ?_⟩
    rw [Document.chars]
    cases d.members.find key with
    | none => simp
    | some t => simp [eq_comm]

theorem isWs_space : ∀ c ∈ [' '], isWs c = true := by decide

/-- An empty object with a space behind it. -/
def spacedEmpty : Document := ⟨.none, .none, .nil, ⟨[' '], isWs_space⟩⟩

theorem spacedEmpty_not_agree : ¬ LookupsAgree spacedEmpty "a".toList :=
  fun h => absurd h.room (by decide)

end Htsn.Esp32
