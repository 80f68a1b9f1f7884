import WirelessTsn.Lib.Fields

/-!
The texts of flat JSON objects: members in any order with any white space, and
values that are strings without quotes, numbers, literals or arrays of
integers. The pieces carry their own well-formedness, so every value of
`Object` has a well-formed text. The results describe where a search for a
quoted key followed by a colon can succeed, also in a text that was cut.
-/

namespace Json

open CText

def isWs (c : Char) : Bool := c == ' ' || c == '\t' || c == '\n' || c == '\r'

/-- White space. -/
structure Ws where
  chars : CStr
  blank : ∀ c ∈ chars, isWs c = true

def Ws.none : Ws := ⟨[], by simp⟩

/-- The content of a string without quotes and control characters. -/
structure Plain where
  chars : CStr
  clean : ∀ c ∈ chars, c ≠ '"' ∧ ' ' ≤ c

def isPlain (c : Char) : Bool := c != '"' && decide (' ' ≤ c)

/-- A text that is written out, checked where it is written. -/
abbrev Plain.lit (s : CStr) (h : s.all isPlain = true := by exact Eq.refl true) : Plain where
  chars := s
  clean := by
    intro c hc
    have hplain := List.all_eq_true.mp h c hc
    simpa [isPlain] using hplain

theorem Plain.noQuote (s : Plain) : '"' ∉ s.chars := fun h => (s.clean _ h).1 rfl

/-- What may follow the integer part of a number. -/
structure NumTail where
  chars : CStr
  numeric : ∀ c ∈ chars, c.isDigit ∨ c ∈ ['.', 'e', 'E', '+', '-']
  head : ∀ c ∈ chars.head?, c ∈ ['.', 'e', 'E']

def NumTail.none : NumTail := ⟨[], by simp, by simp⟩

inductive Literal where
  | true
  | false
  | null

def Literal.text : Literal → CStr
  | .true => "true".toList
  | .false => "false".toList
  | .null => "null".toList

/-- The integer part of a number, with its sign. -/
def numText (neg : Bool) (n : Nat) : CStr :=
  if neg then '-' :: Nat.toDigits 10 n else Nat.toDigits 10 n

def numVal (neg : Bool) (n : Nat) : Int := if neg then -(n : Int) else n

/-- An element of an array of integers, with the white space around it. -/
structure Item where
  pre : Ws
  neg : Bool
  n : Nat
  fin : Ws

def Item.val (i : Item) : Int := numVal i.neg i.n

/-- An element and what follows it. -/
def Item.text (i : Item) (rest : CStr) : CStr :=
  i.pre.chars ++ (numText i.neg i.n ++ (i.fin.chars ++ rest))

/-- What follows an element: the further ones, the closing bracket, `rest`. -/
def itemsTail (rest : CStr) : List Item → CStr
  | [] => ']' :: rest
  | i :: is => ',' :: i.text (itemsTail rest is)

/-- An array behind its opening bracket. -/
def itemsText (pad : Ws) (rest : CStr) : List Item → CStr
  | [] => pad.chars ++ ']' :: rest
  | i :: is => i.text (itemsTail rest is)

inductive Value where
  | str (s : Plain)
  | num (neg : Bool) (n : Nat) (tail : NumTail)
  | lit (l : Literal)
  | ints (pad : Ws) (items : List Item)

/-- A value and what follows it. -/
def Value.text : Value → CStr → CStr
  | .str s, rest => '"' :: (s.chars ++ '"' :: rest)
  | .num neg n tail, rest => numText neg n ++ (tail.chars ++ rest)
  | .lit l, rest => l.text ++ rest
  | .ints pad items, rest => '[' :: itemsText pad rest items

/-- The integer part of a number. -/
def Value.number : Value → Option Int
  | .num neg n _ => some (numVal neg n)
  | _ => none

/-- No array. -/
def Value.isFlat : Value → Bool
  | .ints _ _ => false
  | _ => true

/-- The integer part of a number; zero for other values. -/
def Value.int : Value → Int
  | .num neg n _ => numVal neg n
  | _ => 0

/-- The elements of an array; none for other values. -/
def Value.intList : Value → List Int
  | .ints _ items => items.map Item.val
  | _ => []

structure Member where
  pre : Ws
  key : Plain
  mid : Ws
  post : Ws
  val : Value
  fin : Ws

/-- A member behind its colon, and what follows it. -/
def Member.valueText (m : Member) (rest : CStr) : CStr :=
  m.post.chars ++ m.val.text (m.fin.chars ++ rest)

/-- A member and what follows it. -/
def Member.text (m : Member) (rest : CStr) : CStr :=
  m.pre.chars ++ '"' :: (m.key.chars ++ '"' :: (m.mid.chars ++ ':' :: m.valueText rest))

/-- What follows a member: the further ones, the closing brace, `trail`. -/
def membersTail (trail : CStr) : List Member → CStr
  | [] => '\x7d' :: trail
  | m :: ms => ',' :: m.text (membersTail trail ms)

structure Object where
  lead : Ws
  pad : Ws
  members : List Member
  trail : Ws

/-- An object behind its opening brace. -/
def membersText (pad : Ws) (trail : CStr) : List Member → CStr
  | [] => pad.chars ++ '\x7d' :: trail
  | m :: ms => m.text (membersTail trail ms)

def Object.text (o : Object) : CStr :=
  o.lead.chars ++ '\x7b' :: membersText o.pad o.trail.chars o.members

/-- The first member with the key. -/
def findMember (key : CStr) : List Member → Option Member
  | [] => none
  | m :: ms => if m.key.chars = key then some m else findMember key ms

/-- The integer of a member; a missing one counts as zero. -/
def intOf (m : Option Member) : Int := (m.map fun m => m.val.int).getD 0

/-- The integer of the first member with the key. -/
def scalarOf (o : Object) (key : CStr) : Int := intOf (findMember key o.members)

theorem findMember_mem {key : CStr} {ms : List Member} {m : Member}
    (h : findMember key ms = some m) : m ∈ ms := by
  induction ms with
  | nil => cases h
  | cons x ms ih =>
      rw [findMember] at h
      split at h
      · cases h
        exact List.mem_cons_self
      · exact List.mem_cons_of_mem x (ih h)

/-! ### Characters -/

/-- A property of the four characters of white space. -/
theorem forall_isWs {P : Char → Prop} (h : ∀ c ∈ [' ', '\t', '\n', '\r'], P c) (c : Char)
    (hc : isWs c = true) : P c := by
  apply h c
  simpa [isWs, or_assoc] using hc

theorem isSpace_of_isWs {c : Char} (h : isWs c = true) : isSpace c = true :=
  forall_isWs (P := fun c => isSpace c = true) (by decide) c h

/-- What starts a text holds also behind white space. -/
theorem Ws.head_append (w : Ws) {rest : CStr} {P : Char → Prop}
    (hws : ∀ c ∈ [' ', '\t', '\n', '\r'], P c) (hrest : ∀ c ∈ rest.head?, P c) :
    ∀ c ∈ (w.chars ++ rest).head?, P c := by
  intro c hc
  cases hw : w.chars with
  | nil =>
      rw [hw] at hc
      exact hrest c hc
  | cons x xs =>
      rw [hw] at hc
      cases hc
      exact forall_isWs hws c (w.blank c (by simp [hw]))

theorem numText_ne_nil (neg : Bool) (n : Nat) : numText neg n ≠ [] := by
  cases neg with
  | true => simp [numText]
  | false => simp [numText]

theorem mem_numText {c : Char} {neg : Bool} {n : Nat} (h : c ∈ numText neg n) :
    c = '-' ∨ c.isDigit = true := by
  cases neg with
  | true =>
      rcases List.mem_cons.mp h with rfl | hd
      · exact Or.inl rfl
      · exact Or.inr (toDigits_isDigit n c hd)
  | false => exact Or.inr (toDigits_isDigit n c h)

/-! ### Reading a number -/

theorem numText_eq_showInt {neg : Bool} {n : Nat} (h : ¬ (neg = true ∧ n = 0)) :
    numText neg n = showInt (numVal neg n) := by
  cases neg with
  | true =>
      have hn : n ≠ 0 := fun hn => h ⟨rfl, hn⟩
      rw [showInt, if_pos (by simp only [numVal, if_true]; omega)]
      simp [numText, numVal]
  | false =>
      rw [showInt, if_neg (by simp [numVal])]
      simp [numText, numVal]

theorem scanInt_ws (w : Ws) (s : CStr) : scanInt (w.chars ++ s) = scanInt s := by
  have hdrop : (w.chars ++ s).dropWhile isSpace = s.dropWhile isSpace :=
    List.dropWhile_append_of_pos fun c hc => isSpace_of_isWs (w.blank c hc)
  simp only [scanInt, hdrop]

theorem scanInt_numText (neg : Bool) (n : Nat) {rest : CStr}
    (hrest : ∀ c ∈ rest.head?, c.isDigit = false) :
    scanInt (numText neg n ++ rest) = some (numVal neg n, rest) := by
  by_cases hzero : neg = true ∧ n = 0
  · obtain ⟨rfl, rfl⟩ := hzero
    have hnat := @scanNat_append ['0'] rest (by simp) (by decide) hrest
    have hminus : scanInt ('-' :: (['0'] ++ rest)) = _ := scanInt_minus _
    rw [hnat] at hminus
    exact hminus
  · rw [numText_eq_showInt hzero]
    exact scanInt_showInt _ _ hrest

/-- What is read from a part of a number, if anything, is another number
between it and zero. -/
theorem scanInt_numText_cut {neg : Bool} {n : Nat} {p : CStr} (hp : p <+: numText neg n)
    (hne : p ≠ numText neg n) :
    scanInt p = none ∨ ∃ v, scanInt p = some (v, []) ∧ v ≠ numVal neg n ∧
      min (numVal neg n) 0 ≤ v ∧ v ≤ max (numVal neg n) 0 := by
  by_cases hzero : neg = true ∧ n = 0
  · obtain ⟨rfl, rfl⟩ := hzero
    left
    have htext : numText true 0 = ['-', '0'] := rfl
    rw [htext] at hp hne
    match p, hp, hne with
    | [], _, _ => rfl
    | [c], hp, _ =>
        rw [(List.cons_prefix_cons.mp hp).1]
        rfl
    | [c, d], hp, hne =>
        obtain ⟨rfl, htail⟩ := List.cons_prefix_cons.mp hp
        obtain ⟨rfl, _⟩ := List.cons_prefix_cons.mp htail
        exact absurd rfl hne
    | c :: d :: e :: p, hp, _ => exact absurd hp.length_le (by simp)
  · rw [numText_eq_showInt hzero] at hp hne
    cases hscan : scanInt p with
    | none => exact Or.inl rfl
    | some r =>
        obtain ⟨v, rest⟩ := r
        obtain ⟨rfl, hshow, hmin, hmax⟩ := scanInt_cut hp hscan
        refine Or.inr ⟨v, rfl, ?_, hmin, hmax⟩
        rintro rfl
        exact hne hshow

/-- A number behind white space in a text cut behind it. -/
theorem scanInt_take (w : Ws) (neg : Bool) (n : Nat) {rest : CStr}
    (hrest : ∀ c ∈ rest.head?, c.isDigit = false) {b : Nat}
    (hb : w.chars.length + (numText neg n).length ≤ b) :
    scanInt ((w.chars ++ (numText neg n ++ rest)).take b) =
      some (numVal neg n, rest.take (b - (w.chars.length + (numText neg n).length))) := by
  have hcut : ∀ c ∈ (rest.take (b - (w.chars.length + (numText neg n).length))).head?,
      c.isDigit = false := by
    intro c hc
    cases rest with
    | nil => simp at hc
    | cons x xs =>
        cases hk : b - (w.chars.length + (numText neg n).length) with
        | zero => simp [hk] at hc
        | succ k =>
            rw [hk] at hc
            exact hrest c hc
  rw [List.take_append, List.take_append, List.take_of_length_le (by omega), scanInt_ws,
    List.take_of_length_le (by omega), Nat.sub_sub, scanInt_numText neg n hcut]

/-- A number behind white space in a text cut inside it or before it. -/
theorem scanInt_take_cut (w : Ws) (neg : Bool) (n : Nat) (rest : CStr) {b : Nat}
    (hb : b < w.chars.length + (numText neg n).length) :
    scanInt ((w.chars ++ (numText neg n ++ rest)).take b) = none ∨
      ∃ v, scanInt ((w.chars ++ (numText neg n ++ rest)).take b) = some (v, []) ∧
        v ≠ numVal neg n ∧ min (numVal neg n) 0 ≤ v ∧ v ≤ max (numVal neg n) 0 := by
  have hpart : (w.chars ++ (numText neg n ++ rest)).take b =
      w.chars.take b ++ (numText neg n).take (b - w.chars.length) := by
    rw [List.take_append, List.take_append_of_le_length (by omega)]
  have hws : scanInt (w.chars.take b ++ (numText neg n).take (b - w.chars.length)) =
      scanInt ((numText neg n).take (b - w.chars.length)) :=
    scanInt_ws ⟨w.chars.take b, fun c hc => w.blank c (List.mem_of_mem_take hc)⟩ _
  rw [hpart, hws]
  apply scanInt_numText_cut (List.take_prefix _ _)
  intro heq
  have hlen := congrArg List.length heq
  have hpos : 0 < (numText neg n).length := List.length_pos_iff.mpr (numText_ne_nil neg n)
  rw [List.length_take] at hlen
  omega

/-! ### Texts without white space -/

def Member.compact (key : Plain) (val : Value) : Member := ⟨.none, key, .none, .none, val, .none⟩

/-- An integer as it is printed. -/
def Value.ofInt (v : Int) : Value := .num (decide (v < 0)) v.natAbs .none

theorem Value.text_ofInt (v : Int) (rest : CStr) : (Value.ofInt v).text rest = showInt v ++ rest := by
  have hnum : numText (decide (v < 0)) v.natAbs = showInt v := by
    by_cases hneg : v < 0
    · simp [numText, showInt, hneg]
    · simp [numText, showInt, hneg]
  rw [Value.ofInt, Value.text, hnum]
  rfl

/-! ### Searching for a key -/

/-- A quoted key followed by a colon. -/
def keyPat (key : CStr) : CStr := '"' :: (key ++ ['"', ':'])

theorem strstr_skip {pat seg rest : CStr} (h : '"' ∉ seg) (n : Nat) :
    strstr ('"' :: pat) ((seg ++ rest).take n) = strstr ('"' :: pat) (rest.take (n - seg.length)) := by
  induction seg generalizing n with
  | nil => simp
  | cons c seg ih =>
      have hc : c ≠ '"' := fun heq => h (by simp [heq])
      have hseg : '"' ∉ seg := fun hmem => h (by simp [hmem])
      cases n with
      | zero => simp
      | succ n =>
          have hno : List.isPrefixOf ('"' :: pat) (c :: (seg ++ rest).take n) = false := by
            simp [List.isPrefixOf, hc.symm]
          rw [List.cons_append, List.take_succ_cons, strstr, hno, if_neg Bool.false_ne_true, ih hseg,
            List.length_cons, Nat.add_sub_add_right]

theorem strstr_quote_neg {pat r : CStr} (h : ¬ pat <+: r) (n : Nat) :
    strstr ('"' :: pat) (('"' :: r).take n) = strstr ('"' :: pat) (r.take (n - 1)) := by
  cases n with
  | zero => simp
  | succ n =>
      have hno : List.isPrefixOf ('"' :: pat) ('"' :: r.take n) = false := by
        rw [← Bool.not_eq_true, List.isPrefixOf_iff_prefix, List.cons_prefix_cons]
        exact fun hpre => h (hpre.2.trans (List.take_prefix n r))
      rw [List.take_succ_cons, strstr, hno, if_neg Bool.false_ne_true, Nat.add_sub_cancel]

theorem strstr_quote_pos {pat r : CStr} (h : pat <+: r) {n : Nat} (hn : pat.length < n) :
    strstr ('"' :: pat) (('"' :: r).take n) = some (('"' :: r).take n) := by
  cases n with
  | zero => omega
  | succ n =>
      have hyes : List.isPrefixOf ('"' :: pat) ('"' :: r.take n) = true := by
        rw [List.isPrefixOf_iff_prefix, List.cons_prefix_cons]
        refine ⟨rfl, ?_⟩
        rw [List.prefix_take_iff]
        exact ⟨h, by omega⟩
      rw [List.take_succ_cons, strstr, hyes, if_pos rfl]

/-- A text shorter than the pattern does not hold it. -/
theorem strstr_short {pat s : CStr} (h : s.length < pat.length) : strstr pat s = none := by
  induction s with
  | nil =>
      have hne : pat ≠ [] := by
        rintro rfl
        simp at h
      simp [strstr, hne]
  | cons c s ih =>
      have hno : pat.isPrefixOf (c :: s) = false := by
        rw [← Bool.not_eq_true, List.isPrefixOf_iff_prefix]
        exact fun hpre => absurd hpre.length_le (by omega)
      rw [strstr, hno, if_neg Bool.false_ne_true]
      exact ih (by simp only [List.length_cons] at h; omega)

/-- Two quoted texts agree only as a whole. -/
theorem quoted_prefix {a b t r : CStr} (ha : '"' ∉ a) (hb : '"' ∉ b)
    (h : a ++ '"' :: t <+: b ++ '"' :: r) : a = b ∧ t <+: r := by
  induction a generalizing b with
  | nil =>
      cases b with
      | nil => exact ⟨rfl, (List.cons_prefix_cons.mp h).2⟩
      | cons c b =>
          have hc := (List.cons_prefix_cons.mp h).1
          exact absurd (hc ▸ List.mem_cons_self) hb
  | cons x a ih =>
      cases b with
      | nil =>
          have hx := (List.cons_prefix_cons.mp h).1
          exact absurd (hx ▸ List.mem_cons_self) ha
      | cons c b =>
          obtain ⟨rfl, htail⟩ := List.cons_prefix_cons.mp h
          obtain ⟨rfl, ht⟩ := ih (fun hm => ha (by simp [hm])) (fun hm => hb (by simp [hm])) htail
          exact ⟨rfl, ht⟩

/-- A key starts with a letter and has no quote. -/
structure IsKey (key : CStr) : Prop where
  noQuote : '"' ∉ key
  alpha : ∃ c, key.head? = some c ∧ c.isAlpha = true

theorem IsKey.not_prefix {key t r : CStr} (h : IsKey key)
    (hr : ∀ c ∈ r.head?, c.isAlpha = false) : ¬ key ++ t <+: r := by
  obtain ⟨c, hc, halpha⟩ := h.alpha
  cases key with
  | nil => cases hc
  | cons x key =>
      simp only [List.head?_cons, Option.some.injEq] at hc
      subst hc
      cases r with
      | nil => simp
      | cons y r =>
          intro hpre
          obtain ⟨rfl, _⟩ := List.cons_prefix_cons.mp hpre
          rw [hr x (by simp)] at halpha
          cases halpha

/-! ### Texts in pieces -/

theorem Item.text_append (i : Item) (rest : CStr) : i.text rest = i.text [] ++ rest := by
  simp [Item.text]

theorem itemsTail_append (rest : CStr) (is : List Item) :
    itemsTail rest is = itemsTail [] is ++ rest := by
  induction is with
  | nil => rfl
  | cons i is ih =>
      rw [itemsTail, itemsTail, Item.text_append, ih, Item.text_append i (itemsTail [] is)]
      simp

theorem itemsText_append (pad : Ws) (rest : CStr) (is : List Item) :
    itemsText pad rest is = itemsText pad [] is ++ rest := by
  cases is with
  | nil => simp [itemsText]
  | cons i is =>
      rw [itemsText, itemsText, Item.text_append, itemsTail_append,
        Item.text_append i (itemsTail [] is)]
      simp

theorem Value.text_append (v : Value) (rest : CStr) : v.text rest = v.text [] ++ rest := by
  cases v with
  | str s => simp [Value.text]
  | num neg n tail => simp [Value.text]
  | lit l => simp [Value.text]
  | ints pad items =>
      rw [Value.text, Value.text, itemsText_append, List.cons_append]

theorem Member.text_append (m : Member) (rest : CStr) : m.text rest = m.text [] ++ rest := by
  have hval := m.val.text_append (m.fin.chars ++ rest)
  have hval' := m.val.text_append m.fin.chars
  simp [Member.text, Member.valueText, hval, hval']

/-- The length of a member. -/
def Member.size (m : Member) : Nat := (m.text []).length

/-- Where a member's value starts, behind the colon. -/
def Member.valueAt (m : Member) : Nat :=
  m.pre.chars.length + m.key.chars.length + m.mid.chars.length + 3

theorem Ws.not_mem (w : Ws) {c : Char} (hc : isWs c = false) : c ∉ w.chars := by
  intro hmem
  rw [w.blank c hmem] at hc
  cases hc

theorem Ws.noQuote (w : Ws) : '"' ∉ w.chars := w.not_mem (by decide)

theorem not_mem_numText {c : Char} (hdigit : c.isDigit = false) (hminus : c ≠ '-') (neg : Bool)
    (n : Nat) : c ∉ numText neg n := by
  intro h
  rcases mem_numText h with rfl | hd
  · exact hminus rfl
  · rw [hd] at hdigit
    cases hdigit

theorem Item.noQuote (i : Item) {rest : CStr} (h : '"' ∉ rest) : '"' ∉ i.text rest := by
  simp only [Item.text, List.mem_append, not_or]
  exact ⟨i.pre.noQuote, not_mem_numText (by decide) (by decide) _ _, i.fin.noQuote, h⟩

theorem itemsTail_noQuote (is : List Item) : '"' ∉ itemsTail [] is := by
  induction is with
  | nil => decide
  | cons i is ih =>
      rw [itemsTail, List.mem_cons, not_or]
      exact ⟨by decide, i.noQuote ih⟩

theorem itemsText_noQuote (pad : Ws) (is : List Item) : '"' ∉ itemsText pad [] is := by
  cases is with
  | nil =>
      rw [itemsText, List.mem_append, not_or]
      exact ⟨pad.noQuote, by decide⟩
  | cons i is => exact i.noQuote (itemsTail_noQuote is)

theorem NumTail.noQuote (t : NumTail) : '"' ∉ t.chars := by
  intro h
  exact absurd (t.numeric _ h) (by decide)

/-- What may stand behind a value: it starts with no letter and no colon. -/
def AfterValue (rest : CStr) : Prop :=
  ∀ c ∈ rest.head?, c.isAlpha = false ∧ c ≠ ':'

theorem AfterValue.ws_append {rest : CStr} (h : AfterValue rest) (w : Ws) :
    AfterValue (w.chars ++ rest) :=
  w.head_append (by decide) h

theorem membersTail_head (trail : CStr) (ms : List Member) :
    ∀ c ∈ (membersTail trail ms).head?, c = ',' ∨ c = '\x7d' := by
  intro c hc
  cases ms with
  | nil =>
      cases hc
      exact Or.inr rfl
  | cons m ms =>
      cases hc
      exact Or.inl rfl

/-- What stands behind a member's value does not start with a digit. -/
theorem afterValue_not_digit (w : Ws) (trail : CStr) (ms : List Member) :
    ∀ c ∈ (w.chars ++ membersTail trail ms).head?, c.isDigit = false := by
  refine w.head_append (by decide) fun c hc => ?_
  rcases membersTail_head trail ms c hc with rfl | rfl <;> decide

/-- Neither does what stands behind the integer part of a number. -/
theorem NumTail.not_digit (tail : NumTail) (w : Ws) (trail : CStr) (ms : List Member) :
    ∀ c ∈ (tail.chars ++ (w.chars ++ membersTail trail ms)).head?, c.isDigit = false := by
  intro c hc
  cases htail : tail.chars with
  | nil =>
      rw [htail] at hc
      exact afterValue_not_digit w trail ms c hc
  | cons t ts =>
      rw [htail] at hc
      cases hc
      have hmem := tail.head c (by simp [htail])
      simp only [List.mem_cons, List.not_mem_nil, or_false] at hmem
      rcases hmem with rfl | rfl | rfl <;> decide

/-- The characters of a number. -/
theorem mem_number {neg : Bool} {n : Nat} {tail : NumTail} {c : Char}
    (h : c ∈ numText neg n ++ tail.chars) :
    c.isDigit = true ∨ c ∈ ['.', 'e', 'E', '+', '-'] := by
  rcases List.mem_append.mp h with hnum | htail
  · rcases mem_numText hnum with rfl | hdigit
    · exact Or.inr (by decide)
    · exact Or.inl hdigit
  · exact tail.numeric c htail

theorem afterValue_membersTail (trail : CStr) (ms : List Member) :
    AfterValue (membersTail trail ms) := by
  intro c hc
  rcases membersTail_head trail ms c hc with rfl | rfl <;> decide

/-! ### A search passes over every member but the one it is for -/

section

variable {key : CStr}

theorem strstr_value (hkey : IsKey key) (v : Value) {rest : CStr} (hrest : AfterValue rest) (n : Nat) :
    strstr (keyPat key) ((v.text rest).take n) =
      strstr (keyPat key) (rest.take (n - (v.text []).length)) := by
  have hplain : '"' ∉ v.text [] → strstr (keyPat key) ((v.text rest).take n) =
      strstr (keyPat key) (rest.take (n - (v.text []).length)) := by
    intro h
    rw [v.text_append]
    exact strstr_skip h n
  cases v with
  | str s =>
      have hopen : ¬ key ++ ['"', ':'] <+: s.chars ++ '"' :: rest := by
        intro h
        obtain ⟨_, hcolon⟩ := quoted_prefix hkey.noQuote s.noQuote h
        cases rest with
        | nil => simp at hcolon
        | cons c rest =>
            have hc := (List.cons_prefix_cons.mp hcolon).1
            exact (hrest c (by simp)).2 hc.symm
      have hclose : ¬ key ++ ['"', ':'] <+: rest := hkey.not_prefix fun c hc => (hrest c hc).1
      rw [Value.text, keyPat, strstr_quote_neg hopen, strstr_skip s.noQuote, strstr_quote_neg hclose]
      simp only [Value.text, List.length_cons, List.length_append, List.length_nil]
      rw [Nat.sub_sub, Nat.sub_sub]
      congr 2
      omega
  | num neg num tail =>
      apply hplain
      simp only [Value.text, List.append_nil, List.mem_append, not_or]
      exact ⟨not_mem_numText (by decide) (by decide) _ _, tail.noQuote⟩
  | lit l =>
      apply hplain
      cases l <;> decide
  | ints pad items =>
      apply hplain
      rw [Value.text, List.mem_cons, not_or]
      exact ⟨by decide, itemsText_noQuote pad items⟩

/-- The colon of a member and the white space around it. -/
theorem strstr_colon (m : Member) (rest : CStr) (n : Nat) :
    strstr (keyPat key) ((m.mid.chars ++ ':' :: (m.post.chars ++ rest)).take n) =
      strstr (keyPat key)
        (rest.take (n - (m.mid.chars.length + 1 + m.post.chars.length))) := by
  have hpieces : m.mid.chars ++ ':' :: (m.post.chars ++ rest) =
      (m.mid.chars ++ ':' :: m.post.chars) ++ rest := by simp
  rw [hpieces, keyPat, strstr_skip]
  · congr 2
    simp only [List.length_append, List.length_cons]
    omega
  · simp only [List.mem_append, List.mem_cons, not_or]
    exact ⟨m.mid.noQuote, by decide, m.post.noQuote⟩

theorem strstr_member (hkey : IsKey key) {m : Member} {rest : CStr} (hrest : AfterValue rest)
    (hm : ¬ (m.key.chars = key ∧ m.mid.chars = [])) (n : Nat) :
    strstr (keyPat key) ((m.text rest).take n) =
      strstr (keyPat key) (rest.take (n - m.size)) := by
  have hopen : ¬ key ++ ['"', ':'] <+:
      m.key.chars ++ '"' :: (m.mid.chars ++ ':' :: m.valueText rest) := by
    intro h
    obtain ⟨hsame, hcolon⟩ := quoted_prefix hkey.noQuote m.key.noQuote h
    refine hm ⟨hsame.symm, ?_⟩
    cases hmid : m.mid.chars with
    | nil => rfl
    | cons c cs =>
        rw [hmid] at hcolon
        have hc := (List.cons_prefix_cons.mp hcolon).1
        have hws := m.mid.blank c (by simp [hmid])
        rw [← hc] at hws
        exact absurd hws (by decide)
  have hclose : ¬ key ++ ['"', ':'] <+: m.mid.chars ++ ':' :: m.valueText rest := by
    apply hkey.not_prefix
    exact m.mid.head_append (by decide) (by simp)
  rw [Member.text, keyPat, strstr_skip m.pre.noQuote, strstr_quote_neg hopen,
    strstr_skip m.key.noQuote, strstr_quote_neg hclose, ← keyPat, Member.valueText, strstr_colon,
    strstr_value hkey m.val (hrest.ws_append m.fin), keyPat, strstr_skip m.fin.noQuote]
  congr 2
  have hval := m.val.text_append (m.fin.chars ++ [])
  simp only [Member.size, Member.text, Member.valueText, hval, List.length_append, List.length_cons,
    List.length_nil]
  omega

/-- The member the search is for, when its key stands directly before the
colon and the text is not cut before that. -/
theorem strstr_member_found {m : Member} {rest : CStr} (hsame : m.key.chars = key)
    (hmid : m.mid.chars = []) {n : Nat} (hn : m.valueAt ≤ n) :
    strstr (keyPat key) ((m.text rest).take n) =
      some (keyPat key ++ (m.valueText rest).take (n - m.valueAt)) := by
  have htext : m.text rest = m.pre.chars ++ '"' :: (key ++ '"' :: ':' :: m.valueText rest) := by
    rw [Member.text, hmid, hsame]
    rfl
  have hpre : key ++ ['"', ':'] <+: key ++ '"' :: ':' :: m.valueText rest :=
    ⟨m.valueText rest, by simp⟩
  have hat : m.valueAt = m.pre.chars.length + (keyPat key).length := by
    simp only [Member.valueAt, hmid, hsame, keyPat, List.length_cons, List.length_append,
      List.length_nil]
    omega
  have hpieces : '"' :: (key ++ '"' :: ':' :: m.valueText rest) =
      keyPat key ++ m.valueText rest := by
    simp [keyPat]
  have hlong : (key ++ ['"', ':']).length < n - m.pre.chars.length := by
    simp only [keyPat, List.length_cons] at hat
    omega
  rw [htext, keyPat, strstr_skip m.pre.noQuote, strstr_quote_pos hpre hlong, ← keyPat, hpieces,
    List.take_append]
  congr 2
  · exact List.take_of_length_le (by omega)
  · congr 1
    omega

/-- The member the search is for, cut before its value. -/
theorem strstr_member_cut {m : Member} {rest : CStr} {n : Nat}
    (hsame : m.key.chars = key) (hmid : m.mid.chars = []) (hn : n < m.valueAt) :
    strstr (keyPat key) ((m.text rest).take n) = none := by
  have hat : m.valueAt = m.pre.chars.length + (keyPat key).length := by
    simp only [Member.valueAt, hmid, hsame, keyPat, List.length_cons, List.length_append,
      List.length_nil]
    omega
  rw [Member.text, keyPat, strstr_skip m.pre.noQuote, ← keyPat]
  apply strstr_short
  rw [List.length_take]
  have hpos : 0 < (keyPat key).length := by simp [keyPat]
  omega

end

/-! ### Where a member stands -/

/-- The first member with the key: the place where it starts, the member, and
those behind it. `off` is where the first of the list starts. -/
def locate (key : CStr) : Nat → List Member → Option (Nat × Member × List Member)
  | _, [] => none
  | off, m :: ms => if m.key.chars = key then some (off, m, ms) else locate key (off + m.size + 1) ms

def Object.locate (o : Object) (key : CStr) : Option (Nat × Member × List Member) :=
  Json.locate key (o.lead.chars.length + 1) o.members

/-- No two members have one key. -/
def Distinct (ms : List Member) : Prop := (ms.map fun m => m.key.chars).Nodup

/-- The member that is located is the one that is found. -/
theorem findMember_eq_locate (key : CStr) (off : Nat) (ms : List Member) :
    findMember key ms = (locate key off ms).map fun l => l.2.1 := by
  induction ms generalizing off with
  | nil => rfl
  | cons m ms ih =>
      by_cases h : m.key.chars = key
      · simp [findMember, locate, h]
      · simpa [findMember, locate, h] using ih _

section

variable {key : CStr}

theorem strstr_noQuote {s : CStr} (h : '"' ∉ s) (n : Nat) : strstr (keyPat key) (s.take n) = none := by
  have hskip := @strstr_skip (key ++ ['"', ':']) _ [] h n
  rw [List.append_nil, List.take_nil] at hskip
  rw [keyPat, hskip]
  simp [strstr]

theorem strstr_membersTail_absent (hkey : IsKey key) (trail : Ws) {ms : List Member}
    (h : ∀ m ∈ ms, m.key.chars ≠ key) (n : Nat) :
    strstr (keyPat key) ((membersTail trail.chars ms).take n) = none := by
  induction ms generalizing n with
  | nil =>
      apply strstr_noQuote
      rw [membersTail, List.mem_cons, not_or]
      exact ⟨by decide, trail.noQuote⟩
  | cons m ms ih =>
      have hm : ¬ (m.key.chars = key ∧ m.mid.chars = []) := fun hboth =>
        h m List.mem_cons_self hboth.1
      have hcomma := @strstr_skip (key ++ ['"', ':']) [',']
        (m.text (membersTail trail.chars ms)) (by decide) n
      rw [membersTail, ← List.singleton_append, keyPat, hcomma, ← keyPat,
        strstr_member hkey (afterValue_membersTail _ _) hm]
      exact ih (fun m' hm' => h m' (List.mem_cons_of_mem _ hm')) _

/-- What a search for a key yields in a text cut after `n` characters. -/
def searched (trail : Ws) (n : Nat) : Option (Nat × Member × List Member) → Option CStr
  | none => none
  | some (off, m, ms) =>
      if m.mid.chars = [] ∧ off + m.valueAt ≤ n then
        some ((m.valueText (membersTail trail.chars ms)).take (n - (off + m.valueAt)))
      else none

/-- The search meets the first member with the key. -/
theorem strstr_members_here (hkey : IsKey key) (trail : Ws) (off : Nat) {m : Member}
    {ms : List Member} (hsame : m.key.chars = key) (hlater : ∀ m' ∈ ms, m'.key.chars ≠ key)
    (n : Nat) :
    strstr (keyPat key) ((m.text (membersTail trail.chars ms)).take (n - off)) =
      (searched trail n (some (off, m, ms))).map (keyPat key ++ ·) := by
  have hpos : 0 < m.valueAt := by
    rw [Member.valueAt]
    omega
  by_cases hmid : m.mid.chars = []
  · by_cases hfits : off + m.valueAt ≤ n
    · have hleft : n - off - m.valueAt = n - (off + m.valueAt) := by omega
      rw [strstr_member_found hsame hmid (by omega), searched, if_pos ⟨hmid, hfits⟩, hleft]
      rfl
    · rw [strstr_member_cut hsame hmid (by omega), searched, if_neg fun h => hfits h.2]
      rfl
  · rw [strstr_member hkey (afterValue_membersTail _ _) fun h => hmid h.2,
      strstr_membersTail_absent hkey trail hlater, searched, if_neg fun h => hmid h.1]
    rfl

theorem strstr_members (hkey : IsKey key) (trail : Ws) (off : Nat) {m : Member} {ms : List Member}
    (hdist : Distinct (m :: ms)) (n : Nat) :
    strstr (keyPat key) ((m.text (membersTail trail.chars ms)).take (n - off)) =
      (searched trail n (locate key off (m :: ms))).map (keyPat key ++ ·) := by
  induction ms generalizing m off with
  | nil =>
      rw [locate]
      split
      · rename_i hsame
        exact strstr_members_here hkey trail off hsame (by simp) n
      · rename_i hother
        rw [strstr_member hkey (afterValue_membersTail _ _) fun h => hother h.1,
          strstr_membersTail_absent hkey trail (by simp)]
        rfl
  | cons m' ms ih =>
      rw [locate]
      have hrest : Distinct (m' :: ms) := (List.nodup_cons.mp hdist).2
      split
      · rename_i hsame
        refine strstr_members_here hkey trail off hsame (fun x hx heq => ?_) n
        apply (List.nodup_cons.mp hdist).1
        exact List.mem_map.mpr ⟨x, hx, heq.trans hsame.symm⟩
      · rename_i hother
        have hcomma := @strstr_skip (key ++ ['"', ':']) [',']
          (m'.text (membersTail trail.chars ms)) (by decide) (n - off - m.size)
        have hleft : n - off - m.size - [','].length = n - (off + m.size + 1) := by
          simp only [List.length_cons, List.length_nil]
          omega
        rw [strstr_member hkey (afterValue_membersTail _ _) fun h => hother h.1, membersTail,
          ← List.singleton_append, keyPat, hcomma, ← keyPat, hleft]
        exact ih (off + m.size + 1) hrest

/-- A search for a key in the text of an object, cut after `n` characters. -/
theorem strstr_object (hkey : IsKey key) {o : Object} (hdist : Distinct o.members) (n : Nat) :
    strstr (keyPat key) (o.text.take n) =
      (searched o.trail n (o.locate key)).map (keyPat key ++ ·) := by
  have hlead : '"' ∉ o.lead.chars ++ ['\x7b'] := by
    rw [List.mem_append, not_or]
    exact ⟨o.lead.noQuote, by decide⟩
  have htext : o.text = (o.lead.chars ++ ['\x7b']) ++ membersText o.pad o.trail.chars o.members := by
    simp [Object.text]
  have hskip := @strstr_skip (key ++ ['"', ':']) _
    (membersText o.pad o.trail.chars o.members) hlead n
  rw [htext, keyPat, hskip, ← keyPat, Object.locate]
  cases hms : o.members with
  | nil =>
      apply strstr_noQuote
      rw [membersText, List.mem_append, List.mem_cons, not_or, not_or]
      exact ⟨o.pad.noQuote, by decide, o.trail.noQuote⟩
  | cons m ms =>
      rw [hms] at hdist
      have hmembers := strstr_members hkey o.trail (o.lead.chars.length + 1) hdist n
      rw [membersText, List.length_append, List.length_singleton]
      exact hmembers

end

theorem findMember_of_locate {o : Object} {key : CStr} {off : Nat} {m : Member}
    {later : List Member} (hloc : o.locate key = some (off, m, later)) :
    findMember key o.members = some m := by
  have hfound := findMember_eq_locate key (o.lead.chars.length + 1) o.members
  rw [Object.locate] at hloc
  rw [hloc] at hfound
  exact hfound

theorem findMember_of_locate_none {o : Object} {key : CStr} (hloc : o.locate key = none) :
    findMember key o.members = none := by
  have hfound := findMember_eq_locate key (o.lead.chars.length + 1) o.members
  rw [Object.locate] at hloc
  rw [hloc] at hfound
  exact hfound

/-! ### Reading a value -/

theorem Ws.dropWhile_append (w : Ws) {s : CStr} (hs : ∀ c ∈ s.head?, isWs c = false) :
    (w.chars ++ s).dropWhile isWs = s := by
  rw [List.dropWhile_append_of_pos w.blank]
  cases s with
  | nil => rfl
  | cons c s => rw [List.dropWhile_cons_of_neg (by simp [hs c rfl])]

/-- A value does not start with white space. -/
theorem Value.head_not_ws (v : Value) (rest : CStr) : ∀ c ∈ (v.text rest).head?, isWs c = false := by
  intro c hc
  cases v with
  | str s =>
      cases hc
      rfl
  | lit l =>
      cases l <;> cases hc <;> rfl
  | ints pad items =>
      cases hc
      rfl
  | num neg n tail =>
      obtain ⟨d, ds, hnum⟩ := List.exists_cons_of_ne_nil (numText_ne_nil neg n)
      have hd : d = '-' ∨ d.isDigit = true := mem_numText (by rw [hnum]; exact List.mem_cons_self)
      rw [Value.text, hnum] at hc
      cases hc
      rcases hd with rfl | hdigit
      · rfl
      · cases hws : isWs c with
        | false => rfl
        | true =>
            rw [forall_isWs (P := fun c => c.isDigit = false) (by decide) c hws] at hdigit
            cases hdigit

theorem Member.dropWhile_valueText (m : Member) (rest : CStr) :
    (m.valueText rest).dropWhile isWs = m.val.text (m.fin.chars ++ rest) :=
  m.post.dropWhile_append (m.val.head_not_ws _)

/-- The text up to the first quote and the text behind it. -/
def splitQuote (s : CStr) : Option (CStr × CStr) :=
  match s.dropWhile (· != '"') with
  | [] => none
  | _ :: rest => some (s.takeWhile (· != '"'), rest)

theorem splitQuote_length {s k rest : CStr} (h : splitQuote s = some (k, rest)) :
    rest.length < s.length := by
  have hle : (s.dropWhile (· != '"')).length ≤ s.length := (List.dropWhile_sublist _).length_le
  rw [splitQuote] at h
  split at h
  · cases h
  · rename_i c rest' heq
    cases h
    rw [heq, List.length_cons] at hle
    omega

theorem splitQuote_append {k rest : CStr} (hk : '"' ∉ k) :
    splitQuote (k ++ '"' :: rest) = some (k, rest) := by
  have hne : ∀ c ∈ k, (c != '"') = true := by
    intro c hc
    rw [bne_iff_ne]
    rintro rfl
    exact hk hc
  rw [splitQuote, List.dropWhile_append_of_pos hne, List.takeWhile_append_of_pos hne]
  simp

/-- A minus sign, if there is one, and the digits. -/
def signDigits (v : CStr) : CStr :=
  match v with
  | [] => []
  | c :: v' => if c = '-' then c :: v'.takeWhile Char.isDigit else v.takeWhile Char.isDigit

/-- A number copied into a buffer of `cap` characters and converted there; a
string is no number. -/
def readNumber {α : Type} (cap : Nat) (conv : CStr → α) (v : CStr) : Option α :=
  if v.head? = some '"' then none
  else if (signDigits v).take cap = [] then none
  else some (conv ((signDigits v).take cap))

/-- A string copied into a buffer of `sz` bytes. -/
def readStr (sz : Nat) (v : CStr) : Option CStr :=
  match v with
  | [] => none
  | c :: s => if c ≠ '"' then none else (splitQuote s).map fun e => e.1.take (sz - 1)

theorem numText_head (neg : Bool) (n : Nat) : ∃ c cs, numText neg n = c :: cs ∧ c ≠ '"' := by
  obtain ⟨c, cs, hnum⟩ := List.exists_cons_of_ne_nil (numText_ne_nil neg n)
  refine ⟨c, cs, hnum, ?_⟩
  rintro rfl
  exact not_mem_numText (by decide) (by decide) neg n
    (show '"' ∈ numText neg n by rw [hnum]; exact List.mem_cons_self)

theorem signDigits_numText (neg : Bool) (n : Nat) {rest : CStr}
    (hrest : ∀ c ∈ rest.head?, c.isDigit = false) :
    signDigits (numText neg n ++ rest) = numText neg n := by
  have hdigits : (Nat.toDigits 10 n ++ rest).takeWhile Char.isDigit = Nat.toDigits 10 n := by
    rw [List.takeWhile_append_of_pos (toDigits_isDigit n)]
    cases rest with
    | nil => simp
    | cons c rest => rw [List.takeWhile_cons_of_neg (by simp [hrest c rfl]), List.append_nil]
  cases neg with
  | true => simp only [numText, if_true, List.cons_append, signDigits, hdigits]
  | false =>
      simp only [numText, Bool.false_eq_true, if_false]
      cases hd : Nat.toDigits 10 n with
      | nil => exact absurd hd (by simp)
      | cons d ds =>
          have hminus : d ≠ '-' := by
            rintro rfl
            exact absurd (toDigits_isDigit n '-' (by rw [hd]; exact List.mem_cons_self)) (by decide)
          rw [hd] at hdigits
          simp only [List.cons_append, signDigits, hminus, if_false] at hdigits ⊢
          exact hdigits

/-- Of a member's value the integer part of a number is read. -/
def Value.readNumber {α : Type} (cap : Nat) (conv : CStr → α) : Value → Option α
  | .num neg n _ => some (conv ((numText neg n).take cap))
  | _ => none

theorem readNumber_value {α : Type} {cap : Nat} (hcap : 0 < cap) (conv : CStr → α) (v : Value)
    (fin : Ws) (trail : CStr) (later : List Member) :
    readNumber cap conv (v.text (fin.chars ++ membersTail trail later)) = v.readNumber cap conv := by
  have hnone : ([] : CStr).take cap = [] := by simp
  cases v with
  | str s => rfl
  | lit l => cases l <;> exact if_pos hnone
  | ints pad items => exact if_pos hnone
  | num neg n tail =>
      obtain ⟨d, ds, hnum, hd⟩ := numText_head neg n
      have hhead : (numText neg n ++
          (tail.chars ++ (fin.chars ++ membersTail trail later))).head? ≠ some '"' := by
        rw [hnum]
        simpa using hd
      have hchars : (numText neg n).take cap ≠ [] := by
        rw [hnum, Ne, List.take_eq_nil_iff]
        simp only [List.cons_ne_nil, or_false]
        omega
      simp only [Json.readNumber, Value.text, hhead, if_false,
        signDigits_numText neg n (tail.not_digit fin trail later), hchars, Value.readNumber]

/-! ### Objects without white space -/

def compactMembers (ms : List (Plain × Value)) : List Member := ms.map fun m => .compact m.1 m.2

/-- An object without white space. -/
def compactObject (ms : List (Plain × Value)) : Object := ⟨.none, .none, compactMembers ms, .none⟩

/-- The value of the first member with the key, and the members behind it. -/
def memberAt (key : CStr) : List (Plain × Value) → Option (Value × List (Plain × Value))
  | [] => none
  | m :: ms => if m.1.chars = key then some (m.2, ms) else memberAt key ms

theorem locate_compact (key : CStr) (off : Nat) (ms : List (Plain × Value)) :
    (locate key off (compactMembers ms)).map
        (fun l => (l.2.1.mid.chars, l.2.1.valueText (membersTail [] l.2.2))) =
      (memberAt key ms).map fun l => ([], l.1.text (membersTail [] (compactMembers l.2))) := by
  induction ms generalizing off with
  | nil => rfl
  | cons m ms ih =>
      by_cases hm : m.1.chars = key
      · simp [compactMembers, locate, memberAt, Member.compact, Member.valueText, Ws.none, hm]
      · simpa [compactMembers, locate, memberAt, Member.compact, hm] using ih _

end Json
