import Mathlib.Data.List.TakeWhile
import WirelessTsn.Lib.CString

/-!
The part of `printf` and `scanf` that line formats are made of: literal
text, decimal numbers and delimited words. A format is a list of directives;
`sscanf` returns the values of the conversions that succeeded, so its length
is the count the C function returns (end of input before the first
conversion, where C returns `EOF`, counts as none).

The two results used below are the round trip of a printed line and the
exact description of what is read from a line that was cut short.
-/

namespace CText

/-- `%d` and `%lld` of a value. -/
def showInt (v : Int) : CStr :=
  if v < 0 then '-' :: Nat.toDigits 10 v.natAbs else Nat.toDigits 10 v.natAbs

/-- The value of a hexadecimal digit. -/
def hexVal (c : Char) : Option Nat :=
  if '0' ≤ c ∧ c ≤ '9' then some (c.toNat - '0'.toNat)
  else if 'a' ≤ c ∧ c ≤ 'f' then some (c.toNat - 'a'.toNat + 10)
  else if 'A' ≤ c ∧ c ≤ 'F' then some (c.toNat - 'A'.toNat + 10)
  else none

def isSpace (c : Char) : Bool := c == ' ' || ('\t' ≤ c && c ≤ '\r')

def scanNat (s : CStr) : Option (Nat × CStr) :=
  if s.takeWhile Char.isDigit = [] then none
  else some (Nat.ofDigitChars 10 (s.takeWhile Char.isDigit) 0, s.dropWhile Char.isDigit)

/-- The numeral `strtol` reads: white space, an optional sign, digits. -/
def scanInt (s : CStr) : Option (Int × CStr) :=
  match s.dropWhile isSpace with
  | '-' :: r => (scanNat r).map fun p => (-(p.1 : Int), p.2)
  | '+' :: r => (scanNat r).map fun p => ((p.1 : Int), p.2)
  | r => (scanNat r).map fun p => ((p.1 : Int), p.2)

/-- `strtol` saturates at the ends of `long`. -/
def clampLong (v : Int) : Int := max (-(2 ^ 63)) (min v (2 ^ 63 - 1))

def toCInt (v : Int) : Int32 := Int32.ofInt (clampLong v)

def toCLongLong (v : Int) : Int64 := Int64.ofInt (clampLong v)

/-- The value of `strtoll(p, NULL, 10)`. -/
def strtoll (p : CStr) : Int64 :=
  match scanInt p with
  | some (v, _) => toCLongLong v
  | none => 0

/-- The value of `atoll`. -/
def atoll (s : CStr) : Int64 := strtoll s

/-- The value of `atoi`. -/
def atoi (s : CStr) : Int32 :=
  match scanInt s with
  | some (v, _) => toCInt v
  | none => 0

inductive Conv where
  | lit (c : Char)
  /-- `%w[^d]` -/
  | set (w : Nat) (d : Char)
  /-- `%d` -/
  | int
  /-- `%lld` -/
  | llong
  /-- `%ws` -/
  | str (w : Nat)

inductive Arg where
  | text (s : CStr)
  | int (v : Int32)
  | llong (v : Int64)
deriving DecidableEq

def sscanf : List Conv → CStr → List Arg
  | [], _ => []
  | .lit _ :: _, [] => []
  | .lit c :: fs, x :: xs => if x = c then sscanf fs xs else []
  | .set w d :: fs, s =>
      let word := (s.take w).takeWhile (· ≠ d)
      if word = [] then [] else .text word :: sscanf fs (s.drop word.length)
  | .int :: fs, s =>
      match scanInt s with
      | none => []
      | some (v, rest) => .int (toCInt v) :: sscanf fs rest
  | .llong :: fs, s =>
      match scanInt s with
      | none => []
      | some (v, rest) => .llong (toCLongLong v) :: sscanf fs rest
  | .str w :: fs, s =>
      let word := ((s.dropWhile isSpace).take w).takeWhile (!isSpace ·)
      if word = [] then []
      else .text word :: sscanf fs ((s.dropWhile isSpace).drop word.length)

def lits (s : CStr) : List Conv := s.map .lit

/-- The `i`-th converted string, or the empty string it was initialised to. -/
def argText (args : List Arg) (i : Nat) : CStr :=
  match args[i]? with
  | some (.text s) => s
  | _ => []

/-- The `i`-th converted `int`, or the zero it was initialised to. -/
def argInt (args : List Arg) (i : Nat) : Int32 :=
  match args[i]? with
  | some (.int v) => v
  | _ => 0

def argLong (args : List Arg) (i : Nat) : Int64 :=
  match args[i]? with
  | some (.llong v) => v
  | _ => 0

theorem toDigits_isDigit (n : Nat) : ∀ c ∈ Nat.toDigits 10 n, c.isDigit = true :=
  fun _ hc => Nat.isDigit_of_mem_toDigits (by omega) (by omega) hc

private theorem digit_props {c : Char} (h : c.isDigit = true) :
    isSpace c = false ∧ c ≠ '-' ∧ c ≠ '+' := by
  refine ⟨?_, ?_, ?_⟩
  · have hle : '0' ≤ c ∧ c ≤ '9' := by simpa [Char.isDigit, Char.le_def] using h
    have hspace : c ≠ ' ' := by
      rintro rfl
      exact absurd h (by decide)
    have hgt : ¬ c ≤ '\r' := fun hc =>
      absurd (Char.le_trans hle.1 hc) (by decide)
    simp [isSpace, hspace, hgt]
  · rintro rfl
    exact absurd h (by decide)
  · rintro rfl
    exact absurd h (by decide)

/-- `scanInt` on an input whose first character is a digit. -/
theorem scanInt_of_digit {s : CStr} {c : Char} (hs : s.head? = some c)
    (hc : c.isDigit = true) :
    scanInt s = (scanNat s).map fun p => ((p.1 : Int), p.2) := by
  obtain ⟨hspace, hminus, hplus⟩ := digit_props hc
  cases s with
  | nil => simp at hs
  | cons x xs =>
      simp only [List.head?_cons, Option.some.injEq] at hs
      subst hs
      unfold scanInt
      rw [List.dropWhile_cons_of_neg (by simp [hspace])]
      split
      · rename_i h
        exact absurd (List.cons.inj h).1 hminus
      · rename_i h
        exact absurd (List.cons.inj h).1 hplus
      · rfl

theorem scanInt_minus (s : CStr) :
    scanInt ('-' :: s) = (scanNat s).map fun p => (-(p.1 : Int), p.2) := rfl

theorem scanNat_append {ds rest : CStr} (hne : ds ≠ [])
    (hds : ∀ c ∈ ds, c.isDigit = true) (hrest : ∀ c ∈ rest.head?, c.isDigit = false) :
    scanNat (ds ++ rest) = some (Nat.ofDigitChars 10 ds 0, rest) := by
  have htake : rest.takeWhile Char.isDigit = [] := by
    cases rest with
    | nil => rfl
    | cons c cs => simp [hrest c (by simp)]
  have hdrop : rest.dropWhile Char.isDigit = rest := by
    cases rest with
    | nil => rfl
    | cons c cs => simp [hrest c (by simp)]
  unfold scanNat
  rw [List.takeWhile_append_of_pos hds, List.dropWhile_append_of_pos hds, htake, hdrop]
  simp [hne]

private theorem head_toDigits (n : Nat) (rest : CStr) :
    ∃ c, (Nat.toDigits 10 n ++ rest).head? = some c ∧ c.isDigit = true := by
  cases h : Nat.toDigits 10 n with
  | nil => exact absurd h Nat.toDigits_ne_nil
  | cons c cs => exact ⟨c, rfl, toDigits_isDigit n c (by simp [h])⟩

/-- A printed number is read back exactly when no digit follows it. -/
theorem scanInt_showInt (v : Int) (rest : CStr)
    (hrest : ∀ c ∈ rest.head?, c.isDigit = false) :
    scanInt (showInt v ++ rest) = some (v, rest) := by
  have hnat := scanNat_append (@Nat.toDigits_ne_nil v.natAbs 10)
    (toDigits_isDigit v.natAbs) hrest
  rw [Nat.ofDigitChars_ten_toDigits] at hnat
  unfold showInt
  split
  · rw [List.cons_append, scanInt_minus, hnat]
    simp only [Option.map_some, Option.some.injEq, Prod.mk.injEq, and_true]
    omega
  · obtain ⟨c, hc, hd⟩ := head_toDigits v.natAbs rest
    rw [scanInt_of_digit hc hd, hnat]
    simp only [Option.map_some, Option.some.injEq, Prod.mk.injEq, and_true]
    omega

/-- What does not belong to a number stands behind it. -/
theorem scanNat_before {c : Char} (hc : c.isDigit = false) (s rest : CStr) :
    scanNat (s ++ c :: rest) = (scanNat s).map fun p => (p.1, p.2 ++ c :: rest) := by
  have htake : (s ++ c :: rest).takeWhile Char.isDigit = s.takeWhile Char.isDigit := by
    induction s with
    | nil => simp [hc]
    | cons x s ih =>
        cases hx : x.isDigit with
        | true => simp [hx, ih]
        | false => simp [hx]
  have hdrop : (s ++ c :: rest).dropWhile Char.isDigit = s.dropWhile Char.isDigit ++ c :: rest := by
    clear htake
    induction s with
    | nil => simp [hc]
    | cons x s ih =>
        cases hx : x.isDigit with
        | true => simpa [hx] using ih
        | false => simp [hx]
  unfold scanNat
  rw [htake, hdrop]
  split
  · rfl
  · rfl

/-- The numeral without the white space before it. -/
private def scanSigned : CStr → Option (Int × CStr)
  | '-' :: r => (scanNat r).map fun p => (-(p.1 : Int), p.2)
  | '+' :: r => (scanNat r).map fun p => ((p.1 : Int), p.2)
  | r => (scanNat r).map fun p => ((p.1 : Int), p.2)

private theorem scanInt_eq (s : CStr) : scanInt s = scanSigned (s.dropWhile isSpace) := rfl

private theorem scanSigned_of_ne {x : Char} (hminus : x ≠ '-') (hplus : x ≠ '+') (t : CStr) :
    scanSigned (x :: t) = (scanNat (x :: t)).map fun p => ((p.1 : Int), p.2) := by
  unfold scanSigned
  split
  · rename_i h
    exact absurd (List.cons.inj h).1 hminus
  · rename_i h
    exact absurd (List.cons.inj h).1 hplus
  · rfl

theorem scanInt_before {c : Char} (hdigit : c.isDigit = false) (hspace : isSpace c = false)
    (hminus : c ≠ '-') (hplus : c ≠ '+') (s rest : CStr) :
    scanInt (s ++ c :: rest) = (scanInt s).map fun p => (p.1, p.2 ++ c :: rest) := by
  have hskip : (s ++ c :: rest).dropWhile isSpace = s.dropWhile isSpace ++ c :: rest := by
    induction s with
    | nil => simp [hspace]
    | cons x s ih =>
        cases hx : isSpace x with
        | true => simpa [hx] using ih
        | false => simp [hx]
  have hnat : ∀ t, scanNat (t ++ c :: rest) = (scanNat t).map fun p => (p.1, p.2 ++ c :: rest) :=
    fun t => scanNat_before hdigit t rest
  rw [scanInt_eq, scanInt_eq, hskip]
  cases s.dropWhile isSpace with
  | nil =>
      have hc := hnat []
      rw [List.nil_append] at hc ⊢
      rw [scanSigned_of_ne hminus hplus, hc]
      rfl
  | cons x t =>
      rw [List.cons_append]
      by_cases hm : x = '-'
      · subst hm
        show (scanNat (t ++ c :: rest)).map _ = ((scanNat t).map _).map _
        rw [hnat, Option.map_map, Option.map_map]
        rfl
      by_cases hp : x = '+'
      · subst hp
        show (scanNat (t ++ c :: rest)).map _ = ((scanNat t).map _).map _
        rw [hnat, Option.map_map, Option.map_map]
        rfl
      · rw [scanSigned_of_ne hm hp, scanSigned_of_ne hm hp, ← List.cons_append, hnat, Option.map_map,
          Option.map_map]
        rfl

/-- What is left behind a number is an end of the text. -/
theorem scanInt_suffix {s rest : CStr} {v : Int} (h : scanInt s = some (v, rest)) : rest <:+ s := by
  have hnat : ∀ {t rest : CStr} {n : Nat}, scanNat t = some (n, rest) → rest <:+ t := by
    intro t rest n hn
    unfold scanNat at hn
    split at hn
    · cases hn
    · rw [Option.some_inj, Prod.mk.injEq] at hn
      exact hn.2 ▸ List.dropWhile_suffix _
  have hskip := List.dropWhile_suffix isSpace (l := s)
  unfold scanInt at h
  split at h
  · rename_i t ht
    obtain ⟨p, hp, heq⟩ := Option.map_eq_some_iff.mp h
    rw [Prod.mk.injEq] at heq
    have hrest : rest <:+ t := heq.2 ▸ hnat hp
    exact (hrest.trans (List.suffix_cons _ t)).trans (ht ▸ hskip)
  · rename_i t ht
    obtain ⟨p, hp, heq⟩ := Option.map_eq_some_iff.mp h
    rw [Prod.mk.injEq] at heq
    have hrest : rest <:+ t := heq.2 ▸ hnat hp
    exact (hrest.trans (List.suffix_cons _ t)).trans (ht ▸ hskip)
  · obtain ⟨p, hp, heq⟩ := Option.map_eq_some_iff.mp h
    rw [Prod.mk.injEq] at heq
    have hrest : rest <:+ s.dropWhile isSpace := heq.2 ▸ hnat hp
    exact hrest.trans hskip

/-- A number of at most `k` digits is printed in at most `k + 1` characters. -/
theorem showInt_length_le {v : Int} {k : Nat} (hk : 0 < k) (hv : v.natAbs < 10 ^ k) :
    (showInt v).length ≤ k + 1 := by
  have hdigits : (Nat.toDigits 10 v.natAbs).length ≤ k :=
    (Nat.length_toDigits_le_iff (by omega) hk).mpr hv
  unfold showInt
  split
  · rw [List.length_cons]
    omega
  · omega

theorem clampLong_of_mem {v : Int} (hlo : -(2 ^ 63) ≤ v) (hhi : v < 2 ^ 63) :
    clampLong v = v := by
  unfold clampLong
  omega

@[simp] theorem toCInt_toInt (v : Int32) : toCInt v.toInt = v := by
  have hlo := v.le_toInt
  have hhi := v.toInt_lt
  rw [toCInt, clampLong_of_mem (by omega) (by omega), Int32.ofInt_toInt]

@[simp] theorem toCLongLong_toInt (v : Int64) : toCLongLong v.toInt = v := by
  have hlo := v.le_toInt
  have hhi := v.toInt_lt
  rw [toCLongLong, clampLong_of_mem (by omega) (by omega), Int64.ofInt_toInt]

theorem toInt_toCLongLong {v : Int} (hlo : -(2 ^ 63) ≤ v) (hhi : v < 2 ^ 63) :
    (toCLongLong v).toInt = v := by
  rw [toCLongLong, clampLong_of_mem hlo hhi, Int64.toInt_ofInt_of_le hlo hhi]

/-- A value keeps its meaning exactly if the type can hold it. -/
theorem toInt_toCLongLong_iff {v : Int} :
    (toCLongLong v).toInt = v ↔ -(2 ^ 63) ≤ v ∧ v < 2 ^ 63 := by
  refine ⟨fun h => ?_, fun h => toInt_toCLongLong h.1 h.2⟩
  have hlo := (toCLongLong v).le_toInt
  have hhi := (toCLongLong v).toInt_lt
  omega

theorem toInt_toCInt_iff {v : Int} : (toCInt v).toInt = v ↔ -(2 ^ 31) ≤ v ∧ v < 2 ^ 31 := by
  constructor
  · intro h
    have hlo := (toCInt v).le_toInt
    have hhi := (toCInt v).toInt_lt
    omega
  · rintro ⟨hlo, hhi⟩
    rw [toCInt, clampLong_of_mem (by omega) (by omega), Int32.toInt_ofInt_of_le hlo hhi]

attribute [local simp] sscanf

theorem sscanf_lits (l : CStr) (fs : List Conv) (s : CStr) :
    sscanf (lits l ++ fs) (l ++ s) = sscanf fs s := by
  induction l with
  | nil => rfl
  | cons c cs ih => simpa [lits] using ih

@[simp] theorem sscanf_nil (fs : List Conv) : sscanf fs [] = [] := by
  cases fs with
  | nil => rfl
  | cons f fs => cases f <;> simp [scanInt, scanNat]

theorem sscanf_set {w : Nat} {d : Char} (fs : List Conv) {word rest : CStr}
    (hne : word ≠ []) (hlen : word.length ≤ w) (hd : d ∉ word)
    (hrest : ∀ c ∈ rest.head?, c = d) :
    sscanf (.set w d :: fs) (word ++ rest) = .text word :: sscanf fs rest := by
  have hword : ∀ c ∈ word, decide (c ≠ d) = true := by
    intro c hc
    simpa using fun h : c = d => hd (h ▸ hc)
  have htake : ((word ++ rest).take w).takeWhile (fun c => decide (c ≠ d)) = word := by
    rw [List.take_append, List.take_of_length_le hlen, List.takeWhile_append_of_pos hword]
    cases rest with
    | nil => simp
    | cons c cs =>
        have hc : c = d := hrest c (by simp)
        cases w - word.length with
        | zero => simp
        | succ k => simp [hc]
  simp only [sscanf, htake, hne, if_false, List.drop_left]

/-- Literal text that is not there ends the reading. -/
theorem sscanf_lits_of_not_isPrefix {l s : CStr} (h : ¬ l <+: s) (fs : List Conv) :
    sscanf (lits l ++ fs) s = [] := by
  induction l generalizing s with
  | nil => exact absurd (List.nil_prefix) h
  | cons c l ih =>
      cases s with
      | nil => exact sscanf_nil _
      | cons x s =>
          simp only [lits, List.map_cons, List.cons_append, sscanf]
          split
          · rename_i hx
            subst hx
            exact ih fun hl => h (List.cons_prefix_cons.mpr ⟨rfl, hl⟩)
          · rfl

/-- If a word behind literal text was read, it was there, and it is neither
empty nor longer than its width. -/
theorem sscanf_word_inv {l s : CStr} {w : Nat} {d : Char} {fs : List Conv}
    (h : sscanf (lits l ++ .set w d :: fs) s ≠ []) :
    ∃ word rest, s = l ++ word ++ rest ∧ word ≠ [] ∧ word.length ≤ w ∧ d ∉ word ∧
      sscanf (lits l ++ .set w d :: fs) s = .text word :: sscanf fs rest := by
  by_cases hl : l <+: s
  · obtain ⟨t, rfl⟩ := hl
    rw [sscanf_lits] at h ⊢
    simp only [sscanf] at h ⊢
    by_cases hword : (t.take w).takeWhile (· ≠ d) = []
    · rw [if_pos hword] at h
      exact absurd rfl h
    · rw [if_neg hword]
      have hpre : (t.take w).takeWhile (· ≠ d) <+: t :=
        (List.takeWhile_prefix _).trans (List.take_prefix w t)
      refine ⟨_, t.drop ((t.take w).takeWhile (· ≠ d)).length, ?_, hword, ?_, ?_, rfl⟩
      · rw [List.append_assoc, ← List.prefix_append_drop hpre]
      · exact (List.takeWhile_prefix _).length_le.trans (List.length_take_le w t)
      · intro hmem
        simpa using List.mem_takeWhile_imp hmem
  · exact absurd (sscanf_lits_of_not_isPrefix hl _) h

theorem sscanf_int (fs : List Conv) (v : Int32) {rest : CStr}
    (hrest : ∀ c ∈ rest.head?, c.isDigit = false) :
    sscanf (.int :: fs) (showInt v.toInt ++ rest) = .int v :: sscanf fs rest := by
  simp [scanInt_showInt _ _ hrest]

theorem sscanf_llong (fs : List Conv) (v : Int64) {rest : CStr}
    (hrest : ∀ c ∈ rest.head?, c.isDigit = false) :
    sscanf (.llong :: fs) (showInt v.toInt ++ rest) = .llong v :: sscanf fs rest := by
  simp [scanInt_showInt _ _ hrest]

end CText
