import Mathlib.Data.Rat.Defs
import Mathlib.Tactic
import WirelessTsn.Lib.Json

/-!
JSON texts and the values they denote, with every escape, number and white
space that the grammar has. Outside its strings a text of a value closes the
brackets it opens and never one that it did not open, so a text that was cut
denotes nothing. At the end stand the texts without white space that a program
prints piece by piece.
-/

namespace JsonText

open CText Json

/-! ### The grammar -/

inductive JVal where
  | null
  | bool (b : Bool)
  | num (q : ℚ)
  | str (s : CStr)
  | arr (vs : List JVal)
  | obj (ms : List (CStr × JVal))

/-- The characters behind a backslash, with what they stand for. -/
def escapes : List (Char × Char) :=
  [('"', '"'), ('\\', '\\'), ('/', '/'), ('b', '\x08'), ('f', '\x0c'), ('n', '\n'), ('r', '\r'),
    ('t', '\t')]

/-- A character that stands in a string for itself. -/
def IsStrChar (c : Char) : Prop := ' ' ≤ c ∧ c ≠ '"' ∧ c ≠ '\\'

instance (c : Char) : Decidable (IsStrChar c) :=
  inferInstanceAs (Decidable (_ ∧ _))

inductive StrPiece where
  | plain (c : Char) (h : IsStrChar c)
  | escape (e : Char × Char) (h : e ∈ escapes)
  | unicode (d₁ d₂ d₃ d₄ : Char) (h : ∀ d ∈ [d₁, d₂, d₃, d₄], (hexVal d).isSome)

def StrPiece.text : StrPiece → CStr
  | .plain c _ => [c]
  | .escape e _ => ['\\', e.1]
  | .unicode d₁ d₂ d₃ d₄ _ => ['\\', 'u', d₁, d₂, d₃, d₄]

/-- What a piece stands for; of `\u` the code unit. -/
def StrPiece.char : StrPiece → Char
  | .plain c _ => c
  | .escape e _ => e.2
  | .unicode d₁ d₂ d₃ d₄ _ =>
      Char.ofNat ([d₁, d₂, d₃, d₄].foldl (fun n d => 16 * n + (hexVal d).getD 0) 0)

def strText (ps : List StrPiece) : CStr := '"' :: (ps.flatMap StrPiece.text ++ ['"'])

/-- One or more digits. -/
structure Digits where
  chars : CStr
  ne : chars ≠ []
  digits : ∀ c ∈ chars, c.isDigit = true

def Digits.val (s : Digits) : Nat := s.chars.foldl (fun n c => 10 * n + (c.toNat - 48)) 0

structure Exponent where
  mark : Char
  mark_mem : mark ∈ ['e', 'E']
  sign : CStr
  sign_mem : sign ∈ [[], ['+'], ['-']]
  digits : Digits

def Exponent.text (e : Exponent) : CStr := e.mark :: (e.sign ++ e.digits.chars)

def Exponent.val (e : Exponent) : ℤ := if e.sign = ['-'] then -e.digits.val else e.digits.val

structure Number where
  neg : Bool
  whole : Nat
  frac : Option Digits
  exp : Option Exponent

def Number.text (n : Number) : CStr :=
  numText n.neg n.whole ++ ((n.frac.elim [] fun f => '.' :: f.chars) ++ n.exp.elim [] Exponent.text)

def Number.val (n : Number) : ℚ :=
  (if n.neg then -1 else 1) *
    (n.whole + n.frac.elim 0 fun f => (f.val : ℚ) / 10 ^ f.chars.length) *
      n.exp.elim 1 fun e => (10 : ℚ) ^ e.val

def ofInt (v : Int) : JVal := .num v

/-- What a text is of: a value, the elements of an array, the members of an
object. -/
inductive Part where
  | value (v : JVal)
  | items (vs : List JVal)
  | members (ms : List (CStr × JVal))

/-- A key with its colon and the white space around both. -/
def keyText (pre : Ws) (key : List StrPiece) (mid post : Ws) : CStr :=
  pre.chars ++ (strText key ++ (mid.chars ++ ':' :: post.chars))

inductive Reads : Part → CStr → Prop
  | null : Reads (.value .null) "null".toList
  | bool (b : Bool) : Reads (.value (.bool b)) (if b then "true".toList else "false".toList)
  | num (n : Number) : Reads (.value (.num n.val)) n.text
  | str (ps : List StrPiece) : Reads (.value (.str (ps.map StrPiece.char))) (strText ps)
  | arrNil (pad : Ws) : Reads (.value (.arr [])) ('[' :: (pad.chars ++ [']']))
  | arr {vs : List JVal} {t : CStr} (h : Reads (.items vs) t) :
      Reads (.value (.arr vs)) ('[' :: (t ++ [']']))
  | item {v : JVal} {t : CStr} (pre fin : Ws) (h : Reads (.value v) t) :
      Reads (.items [v]) (pre.chars ++ (t ++ fin.chars))
  | items {v : JVal} {vs : List JVal} {t ts : CStr} (pre fin : Ws) (h : Reads (.value v) t)
      (hs : Reads (.items vs) ts) : Reads (.items (v :: vs)) (pre.chars ++ (t ++ (fin.chars ++ ',' :: ts)))
  | objNil (pad : Ws) : Reads (.value (.obj [])) ('\x7b' :: (pad.chars ++ ['\x7d']))
  | obj {ms : List (CStr × JVal)} {t : CStr} (h : Reads (.members ms) t) :
      Reads (.value (.obj ms)) ('\x7b' :: (t ++ ['\x7d']))
  | member {v : JVal} {t : CStr} (pre : Ws) (key : List StrPiece) (mid post fin : Ws)
      (h : Reads (.value v) t) :
      Reads (.members [(key.map StrPiece.char, v)]) (keyText pre key mid post ++ (t ++ fin.chars))
  | members {v : JVal} {ms : List (CStr × JVal)} {t ts : CStr} (pre : Ws) (key : List StrPiece)
      (mid post fin : Ws) (h : Reads (.value v) t) (hs : Reads (.members ms) ts) :
      Reads (.members ((key.map StrPiece.char, v) :: ms))
        (keyText pre key mid post ++ (t ++ (fin.chars ++ ',' :: ts)))

/-- The text is well formed and denotes the value. -/
def Denotes (v : JVal) (text : CStr) : Prop :=
  ∃ (pre fin : Ws) (t : CStr), Reads (.value v) t ∧ text = pre.chars ++ (t ++ fin.chars)

/-- The value of the first member with a key. -/
def JVal.get (key : CStr) : JVal → Option JVal
  | .obj ms => (ms.find? fun m => m.1 = key).map Prod.snd
  | _ => none

/-! ### Brackets -/

/-- Where a scan of a text stands: outside strings, in one, behind a
backslash. -/
inductive Mode where
  | out
  | str
  | esc
  deriving DecidableEq

/-- One character; with the mode goes the number of open brackets. -/
def bracketStep : Mode × Int → Char → Mode × Int
  | (.out, d), c =>
      if c = '"' then (.str, d)
      else if c = '[' ∨ c = '\x7b' then (.out, d + 1)
      else if c = ']' ∨ c = '\x7d' then (.out, d - 1)
      else (.out, d)
  | (.str, d), c => if c = '"' then (.out, d) else if c = '\\' then (.esc, d) else (.str, d)
  | (.esc, d), _ => (.str, d)

def brackets (s : Mode × Int) (t : CStr) : Mode × Int := t.foldl bracketStep s

theorem brackets_append (s : Mode × Int) (t u : CStr) :
    brackets s (t ++ u) = brackets (brackets s t) u := List.foldl_append

theorem brackets_cons (s : Mode × Int) (c : Char) (t : CStr) :
    brackets s (c :: t) = brackets (bracketStep s c) t := rfl

/-- A text that closes what it opens and nothing else. -/
structure Balanced (t : CStr) : Prop where
  back : ∀ d, brackets (.out, d) t = (.out, d)
  above : ∀ d u, u <+: t → d ≤ (brackets (.out, d) u).2

theorem prefix_of_append {u a b : CStr} (h : u <+: a ++ b) :
    u <+: a ∨ ∃ w, u = a ++ w ∧ w <+: b := by
  rcases List.prefix_or_prefix_of_prefix h (List.prefix_append a b) with hua | ⟨w, rfl⟩
  · exact .inl hua
  · exact .inr ⟨w, rfl, (List.prefix_append_right_inj a).mp h⟩

theorem Balanced.nil : Balanced [] := by
  refine ⟨fun d => rfl, fun d u hu => ?_⟩
  rw [List.prefix_nil.mp hu]
  exact le_refl d

theorem Balanced.append {a b : CStr} (ha : Balanced a) (hb : Balanced b) : Balanced (a ++ b) := by
  refine ⟨fun d => ?_, fun d u hu => ?_⟩
  · rw [brackets_append, ha.back, hb.back]
  · rcases prefix_of_append hu with hua | ⟨w, rfl, hw⟩
    · exact ha.above d u hua
    · rw [brackets_append, ha.back]
      exact hb.above d w hw

/-- A character outside strings that is neither a quote nor a bracket. -/
def IsNeutral (c : Char) : Prop := c ∉ ['"', '[', ']', '\x7b', '\x7d']

instance (c : Char) : Decidable (IsNeutral c) := inferInstanceAs (Decidable (¬ _))

theorem bracketStep_neutral {c : Char} (h : IsNeutral c) (d : Int) :
    bracketStep (.out, d) c = (.out, d) := by
  simp only [IsNeutral, List.mem_cons, List.not_mem_nil, or_false, not_or] at h
  simp [bracketStep, h]

theorem balanced_neutral {t : CStr} (h : ∀ c ∈ t, IsNeutral c) : Balanced t := by
  induction t with
  | nil => exact Balanced.nil
  | cons c t ih =>
      have hc : Balanced [c] := by
        refine ⟨fun d => bracketStep_neutral (h c List.mem_cons_self) d, fun d u hu => ?_⟩
        rcases List.prefix_cons_iff.mp hu with rfl | ⟨w, rfl, hw⟩
        · exact le_refl d
        · rw [List.prefix_nil.mp hw, brackets_cons, bracketStep_neutral (h c List.mem_cons_self)]
          exact le_refl d
      exact hc.append (ih fun x hx => h x (List.mem_cons_of_mem c hx))

/-! ### Strings -/

/-- The scan is in a string that opened at depth `d`. -/
def InString (d : Int) (s : Mode × Int) : Prop := s.1 ≠ .out ∧ s.2 = d

theorem inString_str (d : Int) : InString d (.str, d) := ⟨nofun, rfl⟩

theorem inString_esc (d : Int) : InString d (.esc, d) := ⟨nofun, rfl⟩

/-- A piece of the content of a string. -/
structure StrBalanced (t : CStr) : Prop where
  back : ∀ d, brackets (.str, d) t = (.str, d)
  inside : ∀ d u, u <+: t → InString d (brackets (.str, d) u)

theorem StrBalanced.nil : StrBalanced [] := by
  refine ⟨fun d => rfl, fun d u hu => ?_⟩
  rw [List.prefix_nil.mp hu]
  exact inString_str d

theorem StrBalanced.append {a b : CStr} (ha : StrBalanced a) (hb : StrBalanced b) :
    StrBalanced (a ++ b) := by
  refine ⟨fun d => ?_, fun d u hu => ?_⟩
  · rw [brackets_append, ha.back, hb.back]
  · rcases prefix_of_append hu with hua | ⟨w, rfl, hw⟩
    · exact ha.inside d u hua
    · rw [brackets_append, ha.back]
      exact hb.inside d w hw

theorem strBalanced_plain {c : Char} (hquote : c ≠ '"') (hback : c ≠ '\\') : StrBalanced [c] := by
  have hstep : ∀ d, bracketStep (.str, d) c = (.str, d) := fun d => by simp [bracketStep, hquote, hback]
  refine ⟨hstep, fun d u hu => ?_⟩
  rcases List.prefix_cons_iff.mp hu with rfl | ⟨w, rfl, hw⟩
  · exact inString_str d
  · rw [List.prefix_nil.mp hw, brackets_cons, hstep]
    exact inString_str d

/-- Behind a backslash any character is part of the string. -/
theorem strBalanced_escape (c : Char) : StrBalanced ['\\', c] := by
  refine ⟨fun d => rfl, fun d u hu => ?_⟩
  rcases List.prefix_cons_iff.mp hu with rfl | ⟨w, rfl, hw⟩
  · exact inString_str d
  · rcases List.prefix_cons_iff.mp hw with rfl | ⟨x, rfl, hx⟩
    · exact inString_esc d
    · rw [List.prefix_nil.mp hx]
      exact inString_str d

theorem strBalanced_hex {c : Char} (h : (hexVal c).isSome) : StrBalanced [c] := by
  refine strBalanced_plain ?_ ?_
  · rintro rfl
    exact absurd h (by decide)
  · rintro rfl
    exact absurd h (by decide)

theorem strBalanced_piece (p : StrPiece) : StrBalanced p.text := by
  cases p with
  | plain c h => exact strBalanced_plain h.2.1 h.2.2
  | escape e h => exact strBalanced_escape e.1
  | unicode d₁ d₂ d₃ d₄ h =>
      have h₁ := strBalanced_hex (h d₁ (by simp))
      have h₂ := strBalanced_hex (h d₂ (by simp))
      have h₃ := strBalanced_hex (h d₃ (by simp))
      have h₄ := strBalanced_hex (h d₄ (by simp))
      exact (strBalanced_escape 'u').append (h₁.append (h₂.append (h₃.append h₄)))

theorem strBalanced_pieces (ps : List StrPiece) : StrBalanced (ps.flatMap StrPiece.text) := by
  induction ps with
  | nil => exact StrBalanced.nil
  | cons p ps ih =>
      rw [List.flatMap_cons]
      exact (strBalanced_piece p).append ih

/-- A string is balanced whatever it holds. -/
theorem balanced_strText (ps : List StrPiece) : Balanced (strText ps) := by
  have hpieces := strBalanced_pieces ps
  refine ⟨fun d => ?_, fun d u hu => ?_⟩
  · rw [strText, brackets_cons, brackets_append]
    exact congrArg (brackets · ['"']) (hpieces.back d)
  · rcases List.prefix_cons_iff.mp hu with rfl | ⟨w, rfl, hw⟩
    · exact le_refl d
    · rcases prefix_of_append hw with hwps | ⟨x, rfl, hx⟩
      · exact (hpieces.inside d w hwps).2.ge
      · rw [brackets_cons, brackets_append]
        have hopen : bracketStep (.out, d) '"' = (.str, d) := rfl
        rw [hopen, hpieces.back]
        rcases List.prefix_cons_iff.mp hx with rfl | ⟨y, rfl, hy⟩
        · exact le_refl d
        · rw [List.prefix_nil.mp hy]
          exact le_refl d

/-! ### Values -/

/-- A cut of a balanced text between brackets leaves the first one open. -/
theorem Balanced.cut {a b : Char} {t : CStr} (h : Balanced t) (ha : a = '[' ∨ a = '\x7b') {u : CStr}
    (hu : u <+: a :: (t ++ [b])) (hne : u ≠ []) (hcut : u ≠ a :: (t ++ [b])) (d : Int) :
    d + 1 ≤ (brackets (.out, d) u).2 := by
  rcases List.prefix_cons_iff.mp hu with rfl | ⟨w, rfl, hw⟩
  · exact absurd rfl hne
  have hopen : bracketStep (.out, d) a = (.out, d + 1) := by
    rcases ha with rfl | rfl <;> rfl
  rw [brackets_cons, hopen]
  rcases prefix_of_append hw with hwt | ⟨x, rfl, hx⟩
  · exact h.above (d + 1) w hwt
  · rcases List.prefix_cons_iff.mp hx with rfl | ⟨y, rfl, hy⟩
    · rw [List.append_nil, h.back]
    · rw [List.prefix_nil.mp hy] at hcut
      exact absurd rfl hcut

theorem Balanced.bracket {a b : Char} {t : CStr} (h : Balanced t) (ha : a = '[' ∨ a = '\x7b')
    (hb : b = ']' ∨ b = '\x7d') : Balanced (a :: (t ++ [b])) := by
  have hback : ∀ d, brackets (.out, d) (a :: (t ++ [b])) = (.out, d) := by
    intro d
    have hopen : bracketStep (.out, d) a = (.out, d + 1) := by
      rcases ha with rfl | rfl <;> rfl
    have hclose : bracketStep (.out, d + 1) b = (.out, d) := by
      rcases hb with rfl | rfl <;> simp [bracketStep]
    rw [brackets_cons, hopen, brackets_append, h.back]
    exact hclose
  refine ⟨hback, fun d u hu => ?_⟩
  by_cases hne : u = []
  · rw [hne]
    exact le_refl d
  by_cases hwhole : u = a :: (t ++ [b])
  · rw [hwhole, hback]
  · have hdeep := h.cut ha hu hne hwhole d
    omega

theorem balanced_ws (w : Ws) : Balanced w.chars :=
  balanced_neutral fun c hc => forall_isWs (by decide) c (w.blank c hc)

theorem balanced_key (pre : Ws) (key : List StrPiece) (mid post : Ws) :
    Balanced (keyText pre key mid post) := by
  have hcolon : Balanced [':'] := balanced_neutral (by decide)
  have hrest : Balanced (':' :: post.chars) := hcolon.append (balanced_ws post)
  exact (balanced_ws pre).append ((balanced_strText key).append ((balanced_ws mid).append hrest))

theorem neutral_digit {c : Char} (h : c.isDigit = true) : IsNeutral c := by
  intro hmem
  have hnot : ∀ x ∈ ['"', '[', ']', '\x7b', '\x7d'], x.isDigit = false := by decide
  rw [hnot c hmem] at h
  cases h

theorem balanced_digits (s : Digits) : Balanced s.chars :=
  balanced_neutral fun c hc => neutral_digit (s.digits c hc)

theorem balanced_exponent (e : Exponent) : Balanced e.text := by
  have hmark : Balanced [e.mark] := by
    refine balanced_neutral fun c hc => ?_
    rw [List.mem_singleton.mp hc]
    have hall : ∀ m ∈ ['e', 'E'], IsNeutral m := by decide
    exact hall e.mark e.mark_mem
  have hsign : Balanced e.sign := by
    have hall : ∀ s ∈ [([] : CStr), ['+'], ['-']], ∀ c ∈ s, IsNeutral c := by decide
    exact balanced_neutral (hall e.sign e.sign_mem)
  exact hmark.append (hsign.append (balanced_digits e.digits))

theorem balanced_number (n : Number) : Balanced n.text := by
  have hwhole : Balanced (numText n.neg n.whole) := by
    refine balanced_neutral fun c hc => ?_
    rcases mem_numText hc with rfl | hdigit
    · decide
    · exact neutral_digit hdigit
  refine hwhole.append (Balanced.append ?_ ?_)
  · cases n.frac with
    | none => exact Balanced.nil
    | some f =>
        have hdot : Balanced ['.'] := balanced_neutral (by decide)
        exact hdot.append (balanced_digits f)
  · cases n.exp with
    | none => exact Balanced.nil
    | some e => exact balanced_exponent e

theorem balanced_reads {part : Part} {t : CStr} (h : Reads part t) : Balanced t := by
  have hcomma : Balanced [','] := balanced_neutral (by decide)
  induction h with
  | null => exact balanced_neutral (by decide)
  | bool b =>
      cases b
      · exact balanced_neutral (by decide)
      · exact balanced_neutral (by decide)
  | num n => exact balanced_number n
  | str ps => exact balanced_strText ps
  | arrNil pad => exact (balanced_ws pad).bracket (.inl rfl) (.inl rfl)
  | arr h ih => exact ih.bracket (.inl rfl) (.inl rfl)
  | item pre fin h ih => exact (balanced_ws pre).append (ih.append (balanced_ws fin))
  | items pre fin h hs ih ihs =>
      exact (balanced_ws pre).append (ih.append ((balanced_ws fin).append (hcomma.append ihs)))
  | objNil pad => exact (balanced_ws pad).bracket (.inr rfl) (.inr rfl)
  | obj h ih => exact ih.bracket (.inr rfl) (.inr rfl)
  | member pre key mid post fin h ih =>
      exact (balanced_key pre key mid post).append (ih.append (balanced_ws fin))
  | members pre key mid post fin h hs ih ihs =>
      exact (balanced_key pre key mid post).append (ih.append ((balanced_ws fin).append
        (hcomma.append ihs)))

/-- A well-formed text ends outside strings with every bracket closed. -/
theorem brackets_denotes {v : JVal} {text : CStr} (h : Denotes v text) (d : Int) :
    brackets (.out, d) text = (.out, d) := by
  obtain ⟨pre, fin, t, hreads, rfl⟩ := h
  exact ((balanced_ws pre).append ((balanced_reads hreads).append (balanced_ws fin))).back d

theorem not_denotes_of_open {t : CStr} (h : 0 < (brackets (.out, 0) t).2) (v : JVal) :
    ¬ Denotes v t := by
  intro hdenotes
  rw [brackets_denotes hdenotes] at h
  exact absurd h (by decide)

def JVal.isBracketed : JVal → Bool
  | .arr _ | .obj _ => true
  | _ => false

/-- A cut of an array or an object leaves its bracket open. -/
theorem Reads.cut {v : JVal} {t u : CStr} (h : Reads (.value v) t) (hv : v.isBracketed = true)
    (hu : u <+: t) (hne : u ≠ []) (hcut : u ≠ t) (d : Int) : d + 1 ≤ (brackets (.out, d) u).2 := by
  cases h with
  | null => cases hv
  | bool b => cases hv
  | num n => cases hv
  | str ps => cases hv
  | arrNil pad => exact (balanced_ws pad).cut (.inl rfl) hu hne hcut d
  | arr h => exact (balanced_reads h).cut (.inl rfl) hu hne hcut d
  | objNil pad => exact (balanced_ws pad).cut (.inr rfl) hu hne hcut d
  | obj h => exact (balanced_reads h).cut (.inr rfl) hu hne hcut d

/-- What is left of an array or an object after a cut denotes nothing. -/
theorem not_denotes_of_cut {v : JVal} {t u : CStr} (h : Reads (.value v) t)
    (hv : v.isBracketed = true) (hu : u <+: t) (hne : u ≠ []) (hcut : u ≠ t) (v' : JVal) :
    ¬ Denotes v' u := by
  have hdeep := h.cut hv hu hne hcut 0
  exact not_denotes_of_open (by omega) v'

/-! ### Texts that keep a bracket open -/

/-- A scan over the text goes from one place to another and always has a bracket
open. -/
structure KeepsOpen (s : Mode × Int) (t : CStr) (s' : Mode × Int) : Prop where
  ends : brackets s t = s'
  above : ∀ u, u <+: t → 0 < (brackets s u).2

theorem keepsOpen_iff {s s' : Mode × Int} {t : CStr} :
    KeepsOpen s t s' ↔ brackets s t = s' ∧ ∀ u ∈ t.inits, 0 < (brackets s u).2 :=
  ⟨fun h => ⟨h.ends, fun u hu => h.above u ((List.mem_inits u t).mp hu)⟩,
    fun h => ⟨h.1, fun u hu => h.2 u ((List.mem_inits u t).mpr hu)⟩⟩

instance (s s' : Mode × Int) (t : CStr) : Decidable (KeepsOpen s t s') :=
  decidable_of_iff _ keepsOpen_iff.symm

theorem KeepsOpen.append {s₁ s₂ s₃ : Mode × Int} {a b : CStr} (ha : KeepsOpen s₁ a s₂)
    (hb : KeepsOpen s₂ b s₃) : KeepsOpen s₁ (a ++ b) s₃ := by
  refine ⟨by rw [brackets_append, ha.ends, hb.ends], fun u hu => ?_⟩
  rcases prefix_of_append hu with hua | ⟨w, rfl, hw⟩
  · exact ha.above u hua
  · rw [brackets_append, ha.ends]
    exact hb.above w hw

/-- A character closes one bracket at most. -/
theorem bracketStep_ge (s : Mode × Int) (c : Char) : s.2 - 1 ≤ (bracketStep s c).2 := by
  obtain ⟨m, d⟩ := s
  cases m with
  | out =>
      rw [bracketStep]
      split_ifs <;> simp only <;> omega
  | str =>
      rw [bracketStep]
      split_ifs <;> simp only <;> omega
  | esc => exact sub_le_self d (by decide)

/-- A character that no scan takes notice of. -/
def IsQuiet (c : Char) : Prop := c ∉ ['"', '[', ']', '\x7b', '\x7d', '\\']

instance (c : Char) : Decidable (IsQuiet c) := inferInstanceAs (Decidable (¬ _))

theorem bracketStep_quiet {c : Char} (h : IsQuiet c) {m : Mode} (hm : m ≠ .esc) (d : Int) :
    bracketStep (m, d) c = (m, d) := by
  simp only [IsQuiet, List.mem_cons, List.not_mem_nil, or_false, not_or] at h
  cases m with
  | out => simp [bracketStep, h]
  | str => simp [bracketStep, h]
  | esc => exact absurd rfl hm

theorem brackets_quiet {t : CStr} (h : ∀ c ∈ t, IsQuiet c) {m : Mode} (hm : m ≠ .esc) (d : Int) :
    brackets (m, d) t = (m, d) := by
  induction t with
  | nil => rfl
  | cons c t ih =>
      rw [brackets_cons, bracketStep_quiet (h c List.mem_cons_self) hm]
      exact ih fun x hx => h x (List.mem_cons_of_mem c hx)

theorem keepsOpen_quiet {t : CStr} (h : ∀ c ∈ t, IsQuiet c) {m : Mode} (hm : m ≠ .esc) {d : Int}
    (hd : 0 < d) : KeepsOpen (m, d) t (m, d) := by
  refine ⟨brackets_quiet h hm d, fun u hu => ?_⟩
  rw [brackets_quiet (fun c hc => h c (hu.subset hc)) hm]
  exact hd

/-- Without quotes a string does not end; behind a backslash it may go on. -/
theorem keepsOpen_content {t : CStr} (h : '"' ∉ t) {d : Int} (hd : 0 < d) :
    KeepsOpen (.str, d) t (.str, d) ∨ KeepsOpen (.str, d) t (.esc, d) := by
  have hstep : ∀ u : CStr, '"' ∉ u → InString d (brackets (.str, d) u) := by
    intro u
    induction u using List.reverseRecOn with
    | nil => exact fun _ => inString_str d
    | append_singleton u c ih =>
        intro hu
        rw [List.mem_append, List.mem_singleton, not_or] at hu
        obtain ⟨hmode, hdepth⟩ := ih hu.1
        rw [brackets_append]
        cases hs : brackets (.str, d) u with
        | mk m e =>
            rw [hs] at hmode hdepth
            cases m with
            | out => exact absurd rfl hmode
            | esc => exact ⟨nofun, hdepth⟩
            | str =>
                by_cases hback : c = '\\'
                · subst hback
                  exact ⟨nofun, hdepth⟩
                · have hplain : bracketStep (.str, e) c = (.str, e) := by
                    simp [bracketStep, Ne.symm hu.2, hback]
                  rw [brackets_cons, hplain]
                  exact ⟨nofun, hdepth⟩
  have habove : ∀ u, u <+: t → 0 < (brackets (.str, d) u).2 := fun u hu => by
    rw [(hstep u fun hmem => h (hu.subset hmem)).2]
    exact hd
  obtain ⟨hmode, hdepth⟩ := hstep t h
  cases hs : brackets (.str, d) t with
  | mk m e =>
      rw [hs] at hmode hdepth
      cases hdepth
      cases m with
      | out => exact absurd rfl hmode
      | str => exact .inl ⟨hs, habove⟩
      | esc => exact .inr ⟨hs, habove⟩

/-! ### Characters -/

/-- A text without NULs is a C string. -/
def NulFree (t : CStr) : Prop := '\x00' ∉ t

instance (t : CStr) : Decidable (NulFree t) := inferInstanceAs (Decidable (¬ _))

theorem NulFree.append {t u : CStr} (ht : NulFree t) (hu : NulFree u) : NulFree (t ++ u) := by
  intro hmem
  rcases List.mem_append.mp hmem with hmem | hmem
  · exact ht hmem
  · exact hu hmem

theorem NulFree.cons {c : Char} {t : CStr} (hc : c ≠ '\x00') (ht : NulFree t) : NulFree (c :: t) := by
  intro hmem
  rcases List.mem_cons.mp hmem with hmem | hmem
  · exact hc hmem.symm
  · exact ht hmem

theorem nulFree_ws (w : Ws) : NulFree w.chars := by
  intro hmem
  exact absurd (w.blank _ hmem) (by decide)

theorem nulFree_digits (s : Digits) : NulFree s.chars := by
  intro hmem
  exact absurd (s.digits _ hmem) (by decide)

theorem nulFree_piece (p : StrPiece) : NulFree p.text := by
  cases p with
  | plain c h =>
      intro hmem
      rw [← List.mem_singleton.mp hmem] at h
      exact absurd h.1 (by decide)
  | escape e h =>
      have hall : ∀ e ∈ escapes, NulFree ['\\', e.1] := by decide
      exact hall e h
  | unicode d₁ d₂ d₃ d₄ h =>
      refine NulFree.cons (by decide) (NulFree.cons (by decide) ?_)
      intro hmem
      exact absurd (h _ hmem) (by decide)

theorem nulFree_strText (ps : List StrPiece) : NulFree (strText ps) := by
  have hpieces : NulFree (ps.flatMap StrPiece.text) := by
    intro hmem
    obtain ⟨p, _, hp⟩ := List.mem_flatMap.mp hmem
    exact nulFree_piece p hp
  exact NulFree.cons (by decide) (hpieces.append (by decide))

theorem nulFree_number (n : Number) : NulFree n.text := by
  have hwhole : NulFree (numText n.neg n.whole) := by
    intro hmem
    rcases mem_numText hmem with hminus | hdigit
    · exact absurd hminus (by decide)
    · exact absurd hdigit (by decide)
  refine hwhole.append (NulFree.append ?_ ?_)
  · cases n.frac with
    | none => exact List.not_mem_nil
    | some f => exact NulFree.cons (by decide) (nulFree_digits f)
  · cases n.exp with
    | none => exact List.not_mem_nil
    | some e =>
        have hmark : ∀ m ∈ ['e', 'E'], m ≠ '\x00' := by decide
        have hsign : ∀ s ∈ [([] : CStr), ['+'], ['-']], NulFree s := by decide
        exact NulFree.cons (hmark e.mark e.mark_mem)
          ((hsign e.sign e.sign_mem).append (nulFree_digits e.digits))

theorem nulFree_key (pre : Ws) (key : List StrPiece) (mid post : Ws) :
    NulFree (keyText pre key mid post) :=
  (nulFree_ws pre).append ((nulFree_strText key).append
    ((nulFree_ws mid).append (NulFree.cons (by decide) (nulFree_ws post))))

theorem nulFree_reads {part : Part} {t : CStr} (h : Reads part t) : NulFree t := by
  induction h with
  | null => decide
  | bool b => cases b <;> decide
  | num n => exact nulFree_number n
  | str ps => exact nulFree_strText ps
  | arrNil pad => exact NulFree.cons (by decide) ((nulFree_ws pad).append (by decide))
  | arr h ih => exact NulFree.cons (by decide) (ih.append (by decide))
  | item pre fin h ih => exact (nulFree_ws pre).append (ih.append (nulFree_ws fin))
  | items pre fin h hs ih ihs =>
      exact (nulFree_ws pre).append (ih.append ((nulFree_ws fin).append
        (NulFree.cons (by decide) ihs)))
  | objNil pad => exact NulFree.cons (by decide) ((nulFree_ws pad).append (by decide))
  | obj h ih => exact NulFree.cons (by decide) (ih.append (by decide))
  | member pre key mid post fin h ih =>
      exact (nulFree_key pre key mid post).append (ih.append (nulFree_ws fin))
  | members pre key mid post fin h hs ih ihs =>
      exact (nulFree_key pre key mid post).append (ih.append ((nulFree_ws fin).append
        (NulFree.cons (by decide) ihs)))

/-! ### Texts without white space -/

/-- What a loop prints that puts a comma ahead of all texts but the first. -/
def commaPieces : List CStr → List CStr
  | [] => []
  | t :: ts => t :: ts.map (',' :: ·)

/-- What holds of the texts, also behind a comma, holds of the pieces. -/
theorem forall_commaPieces {P : CStr → Prop} {ts : List CStr} (h : ∀ t ∈ ts, P t)
    (hcomma : ∀ t ∈ ts, P t → P (',' :: t)) : ∀ p ∈ commaPieces ts, P p := by
  intro p hp
  cases ts with
  | nil => cases hp
  | cons t ts =>
      rcases List.mem_cons.mp hp with rfl | hp
      · exact h p List.mem_cons_self
      · obtain ⟨u, hu, rfl⟩ := List.mem_map.mp hp
        exact hcomma u (List.mem_cons_of_mem t hu) (h u (List.mem_cons_of_mem t hu))

/-- A loop with `i ? "," : ""` goes over these pieces. -/
theorem foldl_commaPieces {α β : Type} (g : β → CStr → β) (f : α → CStr) (xs : List α) (b : β) :
    xs.zipIdx.foldl (fun b e => g b ((if e.2 = 0 then [] else [',']) ++ f e.1)) b =
      (commaPieces (xs.map f)).foldl g b := by
  have hlater : ∀ (ys : List α) (k : Nat) (b : β), 0 < k →
      (ys.zipIdx k).foldl (fun b e => g b ((if e.2 = 0 then [] else [',']) ++ f e.1)) b =
        ((ys.map f).map (',' :: ·)).foldl g b := by
    intro ys
    induction ys with
    | nil => exact fun k b hk => rfl
    | cons y ys ih =>
        intro k b hk
        rw [List.zipIdx_cons, List.foldl_cons, ih (k + 1) _ (by omega), if_neg (by omega),
          List.map_cons, List.map_cons, List.foldl_cons, List.singleton_append]
  cases xs with
  | nil => rfl
  | cons x xs =>
      rw [List.zipIdx_cons, List.foldl_cons, hlater xs (0 + 1) _ (by omega), if_pos rfl,
        List.map_cons, commaPieces, List.foldl_cons, List.nil_append]

/-- Texts with a comma between them. -/
def commaSep (ts : List CStr) : CStr := (commaPieces ts).flatten

/-- A key, its colon and the text of a value. -/
def memberText (key text : CStr) : CStr := '"' :: (key ++ '"' :: ':' :: text)

/-- The text is a member of an object. -/
def ReadsMember (m : CStr × JVal) (t : CStr) : Prop :=
  (∀ c ∈ m.1, IsStrChar c) ∧ ∃ text, Reads (.value m.2) text ∧ t = memberText m.1 text

theorem commaSep_cons_cons (t u : CStr) (ts : List CStr) :
    commaSep (t :: u :: ts) = t ++ ',' :: commaSep (u :: ts) := rfl

theorem commaSep_singleton (t : CStr) : commaSep [t] = t := List.append_nil t

theorem commaSep_cons {ts : List CStr} (hne : ts ≠ []) (t : CStr) :
    commaSep (t :: ts) = t ++ ',' :: commaSep ts := by
  cases ts with
  | nil => exact absurd rfl hne
  | cons u us => exact commaSep_cons_cons t u us

theorem commaSep_concat {ts : List CStr} (hne : ts ≠ []) (t : CStr) :
    commaSep (ts ++ [t]) = commaSep ts ++ ',' :: t := by
  cases ts with
  | nil => exact absurd rfl hne
  | cons u us => simp [commaSep, commaPieces]

/-- One comma for each text, and one too many. -/
theorem commaSep_length {ts : List CStr} (hne : ts ≠ []) :
    (commaSep ts).length + 1 = (ts.map fun t => t.length + 1).sum := by
  cases ts with
  | nil => exact absurd rfl hne
  | cons t ts =>
      rw [commaSep, commaPieces, List.flatten_cons, List.length_append, List.length_flatten,
        List.map_map, List.map_cons, List.sum_cons]
      show t.length + (ts.map fun u => u.length + 1).sum + 1 = _
      omega

theorem commaSep_length_le {ts : List CStr} {k : Nat} (h : ∀ t ∈ ts, t.length ≤ k) :
    (commaSep ts).length ≤ ts.length * (k + 1) := by
  rcases eq_or_ne ts [] with rfl | hne
  · exact Nat.zero_le _
  · have hsum := List.sum_le_card_nsmul (ts.map fun t => t.length + 1) (k + 1) (by
      intro n hn
      obtain ⟨t, ht, rfl⟩ := List.mem_map.mp hn
      exact Nat.succ_le_succ (h t ht))
    rw [List.length_map, smul_eq_mul] at hsum
    have hlength := commaSep_length hne
    omega

/-- Characters that stand for themselves need no escapes. -/
theorem exists_pieces {s : CStr} (h : ∀ c ∈ s, IsStrChar c) :
    ∃ ps : List StrPiece, ps.map StrPiece.char = s ∧ strText ps = '"' :: (s ++ ['"']) := by
  suffices hps : ∃ ps : List StrPiece, ps.map StrPiece.char = s ∧ ps.flatMap StrPiece.text = s by
    obtain ⟨ps, hchars, htext⟩ := hps
    exact ⟨ps, hchars, by rw [strText, htext]⟩
  induction s with
  | nil => exact ⟨[], rfl, rfl⟩
  | cons c s ih =>
      obtain ⟨ps, hchars, htext⟩ := ih fun x hx => h x (List.mem_cons_of_mem c hx)
      refine ⟨.plain c (h c List.mem_cons_self) :: ps, ?_, ?_⟩
      · rw [List.map_cons, hchars]
        rfl
      · rw [List.flatMap_cons, htext]
        rfl

theorem reads_str {s : CStr} (h : ∀ c ∈ s, IsStrChar c) :
    Reads (.value (.str s)) ('"' :: (s ++ ['"'])) := by
  obtain ⟨ps, hchars, htext⟩ := exists_pieces h
  have hreads := Reads.str ps
  rwa [hchars, htext] at hreads

theorem reads_int (v : Int) : Reads (.value (ofInt v)) (showInt v) := by
  have hreads := Reads.num ⟨decide (v < 0), v.natAbs, none, none⟩
  have htext : (⟨decide (v < 0), v.natAbs, none, none⟩ : Number).text = showInt v := by
    rw [Number.text, Option.elim_none, Option.elim_none, List.append_nil, List.append_nil, numText,
      showInt]
    simp only [decide_eq_true_eq]
  have hval : (⟨decide (v < 0), v.natAbs, none, none⟩ : Number).val = (v : ℚ) := by
    simp only [Number.val, Option.elim_none, add_zero, mul_one, decide_eq_true_eq]
    rcases lt_or_ge v 0 with hneg | hpos
    · rw [if_pos hneg, Nat.cast_natAbs, abs_of_neg hneg]
      push_cast
      ring
    · rw [if_neg (by omega), Nat.cast_natAbs, abs_of_nonneg hpos, one_mul]
  rwa [htext, hval] at hreads

theorem reads_items {v : JVal} {vs : List JVal} {t : CStr} {ts : List CStr}
    (hv : Reads (.value v) t) (hvs : List.Forall₂ (fun v t => Reads (.value v) t) vs ts) :
    Reads (.items (v :: vs)) (commaSep (t :: ts)) := by
  induction hvs generalizing v t with
  | nil =>
      have hitem := Reads.item .none .none hv
      rw [Ws.none, List.nil_append, List.append_nil] at hitem
      rwa [commaSep_singleton]
  | cons hw hws ih =>
      rw [commaSep_cons_cons]
      exact .items .none .none hv (ih hw)

theorem reads_of_mem {vs : List JVal} {ts : List CStr}
    (h : List.Forall₂ (fun v t => Reads (.value v) t) vs ts) {t : CStr} (ht : t ∈ ts) :
    ∃ v, Reads (.value v) t := by
  induction h with
  | nil => cases ht
  | cons hv hvs ih =>
      rcases List.mem_cons.mp ht with rfl | ht
      · exact ⟨_, hv⟩
      · exact ih ht

theorem reads_arr {vs : List JVal} {ts : List CStr}
    (h : List.Forall₂ (fun v t => Reads (.value v) t) vs ts) :
    Reads (.value (.arr vs)) ('[' :: (commaSep ts ++ [']'])) := by
  cases h with
  | nil => exact .arrNil .none
  | cons hv hvs => exact .arr (reads_items hv hvs)

theorem balanced_flatten {ts : List CStr} (h : ∀ t ∈ ts, Balanced t) : Balanced ts.flatten := by
  induction ts with
  | nil => exact Balanced.nil
  | cons t ts ih =>
      rw [List.flatten_cons]
      exact (h t List.mem_cons_self).append (ih fun u hu => h u (List.mem_cons_of_mem t hu))

theorem balanced_commaSep {ts : List CStr} (h : ∀ t ∈ ts, Balanced t) : Balanced (commaSep ts) := by
  have hcomma : Balanced [','] := balanced_neutral (by decide)
  exact balanced_flatten (forall_commaPieces h fun t _ ht => hcomma.append ht)

theorem nulFree_commaSep {ts : List CStr} (h : ∀ t ∈ ts, NulFree t) : NulFree (commaSep ts) := by
  intro hmem
  obtain ⟨p, hp, hc⟩ := List.mem_flatten.mp hmem
  have hpieces := @forall_commaPieces NulFree ts h fun t _ ht => NulFree.cons (by decide) ht
  exact hpieces p hp hc

theorem ReadsMember.reads {m : CStr × JVal} {t : CStr} (h : ReadsMember m t) :
    Reads (.members [m]) t := by
  obtain ⟨hkey, text, hreads, rfl⟩ := h
  obtain ⟨ps, hchars, htext⟩ := exists_pieces hkey
  have hmember := Reads.member .none ps .none .none .none hreads
  rw [hchars, keyText, htext] at hmember
  simpa [Ws.none, memberText] using hmember

theorem readsMember {key : CStr} {v : JVal} {text : CStr} (hkey : ∀ c ∈ key, IsStrChar c)
    (h : Reads (.value v) text) : ReadsMember (key, v) (memberText key text) := ⟨hkey, text, h, rfl⟩

theorem reads_obj {ms : List (CStr × JVal)} {ts : List CStr} (h : List.Forall₂ ReadsMember ms ts) :
    Reads (.value (.obj ms)) ('\x7b' :: (commaSep ts ++ ['\x7d'])) := by
  cases h with
  | nil => exact .objNil .none
  | @cons m t ms ts hm hms =>
      refine .obj ?_
      induction hms generalizing m t with
      | nil =>
          rw [commaSep_singleton]
          exact hm.reads
      | @cons m' t' ms' ts' hm' hms' ih =>
          obtain ⟨hkey, text, hreads, rfl⟩ := hm
          obtain ⟨ps, hchars, htext⟩ := exists_pieces hkey
          have hmember := Reads.members .none ps .none .none .none hreads (ih hm')
          rw [hchars, keyText, htext] at hmember
          rw [commaSep_cons_cons]
          simpa [Ws.none, memberText] using hmember

theorem strChar_showInt (v : Int) : ∀ c ∈ showInt v, IsStrChar c := by
  intro c hc
  have hdigit : ∀ x : Char, x.isDigit = true → IsStrChar x := by
    intro x hx
    simp only [Char.isDigit, Bool.and_eq_true, decide_eq_true_eq] at hx
    have hlo : 48 ≤ x.toNat := UInt32.le_iff_toNat_le.mp hx.1
    refine ⟨UInt32.le_iff_toNat_le.mpr (le_trans (by decide) hlo), ?_, ?_⟩
    · rintro rfl
      exact absurd hlo (by decide)
    · rintro rfl
      exact absurd hx.2 (by decide)
  unfold showInt at hc
  split at hc
  · rcases List.mem_cons.mp hc with rfl | hc
    · decide
    · exact hdigit c (toDigits_isDigit v.natAbs c hc)
  · exact hdigit c (toDigits_isDigit v.natAbs c hc)

theorem quiet_showInt (v : Int) : ∀ c ∈ showInt v, IsQuiet c := by
  have hdigits : ∀ c ∈ Nat.toDigits 10 v.natAbs, IsQuiet c := by
    intro c hc hmem
    have hnot : ∀ x ∈ ['"', '[', ']', '\x7b', '\x7d', '\\'], x.isDigit = false := by decide
    exact absurd (toDigits_isDigit v.natAbs c hc) (by rw [hnot c hmem]; exact Bool.false_ne_true)
  intro c hc
  unfold showInt at hc
  split at hc
  · rcases List.mem_cons.mp hc with rfl | hc
    · decide
    · exact hdigits c hc
  · exact hdigits c hc

theorem quiet_commaSep {ts : List CStr} (h : ∀ t ∈ ts, ∀ c ∈ t, IsQuiet c) :
    ∀ c ∈ commaSep ts, IsQuiet c := by
  intro c hc
  obtain ⟨p, hp, hcp⟩ := List.mem_flatten.mp hc
  refine @forall_commaPieces (fun t => ∀ c ∈ t, IsQuiet c) ts h (fun t _ ht => ?_) p hp c hcp
  exact List.forall_mem_cons.mpr ⟨by decide, ht⟩

theorem denotes_of_reads {v : JVal} {t : CStr} (h : Reads (.value v) t) : Denotes v t :=
  ⟨.none, .none, t, h, by simp [Ws.none]⟩

end JsonText
