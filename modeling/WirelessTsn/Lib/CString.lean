import Mathlib.Data.List.Basic
import Mathlib.Tactic

/-!
C strings and fixed character buffers. A string is the list of the
characters that stand before its NUL, one `Char` for each C `char`, so
lengths are byte counts. A `char buf[n]` is a `Buf n`: a string together
with the proof that it leaves room for the NUL.
-/

namespace CText

abbrev CStr := List Char

/-- A property of the characters of a text is decided along the text. An
instance that runs over all of `Char` is not to be taken for it. -/
instance (priority := high) decidableBAllChar (s : CStr) (P : Char → Prop) [DecidablePred P] :
    Decidable (∀ c ∈ s, P c) :=
  List.decidableBAll P s

/-- The contents of a `char buf[n]`. -/
@[ext]
structure Buf (n : Nat) where
  chars : CStr
  fits : chars.length < n
deriving DecidableEq

theorem Buf.chars_injective {n : Nat} : Function.Injective (@Buf.chars n) :=
  fun _ _ h => Buf.ext h

/-- A bounded copy such as `strlcpy(dst, src, sizeof dst)`: the longest part
of `src` that leaves room for the NUL. -/
def Buf.copy (n : Nat) [NeZero n] (src : CStr) : Buf n :=
  ⟨src.take (n - 1), by
    have hpos : 0 < n := Nat.pos_of_neZero n
    simp only [List.length_take]
    omega⟩

theorem Buf.copy_chars (n : Nat) [NeZero n] (src : CStr) :
    (Buf.copy n src).chars = src.take (n - 1) := rfl

/-- Copying into a buffer changes nothing when the source fits. -/
theorem Buf.copy_chars_of_lt {n : Nat} [NeZero n] {src : CStr} (h : src.length < n) :
    (Buf.copy n src).chars = src :=
  List.take_of_length_le (by omega)

@[simp] theorem Buf.copy_self {n : Nat} [NeZero n] (b : Buf n) :
    Buf.copy n b.chars = b :=
  Buf.ext (Buf.copy_chars_of_lt b.fits)

/-! The comparison of texts and the sizes in use, by name: a term that mentions
one carries no proof of its own. -/

instance lawfulBEqCStr : LawfulBEq CStr := inferInstance

instance neZero32 : NeZero 32 := ⟨by decide⟩
instance neZero33 : NeZero 33 := ⟨by decide⟩
instance neZero48 : NeZero 48 := ⟨by decide⟩
instance neZero64 : NeZero 64 := ⟨by decide⟩
instance neZero65 : NeZero 65 := ⟨by decide⟩
instance neZero72 : NeZero 72 := ⟨by decide⟩
instance neZero96 : NeZero 96 := ⟨by decide⟩
instance neZero128 : NeZero 128 := ⟨by decide⟩
instance neZero256 : NeZero 256 := ⟨by decide⟩
instance neZero1024 : NeZero 1024 := ⟨by decide⟩
instance neZero4096 : NeZero 4096 := ⟨by decide⟩

/-- A buffer cleared by `memset`. -/
def Buf.empty {n : Nat} [NeZero n] : Buf n := ⟨[], Nat.pos_of_neZero n⟩

/-- An array of `n` slots of which the first `count` are in use. -/
@[ext]
structure Slots (α : Type) (n : Nat) where
  items : List α
  fits : items.length ≤ n
deriving DecidableEq

def Slots.empty {α : Type} {n : Nat} : Slots α n := ⟨[], by simp⟩

@[simp] theorem Slots.empty_items {α : Type} {n : Nat} :
    (Slots.empty : Slots α n).items = [] := rfl

/-- `if (count < n) slots[count++] = x;` -/
def Slots.push {α : Type} {n : Nat} (s : Slots α n) (x : α) : Slots α n :=
  if h : s.items.length < n then ⟨s.items ++ [x], by simpa using h⟩ else s

/-- An in-place change that needs no further slots. -/
def Slots.edit {α : Type} {n : Nat} (s : Slots α n) (f : List α → List α)
    (hf : (f s.items).length ≤ s.items.length) : Slots α n :=
  ⟨f s.items, hf.trans s.fits⟩

@[simp] theorem Slots.edit_items {α : Type} {n : Nat} (s : Slots α n) (f : List α → List α)
    (hf : (f s.items).length ≤ s.items.length) : (s.edit f hf).items = f s.items := rfl

/-- Filling slots from a list drops what does not fit. -/
theorem Slots.foldl_push_items {α : Type} {n : Nat} (s : Slots α n) (xs : List α) :
    (xs.foldl Slots.push s).items = (s.items ++ xs).take n := by
  induction xs generalizing s with
  | nil => simp [List.take_of_length_le s.fits]
  | cons x xs ih =>
      rw [List.foldl_cons, ih]
      by_cases h : s.items.length < n
      · simp [Slots.push, h]
      · have hfull : s.items.length = n := Nat.le_antisymm s.fits (by omega)
        simp [Slots.push, h, List.take_append_of_le_length hfull.ge]

/-- `strstr`: the text from the first place where `pat` stands. -/
def strstr (pat : CStr) : CStr → Option CStr
  | [] => if pat = [] then some [] else none
  | c :: cs => if pat.isPrefixOf (c :: cs) then some (c :: cs) else strstr pat cs

/-- `strchr`: the text from the first place where `c` stands. -/
def strchr (c : Char) : CStr → Option CStr
  | [] => none
  | x :: s => if x = c then some (x :: s) else strchr c s

theorem strchr_append {c : Char} {u : CStr} (h : c ∉ u) (s : CStr) :
    strchr c (u ++ s) = strchr c s := by
  induction u with
  | nil => rfl
  | cons x u ih =>
      rw [List.mem_cons, not_or] at h
      rw [List.cons_append, strchr, if_neg (Ne.symm h.1), ih h.2]

@[simp] theorem strchr_cons_self (c : Char) (s : CStr) : strchr c (c :: s) = some (c :: s) := by
  simp [strchr]

theorem strchr_eq_none {c : Char} {s : CStr} (h : c ∉ s) : strchr c s = none := by
  have happend := strchr_append h []
  rwa [List.append_nil] at happend

/-- A text split where a loop over characters stops. -/
theorem exists_span (p : Char → Bool) (s : CStr) :
    ∃ a b, s = a ++ b ∧ (∀ c ∈ a, p c = true) ∧ ∀ c ∈ b.head?, p c = false := by
  induction s with
  | nil => exact ⟨[], [], rfl, by simp, by simp⟩
  | cons c s ih =>
      cases hc : p c with
      | true =>
          obtain ⟨a, b, hs, ha, hb⟩ := ih
          exact ⟨c :: a, b, congrArg (c :: ·) hs, List.forall_mem_cons.mpr ⟨hc, ha⟩, hb⟩
      | false =>
          refine ⟨[], c :: s, rfl, by simp, ?_⟩
          intro d hd
          cases hd
          exact hc

/-- `strncmp(s, t, n) == 0`; a text ends with its terminator, which is compared
as well. -/
def strncmpEq : Nat → CStr → CStr → Bool
  | 0, _, _ => true
  | _ + 1, [], [] => true
  | _ + 1, [], _ :: _ => false
  | _ + 1, _ :: _, [] => false
  | n + 1, x :: s, y :: t => x == y && strncmpEq n s t

/-- Over the length of `t` it is the test for a prefix. -/
theorem strncmpEq_length (s t : CStr) : strncmpEq t.length s t = true ↔ t <+: s := by
  induction t generalizing s with
  | nil => simp [strncmpEq]
  | cons y t ih =>
      cases s with
      | nil => simp [strncmpEq]
      | cons x s =>
          rw [List.length_cons, strncmpEq, Bool.and_eq_true, ih, beq_iff_eq, List.cons_prefix_cons,
            eq_comm]

/-- Over one character more it is equality. -/
theorem strncmpEq_succ (s t : CStr) : strncmpEq (t.length + 1) s t = true ↔ s = t := by
  induction t generalizing s with
  | nil => cases s <;> simp [strncmpEq]
  | cons y t ih =>
      cases s with
      | nil => simp [strncmpEq]
      | cons x s =>
          rw [List.length_cons, strncmpEq, Bool.and_eq_true, ih, beq_iff_eq, List.cons.injEq]

/-- The loop `while ((tok = strtok_r(..)))` over one delimiter: `cur` is the
token being read. Runs of delimiters yield no token. -/
def strtokFrom (d : Char) : CStr → CStr → List CStr
  | [], [] => []
  | cur, [] => [cur]
  | cur, c :: cs =>
      if c = d then
        if cur = [] then strtokFrom d [] cs else cur :: strtokFrom d [] cs
      else strtokFrom d (cur ++ [c]) cs

def strtok (d : Char) (s : CStr) : List CStr := strtokFrom d [] s

theorem strtokFrom_nil_right (d : Char) {cur : CStr} (h : cur ≠ []) :
    strtokFrom d cur [] = [cur] := by
  cases cur with
  | nil => exact absurd rfl h
  | cons c cs => rfl

private theorem strtokFrom_append_sep (d : Char) (cur a b : CStr) :
    strtokFrom d cur (a ++ d :: b) = strtokFrom d cur a ++ strtokFrom d [] b := by
  induction a generalizing cur with
  | nil =>
      by_cases hcur : cur = []
      · subst hcur
        simp [strtokFrom]
      · simp [strtokFrom, strtokFrom_nil_right d hcur, hcur]
  | cons c cs ih =>
      by_cases hc : c = d
      · by_cases hcur : cur = []
        · simp [strtokFrom, hc, hcur, ih]
        · simp [strtokFrom, hc, hcur, ih]
      · simp [strtokFrom, hc, ih]

/-- A delimiter separates the tokens before it from the tokens after it. -/
theorem strtok_append_sep (d : Char) (a b : CStr) :
    strtok d (a ++ d :: b) = strtok d a ++ strtok d b :=
  strtokFrom_append_sep d [] a b

@[simp] theorem strtok_nil (d : Char) : strtok d [] = [] := rfl

private theorem strtokFrom_word (d : Char) (cur w : CStr) (hw : d ∉ w)
    (hne : cur ++ w ≠ []) : strtokFrom d cur w = [cur ++ w] := by
  induction w generalizing cur with
  | nil =>
      simp only [List.append_nil] at hne ⊢
      exact strtokFrom_nil_right d hne
  | cons c cs ih =>
      have hcd : c ≠ d := fun h => hw (by simp [h])
      have hrest : d ∉ cs := fun h => hw (by simp [h])
      simpa [strtokFrom, hcd] using ih (cur ++ [c]) hrest (by simp)

/-- A non-empty text without the delimiter is one token. -/
theorem strtok_word {d : Char} {w : CStr} (hne : w ≠ []) (hw : d ∉ w) :
    strtok d w = [w] :=
  strtokFrom_word d [] w hw hne

private theorem strtokFrom_cons (d : Char) (cur : CStr) (c : Char) (cs : CStr) :
    strtokFrom d cur (c :: cs) =
      if c = d then if cur = [] then strtokFrom d [] cs else cur :: strtokFrom d [] cs
      else strtokFrom d (cur ++ [c]) cs := by
  cases cur <;> rfl

private theorem not_mem_of_mem_strtokFrom {d : Char} {cur s w : CStr} (hcur : d ∉ cur)
    (hw : w ∈ strtokFrom d cur s) : d ∉ w := by
  induction s generalizing cur with
  | nil =>
      cases cur with
      | nil => simp [strtokFrom] at hw
      | cons c cs =>
          rw [strtokFrom_nil_right d (List.cons_ne_nil c cs), List.mem_singleton] at hw
          exact hw ▸ hcur
  | cons c s ih =>
      rw [strtokFrom_cons] at hw
      split at hw
      · split at hw
        · exact ih List.not_mem_nil hw
        · rcases List.mem_cons.mp hw with rfl | hw
          · exact hcur
          · exact ih List.not_mem_nil hw
      · rename_i hc
        refine ih (fun hmem => ?_) hw
        rcases List.mem_append.mp hmem with hmem | hmem
        · exact hcur hmem
        · exact hc (List.mem_singleton.mp hmem).symm

/-- No token holds the delimiter. -/
theorem not_mem_of_mem_strtok {d : Char} {s w : CStr} (hw : w ∈ strtok d s) : d ∉ w :=
  not_mem_of_mem_strtokFrom List.not_mem_nil hw

/-- The tokens of texts that each end in the delimiter are the tokens of the
texts, one after the other. -/
theorem strtok_flatten (d : Char) (texts : List CStr) :
    strtok d (texts.flatMap fun t => t ++ [d]) = texts.flatMap (strtok d) := by
  induction texts with
  | nil => rfl
  | cons t rest ih =>
      simp only [List.flatMap_cons, List.append_assoc, List.singleton_append]
      rw [strtok_append_sep, ih]

private theorem strtokFrom_length_pos (d : Char) {cur : CStr} (h : cur ≠ []) (s : CStr) :
    0 < (strtokFrom d cur s).length := by
  induction s generalizing cur with
  | nil => simp [strtokFrom_nil_right d h]
  | cons c cs ih =>
      rw [strtokFrom_cons]
      split
      · simp
      · exact ih (by simp)

private theorem strtokFrom_take_length_le (d : Char) (cur s : CStr) (n : Nat) :
    (strtokFrom d cur (s.take n)).length ≤ (strtokFrom d cur s).length := by
  induction s generalizing cur n with
  | nil => simp
  | cons c cs ih =>
      cases n with
      | zero =>
          rw [List.take_zero]
          by_cases hcur : cur = []
          · simp [hcur, strtokFrom]
          · rw [strtokFrom_nil_right d hcur]
            exact strtokFrom_length_pos d hcur _
      | succ n =>
          rw [List.take_succ_cons, strtokFrom_cons d cur c (cs.take n), strtokFrom_cons d cur c cs]
          by_cases hc : c = d
          · rw [if_pos hc, if_pos hc]
            by_cases hcur : cur = []
            · rw [if_pos hcur, if_pos hcur]
              exact ih [] n
            · rw [if_neg hcur, if_neg hcur]
              exact Nat.succ_le_succ (ih [] n)
          · rw [if_neg hc, if_neg hc]
            exact ih (cur ++ [c]) n

/-- A cut line has no more tokens than the whole. -/
theorem strtok_take_length_le (d : Char) (s : CStr) (n : Nat) :
    (strtok d (s.take n)).length ≤ (strtok d s).length :=
  strtokFrom_take_length_le d [] s n

private theorem flatten_strtokFrom_length (d : Char) (cur s : CStr) :
    (strtokFrom d cur s).flatten.length ≤ cur.length + s.length := by
  induction s generalizing cur with
  | nil =>
      by_cases hcur : cur = []
      · simp [hcur, strtokFrom]
      · simp [strtokFrom_nil_right d hcur]
  | cons c cs ih =>
      have hempty := ih []
      have hgrown := ih (cur ++ [c])
      simp only [List.length_nil, List.length_append, List.length_singleton] at hempty hgrown
      rw [strtokFrom_cons]
      split
      · split
        · rw [List.length_cons]
          omega
        · rw [List.flatten_cons, List.length_append, List.length_cons]
          omega
      · rw [List.length_cons]
        omega

/-- The tokens hold no more characters than the line. -/
theorem flatten_strtok_length (d : Char) (s : CStr) : (strtok d s).flatten.length ≤ s.length := by
  have h := flatten_strtokFrom_length d [] s
  rwa [List.length_nil, Nat.zero_add] at h

/-- The tokens left of a space-separated line cut after `n` bytes: the last
one may have lost its end. -/
def cutTokens (n : Nat) : List CStr → List CStr
  | [] => []
  | t :: ts =>
      if n = 0 then []
      else if t.length ≤ n then t :: cutTokens (n - t.length - 1) ts
      else [t.take n]

theorem cutTokens_zero (ts : List CStr) : cutTokens 0 ts = [] := by
  cases ts <;> rfl

theorem strtok_take (d : Char) (n : Nat) (ts : List CStr)
    (hts : ∀ t ∈ ts, t ≠ [] ∧ d ∉ t) :
    strtok d ((ts.flatMap fun t => t ++ [d]).take n) = cutTokens n ts := by
  induction ts generalizing n with
  | nil => simp [cutTokens]
  | cons t ts ih =>
      obtain ⟨hne, hd⟩ := hts t (by simp)
      have hrest := ih (n - t.length - 1) fun u hu => hts u (by simp [hu])
      simp only [List.flatMap_cons, List.append_assoc, cutTokens]
      by_cases hzero : n = 0
      · simp [hzero]
      rw [if_neg hzero]
      split
      · rename_i hle
        rw [List.take_append, List.take_of_length_le hle]
        rcases Nat.eq_or_lt_of_le hle with heq | hlt
        · -- The cut fell on the delimiter behind `t`.
          rw [heq, Nat.sub_self, Nat.zero_sub, cutTokens_zero, List.take_zero,
            List.append_nil, strtok_word hne hd]
        · obtain ⟨k, hk⟩ : ∃ k, n - t.length = k + 1 := ⟨n - t.length - 1, by omega⟩
          rw [hk] at hrest ⊢
          simp only [List.singleton_append, List.take_succ_cons, Nat.add_sub_cancel] at hrest ⊢
          rw [strtok_append_sep, strtok_word hne hd, hrest]
          rfl
      · rename_i hgt
        rw [List.take_append_of_le_length (by omega)]
        apply strtok_word
        · simp [hne, hzero]
        · exact fun h => hd (List.mem_of_mem_take h)

/-- The tokens of a line cut after `n` bytes, each with the tokens ahead of it:
one that begins within the `n` bytes, as far as it stands there. -/
theorem mem_cutTokens_iff {n : Nat} {ts : List CStr} {p : CStr} :
    p ∈ cutTokens n ts ↔ ∃ front t back, ts = front ++ t :: back ∧
      (front.map fun t => t.length + 1).sum < n ∧
        p = t.take (n - (front.map fun t => t.length + 1).sum) := by
  induction ts generalizing n with
  | nil => simp [cutTokens]
  | cons t ts ih =>
      have hsplit : (∃ front u back, t :: ts = front ++ u :: back ∧
          (front.map fun t => t.length + 1).sum < n ∧
            p = u.take (n - (front.map fun t => t.length + 1).sum)) ↔
          (0 < n ∧ p = t.take n) ∨ p ∈ cutTokens (n - t.length - 1) ts := by
        rw [ih]
        constructor
        · rintro ⟨front, u, back, hts, hlt, rfl⟩
          cases front with
          | nil =>
              obtain ⟨rfl, -⟩ := List.cons.inj hts
              exact Or.inl ⟨hlt, rfl⟩
          | cons t' front =>
              obtain ⟨rfl, rfl⟩ := List.cons.inj hts
              rw [List.map_cons, List.sum_cons] at hlt ⊢
              refine Or.inr ⟨front, u, back, rfl, by omega, ?_⟩
              congr 1
              omega
        · rintro (⟨hpos, rfl⟩ | ⟨front, u, back, rfl, hlt, rfl⟩)
          · exact ⟨[], t, ts, rfl, hpos, rfl⟩
          · refine ⟨t :: front, u, back, rfl, ?_, ?_⟩
            · rw [List.map_cons, List.sum_cons]
              omega
            · rw [List.map_cons, List.sum_cons]
              congr 1
              omega
      rw [hsplit, cutTokens]
      split
      · rename_i hzero
        simp [hzero, cutTokens_zero]
      split
      · rename_i hpos hfits
        rw [List.mem_cons, List.take_of_length_le hfits]
        exact or_congr_left (and_iff_right (Nat.pos_of_ne_zero hpos)).symm
      · rename_i hpos hcut
        have hnone : n - t.length - 1 = 0 := by omega
        rw [hnone, cutTokens_zero, List.mem_singleton]
        simp [Nat.pos_of_ne_zero hpos]

private theorem exists_isPrefix_strtokFrom (d : Char) {cur : CStr} (h : cur ≠ []) (s : CStr) :
    ∃ t ∈ strtokFrom d cur s, cur <+: t := by
  induction s generalizing cur with
  | nil => exact ⟨cur, by simp [strtokFrom_nil_right d h], List.prefix_refl cur⟩
  | cons c cs ih =>
      rw [strtokFrom_cons]
      split
      · exact ⟨cur, by simp, List.prefix_refl cur⟩
      · obtain ⟨t, ht, hp⟩ := @ih (cur ++ [c]) (by simp)
        exact ⟨t, ht, (List.prefix_append cur [c]).trans hp⟩

private theorem exists_isPrefix_of_mem_strtokFrom_take (d : Char) {cur s p : CStr} {n : Nat}
    (h : p ∈ strtokFrom d cur (s.take n)) : ∃ t ∈ strtokFrom d cur s, p <+: t := by
  induction s generalizing cur n with
  | nil => exact ⟨p, by simpa using h, List.prefix_refl p⟩
  | cons c cs ih =>
      cases n with
      | zero =>
          by_cases hcur : cur = []
          · simp [hcur, strtokFrom] at h
          · rw [List.take_zero, strtokFrom_nil_right d hcur, List.mem_singleton] at h
            exact h ▸ exists_isPrefix_strtokFrom d hcur (c :: cs)
      | succ n =>
          rw [List.take_succ_cons, strtokFrom_cons] at h
          rw [strtokFrom_cons]
          by_cases hc : c = d
          · rw [if_pos hc] at h ⊢
            by_cases hcur : cur = []
            · rw [if_pos hcur] at h ⊢
              exact ih h
            · rw [if_neg hcur] at h ⊢
              rcases List.mem_cons.mp h with rfl | h
              · exact ⟨p, List.mem_cons_self, List.prefix_refl p⟩
              · obtain ⟨t, ht, hp⟩ := ih h
                exact ⟨t, List.mem_cons_of_mem cur ht, hp⟩
          · rw [if_neg hc] at h ⊢
            exact ih h

/-- Every token of a cut line begins a token of the line. -/
theorem exists_isPrefix_of_mem_strtok_take {d : Char} {s p : CStr} {n : Nat}
    (h : p ∈ strtok d (s.take n)) : ∃ t ∈ strtok d s, p <+: t :=
  exists_isPrefix_of_mem_strtokFrom_take d h

/-- One `snprintf(buf + len, cap - len, ..)` at the end of a growing buffer of
`cap` bytes: what does not fit is dropped. -/
def appendField (cap : Nat) (buf text : CStr) : CStr :=
  buf ++ text.take (cap - 1 - buf.length)

/-- A run of appends is the whole text cut once at the capacity. -/
theorem foldl_appendField (cap : Nat) (buf : CStr) (texts : List CStr)
    (hbuf : buf.length ≤ cap - 1) :
    texts.foldl (appendField cap) buf = (buf ++ texts.flatten).take (cap - 1) := by
  induction texts generalizing buf with
  | nil => simp [List.take_of_length_le hbuf]
  | cons t rest ih =>
      have hstep : appendField cap buf t = (buf ++ t).take (cap - 1) := by
        rw [appendField, List.take_append, List.take_of_length_le hbuf]
      have hlen : ((buf ++ t).take (cap - 1)).length ≤ cap - 1 := by simp
      rw [List.foldl_cons, hstep, ih _ hlen, List.flatten_cons, ← List.append_assoc]
      -- The part already cut keeps the length that decides where the rest is cut.
      rcases Nat.le_total (buf ++ t).length (cap - 1) with h | h
      · rw [List.take_of_length_le h]
      · rw [List.take_append_of_le_length (by simpa using h), List.take_take, Nat.min_self,
          List.take_append_of_le_length h]

end CText
