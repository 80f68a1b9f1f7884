import Mathlib.Data.List.TakeWhile
import WirelessTsn.Lib.Snprintf

/-!
A text put together with `n += snprintf(buf + n, size - n, ..)`, the position
kept in a word of any width. A call that starts behind the buffer leaves what
is in it alone, so the buffer always holds the whole text, cut to what fits;
whether the calls stay inside is a matter of their positions.
-/

namespace CText

/-- The string in a buffer of `n` bytes; where nothing was written it ends. -/
def Mem.str (m : Mem) (n : Nat) : CStr :=
  ((List.range n).map fun i => (m i).getD '\x00').takeWhile (· != '\x00')

/-- A buffer, the position of the next call and those of the calls so far. -/
structure Writer (w : Nat) where
  mem : Mem
  pos : BitVec w
  starts : List (BitVec w)

variable {w : Nat} {size : BitVec w} {m : Mem} {s t : CStr} {n : Nat} {texts : List CStr}

def Writer.fresh : Writer w := ⟨.fresh, 0, []⟩

/-- `n += snprintf(buf + n, size - n, ..)` -/
def Writer.append (size : BitVec w) (b : Writer w) (text : CStr) : Writer w where
  mem := b.mem.snprintf b.pos.toNat (size - b.pos).toNat text
  pos := b.pos + BitVec.ofNat w text.length
  starts := b.starts ++ [b.pos]

@[simp] theorem Writer.append_mem (b : Writer w) (text : CStr) :
    (b.append size text).mem = b.mem.snprintf b.pos.toNat (size - b.pos).toNat text := rfl

/-- One call for each text. -/
def Writer.appendAll (size : BitVec w) (b : Writer w) (texts : List CStr) : Writer w :=
  texts.foldl (Writer.append size) b

/-! ### What a buffer holds -/

theorem Mem.nul_notMem_str (m : Mem) (n : Nat) : '\x00' ∉ m.str n := by
  intro hmem
  exact absurd (List.mem_takeWhile_imp hmem) (by decide)

theorem Mem.str_length_le (m : Mem) (n : Nat) : (m.str n).length ≤ n := by
  have hle := (List.takeWhile_prefix (· != '\x00') (l := (List.range n).map fun i =>
    (m i).getD '\x00')).length_le
  rwa [List.length_map, List.length_range] at hle

/-- A string that is held is read up to its first NUL. -/
theorem Mem.Holds.str_eq (h : m.Holds s) (hfit : s.length < n) :
    m.str n = s.takeWhile (· != '\x00') := by
  have hrange : List.range n = List.range (s.length + 1) ++
      (List.range (n - s.length - 1)).map (s.length + 1 + ·) := by
    rw [← List.range_add]
    congr 1
    omega
  have hheld : (List.range (s.length + 1)).map (fun i => (m i).getD '\x00') = s ++ ['\x00'] := by
    apply List.ext_getElem
    · simp
    · intro i hi hi'
      rw [List.length_map, List.length_range] at hi
      rw [List.getElem_map, List.getElem_range, h i (by simpa using hi),
        List.getElem?_eq_getElem hi', Option.getD_some]
  rw [Mem.str, hrange, List.map_append, hheld, List.append_assoc]
  rw [List.takeWhile_append]
  split
  · rename_i hwhole
    rw [(List.takeWhile_prefix _).eq_of_length hwhole]
    exact List.append_nil s
  · rfl

theorem Mem.Holds.str (h : m.Holds s) (hnul : '\x00' ∉ s) (hfit : s.length < n) : m.str n = s := by
  rw [h.str_eq hfit, List.takeWhile_eq_self_iff]
  intro c hc
  rw [bne_iff_ne]
  rintro rfl
  exact hnul hc

/-- What is written at or behind the end of a string stays out of it. -/
theorem Mem.Holds.snprintf_behind (h : m.Holds s) {pos room : Nat} (hpos : s.length < pos) :
    (m.snprintf pos room t).Holds s := by
  intro i hi
  rw [List.length_append, List.length_singleton] at hi
  unfold Mem.snprintf Mem.write
  split
  · exact h i (by simpa using hi)
  · refine (if_neg (by omega)).trans ?_
    exact h i (by simpa using hi)

/-- A text can be written over from any place in it. -/
theorem Mem.Starts.take (h : m.Starts s) (n : Nat) : m.Starts (s.take n) := by
  intro i hi
  rw [List.length_take] at hi
  rw [List.getElem?_take_of_lt (by omega)]
  exact h i (by omega)

/-! ### Runs of calls -/

theorem Writer.appendAll_cons (b : Writer w) (text : CStr) :
    b.appendAll size (text :: texts) = (b.append size text).appendAll size texts := rfl

theorem Writer.appendAll_append (b : Writer w) (us : List CStr) :
    b.appendAll size (texts ++ us) = (b.appendAll size texts).appendAll size us :=
  List.foldl_append

theorem Writer.appendAll_concat (b : Writer w) (text : CStr) :
    b.appendAll size (texts ++ [text]) = (b.appendAll size texts).append size text :=
  Writer.appendAll_append b [text]

/-- Two sizes that both have room for a text make no difference. -/
theorem Writer.append_of_room {b : Writer w} {size' : BitVec w} {text : CStr}
    (h : text.length < (size - b.pos).toNat) (h' : text.length < (size' - b.pos).toNat) :
    b.append size text = b.append size' text := by
  have hmem : b.mem.snprintf b.pos.toNat (size - b.pos).toNat text =
      b.mem.snprintf b.pos.toNat (size' - b.pos).toNat text := by
    rw [Mem.snprintf, if_neg (by omega), Mem.snprintf, if_neg (by omega),
      List.take_of_length_le (by omega), List.take_of_length_le (by omega)]
  rw [Writer.append, Writer.append, hmem]

/-- The position counts the whole texts, whether they fitted or not. -/
theorem Writer.pos_appendAll (htotal : texts.flatten.length < 2 ^ w) :
    ((Writer.fresh : Writer w).appendAll size texts).pos.toNat = texts.flatten.length := by
  induction texts using List.reverseRecOn with
  | nil => simp [Writer.appendAll, Writer.fresh]
  | append_singleton ts t ih =>
      rw [List.flatten_append, List.length_append, List.flatten_singleton] at htotal ⊢
      have hstep : ((Writer.fresh : Writer w).appendAll size (ts ++ [t])).pos =
          ((Writer.fresh : Writer w).appendAll size ts).pos + BitVec.ofNat w t.length := by
        rw [Writer.appendAll_concat]
        rfl
      rw [hstep, BitVec.toNat_add, ih (by omega), BitVec.toNat_ofNat, Nat.add_mod_mod]
      exact Nat.mod_eq_of_lt htotal

/-- A later call does not take back where an earlier one started. -/
theorem Writer.pos_mem_starts (b : Writer w) (text : CStr) (us : List CStr) :
    (b.appendAll size texts).pos ∈ (b.appendAll size (texts ++ text :: us)).starts := by
  have hkeep : ∀ (us : List CStr) (b : Writer w) (p : BitVec w), p ∈ b.starts →
      p ∈ (b.appendAll size us).starts := by
    intro us
    induction us with
    | nil => exact fun b p hp => hp
    | cons u us ih => exact fun b p hp => ih (b.append size u) p (List.mem_append_left _ hp)
  rw [Writer.appendAll_append]
  apply hkeep us
  exact List.mem_append_right _ List.mem_cons_self

/-- Every call starts inside the buffer. -/
def Writer.StartsInside (size : BitVec w) (b : Writer w) : Prop := ∀ p ∈ b.starts, p < size

theorem Writer.startsInside_appendAll (htotal : texts.dropLast.flatten.length < size.toNat) :
    ((Writer.fresh : Writer w).appendAll size texts).StartsInside size := by
  induction texts using List.reverseRecOn with
  | nil =>
      intro p hp
      cases hp
  | append_singleton ts t ih =>
      rw [List.dropLast_concat] at htotal
      have hshort : ts.dropLast.flatten.length ≤ ts.flatten.length :=
        (List.dropLast_sublist ts).flatten.length_le
      rw [Writer.appendAll_concat]
      intro p hp
      rcases List.mem_append.mp hp with hp | hp
      · exact ih (by omega) p hp
      · rw [List.mem_singleton.mp hp, BitVec.lt_def, Writer.pos_appendAll (htotal.trans size.isLt)]
        exact htotal

/-- A text that has outgrown the buffer starts a call outside. -/
theorem Writer.not_startsInside {text : CStr} {us : List CStr}
    (hout : size.toNat ≤ texts.flatten.length) (htotal : texts.flatten.length < 2 ^ w) :
    ¬ ((Writer.fresh : Writer w).appendAll size (texts ++ text :: us)).StartsInside size := by
  intro hinside
  have hpos := hinside _ (Writer.pos_mem_starts Writer.fresh text us)
  rw [BitVec.lt_def, Writer.pos_appendAll htotal] at hpos
  omega

/-- Pieces of bounded length come past a position within one piece of it. -/
theorem exists_crossing {k : Nat} (hpos : 0 < n) (hshort : ∀ t ∈ texts, t.length ≤ k)
    (hout : n ≤ texts.flatten.length) :
    ∃ a b, texts = a ++ b ∧ n ≤ a.flatten.length ∧ a.flatten.length < n + k := by
  induction texts using List.reverseRecOn with
  | nil =>
      rw [List.flatten_nil, List.length_nil] at hout
      omega
  | append_singleton ts t ih =>
      rcases Nat.lt_or_ge ts.flatten.length n with hin | hpast
      · refine ⟨ts ++ [t], [], (List.append_nil _).symm, hout, ?_⟩
        have ht := hshort t (by simp)
        rw [List.flatten_append, List.length_append, List.flatten_singleton]
        omega
      · obtain ⟨a, b, rfl, hle, hlt⟩ := ih (fun u hu => hshort u (List.mem_append_left _ hu)) hpast
        exact ⟨a, b ++ [t], List.append_assoc a b [t], hle, hlt⟩

/-- However long the text gets, its first call outside is one of the calls. -/
theorem Writer.not_startsInside_of_short {k : Nat} (hpos : 0 < size.toNat)
    (hshort : ∀ t ∈ texts, t.length ≤ k) (hwidth : size.toNat + k ≤ 2 ^ w)
    (hout : size.toNat ≤ texts.flatten.length) (last : CStr) :
    ¬ ((Writer.fresh : Writer w).appendAll size (texts ++ [last])).StartsInside size := by
  obtain ⟨a, b, rfl, hle, hlt⟩ := exists_crossing hpos hshort hout
  obtain ⟨u, us, hrest⟩ : ∃ u us, b ++ [last] = u :: us := List.exists_cons_of_ne_nil (by simp)
  rw [List.append_assoc, hrest]
  exact Writer.not_startsInside hle (by omega)

/-- The last of the calls, when it starts inside the buffer. -/
theorem Writer.mem_concat (hin : texts.flatten.length < size.toNat) (t : CStr) :
    ((Writer.fresh : Writer w).appendAll size (texts ++ [t])).mem =
      ((Writer.fresh : Writer w).appendAll size texts).mem.snprintf texts.flatten.length
        (size.toNat - texts.flatten.length) t := by
  have hpos : ((Writer.fresh : Writer w).appendAll size texts).pos.toNat = texts.flatten.length :=
    Writer.pos_appendAll (hin.trans size.isLt)
  have hroom : (size - ((Writer.fresh : Writer w).appendAll size texts).pos).toNat =
      size.toNat - texts.flatten.length := by
    rw [BitVec.toNat_sub_of_le (BitVec.le_def.mpr (by omega)), hpos]
  rw [Writer.appendAll_concat, ← hroom, ← hpos]
  rfl

/-- The buffer holds the text, cut to what fits. -/
theorem Writer.holds_appendAll (hne : texts ≠ []) (hsize : 0 < size.toNat)
    (htotal : texts.flatten.length < 2 ^ w) :
    ((Writer.fresh : Writer w).appendAll size texts).mem.Holds
      (texts.flatten.take (size.toNat - 1)) := by
  induction texts using List.reverseRecOn with
  | nil => exact absurd rfl hne
  | append_singleton ts t ih =>
      rw [List.flatten_append, List.length_append, List.flatten_singleton] at htotal
      rw [List.flatten_append, List.flatten_singleton]
      rcases Nat.lt_or_ge ts.flatten.length size.toNat with hin | hout
      · have hbefore : ((Writer.fresh : Writer w).appendAll size ts).mem.Starts ts.flatten := by
          rcases List.eq_nil_or_concat ts with rfl | ⟨us, u, rfl⟩
          · exact Mem.fresh_starts
          · have hheld := (ih (by simp) (by omega)).starts
            rwa [List.take_of_length_le (by omega)] at hheld
        rw [Writer.mem_concat hin]
        exact hbefore.snprintf hin t
      · -- The call starts behind the NUL, so the string stays as it is.
        have hpos : ((Writer.fresh : Writer w).appendAll size ts).pos.toNat = ts.flatten.length :=
          Writer.pos_appendAll (by omega)
        have hts : ts ≠ [] := by
          rintro rfl
          rw [List.flatten_nil, List.length_nil] at hout
          omega
        rw [List.take_append_of_le_length (by omega), Writer.appendAll_concat]
        refine (ih hts (by omega)).snprintf_behind ?_
        rw [List.length_take, hpos]
        omega

/-- What is read from the buffer. -/
theorem Writer.str_appendAll (hne : texts ≠ []) (hnul : '\x00' ∉ texts.flatten)
    (hsize : 0 < size.toNat) (htotal : texts.flatten.length < 2 ^ w) :
    ((Writer.fresh : Writer w).appendAll size texts).mem.str size.toNat =
      texts.flatten.take (size.toNat - 1) := by
  refine (Writer.holds_appendAll hne hsize htotal).str (fun hmem => ?_) ?_
  · exact hnul (List.mem_of_mem_take hmem)
  · rw [List.length_take]
    omega

theorem Writer.within_appendAll (hin : texts.dropLast.flatten.length < size.toNat) :
    ((Writer.fresh : Writer w).appendAll size texts).mem.Within size.toNat := by
  induction texts using List.reverseRecOn with
  | nil => exact Mem.fresh_within _
  | append_singleton ts t ih =>
      rw [List.dropLast_concat] at hin
      have hshort : ts.dropLast.flatten.length ≤ ts.flatten.length :=
        (List.dropLast_sublist ts).flatten.length_le
      rw [Writer.mem_concat hin]
      exact (ih (by omega)).snprintf hin t

/-! ### A loop that stops at a full buffer -/

/-- `for (..; i < n && off + 1 < size; i++) off += snprintf(..);` -/
def Writer.appendGuarded (size : BitVec w) (b : Writer w) (texts : List CStr) : Writer w :=
  texts.foldl (fun b t => if b.pos + 1 < size then b.append size t else b) b

theorem Writer.appendGuarded_stop {b : Writer w} (h : ¬ b.pos + 1 < size) (us : List CStr) :
    b.appendGuarded size us = b := by
  induction us with
  | nil => rfl
  | cons u us ih =>
      rw [Writer.appendGuarded, List.foldl_cons, if_neg h]
      exact ih

/-- The loop prints a first part of its texts; when this is not all of them,
the buffer is full. -/
theorem Writer.appendGuarded_eq {k : Nat} (hwidth : size.toNat + k < 2 ^ w) (us : List CStr)
    (hshort : ∀ u ∈ us, u.length ≤ k) (hlen : texts.flatten.length < size.toNat + k) :
    ∃ done, done <+: us ∧
      ((Writer.fresh : Writer w).appendAll size texts).appendGuarded size us =
        Writer.fresh.appendAll size (texts ++ done) ∧
      (texts ++ done).flatten.length < size.toNat + k ∧
      (done = us ∨ size.toNat ≤ (texts ++ done).flatten.length + 1) := by
  induction us generalizing texts with
  | nil =>
      refine ⟨[], List.prefix_rfl, ?_, ?_, .inl rfl⟩
      · rw [List.append_nil]
        rfl
      · rwa [List.append_nil]
  | cons u us ih =>
      have hu := hshort u List.mem_cons_self
      have hpos : ((Writer.fresh : Writer w).appendAll size texts).pos.toNat = texts.flatten.length :=
        Writer.pos_appendAll (by omega)
      have hguard : ((Writer.fresh : Writer w).appendAll size texts).pos + 1 < size ↔
          texts.flatten.length + 1 < size.toNat := by
        have hone : (1 : BitVec w).toNat = 1 % 2 ^ w := BitVec.toNat_ofNat 1 w
        rw [BitVec.lt_def, BitVec.toNat_add, hpos, hone, Nat.add_mod_mod, Nat.mod_eq_of_lt (by omega)]
      rcases Nat.lt_or_ge (texts.flatten.length + 1) size.toNat with hroom | hfull
      · have hnext : (texts ++ [u]).flatten.length < size.toNat + k := by
          rw [List.flatten_append, List.length_append, List.flatten_singleton]
          omega
        obtain ⟨done, hdone, heq, hbound, hend⟩ :=
          ih (fun x hx => hshort x (List.mem_cons_of_mem u hx)) hnext
        rw [List.append_assoc, List.singleton_append] at heq hbound hend
        refine ⟨u :: done, (List.prefix_cons_inj u).mpr hdone, ?_, hbound, ?_⟩
        · rw [← heq, Writer.appendAll_concat, Writer.appendGuarded, List.foldl_cons,
            if_pos (hguard.mpr hroom)]
          rfl
        · exact hend.imp (congrArg (u :: ·)) id
      · refine ⟨[], List.nil_prefix, ?_, ?_, .inr ?_⟩
        · rw [List.append_nil]
          exact Writer.appendGuarded_stop (hguard.not.mpr (by omega)) (u :: us)
        · rwa [List.append_nil]
        · rwa [List.append_nil]

end CText
