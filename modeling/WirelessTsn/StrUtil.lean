import WirelessTsn.Lib.Utf8

/-!
`htsn_str_valid_utf8` of `src/common/str_util.c`. It checks that every lead byte
has its continuation bytes and looks at nothing else, so it takes overlong
forms, surrogates and code points that are too large for UTF-8.
-/

namespace Htsn

open Utf8

/-- The loop, from `p` on; `none` when a read leaves the memory that is given.
Every continuation byte is checked before the next one is read. -/
def validUtf8From : List UInt8 → Option Int32
  | [] => none
  | a :: p =>
      if a = 0 then some 1
      else if a < 0x80 then validUtf8From p
      else if a &&& 0xE0 = 0xC0 then
        match p with
        | [] => none
        | b :: p => if b &&& 0xC0 ≠ 0x80 then some 0 else validUtf8From p
      else if a &&& 0xF0 = 0xE0 then
        match p with
        | [] => none
        | b :: p =>
            if b &&& 0xC0 ≠ 0x80 then some 0
            else
              match p with
              | [] => none
              | c :: p => if c &&& 0xC0 ≠ 0x80 then some 0 else validUtf8From p
      else if a &&& 0xF8 = 0xF0 then
        match p with
        | [] => none
        | b :: p =>
            if b &&& 0xC0 ≠ 0x80 then some 0
            else
              match p with
              | [] => none
              | c :: p =>
                  if c &&& 0xC0 ≠ 0x80 then some 0
                  else
                    match p with
                    | [] => none
                    | d :: p => if d &&& 0xC0 ≠ 0x80 then some 0 else validUtf8From p
      else some 0

/-- `htsn_str_valid_utf8` -/
def strValidUtf8 : Option (List UInt8) → Option Int32
  | none => some 0
  | some s => validUtf8From s

/-! ### The masks -/

theorem forall_byte {P : UInt8 → Prop} (h : ∀ n : Fin 256, P (UInt8.ofNat n)) (b : UInt8) : P b := by
  have hb := h ⟨b.toNat, b.toNat_lt⟩
  rwa [UInt8.ofNat_toNat] at hb

theorem masks (b : UInt8) :
    (b &&& 0xC0 = 0x80 ↔ IsCont b) ∧
      (b &&& 0xE0 = 0xC0 ↔ 0xC0 ≤ b.toNat ∧ b.toNat < 0xE0) ∧
      (b &&& 0xF0 = 0xE0 ↔ 0xE0 ≤ b.toNat ∧ b.toNat < 0xF0) ∧
      (b &&& 0xF8 = 0xF0 ↔ 0xF0 ≤ b.toNat ∧ b.toNat < 0xF8) := by
  revert b
  unfold IsCont
  exact forall_byte (by decide +kernel)

theorem cont_mask (b : UInt8) : b &&& 0xC0 = 0x80 ↔ IsCont b := (masks b).1

theorem lead2_mask (a : UInt8) : a &&& 0xE0 = 0xC0 ↔ 0xC0 ≤ a.toNat ∧ a.toNat < 0xE0 :=
  (masks a).2.1

theorem lead3_mask (a : UInt8) : a &&& 0xF0 = 0xE0 ↔ 0xE0 ≤ a.toNat ∧ a.toNat < 0xF0 :=
  (masks a).2.2.1

theorem lead4_mask (a : UInt8) : a &&& 0xF8 = 0xF0 ↔ 0xF0 ≤ a.toNat ∧ a.toNat < 0xF8 :=
  (masks a).2.2.2

theorem lt_iff (a : UInt8) : a < 0x80 ↔ a.toNat < 0x80 := UInt8.lt_iff_toNat_lt

/-! ### The loop by lead bytes -/

/-- `n` continuation bytes, then the loop again. -/
def validAfter : Nat → List UInt8 → Option Int32
  | 0, p => validUtf8From p
  | _ + 1, [] => none
  | n + 1, b :: p => if b &&& 0xC0 ≠ 0x80 then some 0 else validAfter n p

/-- One round of the loop. -/
theorem valid_cons (a : UInt8) (p : List UInt8) :
    validUtf8From (a :: p) =
      if a = 0 then some 1
      else if a < 0x80 then validUtf8From p
      else if a &&& 0xE0 = 0xC0 then validAfter 1 p
      else if a &&& 0xF0 = 0xE0 then validAfter 2 p
      else if a &&& 0xF8 = 0xF0 then validAfter 3 p
      else some 0 := by
  rw [validUtf8From.eq_def]
  match p with
  | [] => rfl
  | [b] => rfl
  | [b, c] => rfl
  | b :: c :: d :: p => rfl

theorem ne_zero_of_le {a : UInt8} (ha : 0x80 ≤ a.toNat) : a ≠ 0 := by
  rintro rfl
  exact absurd ha (by decide)

theorem valid_one {a : UInt8} (hzero : a ≠ 0) (ha : a.toNat < 0x80) (p : List UInt8) :
    validUtf8From (a :: p) = validUtf8From p := by
  rw [valid_cons, if_neg hzero, if_pos ((lt_iff a).mpr ha)]

theorem valid_two {a : UInt8} (ha : 0xC0 ≤ a.toNat) (ha' : a.toNat < 0xE0) (p : List UInt8) :
    validUtf8From (a :: p) = validAfter 1 p := by
  have hzero : a ≠ 0 := ne_zero_of_le (by omega)
  rw [valid_cons, if_neg hzero, if_neg (by rw [lt_iff]; omega),
    if_pos ((lead2_mask a).mpr ⟨ha, ha'⟩)]

theorem valid_three {a : UInt8} (ha : 0xE0 ≤ a.toNat) (ha' : a.toNat < 0xF0) (p : List UInt8) :
    validUtf8From (a :: p) = validAfter 2 p := by
  have hzero : a ≠ 0 := ne_zero_of_le (by omega)
  rw [valid_cons, if_neg hzero, if_neg (by rw [lt_iff]; omega), if_neg (by rw [lead2_mask]; omega),
    if_pos ((lead3_mask a).mpr ⟨ha, ha'⟩)]

theorem valid_four {a : UInt8} (ha : 0xF0 ≤ a.toNat) (ha' : a.toNat < 0xF8) (p : List UInt8) :
    validUtf8From (a :: p) = validAfter 3 p := by
  have hzero : a ≠ 0 := ne_zero_of_le (by omega)
  rw [valid_cons, if_neg hzero, if_neg (by rw [lt_iff]; omega), if_neg (by rw [lead2_mask]; omega),
    if_neg (by rw [lead3_mask]; omega), if_pos ((lead4_mask a).mpr ⟨ha, ha'⟩)]

theorem valid_other {a : UInt8} (ha : 0x80 ≤ a.toNat ∧ a.toNat < 0xC0 ∨ 0xF8 ≤ a.toNat) (p : List UInt8) :
    validUtf8From (a :: p) = some 0 := by
  have hzero : a ≠ 0 := ne_zero_of_le (by omega)
  rw [valid_cons, if_neg hzero, if_neg (by rw [lt_iff]; omega), if_neg (by rw [lead2_mask]; omega),
    if_neg (by rw [lead3_mask]; omega), if_neg (by rw [lead4_mask]; omega)]

/-- Continuation bytes are passed. -/
theorem validAfter_append {cs : List UInt8} (h : ∀ b ∈ cs, IsCont b) (p : List UInt8) :
    validAfter cs.length (cs ++ p) = validUtf8From p := by
  induction cs with
  | nil => rfl
  | cons b cs ih =>
      obtain ⟨hb, hcs⟩ := List.forall_mem_cons.mp h
      rw [List.length_cons, List.cons_append, validAfter, if_neg (not_not.mpr ((cont_mask b).mpr hb)), ih hcs]

/-- In a string they are found, or the terminator at the latest ends the loop. -/
theorem validAfter_cases (n : Nat) (s behind : List UInt8) :
    validAfter n (s ++ 0 :: behind) = some 0 ∨
      ∃ cs rest, s = cs ++ rest ∧ cs.length = n ∧ (∀ b ∈ cs, IsCont b) ∧
        validAfter n (s ++ 0 :: behind) = validUtf8From (rest ++ 0 :: behind) := by
  induction n generalizing s with
  | zero => exact Or.inr ⟨[], s, rfl, rfl, nofun, rfl⟩
  | succ n ih =>
      cases s with
      | nil => exact Or.inl rfl
      | cons b s =>
          rw [List.cons_append, validAfter]
          by_cases hb : b &&& 0xC0 = 0x80
          · rw [if_neg (not_not.mpr hb)]
            rcases ih s with hno | ⟨cs, rest, rfl, hlen, hcs, heq⟩
            · exact Or.inl hno
            · have hall : ∀ x ∈ b :: cs, IsCont x := List.forall_mem_cons.mpr ⟨(cont_mask b).mp hb, hcs⟩
              exact Or.inr ⟨b :: cs, rest, rfl, by rw [List.length_cons, hlen], hall, heq⟩
          · rw [if_pos hb]
            exact Or.inl rfl

/-! ### What is taken for UTF-8 -/

theorem valid_nil (behind : List UInt8) : validUtf8From (0 :: behind) = some 1 := by
  rw [valid_cons]
  exact if_pos rfl

/-- A string of the right shape is taken. -/
theorem valid_shaped {s : List UInt8} (h : Shaped s) (hs : 0 ∉ s) (behind : List UInt8) :
    validUtf8From (s ++ 0 :: behind) = some 1 := by
  induction h with
  | nil => exact valid_nil behind
  | @cons u s hu _ ih =>
      rw [List.mem_append, not_or] at hs
      have hrest := ih hs.2
      rw [List.append_assoc]
      cases hu with
      | @one a ha =>
          have hzero : a ≠ 0 := fun heq => hs.1 (heq ▸ List.mem_cons_self)
          rw [List.singleton_append, valid_one hzero ha, hrest]
      | @two a b ha ha' hb _ =>
          have hall : ∀ x ∈ [b], IsCont x := by simp [hb]
          have hconts : validAfter 1 ([b] ++ (s ++ 0 :: behind)) = _ := validAfter_append hall _
          rw [List.cons_append, valid_two ha ha', hconts, hrest]
      | @three a b c ha ha' hb hc _ =>
          have hall : ∀ x ∈ [b, c], IsCont x := by simp [hb, hc]
          have hconts : validAfter 2 ([b, c] ++ (s ++ 0 :: behind)) = _ := validAfter_append hall _
          rw [List.cons_append, valid_three ha ha', hconts, hrest]
      | @four a b c d ha ha' hb hc hd _ =>
          have hall : ∀ x ∈ [b, c, d], IsCont x := by simp [hb, hc, hd]
          have hconts : validAfter 3 ([b, c, d] ++ (s ++ 0 :: behind)) = _ := validAfter_append hall _
          rw [List.cons_append, valid_four ha ha', hconts, hrest]

/-- Every string is taken or not before a read passes its terminator, and only
one of the right shape is taken. -/
theorem valid_cases {s : List UInt8} (hs : 0 ∉ s) (behind : List UInt8) :
    validUtf8From (s ++ 0 :: behind) = some 0 ∨ validUtf8From (s ++ 0 :: behind) = some 1 ∧ Shaped s := by
  induction hn : s.length using Nat.strong_induction_on generalizing s with
  | _ n ih =>
      cases s with
      | nil => exact Or.inr ⟨valid_nil behind, .nil⟩
      | cons a s =>
          have hzero : a ≠ 0 := fun heq => hs (heq ▸ List.mem_cons_self)
          -- A lead byte and its continuation bytes, with the rest of the string behind them.
          have hlead : ∀ k, validUtf8From (a :: (s ++ 0 :: behind)) = validAfter k (s ++ 0 :: behind) →
              (∀ cs : List UInt8, cs.length = k → (∀ b ∈ cs, IsCont b) →
                Sequence (fun _ _ => True) (a :: cs)) →
              validUtf8From (a :: (s ++ 0 :: behind)) = some 0 ∨
                validUtf8From (a :: (s ++ 0 :: behind)) = some 1 ∧ Shaped (a :: s) := by
            intro k hbody hseq
            rcases validAfter_cases k s behind with hno | ⟨cs, rest, rfl, hlen, hcs, heq⟩
            · exact Or.inl (hbody.trans hno)
            · have hclean : 0 ∉ rest := fun hmem => hs (List.mem_cons_of_mem a (List.mem_append_right cs hmem))
              have hshorter : rest.length < n := by
                rw [← hn, List.length_cons, List.length_append]
                omega
              rw [hbody, heq]
              rcases ih rest.length hshorter hclean rfl with hno | ⟨hyes, hshape⟩
              · exact Or.inl hno
              · exact Or.inr ⟨hyes, .cons (hseq cs hlen hcs) hshape⟩
          rw [List.cons_append]
          by_cases h1 : a.toNat < 0x80
          · apply hlead 0 (valid_one hzero h1 _)
            intro cs hlen _
            rw [List.length_eq_zero_iff.mp hlen]
            exact .one h1
          by_cases h2 : a.toNat < 0xC0
          · exact Or.inl (valid_other (Or.inl ⟨by omega, h2⟩) _)
          by_cases h3 : a.toNat < 0xE0
          · apply hlead 1 (valid_two (by omega) h3 _)
            intro cs hlen hcs
            obtain ⟨b, rfl⟩ := List.length_eq_one_iff.mp hlen
            exact .two (by omega) h3 (hcs b (by simp)) trivial
          by_cases h4 : a.toNat < 0xF0
          · apply hlead 2 (valid_three (by omega) h4 _)
            intro cs hlen hcs
            obtain ⟨b, c, rfl⟩ := List.length_eq_two.mp hlen
            exact .three (by omega) h4 (hcs b (by simp)) (hcs c (by simp)) trivial
          by_cases h5 : a.toNat < 0xF8
          · apply hlead 3 (valid_four (by omega) h5 _)
            intro cs hlen hcs
            obtain ⟨b, c, d, rfl⟩ := List.length_eq_three.mp hlen
            exact .four (by omega) h5 (hcs b (by simp)) (hcs c (by simp)) (hcs d (by simp)) trivial
          · exact Or.inl (valid_other (Or.inr (by omega)) _)

theorem valid_iff_shaped {s : List UInt8} (hs : 0 ∉ s) (behind : List UInt8) :
    validUtf8From (s ++ 0 :: behind) = some 1 ↔ Shaped s := by
  constructor
  · intro h
    rcases valid_cases hs behind with hno | ⟨-, hshape⟩
    · rw [hno] at h
      exact absurd h (by decide)
    · exact hshape
  · exact fun h => valid_shaped h hs behind

/-- The function tells well-formed strings from others, without a read behind
the terminator, exactly when it stumbles over the shape or meets no lead byte
before a byte that UTF-8 excludes there. -/
theorem strValidUtf8_exact_iff {s : List UInt8} (hs : 0 ∉ s) :
    ((strValidUtf8 (some (s ++ [0])) = some 1 ↔ WellFormed s) ∧
        (strValidUtf8 (some (s ++ [0])) = some 1 ∨ strValidUtf8 (some (s ++ [0])) = some 0)) ↔
      (¬ Shaped s ∨ s.IsChain fun a b => ¬ Excluded a b) := by
  have hvalid : strValidUtf8 (some (s ++ [0])) = some 1 ↔ Shaped s := valid_iff_shaped hs []
  have hreads : strValidUtf8 (some (s ++ [0])) = some 1 ∨ strValidUtf8 (some (s ++ [0])) = some 0 := by
    rcases valid_cases hs [] with hno | ⟨hyes, -⟩
    · exact Or.inr hno
    · exact Or.inl hyes
  rw [and_iff_left hreads, hvalid, wellFormed_iff]
  constructor
  · intro h
    by_cases hshape : Shaped s
    · exact Or.inr (h.mp hshape).2
    · exact Or.inl hshape
  · rintro (hno | hchain)
    · exact ⟨fun hshape => absurd hshape hno, fun h => h.1⟩
    · exact ⟨fun hshape => ⟨hshape, hchain⟩, fun h => h.1⟩

/-- Text in ASCII with an umlaut. -/
theorem umlaut_exact :
    (strValidUtf8 (some [0x66, 0xC3, 0xBC, 0x72, 0]) = some 1 ↔ WellFormed [0x66, 0xC3, 0xBC, 0x72]) ∧
      (strValidUtf8 (some [0x66, 0xC3, 0xBC, 0x72, 0]) = some 1 ∨
        strValidUtf8 (some [0x66, 0xC3, 0xBC, 0x72, 0]) = some 0) :=
  (strValidUtf8_exact_iff (s := [0x66, 0xC3, 0xBC, 0x72]) (by decide)).mpr (Or.inr (by decide))

/-- A NUL in two bytes is taken. -/
theorem overlong_not_exact :
    strValidUtf8 (some [0xC0, 0x80, 0]) = some 1 ∧ ¬ WellFormed [0xC0, 0x80] := by
  refine ⟨by decide, ?_⟩
  rw [wellFormed_iff]
  exact fun h => absurd h.2 (by decide)

end Htsn
