import Mathlib.Data.List.Chain
import Mathlib.Tactic

/-!
UTF-8 as the Unicode standard defines it: a byte sequence is well formed if it
is made of encodings of Unicode scalar values, which are the values of `Char`.
Taken apart by its lead bytes a sequence has a shape, and of the shaped ones
those are well formed in which no lead byte stands before a byte that makes its
character overlong, a surrogate or too large.
-/

namespace Utf8

/-- The encoding of a list of scalar values. -/
def WellFormed (s : List UInt8) : Prop := ∃ cs : List Char, s = cs.flatMap String.utf8EncodeChar

def IsCont (b : UInt8) : Prop := 0x80 ≤ b.toNat ∧ b.toNat < 0xC0

/-- A lead byte with its continuation bytes, of which the first one suits it. -/
inductive Sequence (ok : UInt8 → UInt8 → Prop) : List UInt8 → Prop where
  | one {a : UInt8} (ha : a.toNat < 0x80) : Sequence ok [a]
  | two {a b : UInt8} (ha : 0xC0 ≤ a.toNat) (ha' : a.toNat < 0xE0) (hb : IsCont b) (hok : ok a b) :
      Sequence ok [a, b]
  | three {a b c : UInt8} (ha : 0xE0 ≤ a.toNat) (ha' : a.toNat < 0xF0) (hb : IsCont b) (hc : IsCont c)
      (hok : ok a b) : Sequence ok [a, b, c]
  | four {a b c d : UInt8} (ha : 0xF0 ≤ a.toNat) (ha' : a.toNat < 0xF8) (hb : IsCont b) (hc : IsCont c)
      (hd : IsCont d) (hok : ok a b) : Sequence ok [a, b, c, d]

inductive Sequences (ok : UInt8 → UInt8 → Prop) : List UInt8 → Prop where
  | nil : Sequences ok []
  | cons {u s : List UInt8} (hu : Sequence ok u) (hs : Sequences ok s) : Sequences ok (u ++ s)

/-- Lead bytes and continuation bytes in the right numbers. -/
def Shaped (s : List UInt8) : Prop := Sequences (fun _ _ => True) s

/-- A lead byte before a byte with which it encodes no scalar value, or not in
the shortest form. -/
def Excluded (a b : UInt8) : Prop :=
  a.toNat = 0xC0 ∨ a.toNat = 0xC1 ∨ (a.toNat = 0xE0 ∧ b.toNat < 0xA0) ∨ (a.toNat = 0xED ∧ 0xA0 ≤ b.toNat) ∨
    (a.toNat = 0xF0 ∧ b.toNat < 0x90) ∨ (a.toNat = 0xF4 ∧ 0x90 ≤ b.toNat) ∨ 0xF5 ≤ a.toNat

instance (a b : UInt8) : Decidable (Excluded a b) :=
  inferInstanceAs (Decidable (_ ∨ _))

/-! ### One character -/

theorem toNat_ofNat {n : Nat} (h : n < 256) : (UInt8.ofNat n).toNat = n := by
  rw [UInt8.toNat_ofNat']
  exact Nat.mod_eq_of_lt h

theorem ofNat_eq {n : Nat} {b : UInt8} (h : n = b.toNat) : UInt8.ofNat n = b := by rw [h, UInt8.ofNat_toNat]

/-- The code points that are scalar values. -/
theorem scalar_range (c : Char) : c.val.toNat < 0xD800 ∨ 0xDFFF < c.val.toNat ∧ c.val.toNat < 0x110000 := c.valid

/-- The encoding of a scalar value is a sequence whose second byte suits it. -/
theorem sequence_encode (c : Char) : Sequence (fun a b => ¬ Excluded a b) (String.utf8EncodeChar c) := by
  have hrange := scalar_range c
  unfold String.utf8EncodeChar Excluded
  dsimp only
  generalize c.val.toNat = v at hrange
  have hcont : ∀ n : Nat, IsCont (UInt8.ofNat (n % 64 + 128)) := by
    intro n
    have hn := toNat_ofNat (show n % 64 + 128 < 256 by omega)
    constructor <;> omega
  split
  · exact .one (by rw [toNat_ofNat (by omega)]; omega)
  split
  · have ha := toNat_ofNat (show v / 64 % 32 + 192 < 256 by omega)
    exact .two (by omega) (by omega) (hcont v) (by omega)
  split
  · have ha := toNat_ofNat (show v / 4096 % 16 + 224 < 256 by omega)
    have hb := toNat_ofNat (show v / 64 % 64 + 128 < 256 by omega)
    exact .three (by omega) (by omega) (hcont _) (hcont v) (by omega)
  · have ha := toNat_ofNat (show v / 262144 % 8 + 240 < 256 by omega)
    have hb := toNat_ofNat (show v / 4096 % 64 + 128 < 256 by omega)
    exact .four (by omega) (by omega) (hcont _) (hcont _) (hcont v) (by omega)

/-- A scalar value by its number. -/
def scalar (v : Nat) (h : v < 0xD800 ∨ 0xDFFF < v ∧ v < 0x110000) : Char := Char.ofNatAux v h

theorem scalar_toNat (v : Nat) (h : v < 0xD800 ∨ 0xDFFF < v ∧ v < 0x110000) : (scalar v h).val.toNat = v := rfl

/-- Every such sequence is the encoding of a scalar value. -/
theorem exists_encode {u : List UInt8} (h : Sequence (fun a b => ¬ Excluded a b) u) :
    ∃ c : Char, String.utf8EncodeChar c = u := by
  cases h with
  | @one a ha =>
      refine ⟨scalar a.toNat (by omega), ?_⟩
      rw [String.utf8EncodeChar, scalar_toNat, if_pos (by omega), UInt8.ofNat_toNat]
  | @two a b ha ha' hb hok =>
      rw [IsCont] at hb
      rw [Excluded] at hok
      have hv : (a.toNat - 0xC0) * 64 + (b.toNat - 0x80) < 0xD800 := by omega
      refine ⟨scalar _ (Or.inl hv), ?_⟩
      rw [String.utf8EncodeChar, scalar_toNat, if_neg (by omega), if_pos (by omega), ofNat_eq (b := a) (by omega), ofNat_eq (b := b) (by omega)]
  | @three a b c ha ha' hb hc hok =>
      rw [IsCont] at hb hc
      rw [Excluded] at hok
      have hv : (a.toNat - 0xE0) * 4096 + (b.toNat - 0x80) * 64 + (c.toNat - 0x80) < 0xD800 ∨
          0xDFFF < (a.toNat - 0xE0) * 4096 + (b.toNat - 0x80) * 64 + (c.toNat - 0x80) ∧
            (a.toNat - 0xE0) * 4096 + (b.toNat - 0x80) * 64 + (c.toNat - 0x80) < 0x110000 := by omega
      refine ⟨scalar _ hv, ?_⟩
      rw [String.utf8EncodeChar, scalar_toNat, if_neg (by omega), if_neg (by omega), if_pos (by omega), ofNat_eq (b := a) (by omega),
        ofNat_eq (b := b) (by omega), ofNat_eq (b := c) (by omega)]
  | @four a b c d ha ha' hb hc hd hok =>
      rw [IsCont] at hb hc hd
      rw [Excluded] at hok
      have hv : 0xDFFF < (a.toNat - 0xF0) * 262144 + (b.toNat - 0x80) * 4096 + (c.toNat - 0x80) * 64 + (d.toNat - 0x80) ∧
          (a.toNat - 0xF0) * 262144 + (b.toNat - 0x80) * 4096 + (c.toNat - 0x80) * 64 + (d.toNat - 0x80) < 0x110000 := by
        omega
      refine ⟨scalar _ (Or.inr hv), ?_⟩
      rw [String.utf8EncodeChar, scalar_toNat, if_neg (by omega), if_neg (by omega), if_neg (by omega), ofNat_eq (b := a) (by omega),
        ofNat_eq (b := b) (by omega), ofNat_eq (b := c) (by omega), ofNat_eq (b := d) (by omega)]

/-! ### Whole sequences -/

theorem wellFormed_iff_sequences (s : List UInt8) :
    WellFormed s ↔ Sequences (fun a b => ¬ Excluded a b) s := by
  constructor
  · rintro ⟨cs, rfl⟩
    induction cs with
    | nil => exact .nil
    | cons c cs ih => exact .cons (sequence_encode c) ih
  · intro h
    induction h with
    | nil => exact ⟨[], rfl⟩
    | @cons u s hu hs ih =>
        obtain ⟨c, rfl⟩ := exists_encode hu
        obtain ⟨cs, rfl⟩ := ih
        exact ⟨c :: cs, rfl⟩

section

variable {ok : UInt8 → UInt8 → Prop} {s u : List UInt8}

theorem isChain_cons_low (hlow : ∀ a b, a.toNat < 0xC0 → ok a b) {a : UInt8} (ha : a.toNat < 0xC0) :
    (a :: s).IsChain ok ↔ s.IsChain ok := by
  cases s with
  | nil => simp
  | cons b s => rw [List.isChain_cons_cons, and_iff_right (hlow a b ha)]

theorem Sequence.shape (h : Sequence ok u) : Sequence (fun _ _ => True) u := by
  cases h with
  | one ha => exact .one ha
  | two ha ha' hb hok => exact .two ha ha' hb trivial
  | three ha ha' hb hc hok => exact .three ha ha' hb hc trivial
  | four ha ha' hb hc hd hok => exact .four ha ha' hb hc hd trivial

/-- Only a lead byte says something about the byte behind it. -/
theorem isChain_sequence (hlow : ∀ a b, a.toNat < 0xC0 → ok a b) (hu : Sequence (fun _ _ => True) u) :
    (u ++ s).IsChain ok ↔ Sequence ok u ∧ s.IsChain ok := by
  cases hu with
  | @one a ha =>
      rw [List.singleton_append, isChain_cons_low hlow (by omega), and_iff_right (.one ha)]
  | @two a b ha ha' hb hok =>
      have hseq : Sequence ok [a, b] ↔ ok a b :=
        ⟨fun h => by cases h; assumption, fun h => .two ha ha' hb h⟩
      show (a :: b :: s).IsChain ok ↔ _
      rw [List.isChain_cons_cons, isChain_cons_low hlow hb.2, hseq]
  | @three a b c ha ha' hb hc hok =>
      have hseq : Sequence ok [a, b, c] ↔ ok a b :=
        ⟨fun h => by cases h; assumption, fun h => .three ha ha' hb hc h⟩
      show (a :: b :: c :: s).IsChain ok ↔ _
      rw [List.isChain_cons_cons, isChain_cons_low hlow hb.2, isChain_cons_low hlow hc.2, hseq]
  | @four a b c d ha ha' hb hc hd hok =>
      have hseq : Sequence ok [a, b, c, d] ↔ ok a b :=
        ⟨fun h => by cases h; assumption, fun h => .four ha ha' hb hc hd h⟩
      show (a :: b :: c :: d :: s).IsChain ok ↔ _
      rw [List.isChain_cons_cons, isChain_cons_low hlow hb.2, isChain_cons_low hlow hc.2, isChain_cons_low hlow hd.2,
        hseq]

/-- A shaped list is one of suiting sequences when all its neighbours suit. -/
theorem sequences_iff (hlow : ∀ a b, a.toNat < 0xC0 → ok a b) : Sequences ok s ↔ Shaped s ∧ s.IsChain ok := by
  constructor
  · intro h
    induction h with
    | nil => exact ⟨.nil, .nil⟩
    | cons hu hs ih => exact ⟨.cons hu.shape ih.1, (isChain_sequence hlow hu.shape).mpr ⟨hu, ih.2⟩⟩
  · rintro ⟨hshape, hchain⟩
    induction hshape with
    | nil => exact .nil
    | cons hu hs ih =>
        obtain ⟨hok, hrest⟩ := (isChain_sequence hlow hu).mp hchain
        exact .cons hok (ih hrest)

end

/-- Of the shaped lists those without an excluded pair are well formed. -/
theorem wellFormed_iff (s : List UInt8) : WellFormed s ↔ Shaped s ∧ s.IsChain fun a b => ¬ Excluded a b := by
  rw [wellFormed_iff_sequences]
  apply sequences_iff
  intro a b ha
  unfold Excluded
  omega

end Utf8
