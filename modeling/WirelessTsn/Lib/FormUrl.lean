import WirelessTsn.Lib.Scanf

/-!
Values in the format `application/x-www-form-urlencoded`: a character stands for
itself, a plus sign for a space, and any character may be escaped by a percent
sign and two digits. `Encodes` allows every choice a sender has; `formEncode`
is the one that the format prescribes. A text cut inside an escape ends in a
stub of it.
-/

namespace CText

/-- The characters that have a meaning of their own in the format. -/
def isFormSpecial (c : Char) : Bool := c = '%' ∨ c = '+' ∨ c = '&' ∨ c = '=' ∨ c = '\x00'

/-- The text is a form of the value. -/
inductive Encodes : CStr → CStr → Prop where
  | nil : Encodes [] []
  | plain {c : Char} {v e : CStr} (hc : isFormSpecial c = false) (h : Encodes v e) :
      Encodes (c :: v) (c :: e)
  | space {v e : CStr} (h : Encodes v e) : Encodes (' ' :: v) ('+' :: e)
  | escape {d₁ d₂ : Char} {hi lo : Nat} {v e : CStr} (hhi : hexVal d₁ = some hi) (hlo : hexVal d₂ = some lo)
      (h : Encodes v e) : Encodes (Char.ofNat (16 * hi + lo) :: v) ('%' :: d₁ :: d₂ :: e)

/-- Two digits, which a percent sign in front would make an escape. -/
def startsHex : CStr → Bool
  | d₁ :: d₂ :: _ => (hexVal d₁).isSome && (hexVal d₂).isSome
  | _ => false

/-- A form in which every character may stand for itself where it is not read
as something else. -/
inductive PercentEncodes : CStr → CStr → Prop where
  | nil : PercentEncodes [] []
  | plain {c : Char} {v e : CStr} (hplus : c ≠ '+') (hpercent : c = '%' → startsHex e = false) (h : PercentEncodes v e) :
      PercentEncodes (c :: v) (c :: e)
  | space {v e : CStr} (h : PercentEncodes v e) : PercentEncodes (' ' :: v) ('+' :: e)
  | escape {d₁ d₂ : Char} {hi lo : Nat} {v e : CStr} (hhi : hexVal d₁ = some hi) (hlo : hexVal d₂ = some lo)
      (h : PercentEncodes v e) : PercentEncodes (Char.ofNat (16 * hi + lo) :: v) ('%' :: d₁ :: d₂ :: e)

/-- What is left of an escape that is cut. -/
def IsStub (p : CStr) : Prop := p = [] ∨ p = ['%'] ∨ ∃ d, (hexVal d).isSome ∧ p = ['%', d]

variable {v e s : CStr}

theorem Encodes.eq_nil (h : Encodes [] e) : e = [] := by
  cases h
  rfl

theorem hexVal_plain {c : Char} (h : (hexVal c).isSome) : isFormSpecial c = false := by
  by_contra hspecial
  simp only [isFormSpecial, Bool.not_eq_false, decide_eq_true_eq] at hspecial
  rcases hspecial with rfl | rfl | rfl | rfl | rfl
  all_goals exact absurd h (by decide)

theorem ne_of_plain {c : Char} (h : isFormSpecial c = false) : c ≠ '&' ∧ c ≠ '\x00' := by
  constructor
  · rintro rfl
    cases h
  · rintro rfl
    cases h

/-- A form has no separator and no NUL in it. -/
theorem Encodes.clean (h : Encodes v e) : '&' ∉ e ∧ '\x00' ∉ e := by
  have hcons : ∀ {c : Char} {e : CStr}, c ≠ '&' ∧ c ≠ '\x00' → '&' ∉ e ∧ '\x00' ∉ e →
      '&' ∉ c :: e ∧ '\x00' ∉ c :: e := by
    intro c e hc he
    simp only [List.mem_cons, not_or]
    exact ⟨⟨Ne.symm hc.1, he.1⟩, Ne.symm hc.2, he.2⟩
  induction h with
  | nil => simp
  | plain hc h ih => exact hcons (ne_of_plain hc) ih
  | space h ih => exact hcons (by decide) ih
  | escape hhi hlo h ih =>
      have hfirst := hexVal_plain (by rw [hhi]; rfl)
      have hsecond := hexVal_plain (by rw [hlo]; rfl)
      exact hcons (by decide) (hcons (ne_of_plain hfirst) (hcons (ne_of_plain hsecond) ih))

/-- Only a value with a NUL has a form with one. -/
theorem PercentEncodes.nulFree (h : PercentEncodes v e) (hv : '\x00' ∉ v) : '\x00' ∉ e := by
  induction h with
  | nil => exact hv
  | plain hplus hpercent h ih =>
      rw [List.mem_cons, not_or] at hv ⊢
      exact ⟨hv.1, ih hv.2⟩
  | space h ih =>
      rw [List.mem_cons, not_or] at hv ⊢
      exact ⟨by decide, ih hv.2⟩
  | escape hhi hlo h ih =>
      have hfirst := hexVal_plain (by rw [hhi]; rfl)
      have hsecond := hexVal_plain (by rw [hlo]; rfl)
      rw [List.mem_cons, not_or] at hv
      simp only [List.mem_cons, not_or]
      exact ⟨by decide, Ne.symm (ne_of_plain hfirst).2, Ne.symm (ne_of_plain hsecond).2, ih hv.2⟩

/-- A beginning of a form is the form of a beginning of the value, and perhaps
a stub; behind a stub at least one character of the value is missing. -/
theorem Encodes.split (h : Encodes v e) (hs : s <+: e) :
    ∃ u eu p w, Encodes u eu ∧ s = eu ++ p ∧ v = u ++ w ∧
      (s = e ∧ p = [] ∧ w = [] ∨ w ≠ [] ∧ IsStub p) := by
  induction h generalizing s with
  | nil => exact ⟨[], [], [], [], .nil, List.prefix_nil.mp hs, rfl, Or.inl ⟨List.prefix_nil.mp hs, rfl, rfl⟩⟩
  | @plain c v e hc h ih =>
      cases s with
      | nil => exact ⟨[], [], [], c :: v, .nil, rfl, rfl, Or.inr ⟨by simp, Or.inl rfl⟩⟩
      | cons x s =>
          obtain ⟨rfl, hrest⟩ := List.cons_prefix_cons.mp hs
          obtain ⟨u, eu, p, w, hu, rfl, rfl, hend⟩ := ih hrest
          refine ⟨x :: u, x :: eu, p, w, .plain hc hu, rfl, rfl, hend.imp (fun hall => ?_) id⟩
          exact ⟨by rw [hall.1], hall.2⟩
  | @space v e h ih =>
      cases s with
      | nil => exact ⟨[], [], [], ' ' :: v, .nil, rfl, rfl, Or.inr ⟨by simp, Or.inl rfl⟩⟩
      | cons x s =>
          obtain ⟨rfl, hrest⟩ := List.cons_prefix_cons.mp hs
          obtain ⟨u, eu, p, w, hu, rfl, rfl, hend⟩ := ih hrest
          refine ⟨' ' :: u, '+' :: eu, p, w, .space hu, rfl, rfl, hend.imp (fun hall => ?_) id⟩
          exact ⟨by rw [hall.1], hall.2⟩
  | @escape d₁ d₂ hi lo v e hhi hlo h ih =>
      have hstub : ∀ p, IsStub p → ∃ u eu p' w, Encodes u eu ∧ p = eu ++ p' ∧
          Char.ofNat (16 * hi + lo) :: v = u ++ w ∧
            (p = '%' :: d₁ :: d₂ :: e ∧ p' = [] ∧ w = [] ∨ w ≠ [] ∧ IsStub p') :=
        fun p hp => ⟨[], [], p, Char.ofNat (16 * hi + lo) :: v, .nil, rfl, rfl, Or.inr ⟨by simp, hp⟩⟩
      match s, hs with
      | [], _ => exact hstub [] (Or.inl rfl)
      | [x], hs =>
          obtain ⟨rfl, -⟩ := List.cons_prefix_cons.mp hs
          exact hstub ['%'] (Or.inr (Or.inl rfl))
      | [x, y], hs =>
          obtain ⟨rfl, htail⟩ := List.cons_prefix_cons.mp hs
          obtain ⟨rfl, -⟩ := List.cons_prefix_cons.mp htail
          exact hstub ['%', y] (Or.inr (Or.inr ⟨y, by rw [hhi]; rfl, rfl⟩))
      | x :: y :: z :: s, hs =>
          obtain ⟨rfl, hdigits⟩ := List.cons_prefix_cons.mp hs
          obtain ⟨rfl, hlast⟩ := List.cons_prefix_cons.mp hdigits
          obtain ⟨rfl, hrest⟩ := List.cons_prefix_cons.mp hlast
          obtain ⟨u, eu, p, w, hu, rfl, rfl, hend⟩ := ih hrest
          refine ⟨Char.ofNat (16 * hi + lo) :: u, '%' :: y :: z :: eu, p, w, .escape hhi hlo hu, rfl, rfl,
            hend.imp (fun hall => ?_) id⟩
          exact ⟨by rw [hall.1], hall.2⟩

/-! ### The prescribed form -/

/-- The digit of a value below 16, in capitals. -/
def hexUpper (n : Nat) : Char := Char.ofNat (if n < 10 then 48 + n else 55 + n)

/-- The characters that the format leaves alone. -/
def isFormPlain (c : Char) : Bool :=
  c.isAlphanum || c = '*' || c = '-' || c = '.' || c = '_'

def formEncode : CStr → CStr
  | [] => []
  | c :: v =>
      if isFormPlain c then c :: formEncode v
      else if c = ' ' then '+' :: formEncode v
      else '%' :: hexUpper (c.toNat / 16) :: hexUpper (c.toNat % 16) :: formEncode v

theorem hexVal_hexUpper {n : Nat} (h : n < 16) : hexVal (hexUpper n) = some n := by
  have hall : ∀ k : Fin 16, hexVal (hexUpper k) = some k.val := by decide
  exact hall ⟨n, h⟩

/-- Every value of bytes has its prescribed form. -/
theorem encodes_formEncode (h : ∀ c ∈ v, c.toNat < 256) : Encodes v (formEncode v) := by
  induction v with
  | nil => exact .nil
  | cons c v ih =>
      obtain ⟨hc, hv⟩ := List.forall_mem_cons.mp h
      have hrest := ih hv
      unfold formEncode
      split
      · rename_i hplain
        refine .plain ?_ hrest
        by_contra hspecial
        simp only [isFormSpecial, Bool.not_eq_false, decide_eq_true_eq] at hspecial
        rcases hspecial with rfl | rfl | rfl | rfl | rfl
        all_goals exact absurd hplain (by decide)
      split
      · rename_i hspace
        subst hspace
        exact .space hrest
      · have hchar : Char.ofNat (16 * (c.toNat / 16) + c.toNat % 16) = c := by
          rw [Nat.div_add_mod, Char.ofNat_toNat]
        have hescape := Encodes.escape (hexVal_hexUpper (n := c.toNat / 16) (by omega))
          (hexVal_hexUpper (n := c.toNat % 16) (by omega)) hrest
        rwa [hchar] at hescape

end CText
