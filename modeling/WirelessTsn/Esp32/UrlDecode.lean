import WirelessTsn.Esp32.Provisioning
import WirelessTsn.Lib.FormUrl
import WirelessTsn.Lib.Loop

/-!
The loop of `url_decode` on its one buffer
(`shared/htsn_prov/htsn_prov.c`). The write position stays
behind the read position, so what is still to be read is as the sender wrote it
and the loop decodes as `urlDecode` does.
-/

namespace Htsn.Esp32

open CText Loop

/-- The buffer and the positions of `r` and `s`. -/
structure DecodeCursor where
  mem : List Char
  r : Nat
  s : Nat

/-- The two digits behind a percent sign, read as far as no NUL is met; `none`
when a read leaves the buffer. -/
def escapeAt (mem : List Char) (s : Nat) : Option (Option Char) := do
  let a ← mem[s + 1]?
  if a = '\x00' then return none
  let b ← mem[s + 2]?
  if b = '\x00' then return none
  match hexVal a, hexVal b with
  | some hi, some lo => return some (Char.ofNat (16 * hi + lo))
  | _, _ => return none

/-- The body of the loop. It leaves with the buffer, or with `none` when a read
leaves it. -/
def urlDecodeBody (c : DecodeCursor) : Step DecodeCursor (Option (List Char)) :=
  match c.mem[c.s]? with
  | none => .done none
  | some x =>
      if x = '\x00' then .done (some (c.mem.set c.r '\x00'))
      else
        match if x = '%' then escapeAt c.mem c.s else some none with
        | none => .done none
        | some (some y) => .next ⟨c.mem.set c.r y, c.r + 1, c.s + 3⟩
        | some none => .next ⟨c.mem.set c.r (if x = '+' then ' ' else x), c.r + 1, c.s + 1⟩

/-- The first call for a text and what stands behind it in the buffer. -/
def decodeStart (text junk : CStr) : DecodeCursor := ⟨text ++ '\x00' :: junk, 0, 0⟩

/-! ### One character -/

/-- The character of the escape whose percent sign stands before a text. -/
def escapeOf : CStr → Option Char
  | a :: b :: _ =>
      match hexVal a, hexVal b with
      | some hi, some lo => some (Char.ofNat (16 * hi + lo))
      | _, _ => none
  | _ => none

theorem length_of_escapeOf {rest : CStr} {y : Char} (h : escapeOf rest = some y) : 2 ≤ rest.length := by
  match rest with
  | [] => cases h
  | [a] => cases h
  | a :: b :: t => simp

/-- What the first part of a text stands for, and the rest. -/
def decodeHead (x : Char) (rest : CStr) : Char × CStr :=
  match if x = '%' then escapeOf rest else none with
  | some y => (y, rest.drop 2)
  | none => (if x = '+' then ' ' else x, rest)

theorem urlDecode_cons (x : Char) (rest : CStr) :
    urlDecode (x :: rest) = (decodeHead x rest).1 :: urlDecode (decodeHead x rest).2 := by
  unfold decodeHead
  by_cases hpercent : x = '%'
  · subst hpercent
    rw [if_pos rfl]
    match rest with
    | [] => rfl
    | [a] => rfl
    | a :: b :: t =>
        rw [urlDecode, escapeOf]
        cases hexVal a with
        | none => rfl
        | some hi =>
            cases hexVal b with
            | none => rfl
            | some lo => rfl
  · rw [if_neg hpercent]
    by_cases hplus : x = '+'
    · subst hplus
      rfl
    · rw [if_neg hplus, urlDecode]
      · exact fun _ _ _ heq => absurd heq hpercent
      · exact hplus

/-- Decoding takes something off the text, and leaves an end of it. -/
theorem decodeHead_split (x : Char) (rest : CStr) :
    ∃ used, used ≠ [] ∧ x :: rest = used ++ (decodeHead x rest).2 := by
  unfold decodeHead
  split
  · exact ⟨x :: rest.take 2, List.cons_ne_nil _ _, by rw [List.cons_append, List.take_append_drop]⟩
  · exact ⟨[x], List.cons_ne_nil _ _, rfl⟩

/-! ### The buffer -/

/-- The buffer in the loop: what is decoded, what was read since, and what is
still to be read. -/
structure Layout (text junk : CStr) (c : DecodeCursor) (out gap rest : CStr) : Prop where
  mem : c.mem = out ++ (gap ++ (rest ++ '\x00' :: junk))
  r : c.r = out.length
  s : c.s = out.length + gap.length
  decoded : out ++ urlDecode rest = urlDecode text
  nulFree : '\x00' ∉ rest
  fits : out.length + gap.length + rest.length = text.length

def InLayout (text junk : CStr) (c : DecodeCursor) : Prop := ∃ out gap rest, Layout text junk c out gap rest

theorem layout_start {text : CStr} (h : '\x00' ∉ text) (junk : CStr) :
    Layout text junk (decodeStart text junk) [] [] text :=
  ⟨rfl, rfl, rfl, rfl, h, Nat.zero_add _⟩

theorem getElem?_ahead (out gap ahead : List Char) (i : Nat) :
    (out ++ (gap ++ ahead))[out.length + gap.length + i]? = ahead[i]? := by
  rw [List.getElem?_append_right (by omega), List.getElem?_append_right (by omega)]
  congr 1
  omega

variable {text junk out gap rest : CStr} {c : DecodeCursor}

theorem Layout.read (h : Layout text junk c out gap rest) (i : Nat) :
    c.mem[c.s + i]? = (rest ++ '\x00' :: junk)[i]? := by
  rw [h.mem, h.s]
  exact getElem?_ahead out gap _ i

/-- The digits of an escape are read where the sender put them. -/
theorem Layout.escapeAt {x : Char} (h : Layout text junk c out gap (x :: rest)) :
    escapeAt c.mem c.s = some (escapeOf rest) := by
  have hclean : '\x00' ∉ rest := fun hmem => h.nulFree (List.mem_cons_of_mem x hmem)
  have hfirst := h.read 1
  have hsecond := h.read 2
  match rest, hclean with
  | [], _ =>
      have hnul : c.mem[c.s + 1]? = some '\x00' := hfirst
      rw [Esp32.escapeAt, hnul]
      rfl
  | [a], hclean =>
      have ha : c.mem[c.s + 1]? = some a := hfirst
      have hnul : c.mem[c.s + 2]? = some '\x00' := hsecond
      have hne : a ≠ '\x00' := fun heq => hclean (heq ▸ List.mem_cons_self)
      rw [Esp32.escapeAt, ha, hnul]
      simp only [Option.bind_eq_bind, Option.bind_some, if_neg hne]
      rfl
  | a :: b :: t, hclean =>
      have ha : c.mem[c.s + 1]? = some a := hfirst
      have hb : c.mem[c.s + 2]? = some b := hsecond
      have hane : a ≠ '\x00' := fun heq => hclean (heq ▸ List.mem_cons_self)
      have hbne : b ≠ '\x00' := fun heq => hclean (heq ▸ List.mem_cons_of_mem a List.mem_cons_self)
      rw [Esp32.escapeAt, ha, hb, escapeOf]
      simp only [Option.bind_eq_bind, Option.bind_some, if_neg hane, if_neg hbne]
      cases hexVal a <;> cases hexVal b <;> rfl

/-! ### The loop -/

/-- At the end of the text the loop puts a NUL behind what is decoded. -/
theorem Layout.body_nil (h : Layout text junk c out gap []) :
    urlDecodeBody c = .done (some (c.mem.set c.r '\x00')) := by
  have hread : c.mem[c.s]? = some '\x00' := h.read 0
  rw [urlDecodeBody, hread]
  exact if_pos rfl

/-- A round takes one character's text and writes the character. -/
theorem Layout.body_cons {x : Char} (h : Layout text junk c out gap (x :: rest)) :
    ∃ d gap', urlDecodeBody c = .next d ∧
      Layout text junk d (out ++ [(decodeHead x rest).1]) gap' (decodeHead x rest).2 := by
  have hread : c.mem[c.s]? = some x := h.read 0
  have hx : x ≠ '\x00' := fun heq => h.nulFree (heq ▸ List.mem_cons_self)
  have hbody : urlDecodeBody c =
      .next ⟨c.mem.set c.r (decodeHead x rest).1, c.r + 1, c.s + (x :: rest).length - (decodeHead x rest).2.length⟩ := by
    rw [urlDecodeBody, hread]
    dsimp only
    rw [if_neg hx, h.escapeAt, decodeHead]
    have hone : c.s + (x :: rest).length - rest.length = c.s + 1 := by
      rw [List.length_cons]
      omega
    by_cases hpercent : x = '%'
    · rw [if_pos hpercent, if_pos hpercent]
      cases hescape : escapeOf rest with
      | none =>
          dsimp only
          rw [hone]
      | some y =>
          have htwo := length_of_escapeOf hescape
          have hthree : c.s + (x :: rest).length - (rest.drop 2).length = c.s + 3 := by
            rw [List.length_cons, List.length_drop]
            omega
          dsimp only
          rw [hthree]
    · rw [if_neg hpercent, if_neg hpercent]
      dsimp only
      rw [hone]
  obtain ⟨used, hne, hsplit⟩ := decodeHead_split x rest
  obtain ⟨z, gap', hgap⟩ := List.exists_cons_of_ne_nil (List.append_ne_nil_of_right_ne_nil gap hne)
  refine ⟨_, gap', hbody, ?_⟩
  have hlen := congrArg List.length hgap
  have hrest := congrArg List.length hsplit
  simp only [List.length_append, List.length_cons] at hlen hrest
  have hfits := h.fits
  rw [List.length_cons] at hfits
  constructor
  · show c.mem.set c.r _ = _
    rw [h.mem, h.r, hsplit, List.append_assoc, ← List.append_assoc gap, hgap, List.set_append_right _ _ le_rfl,
      Nat.sub_self, List.cons_append, List.set_cons_zero, List.append_assoc]
    rfl
  · show c.r + 1 = _
    rw [h.r, List.length_append, List.length_singleton]
  · show c.s + (x :: rest).length - _ = _
    rw [h.s, List.length_append, List.length_singleton, List.length_cons]
    omega
  · rw [List.append_assoc, List.singleton_append, ← urlDecode_cons, h.decoded]
  · exact fun hmem => h.nulFree (hsplit ▸ List.mem_append_right used hmem)
  · rw [List.length_append, List.length_singleton]
    omega

/-- The positions in the loop: the one that is written does not pass the one
that is read, which stays in the text. -/
theorem visits_layout (h : InLayout text junk c) {d : DecodeCursor} (hd : Visits urlDecodeBody c d) :
    InLayout text junk d := by
  have hinv : ∀ a b, InLayout text junk a → urlDecodeBody a = .next b → InLayout text junk b := by
    rintro a b ⟨out, gap, rest, ha⟩ hstep
    cases rest with
    | nil =>
        rw [ha.body_nil] at hstep
        cases hstep
    | cons x rest =>
        obtain ⟨b', gap', hnext, hb⟩ := ha.body_cons
        rw [hnext] at hstep
        cases hstep
        exact ⟨_, gap', _, hb⟩
  exact hd.invariant hinv h

/-- The loop leaves, with the decoded text in front of the NUL it writes. -/
theorem ends_layout (h : Layout text junk c out gap rest) :
    ∃ mem behind, Ends urlDecodeBody c (some mem) ∧ mem = urlDecode text ++ '\x00' :: behind := by
  induction hn : rest.length using Nat.strong_induction_on generalizing c out gap rest with
  | _ n ih =>
      subst hn
      cases rest with
      | nil =>
          refine ⟨_, (gap ++ '\x00' :: junk).tail, (ends_done h.body_nil).mpr rfl, ?_⟩
          have hdecoded : out = urlDecode text := by
            rw [← h.decoded]
            exact (List.append_nil out).symm
          obtain ⟨z, t, ht⟩ := List.exists_cons_of_ne_nil
            (List.append_ne_nil_of_right_ne_nil gap (List.cons_ne_nil '\x00' junk))
          rw [h.mem, h.r, List.nil_append, ht, List.set_append_right _ _ le_rfl, Nat.sub_self, List.set_cons_zero,
            List.tail_cons, hdecoded]
      | cons x rest =>
          obtain ⟨d, gap', hnext, hd⟩ := h.body_cons
          obtain ⟨used, hne, hsplit⟩ := decodeHead_split x rest
          have hshorter : (decodeHead x rest).2.length < (x :: rest).length := by
            have hpos := List.length_pos_iff.mpr hne
            rw [hsplit, List.length_append]
            omega
          obtain ⟨mem, behind, hends, hmem⟩ := ih _ hshorter hd rfl
          exact ⟨mem, behind, (ends_next hnext).mpr hends, hmem⟩

theorem urlDecode_length_le (text : CStr) : (urlDecode text).length ≤ text.length := by
  induction hn : text.length using Nat.strong_induction_on generalizing text with
  | _ n ih =>
      cases text with
      | nil => exact Nat.zero_le n
      | cons x rest =>
          obtain ⟨used, hne, hsplit⟩ := decodeHead_split x rest
          have hlen := congrArg List.length hsplit
          have hpos := List.length_pos_iff.mpr hne
          rw [hn, List.length_append] at hlen
          have hrest := ih _ (by omega) (decodeHead x rest).2 rfl
          rw [urlDecode_cons, List.length_cons]
          omega

theorem escapeOf_eq_none {rest : CStr} (h : startsHex rest = false) : escapeOf rest = none := by
  match rest with
  | [] => rfl
  | [a] => rfl
  | a :: b :: t =>
      rw [startsHex, Bool.and_eq_false_iff, Option.isSome_eq_false_iff, Option.isSome_eq_false_iff] at h
      rw [escapeOf]
      cases ha : hexVal a with
      | none => rfl
      | some hi =>
          cases hb : hexVal b with
          | none => rfl
          | some lo =>
              rw [ha, hb] at h
              simp at h

/-- Every form of a value is decoded to the value. -/
theorem urlDecode_percentEncodes {v e : CStr} (h : PercentEncodes v e) : urlDecode e = v := by
  induction h with
  | nil => rfl
  | @plain c v e hplus hpercent h ih =>
      have hhead : decodeHead c e = (c, e) := by
        unfold decodeHead
        by_cases hc : c = '%'
        · rw [if_pos hc, escapeOf_eq_none (hpercent hc), if_neg hplus]
        · rw [if_neg hc, if_neg hplus]
      rw [urlDecode_cons, hhead, ih]
  | space h ih => rw [urlDecode, ih]
  | escape hhi hlo h ih => rw [urlDecode, hhi, hlo, ih]

/-- The text that is in the buffer when the loop has left. -/
theorem ends_text {text : CStr} (h : '\x00' ∉ text) (junk : CStr) :
    ∃ mem, Ends urlDecodeBody (decodeStart text junk) (some mem) ∧ cText mem = cText (urlDecode text) := by
  obtain ⟨mem, behind, hends, rfl⟩ := ends_layout (layout_start h junk)
  refine ⟨_, hends, ?_⟩
  rw [cText, cText, List.takeWhile_append]
  split
  · rename_i hwhole
    rw [List.takeWhile_cons_of_neg (by simp), List.append_nil]
    exact ((List.takeWhile_prefix _).eq_of_length hwhole).symm
  · rfl

/-- In place the decoder gives back what was encoded. On any text it writes
only where it has read, and what it leaves is no longer than the text. -/
theorem urlDecode_inPlace :
    (∀ v e junk : CStr, '\x00' ∉ v → PercentEncodes v e →
      ∃ mem, Ends urlDecodeBody (decodeStart e junk) (some mem) ∧ cText mem = v) ∧
    (∀ text junk : CStr, '\x00' ∉ text →
      (∀ c, Visits urlDecodeBody (decodeStart text junk) c → c.r ≤ c.s ∧ c.s ≤ text.length) ∧
      ∃ mem, Ends urlDecodeBody (decodeStart text junk) (some mem) ∧ (cText mem).length ≤ text.length) := by
  constructor
  · intro v e junk hv h
    obtain ⟨mem, hends, htext⟩ := ends_text (h.nulFree hv) junk
    refine ⟨mem, hends, ?_⟩
    rw [htext, urlDecode_percentEncodes h, cText, List.takeWhile_eq_self_iff]
    intro c hc
    simpa using fun heq : c = '\x00' => hv (heq ▸ hc)
  · intro text junk h
    constructor
    · intro c hc
      obtain ⟨out, gap, rest, hlayout⟩ := visits_layout ⟨_, _, _, layout_start h junk⟩ hc
      have hr := hlayout.r
      have hs := hlayout.s
      have hfits := hlayout.fits
      omega
    · obtain ⟨mem, hends, htext⟩ := ends_text h junk
      refine ⟨mem, hends, ?_⟩
      rw [htext]
      exact (List.takeWhile_prefix _).length_le.trans (urlDecode_length_le text)

/-- A space that is escaped, behind a percent sign that is not. -/
theorem urlDecode_inPlace_escape :
    (∃ mem, Ends urlDecodeBody (decodeStart ['5', '%', '%', '2', '0'] []) (some mem) ∧ cText mem = ['5', '%', ' ']) ∧
      (∀ c, Visits urlDecodeBody (decodeStart ['%', '4'] []) c → c.r ≤ c.s ∧ c.s ≤ 2) ∧
      ∃ mem, Ends urlDecodeBody (decodeStart ['%', '4'] []) (some mem) ∧ (cText mem).length ≤ 2 :=
  ⟨urlDecode_inPlace.1 ['5', '%', ' '] ['5', '%', '%', '2', '0'] [] (by decide)
      (.plain (by decide) (by decide) (.plain (by decide) (by decide) (@PercentEncodes.escape '2' '0' 2 0 [] [] rfl rfl .nil))),
    urlDecode_inPlace.2 ['%', '4'] [] (by decide)⟩

end Htsn.Esp32
