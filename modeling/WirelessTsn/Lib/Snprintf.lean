import Mathlib.Data.UInt
import WirelessTsn.Lib.CString

/-!
`snprintf` into memory, and a buffer that is filled by one call behind the
other. The room left is a `size_t`, so it wraps once the text has outgrown the
buffer; memory has no end here, and what was written where is part of the
result.
-/

namespace CText

/-- What has been written from an address on. -/
abbrev Mem := Nat → Option Char

def Mem.fresh : Mem := fun _ => none

def Mem.write (m : Mem) (pos : Nat) (s : CStr) : Mem := fun i =>
  if pos ≤ i then (s[i - pos]?).or (m i) else m i

/-- The call writes nothing without room, and otherwise always a NUL. -/
def Mem.snprintf (m : Mem) (pos room : Nat) (text : CStr) : Mem :=
  if room = 0 then m else m.write pos (text.take (room - 1) ++ ['\x00'])

/-- Nothing was written at or behind the address `n`. -/
def Mem.Within (m : Mem) (n : Nat) : Prop := ∀ i, m i ≠ none → i < n

/-- The characters stand at the start of the memory. -/
def Mem.Starts (m : Mem) (s : CStr) : Prop := ∀ i, i < s.length → m i = s[i]?

/-- The memory holds the string, with its NUL. -/
def Mem.Holds (m : Mem) (s : CStr) : Prop := m.Starts (s ++ ['\x00'])

variable {m : Mem} {s t : CStr} {n : Nat}

theorem Mem.fresh_starts : Mem.fresh.Starts [] := by
  intro i hi
  cases hi

theorem Mem.fresh_within (n : Nat) : Mem.fresh.Within n := fun _ h => absurd rfl h

theorem Mem.Holds.starts (h : m.Holds s) : m.Starts s := by
  intro i hi
  have hat := h i (by rw [List.length_append]; omega)
  rwa [List.getElem?_append_left hi] at hat

/-- Text written behind a text continues it. -/
theorem Mem.Starts.write (h : m.Starts s) (t : CStr) : (m.write s.length t).Starts (s ++ t) := by
  intro i hi
  rw [List.length_append] at hi
  unfold Mem.write
  split
  · rename_i hle
    rw [List.getElem?_append_right hle, List.getElem?_eq_getElem (by omega)]
    rfl
  · rename_i hlt
    rw [List.getElem?_append_left (by omega)]
    exact h i (by omega)

theorem Mem.Within.write (h : m.Within n) {pos : Nat} (hfit : pos + t.length ≤ n) :
    (m.write pos t).Within n := by
  intro i hi
  unfold Mem.write at hi
  split at hi
  · rename_i hle
    rcases Nat.lt_or_ge (i - pos) t.length with hin | hout
    · omega
    · rw [List.getElem?_eq_none hout] at hi
      exact h i hi
  · exact h i hi

/-- A call that starts inside the buffer stays there and leaves the text cut
at the last byte but one. -/
theorem Mem.Starts.snprintf (h : m.Starts s) (hs : s.length < n) (t : CStr) :
    (m.snprintf s.length (n - s.length) t).Holds ((s ++ t).take (n - 1)) := by
  have hcut : (s ++ t).take (n - 1) = s ++ t.take (n - s.length - 1) := by
    rw [List.take_append, List.take_of_length_le (by omega), Nat.sub_right_comm]
  rw [Mem.snprintf, if_neg (by omega), hcut, Mem.Holds, List.append_assoc]
  exact h.write _

theorem Mem.Within.snprintf (h : m.Within n) {pos : Nat} (hpos : pos < n) (t : CStr) :
    (m.snprintf pos (n - pos) t).Within n := by
  rw [Mem.snprintf, if_neg (by omega)]
  apply h.write
  rw [List.length_append, List.length_take, List.length_singleton]
  omega

/-! ### One call behind the other -/

/-- A call, with the offset and the room it was made with. -/
structure PrintCall where
  pos : UInt64
  room : UInt64
  text : CStr
deriving DecidableEq

/-- A buffer with the offset of the next call and the calls so far. -/
structure Printer where
  mem : Mem
  off : UInt64
  calls : List PrintCall

def Printer.fresh : Printer := ⟨.fresh, 0, []⟩

/-- `off += snprintf(out + off, size - off, ..)` -/
def Printer.print (size : UInt64) (p : Printer) (text : CStr) : Printer where
  mem := p.mem.snprintf p.off.toNat (size - p.off).toNat text
  off := p.off + UInt64.ofNat text.length
  calls := p.calls ++ [⟨p.off, size - p.off, text⟩]

def Printer.texts (p : Printer) : List CStr := p.calls.map PrintCall.text

/-- One call for each text. -/
def Printer.printAll (size : UInt64) (p : Printer) (texts : List CStr) : Printer :=
  texts.foldl (Printer.print size) p

variable {size : UInt64} {p : Printer} {text : CStr} {texts : List CStr}

theorem Printer.printAll_append (us : List CStr) :
    p.printAll size (texts ++ us) = (p.printAll size texts).printAll size us := List.foldl_append

theorem Printer.printAll_concat (text : CStr) :
    p.printAll size (texts ++ [text]) = (p.printAll size texts).print size text :=
  Printer.printAll_append [text]

theorem Printer.printAll_texts (texts : List CStr) :
    (p.printAll size texts).texts = p.texts ++ texts := by
  induction texts generalizing p with
  | nil => exact (List.append_nil _).symm
  | cons t ts ih =>
      have hprint : (p.print size t).calls = p.calls ++ [⟨p.off, size - p.off, t⟩] := rfl
      rw [Printer.printAll, List.foldl_cons]
      refine ih.trans ?_
      rw [Printer.texts, hprint, List.map_append, List.append_assoc]
      rfl

/-- The offset counts the whole texts, whether they fitted or not. -/
theorem Printer.off_printAll (htotal : texts.flatten.length < 2 ^ 64) :
    (Printer.fresh.printAll size texts).off.toNat = texts.flatten.length := by
  induction texts using List.reverseRecOn with
  | nil => rfl
  | append_singleton ts t ih =>
      rw [List.flatten_append, List.length_append, List.flatten_singleton] at htotal ⊢
      rw [Printer.printAll_concat]
      have hstep : ((Printer.fresh.printAll size ts).print size t).off =
          (Printer.fresh.printAll size ts).off + UInt64.ofNat t.length := rfl
      rw [hstep, UInt64.toNat_add, ih (by omega), UInt64.toNat_ofNat_of_lt' (by
        rw [UInt64.size]
        omega)]
      exact Nat.mod_eq_of_lt htotal

/-- Every call starts inside the buffer. -/
def Printer.CallsInside (p : Printer) (size : UInt64) : Prop := ∀ c ∈ p.calls, c.pos < size

theorem Printer.callsInside_print :
    (p.print size text).CallsInside size ↔ p.CallsInside size ∧ p.off < size := by
  unfold Printer.CallsInside
  have hcalls : (p.print size text).calls = p.calls ++ [⟨p.off, size - p.off, text⟩] := rfl
  rw [hcalls, List.forall_mem_append, List.forall_mem_singleton]

/-- The last call starts furthest out. -/
theorem Printer.callsInside_printAll (hsize : 0 < size)
    (htotal : texts.dropLast.flatten.length < 2 ^ 64) :
    (Printer.fresh.printAll size texts).CallsInside size ↔
      texts.dropLast.flatten.length < size.toNat := by
  induction texts using List.reverseRecOn with
  | nil =>
      refine iff_of_true (fun c hc => ?_) (UInt64.lt_iff_toNat_lt.mp hsize)
      cases hc
  | append_singleton ts t ih =>
      rw [List.dropLast_concat] at htotal
      have hshort : ts.dropLast.flatten.length ≤ ts.flatten.length :=
        (List.dropLast_sublist ts).flatten.length_le
      rw [Printer.printAll_concat, Printer.callsInside_print, List.dropLast_concat,
        UInt64.lt_iff_toNat_lt, Printer.off_printAll htotal, ih (by omega), and_iff_right_iff_imp]
      omega

/-- As long as every call starts inside the buffer, nothing is written
elsewhere and the buffer holds the text, cut to what fits. -/
theorem Printer.printAll_inside (hne : texts ≠ [])
    (hlast : texts.dropLast.flatten.length < size.toNat) :
    (Printer.fresh.printAll size texts).mem.Within size.toNat ∧
      (Printer.fresh.printAll size texts).mem.Holds (texts.flatten.take (size.toNat - 1)) := by
  induction texts using List.reverseRecOn with
  | nil => exact absurd rfl hne
  | append_singleton ts t ih =>
      rw [List.dropLast_concat] at hlast
      have hoff : (Printer.fresh.printAll size ts).off.toNat = ts.flatten.length :=
        Printer.off_printAll (hlast.trans size.toNat_lt)
      have hroom : (size - (Printer.fresh.printAll size ts).off).toNat =
          size.toNat - ts.flatten.length := by
        rw [UInt64.toNat_sub_of_le _ _ (UInt64.le_iff_toNat_le.mpr (by omega)), hoff]
      have hbefore : (Printer.fresh.printAll size ts).mem.Within size.toNat ∧
          (Printer.fresh.printAll size ts).mem.Starts ts.flatten := by
        rcases List.eq_nil_or_concat ts with rfl | ⟨us, u, rfl⟩
        · exact ⟨Mem.fresh_within _, Mem.fresh_starts⟩
        · have hshort : (us.concat u).dropLast.flatten.length ≤ (us.concat u).flatten.length :=
            (List.dropLast_sublist _).flatten.length_le
          have hus := ih (by simp) (by omega)
          have hstarts := hus.2.starts
          rw [List.take_of_length_le (by omega)] at hstarts
          exact ⟨hus.1, hstarts⟩
      rw [Printer.printAll_concat, List.flatten_append, List.flatten_singleton]
      have hmem : ((Printer.fresh.printAll size ts).print size t).mem =
          (Printer.fresh.printAll size ts).mem.snprintf ts.flatten.length
            (size.toNat - ts.flatten.length) t := by
        rw [← hroom, ← hoff]
        rfl
      rw [hmem]
      exact ⟨hbefore.1.snprintf hlast t, hbefore.2.snprintf hlast t⟩

/-- While the texts fit, no call is longer than the room it was given. -/
theorem Printer.calls_fit (hfit : texts.flatten.length ≤ size.toNat) :
    ∀ c ∈ (Printer.fresh.printAll size texts).calls, c.text.length ≤ c.room.toNat := by
  induction texts using List.reverseRecOn with
  | nil =>
      intro c hc
      cases hc
  | append_singleton ts t ih =>
      rw [List.flatten_append, List.length_append, List.flatten_singleton] at hfit
      have hbound := size.toNat_lt
      have hoff : (Printer.fresh.printAll size ts).off.toNat = ts.flatten.length :=
        Printer.off_printAll (by omega)
      rw [Printer.printAll_concat]
      intro c hc
      rcases List.mem_append.mp hc with hc | hc
      · exact ih (by omega) c hc
      · rw [List.mem_singleton] at hc
        rw [hc]
        show t.length ≤ (size - (Printer.fresh.printAll size ts).off).toNat
        rw [UInt64.toNat_sub_of_le _ _ (UInt64.le_iff_toNat_le.mpr (by omega)), hoff]
        omega

end CText
