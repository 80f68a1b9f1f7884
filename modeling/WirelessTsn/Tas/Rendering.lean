import WirelessTsn.Lib.Scanf
import WirelessTsn.Lib.Snprintf
import WirelessTsn.Tas.Schedule

/-!
`htsn_gcl_render_ascii`. The loop takes what `snprintf` would have written off
a `size_t`, also when there was less room: then `remaining` has wrapped, the
loop goes on behind the buffer, and the NUL is put there too.
-/

namespace Htsn

open CText

def rowStateChar (s : UInt8) : Char := if s &&& gateOpen ≠ 0 then '#' else '.'

/-- `"[%c %lldns]"` -/
def entryText (e : GclEntry) : CStr :=
  '[' :: rowStateChar e.gateState :: ' ' :: (showInt e.durationNs.toInt ++ "ns]".toList)

/-- The loop. `p` is `off` bytes behind `out`, and `remaining` is what `size`
has left then. -/
def renderEntries (size : UInt64) : List GclEntry → Printer → Printer
  | [], s => s
  | e :: es, s =>
      if size - s.off > 1 then renderEntries size es (s.print size (entryText e)) else s

/-- `if (remaining > 0) *p = '\0';` -/
def terminate (size : UInt64) (s : Printer) : Printer :=
  if size - s.off > 0 then { s with mem := s.mem.write s.off.toNat ['\x00'] } else s

def gclRenderAscii (gcl : Gcl) (size : UInt64) : Printer :=
  if size = 0 then .fresh else terminate size (renderEntries size gcl.entries.items .fresh)

/-- The rendering in a buffer without end. -/
def rendering (es : List GclEntry) : CStr := (es.map entryText).flatten

/-- Nothing is written outside the buffer, `remaining` does not wrap, and the
buffer holds an initial part of the rendering. -/
structure RenderSafe (gcl : Gcl) (size : UInt64) (s : Printer) : Prop where
  writes : s.mem.Within size.toNat
  remaining : ∀ c ∈ s.calls, c.text.length ≤ c.room.toNat
  output : ∃ text, s.mem.Holds text ∧ text <+: rendering gcl.entries.items

/-- The loop stops in time: all entries are no longer than the buffer, or some
first ones take all of it or all but one byte. -/
def EndsInBuffer (size : Nat) (es : List GclEntry) : Prop :=
  ∃ k, (rendering (es.take k)).length ≤ size ∧
    (es.length ≤ k ∨ size ≤ (rendering (es.take k)).length + 1)

/-! ### The loop -/

theorem entryText_length (e : GclEntry) : 0 < (entryText e).length ∧ (entryText e).length ≤ 26 := by
  have hnumber : (showInt e.durationNs.toInt).length ≤ 20 := by
    have hlo := e.durationNs.le_toInt
    have hhi := e.durationNs.toInt_lt
    exact showInt_length_le (by omega) (by omega)
  simp only [entryText, String.reduceToList, List.length_cons, List.length_append, List.length_nil]
  omega

theorem rendering_length_le (es : List GclEntry) : (rendering es).length ≤ 26 * es.length := by
  induction es with
  | nil => exact Nat.le_refl 0
  | cons e es ih =>
      have hentry := (entryText_length e).2
      have hcons : rendering (e :: es) = entryText e ++ rendering es := rfl
      rw [hcons, List.length_append, List.length_cons]
      omega

theorem rendering_append (es fs : List GclEntry) :
    rendering (es ++ fs) = rendering es ++ rendering fs := by
  simp [rendering]

/-- The state of the loop when it has printed some entries. -/
def rendered (size : UInt64) (done : List GclEntry) : Printer :=
  Printer.fresh.printAll size (done.map entryText)

theorem rendered_concat (size : UInt64) (done : List GclEntry) (e : GclEntry) :
    (rendered size done).print size (entryText e) = rendered size (done ++ [e]) := by
  rw [rendered, rendered, List.map_append]
  exact (Printer.printAll_concat _).symm

theorem off_rendered (size : UInt64) {done : List GclEntry}
    (h : (rendering done).length < 2 ^ 64) :
    (rendered size done).off.toNat = (rendering done).length := Printer.off_printAll h

/-- `remaining` after some entries that fit. -/
theorem remaining_rendered {size : UInt64} {done : List GclEntry}
    (h : (rendering done).length ≤ size.toNat) :
    (size - (rendered size done).off).toNat = size.toNat - (rendering done).length := by
  have hoff := off_rendered size (h.trans_lt size.toNat_lt)
  rw [UInt64.toNat_sub_of_le _ _ (UInt64.le_iff_toNat_le.mpr (by omega)), hoff]

/-- After some that do not, it is far from zero. -/
theorem remaining_wrapped {size : UInt64} {done : List GclEntry} (hlen : done.length ≤ 128)
    (h : size.toNat < (rendering done).length) : 1 < (size - (rendered size done).off).toNat := by
  have hbound := rendering_length_le done
  have hoff := @off_rendered size done (by omega)
  rw [UInt64.toNat_sub, hoff]
  omega

/-- The loop stops at entries that end in the buffer. -/
theorem renderEntries_stops {size : UInt64} {done es : List GclEntry}
    (h : ∃ k, (rendering (done ++ es.take k)).length ≤ size.toNat ∧
      (es.length ≤ k ∨ size.toNat ≤ (rendering (done ++ es.take k)).length + 1)) :
    ∃ k, renderEntries size es (rendered size done) = rendered size (done ++ es.take k) ∧
      (rendering (done ++ es.take k)).length ≤ size.toNat := by
  induction es generalizing done with
  | nil =>
      obtain ⟨k, hfit, -⟩ := h
      exact ⟨k, by rw [List.take_nil, List.append_nil, renderEntries], hfit⟩
  | cons e es ih =>
      obtain ⟨k, hfit, hstop⟩ := h
      have hdone : (rendering done).length ≤ size.toNat := by
        rw [rendering_append, List.length_append] at hfit
        omega
      rw [renderEntries]
      split
      · rename_i hroom
        have hgo := UInt64.lt_iff_toNat_lt.mp hroom
        rw [remaining_rendered hdone] at hgo
        have hone : (1 : UInt64).toNat = 1 := rfl
        rw [hone] at hgo
        cases k with
        | zero =>
            rw [List.take_zero, List.append_nil, List.length_cons] at hstop
            omega
        | succ k =>
            rw [List.take_succ_cons, List.append_cons] at hfit hstop
            rw [rendered_concat]
            obtain ⟨j, hj, hfitj⟩ := ih ⟨k, hfit, hstop.imp_left Nat.le_of_succ_le_succ⟩
            refine ⟨j + 1, ?_, ?_⟩
            · rw [hj, List.take_succ_cons, List.append_cons done e (es.take j)]
            · rwa [List.take_succ_cons, List.append_cons done e (es.take j)]
      · exact ⟨0, by rw [List.take_zero, List.append_nil], by rwa [List.take_zero, List.append_nil]⟩

/-- When no entries do, it prints them all and is behind the buffer then. -/
theorem renderEntries_overruns {size : UInt64} {done es : List GclEntry}
    (hlen : (done ++ es).length ≤ 128)
    (h : ¬ ∃ k, (rendering (done ++ es.take k)).length ≤ size.toNat ∧
      (es.length ≤ k ∨ size.toNat ≤ (rendering (done ++ es.take k)).length + 1)) :
    renderEntries size es (rendered size done) = rendered size (done ++ es) ∧
      size.toNat < (rendering (done ++ es)).length := by
  induction es generalizing done with
  | nil =>
      refine ⟨by rw [renderEntries, List.append_nil], ?_⟩
      by_contra hfit
      exact h ⟨0, by simpa using hfit, Or.inl (Nat.le_refl 0)⟩
  | cons e es ih =>
      have hroom : 1 < (size - (rendered size done).off).toNat := by
        rcases Nat.lt_or_ge size.toNat (rendering done).length with hout | hin
        · exact remaining_wrapped (by rw [List.length_append] at hlen; omega) hout
        · rw [remaining_rendered hin]
          by_contra hstop
          refine h ⟨0, ?_, Or.inr ?_⟩
          · rwa [List.take_zero, List.append_nil]
          · rw [List.take_zero, List.append_nil]
            omega
      have hrest := @ih (done ++ [e]) (by rwa [← List.append_cons]) (by
        rintro ⟨k, hfit, hstop⟩
        rw [← List.append_cons] at hfit hstop
        exact h ⟨k + 1, hfit, hstop.imp_left Nat.succ_le_succ⟩)
      have hgo : size - (rendered size done).off > 1 := UInt64.lt_iff_toNat_lt.mpr hroom
      rw [renderEntries, if_pos hgo, rendered_concat, List.append_cons done e es]
      exact hrest

/-! ### The NUL at the end -/

theorem rendering_ne {es : List GclEntry} (h : es ≠ []) :
    (rendering es.dropLast).length < (rendering es).length := by
  rcases List.eq_nil_or_concat es with rfl | ⟨front, e, rfl⟩
  · exact absurd rfl h
  · have hpos := (entryText_length e).1
    rw [List.concat_eq_append, List.dropLast_concat, rendering_append, List.length_append]
    have hlast : rendering [e] = entryText e := List.append_nil _
    rw [hlast]
    omega

theorem rendered_inside {size : UInt64} {done : List GclEntry} (hne : done ≠ [])
    (hfit : (rendering done).length ≤ size.toNat) :
    (rendered size done).mem.Within size.toNat ∧
      (rendered size done).mem.Holds ((rendering done).take (size.toNat - 1)) := by
  have hlast := rendering_ne hne
  apply Printer.printAll_inside
  · rwa [ne_eq, List.map_eq_nil_iff]
  · rw [← List.map_dropLast]
    exact hlast.trans_le hfit

/-- Behind entries that fit, the buffer holds what fits of their text. -/
theorem terminate_rendered {size : UInt64} (hsize : 0 < size) {done : List GclEntry}
    (hfit : (rendering done).length ≤ size.toNat) :
    (terminate size (rendered size done)).mem.Within size.toNat ∧
      (terminate size (rendered size done)).mem.Holds ((rendering done).take (size.toNat - 1)) := by
  have hpos : 0 < size.toNat := UInt64.lt_iff_toNat_lt.mp hsize
  have hoff := off_rendered size (hfit.trans_lt size.toNat_lt)
  have hleft := remaining_rendered hfit
  unfold terminate
  split
  · rename_i hgo
    have hroom := UInt64.lt_iff_toNat_lt.mp hgo
    rw [hleft, UInt64.toNat_zero] at hroom
    have hbefore : (rendered size done).mem.Within size.toNat ∧
        (rendered size done).mem.Starts (rendering done) := by
      by_cases hnil : done = []
      · rw [hnil]
        exact ⟨Mem.fresh_within _, Mem.fresh_starts⟩
      · obtain ⟨hwithin, hholds⟩ := rendered_inside hnil hfit
        have hstarts := hholds.starts
        rw [List.take_of_length_le (by omega)] at hstarts
        exact ⟨hwithin, hstarts⟩
    rw [List.take_of_length_le (by omega), hoff]
    exact ⟨hbefore.1.write (by rw [List.length_singleton]; omega), hbefore.2.write _⟩
  · rename_i hfull
    have hzero : ¬ 0 < (size - (rendered size done).off).toNat :=
      fun h => hfull (UInt64.lt_iff_toNat_lt.mpr h)
    refine rendered_inside ?_ hfit
    rintro rfl
    rw [hleft] at hzero
    exact hzero hpos

/-- A rendering is safe exactly when it stops in the buffer: when all of it is
no longer than the buffer, or some first entries take the whole buffer or all
but one byte of it. -/
theorem render_safe_iff (gcl : Gcl) (size : UInt64) (hsize : 0 < size) :
    RenderSafe gcl size (gclRenderAscii gcl size) ↔ EndsInBuffer size.toNat gcl.entries.items := by
  have hne : size ≠ 0 := by
    rintro rfl
    exact absurd hsize (UInt64.lt_irrefl 0)
  have hfits : gcl.entries.items.length ≤ 128 := gcl.entries.fits
  have hstart : renderEntries size gcl.entries.items .fresh =
      renderEntries size gcl.entries.items (rendered size []) := rfl
  rw [gclRenderAscii, if_neg hne, hstart]
  constructor
  · intro h
    by_contra hout
    obtain ⟨hrun, hover⟩ := @renderEntries_overruns size [] gcl.entries.items hfits hout
    rw [List.nil_append] at hrun hover
    have hbound := rendering_length_le gcl.entries.items
    have hoff := @off_rendered size gcl.entries.items (by omega)
    have hgo : size - (rendered size gcl.entries.items).off > 0 :=
      UInt64.lt_iff_toNat_lt.mpr (Nat.zero_lt_one.trans (remaining_wrapped hfits hover))
    have hwrites := h.writes
    rw [hrun, terminate, if_pos hgo] at hwrites
    have hnul := hwrites (rendered size gcl.entries.items).off.toNat (by simp [Mem.write])
    omega
  · intro hends
    obtain ⟨k, hrun, hfit⟩ := @renderEntries_stops size [] gcl.entries.items hends
    rw [List.nil_append] at hrun hfit
    obtain ⟨hwithin, hholds⟩ := terminate_rendered hsize hfit
    have hcalls : (terminate size (rendered size (gcl.entries.items.take k))).calls =
        (rendered size (gcl.entries.items.take k)).calls := by
      unfold terminate
      split <;> rfl
    rw [hrun]
    refine ⟨hwithin, ?_, _, hholds, ?_⟩
    · rw [hcalls]
      exact Printer.calls_fit hfit
    · refine (List.take_prefix _ _).trans ⟨rendering (gcl.entries.items.drop k), ?_⟩
      rw [← rendering_append, List.take_append_drop]

/-- An open window of 40 us and a closed one of 60 us. -/
def twoWindows : Gcl :=
  let gcl : Gcl := ⟨.empty, 100000⟩
  (gclAddEntry (gclAddEntry gcl gateOpen 40000).2 0 60000).2

theorem twoWindows_safe : RenderSafe twoWindows 256 (gclRenderAscii twoWindows 256) :=
  (render_safe_iff twoWindows 256 (by decide)).mpr ⟨2, by decide, Or.inl (by decide)⟩

/-- In a buffer of 8 bytes the first entry alone is too long. -/
theorem twoWindows_overrun :
    ¬ ∀ (gcl : Gcl) (size : UInt64), 0 < size → RenderSafe gcl size (gclRenderAscii gcl size) := by
  intro hclaim
  have hnul : (gclRenderAscii twoWindows 8).mem 22 ≠ none := by decide
  have hinside := (hclaim twoWindows 8 (by decide)).writes 22 hnul
  exact absurd hinside (by decide)

end Htsn
