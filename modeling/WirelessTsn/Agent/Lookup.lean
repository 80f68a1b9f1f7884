import WirelessTsn.Agent.Host

/-!
When `json_val` of the host agent comes back. A round of its loop goes over
white space and separators, over bare text up to the next comma or brace, or
over a quoted key with what follows it up to there; all of these advance. On a
closing brace at the top of the loop none of the inner loops moves, so the
search hangs exactly on the texts that lead it to one.
-/

namespace Htsn.Host

open CText Json

/-- Text that one round goes over up to the next comma or brace. -/
inductive Skipped (key : CStr) : CStr → Prop where
  | bare {c : Char} {u : CStr} (hws : isWs c = false) (hquote : c ≠ '"')
      (hrun : ∀ x ∈ c :: u, isStop x = false) : Skipped key (c :: u)
  | quoted {k u : CStr} (hk : '"' ∉ k) (hne : k ≠ key) (hrun : ∀ x ∈ u, isStop x = false) :
      Skipped key ('"' :: (k ++ '"' :: u))

/-- Text behind which the search is at the top of its loop again. -/
inductive Piece (key : CStr) : CStr → Prop where
  | blank {c : Char} (hc : (isWs c || isSep c) = true) : Piece key [c]
  | member {u : CStr} {c : Char} (hu : Skipped key u) (hc : isSep c = true) : Piece key (u ++ [c])

/-- The search is led to a closing brace. -/
def Hangs (key json : CStr) : Prop :=
  ∃ (ps : List CStr) (last rest : CStr), (∀ p ∈ ps, Piece key p) ∧ (last = [] ∨ Skipped key last) ∧
    json = ps.flatten ++ (last ++ '\x7d' :: rest)

variable {key s u : CStr} {r : Option CStr} {c : Char}

theorem ready_skipped (hu : Skipped key u) :
    Mode.ready.Finds key (u ++ s) r ↔ Mode.away.Finds key s r := by
  cases hu with
  | @bare c u hws hquote hrun =>
      have hstop := hrun c List.mem_cons_self
      rw [isStop, Bool.or_eq_false_iff] at hstop
      rw [List.cons_append, ready_other (by simp [hws, hstop.1]) hquote, ← List.cons_append,
        away_text hrun]
  | @quoted k u hk hne hrun =>
      have htext : '"' :: (k ++ '"' :: u) ++ s = '"' :: (k ++ '"' :: (u ++ s)) := by simp
      rw [htext, ready_pass hk hne, away_text hrun]

theorem away_sep (hc : isSep c = true) :
    Mode.away.Finds key (c :: s) r ↔ Mode.ready.Finds key s r := by
  rw [away_stop (by simp [isStop, hc]), ready_skip (by simp [hc])]

theorem ready_piece {p : CStr} (hp : Piece key p) :
    Mode.ready.Finds key (p ++ s) r ↔ Mode.ready.Finds key s r := by
  cases hp with
  | blank hc => exact ready_skip hc
  | member hu hc =>
      rw [List.append_assoc, ready_skipped hu]
      exact away_sep hc

/-- A search that is led to a closing brace does not come back. -/
theorem not_finds_of_hangs (h : Hangs key s) : ¬ Mode.ready.Finds key s r := by
  obtain ⟨ps, last, rest, hps, hlast, rfl⟩ := h
  induction ps with
  | nil =>
      rw [List.flatten_nil, List.nil_append]
      rcases hlast with rfl | hlast
      · exact not_finds_brace .ready
      · rw [ready_skipped hlast]
        exact not_finds_brace .away
  | cons p ps ih =>
      obtain ⟨hp, hps⟩ := List.forall_mem_cons.mp hps
      rw [List.flatten_cons, List.append_assoc, ready_piece hp]
      exact ih hps

theorem Hangs.cons {p : CStr} (hp : Piece key p) (h : Hangs key s) : Hangs key (p ++ s) := by
  obtain ⟨ps, last, rest, hps, hlast, rfl⟩ := h
  exact ⟨p :: ps, last, rest, List.forall_mem_cons.mpr ⟨hp, hps⟩, hlast, by simp⟩

/-- A search over skipped text that ends, is led to a brace, or goes on. -/
theorem finds_or_hangs_skipped (hu : Skipped key u) {w : CStr} (hw : ∀ x ∈ w.head?, isStop x = true)
    (ih : ∀ t : CStr, t.length < (u ++ w).length → (∃ r, Mode.ready.Finds key t r) ∨ Hangs key t) :
    (∃ r, Mode.ready.Finds key (u ++ w) r) ∨ Hangs key (u ++ w) := by
  cases w with
  | nil =>
      refine .inl ⟨none, (ready_skipped hu).mpr ?_⟩
      exact ends_nil.mpr rfl
  | cons d w =>
      have hstop := hw d rfl
      rw [isStop, Bool.or_eq_true, beq_iff_eq] at hstop
      rcases hstop with hsep | rfl
      · have hpiece : Piece key (u ++ [d]) := .member hu hsep
        have htext : u ++ d :: w = (u ++ [d]) ++ w := by simp
        have hshort : w.length < (u ++ d :: w).length := by
          rw [List.length_append, List.length_cons]
          omega
        rw [htext]
        rcases ih w hshort with ⟨r, hr⟩ | hhang
        · exact .inl ⟨r, (ready_piece hpiece).mpr hr⟩
        · exact .inr (hhang.cons hpiece)
      · exact .inr ⟨[], u, w, by simp, .inr hu, rfl⟩

/-- The key ends the search, with a value or without one. -/
theorem ready_key (hkey : '"' ∉ key) (w : CStr) :
    ∃ r, Mode.ready.Finds key ('"' :: (key ++ '"' :: w)) r := by
  have hbody := jsonValBody_quote key (key ++ '"' :: w)
  rw [splitQuote_append hkey] at hbody
  simp only [if_true] at hbody
  split at hbody
  · exact ⟨none, (Loop.ends_done hbody).mpr rfl⟩
  · exact ⟨_, (Loop.ends_done hbody).mpr rfl⟩

/-- Every search ends or is led to a closing brace. -/
theorem finds_or_hangs (key s : CStr) : (∃ r, Mode.ready.Finds key s r) ∨ Hangs key s := by
  induction hlen : s.length using Nat.strong_induction_on generalizing s with
  | _ n ih =>
    subst hlen
    have hgo : ∀ {u w : CStr}, s = u ++ w → Skipped key u → (∀ x ∈ w.head?, isStop x = true) →
        (∃ r, Mode.ready.Finds key s r) ∨ Hangs key s := by
      rintro u w rfl hu hw
      exact finds_or_hangs_skipped hu hw fun t ht => ih t.length ht t rfl
    cases s with
    | nil => exact .inl ⟨none, ends_nil.mpr rfl⟩
    | cons c t =>
        cases hblank : isWs c || isSep c with
        | true =>
            rcases ih t.length (Nat.lt_succ_self _) t rfl with ⟨r, hr⟩ | hhang
            · exact .inl ⟨r, (ready_skip hblank).mpr hr⟩
            · exact .inr (hhang.cons (.blank hblank))
        | false =>
            rw [Bool.or_eq_false_iff] at hblank
            by_cases hbrace : c = '\x7d'
            · rw [hbrace]
              exact .inr ⟨[], [], t, by simp, .inl rfl, rfl⟩
            by_cases hquote : c = '"'
            · subst hquote
              by_cases hclosed : '"' ∈ t
              · obtain ⟨k, v, rfl, hk⟩ := List.eq_append_cons_of_mem hclosed
                by_cases hsame : k = key
                · rw [hsame] at hk ⊢
                  exact .inl (ready_key hk v)
                · obtain ⟨u, w, rfl, hu, hw⟩ := exists_span (fun x => !isStop x) v
                  refine hgo (u := '"' :: (k ++ '"' :: u)) (w := w) (by simp)
                    (.quoted hk hsame fun x hx => by simpa using hu x hx) fun x hx => ?_
                  simpa using hw x hx
              · exact .inl ⟨none, (ready_last hclosed).mpr rfl⟩
            · obtain ⟨u, w, rfl, hu, hw⟩ := exists_span (fun x => !isStop x) t
              refine hgo (u := c :: u) (w := w) rfl (.bare hblank.1 hquote fun x hx => ?_)
                fun x hx => ?_
              · rcases List.mem_cons.mp hx with rfl | hx
                · exact isStop_eq_false hblank.2 hbrace
                · simpa using hu x hx
              · simpa using hw x hx

/-- The lookup of a key comes back exactly if it is not led to a closing
brace. -/
theorem jsonVal_ends_iff (key json : CStr) :
    (∃ r, Loop.Ends (jsonValBody key) json r) ↔ ¬ Hangs key json := by
  constructor
  · rintro ⟨r, hr⟩ hhang
    exact not_finds_of_hangs hhang hr
  · exact (finds_or_hangs key json).resolve_right

/-- The search for `priority` in `{"a":1}` stays at the closing brace. -/
theorem absent_key_hangs :
    ¬ ∀ key json : CStr, ∃ r, Loop.Ends (jsonValBody key) json r := by
  intro h
  obtain ⟨r, hr⟩ := h "priority".toList "\x7b\"a\":1\x7d".toList
  refine not_finds_of_hangs ⟨[['\x7b']], "\"a\":1".toList, [], ?_, .inr ?_, rfl⟩ hr
  · intro p hp
    rw [List.mem_singleton.mp hp]
    exact .blank rfl
  · exact .quoted (k := ['a']) (u := [':', '1']) (by decide) (by decide) (by decide)

end Htsn.Host
