import WirelessTsn.Lib.CString

/-!
String literals in the text of an SQL statement. What stands between apostrophes
is one token, in which two of them are one character; everything else is taken
character by character. A literal is read back as the text it was made from,
whatever stands in it.
-/

namespace SqlText

open CText

/-- The apostrophe. -/
def quote : Char := '\x27'

/-- `opened` is a literal that does not end. -/
inductive Token where
  | char (c : Char)
  | text (s : CStr)
  | opened (s : CStr)
deriving DecidableEq

/-- Behind an apostrophe inside a literal, `closing`, the next character says
whether the literal is over. -/
inductive State where
  | outside
  | inside (acc : CStr)
  | closing (acc : CStr)
deriving DecidableEq

def State.step : State → Char → State × List Token
  | .outside, c => if c = quote then (.inside [], []) else (.outside, [.char c])
  | .inside acc, c => if c = quote then (.closing acc, []) else (.inside (acc ++ [c]), [])
  | .closing acc, c =>
      if c = quote then (.inside (acc ++ [quote]), []) else (.outside, [.text acc, .char c])

def State.finish : State → List Token
  | .outside => []
  | .inside acc => [.opened acc]
  | .closing acc => [.text acc]

/-- The tokens of a text from a state on. -/
def tokens : State → CStr → List Token
  | st, [] => st.finish
  | st, c :: s => (st.step c).2 ++ tokens (st.step c).1 s

/-- The state behind a text. -/
def State.after (st : State) (s : CStr) : State := s.foldl (fun st c => (st.step c).1) st

/-- The character doubled where it has to be. -/
def doubled (s : CStr) : CStr := s.flatMap fun c => if c = quote then [quote, quote] else [c]

/-- `'...'` -/
def literal (s : CStr) : CStr := quote :: (doubled s ++ [quote])

/-! ### Texts one behind the other -/

/-- A piece that leaves no literal open is read on its own. -/
theorem tokens_append {st : State} {a : CStr} (h : st.after a = .outside) (b : CStr) :
    tokens st (a ++ b) = tokens st a ++ tokens .outside b := by
  induction a generalizing st with
  | nil =>
      cases h
      rfl
  | cons c a ih =>
      rw [List.cons_append, tokens, tokens, ih h, List.append_assoc]

/-- Characters that are no apostrophes leave the outside as it is. -/
theorem tokens_chars {s : CStr} (h : quote ∉ s) :
    tokens .outside s = s.map .char ∧ State.after .outside s = .outside := by
  induction s with
  | nil => exact ⟨rfl, rfl⟩
  | cons c s ih =>
      have hc : c ≠ quote := fun heq => h (heq ▸ List.mem_cons_self)
      have hstep : State.outside.step c = (.outside, [.char c]) := if_neg hc
      obtain ⟨htokens, hafter⟩ := ih fun hs => h (List.mem_cons_of_mem c hs)
      constructor
      · rw [tokens, hstep, htokens]
        rfl
      · rw [State.after, List.foldl_cons, hstep]
        exact hafter

/-! ### Literals -/

/-- Inside a literal doubled text is collected. -/
theorem tokens_doubled (acc v rest : CStr) :
    tokens (.inside acc) (doubled v ++ rest) = tokens (.inside (acc ++ v)) rest := by
  induction v generalizing acc with
  | nil => rw [List.append_nil]; rfl
  | cons c v ih =>
      have hdoubled : doubled (c :: v) = (if c = quote then [quote, quote] else [c]) ++ doubled v :=
        List.flatMap_cons
      have hacc : acc ++ c :: v = acc ++ [c] ++ v := by simp
      rw [hdoubled, hacc, ← ih]
      split
      · next hc => simp [tokens, State.step, hc]
      · next hc => simp [tokens, State.step, hc]

/-- A literal is one token, and its text is the one it was made from. -/
theorem tokens_literal (v : CStr) {rest : CStr} (h : rest.head? ≠ some quote) :
    tokens .outside (literal v ++ rest) = .text v :: tokens .outside rest := by
  have hopen : literal v ++ rest = quote :: (doubled v ++ (quote :: rest)) := by simp [literal]
  have hinside : State.outside.step quote = (.inside [], []) := rfl
  have hclosing : (State.inside v).step quote = (.closing v, []) := rfl
  rw [hopen, tokens, hinside, List.nil_append, tokens_doubled, List.nil_append, tokens, hclosing, List.nil_append]
  cases rest with
  | nil => rfl
  | cons c rest =>
      have hc : c ≠ quote := fun heq => h (congrArg some heq)
      simp [tokens, State.step, hc]

/-! ### What a literal cannot turn into -/

/-- The first token from inside a literal begins with what was collected. -/
theorem tokens_inside (acc s : CStr) :
    ∃ w ts, acc <+: w ∧ (tokens (.inside acc) s = .text w :: ts ∨ tokens (.inside acc) s = .opened w :: ts) := by
  induction hn : s.length using Nat.strong_induction_on generalizing acc s with
  | _ n ih =>
      cases s with
      | nil => exact ⟨acc, [], List.prefix_rfl, Or.inr rfl⟩
      | cons c s =>
          rcases eq_or_ne c quote with rfl | hc
          · have hclosing : tokens (.inside acc) (quote :: s) = tokens (.closing acc) s := by
              simp [tokens, State.step]
            rw [hclosing]
            cases s with
            | nil => exact ⟨acc, [], List.prefix_rfl, Or.inl rfl⟩
            | cons d s =>
                rcases eq_or_ne d quote with rfl | hd
                · obtain ⟨w, ts, hw, hts⟩ := ih s.length (by simp [← hn]) (acc ++ [quote]) s rfl
                  refine ⟨w, ts, (List.prefix_append acc [quote]).trans hw, ?_⟩
                  simpa [tokens, State.step] using hts
                · exact ⟨acc, .char d :: tokens .outside s, List.prefix_rfl,
                    Or.inl (by simp [tokens, State.step, hd])⟩
          · obtain ⟨w, ts, hw, hts⟩ := ih s.length (by simp [← hn]) (acc ++ [c]) s rfl
            refine ⟨w, ts, (List.prefix_append acc [c]).trans hw, ?_⟩
            simpa [tokens, State.step, hc] using hts

theorem ne_of_prefix_concat {acc w : CStr} {c d : Char} (hc : acc ++ [c] <+: w) (hd : acc ++ [d] <+: w) : c = d := by
  obtain ⟨s, rfl⟩ := hc
  obtain ⟨t, ht⟩ := hd
  simpa using (congrArg (fun l => l[acc.length]?) ht).symm

/-- Where another character stands, a different text is read. -/
theorem tokens_inside_ne {acc v s : CStr} {c d : Char} (hcd : c ≠ d) (hv : acc ++ [d] <+: v)
    (ts : List Token) : tokens (.inside acc) (c :: s) ≠ .text v :: ts := by
  intro h
  rcases eq_or_ne c quote with rfl | hc
  · have hclosing : tokens (.inside acc) (quote :: s) = tokens (.closing acc) s := by simp [tokens, State.step]
    have hover : acc ≠ v := by
      rintro rfl
      simpa using hv.length_le
    rw [hclosing] at h
    cases s with
    | nil => exact hover (Token.text.inj (List.cons.inj h).1)
    | cons e s =>
        rcases eq_or_ne e quote with rfl | he
        · have hgoon : tokens (.closing acc) (quote :: s) = tokens (.inside (acc ++ [quote])) s := by
            simp [tokens, State.step]
          obtain ⟨w, ts', hw, hts | hts⟩ := tokens_inside (acc ++ [quote]) s
          · rw [hgoon, hts] at h
            cases h
            exact hcd (ne_of_prefix_concat hw hv)
          · rw [hgoon, hts] at h
            cases h
        · have hend : tokens (.closing acc) (e :: s) = .text acc :: .char e :: tokens .outside s := by
            simp [tokens, State.step, he]
          rw [hend] at h
          exact hover (Token.text.inj (List.cons.inj h).1)
  · have hgoon : tokens (.inside acc) (c :: s) = tokens (.inside (acc ++ [c])) s := by
      simp [tokens, State.step, hc]
    obtain ⟨w, ts', hw, hts | hts⟩ := tokens_inside (acc ++ [c]) s
    · rw [hgoon, hts] at h
      cases h
      exact hcd (ne_of_prefix_concat hw hv)
    · rw [hgoon, hts] at h
      cases h

end SqlText
