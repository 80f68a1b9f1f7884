import WirelessTsn.Lib.CString

/-!
How a POSIX shell splits a command line into tokens: words, with their quotes
removed, operators, and the number in front of a redirection. Expansions are
not looked into; a line with an active `$` or backquote has no fixed tokens,
and neither has one whose quotes do not end.
-/

namespace Shell

open CText

inductive Token where
  | word (text : CStr)
  | ioNumber (text : CStr)
  | oper (text : CStr)
  | newline
  deriving DecidableEq

def Token.text : Token → CStr
  | .word t | .ioNumber t | .oper t => t
  | .newline => []

/-- The apostrophe. -/
def quote : Char := '\x27'

def operators : List CStr :=
  ["&", "&&", "(", ")", ";", ";;", "|", "||", "<", ">", ">|", "<<", ">>", "<&", ">&", "<<-", "<>"].map
    String.toList

def startsOper (c : Char) : Bool := [c] ∈ operators

inductive Mode where
  | bare
  | escaped
  | single
  | double
  | doubleEscaped
  | comment
  deriving DecidableEq

/-- A word so far, and whether a part of it was quoted. -/
structure Word where
  text : CStr
  quoted : Bool
  deriving DecidableEq

structure Lexer where
  done : List Token := []
  oper : CStr := []
  word : Option Word := none
  mode : Mode := .bare
  deriving DecidableEq

variable {s t : Lexer} {c : Char}

def Lexer.wordText (s : Lexer) : CStr := (s.word.map Word.text).getD []

/-- The word with one more character, begun if need be. -/
def Lexer.append (s : Lexer) (c : Char) (quoted : Bool) : Lexer :=
  { s with word := some ⟨s.wordText ++ [c], quoted || (s.word.map Word.quoted).getD false⟩ }

/-- A quote begins a word even when nothing is in it. -/
def Lexer.openQuote (s : Lexer) (mode : Mode) : Lexer :=
  { s with word := some ⟨s.wordText, true⟩, mode }

def Lexer.endOper (s : Lexer) : Lexer :=
  if s.oper = [] then s else { s with done := s.done ++ [.oper s.oper], oper := [] }

/-- Digits directly in front of a redirection are its number. -/
def Word.token (w : Word) (redirect : Bool) : Token :=
  if redirect ∧ w.quoted = false ∧ w.text ≠ [] ∧ w.text.all Char.isDigit then .ioNumber w.text
  else .word w.text

def Lexer.endWord (s : Lexer) (redirect : Bool) : Lexer :=
  match s.word with
  | none => s
  | some w => { s with done := s.done ++ [w.token redirect], word := none }

/-- A character outside quotes that does not continue an operator. -/
def Lexer.plain (s : Lexer) (c : Char) : Option Lexer :=
  if c = quote then some (s.openQuote .single)
  else if c = '"' then some (s.openQuote .double)
  else if c = '$' ∨ c = '\x60' then none
  else if c = ' ' ∨ c = '\t' then some (s.endWord false)
  else if c = '\n' then some { s.endWord false with done := (s.endWord false).done ++ [.newline] }
  else if startsOper c then some { s.endWord (c = '<' ∨ c = '>') with oper := [c] }
  else if c = '#' ∧ s.word = none then some { s with mode := .comment }
  else some (s.append c false)

/-- A backslash leaves an operator open, for a newline behind it is taken out
before anything else. -/
def Lexer.step (s : Lexer) (c : Char) : Option Lexer :=
  match s.mode with
  | .bare =>
      if c = '\\' then some { s with mode := .escaped }
      else if s.oper ≠ [] ∧ s.oper ++ [c] ∈ operators then some { s with oper := s.oper ++ [c] }
      else s.endOper.plain c
  | .escaped =>
      if c = '\n' then some { s with mode := .bare }
      else some { s.endOper.append c true with mode := .bare }
  | .single => if c = quote then some { s with mode := .bare } else some (s.append c true)
  | .double =>
      if c = '"' then some { s with mode := .bare }
      else if c = '\\' then some { s with mode := .doubleEscaped }
      else if c = '$' ∨ c = '\x60' then none
      else some (s.append c true)
  | .doubleEscaped =>
      if c = '\n' then some { s with mode := .double }
      else if c = '$' ∨ c = '\x60' ∨ c = '"' ∨ c = '\\' then some { s.append c true with mode := .double }
      else some { (s.append '\\' true).append c true with mode := .double }
  | .comment =>
      if c = '\n' then some { s with done := s.done ++ [.newline], mode := .bare } else some s

def Lexer.run (s : Lexer) : CStr → Option Lexer
  | [] => some s
  | c :: cs =>
      match s.step c with
      | none => none
      | some t => t.run cs

/-- The end of the line; within quotes there are no tokens. -/
def Lexer.close (s : Lexer) : Option (List Token) :=
  match s.mode with
  | .bare | .comment => some (s.endOper.endWord false).done
  | .escaped | .single | .double | .doubleEscaped => none

/-- The tokens of a line. -/
def tokens (line : CStr) : Option (List Token) :=
  match ({ } : Lexer).run line with
  | none => none
  | some s => s.close

theorem Lexer.run_append (s : Lexer) (xs ys : CStr) :
    s.run (xs ++ ys) = (s.run xs).bind fun t => t.run ys := by
  induction xs generalizing s with
  | nil => rfl
  | cons c xs ih =>
      rw [List.cons_append, Lexer.run, Lexer.run]
      cases s.step c with
      | none => rfl
      | some t => exact ih t

/-- Between apostrophes every other character stands for itself. -/
theorem Lexer.run_single {text : CStr} (hmode : s.mode = .single) (hword : s.word = some ⟨s.wordText, true⟩)
    (htext : quote ∉ text) : s.run text = some { s with word := some ⟨s.wordText ++ text, true⟩ } := by
  induction text generalizing s with
  | nil =>
      rw [List.append_nil, ← hword]
      rfl
  | cons c text ih =>
      rw [List.mem_cons, not_or] at htext
      have hstep : s.step c = some (s.append c true) := by
        rw [Lexer.step, hmode]
        exact if_neg (Ne.symm htext.1)
      rw [Lexer.run, hstep]
      have hrest := @ih (s.append c true) hmode rfl htext.2
      have hread : (s.append c true).wordText = s.wordText ++ [c] := rfl
      rw [hread, List.append_assoc] at hrest
      exact hrest

/-! ### Apostrophes that are left

An apostrophe that opens or closes a quotation is in no token. Of those between
two points of a line at most all but these are in the tokens. -/

def countQuotes (text : CStr) : Nat := text.count quote

def tokenQuotes (ts : List Token) : Nat := (ts.map fun t => countQuotes t.text).sum

/-- The apostrophes in what has been read, and one more inside a quotation. -/
def Lexer.quotes (s : Lexer) : Nat :=
  tokenQuotes s.done + countQuotes s.oper + countQuotes s.wordText + if s.mode = .single then 1 else 0

theorem tokenQuotes_append (ts us : List Token) : tokenQuotes (ts ++ us) = tokenQuotes ts + tokenQuotes us := by
  simp [tokenQuotes]

theorem tokenQuotes_concat (ts : List Token) (t : Token) :
    tokenQuotes (ts ++ [t]) = tokenQuotes ts + countQuotes t.text := by
  simp [tokenQuotes]

theorem countQuotes_concat (text : CStr) (c : Char) :
    countQuotes (text ++ [c]) = countQuotes text + if c = quote then 1 else 0 := by
  rw [countQuotes, List.count_append, List.count_singleton]
  simp only [beq_iff_eq]
  rfl

theorem quotes_append (s : Lexer) (c : Char) (quoted : Bool) :
    (s.append c quoted).quotes = s.quotes + if c = quote then 1 else 0 := by
  have hword : (s.append c quoted).wordText = s.wordText ++ [c] := rfl
  have hmode : (s.append c quoted).mode = s.mode := rfl
  have hdone : (s.append c quoted).done = s.done := rfl
  have hoper : (s.append c quoted).oper = s.oper := rfl
  rw [Lexer.quotes, hword, hmode, hdone, hoper, countQuotes_concat, Lexer.quotes]
  omega

theorem quotes_endOper (s : Lexer) : s.endOper.quotes = s.quotes := by
  unfold Lexer.endOper
  split
  · rfl
  · simp only [Lexer.quotes, tokenQuotes_concat, Token.text, Lexer.wordText]
    have hnil : countQuotes [] = 0 := rfl
    omega

theorem quotes_endWord (s : Lexer) (redirect : Bool) : (s.endWord redirect).quotes = s.quotes := by
  unfold Lexer.endWord
  cases hword : s.word with
  | none => rfl
  | some w =>
      have htext : (w.token redirect).text = w.text := by
        unfold Word.token
        split <;> rfl
      have hread : s.wordText = w.text := by rw [Lexer.wordText, hword]; rfl
      have hnil : countQuotes [] = 0 := rfl
      simp only [Lexer.quotes, tokenQuotes_concat, htext, hread]
      simp only [Lexer.wordText, Option.map_none, Option.getD_none]
      omega

theorem quotes_bare (h : s.mode = .bare) :
    s.quotes = tokenQuotes s.done + countQuotes s.oper + countQuotes s.wordText := by
  rw [Lexer.quotes, h]
  rfl

theorem quotes_plain (h : s.mode = .bare) (hstep : s.plain c = some t) :
    t.quotes ≤ s.quotes + if c = quote then 1 else 0 := by
  have hword := quotes_endWord s
  have hbare := quotes_bare h
  unfold Lexer.plain at hstep
  split at hstep
  · rename_i hc
    rw [← Option.some_inj.mp hstep, if_pos hc, hbare]
    exact Nat.le_refl _
  split at hstep
  · rw [← Option.some_inj.mp hstep, hbare]
    exact Nat.le_add_right _ _
  split at hstep
  · cases hstep
  split at hstep
  · rw [← Option.some_inj.mp hstep, hword]
    exact Nat.le_add_right _ _
  split at hstep
  · have hnewline : ∀ u : Lexer, ({ u with done := u.done ++ [.newline] } : Lexer).quotes = u.quotes := by
      intro u
      simp only [Lexer.quotes, tokenQuotes_concat, Lexer.wordText, Token.text]
      rfl
    rw [← Option.some_inj.mp hstep, hnewline, hword]
    exact Nat.le_add_right _ _
  split at hstep
  · have hone : countQuotes [c] = if c = quote then 1 else 0 := (countQuotes_concat [] c).trans (Nat.zero_add _)
    have hbegin : ∀ u : Lexer, ({ u with oper := [c] } : Lexer).quotes ≤ u.quotes + if c = quote then 1 else 0 := by
      intro u
      simp only [Lexer.quotes, Lexer.wordText, hone]
      omega
    rw [← Option.some_inj.mp hstep, ← hword (c = '<' ∨ c = '>')]
    exact hbegin _
  split at hstep
  · rw [← Option.some_inj.mp hstep, hbare]
    exact Nat.le_add_right _ _
  · rw [← Option.some_inj.mp hstep, quotes_append]

/-- One character adds at most itself. -/
theorem quotes_step (hstep : s.step c = some t) : t.quotes ≤ s.quotes + if c = quote then 1 else 0 := by
  have hmode : ∀ (u : Lexer) (mode : Mode), mode ≠ .single → ({ u with mode } : Lexer).quotes ≤ u.quotes := by
    intro u mode hne
    simp only [Lexer.quotes, Lexer.wordText, if_neg hne]
    omega
  unfold Lexer.step at hstep
  cases hnow : s.mode with
  | bare =>
      rw [hnow] at hstep
      dsimp only at hstep
      split at hstep
      · rw [← Option.some_inj.mp hstep]
        exact (hmode s .escaped nofun).trans (Nat.le_add_right _ _)
      split at hstep
      · rw [← Option.some_inj.mp hstep, quotes_bare hnow, quotes_bare rfl, countQuotes_concat]
        have hword : ∀ o, Lexer.wordText ⟨s.done, o, s.word, .bare⟩ = s.wordText := fun _ => rfl
        rw [hword]
        dsimp only
        omega
      · have hbare : s.endOper.mode = .bare := by
          unfold Lexer.endOper
          split
          · exact hnow
          · exact hnow
        rw [← quotes_endOper s]
        exact quotes_plain hbare hstep
  | escaped =>
      rw [hnow] at hstep
      dsimp only at hstep
      split at hstep
      · rw [← Option.some_inj.mp hstep]
        exact (hmode s .bare nofun).trans (Nat.le_add_right _ _)
      · rw [← Option.some_inj.mp hstep, ← quotes_endOper s, ← quotes_append s.endOper c true]
        exact hmode _ .bare nofun
  | single =>
      rw [hnow] at hstep
      dsimp only at hstep
      split at hstep
      · rw [← Option.some_inj.mp hstep]
        exact (hmode s .bare nofun).trans (Nat.le_add_right _ _)
      · rw [← Option.some_inj.mp hstep, quotes_append]
  | double =>
      rw [hnow] at hstep
      dsimp only at hstep
      split at hstep
      · rw [← Option.some_inj.mp hstep]
        exact (hmode s .bare nofun).trans (Nat.le_add_right _ _)
      split at hstep
      · rw [← Option.some_inj.mp hstep]
        exact (hmode s .doubleEscaped nofun).trans (Nat.le_add_right _ _)
      split at hstep
      · cases hstep
      · rw [← Option.some_inj.mp hstep, quotes_append]
  | doubleEscaped =>
      rw [hnow] at hstep
      dsimp only at hstep
      split at hstep
      · rw [← Option.some_inj.mp hstep]
        exact (hmode s .double nofun).trans (Nat.le_add_right _ _)
      split at hstep
      · rw [← Option.some_inj.mp hstep, ← quotes_append s c true]
        exact hmode _ .double nofun
      · have hslash : (s.append '\\' true).quotes = s.quotes := quotes_append s '\\' true
        rw [← Option.some_inj.mp hstep, ← hslash, ← quotes_append _ c true]
        exact hmode _ .double nofun
  | comment =>
      rw [hnow] at hstep
      dsimp only at hstep
      split at hstep
      · have hnewline : ({ s with done := s.done ++ [.newline], mode := .bare } : Lexer).quotes ≤ s.quotes := by
          have hnil : countQuotes [] = 0 := rfl
          rw [quotes_bare rfl, tokenQuotes_concat, Token.text, hnil, Lexer.quotes]
          exact Nat.le_add_right _ _
        rw [← Option.some_inj.mp hstep]
        exact hnewline.trans (Nat.le_add_right _ _)
      · rw [← Option.some_inj.mp hstep]
        exact Nat.le_add_right _ _

theorem quotes_run {text : CStr} (h : s.run text = some t) : t.quotes ≤ s.quotes + countQuotes text := by
  induction text generalizing s with
  | nil =>
      rw [← Option.some_inj.mp h]
      exact Nat.le_refl _
  | cons c text ih =>
      rw [Lexer.run] at h
      have hcount : countQuotes (c :: text) = countQuotes text + if c = quote then 1 else 0 := by
        rw [countQuotes, List.count_cons]
        simp only [beq_iff_eq]
        rfl
      cases hstep : s.step c with
      | none =>
          rw [hstep] at h
          cases h
      | some u =>
          rw [hstep] at h
          have hone := quotes_step hstep
          have hrest := ih h
          omega

theorem tokenQuotes_close {ts : List Token} (h : s.close = some ts) : tokenQuotes ts ≤ s.quotes := by
  have hdone : ∀ u : Lexer, tokenQuotes u.done ≤ u.quotes := by
    intro u
    rw [Lexer.quotes]
    omega
  have hend := hdone (s.endOper.endWord false)
  rw [quotes_endWord, quotes_endOper] at hend
  unfold Lexer.close at h
  split at h
  · rw [← Option.some_inj.mp h]
    exact hend
  · rw [← Option.some_inj.mp h]
    exact hend
  all_goals cases h

/-! ### The last apostrophe -/

/-- A character that has no meaning inside quotes or a comment. -/
def isInert (c : Char) : Bool :=
  c ≠ quote ∧ c ≠ '"' ∧ c ≠ '\\' ∧ c ≠ '$' ∧ c ≠ '\x60' ∧ c ≠ '\n'

/-- Such text leaves a quotation or a comment open. -/
theorem run_inert {text : CStr} (htext : ∀ c ∈ text, isInert c)
    (hmode : s.mode = .single ∨ s.mode = .double ∨ s.mode = .comment) :
    ∃ t, s.run text = some t ∧ t.mode = s.mode := by
  induction text generalizing s with
  | nil => exact ⟨s, rfl, rfl⟩
  | cons c text ih =>
      obtain ⟨hc, hrest⟩ := List.forall_mem_cons.mp htext
      simp only [isInert, decide_eq_true_eq] at hc
      obtain ⟨hquote, hdouble, hslash, hdollar, hback, hline⟩ := hc
      have hstep : ∃ u, s.step c = some u ∧ u.mode = s.mode := by
        unfold Lexer.step
        rcases hmode with hnow | hnow | hnow
        · rw [hnow]
          exact ⟨s.append c true, if_neg hquote, hnow⟩
        · rw [hnow]
          refine ⟨s.append c true, ?_, hnow⟩
          simp only [hdouble, hslash, hdollar, hback, or_self, if_false]
        · rw [hnow]
          exact ⟨s, if_neg hline, hnow⟩
      obtain ⟨u, hu, hkept⟩ := hstep
      obtain ⟨t, ht, hlast⟩ := @ih u hrest (hkept ▸ hmode)
      refine ⟨t, ?_, hlast.trans hkept⟩
      rw [Lexer.run, hu]
      exact ht

@[simp] theorem mode_endOper (s : Lexer) : s.endOper.mode = s.mode := by
  unfold Lexer.endOper
  split
  · rfl
  · rfl

@[simp] theorem mode_endWord (s : Lexer) (redirect : Bool) : (s.endWord redirect).mode = s.mode := by
  unfold Lexer.endWord
  split
  · rfl
  · rfl

/-- The mode behind a character that is neither escaped nor a backslash. -/
def Mode.IsOpen (mode : Mode) : Prop := mode ≠ .escaped ∧ mode ≠ .doubleEscaped

theorem isOpen_plain (hmode : s.mode = .bare) (hstep : s.plain c = some t) : t.mode.IsOpen := by
  have hbare : Mode.bare.IsOpen := ⟨nofun, nofun⟩
  unfold Lexer.plain at hstep
  split at hstep
  · rw [← Option.some_inj.mp hstep]
    exact ⟨nofun, nofun⟩
  split at hstep
  · rw [← Option.some_inj.mp hstep]
    exact ⟨nofun, nofun⟩
  split at hstep
  · cases hstep
  split at hstep
  · rw [← Option.some_inj.mp hstep, mode_endWord, hmode]
    exact hbare
  split at hstep
  · rw [← Option.some_inj.mp hstep, mode_endWord, hmode]
    exact hbare
  split at hstep
  · rw [← Option.some_inj.mp hstep, mode_endWord, hmode]
    exact hbare
  split at hstep
  · rw [← Option.some_inj.mp hstep]
    exact ⟨nofun, nofun⟩
  · rw [← Option.some_inj.mp hstep, Lexer.append, hmode]
    exact hbare

/-- Only a backslash escapes what is behind it. -/
theorem isOpen_step (hc : c ≠ '\\') (hstep : s.step c = some t) : t.mode.IsOpen := by
  unfold Lexer.step at hstep
  cases hnow : s.mode with
  | bare =>
      simp only [hnow, hc, if_false] at hstep
      split at hstep
      · rw [← Option.some_inj.mp hstep]
        exact ⟨nofun, nofun⟩
      · exact isOpen_plain ((mode_endOper s).trans hnow) hstep
  | escaped | doubleEscaped =>
      rw [hnow] at hstep
      dsimp only at hstep
      repeat' split at hstep
      all_goals
        rw [← Option.some_inj.mp hstep]
        exact ⟨nofun, nofun⟩
  | single =>
      rw [hnow] at hstep
      dsimp only at hstep
      split at hstep
      · rw [← Option.some_inj.mp hstep]
        exact ⟨nofun, nofun⟩
      · rw [← Option.some_inj.mp hstep, Lexer.append, hnow]
        exact ⟨nofun, nofun⟩
  | double =>
      simp only [hnow, hc, if_false] at hstep
      split at hstep
      · rw [← Option.some_inj.mp hstep]
        exact ⟨nofun, nofun⟩
      split at hstep
      · cases hstep
      · rw [← Option.some_inj.mp hstep, Lexer.append, hnow]
        exact ⟨nofun, nofun⟩
  | comment =>
      rw [hnow] at hstep
      dsimp only at hstep
      split at hstep
      · rw [← Option.some_inj.mp hstep]
        exact ⟨nofun, nofun⟩
      · rw [← Option.some_inj.mp hstep, hnow]
        exact ⟨nofun, nofun⟩

theorem not_oper_quote (o : CStr) : o ++ [quote] ∉ operators := by
  have hnone : ∀ p ∈ operators, quote ∉ p := by decide
  exact fun hmem => hnone _ hmem (by simp)

/-- An apostrophe that is not escaped: in front of inert text at the end of the
line it must close a quotation, or be part of a comment. -/
theorem close_quote {tail : CStr} {ts : List Token} (hopen : s.mode.IsOpen) (htail : ∀ c ∈ tail, isInert c)
    (h : (s.run (quote :: tail)).bind Lexer.close = some ts) : tokenQuotes ts ≤ s.quotes := by
  have hnotail : countQuotes tail = 0 := by
    rw [countQuotes, List.count_eq_zero]
    intro hmem
    exact absurd (htail quote hmem) (by decide)
  -- What remains open has no tokens.
  have hunclosed : ∀ u : Lexer, u.mode = .single ∨ u.mode = .double → (u.run tail).bind Lexer.close ≠ some ts := by
    intro u hu hclose
    obtain ⟨t, ht, hmode⟩ := @run_inert u tail htail (hu.elim Or.inl fun hd => Or.inr (Or.inl hd))
    rw [ht, Option.bind_some, Lexer.close, hmode] at hclose
    rcases hu with hu | hu
    · rw [hu] at hclose
      cases hclose
    · rw [hu] at hclose
      cases hclose
  have hcounted : ∀ u : Lexer, (u.run tail).bind Lexer.close = some ts → tokenQuotes ts ≤ u.quotes := by
    intro u hu
    obtain ⟨t, ht, hclose⟩ := Option.bind_eq_some_iff.mp hu
    have hrun := quotes_run ht
    exact (tokenQuotes_close hclose).trans (by omega)
  have hstep : ∀ u, s.step quote = some u → (u.run tail).bind Lexer.close = some ts := by
    intro u hu
    rw [Lexer.run, hu] at h
    exact h
  cases hmode : s.mode with
  | bare =>
      have hnext : s.step quote = some (s.endOper.openQuote .single) := by
        rw [Lexer.step, hmode]
        refine (if_neg (by decide)).trans ((if_neg fun hop => not_oper_quote _ hop.2).trans ?_)
        exact if_pos rfl
      exact absurd (hstep _ hnext) (hunclosed _ (Or.inl rfl))
  | escaped => exact absurd hmode hopen.1
  | single =>
      have hnext : s.step quote = some { s with mode := .bare } := by
        rw [Lexer.step, hmode]
        exact if_pos rfl
      refine (hcounted _ (hstep _ hnext)).trans ?_
      rw [quotes_bare rfl, Lexer.quotes]
      exact Nat.le_add_right _ _
  | double =>
      have hnext : s.step quote = some (s.append quote true) := by
        rw [Lexer.step, hmode]
        rfl
      exact absurd (hstep _ hnext) (hunclosed _ (Or.inr hmode))
  | doubleEscaped => exact absurd hmode hopen.2
  | comment =>
      have hnext : s.step quote = some s := by
        rw [Lexer.step, hmode]
        rfl
      exact hcounted _ (hstep _ hnext)

/-- In a line that ends in an apostrophe and inert text, no token has that
apostrophe. -/
theorem last_quote_lost {text tail : CStr} {ts : List Token} (hc : c ≠ '\\') (htail : ∀ c ∈ tail, isInert c)
    (h : (s.run (text ++ c :: quote :: tail)).bind Lexer.close = some ts) :
    tokenQuotes ts ≤ s.quotes + countQuotes (text ++ [c]) := by
  have hsplit : text ++ c :: quote :: tail = (text ++ [c]) ++ quote :: tail := by simp
  rw [hsplit, Lexer.run_append] at h
  cases hrun : s.run (text ++ [c]) with
  | none =>
      rw [hrun] at h
      cases h
  | some u =>
      rw [hrun, Option.bind_some] at h
      refine (close_quote ?_ htail h).trans (quotes_run hrun)
      rw [Lexer.run_append] at hrun
      obtain ⟨v, -, hlast⟩ := Option.bind_eq_some_iff.mp hrun
      rw [Lexer.run] at hlast
      cases hstep : v.step c with
      | none =>
          rw [hstep] at hlast
          cases hlast
      | some w =>
          rw [hstep] at hlast
          exact Option.some_inj.mp hlast ▸ isOpen_step hc hstep

end Shell
