import WirelessTsn.Lib.Scanf

/-!
Lines made of literal text, words and numbers, printed one after the other
and read back by `sscanf` with `%w[^d]`, `%d` and `%lld` in the places of the
values. `Separated` says that every value ends where the next literal
begins. Such a line is read back exactly, and a line that was cut short
yields all its values only if the cut fell inside the last one. The numbers
behind labels are also told from any text, read or not, by `numbersBehind`.
-/

namespace CText

inductive Field where
  | lit (s : CStr)
  | word (s : CStr)
  | int (v : Int32)
  | llong (v : Int64)
deriving DecidableEq

def Field.render : Field → CStr
  | .lit s => s
  | .word s => s
  | .int v => showInt v.toInt
  | .llong v => showInt v.toInt

def Field.args : Field → List Arg
  | .lit _ => []
  | .word s => [.text s]
  | .int v => [.int v]
  | .llong v => [.llong v]

def renderLine (fs : List Field) : CStr := fs.flatMap Field.render

def lineArgs (fs : List Field) : List Arg := fs.flatMap Field.args

/-- The character does not occur in the text of the field; it never does in a
number. -/
def Field.Lacks (c : Char) : Field → Prop
  | .lit s => c ∉ s
  | .word s => c ∉ s
  | _ => True

theorem not_mem_showInt {c : Char} (hdigit : c.isDigit = false) (hminus : c ≠ '-') (v : Int) :
    c ∉ showInt v := by
  have hdigits : c ∉ Nat.toDigits 10 v.natAbs := by
    intro hc
    rw [toDigits_isDigit _ c hc] at hdigit
    cases hdigit
  unfold showInt
  split
  · simp [hminus, hdigits]
  · exact hdigits

/-- Lines that differ in the last field only. -/
theorem renderLine_concat_isPrefix (fs : List Field) {a b : Field} :
    renderLine (fs ++ [a]) <+: renderLine (fs ++ [b]) ↔ a.render <+: b.render := by
  simp only [renderLine, List.flatMap_append, List.flatMap_cons, List.flatMap_nil,
    List.append_nil]
  exact List.prefix_append_right_inj _

theorem not_mem_renderLine {c : Char} (hdigit : c.isDigit = false) (hminus : c ≠ '-')
    {fs : List Field} (h : ∀ f ∈ fs, f.Lacks c) : c ∉ renderLine fs := by
  intro hc
  obtain ⟨f, hf, hcf⟩ := List.mem_flatMap.mp hc
  have hlacks := h f hf
  cases f with
  | lit s => exact hlacks hcf
  | word s => exact hlacks hcf
  | int v => exact not_mem_showInt hdigit hminus _ hcf
  | llong v => exact not_mem_showInt hdigit hminus _ hcf

section

variable (w : Nat) (d : Char)

def Field.convs : Field → List Conv
  | .lit s => lits s
  | .word _ => [.set w d]
  | .int _ => [.int]
  | .llong _ => [.llong]

def lineConvs (fs : List Field) : List Conv := fs.flatMap (Field.convs w d)

/-- What must stand behind a field for its reading to stop there. -/
def Field.EndsBefore (rest : CStr) : Field → Prop
  | .lit _ => True
  | .word s => s ≠ [] ∧ s.length ≤ w ∧ d ∉ s ∧ ∀ c ∈ rest.head?, c = d
  | .int _ => ∀ c ∈ rest.head?, c.isDigit = false
  | .llong _ => ∀ c ∈ rest.head?, c.isDigit = false

def Separated : List Field → Prop
  | [] => True
  | f :: fs => f.EndsBefore w d (renderLine fs) ∧ Separated fs

variable {w d}

theorem sscanf_field (f : Field) (cs : List Conv) {rest : CStr}
    (h : f.EndsBefore w d rest) :
    sscanf (f.convs w d ++ cs) (f.render ++ rest) = f.args ++ sscanf cs rest := by
  cases f with
  | lit s => exact sscanf_lits s cs rest
  | word s =>
      obtain ⟨hne, hlen, hd, hrest⟩ := h
      exact sscanf_set cs hne hlen hd hrest
  | int v => exact sscanf_int cs v h
  | llong v => exact sscanf_llong cs v h

/-- A printed line is read back value by value. -/
theorem sscanf_renderLine (fs : List Field) (h : Separated w d fs) :
    sscanf (lineConvs w d fs) (renderLine fs) = lineArgs fs := by
  induction fs with
  | nil => rfl
  | cons f fs ih =>
      obtain ⟨hf, hfs⟩ := h
      have hstep := sscanf_field f (lineConvs w d fs) hf
      rw [ih hfs] at hstep
      exact hstep

/-- A cut inside literal text leaves nothing to convert behind it. -/
theorem sscanf_lits_cut (l : CStr) (cs : List Conv) {p : CStr} (hp : p <+: l) :
    sscanf (lits l ++ cs) p = [] := by
  induction l generalizing p with
  | nil =>
      rw [List.prefix_nil.mp hp]
      exact sscanf_nil cs
  | cons c l ih =>
      cases p with
      | nil => exact sscanf_nil _
      | cons x p =>
          obtain ⟨rfl, htail⟩ := List.cons_prefix_cons.mp hp
          simpa [lits, sscanf] using ih htail

private theorem scanNat_digits {ds : CStr} (hds : ∀ c ∈ ds, c.isDigit = true) :
    scanNat ds = if ds = [] then none else some (Nat.ofDigitChars 10 ds 0, []) := by
  by_cases hne : ds = []
  · subst hne
    rfl
  · have h := @scanNat_append ds [] hne hds (by simp)
    simpa [hne] using h

/-- Every non-empty initial part of a decimal numeral is the numeral of its
own value, which is no larger and vanishes only with the number. -/
theorem toDigits_of_isPrefix (n : Nat) {ds : CStr} (hne : ds ≠ [])
    (h : ds <+: Nat.toDigits 10 n) :
    ds = Nat.toDigits 10 (Nat.ofDigitChars 10 ds 0) ∧ Nat.ofDigitChars 10 ds 0 ≤ n ∧
      (0 < n → 0 < Nat.ofDigitChars 10 ds 0) := by
  induction n using Nat.strongRecOn with
  | _ n ih =>
      have hwhole : ds = Nat.toDigits 10 n →
          ds = Nat.toDigits 10 (Nat.ofDigitChars 10 ds 0) ∧
            Nat.ofDigitChars 10 ds 0 ≤ n ∧ (0 < n → 0 < Nat.ofDigitChars 10 ds 0) := by
        intro hds
        rw [hds, Nat.ofDigitChars_ten_toDigits]
        exact ⟨rfl, Nat.le_refl n, id⟩
      by_cases hlt : n < 10
      · rw [Nat.toDigits_of_lt_base hlt] at h
        apply hwhole
        rw [Nat.toDigits_of_lt_base hlt]
        rcases List.prefix_cons_iff.mp h with hnil | ⟨t, rfl, ht⟩
        · exact absurd hnil hne
        · rw [List.prefix_nil.mp ht]
      · have hsplit := @Nat.toDigits_of_base_le 10 n (by omega) (by omega)
        rw [hsplit] at h
        rcases List.prefix_concat_iff.mp h with hall | hpart
        · exact hwhole (hall.trans hsplit.symm)
        · obtain ⟨hcanon, hle, hpos⟩ := ih (n / 10) (by omega) hpart
          exact ⟨hcanon, by omega, fun _ => hpos (by omega)⟩

/-- What `scanInt` makes of an initial part of a printed number: either it
fails, or it reads the part whole as a number that prints as that part. -/
theorem scanInt_cut {v v' : Int} {p rest : CStr} (hp : p <+: showInt v)
    (h : scanInt p = some (v', rest)) :
    rest = [] ∧ p = showInt v' ∧ min v 0 ≤ v' ∧ v' ≤ max v 0 := by
  have hdigits : ∀ {ds : CStr}, ds <+: Nat.toDigits 10 v.natAbs →
      ∀ c ∈ ds, c.isDigit = true :=
    fun hds c hc => toDigits_isDigit _ c (hds.subset hc)
  unfold showInt at hp
  split at hp
  · rcases List.prefix_cons_iff.mp hp with rfl | ⟨ds, rfl, hds⟩
    · simp [scanInt, scanNat] at h
    · rw [scanInt_minus, scanNat_digits (hdigits hds)] at h
      split at h
      · simp at h
      · rename_i hne
        obtain ⟨hcanon, hle, hpos⟩ := toDigits_of_isPrefix _ hne hds
        simp only [Option.map_some, Option.some.injEq, Prod.mk.injEq] at h
        obtain ⟨rfl, rfl⟩ := h
        refine ⟨rfl, ?_, by omega, by omega⟩
        -- The numeral of a negative number does not start with a zero.
        have hpart := hpos (by omega)
        rw [showInt, if_pos (by omega)]
        simpa using hcanon
  · cases p with
    | nil => simp [scanInt, scanNat] at h
    | cons c ds =>
        have hc : c.isDigit = true := hdigits hp c (by simp)
        rw [scanInt_of_digit (by simp) hc, scanNat_digits (hdigits hp)] at h
        obtain ⟨hcanon, hle, -⟩ := toDigits_of_isPrefix _ (by simp) hp
        simp only [List.cons_ne_nil, if_false, Option.map_some, Option.some.injEq,
          Prod.mk.injEq] at h
        obtain ⟨rfl, rfl⟩ := h
        refine ⟨rfl, ?_, by omega, by omega⟩
        rw [showInt, if_neg (by omega)]
        simpa using hcanon

/-- Cutting the text behind a field does not move the end of the field. -/
theorem Field.EndsBefore.of_isPrefix {f : Field} {rest p : CStr}
    (h : f.EndsBefore w d rest) (hp : p <+: rest) : f.EndsBefore w d p := by
  have hhead : ∀ c ∈ p.head?, c ∈ rest.head? := by
    intro c hc
    cases p with
    | nil => simp at hc
    | cons x p =>
        obtain ⟨tail, rfl⟩ := hp
        exact hc
  cases f with
  | lit s => trivial
  | word s => exact ⟨h.1, h.2.1, h.2.2.1, fun c hc => h.2.2.2 c (hhead c hc)⟩
  | int v => exact fun c hc => h c (hhead c hc)
  | llong v => exact fun c hc => h c (hhead c hc)

/-- A cut inside a field leaves at most the value of that field. -/
theorem sscanf_field_cut (f : Field) (cs : List Conv) {rest p : CStr}
    (h : f.EndsBefore w d rest) (hp : p <+: f.render) :
    (sscanf (f.convs w d ++ cs) p).length ≤ f.args.length := by
  cases f with
  | lit s =>
      have hnil : sscanf (lits s ++ cs) p = [] := sscanf_lits_cut s cs hp
      simp [Field.convs, Field.args, hnil]
  | word s =>
      by_cases hne : p = []
      · simp [hne]
      · have hread := @sscanf_set w d cs p [] hne (hp.length_le.trans h.2.1)
          (fun hmem => h.2.2.1 (hp.subset hmem)) (by simp)
        rw [List.append_nil] at hread
        simp [Field.convs, Field.args, hread]
  | int v =>
      change (sscanf (.int :: cs) p).length ≤ 1
      cases hscan : scanInt p with
      | none => simp [sscanf, hscan]
      | some r =>
          obtain ⟨v', rest'⟩ := r
          obtain ⟨rfl, -⟩ := scanInt_cut hp hscan
          simp [sscanf, hscan]
  | llong v =>
      change (sscanf (.llong :: cs) p).length ≤ 1
      cases hscan : scanInt p with
      | none => simp [sscanf, hscan]
      | some r =>
          obtain ⟨v', rest'⟩ := r
          obtain ⟨rfl, -⟩ := scanInt_cut hp hscan
          simp [sscanf, hscan]

/-- A cut line from which every value is still read was cut inside its last
field, and everything before that field is read unchanged. -/
theorem sscanf_cut (fs : List Field) (last : Field) (hlast : last.args ≠ [])
    (hsep : Separated w d (fs ++ [last])) {p : CStr}
    (hp : p <+: renderLine (fs ++ [last]))
    (hcount : (lineArgs (fs ++ [last])).length ≤
      (sscanf (lineConvs w d (fs ++ [last])) p).length) :
    ∃ q, q <+: last.render ∧ p = renderLine fs ++ q ∧
      sscanf (lineConvs w d (fs ++ [last])) p =
        lineArgs fs ++ sscanf (last.convs w d) q := by
  induction fs generalizing p with
  | nil =>
      refine ⟨p, by simpa [renderLine] using hp, rfl, ?_⟩
      simp [lineConvs, lineArgs]
  | cons f fs ih =>
      obtain ⟨hf, hfs⟩ := hsep
      rcases List.prefix_or_prefix_of_prefix hp (List.prefix_append f.render _) with hcut | hwhole
      · -- The cut fell inside `f`: the values of the last field are missing.
        have hle := sscanf_field_cut f (lineConvs w d (fs ++ [last])) hf hcut
        have hpos : 0 < last.args.length := List.length_pos_iff.mpr hlast
        simp only [List.cons_append, lineArgs, lineConvs, List.flatMap_cons, List.length_append,
          List.flatMap_append, List.flatMap_nil, List.length_nil] at hcount hle
        omega
      · obtain ⟨p', rfl⟩ := hwhole
        have hp' : p' <+: renderLine (fs ++ [last]) :=
          (List.prefix_append_right_inj f.render).mp hp
        have hread := sscanf_field f (lineConvs w d (fs ++ [last])) (hf.of_isPrefix hp')
        change sscanf (lineConvs w d (f :: fs ++ [last])) (f.render ++ p') = _ at hread
        have hcount' : (lineArgs (fs ++ [last])).length ≤
            (sscanf (lineConvs w d (fs ++ [last])) p').length := by
          rw [hread] at hcount
          simpa [lineArgs] using hcount
        obtain ⟨q, hq, rfl, hrest⟩ := ih hfs hp' hcount'
        refine ⟨q, hq, by simp [renderLine], ?_⟩
        rw [hread, hrest]
        simp [lineArgs]

/-- The last field was a number: what is left of it is again a number. -/
theorem sscanf_cut_int (fs : List Field) (v : Int32)
    (hsep : Separated w d (fs ++ [Field.int v])) {p : CStr}
    (hp : p <+: renderLine (fs ++ [Field.int v]))
    (hcount : (lineArgs (fs ++ [Field.int v])).length ≤
      (sscanf (lineConvs w d (fs ++ [Field.int v])) p).length) :
    ∃ v' : Int32, p = renderLine (fs ++ [Field.int v']) ∧
      sscanf (lineConvs w d (fs ++ [Field.int v])) p = lineArgs (fs ++ [Field.int v']) := by
  obtain ⟨q, hq, rfl, hread⟩ := sscanf_cut fs (.int v) (by simp [Field.args]) hsep hp hcount
  rw [hread] at hcount ⊢
  cases hscan : scanInt q with
  | none => simp [lineArgs, Field.args, Field.convs, sscanf, hscan] at hcount
  | some r =>
      obtain ⟨n, rest⟩ := r
      obtain ⟨rfl, rfl, hmin, hmax⟩ := scanInt_cut hq hscan
      have hlo := v.le_toInt
      have hhi := v.toInt_lt
      have hback : (toCInt n).toInt = n := by
        rw [toCInt, clampLong_of_mem (by omega) (by omega)]
        exact Int32.toInt_ofInt_of_le (by omega) (by omega)
      refine ⟨toCInt n, ?_, ?_⟩
      · simp [renderLine, Field.render, hback]
      · simp [lineArgs, Field.args, Field.convs, sscanf, hscan]

theorem Separated.last {fs : List Field} {f : Field} (h : Separated w d (fs ++ [f])) :
    f.EndsBefore w d [] := by
  induction fs with
  | nil => exact h.1
  | cons g fs ih => exact ih h.2

/-- The last field was a word: what is left of it is again a word. -/
theorem sscanf_cut_word (fs : List Field) (s : CStr)
    (hsep : Separated w d (fs ++ [Field.word s])) {p : CStr}
    (hp : p <+: renderLine (fs ++ [Field.word s]))
    (hcount : (lineArgs (fs ++ [Field.word s])).length ≤
      (sscanf (lineConvs w d (fs ++ [Field.word s])) p).length) :
    ∃ s', s' ≠ [] ∧ s' <+: s ∧ p = renderLine (fs ++ [Field.word s']) ∧
      sscanf (lineConvs w d (fs ++ [Field.word s])) p = lineArgs (fs ++ [Field.word s']) := by
  obtain ⟨q, hq, rfl, hread⟩ := sscanf_cut fs (.word s) (by simp [Field.args]) hsep hp hcount
  obtain ⟨-, hlen, hd, -⟩ := hsep.last
  rw [hread] at hcount ⊢
  by_cases hne : q = []
  · simp [lineArgs, Field.args, hne] at hcount
  · have hword := @sscanf_set w d [] q [] hne (hq.length_le.trans hlen)
      (fun hmem => hd (hq.subset hmem)) (by simp)
    rw [List.append_nil] at hword
    refine ⟨q, hne, hq, by simp [renderLine, Field.render], ?_⟩
    simp [lineArgs, Field.args, Field.convs, hword, sscanf]

end

section Numbers

/-- The numbers that stand in a text one after the other, each behind its
label, as far as they are there. -/
def numbersBehind : List CStr → CStr → List Int
  | [], _ => []
  | l :: ls, s =>
      if l.isPrefixOf s then
        match scanInt (s.drop l.length) with
        | some (v, rest) => v :: numbersBehind ls rest
        | none => []
      else []

/-- A format of labels with `%d` or `%lld` behind each. -/
def labelled (ls : List (CStr × Conv)) : List Conv :=
  ls.flatMap fun l => lits l.1 ++ [l.2]

def Conv.IsNumber : Conv → Prop
  | .int | .llong => True
  | _ => False

/-- What a number is converted to. -/
def Conv.arg (c : Conv) (v : Int) : Arg :=
  match c with
  | .llong => .llong (toCLongLong v)
  | _ => .int (toCInt v)

/-- `sscanf` converts the numbers that are there. -/
theorem sscanf_labelled {ls : List (CStr × Conv)} (h : ∀ l ∈ ls, l.2.IsNumber) (s : CStr) :
    sscanf (labelled ls) s =
      List.zipWith Conv.arg (ls.map Prod.snd) (numbersBehind (ls.map Prod.fst) s) := by
  induction ls generalizing s with
  | nil => rfl
  | cons l ls ih =>
      obtain ⟨label, conv⟩ := l
      have hconv : conv.IsNumber := h (label, conv) List.mem_cons_self
      have hcons : labelled ((label, conv) :: ls) = lits label ++ (conv :: labelled ls) := by
        simp [labelled]
      have ih := fun s => ih (fun l hl => h l (List.mem_cons_of_mem _ hl)) s
      rw [hcons, List.map_cons, List.map_cons, numbersBehind]
      split
      · rename_i hlabel
        obtain ⟨t, rfl⟩ := List.isPrefixOf_iff_prefix.mp hlabel
        rw [sscanf_lits, List.drop_left]
        cases conv with
        | int => cases hscan : scanInt t <;> simp [sscanf, hscan, Conv.arg, ih]
        | llong => cases hscan : scanInt t <;> simp [sscanf, hscan, Conv.arg, ih]
        | lit c => exact absurd hconv id
        | set w d => exact absurd hconv id
        | str w => exact absurd hconv id
      · rename_i hlabel
        rw [sscanf_lits_of_not_isPrefix fun hpre => hlabel (List.isPrefixOf_iff_prefix.mpr hpre)]
        rfl

theorem numbersBehind_length_le (ls : List CStr) (s : CStr) :
    (numbersBehind ls s).length ≤ ls.length := by
  induction ls generalizing s with
  | nil => exact Nat.le_refl 0
  | cons l ls ih =>
      unfold numbersBehind
      split
      · split
        · exact Nat.succ_le_succ (ih _)
        · exact Nat.zero_le _
      · exact Nat.zero_le _

/-- Numbers are there only if the text begins with the first label. -/
theorem isPrefix_of_numbersBehind {l : CStr} {ls : List CStr} {s : CStr}
    (h : numbersBehind (l :: ls) s ≠ []) : l <+: s := by
  unfold numbersBehind at h
  split at h
  · rename_i hlabel
    exact List.isPrefixOf_iff_prefix.mp hlabel
  · exact absurd rfl h

/-- A number that was not there is the zero its variable was set to. -/
theorem argInt_zipWith {cs : List Conv} {i : Nat} (h : cs[i]? = some .int) (ns : List Int) :
    argInt (List.zipWith Conv.arg cs ns) i = toCInt (ns.getD i 0) := by
  rw [argInt, List.getElem?_zipWith, h, List.getD_eq_getElem?_getD]
  cases ns[i]? <;> rfl

theorem argLong_zipWith {cs : List Conv} {i : Nat} (h : cs[i]? = some .llong) (ns : List Int) :
    argLong (List.zipWith Conv.arg cs ns) i = toCLongLong (ns.getD i 0) := by
  rw [argLong, List.getElem?_zipWith, h, List.getD_eq_getElem?_getD]
  cases ns[i]? <;> rfl

end Numbers

end CText
