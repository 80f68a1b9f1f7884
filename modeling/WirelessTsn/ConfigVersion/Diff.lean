import WirelessTsn.Lib.Snprintf
import WirelessTsn.ConfigVersion.Restore

/-!
`htsn_cfg_ver_diff`: the rows in which two versions differ, one line each. The
payloads come through the 4096 bytes of `htsn_config_version`, the number of
lines is limited by what lines of 22 bytes would leave room for, and nothing
looks at how long a line really was. That `strdup` may fail is left out.
-/

namespace Htsn

open CText Keyed

/-! ### The function -/

/-- The payload of `htsn_db_config_version_get`, empty without the version. -/
def versionPayload (db : Db) (id : Int) : CStr :=
  match dbConfigVersionGet db id with
  | .error _ => []
  | .ok v => v.payload.chars

/-- The size of `arow` and `brow`. -/
def maxDiffRows : Nat := 1024

def payloadRows (payload : CStr) : List CStr := (strtok ' ' payload).take maxDiffRows

/-- `maxl`: the quotient is stored in an `int`. -/
def maxLines (size : UInt64) : Int32 := Int32.ofNat (size / 22).toNat

def noDifferences : CStr := "no differences".toList

def versionsDiffer (idA idB : Int) : CStr :=
  "versions differ (v".toList ++ showInt idA ++ " vs v".toList ++ showInt idB ++ ")".toList

/-- `"- %s\n"` and `"+ %s\n"` -/
def rowLine (sign : Char) (row : CStr) : CStr := sign :: ' ' :: (row ++ ['\n'])

structure DiffState where
  out : Printer
  shown : Nat

/-- The loop over `arow` or `brow`, with the search through the other rows. -/
def showRows (size : UInt64) (sign : Char) (others : List CStr) (limit : Int32) :
    List CStr → DiffState → DiffState
  | [], s => s
  | row :: rows, s =>
      if (s.shown : Int) < limit.toInt then
        if row ∈ others then showRows size sign others limit rows s
        else
          showRows size sign others limit rows ⟨s.out.print size (rowLine sign row), s.shown + 1⟩
      else s

def cfgVerDiff (db : Db) (idA idB : Int) (size : UInt64) : HtsnError × Printer :=
  if size = 0 then (.invalidArg, .fresh)
  else
    let a := versionPayload db idA
    let b := versionPayload db idB
    if a = b then (.ok, Printer.fresh.print size noDifferences)
    else
      let arow := payloadRows a
      let brow := payloadRows b
      let s := showRows size '-' brow (maxLines size / 2) arow ⟨.fresh, 0⟩
      let s := showRows size '+' arow (maxLines size) brow s
      if s.out.off = 0 then (.ok, s.out.print size (versionsDiffer idA idB)) else (.ok, s.out)

/-! ### What the loops show -/

/-- The rows of one list that the other does not have, in order. -/
def missing (rows others : List CStr) : List CStr := rows.filter fun t => decide (t ∉ others)

/-- The lines of all rows in which two lists differ. -/
def diffRows (as bs : List CStr) : List CStr :=
  (missing as bs).map (rowLine '-') ++ (missing bs as).map (rowLine '+')

/-- Of these, the lines that the limit lets through: at most half of it for
the first list. -/
def shownRows (limit : Int32) (as bs : List CStr) : List CStr :=
  let minus := (missing as bs).take (limit / 2).toInt.toNat
  let plus := (missing bs as).take (limit.toInt.toNat - minus.length)
  minus.map (rowLine '-') ++ plus.map (rowLine '+')

/-- One loop prints the rows that are missing, as far as the limit goes. -/
theorem showRows_eq (size : UInt64) (sign : Char) (others : List CStr) (limit : Int32)
    (rows : List CStr) (s : DiffState) :
    showRows size sign others limit rows s =
      ⟨s.out.printAll size
        (((missing rows others).take (limit.toInt.toNat - s.shown)).map (rowLine sign)),
        s.shown + ((missing rows others).take (limit.toInt.toNat - s.shown)).length⟩ := by
  induction rows generalizing s with
  | nil =>
      have hnone : missing [] others = [] := rfl
      rw [hnone, List.take_nil]
      rfl
  | cons row rows ih =>
      rw [showRows]
      split
      · rename_i hroom
        split
        · rename_i hfound
          have hmissing : missing (row :: rows) others = missing rows others :=
            List.filter_cons_of_neg (by simpa using hfound)
          rw [ih, hmissing]
        · rename_i hlost
          have hmissing : missing (row :: rows) others = row :: missing rows others :=
            List.filter_cons_of_pos (by simpa using hlost)
          obtain ⟨k, hk⟩ : ∃ k, limit.toInt.toNat - s.shown = k + 1 :=
            ⟨limit.toInt.toNat - s.shown - 1, by omega⟩
          have hnext : limit.toInt.toNat - (s.shown + 1) = k := by omega
          rw [ih, hmissing, hk]
          simp only [hnext, List.take_succ_cons, List.map_cons, List.length_cons,
            DiffState.mk.injEq]
          exact ⟨rfl, by omega⟩
      · rename_i hfull
        have hnone : limit.toInt.toNat - s.shown = 0 := by omega
        rw [hnone, List.take_zero]
        rfl

/-- Both loops, one behind the other. -/
theorem showRows_both (size : UInt64) (limit : Int32) (as bs : List CStr) :
    (showRows size '+' as limit bs (showRows size '-' bs (limit / 2) as ⟨.fresh, 0⟩)).out =
      Printer.fresh.printAll size (shownRows limit as bs) := by
  rw [showRows_eq, showRows_eq, shownRows, Printer.printAll_append, Nat.sub_zero, Nat.zero_add]

theorem flatten_rowLine_length (sign : Char) (rows : List CStr) :
    (rows.map (rowLine sign)).flatten.length = rows.flatten.length + 3 * rows.length := by
  induction rows with
  | nil => rfl
  | cons row rows ih =>
      rw [List.map_cons, List.flatten_cons, List.length_append, ih, List.flatten_cons,
        List.length_append, List.length_cons, rowLine]
      simp only [List.length_cons, List.length_append, List.length_nil]
      omega

/-- The lines of some of the missing rows of a payload. -/
theorem shown_length_le {payload : CStr} (sign : Char) (others : List CStr) (n : Nat) :
    (((missing (payloadRows payload) others).take n).map (rowLine sign)).flatten.length ≤
      payload.length + 3 * maxDiffRows := by
  have hsub : ((missing (payloadRows payload) others).take n).Sublist (payloadRows payload) :=
    (List.take_sublist n _).trans List.filter_sublist
  have hrows : (payloadRows payload).flatten.length ≤ payload.length :=
    (List.take_sublist maxDiffRows _).flatten.length_le.trans (flatten_strtok_length ' ' payload)
  have hcount : (payloadRows payload).length ≤ maxDiffRows := List.length_take_le _ _
  have hflat := hsub.flatten.length_le
  have hlen := hsub.length_le
  rw [flatten_rowLine_length]
  omega

theorem versionPayload_length (db : Db) (id : Int) : (versionPayload db id).length < 4096 := by
  unfold versionPayload
  split
  · decide
  · rename_i v _
    exact v.payload.fits

/-- The texts of the calls for two payloads. -/
def diffLines (limit : Int32) (idA idB : Int) (a b : CStr) : List CStr :=
  if a = b then [noDifferences]
  else if shownRows limit (payloadRows a) (payloadRows b) = [] then [versionsDiffer idA idB]
  else shownRows limit (payloadRows a) (payloadRows b)

theorem shownRows_length_lt (limit : Int32) (db : Db) (idA idB : Int) :
    (shownRows limit (payloadRows (versionPayload db idA))
      (payloadRows (versionPayload db idB))).flatten.length < 2 ^ 64 := by
  have ha := versionPayload_length db idA
  have hb := versionPayload_length db idB
  rw [shownRows, List.flatten_append, List.length_append]
  have hminus := @shown_length_le (versionPayload db idA) '-' (payloadRows (versionPayload db idB))
    (limit / 2).toInt.toNat
  have hplus := @shown_length_le (versionPayload db idB) '+' (payloadRows (versionPayload db idA))
    (limit.toInt.toNat - ((missing (payloadRows (versionPayload db idA))
      (payloadRows (versionPayload db idB))).take (limit / 2).toInt.toNat).length)
  simp only [maxDiffRows] at hminus hplus
  omega

theorem exists_rowLine {xs ys : List CStr} {line : CStr}
    (h : line ∈ xs.map (rowLine '-') ++ ys.map (rowLine '+')) :
    ∃ sign row, line = rowLine sign row := by
  rcases List.mem_append.mp h with h | h
  · obtain ⟨row, -, rfl⟩ := List.mem_map.mp h
    exact ⟨'-', row, rfl⟩
  · obtain ⟨row, -, rfl⟩ := List.mem_map.mp h
    exact ⟨'+', row, rfl⟩

theorem shownRows_flatten_pos {limit : Int32} {as bs : List CStr} (h : shownRows limit as bs ≠ []) :
    0 < (shownRows limit as bs).flatten.length := by
  obtain ⟨line, lines, hlines⟩ := List.exists_cons_of_ne_nil h
  obtain ⟨sign, row, hline⟩ := exists_rowLine (hlines ▸ List.mem_cons_self)
  rw [hlines, hline, List.flatten_cons, List.length_append, rowLine, List.length_cons]
  omega

/-- The whole function: one call for each of the lines. -/
theorem cfgVerDiff_eq (db : Db) (idA idB : Int) {size : UInt64} (hsize : size ≠ 0) :
    cfgVerDiff db idA idB size =
      (.ok, Printer.fresh.printAll size
        (diffLines (maxLines size) idA idB (versionPayload db idA) (versionPayload db idB))) := by
  rw [cfgVerDiff, if_neg hsize]
  by_cases heq : versionPayload db idA = versionPayload db idB
  · simp only [diffLines, if_pos heq]
    rfl
  · have htotal := shownRows_length_lt (maxLines size) db idA idB
    have hoff := @Printer.off_printAll size _ htotal
    simp only [diffLines, if_neg heq, showRows_both]
    by_cases hnone : shownRows (maxLines size) (payloadRows (versionPayload db idA))
        (payloadRows (versionPayload db idB)) = []
    · simp only [if_pos hnone]
      rw [hnone]
      rfl
    · have hpos : 0 < (shownRows (maxLines size) (payloadRows (versionPayload db idA))
          (payloadRows (versionPayload db idB))).flatten.length := shownRows_flatten_pos hnone
      rw [if_neg hnone, if_neg]
      intro hzero
      rw [hzero] at hoff
      exact absurd hoff (Nat.ne_of_lt hpos)

/-! ### The lines of the stored payloads -/

def payloadTokens (payload : CStr) : List CStr := strtok ' ' payload

/-- What was written about two versions says exactly how their payloads
differ. -/
structure DiffExact (idA idB : Int) (a b : CStr) (p : Printer) : Prop where
  equal : p.texts = [noDifferences] ↔ a = b
  sameTokens : p.texts = [versionsDiffer idA idB] ↔
    a ≠ b ∧ ∀ t, t ∈ payloadTokens a ↔ t ∈ payloadTokens b
  rows : (¬ ∀ t, t ∈ payloadTokens a ↔ t ∈ payloadTokens b) →
    p.texts = diffRows (payloadTokens a) (payloadTokens b)
  text : p.mem.Holds p.texts.flatten

/-- The lines for payloads that are known whole, without a limit. -/
def exactLines (idA idB : Int) (a b : CStr) : List CStr :=
  if a = b then [noDifferences]
  else if diffRows (payloadTokens a) (payloadTokens b) = [] then [versionsDiffer idA idB]
  else diffRows (payloadTokens a) (payloadTokens b)

theorem missing_eq_nil {rows others : List CStr} : missing rows others = [] ↔ ∀ t ∈ rows, t ∈ others := by
  simp [missing, List.filter_eq_nil_iff]

theorem diffRows_eq_nil {as bs : List CStr} : diffRows as bs = [] ↔ ∀ t, t ∈ as ↔ t ∈ bs := by
  rw [diffRows, List.append_eq_nil_iff, List.map_eq_nil_iff, List.map_eq_nil_iff, missing_eq_nil,
    missing_eq_nil]
  exact ⟨fun h t => ⟨h.1 t, h.2 t⟩, fun h => ⟨fun t => (h t).mp, fun t => (h t).mpr⟩⟩

/-- A line of a row is neither of the two messages. -/
theorem rowLine_ne (sign : Char) (row : CStr) (idA idB : Int) :
    rowLine sign row ≠ noDifferences ∧ rowLine sign row ≠ versionsDiffer idA idB := by
  constructor
  · intro h
    have hsecond := congrArg (fun s : CStr => s[1]?) h
    exact absurd hsecond (by
      show some ' ' ≠ some 'o'
      decide)
  · intro h
    have hsecond := congrArg (fun s : CStr => s[1]?) h
    exact absurd hsecond (by
      show some ' ' ≠ some 'e'
      decide)

theorem rowLines_ne_message (xs ys : List CStr) (idA idB : Int) :
    xs.map (rowLine '-') ++ ys.map (rowLine '+') ≠ [noDifferences] ∧
      xs.map (rowLine '-') ++ ys.map (rowLine '+') ≠ [versionsDiffer idA idB] := by
  have hline : ∀ line, xs.map (rowLine '-') ++ ys.map (rowLine '+') = [line] →
      ∃ sign row, line = rowLine sign row := by
    intro line h
    exact @exists_rowLine xs ys line (h ▸ List.mem_singleton_self line)
  constructor
  · intro h
    obtain ⟨sign, row, heq⟩ := hline _ h
    exact (rowLine_ne sign row idA idB).1 heq.symm
  · intro h
    obtain ⟨sign, row, heq⟩ := hline _ h
    exact (rowLine_ne sign row idA idB).2 heq.symm

theorem versionsDiffer_ne (idA idB : Int) : versionsDiffer idA idB ≠ noDifferences := by
  intro h
  have hfirst := congrArg List.head? h
  exact absurd hfirst (by
    show some 'v' ≠ some 'n'
    decide)

theorem diffExact_iff {idA idB : Int} {a b : CStr} {p : Printer} :
    DiffExact idA idB a b p ↔ p.texts = exactLines idA idB a b ∧ p.mem.Holds p.texts.flatten := by
  have hnil := @diffRows_eq_nil (payloadTokens a) (payloadTokens b)
  obtain ⟨hno, hdiffer⟩ : diffRows (payloadTokens a) (payloadTokens b) ≠ [noDifferences] ∧
      diffRows (payloadTokens a) (payloadTokens b) ≠ [versionsDiffer idA idB] :=
    rowLines_ne_message _ _ idA idB
  constructor
  · intro h
    refine ⟨?_, h.text⟩
    unfold exactLines
    split
    · rename_i heq
      exact h.equal.mpr heq
    · rename_i hne
      split
      · rename_i hsame
        exact h.sameTokens.mpr ⟨hne, hnil.mp hsame⟩
      · rename_i hrows
        exact h.rows fun hall => hrows (hnil.mpr hall)
  · rintro ⟨htexts, htext⟩
    by_cases heq : a = b
    · rw [exactLines, if_pos heq] at htexts
      refine ⟨iff_of_true htexts heq, iff_of_false ?_ fun h => h.1 heq, ?_, htext⟩
      · rw [htexts, List.singleton_inj]
        exact (versionsDiffer_ne idA idB).symm
      · intro h
        exact absurd (fun t => by rw [heq]) h
    · rw [exactLines, if_neg heq] at htexts
      by_cases hsame : diffRows (payloadTokens a) (payloadTokens b) = []
      · rw [if_pos hsame] at htexts
        refine ⟨iff_of_false ?_ heq, iff_of_true htexts ⟨heq, hnil.mp hsame⟩, ?_, htext⟩
        · rw [htexts, List.singleton_inj]
          exact versionsDiffer_ne idA idB
        · exact fun h => absurd (hnil.mp hsame) h
      · rw [if_neg hsame] at htexts
        refine ⟨iff_of_false ?_ heq, iff_of_false ?_ fun h => hsame (hnil.mpr h.2),
          fun _ => htexts, htext⟩
        · rwa [htexts]
        · rwa [htexts]

/-! ### The limits -/

theorem maxLines_toInt {size : UInt64} (h : size.toNat < 22 * 2 ^ 31) :
    (maxLines size).toInt = (size.toNat / 22 : Nat) := by
  have hquotient : (size / 22).toNat = size.toNat / 22 := UInt64.toNat_div size 22
  rw [maxLines, hquotient]
  exact Int32.toInt_ofNat_of_lt (by omega)

theorem half_maxLines_toInt {size : UInt64} (h : size.toNat < 22 * 2 ^ 31) :
    (maxLines size / 2).toInt = (size.toNat / 44 : Nat) := by
  have htwo : (2 : Int32).toInt = 2 := rfl
  rw [Int32.toInt_div_of_ne_right _ _ (by decide), maxLines_toInt h, htwo,
    Int.tdiv_eq_ediv_of_nonneg (by omega)]
  omega

/-- A limit that the rows do not reach lets them all through. -/
theorem shownRows_eq_diffRows {limit : Int32} {as bs : List CStr}
    (hminus : (missing as bs).length ≤ (limit / 2).toInt.toNat)
    (hall : (missing as bs).length + (missing bs as).length ≤ limit.toInt.toNat) :
    shownRows limit as bs = diffRows as bs := by
  rw [shownRows, List.take_of_length_le hminus, List.take_of_length_le (by omega)]
  rfl

theorem versionPayload_find {db : Db} {id : Int} {v : ConfigVersionRow}
    (h : db.configVersions.find id = some v) : versionPayload db id = v.payload.take 4095 := by
  simp only [versionPayload, dbConfigVersionGet, prepares_eq, Sql.namesIndex, h]
  rfl

/-- No more tokens than the arrays hold, so all of a cut payload's count. -/
theorem payloadRows_take {payload : CStr} (h : (payloadTokens payload).length ≤ 1024) (n : Nat) :
    payloadRows (payload.take n) = payloadTokens (payload.take n) :=
  List.take_of_length_le ((strtok_take_length_le ' ' payload n).trans h)

/-- When the lines are those of the whole payloads and fit, the buffer holds
them. -/
theorem cfgVerDiff_exact {db : Db} {idA idB : Int} {a b : CStr} {size : UInt64}
    (hfit : (exactLines idA idB a b).flatten.length < size.toNat) :
    DiffExact idA idB a b (cfgVerDiff db idA idB size).2 ↔
      diffLines (maxLines size) idA idB (versionPayload db idA) (versionPayload db idB) =
        exactLines idA idB a b := by
  have hsize : size ≠ 0 := by
    rintro rfl
    exact absurd hfit (Nat.not_lt_zero _)
  have htexts : (cfgVerDiff db idA idB size).2.texts =
      diffLines (maxLines size) idA idB (versionPayload db idA) (versionPayload db idB) := by
    rw [cfgVerDiff_eq db idA idB hsize]
    exact Printer.printAll_texts _
  rw [diffExact_iff, htexts]
  refine ⟨And.left, fun heq => ⟨heq, ?_⟩⟩
  have hne : exactLines idA idB a b ≠ [] := by
    unfold exactLines
    split
    · exact List.cons_ne_nil _ _
    · split
      · exact List.cons_ne_nil _ _
      · assumption
  have hlast : (exactLines idA idB a b).dropLast.flatten.length < size.toNat :=
    (List.dropLast_sublist _).flatten.length_le.trans_lt hfit
  have hholds := (Printer.printAll_inside hne hlast).2
  rw [List.take_of_length_le (by omega)] at hholds
  rw [cfgVerDiff_eq db idA idB hsize, heq]
  exact hholds

/-- Lines of rows in place of others, with the messages around them. -/
theorem diffLines_eq_exactLines {limit : Int32} {idA idB : Int} {a b : CStr} {n : Nat}
    (ha : (payloadTokens a).length ≤ 1024) (hb : (payloadTokens b).length ≤ 1024) :
    diffLines limit idA idB (a.take n) (b.take n) = exactLines idA idB a b ↔
      a = b ∨ a.take n ≠ b.take n ∧
        shownRows limit (payloadTokens (a.take n)) (payloadTokens (b.take n)) =
          diffRows (payloadTokens a) (payloadTokens b) := by
  rw [diffLines, payloadRows_take ha, payloadRows_take hb, exactLines]
  by_cases heq : a = b
  · rw [heq, if_pos rfl, if_pos rfl]
    exact iff_of_true rfl (Or.inl rfl)
  rw [if_neg heq, or_iff_right heq]
  obtain ⟨hno, hdiffer⟩ : diffRows (payloadTokens a) (payloadTokens b) ≠ [noDifferences] ∧
      diffRows (payloadTokens a) (payloadTokens b) ≠ [versionsDiffer idA idB] :=
    rowLines_ne_message _ _ idA idB
  by_cases hcut : a.take n = b.take n
  · rw [if_pos hcut]
    refine iff_of_false ?_ fun h => h.1 hcut
    split
    · rw [List.singleton_inj]
      exact (versionsDiffer_ne idA idB).symm
    · exact hno.symm
  rw [if_neg hcut, and_iff_right hcut]
  by_cases hshown : shownRows limit (payloadTokens (a.take n)) (payloadTokens (b.take n)) = []
  · rw [if_pos hshown, hshown]
    split
    · rename_i hnone
      exact iff_of_true rfl hnone.symm
    · rename_i hsome
      exact iff_of_false hdiffer.symm (Ne.symm hsome)
  · rw [if_neg hshown]
    split
    · rename_i hnone
      rw [hnone]
      exact iff_of_false (rowLines_ne_message _ _ idA idB).2 hshown
    · rfl

section Exact

variable (db : Db) (idA idB : Int) (va vb : ConfigVersionRow) (size : UInt64)

/-- Two stored versions differ in what the diff says exactly when their
payloads are equal, or the 4095 bytes that are read of them differ and show
the same lines, as far as the `int` limit lets them through. So it is for all
payloads that fit the field, with any buffer below 22 times 2^31 bytes. -/
theorem diff_exact_iff (ha : db.configVersions.find idA = some va)
    (hb : db.configVersions.find idB = some vb) (hrowsA : (payloadTokens va.payload).length ≤ 1024)
    (hrowsB : (payloadTokens vb.payload).length ≤ 1024)
    (hminus : (missing (payloadTokens va.payload) (payloadTokens vb.payload)).length ≤
      size.toNat / 44)
    (hall : (missing (payloadTokens va.payload) (payloadTokens vb.payload)).length +
      (missing (payloadTokens vb.payload) (payloadTokens va.payload)).length ≤ size.toNat / 22)
    (hfit : (exactLines idA idB va.payload vb.payload).flatten.length < size.toNat) :
    (DiffExact idA idB va.payload vb.payload (cfgVerDiff db idA idB size).2 ↔
      va.payload = vb.payload ∨ va.payload.take 4095 ≠ vb.payload.take 4095 ∧
        shownRows (maxLines size) (payloadTokens (va.payload.take 4095))
          (payloadTokens (vb.payload.take 4095)) =
            diffRows (payloadTokens va.payload) (payloadTokens vb.payload)) ∧
      (va.payload.length < 4096 → vb.payload.length < 4096 → size.toNat < 22 * 2 ^ 31 →
        DiffExact idA idB va.payload vb.payload (cfgVerDiff db idA idB size).2) := by
  have hiff : DiffExact idA idB va.payload vb.payload (cfgVerDiff db idA idB size).2 ↔
      va.payload = vb.payload ∨ va.payload.take 4095 ≠ vb.payload.take 4095 ∧
        shownRows (maxLines size) (payloadTokens (va.payload.take 4095))
          (payloadTokens (vb.payload.take 4095)) =
            diffRows (payloadTokens va.payload) (payloadTokens vb.payload) := by
    rw [cfgVerDiff_exact hfit, versionPayload_find ha, versionPayload_find hb]
    exact diffLines_eq_exactLines hrowsA hrowsB
  refine ⟨hiff, fun hlenA hlenB hsmall => hiff.mpr ?_⟩
  rw [List.take_of_length_le (by omega), List.take_of_length_le (by omega)]
  rcases eq_or_ne va.payload vb.payload with heq | hne
  · exact Or.inl heq
  · refine Or.inr ⟨hne, shownRows_eq_diffRows ?_ ?_⟩
    · rw [half_maxLines_toInt hsmall]
      exact hminus
    · rw [maxLines_toInt hsmall]
      exact hall

end Exact

/-- A database with two versions. -/
def twoVersions (a b : CStr) : Db :=
  (dbConfigVersionAdd (dbConfigVersionAdd .empty 0 "v1".toList [] a).2 0 "v2".toList [] b).2

/-- The entry of a qos row. -/
def qosEntry (prio : CStr) : CStr := "qos:d1:p=".toList ++ prio ++ ":bw=1000:lat=5:pre=0".toList

theorem diff_exact_priority :
    DiffExact 1 2 (qosEntry "5".toList) (qosEntry "7".toList)
      (cfgVerDiff (twoVersions (qosEntry "5".toList) (qosEntry "7".toList)) 1 2 4096).2 :=
  (diff_exact_iff _ 1 2 ⟨1, "v1".toList, [], 0, qosEntry "5".toList⟩
    ⟨2, "v2".toList, [], 0, qosEntry "7".toList⟩ 4096 (by decide) (by decide) (by decide) (by decide)
    (by decide) (by decide) (by decide)).2 (by decide) (by decide) (by decide)

/-- The entries of fifteen devices with long domains. -/
def fleetDevices : List CStr :=
  (List.range 15).map fun i =>
    "device:node-".toList ++ showInt i ++ ":kind=ESP32:domain=".toList ++ List.replicate 255 'p'

/-- A payload with a qos row behind the devices. -/
def fleetPayload (prio : CStr) : CStr := (fleetDevices ++ [qosEntry prio]).flatMap fun t => t ++ [' ']

theorem payloadTokens_flatMap {ts : List CStr} (h : ∀ t ∈ ts, t ≠ [] ∧ ' ' ∉ t) :
    payloadTokens (ts.flatMap fun t => t ++ [' ']) = ts := by
  rw [payloadTokens, strtok_flatten]
  induction ts with
  | nil => rfl
  | cons t ts ih =>
      obtain ⟨hne, hblank⟩ := h t List.mem_cons_self
      rw [List.flatMap_cons, strtok_word hne hblank, ih fun u hu => h u (List.mem_cons_of_mem t hu)]
      rfl

/-- Rows that differ in the last one only. -/
theorem missing_concat {rows : List CStr} {u v : CStr} (huv : u ≠ v) (hu : u ∉ rows) :
    missing (rows ++ [u]) (rows ++ [v]) = [u] := by
  rw [missing, List.filter_append, List.filter_cons_of_pos (by simp [huv, hu]), List.filter_nil]
  have hrows : rows.filter (fun t => decide (t ∉ rows ++ [v])) = [] := by
    rw [List.filter_eq_nil_iff]
    intro t ht
    simp [ht]
  rw [hrows, List.nil_append]

/-- A priority that changed behind the 4095th byte is not shown. -/
theorem changed_priority_not_shown :
    ¬ ∀ (db : Db) (idA idB : Int) (va vb : ConfigVersionRow) (size : UInt64),
      db.configVersions.find idA = some va → db.configVersions.find idB = some vb →
      (payloadTokens va.payload).length ≤ 1024 → (payloadTokens vb.payload).length ≤ 1024 →
      (missing (payloadTokens va.payload) (payloadTokens vb.payload)).length ≤ size.toNat / 44 →
      (missing (payloadTokens va.payload) (payloadTokens vb.payload)).length +
        (missing (payloadTokens vb.payload) (payloadTokens va.payload)).length ≤ size.toNat / 22 →
      (exactLines idA idB va.payload vb.payload).flatten.length < size.toNat →
      DiffExact idA idB va.payload vb.payload (cfgVerDiff db idA idB size).2 := by
  intro hclaim
  have hfive : payloadTokens (fleetPayload "5".toList) = fleetDevices ++ [qosEntry "5".toList] :=
    payloadTokens_flatMap (by decide)
  have hseven : payloadTokens (fleetPayload "7".toList) = fleetDevices ++ [qosEntry "7".toList] :=
    payloadTokens_flatMap (by decide)
  have hne : fleetPayload "5".toList ≠ fleetPayload "7".toList := by
    intro heq
    have htokens := congrArg payloadTokens heq
    rw [hfive, hseven, List.append_cancel_left_eq] at htokens
    exact absurd htokens (by decide)
  have hcut : (fleetPayload "5".toList).take 4095 = (fleetPayload "7".toList).take 4095 := by
    have hlong : 4095 ≤ (fleetDevices.flatMap fun t => t ++ [' ']).length := by
      rw [List.length_flatMap]
      decide +kernel
    rw [fleetPayload, fleetPayload, List.flatMap_append, List.flatMap_append,
      List.take_append_of_le_length hlong, List.take_append_of_le_length hlong]
  have hminus : missing (payloadTokens (fleetPayload "5".toList)) (payloadTokens (fleetPayload "7".toList)) =
      [qosEntry "5".toList] := by
    rw [hfive, hseven]
    exact missing_concat (by decide) (by decide)
  have hplus : missing (payloadTokens (fleetPayload "7".toList)) (payloadTokens (fleetPayload "5".toList)) =
      [qosEntry "7".toList] := by
    rw [hfive, hseven]
    exact missing_concat (by decide) (by decide)
  have hexact := hclaim (twoVersions (fleetPayload "5".toList) (fleetPayload "7".toList)) 1 2
    ⟨1, "v1".toList, [], 0, fleetPayload "5".toList⟩ ⟨2, "v2".toList, [], 0, fleetPayload "7".toList⟩
    4096 rfl rfl (by rw [hfive]; decide) (by rw [hseven]; decide) (by rw [hminus]; decide)
    (by rw [hminus, hplus]; decide)
    (by rw [exactLines, if_neg hne, diffRows, hminus, hplus]; decide)
  have htexts : (cfgVerDiff (twoVersions (fleetPayload "5".toList) (fleetPayload "7".toList)) 1 2
      4096).2.texts = [noDifferences] := by
    rw [cfgVerDiff_eq _ _ _ (by decide), versionPayload_find rfl, versionPayload_find rfl, diffLines,
      if_pos hcut]
    rfl
  exact hne (hexact.equal.mp htexts)

/-! ### The buffer -/

/-- Every call starts in the buffer, nothing is written behind it, and it holds
a string in the end. -/
structure DiffInBounds (size : UInt64) (p : Printer) : Prop where
  calls : p.CallsInside size
  writes : p.mem.Within size.toNat
  result : ∃ s, p.mem.Holds s ∧ s.length < size.toNat

/-- The calls for any lines are in bounds when the last one starts there. -/
theorem diffInBounds_printAll {size : UInt64} {lines : List CStr} (hsize : 0 < size)
    (hne : lines ≠ []) (htotal : lines.dropLast.flatten.length < 2 ^ 64) :
    DiffInBounds size (Printer.fresh.printAll size lines) ↔
      lines.dropLast.flatten.length < size.toNat := by
  have hcalls := Printer.callsInside_printAll hsize htotal
  refine ⟨fun h => hcalls.mp h.calls, fun hlast => ?_⟩
  obtain ⟨hwithin, hholds⟩ := Printer.printAll_inside hne hlast
  have hpos := UInt64.lt_iff_toNat_lt.mp hsize
  refine ⟨hcalls.mpr hlast, hwithin, _, hholds, ?_⟩
  rw [List.length_take]
  rw [UInt64.toNat_zero] at hpos
  omega

/-- The diff of two stored versions stays in its buffer exactly when what is
read of them is equal or all shown lines but the last leave room in it. -/
theorem diff_in_bounds_iff (db : Db) (idA idB : Int) (va vb : ConfigVersionRow) (size : UInt64)
    (ha : db.configVersions.find idA = some va) (hb : db.configVersions.find idB = some vb)
    (hsize : 0 < size) :
    DiffInBounds size (cfgVerDiff db idA idB size).2 ↔
      va.payload.take 4095 = vb.payload.take 4095 ∨
        (shownRows (maxLines size) (payloadRows (va.payload.take 4095))
          (payloadRows (vb.payload.take 4095))).dropLast.flatten.length < size.toNat := by
  have hpos := UInt64.lt_iff_toNat_lt.mp hsize
  have hne : size ≠ 0 := by
    rintro rfl
    exact absurd hpos (Nat.lt_irrefl _)
  have htotal := shownRows_length_lt (maxLines size) db idA idB
  rw [cfgVerDiff_eq db idA idB hne]
  rw [versionPayload_find ha, versionPayload_find hb] at htotal ⊢
  have hmessage : ∀ message, DiffInBounds size (Printer.fresh.printAll size [message]) := by
    intro message
    have hfirst : [message].dropLast.flatten.length = 0 := rfl
    exact (diffInBounds_printAll hsize (List.cons_ne_nil _ _) (by omega)).mpr hpos
  unfold diffLines
  split
  · rename_i heq
    exact iff_of_true (hmessage _) (Or.inl heq)
  rename_i hcut
  rw [or_iff_right hcut]
  split
  · rename_i hnone
    rw [hnone]
    exact iff_of_true (hmessage _) hpos
  · rename_i hsome
    exact diffInBounds_printAll hsize hsome
      ((List.dropLast_sublist _).flatten.length_le.trans_lt htotal)

theorem diff_in_bounds_priority : DiffInBounds 64 (cfgVerDiff
    (twoVersions (qosEntry "5".toList) (qosEntry "7".toList)) 1 2 64).2 :=
  (diff_in_bounds_iff _ 1 2 ⟨1, "v1".toList, [], 0, qosEntry "5".toList⟩
    ⟨2, "v2".toList, [], 0, qosEntry "7".toList⟩ 64 (by decide) (by decide) (by decide)).mpr
    (Or.inr (by decide))

/-- The entries of eight devices, none of them as short as the 22 bytes that a
line is reckoned with. -/
def eightDevices : CStr :=
  (List.range 8).flatMap fun i =>
    "device:esp32-0".toList ++ showInt i ++ ":kind=ESP32:domain=default ".toList

theorem added_devices_overflow :
    ¬ ∀ (db : Db) (idA idB : Int) (va vb : ConfigVersionRow) (size : UInt64),
      db.configVersions.find idA = some va → db.configVersions.find idB = some vb → 0 < size →
      DiffInBounds size (cfgVerDiff db idA idB size).2 := by
  intro hclaim
  have hbounds := hclaim (twoVersions "pre:preemption:emac=:pmac= ".toList eightDevices) 1 2
    ⟨1, "v1".toList, [], 0, "pre:preemption:emac=:pmac= ".toList⟩
    ⟨2, "v2".toList, [], 0, eightDevices⟩ 256 rfl rfl (by decide)
  rw [cfgVerDiff_eq _ _ _ (by decide), versionPayload_find rfl, versionPayload_find rfl] at hbounds
  have hlast := (Printer.callsInside_printAll (by decide) (by decide +kernel)).mp hbounds.calls
  exact absurd hlast (by decide +kernel)

end Htsn
