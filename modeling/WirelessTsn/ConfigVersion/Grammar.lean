import WirelessTsn.ConfigVersion.Tables

/-!
What a word of a payload asks for, said of its text. `AskedBy` is the format
of the entries as they are printed, with what a rollback takes besides: the
older form of a qos entry, and entries whose last numbers are missing. An id
is the text ahead of a colon; it is not empty, and with a colon or a blank in
it it could not be told from what stands behind. `restoreToken_iff` holds the
reader to this format.
-/

namespace Htsn

open CText Keyed

/-! The labels of the numbers in an entry. -/

def qosLabels : List CStr := [":p=".toList, ":bw=".toList, ":lat=".toList, ":pre=".toList]

def qosShortLabels : List CStr := ["p=".toList, ":bw=".toList, ":lat=".toList, ":pre=".toList]

def vlanLabels : List CStr := [":".toList]

def streamLabels : List CStr :=
  [":vlan=".toList, ":prio=".toList, ":lat=".toList, ":iv=".toList, ":st=".toList]

def gclLabels : List CStr := [":".toList, ":".toList, ":".toList]

/-- The `i`-th number, or zero. -/
def intAt (ns : List Int) (i : Nat) : Int32 := toCInt (ns.getD i 0)

def longAt (ns : List Int) (i : Nat) : Int64 := toCLongLong (ns.getD i 0)

/-- An id that fits the field it is read into. -/
def FieldId (s : CStr) : Prop := Carried s ∧ s.length ≤ 255

/-- The text ahead of the next colon, 255 characters of it at most. -/
def aheadOfColon (s : CStr) : CStr := (s.take 255).takeWhile (· ≠ ':')

/-- The deploy target, behind its label. -/
def targetBehind (s : CStr) : CStr :=
  if ":tgt=".toList.isPrefixOf s then
    (((s.drop ":tgt=".toList.length).dropWhile isSpace).take 255).takeWhile (!isSpace ·)
  else []

/-- The qos row of the numbers `ns`: a traffic class is not printed. -/
def qosOfNumbers (deviceId : Str) (ns : List Int) : QosConfig :=
  ⟨deviceId, intAt ns 0, intAt ns 0, intAt ns 1, intAt ns 2, intAt ns 3⟩

def streamOfNumbers (streamId talker : Str) (ns : List Int) : StreamRow where
  streamId := streamId
  name := streamId
  talker := talker
  vlanId := intAt ns 0
  maxLatencyNs := longAt ns 2
  maxIntervalNs := longAt ns 3
  priority := intAt ns 1
  dataFramePrio := intAt ns 1
  status := intAt ns 4
  comment := .empty

/-- The word asks for the row. -/
inductive AskedBy (dev : Str) : CStr → RestoreRow → Prop
  | qosShort (s : CStr) (hns : numbersBehind qosShortLabels s ≠ []) :
      AskedBy dev (qosTag ++ s)
        (.qos (qosOfNumbers (if dev.chars = [] then Buf.copy 256 "default".toList else dev)
          (numbersBehind qosShortLabels s)))
  | qos (id s : CStr) (hid : FieldId id) (hstart : ¬ "p=".toList <+: id ++ s)
      (hns : (numbersBehind qosLabels s).length = 4) :
      AskedBy dev (qosTag ++ (id ++ s))
        (.qos (qosOfNumbers (Buf.copy 256 id) (numbersBehind qosLabels s)))
  | vlanGroup (id s : CStr) (hid : FieldId id) (hns : numbersBehind vlanLabels s ≠ [])
      (hpos : 0 < intAt (numbersBehind vlanLabels s) 0) :
      AskedBy dev (vlanTag ++ (id ++ s))
        (.vlanGroup ⟨Buf.copy 256 id, Buf.copy 256 id, intAt (numbersBehind vlanLabels s) 0⟩)
  | vlanMember (id s : CStr) (hid : FieldId id) (hs : aheadOfColon s ≠ []) :
      AskedBy dev (vmemTag ++ (id ++ ':' :: s))
        (.vlanMember ⟨Buf.copy 256 id, Buf.copy 256 (aheadOfColon s)⟩)
  | stream (id talker s : CStr) (hid : FieldId id) (htalker : FieldId talker)
      (hns : 2 ≤ (numbersBehind streamLabels s).length) :
      AskedBy dev (streamTag ++ (id ++ ':' :: (talker ++ s)))
        (.stream (streamOfNumbers (Buf.copy 256 id) (Buf.copy 256 talker)
          (numbersBehind streamLabels s)))
  | streamMember (id s : CStr) (hid : FieldId id) (hs : aheadOfColon s ≠ []) :
      AskedBy dev (streammemTag ++ (id ++ ':' :: s))
        (.streamMember ⟨Buf.copy 256 id, .listener, Buf.copy 256 (aheadOfColon s)⟩)
  | tas (id s rest : CStr) (cycle : Int) (hid : FieldId id)
      (hcycle : scanInt s = some (cycle, rest)) :
      AskedBy dev (tasTag ++ (id ++ (":cycle=".toList ++ s)))
        (.tas ⟨Buf.copy 256 id, Buf.copy 256 id, toCLongLong cycle,
          Buf.copy 256 (targetBehind rest)⟩)
  | gcl (id s : CStr) (hid : FieldId id) (hns : (numbersBehind gclLabels s).length = 3) :
      AskedBy dev (gclTag ++ (id ++ s))
        (.gcl ⟨Buf.copy 256 id, intAt (numbersBehind gclLabels s) 0,
          intAt (numbersBehind gclLabels s) 1, longAt (numbersBehind gclLabels s) 2⟩)

section Reader

variable {dev : Str} {id s tok : CStr} {r : RestoreRow}

theorem head_of_isPrefix {l : CStr} (h : ':' :: l <+: s) : ∀ c ∈ s.head?, c = ':' := by
  obtain ⟨t, rfl⟩ := h
  intro c hc
  exact (Option.some.inj hc).symm

/-- An id is read up to the colon that stands behind it. -/
theorem sscanf_fieldId (hid : FieldId id) (tag : CStr) (fs : List Conv)
    (hs : ∀ c ∈ s.head?, c = ':') :
    sscanf (lits tag ++ .set 255 ':' :: fs) (tag ++ (id ++ s)) = .text id :: sscanf fs s := by
  rw [sscanf_lits, sscanf_set fs hid.1.1 hid.2 hid.1.2.2 hs]

/-- An id that was read stands there, whatever was read behind it. -/
theorem fieldId_of_sscanf (htok : ' ' ∉ tok) {tag : CStr} {fs : List Conv}
    (h : sscanf (lits tag ++ .set 255 ':' :: fs) tok ≠ []) :
    ∃ id s, tok = tag ++ (id ++ s) ∧ FieldId id ∧
      sscanf (lits tag ++ .set 255 ':' :: fs) tok = .text id :: sscanf fs s := by
  obtain ⟨id, s, rfl, hne, hlen, hcolon, hread⟩ := sscanf_word_inv h
  refine ⟨id, s, by rw [List.append_assoc], ⟨⟨hne, ?_, hcolon⟩, hlen⟩, hread⟩
  intro hblank
  exact htok (by simp [hblank])

/-- The numbers behind an id. -/
theorem sscanf_numbers (ls : List (CStr × Conv)) {labels : List CStr} {l : CStr}
    (hls : ∀ l ∈ ls, l.2.IsNumber) (hlabels : ls.map Prod.fst = (':' :: l) :: labels)
    (hid : FieldId id) (tag : CStr) (hns : numbersBehind (ls.map Prod.fst) s ≠ []) :
    sscanf (lits tag ++ .set 255 ':' :: labelled ls) (tag ++ (id ++ s)) =
      .text id :: List.zipWith Conv.arg (ls.map Prod.snd) (numbersBehind (ls.map Prod.fst) s) := by
  have hhead : ':' :: l <+: s := isPrefix_of_numbersBehind (hlabels ▸ hns)
  rw [sscanf_fieldId hid tag _ (head_of_isPrefix hhead), sscanf_labelled hls]

theorem numbers_of_sscanf (tag : CStr) (ls : List (CStr × Conv)) (hls : ∀ l ∈ ls, l.2.IsNumber)
    (htok : ' ' ∉ tok) {k : Nat}
    (h : k + 1 ≤ (sscanf (lits tag ++ .set 255 ':' :: labelled ls) tok).length) :
    ∃ id s, tok = tag ++ (id ++ s) ∧ FieldId id ∧
      k ≤ (numbersBehind (ls.map Prod.fst) s).length := by
  have hne : sscanf (lits tag ++ .set 255 ':' :: labelled ls) tok ≠ [] := by
    intro hnil
    rw [hnil] at h
    exact absurd h (Nat.not_succ_le_zero k)
  obtain ⟨id, s, htext, hid, hread⟩ := fieldId_of_sscanf htok hne
  rw [hread, sscanf_labelled hls, List.length_cons, List.length_zipWith] at h
  exact ⟨id, s, htext, hid, by omega⟩

/-- The second id of an entry with two. -/
theorem sscanf_aheadOfColon (s : CStr) :
    sscanf (lits ":".toList ++ [.set 255 ':']) (':' :: s) =
      if aheadOfColon s = [] then [] else [.text (aheadOfColon s)] := rfl

end Reader

section Kinds

variable {dev : Str} {id s tok : CStr} {r : RestoreRow}

/-- The labels of a format with what is converted behind them. -/
private def qosNumbers : List (CStr × Conv) :=
  [(":p=".toList, .int), (":bw=".toList, .int), (":lat=".toList, .int), (":pre=".toList, .int)]

private def streamNumbers : List (CStr × Conv) :=
  [(":vlan=".toList, .int), (":prio=".toList, .int), (":lat=".toList, .llong),
    (":iv=".toList, .llong), (":st=".toList, .int)]

private def gclNumbers : List (CStr × Conv) :=
  [(":".toList, .int), (":".toList, .int), (":".toList, .llong)]

/-- How many values were converted of an entry with numbers. -/
private theorem count_numbers {cs : List Conv} {ns : List Int} {a : Arg} {as : List Arg}
    (has : as = a :: List.zipWith Conv.arg cs ns) (hlen : ns.length ≤ cs.length) :
    as.length = ns.length + 1 := by
  rw [has, List.length_cons, List.length_zipWith, Nat.min_eq_right hlen]

theorem tokenVlan_entry (hid : FieldId id) (hns : numbersBehind vlanLabels s ≠ []) :
    tokenVlan (vlanTag ++ (id ++ s)) =
      if 0 < intAt (numbersBehind vlanLabels s) 0 then
        some (.vlanGroup ⟨Buf.copy 256 id, Buf.copy 256 id, intAt (numbersBehind vlanLabels s) 0⟩)
      else none := by
  have hargs : sscanf vlanFormat (vlanTag ++ (id ++ s)) =
      .text id :: List.zipWith Conv.arg [.int] (numbersBehind vlanLabels s) :=
    sscanf_numbers [(":".toList, .int)] (by simp [Conv.IsNumber]) rfl hid vlanTag hns
  have hone : (numbersBehind vlanLabels s).length = 1 :=
    Nat.le_antisymm (numbersBehind_length_le vlanLabels s) (List.length_pos_iff.mpr hns)
  have hcount : (sscanf vlanFormat (vlanTag ++ (id ++ s))).length = 2 := by
    rw [count_numbers hargs hone.le, hone]
  have hcopy : (Buf.copy 256 id).chars ≠ [] := by
    rw [Buf.copy_chars_of_lt (Nat.lt_succ_of_le hid.2)]
    exact hid.1.1
  have hvalues : argText (sscanf vlanFormat (vlanTag ++ (id ++ s))) 0 = id ∧
      argInt (sscanf vlanFormat (vlanTag ++ (id ++ s))) 1 =
        intAt (numbersBehind vlanLabels s) 0 := by
    rw [hargs]
    exact ⟨rfl, argInt_zipWith rfl _⟩
  simp only [tokenVlan, hvalues, hcount, hcopy, true_and, ne_eq, not_false_eq_true, gt_iff_lt]

theorem tokenQos_entry (hid : FieldId id) (hns : numbersBehind qosLabels s ≠ []) :
    tokenQos (qosTag ++ (id ++ s)) =
      if (numbersBehind qosLabels s).length = 4 then
        some (.qos (qosOfNumbers (Buf.copy 256 id) (numbersBehind qosLabels s)))
      else none := by
  have hargs : sscanf qosFormat (qosTag ++ (id ++ s)) =
      .text id :: List.zipWith Conv.arg [.int, .int, .int, .int] (numbersBehind qosLabels s) :=
    sscanf_numbers qosNumbers (by simp [qosNumbers, Conv.IsNumber]) rfl hid qosTag hns
  have hcount := count_numbers hargs (numbersBehind_length_le qosLabels s)
  have hvalues : argText (sscanf qosFormat (qosTag ++ (id ++ s))) 0 = id ∧
      argInt (sscanf qosFormat (qosTag ++ (id ++ s))) 1 = intAt (numbersBehind qosLabels s) 0 ∧
      argInt (sscanf qosFormat (qosTag ++ (id ++ s))) 2 = intAt (numbersBehind qosLabels s) 1 ∧
      argInt (sscanf qosFormat (qosTag ++ (id ++ s))) 3 = intAt (numbersBehind qosLabels s) 2 ∧
      argInt (sscanf qosFormat (qosTag ++ (id ++ s))) 4 = intAt (numbersBehind qosLabels s) 3 := by
    rw [hargs]
    exact ⟨rfl, argInt_zipWith rfl _, argInt_zipWith rfl _, argInt_zipWith rfl _,
      argInt_zipWith rfl _⟩
  simp only [tokenQos, hvalues, hcount, Nat.reduceEqDiff]
  rfl

/-- In the older form the numbers stand directly behind the tag. -/
theorem tokenQosShort_eq (s : CStr) :
    tokenQosShort dev (qosTag ++ s) =
      if numbersBehind qosShortLabels s ≠ [] then
        some (.qos (qosOfNumbers (if dev.chars = [] then Buf.copy 256 "default".toList else dev)
          (numbersBehind qosShortLabels s)))
      else none := by
  have hargs : sscanf qosShortFormat (qosTag ++ s) =
      List.zipWith Conv.arg [.int, .int, .int, .int] (numbersBehind qosShortLabels s) := by
    have hformat : qosShortFormat = lits qosTag ++ labelled (("p=".toList, .int) :: qosNumbers.tail) :=
      rfl
    rw [hformat, sscanf_lits, sscanf_labelled (by simp [qosNumbers, Conv.IsNumber])]
    rfl
  have hcount : (sscanf qosShortFormat (qosTag ++ s)).length =
      (numbersBehind qosShortLabels s).length := by
    rw [hargs, List.length_zipWith]
    exact Nat.min_eq_right (numbersBehind_length_le qosShortLabels s)
  have hvalues : ∀ i < 4, argInt (sscanf qosShortFormat (qosTag ++ s)) i =
      intAt (numbersBehind qosShortLabels s) i := by
    intro i hi
    rw [hargs]
    refine argInt_zipWith ?_ _
    interval_cases i <;> rfl
  simp only [tokenQosShort, hcount, hvalues 0, hvalues 1, hvalues 2, hvalues 3, Nat.reduceLT, ne_eq,
    ge_iff_le, List.length_pos_iff, Nat.succ_le_iff, restoreQos, qosOfNumbers]

theorem tokenStream_entry {talker : CStr} (hid : FieldId id) (htalker : FieldId talker)
    (hns : numbersBehind streamLabels s ≠ []) :
    tokenStream (streamTag ++ (id ++ ':' :: (talker ++ s))) =
      if 2 ≤ (numbersBehind streamLabels s).length then
        some (.stream (streamOfNumbers (Buf.copy 256 id) (Buf.copy 256 talker)
          (numbersBehind streamLabels s)))
      else none := by
  have hargs : sscanf streamFormat (streamTag ++ (id ++ ':' :: (talker ++ s))) =
      .text id :: .text talker :: List.zipWith Conv.arg [.int, .int, .llong, .llong, .int]
        (numbersBehind streamLabels s) := by
    have hformat : streamFormat = lits streamTag ++ .set 255 ':' ::
        (lits ":".toList ++ .set 255 ':' :: labelled streamNumbers) := rfl
    rw [hformat, sscanf_fieldId hid streamTag _ (by simp)]
    exact congrArg _ (sscanf_numbers streamNumbers (by simp [streamNumbers, Conv.IsNumber])
      rfl htalker ":".toList hns)
  have hcount := congrArg List.length hargs
  rw [List.length_cons, count_numbers rfl (numbersBehind_length_le streamLabels s)] at hcount
  have hvalues : argText (sscanf streamFormat (streamTag ++ (id ++ ':' :: (talker ++ s)))) 0 = id ∧
      argText (sscanf streamFormat (streamTag ++ (id ++ ':' :: (talker ++ s)))) 1 = talker ∧
      argInt (sscanf streamFormat (streamTag ++ (id ++ ':' :: (talker ++ s)))) 2 =
        intAt (numbersBehind streamLabels s) 0 ∧
      argInt (sscanf streamFormat (streamTag ++ (id ++ ':' :: (talker ++ s)))) 3 =
        intAt (numbersBehind streamLabels s) 1 ∧
      argLong (sscanf streamFormat (streamTag ++ (id ++ ':' :: (talker ++ s)))) 4 =
        longAt (numbersBehind streamLabels s) 2 ∧
      argLong (sscanf streamFormat (streamTag ++ (id ++ ':' :: (talker ++ s)))) 5 =
        longAt (numbersBehind streamLabels s) 3 ∧
      argInt (sscanf streamFormat (streamTag ++ (id ++ ':' :: (talker ++ s)))) 6 =
        intAt (numbersBehind streamLabels s) 4 := by
    rw [hargs]
    exact ⟨rfl, rfl, argInt_zipWith rfl _, argInt_zipWith rfl _, argLong_zipWith rfl _,
      argLong_zipWith rfl _, argInt_zipWith rfl _⟩
  simp only [tokenStream, hvalues, hcount, ge_iff_le, Nat.reduceLeDiff]
  rfl

theorem tokenGcl_entry (hid : FieldId id) (hns : numbersBehind gclLabels s ≠ []) :
    tokenGcl (gclTag ++ (id ++ s)) =
      if (numbersBehind gclLabels s).length = 3 then
        some (.gcl ⟨Buf.copy 256 id, intAt (numbersBehind gclLabels s) 0,
          intAt (numbersBehind gclLabels s) 1, longAt (numbersBehind gclLabels s) 2⟩)
      else none := by
  have hargs : sscanf gclFormat (gclTag ++ (id ++ s)) =
      .text id :: List.zipWith Conv.arg [.int, .int, .llong] (numbersBehind gclLabels s) :=
    sscanf_numbers gclNumbers (by simp [gclNumbers, Conv.IsNumber]) rfl hid gclTag hns
  have hcount := count_numbers hargs (numbersBehind_length_le gclLabels s)
  have hvalues : argText (sscanf gclFormat (gclTag ++ (id ++ s))) 0 = id ∧
      argInt (sscanf gclFormat (gclTag ++ (id ++ s))) 1 = intAt (numbersBehind gclLabels s) 0 ∧
      argInt (sscanf gclFormat (gclTag ++ (id ++ s))) 2 = intAt (numbersBehind gclLabels s) 1 ∧
      argLong (sscanf gclFormat (gclTag ++ (id ++ s))) 3 =
        longAt (numbersBehind gclLabels s) 2 := by
    rw [hargs]
    exact ⟨rfl, argInt_zipWith rfl _, argInt_zipWith rfl _, argLong_zipWith rfl _⟩
  simp only [tokenGcl, hvalues, hcount, Nat.reduceEqDiff]

theorem tokenVmem_entry (hid : FieldId id) (s : CStr) :
    tokenVmem (vmemTag ++ (id ++ ':' :: s)) =
      if aheadOfColon s ≠ [] then
        some (.vlanMember ⟨Buf.copy 256 id, Buf.copy 256 (aheadOfColon s)⟩)
      else none := by
  have hargs : sscanf vmemFormat (vmemTag ++ (id ++ ':' :: s)) =
      .text id :: if aheadOfColon s = [] then [] else [.text (aheadOfColon s)] :=
    (sscanf_fieldId hid vmemTag _ (by simp)).trans (congrArg _ (sscanf_aheadOfColon s))
  rw [tokenVmem, hargs]
  by_cases hs : aheadOfColon s = []
  · simp [hs]
  · simp [hs, argText]

theorem tokenStreammem_entry (hid : FieldId id) (s : CStr) :
    tokenStreammem (streammemTag ++ (id ++ ':' :: s)) =
      if aheadOfColon s ≠ [] then
        some (.streamMember ⟨Buf.copy 256 id, .listener, Buf.copy 256 (aheadOfColon s)⟩)
      else none := by
  have hargs : sscanf streammemFormat (streammemTag ++ (id ++ ':' :: s)) =
      .text id :: if aheadOfColon s = [] then [] else [.text (aheadOfColon s)] :=
    (sscanf_fieldId hid streammemTag _ (by simp)).trans (congrArg _ (sscanf_aheadOfColon s))
  rw [tokenStreammem, hargs]
  by_cases hs : aheadOfColon s = []
  · simp [hs]
  · simp [hs, argText]

/-- The conversions behind a cycle. -/
private def targetFormat : List Conv := lits ":tgt=".toList ++ [.str 255]

private theorem sscanf_target (s : CStr) :
    sscanf targetFormat s = if targetBehind s = [] then [] else [.text (targetBehind s)] := by
  unfold targetBehind
  split
  · rename_i hlabel
    obtain ⟨t, rfl⟩ := List.isPrefixOf_iff_prefix.mp hlabel
    rw [targetFormat, sscanf_lits, List.drop_left]
    rfl
  · rename_i hlabel
    rw [if_pos rfl]
    exact sscanf_lits_of_not_isPrefix (fun h => hlabel (List.isPrefixOf_iff_prefix.mpr h)) _

theorem tokenTas_entry (hid : FieldId id) (s : CStr) :
    tokenTas (tasTag ++ (id ++ (":cycle=".toList ++ s))) =
      (scanInt s).map fun n => .tas ⟨Buf.copy 256 id, Buf.copy 256 id, toCLongLong n.1,
        Buf.copy 256 (targetBehind n.2)⟩ := by
  have hformat : tasFormat = lits tasTag ++ .set 255 ':' ::
      (lits ":cycle=".toList ++ .llong :: targetFormat) := rfl
  have hargs : sscanf tasFormat (tasTag ++ (id ++ (":cycle=".toList ++ s))) =
      .text id :: sscanf (.llong :: targetFormat) s := by
    rw [hformat, sscanf_fieldId hid tasTag _ (by simp), sscanf_lits]
  rw [tokenTas, hargs]
  cases hscan : scanInt s with
  | none => simp [sscanf, hscan]
  | some n =>
      have hrest : sscanf (.llong :: targetFormat) s =
          .llong (toCLongLong n.1) :: sscanf targetFormat n.2 := by
        simp [sscanf, hscan]
      rw [hrest, sscanf_target]
      by_cases htarget : targetBehind n.2 = []
      · simp [htarget, argText, argLong]
      · simp [htarget, argText, argLong]

end Kinds

section Iff

variable {dev : Str} {tok : CStr} {r : RestoreRow}

/-- A word that asks for a row is read as it. -/
theorem restoreToken_of_asked (h : AskedBy dev tok r) : restoreToken dev tok = some r := by
  cases h with
  | qosShort s hns =>
      have hp : qosShortTag.isPrefixOf (qosTag ++ s) = true := by
        obtain ⟨t, rfl⟩ := isPrefix_of_numbersBehind hns
        exact List.isPrefixOf_iff_prefix.mpr (List.prefix_append qosShortTag t)
      rw [restoreToken, if_pos hp, tokenQosShort_eq, if_pos hns]
  | qos id s hid hstart hns =>
      have hp : ¬ qosShortTag.isPrefixOf (qosTag ++ (id ++ s)) = true := fun hp =>
        hstart ((List.prefix_append_right_inj qosTag).mp (List.isPrefixOf_iff_prefix.mp hp))
      have htag : qosTag.isPrefixOf (qosTag ++ (id ++ s)) = true :=
        List.isPrefixOf_iff_prefix.mpr (List.prefix_append _ _)
      rw [restoreToken, if_neg hp, if_pos htag, tokenQos_entry hid, if_pos hns]
      exact List.ne_nil_of_length_pos (by omega)
  | vlanGroup id s hid hns hpos =>
      rw [show restoreToken dev (vlanTag ++ (id ++ s)) = tokenVlan (vlanTag ++ (id ++ s)) from rfl,
        tokenVlan_entry hid hns, if_pos hpos]
  | vlanMember id s hid hs =>
      rw [show restoreToken dev (vmemTag ++ (id ++ ':' :: s)) =
        tokenVmem (vmemTag ++ (id ++ ':' :: s)) from rfl, tokenVmem_entry hid, if_pos hs]
  | stream id talker s hid htalker hns =>
      rw [show restoreToken dev (streamTag ++ (id ++ ':' :: (talker ++ s))) =
        tokenStream (streamTag ++ (id ++ ':' :: (talker ++ s))) from rfl,
        tokenStream_entry hid htalker (List.ne_nil_of_length_pos (by omega)), if_pos hns]
  | streamMember id s hid hs =>
      rw [show restoreToken dev (streammemTag ++ (id ++ ':' :: s)) =
        tokenStreammem (streammemTag ++ (id ++ ':' :: s)) from rfl, tokenStreammem_entry hid,
        if_pos hs]
  | tas id s rest cycle hid hcycle =>
      rw [show restoreToken dev (tasTag ++ (id ++ (":cycle=".toList ++ s))) =
        tokenTas (tasTag ++ (id ++ (":cycle=".toList ++ s))) from rfl, tokenTas_entry hid, hcycle]
      rfl
  | gcl id s hid hns =>
      rw [show restoreToken dev (gclTag ++ (id ++ s)) = tokenGcl (gclTag ++ (id ++ s)) from rfl,
        tokenGcl_entry hid (List.ne_nil_of_length_pos (by omega)), if_pos hns]

theorem asked_of_tokenQos (htok : ' ' ∉ tok) (hp : ¬ qosShortTag.isPrefixOf tok = true)
    (h : tokenQos tok = some r) : AskedBy dev tok r := by
  have hcount : 4 + 1 ≤ (sscanf qosFormat tok).length := by
    simp only [tokenQos] at h
    split at h
    · rename_i hfive
      exact hfive.ge
    · cases h
  obtain ⟨id, s, rfl, hid, hns⟩ :=
    numbers_of_sscanf qosTag qosNumbers (by simp [qosNumbers, Conv.IsNumber]) htok hcount
  have hne : numbersBehind qosLabels s ≠ [] :=
    List.ne_nil_of_length_pos (Nat.lt_of_lt_of_le (by decide) hns)
  rw [tokenQos_entry hid hne] at h
  split at h
  · rename_i hfour
    cases h
    refine .qos id s hid (fun hstart => hp ?_) hfour
    exact List.isPrefixOf_iff_prefix.mpr ((List.prefix_append_right_inj qosTag).mpr hstart)
  · cases h

theorem asked_of_tokenVlan (htok : ' ' ∉ tok) (h : tokenVlan tok = some r) :
    AskedBy dev tok r := by
  have hcount : 1 + 1 ≤ (sscanf vlanFormat tok).length := by
    simp only [tokenVlan] at h
    split at h
    · rename_i hcheck
      exact hcheck.1.ge
    · cases h
  obtain ⟨id, s, rfl, hid, hns⟩ :=
    numbers_of_sscanf vlanTag [(":".toList, .int)] (by simp [Conv.IsNumber]) htok hcount
  have hne : numbersBehind vlanLabels s ≠ [] := List.ne_nil_of_length_pos hns
  rw [tokenVlan_entry hid hne] at h
  split at h
  · rename_i hpos
    cases h
    exact .vlanGroup id s hid hne hpos
  · cases h

theorem asked_of_tokenGcl (htok : ' ' ∉ tok) (h : tokenGcl tok = some r) : AskedBy dev tok r := by
  have hcount : 3 + 1 ≤ (sscanf gclFormat tok).length := by
    simp only [tokenGcl] at h
    split at h
    · rename_i hfour
      exact hfour.ge
    · cases h
  obtain ⟨id, s, rfl, hid, hns⟩ :=
    numbers_of_sscanf gclTag gclNumbers (by simp [gclNumbers, Conv.IsNumber]) htok hcount
  have hne : numbersBehind gclLabels s ≠ [] :=
    List.ne_nil_of_length_pos (Nat.lt_of_lt_of_le (by decide) hns)
  rw [tokenGcl_entry hid hne] at h
  split at h
  · rename_i hthree
    cases h
    exact .gcl id s hid hthree
  · cases h

theorem asked_of_tokenStream (htok : ' ' ∉ tok) (h : tokenStream tok = some r) :
    AskedBy dev tok r := by
  have hformat : streamFormat = lits streamTag ++ .set 255 ':' ::
      (lits ":".toList ++ .set 255 ':' :: labelled streamNumbers) := rfl
  have hcount : 4 ≤ (sscanf streamFormat tok).length := by
    simp only [tokenStream] at h
    split at h
    · assumption
    · cases h
  rw [hformat] at hcount
  obtain ⟨id, s, rfl, hid, hread⟩ := fieldId_of_sscanf htok
    (List.ne_nil_of_length_pos (Nat.lt_of_lt_of_le (by decide) hcount))
  rw [hread, List.length_cons] at hcount
  have hs : ' ' ∉ s := fun hblank => htok (by simp [hblank])
  obtain ⟨talker, s, rfl, htalker, hns⟩ := numbers_of_sscanf (k := 2) ":".toList streamNumbers
    (by simp [streamNumbers, Conv.IsNumber]) hs (by omega)
  have hne : numbersBehind streamLabels s ≠ [] :=
    List.ne_nil_of_length_pos (Nat.lt_of_lt_of_le (by decide) hns)
  rw [show streamTag ++ (id ++ (":".toList ++ (talker ++ s))) =
    streamTag ++ (id ++ ':' :: (talker ++ s)) from rfl] at h ⊢
  rw [tokenStream_entry hid htalker hne] at h
  split at h
  · rename_i htwo
    cases h
    exact .stream id talker s hid htalker htwo
  · cases h

/-- Literal text that was stepped over stands there. -/
private theorem isPrefix_of_sscanf {l s : CStr} {fs : List Conv} (h : sscanf (lits l ++ fs) s ≠ []) :
    l <+: s := by
  by_contra hl
  exact h (sscanf_lits_of_not_isPrefix hl fs)

/-- An entry of two ids, both of which were read. -/
private theorem two_of_sscanf (tag l : CStr) (c : Conv) (fs : List Conv) (htok : ' ' ∉ tok)
    (h : 2 ≤ (sscanf (lits tag ++ .set 255 ':' :: (lits l ++ c :: fs)) tok).length) :
    ∃ id s, tok = tag ++ (id ++ (l ++ s)) ∧ FieldId id := by
  obtain ⟨id, s, rfl, hid, hread⟩ := fieldId_of_sscanf htok
    (List.ne_nil_of_length_pos (Nat.lt_of_lt_of_le (by decide) h))
  rw [hread, List.length_cons] at h
  obtain ⟨s, rfl⟩ := isPrefix_of_sscanf (List.ne_nil_of_length_pos (Nat.le_of_succ_le_succ h))
  exact ⟨id, s, rfl, hid⟩

theorem asked_of_tokenVmem (htok : ' ' ∉ tok) (h : tokenVmem tok = some r) :
    AskedBy dev tok r := by
  have hcount : 2 ≤ (sscanf vmemFormat tok).length := by
    simp only [tokenVmem] at h
    split at h
    · rename_i htwo
      exact htwo.ge
    · cases h
  obtain ⟨id, s, rfl, hid⟩ := two_of_sscanf vmemTag ":".toList (.set 255 ':') [] htok hcount
  rw [show vmemTag ++ (id ++ (":".toList ++ s)) = vmemTag ++ (id ++ ':' :: s) from rfl] at h ⊢
  rw [tokenVmem_entry hid] at h
  split at h
  · rename_i hs
    cases h
    exact .vlanMember id s hid hs
  · cases h

theorem asked_of_tokenStreammem (htok : ' ' ∉ tok) (h : tokenStreammem tok = some r) :
    AskedBy dev tok r := by
  have hcount : 2 ≤ (sscanf streammemFormat tok).length := by
    simp only [tokenStreammem] at h
    split at h
    · rename_i htwo
      exact htwo.ge
    · cases h
  obtain ⟨id, s, rfl, hid⟩ := two_of_sscanf streammemTag ":".toList (.set 255 ':') [] htok hcount
  rw [show streammemTag ++ (id ++ (":".toList ++ s)) = streammemTag ++ (id ++ ':' :: s) from rfl]
    at h ⊢
  rw [tokenStreammem_entry hid] at h
  split at h
  · rename_i hs
    cases h
    exact .streamMember id s hid hs
  · cases h

theorem asked_of_tokenTas (htok : ' ' ∉ tok) (h : tokenTas tok = some r) : AskedBy dev tok r := by
  have hcount : 2 ≤ (sscanf tasFormat tok).length := by
    simp only [tokenTas] at h
    split at h
    · assumption
    · cases h
  obtain ⟨id, s, rfl, hid⟩ := two_of_sscanf tasTag ":cycle=".toList .llong targetFormat htok hcount
  rw [tokenTas_entry hid] at h
  obtain ⟨⟨cycle, rest⟩, hscan, rfl⟩ := Option.map_eq_some_iff.mp h
  exact .tas id s rest cycle hid hscan

theorem asked_of_tokenQosShort (hp : qosShortTag.isPrefixOf tok = true)
    (h : tokenQosShort dev tok = some r) : AskedBy dev tok r := by
  obtain ⟨t, rfl⟩ := List.isPrefixOf_iff_prefix.mp hp
  rw [show qosShortTag ++ t = qosTag ++ ("p=".toList ++ t) from rfl] at h ⊢
  rw [tokenQosShort_eq] at h
  split at h
  · rename_i hns
    cases h
    exact .qosShort _ hns
  · cases h

/-- A word is read as a row exactly if it asks for it. -/
theorem restoreToken_iff (htok : ' ' ∉ tok) : restoreToken dev tok = some r ↔ AskedBy dev tok r := by
  refine ⟨fun h => ?_, restoreToken_of_asked⟩
  unfold restoreToken at h
  split at h
  · exact asked_of_tokenQosShort ‹_› h
  rename_i hshort
  split at h
  · exact asked_of_tokenQos htok hshort h
  split at h
  · exact asked_of_tokenVlan htok h
  split at h
  · exact asked_of_tokenVmem htok h
  split at h
  · exact asked_of_tokenStream htok h
  split at h
  · exact asked_of_tokenStreammem htok h
  split at h
  · exact asked_of_tokenTas htok h
  split at h
  · exact asked_of_tokenGcl htok h
  · cases h

end Iff

/-- The rows that words ask for, in order. -/
inductive Asks (dev : Str) : List CStr → List RestoreRow → Prop
  | nil : Asks dev [] []
  | asked {w : CStr} {r : RestoreRow} {ws : List CStr} {rs : List RestoreRow}
      (h : AskedBy dev w r) (hrest : Asks dev ws rs) : Asks dev (w :: ws) (r :: rs)
  | skipped {w : CStr} {ws : List CStr} {rs : List RestoreRow}
      (h : ∀ r, ¬ AskedBy dev w r) (hrest : Asks dev ws rs) : Asks dev (w :: ws) rs

/-- The rows read are those that are asked for. -/
theorem asks_iff {dev : Str} {ws : List CStr} (hws : ∀ w ∈ ws, ' ' ∉ w) (rs : List RestoreRow) :
    Asks dev ws rs ↔ rs = ws.filterMap (restoreToken dev) := by
  induction ws generalizing rs with
  | nil =>
      constructor
      · rintro ⟨⟩
        rfl
      · rintro rfl
        exact .nil
  | cons w ws ih =>
      have hw : ' ' ∉ w := hws w List.mem_cons_self
      have ih := ih fun w hmem => hws w (List.mem_cons_of_mem _ hmem)
      constructor
      · intro h
        cases h with
        | asked h hrest => rw [List.filterMap_cons_some (restoreToken_of_asked h), ← (ih _).mp hrest]
        | skipped h hrest =>
            have hnone : restoreToken dev w = none := by
              rw [Option.eq_none_iff_forall_ne_some]
              exact fun r hr => h r ((restoreToken_iff hw).mp hr)
            rw [List.filterMap_cons_none hnone, ← (ih _).mp hrest]
      · rintro rfl
        cases hr : restoreToken dev w with
        | none =>
            rw [List.filterMap_cons_none hr]
            refine .skipped (fun r h => ?_) ((ih _).mpr rfl)
            rw [restoreToken_of_asked h] at hr
            cases hr
        | some r =>
            rw [List.filterMap_cons_some hr]
            exact .asked ((restoreToken_iff hw).mp hr) ((ih _).mpr rfl)

end Htsn
