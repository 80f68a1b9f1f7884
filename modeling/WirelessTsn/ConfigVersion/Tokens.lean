import WirelessTsn.ConfigVersion.Restore

/-!
Reading back what was printed. A token that a printed entry was cut to is
handled by the branch of its own kind; a whole entry with ids that the format
can carry is read as the row it was printed from, with the columns the entry
does not hold filled in from those it does.
-/

namespace Htsn

open CText Keyed

/-- The text contains neither of the characters that end a token or a field. -/
def DelimFree (s : CStr) : Prop := ' ' ∉ s ∧ ':' ∉ s

/-- An id that an entry carries. -/
def Carried (s : CStr) : Prop := s ≠ [] ∧ DelimFree s

instance (s : CStr) : Decidable (DelimFree s) :=
  inferInstanceAs (Decidable (' ' ∉ s ∧ ':' ∉ s))

instance (s : CStr) : Decidable (Carried s) :=
  inferInstanceAs (Decidable (s ≠ [] ∧ DelimFree s))

/-- A device id that the short form of a `qos:` token does not hide. -/
def startsWithP (s : CStr) : Bool := "p=".toList.isPrefixOf s

section Branches

/-- The branches of `restoreToken` with the words they begin with. -/
def branches (dev : Str) : List (CStr × (CStr → Option RestoreRow)) :=
  [(qosShortTag, tokenQosShort dev), (qosTag, tokenQos), (vlanTag, tokenVlan),
    (vmemTag, tokenVmem), (streamTag, tokenStream), (streammemTag, tokenStreammem),
    (tasTag, tokenTas), (gclTag, tokenGcl)]

private theorem find_bind_cons (tok : CStr) (b : CStr × (CStr → Option RestoreRow))
    (bs : List (CStr × (CStr → Option RestoreRow))) :
    (((b :: bs).find? fun b => b.1.isPrefixOf tok).bind fun b => b.2 tok) =
      if b.1.isPrefixOf tok = true then b.2 tok
      else (bs.find? fun b => b.1.isPrefixOf tok).bind fun b => b.2 tok := by
  rw [List.find?_cons]
  cases b.1.isPrefixOf tok <;> rfl

/-- The first branch whose tag begins the token is taken. -/
theorem restoreToken_eq_find (dev : Str) (tok : CStr) :
    restoreToken dev tok =
      ((branches dev).find? fun b => b.1.isPrefixOf tok).bind fun b => b.2 tok := by
  unfold branches
  simp only [find_bind_cons]
  rfl

def branchTags : List CStr :=
  [qosShortTag, qosTag, vlanTag, vmemTag, streamTag, streammemTag, tasTag, gclTag]

theorem branches_tags (dev : Str) : (branches dev).map Prod.fst = branchTags := rfl

theorem branchTags_nodup : branchTags.Nodup := by decide

/-- Two tags of which none begins the other. -/
def Apart (a b : CStr) : Bool := !a.isPrefixOf b && !b.isPrefixOf a

private theorem not_tag_of_apart {tag tag' p rest : CStr} (hp : p <+: tag ++ rest)
    (h : Apart tag' tag = true) : ¬ tag'.isPrefixOf p = true := by
  intro htag
  simp only [Apart, Bool.and_eq_true, Bool.not_eq_true'] at h
  have hline : tag' <+: tag ++ rest := (List.isPrefixOf_iff_prefix.mp htag).trans hp
  rcases List.prefix_or_prefix_of_prefix hline (List.prefix_append tag rest) with hle | hle
  · exact absurd (List.isPrefixOf_iff_prefix.mpr hle) (by simp [h.1])
  · exact absurd (List.isPrefixOf_iff_prefix.mpr hle) (by simp [h.2])

private theorem sscanf_eq_nil_of_not_tag {tag tok : CStr} (h : ¬ tag.isPrefixOf tok = true)
    (fs : List Conv) : sscanf (lits tag ++ fs) tok = [] := by
  apply sscanf_lits_of_not_isPrefix
  exact fun hpre => h (List.isPrefixOf_iff_prefix.mpr hpre)

variable {dev : Str} {p rest : CStr}

/-- A token that no other branch takes is read by its own, also when it was
cut inside the tag and its own branch reads nothing. -/
theorem restoreToken_branch {tag : CStr} {f : CStr → Option RestoreRow}
    (hmem : (tag, f) ∈ branches dev)
    (hother : ∀ b ∈ branches dev, b.1 ≠ tag → ¬ b.1.isPrefixOf p = true)
    (hnone : ¬ tag.isPrefixOf p = true → f p = none) : restoreToken dev p = f p := by
  rw [restoreToken_eq_find]
  cases hfind : (branches dev).find? fun b => b.1.isPrefixOf p with
  | none =>
      have htag := List.find?_eq_none.mp hfind (tag, f) hmem
      exact (hnone htag).symm
  | some b =>
      have hb := List.mem_of_find?_eq_some hfind
      have hpre := List.find?_some hfind
      have htag : b.1 = tag := by
        by_contra hne
        exact hother b hb hne hpre
      have heq : b = (tag, f) :=
        List.inj_on_of_nodup_map (branches_tags dev ▸ branchTags_nodup) hb hmem htag
      rw [heq]
      rfl

/-- The tags that do not begin with `qos:` are apart from all others. -/
private theorem hother_of_apart {tag : CStr} (hp : p <+: tag ++ rest)
    (htag : branchTags.all (fun t => t == tag || Apart t tag) = true) :
    ∀ b ∈ branches dev, b.1 ≠ tag → ¬ b.1.isPrefixOf p = true := by
  intro b hb hne
  have hmem : b.1 ∈ (branches dev).map Prod.fst := List.mem_map_of_mem hb
  have happ := List.all_eq_true.mp htag b.1 hmem
  rw [Bool.or_eq_true, beq_iff_eq] at happ
  exact not_tag_of_apart hp (happ.resolve_left hne)

/-- What is left of an entry is read by the branch of its kind or not at all. -/
theorem restoreToken_vlan {id : CStr} {v : Int32} (hp : p <+: renderLine (vlanLine id v)) :
    restoreToken dev p = tokenVlan p := by
  apply restoreToken_branch (List.mem_of_getElem? (i := 2) rfl)
    (@hother_of_apart dev p _ vlanTag hp (by decide))
  intro htag
  have hargs : sscanf vlanFormat p = [] := by
    simpa [vlanFormat] using sscanf_eq_nil_of_not_tag htag _
  simp [tokenVlan, hargs]

theorem restoreToken_vmem {g d : CStr} (hp : p <+: renderLine (vmemLine g d)) :
    restoreToken dev p = tokenVmem p := by
  apply restoreToken_branch (List.mem_of_getElem? (i := 3) rfl)
    (@hother_of_apart dev p _ vmemTag hp (by decide))
  intro htag
  have hargs : sscanf vmemFormat p = [] := by
    simpa [vmemFormat] using sscanf_eq_nil_of_not_tag htag _
  simp [tokenVmem, hargs]

theorem restoreToken_stream {r : StreamRow} (hp : p <+: renderLine (streamLine r)) :
    restoreToken dev p = tokenStream p := by
  apply restoreToken_branch (List.mem_of_getElem? (i := 4) rfl)
    (@hother_of_apart dev p _ streamTag hp (by decide))
  intro htag
  have hargs : sscanf streamFormat p = [] := by
    simpa [streamFormat] using sscanf_eq_nil_of_not_tag htag _
  simp [tokenStream, hargs]

theorem restoreToken_streammem {sid d : CStr} (hp : p <+: renderLine (streammemLine sid d)) :
    restoreToken dev p = tokenStreammem p := by
  apply restoreToken_branch (List.mem_of_getElem? (i := 5) rfl)
    (@hother_of_apart dev p _ streammemTag hp (by decide))
  intro htag
  have hargs : sscanf streammemFormat p = [] := by
    simpa [streammemFormat] using sscanf_eq_nil_of_not_tag htag _
  simp [tokenStreammem, hargs]

private theorem startsWithP_of_prefix {id rest : CStr} (h : "p=".toList <+: id ++ ':' :: rest) :
    startsWithP id = true := by
  have hlen : "p=".toList.length ≤ id.length := by
    match id, h with
    | [], h => exact absurd (List.cons_prefix_cons.mp h).1 (by decide)
    | [_], h => exact absurd (List.cons_prefix_cons.mp (List.cons_prefix_cons.mp h).2).1 (by decide)
    | _ :: _ :: _, _ => exact Nat.le_add_left 2 _
  exact List.isPrefixOf_iff_prefix.mpr
    (List.prefix_of_prefix_length_le h (List.prefix_append _ _) hlen)

/-- The long form needs a device id that does not look like the short one. -/
theorem restoreToken_qos {id : CStr} {q : QosConfig} (hid : startsWithP id = false)
    (hp : p <+: renderLine (qosLine id q)) : restoreToken dev p = tokenQos p := by
  have hshort : ¬ qosShortTag.isPrefixOf p = true := by
    intro htag
    have hline := (List.isPrefixOf_iff_prefix.mp htag).trans hp
    have hstart := startsWithP_of_prefix ((List.prefix_append_right_inj qosTag).mp hline)
    exact Bool.false_ne_true (hid.symm.trans hstart)
  have hother : ∀ b ∈ branches dev, b.1 ≠ qosTag → ¬ b.1.isPrefixOf p = true := by
    intro b hb hne
    by_cases hb' : b.1 = qosShortTag
    · rw [hb']
      exact hshort
    · have hmem : b.1 ∈ (branches dev).map Prod.fst := List.mem_map_of_mem hb
      have happ : ∀ t ∈ branchTags, t ≠ qosShortTag → t ≠ qosTag → Apart t qosTag = true := by
        decide
      exact not_tag_of_apart hp (happ b.1 hmem hb' hne)
  apply restoreToken_branch (List.mem_of_getElem? (i := 1) rfl) hother
  intro htag
  have hargs : sscanf qosFormat p = [] := by
    simpa [qosFormat] using sscanf_eq_nil_of_not_tag htag _
  simp [tokenQos, hargs]

/-- An entry that no branch knows. -/
theorem restoreToken_unknown {tag : CStr} (hp : p <+: tag ++ rest)
    (htag : branchTags.all (Apart · tag) = true) : restoreToken dev p = none := by
  have hfind : ((branches dev).find? fun b => b.1.isPrefixOf p) = none := by
    rw [List.find?_eq_none]
    intro b hb
    have hmem : b.1 ∈ (branches dev).map Prod.fst := List.mem_map_of_mem hb
    exact not_tag_of_apart hp (List.all_eq_true.mp htag b.1 hmem)
  rw [restoreToken_eq_find, hfind]
  rfl

end Branches

section Whole

theorem vlanLine_separated {id : CStr} (h : Carried id) (hlen : id.length ≤ 255) (v : Int32) :
    Separated 255 ':' (vlanLine id v) := by
  refine ⟨trivial, ⟨h.1, hlen, h.2.2, ?_⟩, trivial, ?_, trivial⟩
  all_goals
    intro c hc
    cases hc
  rfl

theorem vmemLine_separated {g d : CStr} (hg : Carried g) (hd : Carried d)
    (hglen : g.length ≤ 255) (hdlen : d.length ≤ 255) : Separated 255 ':' (vmemLine g d) := by
  refine ⟨trivial, ⟨hg.1, hglen, hg.2.2, ?_⟩, trivial, ⟨hd.1, hdlen, hd.2.2, ?_⟩, trivial⟩
  all_goals
    intro c hc
    cases hc
  rfl

theorem streammemLine_separated {g d : CStr} (hg : Carried g) (hd : Carried d)
    (hglen : g.length ≤ 255) (hdlen : d.length ≤ 255) :
    Separated 255 ':' (streammemLine g d) := by
  refine ⟨trivial, ⟨hg.1, hglen, hg.2.2, ?_⟩, trivial, ⟨hd.1, hdlen, hd.2.2, ?_⟩, trivial⟩
  all_goals
    intro c hc
    cases hc
  rfl

theorem streamLine_separated {r : StreamRow} (hid : Carried r.streamId.chars)
    (htalker : Carried r.talker.chars) : Separated 255 ':' (streamLine r) := by
  refine ⟨trivial, ⟨hid.1, Nat.le_of_lt_succ r.streamId.fits, hid.2.2, ?_⟩, trivial,
    ⟨htalker.1, Nat.le_of_lt_succ r.talker.fits, htalker.2.2, ?_⟩, trivial, ?_, trivial, ?_,
    trivial, ?_, trivial, ?_, trivial, ?_, trivial⟩
  all_goals
    intro c hc
    cases hc
  all_goals rfl

theorem qosLine_separated {id : CStr} (h : Carried id) (hlen : id.length ≤ 255) (q : QosConfig) :
    Separated 255 ':' (qosLine id q) := by
  refine ⟨trivial, ⟨h.1, hlen, h.2.2, ?_⟩, trivial, ?_, trivial, ?_, trivial, ?_, trivial, ?_,
    trivial⟩
  all_goals
    intro c hc
    cases hc
  all_goals rfl

/-- The rows as they come back: columns that are not printed are derived. -/
def VlanGroup.reread (g : VlanGroup) : VlanGroup := { g with name := g.id }

def QosConfig.reread (q : QosConfig) : QosConfig := { q with trafficClass := q.priority }

def StreamRow.reread (r : StreamRow) : StreamRow :=
  { r with name := r.streamId, dataFramePrio := r.priority, comment := .empty }

theorem QosConfig.reread_eq {q : QosConfig} (h : q.trafficClass = q.priority) :
    q.reread = q := by
  cases q
  cases h
  rfl

theorem VlanGroup.reread_eq {g : VlanGroup} (h : g.name = g.id) : g.reread = g := by
  cases g
  cases h
  rfl

theorem StreamRow.reread_eq {r : StreamRow} (hname : r.name = r.streamId)
    (hprio : r.dataFramePrio = r.priority) (hcomment : r.comment = .empty) : r.reread = r := by
  cases r
  cases hname
  cases hprio
  cases hcomment
  rfl

variable (dev : Str)

theorem restoreToken_vlanLine (g : VlanGroup) (hid : Carried g.id.chars) (hpos : 0 < g.vlanId) :
    restoreToken dev (renderLine (vlanLine g.id.chars g.vlanId)) =
      some (.vlanGroup g.reread) := by
  have hargs : sscanf vlanFormat (renderLine (vlanLine g.id.chars g.vlanId)) =
      [.text g.id.chars, .int g.vlanId] :=
    sscanf_renderLine _ (vlanLine_separated hid (Nat.le_of_lt_succ g.id.fits) g.vlanId)
  rw [restoreToken_vlan (List.prefix_refl _), tokenVlan, hargs]
  simp [argText, argInt, hid.1, hpos, VlanGroup.reread]

theorem restoreToken_vmemLine (m : VlanMember) (hg : Carried m.groupId.chars)
    (hd : Carried m.deviceId.chars) :
    restoreToken dev (renderLine (vmemLine m.groupId.chars m.deviceId.chars)) =
      some (.vlanMember m) := by
  have hargs : sscanf vmemFormat (renderLine (vmemLine m.groupId.chars m.deviceId.chars)) =
      [.text m.groupId.chars, .text m.deviceId.chars] :=
    sscanf_renderLine _ (vmemLine_separated hg hd (Nat.le_of_lt_succ m.groupId.fits)
      (Nat.le_of_lt_succ m.deviceId.fits))
  rw [restoreToken_vmem (List.prefix_refl _), tokenVmem, hargs]
  simp [argText]

theorem restoreToken_streammemLine (sid l : Str) (hs : Carried sid.chars) (hl : Carried l.chars) :
    restoreToken dev (renderLine (streammemLine sid.chars l.chars)) =
      some (.streamMember ⟨sid, .listener, l⟩) := by
  have hargs : sscanf streammemFormat (renderLine (streammemLine sid.chars l.chars)) =
      [.text sid.chars, .text l.chars] :=
    sscanf_renderLine _ (streammemLine_separated hs hl (Nat.le_of_lt_succ sid.fits)
      (Nat.le_of_lt_succ l.fits))
  rw [restoreToken_streammem (List.prefix_refl _), tokenStreammem, hargs]
  simp [argText]

theorem restoreToken_streamLine (r : StreamRow) (hid : Carried r.streamId.chars)
    (htalker : Carried r.talker.chars) :
    restoreToken dev (renderLine (streamLine r)) = some (.stream r.reread) := by
  have hargs : sscanf streamFormat (renderLine (streamLine r)) =
      [.text r.streamId.chars, .text r.talker.chars, .int r.vlanId, .int r.priority,
        .llong r.maxLatencyNs, .llong r.maxIntervalNs, .int r.status] :=
    sscanf_renderLine _ (streamLine_separated hid htalker)
  rw [restoreToken_stream (List.prefix_refl _), tokenStream, hargs]
  simp [argText, argInt, argLong, StreamRow.reread]

theorem restoreToken_qosLine (q : QosConfig) (hid : Carried q.deviceId.chars)
    (hp : startsWithP q.deviceId.chars = false) :
    restoreToken dev (renderLine (qosLine q.deviceId.chars q)) = some (.qos q.reread) := by
  have hargs : sscanf qosFormat (renderLine (qosLine q.deviceId.chars q)) =
      [.text q.deviceId.chars, .int q.priority, .int q.bandwidthKbps, .int q.latencyMs,
        .int q.preemption] :=
    sscanf_renderLine _ (qosLine_separated hid (Nat.le_of_lt_succ q.deviceId.fits) q)
  rw [restoreToken_qos hp (List.prefix_refl _), tokenQos, hargs]
  simp [argText, argInt, restoreQos, QosConfig.reread]

theorem restoreToken_preLine {p : CStr} (hp : p <+: renderLine preLine) :
    restoreToken dev p = none :=
  restoreToken_unknown (show p <+: preTag ++ _ from hp) rfl

end Whole

section Shape

/-- What every row read from a token of a global version looks like. -/
def RestoreRow.Shaped : RestoreRow → Prop
  | .qos q => q.trafficClass = q.priority ∧ q.deviceId.chars ≠ [] ∧
      startsWithP q.deviceId.chars = false
  | .vlanGroup g => g.name = g.id ∧ g.id.chars ≠ [] ∧ 0 < g.vlanId
  | .vlanMember m => m.groupId.chars ≠ [] ∧ m.deviceId.chars ≠ []
  | .stream r => r.name = r.streamId ∧ r.dataFramePrio = r.priority ∧ r.comment = .empty ∧
      r.streamId.chars ≠ [] ∧ r.talker.chars ≠ []
  | .streamMember m => m.role = .listener ∧ m.streamId.chars ≠ [] ∧ m.deviceId.chars ≠ []
  | .tas _ | .gcl _ => True

private theorem copy_ne_nil {w : CStr} (hne : w ≠ []) (hlen : w.length ≤ 255) :
    (Buf.copy 256 w).chars ≠ [] := by
  rw [Buf.copy_chars_of_lt (Nat.lt_succ_of_le hlen)]
  exact hne

theorem tokenQosShort_shaped {dev : Str} (hdev : dev.chars = []) {tok : CStr} {row : RestoreRow}
    (h : tokenQosShort dev tok = some row) : row.Shaped := by
  simp only [tokenQosShort] at h
  rw [if_pos hdev] at h
  split at h
  · cases h
    refine ⟨rfl, ?_, ?_⟩
    · exact show (Buf.copy 256 "default".toList).chars ≠ [] by decide
    · exact show startsWithP (Buf.copy 256 "default".toList).chars = false by decide
  · cases h

theorem tokenQos_shaped {tok : CStr} (hshort : ¬ qosShortTag.isPrefixOf tok = true)
    {row : RestoreRow} (h : tokenQos tok = some row) : row.Shaped := by
  simp only [tokenQos] at h
  split at h
  · rename_i hlen
    have hargs : sscanf qosFormat tok ≠ [] := by
      intro hnil
      simp [hnil] at hlen
    obtain ⟨word, rest, htok, hne, hle, -, hread⟩ :=
      sscanf_word_inv (show sscanf (lits qosTag ++ Conv.set 255 ':' :: _) tok ≠ [] from hargs)
    have harg : argText (sscanf qosFormat tok) 0 = word := by
      rw [show sscanf qosFormat tok = _ from hread]
      rfl
    cases h
    refine ⟨rfl, ?_, ?_⟩
    · rw [harg]
      exact copy_ne_nil hne hle
    · rw [harg, Buf.copy_chars_of_lt (Nat.lt_succ_of_le hle)]
      cases hp : startsWithP word with
      | false => rfl
      | true =>
          have hpre : qosShortTag <+: tok := by
            have hsplit : qosShortTag = qosTag ++ "p=".toList := rfl
            rw [htok, hsplit]
            obtain ⟨t, rfl⟩ := List.isPrefixOf_iff_prefix.mp hp
            exact ⟨t ++ rest, by simp only [List.append_assoc]⟩
          exact absurd (List.isPrefixOf_iff_prefix.mpr hpre) hshort
  · cases h

theorem tokenVlan_shaped {tok : CStr} {row : RestoreRow} (h : tokenVlan tok = some row) :
    row.Shaped := by
  simp only [tokenVlan] at h
  split at h
  · rename_i hcheck
    cases h
    exact ⟨rfl, hcheck.2.1, hcheck.2.2⟩
  · cases h

/-- Two words behind literal text. -/
private theorem two_words {l s : CStr} {d : Char} {l' : CStr} {fs : List Conv}
    (h : 2 ≤ (sscanf (lits l ++ Conv.set 255 d :: (lits l' ++ Conv.set 255 d :: fs)) s).length) :
    (Buf.copy 256 (argText (sscanf (lits l ++ Conv.set 255 d ::
      (lits l' ++ Conv.set 255 d :: fs)) s) 0)).chars ≠ [] ∧
    (Buf.copy 256 (argText (sscanf (lits l ++ Conv.set 255 d ::
      (lits l' ++ Conv.set 255 d :: fs)) s) 1)).chars ≠ [] := by
  have hne : sscanf (lits l ++ Conv.set 255 d :: (lits l' ++ Conv.set 255 d :: fs)) s ≠ [] := by
    intro hnil
    simp [hnil] at h
  obtain ⟨word, rest, -, hword, hle, -, hread⟩ := sscanf_word_inv hne
  rw [hread] at h ⊢
  have hne' : sscanf (lits l' ++ Conv.set 255 d :: fs) rest ≠ [] := by
    intro hnil
    simp [hnil] at h
  obtain ⟨word', rest', -, hword', hle', -, hread'⟩ := sscanf_word_inv hne'
  rw [hread']
  exact ⟨copy_ne_nil hword hle, copy_ne_nil hword' hle'⟩

theorem tokenVmem_shaped {tok : CStr} {row : RestoreRow} (h : tokenVmem tok = some row) :
    row.Shaped := by
  simp only [tokenVmem] at h
  split at h
  · rename_i hlen
    cases h
    exact @two_words vmemTag tok ':' _ [] hlen.ge
  · cases h

theorem tokenStreammem_shaped {tok : CStr} {row : RestoreRow}
    (h : tokenStreammem tok = some row) : row.Shaped := by
  simp only [tokenStreammem] at h
  split at h
  · rename_i hlen
    cases h
    exact ⟨rfl, @two_words streammemTag tok ':' _ [] hlen.ge⟩
  · cases h

theorem tokenStream_shaped {tok : CStr} {row : RestoreRow} (h : tokenStream tok = some row) :
    row.Shaped := by
  simp only [tokenStream] at h
  split at h
  · rename_i hlen
    cases h
    refine ⟨rfl, rfl, rfl, ?_⟩
    obtain ⟨fs, hfs⟩ : ∃ fs, streamFormat = lits streamTag ++ Conv.set 255 ':' ::
        (lits ":".toList ++ Conv.set 255 ':' :: fs) := ⟨_, rfl⟩
    simp only [hfs] at hlen ⊢
    exact two_words (by omega)
  · cases h

/-- Whatever the token is, the row read from it has the shape of its kind. -/
theorem restoreToken_shaped {dev : Str} (hdev : dev.chars = []) {tok : CStr} {row : RestoreRow}
    (h : restoreToken dev tok = some row) : row.Shaped := by
  unfold restoreToken at h
  split at h
  · exact tokenQosShort_shaped hdev h
  rename_i hshort
  split at h
  · exact tokenQos_shaped hshort h
  split at h
  · exact tokenVlan_shaped h
  split at h
  · exact tokenVmem_shaped h
  split at h
  · exact tokenStream_shaped h
  split at h
  · exact tokenStreammem_shaped h
  split at h
  · simp only [tokenTas] at h
    split at h
    · cases h
      trivial
    · cases h
  split at h
  · simp only [tokenGcl] at h
    split at h
    · cases h
      trivial
    · cases h
  · cases h

end Shape

section Cut

variable {p : CStr} {row : RestoreRow}

/-- What is left of a group's entry is at most a group of the same id. -/
theorem tokenVlan_cut {id : Str} {v : Int32} (hid : Carried id.chars)
    (hp : p <+: renderLine (vlanLine id.chars v)) (h : tokenVlan p = some row) :
    ∃ v', row = .vlanGroup ⟨id, id, v'⟩ ∧ p = renderLine (vlanLine id.chars v') := by
  simp only [tokenVlan] at h
  split at h
  · rename_i hcheck
    obtain ⟨v', rfl, hargs⟩ := @sscanf_cut_int 255 ':'
      [.lit vlanTag, .word id.chars, .lit ":".toList] v
      (vlanLine_separated hid (Nat.le_of_lt_succ id.fits) v) p hp hcheck.1.ge
    refine ⟨v', ?_, rfl⟩
    have hread : sscanf vlanFormat (renderLine (vlanLine id.chars v')) =
        [.text id.chars, .int v'] := hargs
    cases h
    rw [show renderLine ([Field.lit vlanTag, Field.word id.chars, Field.lit ":".toList] ++
      [Field.int v']) = renderLine (vlanLine id.chars v') from rfl, hread]
    simp [argText, argInt]
  · cases h

/-- What is left of a membership's entry is one of the same group. -/
theorem tokenVmem_cut {g d : Str} (hg : Carried g.chars) (hd : Carried d.chars)
    (hp : p <+: renderLine (vmemLine g.chars d.chars)) (h : tokenVmem p = some row) :
    ∃ d' : Str, row = .vlanMember ⟨g, d'⟩ ∧ p = renderLine (vmemLine g.chars d'.chars) := by
  simp only [tokenVmem] at h
  split at h
  · rename_i hlen
    obtain ⟨s', -, hpre, rfl, hargs⟩ := @sscanf_cut_word 255 ':'
      [.lit vmemTag, .word g.chars, .lit ":".toList] d.chars
      (vmemLine_separated hg hd (Nat.le_of_lt_succ g.fits) (Nat.le_of_lt_succ d.fits)) p hp
      hlen.ge
    have hcopy : (Buf.copy 256 s').chars = s' :=
      Buf.copy_chars_of_lt (lt_of_le_of_lt hpre.length_le d.fits)
    have hread : sscanf vmemFormat (renderLine (vmemLine g.chars s')) =
        [.text g.chars, .text s'] := hargs
    refine ⟨Buf.copy 256 s', ?_, by rw [hcopy]; rfl⟩
    cases h
    rw [show renderLine ([Field.lit vmemTag, Field.word g.chars, Field.lit ":".toList] ++
      [Field.word s']) = renderLine (vmemLine g.chars s') from rfl, hread]
    simp [argText]
  · cases h

/-- What is left of a qos entry differs in the last number only. -/
theorem tokenQos_cut {q : QosConfig} (hid : Carried q.deviceId.chars)
    (hp : p <+: renderLine (qosLine q.deviceId.chars q)) (h : tokenQos p = some row) :
    ∃ pre, row = .qos { q.reread with preemption := pre } ∧
      p = renderLine (qosLine q.deviceId.chars { q with preemption := pre }) := by
  simp only [tokenQos] at h
  split at h
  · rename_i hlen
    obtain ⟨pre, rfl, hargs⟩ := @sscanf_cut_int 255 ':'
      [.lit qosTag, .word q.deviceId.chars, .lit ":p=".toList, .int q.priority,
        .lit ":bw=".toList, .int q.bandwidthKbps, .lit ":lat=".toList, .int q.latencyMs,
        .lit ":pre=".toList] q.preemption
      (qosLine_separated hid (Nat.le_of_lt_succ q.deviceId.fits) q) p hp hlen.ge
    refine ⟨pre, ?_, rfl⟩
    have hread : sscanf qosFormat
        (renderLine (qosLine q.deviceId.chars { q with preemption := pre })) =
        [.text q.deviceId.chars, .int q.priority, .int q.bandwidthKbps, .int q.latencyMs,
          .int pre] := hargs
    cases h
    rw [show renderLine ([Field.lit qosTag, Field.word q.deviceId.chars, Field.lit ":p=".toList,
        Field.int q.priority, Field.lit ":bw=".toList, Field.int q.bandwidthKbps,
        Field.lit ":lat=".toList, Field.int q.latencyMs, Field.lit ":pre=".toList] ++
      [Field.int pre]) =
        renderLine (qosLine q.deviceId.chars { q with preemption := pre }) from rfl, hread]
    simp [argText, argInt, restoreQos, QosConfig.reread]
  · cases h

end Cut

end Htsn
