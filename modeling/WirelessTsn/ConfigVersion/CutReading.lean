import WirelessTsn.ConfigVersion.RoundTrip

/-!
What is read of a global payload of which only the first bytes are there. An
entry that begins within them is read as far as it stands there, and a cut
moves the last number or the last id of the entry it falls in and nothing
else.
-/

namespace Htsn

open CText Keyed

/-- A group, a membership or a qos row: whether its INSERT is accepted depends
on the devices alone. -/
def RestoreRow.Plain : RestoreRow → Prop
  | .qos _ | .vlanGroup _ | .vlanMember _ => True
  | _ => False

/-- The tags of the entries of these rows. -/
def plainTags : List CStr := [qosTag, vlanTag, vmemTag]

/-- No word of a device's entry begins like one of theirs. A domain that holds
blanks makes several words. -/
def DomainsPlain (db : Db) : Prop :=
  ∀ d ∈ dbDeviceForEach db, ∀ w ∈ strtok ' ' (renderLine (deviceLine d)), ∀ tag ∈ plainTags, ¬ tag <+: w

instance (db : Db) : Decidable (DomainsPlain db) :=
  inferInstanceAs (Decidable (∀ d ∈ dbDeviceForEach db, ∀ w ∈ strtok ' ' (renderLine (deviceLine d)),
    ∀ tag ∈ plainTags, ¬ tag <+: w))

/-- The bytes of the payload ahead of an entry that stands behind the devices
and the entries `front`. -/
def bytesAhead (db : Db) (front : List (List Field)) : Nat :=
  (linesText ((dbDeviceForEach db).map deviceLine ++ front)).length

section Words

theorem linesText_append (as bs : List (List Field)) :
    linesText (as ++ bs) = linesText as ++ linesText bs := by
  simp [linesText]

theorem linesText_length (ls : List (List Field)) :
    (linesText ls).length = ((ls.map renderLine).map fun t => t.length + 1).sum := by
  simp [linesText, List.length_flatMap]

/-- The words of entries and of what stands behind them. -/
theorem strtok_linesText_append (ls : List (List Field)) (s : CStr) :
    strtok ' ' (linesText ls ++ s) = strtok ' ' (linesText ls) ++ strtok ' ' s := by
  induction ls with
  | nil => rfl
  | cons l ls ih =>
      have hcons : linesText (l :: ls) = renderLine l ++ ' ' :: linesText ls := by
        simp [linesText]
      rw [hcons, List.append_assoc, List.cons_append, strtok_append_sep, strtok_append_sep, ih,
        List.append_assoc]

/-- Only a token with one of their tags is read as a plain row. -/
theorem tag_of_plain {dev : Str} {p : CStr} {r : RestoreRow} (h : restoreToken dev p = some r)
    (hr : r.Plain) : ∃ tag ∈ plainTags, tag <+: p := by
  unfold restoreToken at h
  split at h
  · rename_i htag
    refine ⟨qosTag, List.mem_cons_self, ?_⟩
    exact (List.prefix_append qosTag "p=".toList).trans (List.isPrefixOf_iff_prefix.mp htag)
  split at h
  · rename_i htag
    exact ⟨qosTag, by simp [plainTags], List.isPrefixOf_iff_prefix.mp htag⟩
  split at h
  · rename_i htag
    exact ⟨vlanTag, by simp [plainTags], List.isPrefixOf_iff_prefix.mp htag⟩
  split at h
  · rename_i htag
    exact ⟨vmemTag, by simp [plainTags], List.isPrefixOf_iff_prefix.mp htag⟩
  split at h
  · simp only [tokenStream] at h
    split at h
    · cases h
      exact absurd hr id
    · cases h
  split at h
  · simp only [tokenStreammem] at h
    split at h
    · cases h
      exact absurd hr id
    · cases h
  split at h
  · simp only [tokenTas] at h
    split at h
    · cases h
      exact absurd hr id
    · cases h
  split at h
  · simp only [tokenGcl] at h
    split at h
    · cases h
      exact absurd hr id
    · cases h
  · cases h

/-- The entries that begin within the first `n` bytes, as far as they stand
there. -/
theorem mem_strtok_take_linesText {ls : List (List Field)}
    (hls : ∀ l ∈ ls, Unbroken l ∧ renderLine l ≠ []) {n : Nat} {p : CStr} :
    p ∈ strtok ' ' ((linesText ls).take n) ↔ ∃ front l back, ls = front ++ l :: back ∧
      (linesText front).length < n ∧ p = (renderLine l).take (n - (linesText front).length) := by
  rw [linesText, strtok_take, mem_cutTokens_iff]
  · constructor
    · rintro ⟨front, t, back, hsplit, hlt, rfl⟩
      obtain ⟨front, rest, rfl, rfl, hrest⟩ := List.map_eq_append_iff.mp hsplit
      obtain ⟨l, back, rfl, rfl, rfl⟩ := List.map_eq_cons_iff.mp hrest
      rw [← linesText_length] at hlt ⊢
      exact ⟨front, l, back, rfl, hlt, rfl⟩
    · rintro ⟨front, l, back, rfl, hlt, rfl⟩
      rw [linesText_length] at hlt ⊢
      exact ⟨front.map renderLine, renderLine l, back.map renderLine, by simp, hlt, rfl⟩
  · intro t ht
    obtain ⟨l, hl, rfl⟩ := List.mem_map.mp ht
    exact ⟨(hls l hl).2, not_mem_renderLine (by decide) (by decide) (hls l hl).1⟩

/-- A plain row is read from what is left of an entry behind the devices. -/
theorem mem_readRows_take_iff {db : Db} (hdb : db.Constraints) (hids : IdsDelimFree db)
    (hdomains : DomainsPlain db) {r : RestoreRow} (hr : r.Plain) (n : Nat) :
    r ∈ readRows .empty ((linesText (globalLines db)).take n) ↔
      ∃ front l back, configLines db = front ++ l :: back ∧ bytesAhead db front < n ∧
        restoreToken .empty ((renderLine l).take (n - bytesAhead db front)) = some r := by
  have hdevices : ∀ p ∈ strtok ' ' ((linesText ((dbDeviceForEach db).map deviceLine)).take n),
      restoreToken .empty p ≠ some r := by
    intro p hp htok
    obtain ⟨w, hw, hpre⟩ := exists_isPrefix_of_mem_strtok_take hp
    rw [strtok_linesText, List.mem_flatMap] at hw
    obtain ⟨l, hl, hw⟩ := hw
    obtain ⟨d, hd, rfl⟩ := List.mem_map.mp hl
    obtain ⟨tag, htag, hstart⟩ := tag_of_plain htok hr
    exact hdomains d hd w hw tag htag (hstart.trans hpre)
  have hahead : ∀ front, bytesAhead db front =
      (linesText ((dbDeviceForEach db).map deviceLine)).length + (linesText front).length := by
    intro front
    rw [bytesAhead, linesText_append, List.length_append]
  have hconfig := @mem_strtok_take_linesText _ (configLines_unbroken hdb hids)
    (n - (linesText ((dbDeviceForEach db).map deviceLine)).length)
  have hwords : ∀ p, p ∈ strtok ' ' ((linesText (globalLines db)).take n) ↔
      p ∈ strtok ' ' ((linesText ((dbDeviceForEach db).map deviceLine)).take n) ∨
        p ∈ strtok ' ' ((linesText (configLines db)).take
          (n - (linesText ((dbDeviceForEach db).map deviceLine)).length)) := by
    intro p
    rw [globalLines, linesText_append, List.take_append]
    by_cases hle : (linesText ((dbDeviceForEach db).map deviceLine)).length ≤ n
    · rw [List.take_of_length_le hle, strtok_linesText_append, List.mem_append]
    · have hzero : n - (linesText ((dbDeviceForEach db).map deviceLine)).length = 0 := by omega
      rw [hzero, List.take_zero, List.append_nil]
      simp
  rw [readRows, List.mem_filterMap]
  constructor
  · rintro ⟨p, hp, htok⟩
    rcases (hwords p).mp hp with hp | hp
    · exact absurd htok (hdevices p hp)
    · obtain ⟨front, l, back, hsplit, hlt, rfl⟩ := hconfig.mp hp
      rw [Nat.sub_sub, ← hahead] at htok
      exact ⟨front, l, back, hsplit, by rw [hahead]; omega, htok⟩
  · rintro ⟨front, l, back, hsplit, hlt, htok⟩
    rw [hahead] at hlt
    refine ⟨_, (hwords _).mpr (Or.inr (hconfig.mpr ⟨front, l, back, hsplit, by omega, rfl⟩)), ?_⟩
    rw [Nat.sub_sub, ← hahead]
    exact htok

end Words

section Entries

/-- What is read of an entry when only `p` of it is there: the id and the
numbers ahead of the last field as they are, and of the last field what is
left. The entry of a device `p=..` is read as one without a device. -/
inductive EntryRead (db : Db) : List Field → CStr → RestoreRow → Prop
  | vlan (g : VlanGroup) (hg : g ∈ db.vlanGroups.rows) (v : Int32) :
      EntryRead db (vlanLine g.id.chars g.vlanId) (renderLine (vlanLine g.id.chars v))
        (.vlanGroup ⟨g.id, g.id, v⟩)
  | vmem (m : VlanMember) (hm : m ∈ db.vlanMembers) (d : Str) :
      EntryRead db (vmemLine m.groupId.chars m.deviceId.chars)
        (renderLine (vmemLine m.groupId.chars d.chars)) (.vlanMember ⟨m.groupId, d⟩)
  | qos (q : QosConfig) (hq : q ∈ db.qosConfigs.rows) (hstart : startsWithP q.deviceId.chars = false)
      (pre : Int32) :
      EntryRead db (qosLine q.deviceId.chars q)
        (renderLine (qosLine q.deviceId.chars { q with preemption := pre }))
        (.qos { q.reread with preemption := pre })
  | qosShort (q : QosConfig) (hq : q ∈ db.qosConfigs.rows) (hstart : startsWithP q.deviceId.chars = true)
      (p : CStr) (r : QosConfig) : EntryRead db (qosLine q.deviceId.chars q) p (.qos r)

variable {db : Db} {p : CStr} {r : RestoreRow}

/-- A word is read behind a tag only if the id there is not empty. -/
theorem id_ne_nil_of_read {tag id rest : CStr} {fs : List Conv} (hp : p <+: tag ++ (id ++ ':' :: rest))
    (h : sscanf (lits tag ++ .set 255 ':' :: fs) p ≠ []) : id ≠ [] := by
  rintro rfl
  obtain ⟨word, more, rfl, hne, -, hcolon, -⟩ := sscanf_word_inv h
  rw [List.append_assoc, List.prefix_append_right_inj] at hp
  cases word with
  | nil => exact hne rfl
  | cons c word =>
      obtain ⟨rfl, -⟩ := List.cons_prefix_cons.mp hp
      exact hcolon List.mem_cons_self

theorem entryRead_vlan {g : VlanGroup} (hg : g ∈ db.vlanGroups.rows) (hid : DelimFree g.id.chars)
    (hp : p <+: renderLine (vlanLine g.id.chars g.vlanId)) (h : restoreToken .empty p = some r) :
    EntryRead db (vlanLine g.id.chars g.vlanId) p r := by
  rw [restoreToken_vlan hp] at h
  have hargs : sscanf (lits vlanTag ++ .set 255 ':' :: (lits ":".toList ++ [Conv.int])) p ≠ [] := by
    intro hnil
    simp [tokenVlan, show sscanf vlanFormat p = [] from hnil] at h
  have hne : g.id.chars ≠ [] :=
    id_ne_nil_of_read (by simpa [renderLine, vlanLine, Field.render] using hp) hargs
  obtain ⟨v, rfl, rfl⟩ := tokenVlan_cut ⟨hne, hid⟩ hp h
  exact .vlan g hg v

/-- Without an id of the device nothing is read: of a longer one it would be
read whole. -/
theorem entryRead_vmem {m : VlanMember} (hm : m ∈ db.vlanMembers) (hg : DelimFree m.groupId.chars)
    (hd : DelimFree m.deviceId.chars)
    (hp : p <+: renderLine (vmemLine m.groupId.chars m.deviceId.chars))
    (h : restoreToken .empty p = some r) :
    EntryRead db (vmemLine m.groupId.chars m.deviceId.chars) p r := by
  rw [restoreToken_vmem hp] at h
  have hargs : sscanf (lits vmemTag ++ .set 255 ':' :: (lits ":".toList ++ [Conv.set 255 ':'])) p ≠ [] := by
    intro hnil
    simp [tokenVmem, show sscanf vmemFormat p = [] from hnil] at h
  have hgne : m.groupId.chars ≠ [] :=
    id_ne_nil_of_read (by simpa [renderLine, vmemLine, Field.render] using hp) hargs
  have hdne : m.deviceId.chars ≠ [] := by
    intro hnil
    have hlong : p <+: renderLine (vmemLine m.groupId.chars (Buf.copy 256 ['x'] : Str).chars) := by
      refine hp.trans ?_
      rw [hnil]
      exact (renderLine_concat_isPrefix [.lit vmemTag, .word m.groupId.chars, .lit ":".toList]
        (a := .word []) (b := .word ['x'])).mpr List.nil_prefix
    obtain ⟨d, rfl, rfl⟩ := tokenVmem_cut ⟨hgne, hg⟩ (show Carried ['x'] by decide) hlong h
    have hlen := hp.length_le
    rw [hnil] at hlen
    have hdnil : d.chars = [] := by simpa [renderLine, vmemLine, Field.render] using hlen
    exact (tokenVmem_shaped h).2 hdnil
  obtain ⟨d, rfl, rfl⟩ := tokenVmem_cut ⟨hgne, hg⟩ ⟨hdne, hd⟩ hp h
  exact .vmem m hm d

/-- Behind `qos:` stands a qos row or nothing that is read. -/
theorem qos_of_tag {dev : Str} (hp : qosTag <+: p) (h : restoreToken dev p = some r) :
    ∃ q, r = .qos q := by
  unfold restoreToken at h
  split at h
  · simp only [tokenQosShort] at h
    split at h
    · cases h
      exact ⟨_, rfl⟩
    · cases h
  rw [if_pos (List.isPrefixOf_iff_prefix.mpr hp)] at h
  simp only [tokenQos] at h
  split at h
  · cases h
    exact ⟨_, rfl⟩
  · cases h

theorem entryRead_qos {q : QosConfig} (hq : q ∈ db.qosConfigs.rows) (hid : DelimFree q.deviceId.chars)
    (hp : p <+: renderLine (qosLine q.deviceId.chars q)) (h : restoreToken .empty p = some r)
    (hr : r.Plain) : EntryRead db (qosLine q.deviceId.chars q) p r := by
  cases hstart : startsWithP q.deviceId.chars with
  | false =>
      rw [restoreToken_qos hstart hp] at h
      have hargs : sscanf (lits qosTag ++ .set 255 ':' :: (lits ":p=".toList ++ [Conv.int] ++
          lits ":bw=".toList ++ [Conv.int] ++ lits ":lat=".toList ++ [Conv.int] ++
          lits ":pre=".toList ++ [Conv.int])) p ≠ [] := by
        intro hnil
        simp [tokenQos, show sscanf qosFormat p = [] from hnil] at h
      have hne : q.deviceId.chars ≠ [] :=
        id_ne_nil_of_read (by simpa [renderLine, qosLine, Field.render] using hp) hargs
      obtain ⟨pre, rfl, rfl⟩ := tokenQos_cut ⟨hne, hid⟩ hp h
      exact .qos q hq hstart pre
  | true =>
      have htag : qosTag <+: p := by
        obtain ⟨tag, htag, t, rfl⟩ := tag_of_plain h hr
        simp only [plainTags, List.mem_cons, List.not_mem_nil, or_false] at htag
        rcases htag with rfl | rfl | rfl
        · exact List.prefix_append qosTag t
        · exact absurd (List.cons_prefix_cons.mp hp).1 (by decide)
        · exact absurd (List.cons_prefix_cons.mp hp).1 (by decide)
      obtain ⟨q', rfl⟩ := qos_of_tag htag h
      exact .qosShort q hq hstart p q'

/-- The entries of streams and the last one are read as no plain row. -/
theorem not_plain_of_streamLines {s : Stream} {l : List Field} (hl : l ∈ streamLines s)
    (hp : p <+: renderLine l) (h : restoreToken .empty p = some r) : ¬ r.Plain := by
  have hmember : ∀ sid d : CStr, p <+: renderLine (streammemLine sid d) → ¬ r.Plain := by
    intro sid d hp
    rw [restoreToken_streammem hp] at h
    simp only [tokenStreammem] at h
    split at h
    · cases h
      exact id
    · cases h
  rcases List.mem_cons.mp hl with rfl | hl
  · rw [restoreToken_stream hp] at h
    simp only [tokenStream] at h
    split at h
    · cases h
      exact id
    · cases h
  · rcases List.mem_append.mp hl with hl | hl
    · obtain ⟨d, -, rfl⟩ := List.mem_map.mp hl
      exact hmember _ _ hp
    · split at hl
      · rw [List.mem_singleton] at hl
        exact hmember _ _ (hl ▸ hp)
      · simp at hl

/-- Whatever is left of an entry, a plain row read from it is read so. -/
theorem entryRead_of_plain (hdb : db.Constraints) (hids : IdsDelimFree db) {l : List Field}
    (hl : l ∈ configLines db) (hp : p <+: renderLine l) (h : restoreToken .empty p = some r)
    (hr : r.Plain) : EntryRead db l p r := by
  rw [configLines_eq] at hl
  simp only [List.mem_append, List.mem_map, List.mem_flatMap, List.mem_singleton] at hl
  rcases hl with (((⟨g, hg, rfl⟩ | ⟨m, hm, rfl⟩) | ⟨s, -, hs⟩) | ⟨q, hq, rfl⟩) | rfl
  · exact entryRead_vlan hg (hids.groups g hg) hp h
  · exact entryRead_vmem hm (hids.members m hm).1 (hids.members m hm).2 hp h
  · exact absurd hr (not_plain_of_streamLines hs hp h)
  · obtain ⟨d, hd, hkey⟩ := hdb.qos q hq
    have hid : DelimFree q.deviceId.chars := hkey ▸ hids.devices d hd
    exact entryRead_qos hq hid hp h hr
  · rw [restoreToken_preLine .empty hp] at h
    cases h

end Entries

end Htsn
