import WirelessTsn.ConfigVersion.CutReading
import WirelessTsn.Lib.Run

/-!
A version is read back through a field of 4096 bytes, while the serializer
prints up to 64 KB. The restore loop sees the first 4095 bytes: later entries
are lost, and the one at the cut may be read as another row. The groups,
memberships and qos rows survive exactly when their entries end in time.
-/

namespace Htsn

open CText Keyed Run

section Field

/-- The rows that the words within the payload field are read as. -/
def fieldRows (db : Db) : List RestoreRow := readRows .empty ((serializeGlobal db).take 4095)

theorem admits_iff_of_evicts {a r : RestoreRow} (hr : r.Plain) (h : a = r ∨ a.Evicts r)
    (db : Db) : db.Admits a ↔ db.Accepts r := by
  cases r with
  | qos r =>
      rcases h with rfl | h
      · simp [Db.Admits, Db.Accepts, Sql.namesIndex]
      · cases a with
        | qos a =>
            have hkey : r.deviceId.chars = a.deviceId.chars := h
            simp [Db.Admits, Db.Accepts, Sql.namesIndex, hkey]
        | _ => exact absurd h id
  | vlanGroup r =>
      rcases h with rfl | h
      · simp [Db.Admits, Db.Accepts, Sql.namesIndex]
      · cases a with
        | vlanGroup a => simp [Db.Admits, Db.Accepts, Sql.namesIndex]
        | _ => exact absurd h id
  | vlanMember r =>
      rcases h with rfl | h
      · simp [Db.Admits, Db.Accepts, Sql.namesIndex]
      · cases a <;> exact absurd h id
  | _ => exact absurd hr id

theorem evicts_trans (a b c : RestoreRow) (hab : a.Evicts b) (hbc : b.Evicts c) :
    a.Evicts c := by
  cases b with
  | qos b =>
      cases a with
      | qos a =>
          cases c with
          | qos c => exact Eq.trans hbc hab
          | _ => exact hbc
      | _ => exact absurd hab id
  | vlanGroup b =>
      cases a with
      | vlanGroup a =>
          cases c with
          | vlanGroup c => exact Eq.trans hbc hab
          | _ => exact hbc
      | _ => exact absurd hab id
  | stream b =>
      cases a with
      | stream a =>
          cases c with
          | stream c => exact Eq.trans hbc hab
          | streamMember c => exact Eq.trans hbc hab
          | _ => exact hbc
      | _ => exact absurd hab id
  | tas b =>
      cases a with
      | tas a =>
          cases c with
          | tas c => exact Eq.trans hbc hab
          | gcl c => exact Eq.trans hbc hab
          | _ => exact hbc
      | _ => exact absurd hab id
  | _ => cases c <;> exact absurd hbc id

/-- After INSERTs into empty tables a plain row is there if its own was
accepted and none of the later ones replaced it. -/
theorem hasRow_insertRows_plain {db : Db} (h : db.Linked) (hempty : ∀ r, ¬ db.HasRow r)
    {r : RestoreRow} (hr : r.Plain) (rows : List RestoreRow) :
    (insertRows db rows).HasRow r ↔ db.Accepts r ∧ Survives RestoreRow.Evicts rows r := by
  induction rows using List.reverseRecOn with
  | nil => simp [insertRows, hempty r, Survives]
  | append_singleton rows a ih =>
      have hacc := accepts_congr (insertRows_devices db rows) r
      have hstep : insertRows db (rows ++ [a]) = (insertRows db rows).insertRow (a, true) :=
        insertRows_append db rows [a]
      rw [hstep, hasRow_insertRow (insertRows_linked h rows) (a, true) r, survives_concat, ih]
      constructor
      · rintro (⟨⟨-, hadm⟩, rfl⟩ | ⟨⟨hok, hsurv⟩, hkeep⟩)
        · exact ⟨hacc.mp hadm.accepts, Or.inl rfl⟩
        · refine ⟨hok, Or.inr ⟨hsurv, fun hev => hkeep ⟨⟨rfl, ?_⟩, hev⟩⟩⟩
          exact (admits_iff_of_evicts hr (Or.inr hev) _).mpr (hacc.mpr hok)
      · rintro ⟨hok, rfl | ⟨hsurv, hnot⟩⟩
        · exact Or.inl ⟨⟨rfl, (admits_iff_of_evicts hr (Or.inl rfl) _).mpr (hacc.mpr hok)⟩, rfl⟩
        · exact Or.inr ⟨⟨hok, hsurv⟩, fun hev => hnot hev.2⟩

end Field

section Sizes

/-- The columns of a group that are printed. -/
def VlanGroup.printed (g : VlanGroup) : Str × Int32 := (g.id, g.vlanId)

/-- The columns of a qos row that are printed. -/
def QosConfig.printed (q : QosConfig) : Str × Int32 × Int32 × Int32 × Int32 :=
  (q.deviceId, q.priority, q.bandwidthKbps, q.latencyMs, q.preemption)

/-- The same groups, memberships and qos rows, as far as they are printed. -/
def SameEntries (a b : Db) : Prop :=
  (∀ x, x ∈ a.vlanGroups.rows.map VlanGroup.printed ↔
    x ∈ b.vlanGroups.rows.map VlanGroup.printed) ∧
  (∀ m, m ∈ a.vlanMembers ↔ m ∈ b.vlanMembers) ∧
  (∀ x, x ∈ a.qosConfigs.rows.map QosConfig.printed ↔
    x ∈ b.qosConfigs.rows.map QosConfig.printed)

/-- The groups, memberships and qos rows as their entries record them. -/
def Db.HasEntry (db : Db) : RestoreRow → Prop
  | .vlanGroup g => ∃ g₀ ∈ db.vlanGroups.rows, g = g₀.reread
  | .vlanMember m => m ∈ db.vlanMembers
  | .qos q => ∃ q₀ ∈ db.qosConfigs.rows, q = q₀.reread
  | _ => False

theorem VlanGroup.eq_reread_iff (g g₀ : VlanGroup) :
    g = g₀.reread ↔ g.name = g.id ∧ g.printed = g₀.printed := by
  cases g
  cases g₀
  simp only [VlanGroup.reread, VlanGroup.printed, VlanGroup.mk.injEq, Prod.mk.injEq]
  constructor
  · rintro ⟨rfl, rfl, rfl⟩
    exact ⟨rfl, rfl, rfl⟩
  · rintro ⟨rfl, rfl, rfl⟩
    exact ⟨rfl, rfl, rfl⟩

theorem QosConfig.eq_reread_iff (q q₀ : QosConfig) :
    q = q₀.reread ↔ q.trafficClass = q.priority ∧ q.printed = q₀.printed := by
  cases q
  cases q₀
  simp only [QosConfig.reread, QosConfig.printed, QosConfig.mk.injEq, Prod.mk.injEq]
  constructor
  · rintro ⟨rfl, rfl, rfl, rfl, rfl, rfl⟩
    exact ⟨rfl, rfl, rfl, rfl, rfl, rfl⟩
  · rintro ⟨rfl, rfl, rfl, rfl, rfl, rfl⟩
    exact ⟨rfl, rfl, rfl, rfl, rfl, rfl⟩

theorem hasEntry_vlanGroup (db : Db) (g : VlanGroup) :
    db.HasEntry (.vlanGroup g) ↔
      g.name = g.id ∧ g.printed ∈ db.vlanGroups.rows.map VlanGroup.printed := by
  simp only [Db.HasEntry, VlanGroup.eq_reread_iff, List.mem_map]
  constructor
  · rintro ⟨g₀, hg₀, hname, heq⟩
    exact ⟨hname, g₀, hg₀, heq.symm⟩
  · rintro ⟨hname, g₀, hg₀, heq⟩
    exact ⟨g₀, hg₀, hname, heq.symm⟩

theorem hasEntry_qos (db : Db) (q : QosConfig) :
    db.HasEntry (.qos q) ↔
      q.trafficClass = q.priority ∧ q.printed ∈ db.qosConfigs.rows.map QosConfig.printed := by
  simp only [Db.HasEntry, QosConfig.eq_reread_iff, List.mem_map]
  constructor
  · rintro ⟨q₀, hq₀, hclass, heq⟩
    exact ⟨hclass, q₀, hq₀, heq.symm⟩
  · rintro ⟨hclass, q₀, hq₀, heq⟩
    exact ⟨q₀, hq₀, hclass, heq.symm⟩

theorem sameEntries_iff_hasEntry (a b : Db) :
    SameEntries a b ↔ ∀ r, a.HasEntry r ↔ b.HasEntry r := by
  constructor
  · rintro ⟨hgroups, hmembers, hqos⟩ r
    cases r with
    | vlanGroup g => rw [hasEntry_vlanGroup, hasEntry_vlanGroup, hgroups]
    | vlanMember m => exact hmembers m
    | qos q => rw [hasEntry_qos, hasEntry_qos, hqos]
    | _ => exact Iff.rfl
  · intro h
    refine ⟨fun x => ?_, fun m => h (.vlanMember m), fun x => ?_⟩
    · have hx := h (.vlanGroup ⟨x.1, x.1, x.2⟩)
      rw [hasEntry_vlanGroup, hasEntry_vlanGroup, and_iff_right rfl, and_iff_right rfl] at hx
      exact hx
    · obtain ⟨dev, p, bw, lat, pre⟩ := x
      have hx := h (.qos ⟨dev, p, p, bw, lat, pre⟩)
      rw [hasEntry_qos, hasEntry_qos, and_iff_right rfl, and_iff_right rfl] at hx
      exact hx

theorem hasEntry_plain {db : Db} {r : RestoreRow} (h : db.HasEntry r) : r.Plain := by
  cases r with
  | vlanGroup g => trivial
  | vlanMember m => trivial
  | qos q => trivial
  | _ => exact h

theorem hasEntry_accepts {db : Db} (hdb : db.Constraints) {r : RestoreRow} (h : db.HasEntry r) :
    db.Accepts r := by
  cases r with
  | qos q =>
      obtain ⟨q₀, hq₀, rfl⟩ := h
      exact hdb.qos q₀ hq₀
  | stream s => exact absurd h id
  | _ => trivial

/-- Entries with the same key are the same. -/
theorem hasEntry_unique {db : Db} {a r : RestoreRow} (ha : db.HasEntry a) (hr : db.HasEntry r)
    (h : a.Evicts r) : a = r := by
  cases r with
  | vlanGroup g =>
      cases a with
      | vlanGroup a =>
          obtain ⟨g₀, hg₀, rfl⟩ := hr
          obtain ⟨a₀, ha₀, rfl⟩ := ha
          rw [eq_of_key_eq db.vlanGroups.pk hg₀ ha₀ h]
      | _ => exact absurd h id
  | qos q =>
      cases a with
      | qos a =>
          obtain ⟨q₀, hq₀, rfl⟩ := hr
          obtain ⟨a₀, ha₀, rfl⟩ := ha
          rw [eq_of_key_eq db.qosConfigs.pk hq₀ ha₀ h]
      | _ => exact absurd h id
  | vlanMember m => cases a <;> exact absurd h id
  | _ => exact absurd hr id

theorem plain_of_evicts {a r : RestoreRow} (hr : r.Plain) (h : a.Evicts r) : a.Plain := by
  cases r with
  | vlanGroup g => cases a <;> trivial
  | qos q => cases a <;> trivial
  | vlanMember m => cases a <;> exact absurd h id
  | _ => exact absurd hr id

/-- The entries of tables whose rows all have the shape of restored rows. -/
theorem hasEntry_iff_hasRow {db : Db} (hshaped : ∀ r, db.HasRow r → r.Shaped) (r : RestoreRow) :
    db.HasEntry r ↔ r.Plain ∧ db.HasRow r := by
  cases r with
  | vlanGroup g =>
      constructor
      · rintro ⟨g₀, hg₀, rfl⟩
        have hself := VlanGroup.reread_eq (hshaped (.vlanGroup g₀) hg₀).1
        exact ⟨trivial, hself.symm ▸ hg₀⟩
      · rintro ⟨-, hg⟩
        exact ⟨g, hg, (VlanGroup.reread_eq (hshaped (.vlanGroup g) hg).1).symm⟩
  | qos q =>
      constructor
      · rintro ⟨q₀, hq₀, rfl⟩
        have hself := QosConfig.reread_eq (hshaped (.qos q₀) hq₀).1
        exact ⟨trivial, hself.symm ▸ hq₀⟩
      · rintro ⟨-, hq⟩
        exact ⟨q, hq, (QosConfig.reread_eq (hshaped (.qos q) hq).1).symm⟩
  | vlanMember m => exact (and_iff_right trivial).symm
  | _ => exact ⟨fun h => absurd h id, fun h => absurd h.1 id⟩

/-- After the rollback of a global snapshot its entries are there and no others
if and only if the words of the payload field are read as each of them, and as no
other group, membership or qos row of a known device that lasts. -/
theorem sameEntries_iff_fieldRows {db later : Db} {now : Int64} {name : CStr} {scope : Option CStr}
    (hscope : scope.getD [] = []) (hdb : db.Constraints)
    (hedit : EditedSince (cfgVerSnapshot true db now name scope).2 later) :
    SameEntries (cfgVerRollback .healthy later (nextVersionId db)).2 db ↔
      (∀ r, db.HasEntry r → r ∈ fieldRows db) ∧
        ∀ r, r.Plain → db.Accepts r → Survives RestoreRow.Evicts (fieldRows db) r → db.HasEntry r := by
  have hdevices : (wipe later .empty).devices = db.devices :=
    hedit.devices.trans (cfgVerSnapshot_devices db now name scope)
  have hentries : ∀ r, (insertRows (wipe later .empty) (fieldRows db)).HasEntry r ↔
      r.Plain ∧ db.Accepts r ∧ Survives RestoreRow.Evicts (fieldRows db) r := by
    intro r
    have hshaped : ∀ r, (insertRows (wipe later .empty) (fieldRows db)).HasRow r → r.Shaped :=
      fun r hr => shaped_of_hasRow hr
    rw [hasEntry_iff_hasRow hshaped]
    apply and_congr_right
    intro hr
    rw [hasRow_insertRows_plain (wipe_global_linked later) (not_hasRow_wipe_global later) hr,
      accepts_congr hdevices r]
  rw [cfgVerRollback_global hscope hedit, sameEntries_iff_hasEntry]
  change (∀ r, (insertRows (wipe later .empty) (fieldRows db)).HasEntry r ↔ _) ↔ _
  simp only [hentries]
  constructor
  · intro h
    exact ⟨fun r hr => ((h r).mpr hr).2.2.mem, fun r hr hacc hsurv => (h r).mp ⟨hr, hacc, hsurv⟩⟩
  · rintro ⟨hkept, hheld⟩ r
    constructor
    · rintro ⟨hr, hacc, hsurv⟩
      exact hheld r hr hacc hsurv
    · intro hr
      have hplain := hasEntry_plain hr
      have hacc := hasEntry_accepts hdb hr
      -- The last word with the key of `r` has an entry too, which is then that of `r`.
      obtain ⟨a, hsurv, rfl | hev⟩ := exists_survives evicts_trans (hkept r hr)
      · exact ⟨hplain, hacc, hsurv⟩
      · have hadm := (admits_iff_of_evicts hplain (Or.inr hev) db).mpr hacc
        have ha := hheld a (plain_of_evicts hplain hev) hadm.accepts hsurv
        exact ⟨hplain, hacc, hasEntry_unique ha hr hev ▸ hsurv⟩

end Sizes

section Positions

/-- The bytes of a payload that a rollback reads. -/
def payloadField : Nat := 4095

/-- The entry stands whole within these bytes. -/
def EntryFits (db : Db) (l : List Field) : Prop :=
  ∃ front back, configLines db = front ++ l :: back ∧
    bytesAhead db front + (renderLine l).length ≤ payloadField

/-- The membership that these bytes spell: its entry stands there whole, or they
end inside the device id of an entry of the group, with the id of `m` left of
it. -/
def MemberSpelled (db : Db) (m : VlanMember) : Prop :=
  ∃ front dev back, configLines db = front ++ vmemLine m.groupId.chars dev :: back ∧
    (m.deviceId.chars = dev ∧
        bytesAhead db front + (renderLine (vmemLine m.groupId.chars dev)).length ≤ payloadField ∨
      m.deviceId.chars <+: dev ∧ m.deviceId.chars ≠ [] ∧
        bytesAhead db front + (renderLine (vmemLine m.groupId.chars m.deviceId.chars)).length =
          payloadField)

/-- Every group, membership and qos row has an id that is read back, and the
entry of every group and qos row ends in time. So do the memberships' entries,
or what is left of the one at the cut is a membership too. -/
structure EntriesFit (db : Db) : Prop where
  groups : ∀ g ∈ db.vlanGroups.rows, g.id.chars ≠ [] ∧ 0 < g.vlanId ∧
    EntryFits db (vlanLine g.id.chars g.vlanId)
  memberIds : ∀ m ∈ db.vlanMembers, m.groupId.chars ≠ [] ∧ m.deviceId.chars ≠ []
  members : ∀ m, MemberSpelled db m ↔ m ∈ db.vlanMembers
  qos : ∀ q ∈ db.qosConfigs.rows, q.deviceId.chars ≠ [] ∧ ¬ "p=".toList <+: q.deviceId.chars ∧
    EntryFits db (qosLine q.deviceId.chars q)

variable {db : Db}

theorem fieldRows_eq (db : Db) :
    fieldRows db = readRows .empty ((linesText (globalLines db)).take payloadField) := by
  rw [fieldRows, serializeGlobal, printLines_eq, List.take_take]
  rfl

/-- The id of an entry. -/
def entryId (l : List Field) : CStr :=
  match l with
  | _ :: .word s :: _ => s
  | _ => []

theorem not_mem_streamLines {l : List Field} (hstream : ∀ r, l ≠ streamLine r)
    (hmember : ∀ sid d, l ≠ streammemLine sid d) (s : Stream) : l ∉ streamLines s := by
  intro hl
  rcases List.mem_cons.mp hl with hl | hl
  · exact hstream _ hl
  · rcases List.mem_append.mp hl with hl | hl
    · obtain ⟨d, -, hd⟩ := List.mem_map.mp hl
      exact hmember _ _ hd.symm
    · split at hl
      · exact hmember _ _ (List.mem_singleton.mp hl)
      · cases hl

/-- An entry whose id no other of its block has, and of a kind that no other block
has, stands in one place. -/
theorem front_unique {pre block post : List (List Field)} (hids : (block.map entryId).Nodup)
    {l : List Field} (hpre : l ∉ pre) (hpost : l ∉ post) {front back front' back' : List (List Field)}
    (h : pre ++ block ++ post = front ++ l :: back) (h' : pre ++ block ++ post = front' ++ l :: back') :
    front = front' := by
  have hmem : l ∈ block := by
    have hall : l ∈ pre ++ block ++ post := by simp [h]
    simpa [hpre, hpost] using hall
  obtain ⟨as, bs, rfl⟩ := List.append_of_mem hmem
  have hnodup := hids.of_map
  have has : l ∉ as := fun hl => (List.nodup_append.mp hnodup).2.2 l hl l List.mem_cons_self rfl
  have hbs : l ∉ bs := (List.nodup_cons.mp (List.nodup_append.mp hnodup).2.1).1
  have hahead : l ∉ pre ++ as := by simp [hpre, has]
  have hbehind : l ∉ bs ++ post := by simp [hbs, hpost]
  have hsplit : pre ++ (as ++ l :: bs) ++ post = (pre ++ as) ++ l :: (bs ++ post) := by simp
  have hfront := ((List.append_cons_inj_of_notMem hahead hbehind).mp (hsplit.symm.trans h)).1
  have hfront' := ((List.append_cons_inj_of_notMem hahead hbehind).mp (hsplit.symm.trans h')).1
  exact hfront.symm.trans hfront'

variable {front back front' back' : List (List Field)}

/-- A group has one entry. -/
theorem vlanLine_unique {g : VlanGroup}
    (h : configLines db = front ++ vlanLine g.id.chars g.vlanId :: back)
    (h' : configLines db = front' ++ vlanLine g.id.chars g.vlanId :: back') : front = front' := by
  have hids : ((db.vlanGroups.rows.map fun g => vlanLine g.id.chars g.vlanId).map entryId).Nodup := by
    rw [List.map_map]
    exact db.vlanGroups.pk
  have hpost : vlanLine g.id.chars g.vlanId ∉
      db.vlanMembers.map (fun m => vmemLine m.groupId.chars m.deviceId.chars) ++
        ((db.tsnStreams.rows.map (streamOfRow db)).flatMap streamLines ++
          (db.qosConfigs.rows.map (fun q => qosLine q.deviceId.chars q) ++ [preLine])) := by
    simp only [List.mem_append, List.mem_map, List.mem_flatMap, List.mem_singleton, not_or]
    refine ⟨?_, ?_, ?_, ?_⟩
    · rintro ⟨m, -, hm⟩
      exact absurd (List.cons.inj hm).1 (by decide)
    · rintro ⟨s, -, hs⟩
      exact not_mem_streamLines (fun r hr => absurd (List.cons.inj hr).1 (by decide))
        (fun sid d hd => absurd (List.cons.inj hd).1 (by decide)) s hs
    · rintro ⟨q, -, hq⟩
      exact absurd (List.cons.inj hq).1 (by decide)
    · exact fun hpre => absurd (List.cons.inj hpre).1 (by decide)
  rw [configLines_eq] at h h'
  simp only [List.append_assoc] at h h'
  exact @front_unique [] _ _ hids _ List.not_mem_nil hpost _ _ _ _ h h'

/-- A qos row has one entry. -/
theorem qosLine_unique {q : QosConfig}
    (h : configLines db = front ++ qosLine q.deviceId.chars q :: back)
    (h' : configLines db = front' ++ qosLine q.deviceId.chars q :: back') : front = front' := by
  have hids : ((db.qosConfigs.rows.map fun q => qosLine q.deviceId.chars q).map entryId).Nodup := by
    rw [List.map_map]
    exact db.qosConfigs.pk
  have hpre : qosLine q.deviceId.chars q ∉
      db.vlanGroups.rows.map (fun g => vlanLine g.id.chars g.vlanId) ++
        db.vlanMembers.map (fun m => vmemLine m.groupId.chars m.deviceId.chars) ++
        (db.tsnStreams.rows.map (streamOfRow db)).flatMap streamLines := by
    simp only [List.mem_append, List.mem_map, List.mem_flatMap, not_or]
    refine ⟨⟨?_, ?_⟩, ?_⟩
    · rintro ⟨g, -, hg⟩
      exact absurd (List.cons.inj hg).1 (by decide)
    · rintro ⟨m, -, hm⟩
      exact absurd (List.cons.inj hm).1 (by decide)
    · rintro ⟨s, -, hs⟩
      exact not_mem_streamLines (fun r hr => absurd (List.cons.inj hr).1 (by decide))
        (fun sid d hd => absurd (List.cons.inj hd).1 (by decide)) s hs
  have hpost : qosLine q.deviceId.chars q ∉ [preLine] := by
    rw [List.mem_singleton]
    exact fun hpre => absurd (List.cons.inj hpre).1 (by decide)
  rw [configLines_eq] at h h'
  exact front_unique hids hpre hpost h h'

section Read

variable {front back : List (List Field)} {l : List Field} {p : CStr} {r : RestoreRow}

/-- An entry of which all or a beginning stands in the field is read there. -/
theorem mem_fieldRows_iff (hdb : db.Constraints) (hids : IdsDelimFree db) (hdomains : DomainsPlain db)
    (hr : r.Plain) :
    r ∈ fieldRows db ↔ ∃ front l back, configLines db = front ++ l :: back ∧
      bytesAhead db front < payloadField ∧
        restoreToken .empty ((renderLine l).take (payloadField - bytesAhead db front)) = some r := by
  rw [fieldRows_eq, mem_readRows_take_iff hdb hids hdomains hr]

/-- What is whole ends in time, and what is not is cut there. -/
theorem ends_of_take {n ahead : Nat} (hlt : ahead < n) (h : (renderLine l).take (n - ahead) = p) :
    (p = renderLine l ∧ ahead + (renderLine l).length ≤ n) ∨ ahead + p.length = n := by
  by_cases hle : (renderLine l).length ≤ n - ahead
  · rw [List.take_of_length_le hle] at h
    exact Or.inl ⟨h.symm, by omega⟩
  · have hlen := congrArg List.length h
    rw [List.length_take] at hlen
    exact Or.inr (by omega)

theorem fits_of_take {n ahead : Nat} (hlt : ahead < n)
    (h : (renderLine l).take (n - ahead) = renderLine l) : ahead + (renderLine l).length ≤ n := by
  have hlen := congrArg List.length h
  rw [List.length_take] at hlen
  omega

/-- An entry that fits is read whole. -/
theorem mem_fieldRows_of_fits (hdb : db.Constraints) (hids : IdsDelimFree db)
    (hdomains : DomainsPlain db) (hfits : EntryFits db l) (hne : renderLine l ≠ [])
    (h : restoreToken .empty (renderLine l) = some r) (hr : r.Plain) : r ∈ fieldRows db := by
  obtain ⟨front, back, hsplit, hend⟩ := hfits
  have hpos : 0 < (renderLine l).length := List.length_pos_of_ne_nil hne
  refine (mem_fieldRows_iff hdb hids hdomains hr).mpr ⟨front, l, back, hsplit, by omega, ?_⟩
  rw [List.take_of_length_le (by omega)]
  exact h

/-- The entry of which a row in the field is read. -/
theorem exists_entryRead (hdb : db.Constraints) (hids : IdsDelimFree db) (hdomains : DomainsPlain db)
    (hr : r.Plain) (h : r ∈ fieldRows db) :
    ∃ front l back, configLines db = front ++ l :: back ∧ bytesAhead db front < payloadField ∧
      restoreToken .empty ((renderLine l).take (payloadField - bytesAhead db front)) = some r ∧
        EntryRead db l ((renderLine l).take (payloadField - bytesAhead db front)) r := by
  obtain ⟨front, l, back, hsplit, hlt, htok⟩ := (mem_fieldRows_iff hdb hids hdomains hr).mp h
  have hl : l ∈ configLines db := by simp [hsplit]
  exact ⟨front, l, back, hsplit, hlt, htok,
    entryRead_of_plain hdb hids hl (List.take_prefix _ _) htok hr⟩

theorem shaped_of_mem_fieldRows (h : r ∈ fieldRows db) : r.Shaped := by
  obtain ⟨tok, -, htok⟩ := List.mem_filterMap.mp h
  exact restoreToken_shaped rfl htok

/-- The entry of a membership is that of a row. -/
theorem exists_member_of_vmemLine {g d : CStr} (h : vmemLine g d ∈ configLines db) :
    ∃ m ∈ db.vlanMembers, m.groupId.chars = g ∧ m.deviceId.chars = d := by
  rw [configLines_eq] at h
  simp only [List.mem_append, List.mem_map, List.mem_flatMap, List.mem_singleton] at h
  rcases h with (((⟨g, -, hg⟩ | ⟨m, hm, heq⟩) | ⟨s, -, hs⟩) | ⟨q, -, hq⟩) | hpre
  · exact absurd (List.cons.inj hg).1 (by decide)
  · simp only [vmemLine, List.cons.injEq, Field.word.injEq, true_and, and_true] at heq
    exact ⟨m, hm, heq⟩
  · exact absurd hs (not_mem_streamLines (fun r hr => absurd (List.cons.inj hr).1 (by decide))
      (fun sid d hd => absurd (List.cons.inj hd).1 (by decide)) s)
  · exact absurd (List.cons.inj hq).1 (by decide)
  · exact absurd (List.cons.inj hpre).1 (by decide)

/-- A membership that is spelled there is read. -/
theorem mem_fieldRows_of_spelled (hdb : db.Constraints) (hids : IdsDelimFree db)
    (hdomains : DomainsPlain db)
    (hne : ∀ m ∈ db.vlanMembers, m.groupId.chars ≠ [] ∧ m.deviceId.chars ≠ []) {m : VlanMember}
    (h : MemberSpelled db m) : .vlanMember m ∈ fieldRows db := by
  obtain ⟨front, dev, back, hsplit, hends⟩ := h
  obtain ⟨m₀, hm₀, hgroup, rfl⟩ := @exists_member_of_vmemLine db m.groupId.chars dev (by simp [hsplit])
  obtain ⟨hgne, hdne⟩ := hne m₀ hm₀
  obtain ⟨hgfree, hdfree⟩ := hids.members m₀ hm₀
  have hbegin : m.deviceId.chars <+: m₀.deviceId.chars :=
    hends.elim (fun h => h.1 ▸ List.prefix_refl _) fun h => h.1
  have hcarried : Carried m.deviceId.chars := by
    refine ⟨?_, fun hmem => hdfree.1 (hbegin.subset hmem), fun hmem => hdfree.2 (hbegin.subset hmem)⟩
    exact hends.elim (fun h => h.1 ▸ hdne) fun h => h.2.1
  have hread := restoreToken_vmemLine .empty m (hgroup ▸ ⟨hgne, hgfree⟩) hcarried
  have hline : renderLine (vmemLine m.groupId.chars m.deviceId.chars) <+:
      renderLine (vmemLine m.groupId.chars m₀.deviceId.chars) :=
    (renderLine_concat_isPrefix [.lit vmemTag, .word m.groupId.chars, .lit ":".toList]
      (a := .word m.deviceId.chars) (b := .word m₀.deviceId.chars)).mpr hbegin
  have hpos : 0 < (renderLine (vmemLine m.groupId.chars m.deviceId.chars)).length :=
    List.length_pos_of_ne_nil (List.cons_ne_nil _ _)
  refine (mem_fieldRows_iff hdb hids hdomains (show (RestoreRow.vlanMember m).Plain from trivial)).mpr
    ⟨front, _, back, hsplit, ?_, ?_⟩
  · rcases hends with ⟨hwhole, hend⟩ | ⟨-, -, hend⟩
    · rw [hwhole] at hpos
      omega
    · omega
  · have htake : (renderLine (vmemLine m.groupId.chars m₀.deviceId.chars)).take
        (payloadField - bytesAhead db front) =
          renderLine (vmemLine m.groupId.chars m.deviceId.chars) := by
      rcases hends with ⟨hwhole, hend⟩ | ⟨-, -, hend⟩
      · rw [List.take_of_length_le (by omega), hwhole]
      · rw [← hend, Nat.add_sub_cancel_left]
        exact (List.prefix_iff_eq_take.mp hline).symm
    rw [htake]
    exact hread

/-- What is read of a membership's entry is spelled there. -/
theorem spelled_of_read {m : VlanMember} {d : Str}
    (hsplit : configLines db = front ++ vmemLine m.groupId.chars m.deviceId.chars :: back)
    (hlt : bytesAhead db front < payloadField) (hd : d.chars ≠ [])
    (h : (renderLine (vmemLine m.groupId.chars m.deviceId.chars)).take
      (payloadField - bytesAhead db front) = renderLine (vmemLine m.groupId.chars d.chars)) :
    MemberSpelled db ⟨m.groupId, d⟩ := by
  have hline : renderLine (vmemLine m.groupId.chars d.chars) <+:
      renderLine (vmemLine m.groupId.chars m.deviceId.chars) := h ▸ List.take_prefix _ _
  have hbegin : d.chars <+: m.deviceId.chars :=
    (renderLine_concat_isPrefix [.lit vmemTag, .word m.groupId.chars, .lit ":".toList]
      (a := .word d.chars) (b := .word m.deviceId.chars)).mp hline
  refine ⟨front, m.deviceId.chars, back, hsplit, ?_⟩
  rcases ends_of_take hlt h with ⟨hwhole, hend⟩ | hend
  · have hlen : d.chars.length = m.deviceId.chars.length := by
      have hlen := congrArg List.length hwhole
      simpa [renderLine, vmemLine, Field.render] using hlen
    exact Or.inl ⟨hbegin.eq_of_length hlen, hend⟩
  · exact Or.inr ⟨hbegin, hd, hend⟩

end Read

theorem not_startsWithP {id : CStr} : startsWithP id = false ↔ ¬ "p=".toList <+: id := by
  rw [← Bool.not_eq_true, startsWithP, List.isPrefixOf_iff_prefix]

/-- A group that is read is read of its own entry, which so ends in time. -/
theorem entryFits_of_group_read (hdb : db.Constraints) (hids : IdsDelimFree db) (hdomains : DomainsPlain db)
    {g : VlanGroup} (hg : g ∈ db.vlanGroups.rows) (hmem : .vlanGroup g.reread ∈ fieldRows db) :
    EntryFits db (vlanLine g.id.chars g.vlanId) := by
  obtain ⟨front, l, back, hsplit, hlt, -, hread⟩ :=
    exists_entryRead hdb hids hdomains (hasEntry_plain (r := .vlanGroup g.reread) ⟨g, hg, rfl⟩) hmem
  generalize hp : (renderLine l).take (payloadField - bytesAhead db front) = p at hread
  generalize hr : RestoreRow.vlanGroup g.reread = r at hread
  cases hread with
  | vlan g' hg' v =>
      rw [RestoreRow.vlanGroup.injEq, VlanGroup.reread, VlanGroup.mk.injEq] at hr
      obtain ⟨hid, -, rfl⟩ := hr
      obtain rfl := eq_of_key_eq db.vlanGroups.pk hg hg' (congrArg Buf.chars hid)
      exact ⟨front, back, hsplit, fits_of_take hlt hp⟩
  | vmem m hm d => cases hr
  | qos q hq hstart pre => cases hr
  | qosShort q hq hstart p r => cases hr

theorem spelled_of_member_read (hdb : db.Constraints) (hids : IdsDelimFree db) (hdomains : DomainsPlain db)
    {m : VlanMember} (hd : m.deviceId.chars ≠ []) (hmem : .vlanMember m ∈ fieldRows db) :
    MemberSpelled db m := by
  obtain ⟨front, l, back, hsplit, hlt, -, hread⟩ :=
    exists_entryRead hdb hids hdomains (show (RestoreRow.vlanMember m).Plain from trivial) hmem
  generalize hp : (renderLine l).take (payloadField - bytesAhead db front) = p at hread
  generalize hr : RestoreRow.vlanMember m = r at hread
  cases hread with
  | vlan g hg v => cases hr
  | vmem m₀ hm₀ d =>
      obtain rfl := RestoreRow.vlanMember.inj hr
      exact spelled_of_read hsplit hlt hd hp
  | qos q hq hstart pre => cases hr
  | qosShort q hq hstart p r => cases hr

theorem entryFits_of_qos_read (hdb : db.Constraints) (hids : IdsDelimFree db) (hdomains : DomainsPlain db)
    (hstart : ∀ q ∈ db.qosConfigs.rows, startsWithP q.deviceId.chars = false) {q : QosConfig}
    (hq : q ∈ db.qosConfigs.rows) (hmem : .qos q.reread ∈ fieldRows db) :
    EntryFits db (qosLine q.deviceId.chars q) := by
  obtain ⟨front, l, back, hsplit, hlt, -, hread⟩ :=
    exists_entryRead hdb hids hdomains (hasEntry_plain (r := .qos q.reread) ⟨q, hq, rfl⟩) hmem
  generalize hp : (renderLine l).take (payloadField - bytesAhead db front) = p at hread
  generalize hr : RestoreRow.qos q.reread = r at hread
  cases hread with
  | vlan g hg v => cases hr
  | vmem m hm d => cases hr
  | qos q' hq' hstart' pre =>
      have hrow := RestoreRow.qos.inj hr
      obtain rfl := eq_of_key_eq db.qosConfigs.pk hq hq' (congrArg (fun q => q.deviceId.chars) hrow)
      have hpre : pre = q.preemption := (congrArg QosConfig.preemption hrow).symm
      subst hpre
      exact ⟨front, back, hsplit, fits_of_take hlt hp⟩
  | qosShort q' hq' hstart' p r => exact absurd ((hstart q' hq').symm.trans hstart') (by decide)

/-- When every entry is read and nothing else lasts, the entries end in time. -/
theorem entriesFit_of_fieldRows (hdb : db.Constraints) (hids : IdsDelimFree db)
    (hdomains : DomainsPlain db) (hkept : ∀ r, db.HasEntry r → r ∈ fieldRows db)
    (hheld : ∀ r, r.Plain → db.Accepts r → Survives RestoreRow.Evicts (fieldRows db) r →
      db.HasEntry r) : EntriesFit db := by
  have hmemberIds : ∀ m ∈ db.vlanMembers, m.groupId.chars ≠ [] ∧ m.deviceId.chars ≠ [] :=
    fun m hm => shaped_of_mem_fieldRows (hkept (.vlanMember m) hm)
  have hqosIds : ∀ q ∈ db.qosConfigs.rows, q.deviceId.chars ≠ [] ∧
      startsWithP q.deviceId.chars = false :=
    fun q hq => (shaped_of_mem_fieldRows (hkept (.qos q.reread) ⟨q, hq, rfl⟩)).2
  constructor
  · intro g hg
    have hmem := hkept (.vlanGroup g.reread) ⟨g, hg, rfl⟩
    obtain ⟨-, hne, hpos⟩ := shaped_of_mem_fieldRows hmem
    exact ⟨hne, hpos, entryFits_of_group_read hdb hids hdomains hg hmem⟩
  · exact hmemberIds
  · intro m
    constructor
    · intro hspelled
      have hmem := mem_fieldRows_of_spelled hdb hids hdomains hmemberIds hspelled
      obtain ⟨a, hsurv, rfl | hev⟩ := exists_survives evicts_trans hmem
      · exact hheld (.vlanMember m) trivial trivial hsurv
      · cases a <;> exact absurd hev id
    · exact fun hm => spelled_of_member_read hdb hids hdomains (hmemberIds m hm).2 (hkept (.vlanMember m) hm)
  · intro q hq
    obtain ⟨hne, hstart⟩ := hqosIds q hq
    exact ⟨hne, not_startsWithP.mp hstart,
      entryFits_of_qos_read hdb hids hdomains (fun q hq => (hqosIds q hq).2) hq
        (hkept (.qos q.reread) ⟨q, hq, rfl⟩)⟩

/-- When the entries end in time, every one of them is read and nothing else
lasts. -/
theorem fieldRows_of_entriesFit (hdb : db.Constraints) (hids : IdsDelimFree db)
    (hdomains : DomainsPlain db) (h : EntriesFit db) :
    (∀ r, db.HasEntry r → r ∈ fieldRows db) ∧
      ∀ r, r.Plain → db.Accepts r → Survives RestoreRow.Evicts (fieldRows db) r → db.HasEntry r := by
  have hqosFree : ∀ q ∈ db.qosConfigs.rows, DelimFree q.deviceId.chars := by
    intro q hq
    obtain ⟨d, hd, hkey⟩ := hdb.qos q hq
    exact hkey ▸ hids.devices d hd
  have hgroupRead : ∀ g ∈ db.vlanGroups.rows, restoreToken .empty
      (renderLine (vlanLine g.id.chars g.vlanId)) = some (.vlanGroup g.reread) := fun g hg =>
    restoreToken_vlanLine .empty g ⟨(h.groups g hg).1, hids.groups g hg⟩ (h.groups g hg).2.1
  have hqosRead : ∀ q ∈ db.qosConfigs.rows, restoreToken .empty
      (renderLine (qosLine q.deviceId.chars q)) = some (.qos q.reread) := fun q hq =>
    restoreToken_qosLine .empty q ⟨(h.qos q hq).1, hqosFree q hq⟩
      (not_startsWithP.mpr (h.qos q hq).2.1)
  constructor
  · intro r hr
    cases r with
    | vlanGroup g =>
        obtain ⟨g, hg, rfl⟩ := hr
        exact mem_fieldRows_of_fits hdb hids hdomains (h.groups g hg).2.2 (List.cons_ne_nil _ _)
          (hgroupRead g hg) trivial
    | vlanMember m =>
        exact mem_fieldRows_of_spelled hdb hids hdomains h.memberIds ((h.members m).mpr hr)
    | qos q =>
        obtain ⟨q, hq, rfl⟩ := hr
        exact mem_fieldRows_of_fits hdb hids hdomains (h.qos q hq).2.2 (List.cons_ne_nil _ _)
          (hqosRead q hq) trivial
    | _ => exact absurd hr id
  · intro r hr _ hsurv
    have hmem := hsurv.mem
    have hshaped := shaped_of_mem_fieldRows hmem
    obtain ⟨front, l, back, hsplit, hlt, htok, hread⟩ := exists_entryRead hdb hids hdomains hr hmem
    generalize hp : (renderLine l).take (payloadField - bytesAhead db front) = p at htok hread
    cases hread with
    | vlan g hg v =>
        -- the one entry of the group ends in time, so it is not cut
        obtain ⟨front', back', hsplit', hend⟩ := (h.groups g hg).2.2
        obtain rfl := vlanLine_unique hsplit hsplit'
        rw [List.take_of_length_le (by omega)] at hp
        rw [← hp, hgroupRead g hg, Option.some_inj] at htok
        exact ⟨g, hg, (RestoreRow.vlanGroup.inj htok).symm⟩
    | vmem m hm d => exact (h.members _).mp (spelled_of_read hsplit hlt hshaped.2 hp)
    | qos q hq hstart pre =>
        obtain ⟨front', back', hsplit', hend⟩ := (h.qos q hq).2.2
        obtain rfl := qosLine_unique hsplit hsplit'
        rw [List.take_of_length_le (by omega)] at hp
        rw [← hp, hqosRead q hq, Option.some_inj] at htok
        exact ⟨q, hq, (RestoreRow.qos.inj htok).symm⟩
    | qosShort q hq hstart p r =>
        exact absurd ((not_startsWithP.mpr (h.qos q hq).2.1).symm.trans hstart) (by decide)

/-- After the rollback of a global snapshot the groups, memberships and qos
rows are those of the snapshot exactly when their entries end within the first
4095 bytes. -/
theorem rollback_keeps_entries_iff (db later : Db) (now : Int64) (name : CStr)
    (scope : Option CStr) (hscope : scope.getD [] = []) (hdb : db.Constraints)
    (hids : IdsDelimFree db) (hdomains : DomainsPlain db)
    (hedit : EditedSince (cfgVerSnapshot true db now name scope).2 later) :
    SameEntries (cfgVerRollback .healthy later (nextVersionId db)).2 db ↔ EntriesFit db := by
  rw [sameEntries_iff_fieldRows hscope hdb hedit]
  constructor
  · rintro ⟨hkept, hheld⟩
    exact entriesFit_of_fieldRows hdb hids hdomains hkept hheld
  · exact fieldRows_of_entriesFit hdb hids hdomains

/-- An entry of a payload that fits the field fits it. -/
theorem entryFits_of_length_le {l : List Field} (hl : l ∈ configLines db)
    (hfits : (linesText (globalLines db)).length ≤ payloadField) : EntryFits db l := by
  obtain ⟨front, back, hsplit⟩ := List.append_of_mem hl
  refine ⟨front, back, hsplit, ?_⟩
  have hcons : linesText (l :: back) = renderLine l ++ ' ' :: linesText back := by simp [linesText]
  rw [globalLines, hsplit, ← List.append_assoc, linesText_append, hcons, List.length_append,
    List.length_append] at hfits
  rw [bytesAhead]
  omega

theorem entriesFit_of_length_le (hdb : db.Constraints) (h : Printable db)
    (hfits : (linesText (globalLines db)).length ≤ payloadField) : EntriesFit db := by
  have hread := h.readable hdb
  constructor
  · intro g hg
    refine ⟨(hread.groups g hg).1, (hread.groups g hg).2, entryFits_of_length_le ?_ hfits⟩
    rw [configLines_eq]
    simp only [List.mem_append]
    exact Or.inl (Or.inl (Or.inl (Or.inl (List.mem_map_of_mem hg))))
  · exact fun m hm => ⟨(h.members m hm).1.1, (h.members m hm).2.1⟩
  · intro m
    constructor
    · rintro ⟨front, dev, back, hsplit, hends⟩
      have hcons : linesText (vmemLine m.groupId.chars dev :: back) =
          renderLine (vmemLine m.groupId.chars dev) ++ ' ' :: linesText back := by simp [linesText]
      rw [globalLines, hsplit, ← List.append_assoc, linesText_append, hcons, List.length_append,
        List.length_append] at hfits
      have hdev : m.deviceId.chars = dev := by
        rcases hends with ⟨hwhole, -⟩ | ⟨hbegin, -, hend⟩
        · exact hwhole
        · apply hbegin.eq_of_length_le
          rw [bytesAhead] at hend
          simp only [renderLine, vmemLine, Field.render, List.flatMap_cons, List.length_append,
            List.flatMap_nil, List.append_nil, List.length_cons] at hend hfits
          omega
      obtain ⟨m₀, hm₀, hgroup, hdevice⟩ :=
        @exists_member_of_vmemLine db m.groupId.chars dev (by simp [hsplit])
      have hsame : m₀ = m := by
        obtain ⟨g₀, d₀⟩ := m₀
        obtain ⟨g, d⟩ := m
        exact congrArg₂ VlanMember.mk (Buf.ext hgroup) (Buf.ext (hdevice.trans hdev.symm))
      exact hsame ▸ hm₀
    · intro hm
      have hl : vmemLine m.groupId.chars m.deviceId.chars ∈ configLines db := by
        rw [configLines_eq]
        simp only [List.mem_append, List.mem_map]
        exact Or.inl (Or.inl (Or.inl (Or.inr ⟨m, hm, rfl⟩)))
      obtain ⟨front, back, hsplit, hend⟩ := entryFits_of_length_le hl hfits
      exact ⟨front, m.deviceId.chars, back, hsplit, Or.inl ⟨rfl, hend⟩⟩
  · intro q hq
    refine ⟨(hread.qos q hq).1, not_startsWithP.mp (hread.qos q hq).2, entryFits_of_length_le ?_ hfits⟩
    rw [configLines_eq]
    simp only [List.mem_append, List.mem_map]
    exact Or.inl (Or.inr ⟨q, hq, rfl⟩)

end Positions

section Snapshots

theorem rollback_keeps_labSnapshot_entries :
    SameEntries (cfgVerRollback .healthy labEdited 1).2 labSnapshot :=
  (rollback_keeps_entries_iff labSnapshot labEdited 0 "v1".toList none rfl labSnapshot_constraints
    labSnapshot_printable.idsDelimFree (by decide +kernel) labEdited_since).mpr
    (entriesFit_of_length_le labSnapshot_constraints labSnapshot_printable (by decide +kernel))

/-- Eight devices with long names, and a group whose entry ends at the 4096th
byte of the payload. -/
def fleetSnapshot : Db :=
  let device := fun (c : Char) (n : Nat) =>
    Device.ofId (c :: List.replicate 254 'x') (List.replicate n 'y')
  let db := "abcdefg".toList.foldl (fun db c => (dbDeviceUpsert db (device c 226)).2) .empty
  let db := (dbDeviceUpsert db (device 'h' 231)).2
  (dbVlanGroupSave db ⟨Buf.copy 256 "g1".toList, Buf.copy 256 "g1".toList, 100⟩).2

/-- The group comes back with a tenth of its VLAN id. -/
theorem rollback_cuts_vlan_id :
    ¬ ∀ (db later : Db) (now : Int64) (name : CStr) (scope : Option CStr),
      scope.getD [] = [] → db.Constraints → IdsDelimFree db →
      (linesText (globalLines db)).length < cfgPayloadMax →
      EditedSince (cfgVerSnapshot true db now name scope).2 later →
      SameEntries (cfgVerRollback .healthy later (nextVersionId db)).2 db := by
  intro hclaim
  have hsame := hclaim fleetSnapshot (cfgVerSnapshot true fleetSnapshot 0 [] none).2 0 [] none rfl
    ⟨by decide +kernel, by decide +kernel, by decide, by decide, by decide, by decide⟩
    ⟨by decide +kernel, by decide, by decide, by decide, by decide, by decide⟩
    (by decide +kernel) ⟨rfl, fun _ h => h⟩
  have hrows : (cfgVerRollback .healthy (cfgVerSnapshot true fleetSnapshot 0 [] none).2
      (nextVersionId fleetSnapshot)).2.vlanGroups.rows =
        [⟨Buf.copy 256 "g1".toList, Buf.copy 256 "g1".toList, 10⟩] := by decide +kernel
  have hgroup := (hsame.1 (Buf.copy 256 "g1".toList, 10)).mp (by rw [hrows]; decide)
  revert hgroup
  decide

end Snapshots

end Htsn
