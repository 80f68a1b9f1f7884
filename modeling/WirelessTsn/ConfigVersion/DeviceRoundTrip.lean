import WirelessTsn.ConfigVersion.DeviceScope

/-!
Rolling back a version of one device at once. With ids that hold no delimiter
and a payload that was not cut, the rows of the device come back from their
entries, but an entry does not carry all columns: the traffic class of a qos
row becomes its priority, a talker becomes a listener, a row with an empty id
is lost, and the qos entry of a device whose id begins with `p=` is read by
the pattern of the older form.
-/

namespace Htsn

open CText Keyed

/-- The three tables that a version of a device covers, up to row order. -/
structure SameDeviceTables (a b : Db) : Prop where
  qos : a.qosConfigs.rows.Perm b.qosConfigs.rows
  vlanMembers : a.vlanMembers.Perm b.vlanMembers
  streamMembers : a.tsnStreamMembers.Perm b.tsnStreamMembers

/-- The ids that the entries of a device carry hold no delimiter. -/
structure DeviceIdsDelimFree (db : Db) (dev : Str) : Prop where
  device : DelimFree dev.chars
  groups : ∀ m ∈ db.vlanMembers, m.deviceId.chars = dev.chars → DelimFree m.groupId.chars
  streams : ∀ m ∈ db.tsnStreamMembers, m.deviceId.chars = dev.chars → DelimFree m.streamId.chars

/-- The qos row that the older form reads from the entry of a device whose id
begins with `p=`: the number behind that, and nothing else. -/
def QosConfig.rereadShort (q : QosConfig) : Option QosConfig :=
  (scanInt (q.deviceId.chars.drop 2)).map fun p =>
    ⟨q.deviceId, toCInt p.1, toCInt p.1, 0, 0, 0⟩

/-- The qos row read back from its entry. -/
def QosConfig.readBack (q : QosConfig) : Option QosConfig :=
  if startsWithP q.deviceId.chars then q.rereadShort else some q.reread

/-- What is lost of a qos row is what it has anyway. -/
def QosConfig.Kept (q : QosConfig) : Prop :=
  if startsWithP q.deviceId.chars then q.rereadShort = some q else q.trafficClass = q.priority

instance (q : QosConfig) : Decidable q.Kept := inferInstanceAs (Decidable (ite _ _ _))

/-- The rows of a device that come back as they were. -/
structure KeptRows (db : Db) (dev : Str) : Prop where
  qos : ∀ q ∈ db.qosConfigs.rows, q.deviceId.chars = dev.chars → q.Kept
  vlanMembers : ∀ m ∈ db.vlanMembers, m.deviceId.chars = dev.chars → m.groupId.chars ≠ []
  streamMembers : ∀ m ∈ db.tsnStreamMembers, m.deviceId.chars = dev.chars →
    m.streamId.chars ≠ [] ∧ m.role = .listener

def StreamMember.listening (m : StreamMember) : StreamMember := { m with role := .listener }

section

variable {dev : Str} {db : Db}

theorem readBack_eq_some_iff (q : QosConfig) : q.readBack = some q ↔ q.Kept := by
  unfold QosConfig.readBack QosConfig.Kept
  split
  · rfl
  · rw [Option.some_inj]
    constructor
    · intro h
      rw [← h]
      rfl
    · exact QosConfig.reread_eq

/-! ### Reading the entries -/

/-- The qos entry of a device whose id begins with `p=`. -/
theorem tokenQosShort_qosLine (hdev : dev.chars ≠ []) (hfree : DelimFree dev.chars) {q : QosConfig}
    (hq : q.deviceId = dev) (hp : startsWithP dev.chars = true) :
    tokenQosShort dev (renderLine (qosLine dev.chars q)) = q.rereadShort.map .qos := by
  obtain ⟨s, hs⟩ := List.isPrefixOf_iff_prefix.mp hp
  have hcolon : ':' ∉ s := by
    intro hmem
    apply hfree.2
    rw [← hs]
    exact List.mem_append_right _ hmem
  obtain ⟨rest, hline⟩ : ∃ rest,
      renderLine (qosLine dev.chars q) = qosShortTag ++ (s ++ ':' :: ('p' :: rest)) := by
    refine ⟨'=' :: renderLine ((qosLine dev.chars q).drop 3), ?_⟩
    rw [← hs]
    rfl
  have hdrop : q.deviceId.chars.drop 2 = s := by
    rw [hq, ← hs]
    rfl
  have hargs : sscanf qosShortFormat (renderLine (qosLine dev.chars q)) =
      match scanInt s with
      | none => []
      | some p => [.int (toCInt p.1)] := by
    have hformat : qosShortFormat = lits qosShortTag ++ Conv.int :: (lits ":bw=".toList ++
        (Conv.int :: (lits ":lat=".toList ++ (Conv.int :: (lits ":pre=".toList ++ [Conv.int]))))) := rfl
    rw [hline, hformat, sscanf_lits, sscanf, scanInt_before (by decide) (by decide) (by decide) (by decide)]
    cases hscan : scanInt s with
    | none => rfl
    | some p =>
        obtain ⟨v, left⟩ := p
        have hstop : ¬ ":bw=".toList <+: left ++ ':' :: ('p' :: rest) := by
          have hleft : ':' ∉ left := fun hmem => hcolon ((scanInt_suffix hscan).subset hmem)
          cases left with
          | nil => simp
          | cons x left =>
              intro hpre
              exact hleft ((List.cons_prefix_cons.mp hpre).1 ▸ List.mem_cons_self)
        show [Arg.int (toCInt v)] ++ sscanf _ _ = _
        rw [sscanf_lits_of_not_isPrefix hstop]
        rfl
  rw [tokenQosShort, hargs, QosConfig.rereadShort, hdrop, hq]
  cases scanInt s with
  | none => rfl
  | some p => simp [restoreQos, hdev, argInt]

theorem restoreToken_ownQos (hdev : Carried dev.chars) {q : QosConfig} (hq : q.deviceId = dev) :
    restoreToken dev (renderLine (qosLine dev.chars q)) = q.readBack.map .qos := by
  unfold QosConfig.readBack
  cases hp : startsWithP dev.chars with
  | true =>
      have hshort : qosShortTag.isPrefixOf (renderLine (qosLine dev.chars q)) = true := by
        obtain ⟨s, hs⟩ := List.isPrefixOf_iff_prefix.mp hp
        rw [← hs]
        exact List.isPrefixOf_iff_prefix.mpr ⟨s ++ renderLine ((qosLine dev.chars q).drop 2), rfl⟩
      rw [hq, hp, if_pos rfl, restoreToken, if_pos hshort]
      exact tokenQosShort_qosLine hdev.1 hdev.2 hq hp
  | false =>
      have hline := restoreToken_qosLine dev q (hq ▸ hdev) (hq ▸ hp)
      rw [hq] at hline
      rw [hq, hp, hline]
      rfl

theorem restoreToken_ownMember (hdev : Carried dev.chars) {m : VlanMember} (hm : m.deviceId = dev)
    (hfree : DelimFree m.groupId.chars) :
    restoreToken dev (renderLine (vmemLine m.groupId.chars dev.chars)) =
      if m.groupId.chars ≠ [] then some (.vlanMember m) else none := by
  by_cases hne : m.groupId.chars = []
  · rw [if_neg (not_not.mpr hne), restoreToken_vmem (List.prefix_refl _), hne]
    rfl
  · rw [if_pos hne, ← hm]
    exact restoreToken_vmemLine dev m ⟨hne, hfree⟩ (hm ▸ hdev)

theorem restoreToken_ownStreamMember (hdev : Carried dev.chars) {m : StreamMember} (hm : m.deviceId = dev)
    (hfree : DelimFree m.streamId.chars) :
    restoreToken dev (renderLine (streammemLine m.streamId.chars dev.chars)) =
      if m.streamId.chars ≠ [] then some (.streamMember m.listening) else none := by
  by_cases hne : m.streamId.chars = []
  · rw [if_neg (not_not.mpr hne), restoreToken_streammem (List.prefix_refl _), hne]
    rfl
  · rw [if_pos hne, ← hm]
    exact restoreToken_streammemLine dev m.streamId m.deviceId ⟨hne, hfree⟩ (hm ▸ hdev)

/-! The rows of a device. -/

def Db.qosOf (db : Db) (dev : Str) : List QosConfig :=
  db.qosConfigs.rows.filter fun q => q.deviceId.chars = dev.chars

def Db.membersOf (db : Db) (dev : Str) : List VlanMember :=
  db.vlanMembers.filter fun m => m.deviceId.chars = dev.chars

def Db.streamMembersOf (db : Db) (dev : Str) : List StreamMember :=
  db.tsnStreamMembers.filter fun m => m.deviceId.chars = dev.chars

/-- What the entries of a device are read as, table by table. -/
def qosReadBack (db : Db) (dev : Str) : List QosConfig := (db.qosOf dev).filterMap QosConfig.readBack

def membersReadBack (db : Db) (dev : Str) : List VlanMember :=
  (db.membersOf dev).filter fun m => m.groupId.chars ≠ []

def streamMembersReadBack (db : Db) (dev : Str) : List StreamMember :=
  ((db.streamMembersOf dev).filter fun m => m.streamId.chars ≠ []).map StreamMember.listening

/-- Entries that are one token each are read one by one. -/
theorem readRows_lines {α : Type} {f : α → List Field} {g : α → Option RestoreRow} (xs : List α)
    (hline : ∀ x ∈ xs, Unbroken (f x) ∧ renderLine (f x) ≠ [])
    (hread : ∀ x ∈ xs, restoreToken dev (renderLine (f x)) = g x) :
    readRows dev (linesText (xs.map f)) = xs.filterMap g := by
  have hlines : ∀ l ∈ xs.map f, Unbroken l ∧ renderLine l ≠ [] := by
    intro l hl
    obtain ⟨x, hx, rfl⟩ := List.mem_map.mp hl
    exact hline x hx
  rw [readRows, strtok_linesText_unbroken hlines, List.map_map, List.filterMap_map]
  exact List.filterMap_congr hread

theorem filterMap_ite {α β : Type} {p : α → Prop} [DecidablePred p] (f : α → β) (xs : List α) :
    (xs.filterMap fun x => if p x then some (f x) else none) = (xs.filter p).map f := by
  induction xs with
  | nil => rfl
  | cons x xs ih =>
      by_cases hx : p x
      · simp [hx, ih]
      · simp [hx, ih]

theorem deviceLines_eq (db : Db) (dev : Str) :
    deviceLines db dev.chars =
      (db.qosOf dev).map (qosLine dev.chars) ++
      (db.membersOf dev).map (fun m => vmemLine m.groupId.chars dev.chars) ++
      (db.streamMembersOf dev).map (fun m => streammemLine m.streamId.chars dev.chars) := by
  simp [deviceLines, Sql.namesIndex, Db.qosOf, Db.membersOf, Db.streamMembersOf]

theorem readRows_deviceLines (hdev : dev.chars ≠ []) (hids : DeviceIdsDelimFree db dev) :
    readRows dev (linesText (deviceLines db dev.chars)) =
      (qosReadBack db dev).map .qos ++ (membersReadBack db dev).map .vlanMember ++
        (streamMembersReadBack db dev).map .streamMember := by
  have hcarried : Carried dev.chars := ⟨hdev, hids.device⟩
  have hqos : readRows dev (linesText ((db.qosOf dev).map (qosLine dev.chars))) =
      (qosReadBack db dev).map .qos := by
    rw [qosReadBack, List.map_filterMap]
    refine readRows_lines _ (fun q _ => ⟨qosLine_unbroken hids.device q, List.cons_ne_nil _ _⟩) fun q hq => ?_
    have hq' := of_decide_eq_true (List.mem_filter.mp hq).2
    exact restoreToken_ownQos hcarried (Buf.ext hq')
  have hmembers : readRows dev (linesText ((db.membersOf dev).map fun m =>
      vmemLine m.groupId.chars dev.chars)) = (membersReadBack db dev).map .vlanMember := by
    rw [membersReadBack, ← filterMap_ite]
    have hown : ∀ m ∈ db.membersOf dev, m.deviceId.chars = dev.chars ∧ DelimFree m.groupId.chars := by
      intro m hm
      obtain ⟨hmem, hm'⟩ := List.mem_filter.mp hm
      exact ⟨of_decide_eq_true hm', hids.groups m hmem (of_decide_eq_true hm')⟩
    refine readRows_lines _ (fun m hm => ?_) fun m hm => ?_
    · exact ⟨vmemLine_unbroken (hown m hm).2 hids.device, List.cons_ne_nil _ _⟩
    · exact restoreToken_ownMember hcarried (Buf.ext (hown m hm).1) (hown m hm).2
  have hstreams : readRows dev (linesText ((db.streamMembersOf dev).map fun m =>
      streammemLine m.streamId.chars dev.chars)) = (streamMembersReadBack db dev).map .streamMember := by
    rw [streamMembersReadBack, List.map_map, ← filterMap_ite]
    have hown : ∀ m ∈ db.streamMembersOf dev, m.deviceId.chars = dev.chars ∧ DelimFree m.streamId.chars := by
      intro m hm
      obtain ⟨hmem, hm'⟩ := List.mem_filter.mp hm
      exact ⟨of_decide_eq_true hm', hids.streams m hmem (of_decide_eq_true hm')⟩
    refine readRows_lines _ (fun m hm => ?_) fun m hm => ?_
    · exact ⟨streammemLine_unbroken (hown m hm).2 hids.device, List.cons_ne_nil _ _⟩
    · exact restoreToken_ownStreamMember hcarried (Buf.ext (hown m hm).1) (hown m hm).2
  rw [deviceLines_eq, readRows_linesText_append, readRows_linesText_append, hqos, hmembers, hstreams]

/-! ### The tables after the rollback -/

theorem serializeDevice_of_length_le (hfits : (serializeDevice db dev.chars).length ≤ 4095) :
    (serializeDevice db dev.chars).take 4095 = linesText (deviceLines db dev.chars) := by
  rw [List.take_of_length_le hfits, serializeDevice, printLines_eq]
  rw [serializeDevice, printLines_eq, List.length_take] at hfits
  apply List.take_of_length_le
  unfold cfgPayloadMax at hfits ⊢
  omega

theorem mem_qosReadBack {q : QosConfig} (h : q ∈ qosReadBack db dev) :
    q.deviceId.chars = dev.chars ∧ db.qosConfigs.Has dev.chars := by
  obtain ⟨q', hq', hread⟩ := List.mem_filterMap.mp h
  obtain ⟨hmem, hdev⟩ := List.mem_filter.mp hq'
  have hdev' := of_decide_eq_true hdev
  refine ⟨?_, q', hmem, hdev'⟩
  unfold QosConfig.readBack at hread
  split at hread
  · obtain ⟨p, -, rfl⟩ := Option.map_eq_some_iff.mp hread
    exact hdev'
  · rw [Option.some_inj] at hread
    rw [← hread]
    exact hdev'

/-- At most one qos row comes back. -/
theorem qosReadBack_cases (db : Db) (dev : Str) :
    (db.qosOf dev = [] ∧ qosReadBack db dev = []) ∨
      ∃ q, db.qosOf dev = [q] ∧ qosReadBack db dev = q.readBack.toList := by
  have hfind : db.qosOf dev = (db.qosConfigs.find dev.chars).toList := filter_key_eq db.qosConfigs.pk
  rw [qosReadBack, hfind]
  cases db.qosConfigs.find dev.chars with
  | none => exact Or.inl ⟨rfl, rfl⟩
  | some q =>
      refine Or.inr ⟨q, rfl, ?_⟩
      show [q].filterMap _ = _
      cases hread : q.readBack <;> simp [hread]

/-- Ids without delimiters and a payload that is not cut confine a version. -/
theorem confined_of_delimFree (hdev : dev.chars ≠ []) (hids : DeviceIdsDelimFree db dev)
    (hfits : (serializeDevice db dev.chars).length ≤ 4095) :
    Confined dev ((serializeDevice db dev.chars).take 4095) := by
  intro row hrow
  rw [serializeDevice_of_length_le hfits, readRows_deviceLines hdev hids] at hrow
  rcases List.mem_append.mp hrow with hrow | hrow
  · rcases List.mem_append.mp hrow with hrow | hrow
    · obtain ⟨q, hq, rfl⟩ := List.mem_map.mp hrow
      exact Or.inl (congrArg some (mem_qosReadBack hq).1)
    · obtain ⟨m, hm, rfl⟩ := List.mem_map.mp hrow
      have hm' := (List.mem_filter.mp (List.mem_of_mem_filter hm)).2
      exact Or.inl (congrArg some (of_decide_eq_true hm'))
  · obtain ⟨m, hm, rfl⟩ := List.mem_map.mp hrow
    obtain ⟨m', hm', rfl⟩ := List.mem_map.mp hm
    have hown := (List.mem_filter.mp (List.mem_of_mem_filter hm')).2
    exact Or.inl (congrArg some (of_decide_eq_true hown))

/-- The qos rows after the wipe and the INSERTs. -/
theorem foldl_replace_qosReadBack (db : Db) (dev : Str) :
    ((qosReadBack db dev).foldl Table.replace
        (db.qosConfigs.deleteWhere fun q => decide (q.deviceId.chars = dev.chars))).rows =
      (db.qosConfigs.rows.filter fun q => !decide (q.deviceId.chars = dev.chars)) ++
        qosReadBack db dev := by
  have hshort : (qosReadBack db dev).length ≤ 1 := by
    rcases qosReadBack_cases db dev with ⟨-, hback⟩ | ⟨q, -, hback⟩
    · rw [hback]
      exact Nat.zero_le 1
    · rw [hback]
      cases q.readBack with
      | none => exact Nat.zero_le 1
      | some q' => exact Nat.le_refl 1
  have hnodup : ((qosReadBack db dev).map PrimaryKey.key).Nodup := by
    match hback : qosReadBack db dev, hshort with
    | [], _ => exact List.nodup_nil
    | [q], _ => exact List.nodup_singleton _
  rw [Table.foldl_replace_rows _ _ hnodup, Table.deleteWhere_rows, List.filter_filter]
  congr 1
  apply List.filter_congr
  intro q _
  by_cases hq : q.deviceId.chars = dev.chars
  · simp [hq]
  · have hout : outside ((qosReadBack db dev).map PrimaryKey.key) (PrimaryKey.key q : CStr) = true := by
      rw [outside_eq_true]
      intro hmem
      obtain ⟨q', hq', hkey⟩ := List.mem_map.mp hmem
      exact hq (hkey.symm.trans (mem_qosReadBack hq').1)
    rw [hout, Bool.true_and]

/-- What the rollback leaves: the rows of others, and behind them what came
back. -/
theorem rollback_device_tables (hdb : db.Constraints) (hdev : dev.chars ≠ [])
    (hids : DeviceIdsDelimFree db dev) (hfits : (serializeDevice db dev.chars).length ≤ 4095)
    (now : Int64) (name : CStr) :
    let snap := (cfgVerSnapshot true db now name (some dev.chars)).2
    let out := (cfgVerRollback .healthy snap (nextVersionId db)).2
    out.qosConfigs.rows =
        (db.qosConfigs.rows.filter fun q => !decide (q.deviceId.chars = dev.chars)) ++
          qosReadBack db dev ∧
      out.vlanMembers =
        (db.vlanMembers.filter fun m => !decide (m.deviceId.chars = dev.chars)) ++
          membersReadBack db dev ∧
      out.tsnStreamMembers =
        (db.tsnStreamMembers.filter fun m => !decide (m.deviceId.chars = dev.chars)) ++
          streamMembersReadBack db dev := by
  intro snap out
  have hfind := @find_deviceVersion dev db snap now name hdev fun v hv => hv
  have hsnap : snap = { db with
      configVersions := snap.configVersions, configVersionSeq := snap.configVersionSeq } := by
    simp [snap, cfgVerSnapshot, dbConfigVersionAdd, Sql.namesIndex]
  have hout : out = insertRows (wipe snap dev) ((qosReadBack db dev).map .qos ++
      (membersReadBack db dev).map .vlanMember ++ (streamMembersReadBack db dev).map .streamMember) := by
    show (cfgVerRollback .healthy snap (nextVersionId db)).2 = _
    rw [cfgVerRollback_healthy hfind, Buf.copy_self]
    dsimp only
    rw [serializeDevice_of_length_le hfits, readRows_deviceLines hdev hids]
  have hdevice : ∀ q ∈ qosReadBack db dev, (wipe snap dev).devices.Has q.deviceId.chars := by
    intro q hq
    obtain ⟨hq', q', hmem, hkey⟩ := mem_qosReadBack hq
    rw [wipe_devices, hsnap, hq', ← hkey]
    exact hdb.qos q' hmem
  have hstream : ∀ m ∈ streamMembersReadBack db dev, db.tsnStreams.Has m.streamId.chars := by
    intro m hm
    obtain ⟨m', hm', rfl⟩ := List.mem_map.mp hm
    exact hdb.members m' (List.mem_of_mem_filter (List.mem_of_mem_filter hm'))
  have hwipe : wipe snap dev = { snap with
      qosConfigs := db.qosConfigs.deleteWhere fun q => decide (q.deviceId.chars = dev.chars)
      vlanMembers := db.vlanMembers.filter fun m => !decide (m.deviceId.chars = dev.chars)
      tsnStreamMembers :=
        db.tsnStreamMembers.filter fun m => !decide (m.deviceId.chars = dev.chars) } := by
    rw [wipe, if_neg hdev, hsnap]
  have hstreams : (wipe snap dev).tsnStreams = db.tsnStreams := by
    rw [hwipe, hsnap]
  rw [insertRows_append, insertRows_append, insertRows_qos _ _ hdevice, insertRows_vlanMembers,
    insertRows_streamMembers _ _ fun m hm => hstreams ▸ hstream m hm, hwipe] at hout
  rw [hout]
  exact ⟨foldl_replace_qosReadBack db dev, rfl, rfl⟩

/-! ### When the rows are as they were -/

/-- Rows put back behind those that were left are a reordering of all if they
are one of those that were taken. -/
theorem refilled_perm_iff {α : Type} (p : α → Bool) (l new : List α) :
    ((l.filter fun x => !p x) ++ new).Perm l ↔ new.Perm (l.filter p) := by
  have hall : ((l.filter fun x => !p x) ++ l.filter p).Perm l :=
    List.perm_append_comm.trans (List.filter_append_perm p l)
  constructor
  · intro h
    exact (List.perm_append_left_iff _).mp (h.trans hall.symm)
  · intro h
    exact ((List.perm_append_left_iff _).mpr h).trans hall

theorem filter_perm_iff {α : Type} (p : α → Bool) (l : List α) :
    (l.filter p).Perm l ↔ ∀ x ∈ l, p x = true := by
  rw [← List.filter_eq_self]
  exact ⟨fun h => List.filter_sublist.eq_of_length h.length_eq, fun h => by rw [h]⟩

theorem map_listening_perm_iff (ms : List StreamMember) :
    (ms.map StreamMember.listening).Perm ms ↔ ∀ m ∈ ms, m.role = .listener := by
  constructor
  · intro h m hm
    obtain ⟨m', -, rfl⟩ := List.mem_map.mp (h.mem_iff.mpr hm)
    rfl
  · intro h
    have hsame : ms.map StreamMember.listening = ms := by
      conv_rhs => rw [← List.map_id ms]
      apply List.map_congr_left
      intro m hm
      rw [StreamMember.listening, ← h m hm]
      rfl
    rw [hsame]

/-- The rows of a device among those of a table. -/
theorem forall_mem_own_iff {α : Type} {id : α → CStr} {k : CStr} {P : α → Prop} (l : List α) :
    (∀ x ∈ l.filter fun x => id x = k, P x) ↔ ∀ x ∈ l, id x = k → P x := by
  simp only [List.mem_filter, decide_eq_true_eq, and_imp]

theorem qosReadBack_perm_iff (db : Db) (dev : Str) :
    (qosReadBack db dev).Perm (db.qosOf dev) ↔
      ∀ q ∈ db.qosConfigs.rows, q.deviceId.chars = dev.chars → q.Kept := by
  rw [← forall_mem_own_iff]
  show _ ↔ ∀ q ∈ db.qosOf dev, q.Kept
  rcases qosReadBack_cases db dev with ⟨hown, hback⟩ | ⟨q, hown, hback⟩
  · simp [hown, hback]
  · rw [hown, hback, List.forall_mem_singleton, List.perm_singleton, ← readBack_eq_some_iff]
    cases q.readBack with
    | none => simp
    | some q' => simp

theorem membersReadBack_perm_iff (db : Db) (dev : Str) :
    (membersReadBack db dev).Perm (db.membersOf dev) ↔
      ∀ m ∈ db.vlanMembers, m.deviceId.chars = dev.chars → m.groupId.chars ≠ [] := by
  rw [← forall_mem_own_iff, membersReadBack, filter_perm_iff]
  simp only [decide_eq_true_eq]
  rfl

theorem streamMembersReadBack_perm_iff (db : Db) (dev : Str) :
    (streamMembersReadBack db dev).Perm (db.streamMembersOf dev) ↔
      ∀ m ∈ db.tsnStreamMembers, m.deviceId.chars = dev.chars →
        m.streamId.chars ≠ [] ∧ m.role = .listener := by
  rw [← forall_mem_own_iff, streamMembersReadBack]
  show _ ↔ ∀ m ∈ db.streamMembersOf dev, _
  generalize db.streamMembersOf dev = ms
  constructor
  · intro h
    have hlength : (ms.filter fun m => m.streamId.chars ≠ []).length = ms.length := by
      rw [← h.length_eq, List.length_map]
    have hall := List.filter_sublist.eq_of_length hlength
    rw [hall, map_listening_perm_iff] at h
    intro m hm
    exact ⟨of_decide_eq_true (List.filter_eq_self.mp hall m hm), h m hm⟩
  · intro h
    have hall : (ms.filter fun m => m.streamId.chars ≠ []) = ms :=
      List.filter_eq_self.mpr fun m hm => decide_eq_true (h m hm).1
    rw [hall, map_listening_perm_iff]
    exact fun m hm => (h m hm).2

end

/-- A version of a device rolled back at once leaves the rows of the three
tables as they were exactly when its own come back. -/
theorem device_rollback_identity_iff (db : Db) (dev : Str) (now : Int64) (name : CStr)
    (hdb : db.Constraints) (hdev : dev.chars ≠ []) (hids : DeviceIdsDelimFree db dev)
    (hfits : (serializeDevice db dev.chars).length ≤ 4095) :
    SameDeviceTables
        (cfgVerRollback .healthy (cfgVerSnapshot true db now name (some dev.chars)).2
          (nextVersionId db)).2 db ↔
      KeptRows db dev := by
  obtain ⟨hqos, hmembers, hstreams⟩ := rollback_device_tables hdb hdev hids hfits now name
  constructor
  · rintro ⟨hq, hm, hs⟩
    rw [hqos, refilled_perm_iff] at hq
    rw [hmembers, refilled_perm_iff] at hm
    rw [hstreams, refilled_perm_iff] at hs
    exact ⟨(qosReadBack_perm_iff db dev).mp hq, (membersReadBack_perm_iff db dev).mp hm,
      (streamMembersReadBack_perm_iff db dev).mp hs⟩
  · rintro ⟨hq, hm, hs⟩
    refine ⟨?_, ?_, ?_⟩
    · rw [hqos, refilled_perm_iff]
      exact (qosReadBack_perm_iff db dev).mpr hq
    · rw [hmembers, refilled_perm_iff]
      exact (membersReadBack_perm_iff db dev).mpr hm
    · rw [hstreams, refilled_perm_iff]
      exact (streamMembersReadBack_perm_iff db dev).mpr hs

/-- A device that only listens, with equal class and priority. -/
def listenerSnapshot : Db :=
  let d2 : Str := Buf.copy 256 "d2".toList
  let db := (dbDeviceUpsert .empty (Device.ofId d2.chars [])).2
  let db := (dbQosSave db ⟨d2, 5, 5, 100, 2, 0⟩).2
  let db := (dbVlanMemberAdd db ⟨Buf.copy 256 "g1".toList, d2⟩).2
  (dbTsnSave db (Stream.request "s1".toList "d1".toList d2.chars streamReady)).2

theorem device_rollback_keeps_listener :
    SameDeviceTables
      (cfgVerRollback .healthy (cfgVerSnapshot true listenerSnapshot 0 [] (some "d2".toList)).2
        (nextVersionId listenerSnapshot)).2 listenerSnapshot :=
  (device_rollback_identity_iff listenerSnapshot (Buf.copy 256 "d2".toList) 0 []
    (by constructor <;> decide) (by decide) (by constructor <;> decide) (by decide +kernel)).mpr
    (by constructor <;> decide)

/-- A rollback of its version makes a talker a listener. -/
theorem device_rollback_demotes_talker :
    ¬ ∀ (db : Db) (dev : Str) (now : Int64) (name : CStr),
      db.Constraints → dev.chars ≠ [] → DeviceIdsDelimFree db dev →
        (serializeDevice db dev.chars).length ≤ 4095 →
          SameDeviceTables
            (cfgVerRollback .healthy (cfgVerSnapshot true db now name (some dev.chars)).2
              (nextVersionId db)).2 db := by
  intro h
  have hsame := (h listenerSnapshot (Buf.copy 256 "d1".toList) 0 [] (by constructor <;> decide)
    (by decide) (by constructor <;> decide) (by decide +kernel)).streamMembers
  have hnew : (⟨Buf.copy 256 "s1".toList, .listener, Buf.copy 256 "d1".toList⟩ : StreamMember) ∈
      (cfgVerRollback .healthy (cfgVerSnapshot true listenerSnapshot 0 [] (some "d1".toList)).2
        (nextVersionId listenerSnapshot)).2.tsnStreamMembers := by decide +kernel
  have hold : (⟨Buf.copy 256 "s1".toList, .listener, Buf.copy 256 "d1".toList⟩ : StreamMember) ∉
      listenerSnapshot.tsnStreamMembers := by decide +kernel
  exact hold (hsame.mem_iff.mp hnew)

end Htsn
