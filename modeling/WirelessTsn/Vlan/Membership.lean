import WirelessTsn.ConfigVersion.Tables
import WirelessTsn.Lib.Run
import WirelessTsn.Vlan.Manager

/-!
`vlan_members` as a set. Both INSERTs into it are `INSERT OR IGNORE`, but the
table declares no key, so neither ignores anything: a pair that is added once
more, or that a payload names twice, is there twice.
-/

namespace Htsn

open CText Keyed Run

/-- What writes the table of members. -/
inductive VlanOp where
  | addMember (groupId deviceId : CStr)
  | removeMember (groupId deviceId : CStr)
  | rollback (env : RestoreEnv) (id : Int)

def vlanStep (db : Db) : VlanOp → Db
  | .addMember groupId deviceId => (vlanManagerAddMember db groupId deviceId).2
  | .removeMember groupId deviceId => (vlanManagerRemoveMember db groupId deviceId).2
  | .rollback env id => (cfgVerRollback env db id).2

/-- No pair stands in the table twice. -/
def Db.MembersOnce (db : Db) : Prop := db.vlanMembers.Nodup

/-- The members among rows to insert whose INSERT does not fail. -/
def memberInserts (as : List (RestoreRow × Bool)) : List VlanMember :=
  as.filterMap fun a =>
    match a with
    | (.vlanMember m, true) => some m
    | _ => none

/-- The members that a rollback puts back. -/
def rolledBackMembers (env : RestoreEnv) (v : ConfigVersion) : List VlanMember :=
  if env.malloc then memberInserts (attempts env v.deviceId v.payload.chars) else []

/-- The step adds no pair that is there: a new member is none yet, and a
version names none twice and none that its scope leaves in the table. -/
def VlanOp.AddsNew (db : Db) : VlanOp → Prop
  | .addMember groupId deviceId => ⟨Buf.copy 256 groupId, Buf.copy 256 deviceId⟩ ∉ db.vlanMembers
  | .removeMember _ _ => True
  | .rollback env id => ∀ v ∈ (dbConfigVersionGet db id).toOption,
      (rolledBackMembers env v).Nodup ∧
        ∀ m ∈ rolledBackMembers env v, m ∉ (wipe db v.deviceId).vlanMembers

instance (db : Db) : (op : VlanOp) → Decidable (op.AddsNew db)
  | .addMember groupId deviceId => inferInstanceAs (Decidable
      ((⟨Buf.copy 256 groupId, Buf.copy 256 deviceId⟩ : VlanMember) ∉ db.vlanMembers))
  | .removeMember _ _ => inferInstanceAs (Decidable True)
  | .rollback env id => inferInstanceAs (Decidable (∀ v ∈ (dbConfigVersionGet db id).toOption,
      (rolledBackMembers env v).Nodup ∧
        ∀ m ∈ rolledBackMembers env v, m ∉ (wipe db v.deviceId).vlanMembers))

theorem insertRow_vlanMembers (db : Db) (a : RestoreRow × Bool) :
    (db.insertRow a).vlanMembers = db.vlanMembers ++ memberInserts [a] := by
  obtain ⟨r, ok⟩ := a
  cases ok with
  | false =>
      have hskip : db.insertRow (r, false) = db := if_neg fun h => Bool.false_ne_true h.1
      have hnone : memberInserts [(r, false)] = [] := by
        cases r <;> rfl
      rw [hskip, hnone, List.append_nil]
  | true =>
      unfold Db.insertRow
      cases r with
      | vlanMember m =>
          have hadmits : db.Admits (.vlanMember m) := by simp [Db.Admits, Sql.namesIndex]
          rw [if_pos ⟨rfl, hadmits⟩]
          rfl
      | _ =>
          split
          · exact (List.append_nil _).symm
          · exact (List.append_nil _).symm

/-- The INSERTs of a rollback append the members and leave those there are. -/
theorem foldl_insertRow_vlanMembers (as : List (RestoreRow × Bool)) (db : Db) :
    (as.foldl Db.insertRow db).vlanMembers = db.vlanMembers ++ memberInserts as := by
  induction as generalizing db with
  | nil => exact (List.append_nil _).symm
  | cons a as ih =>
      have hcons : memberInserts (a :: as) = memberInserts [a] ++ memberInserts as := by
        rw [memberInserts, memberInserts, memberInserts, ← List.filterMap_append]
        rfl
      rw [List.foldl_cons, ih, insertRow_vlanMembers, hcons, List.append_assoc]

theorem cfgVerRollback_vlanMembers {db : Db} {id : Int} {v : ConfigVersion}
    (hv : dbConfigVersionGet db id = .ok v) (env : RestoreEnv) :
    (cfgVerRollback env db id).2.vlanMembers =
      (wipe db v.deviceId).vlanMembers ++ rolledBackMembers env v := by
  rw [cfgVerRollback, hv]
  show (restorePayload env db v.payload.chars v.deviceId).2.vlanMembers = _
  unfold restorePayload rolledBackMembers
  split
  · exact foldl_insertRow_vlanMembers _ _
  · exact (List.append_nil _).symm

theorem wipe_membersOnce {db : Db} (h : db.MembersOnce) (dev : Str) : (wipe db dev).MembersOnce := by
  unfold wipe
  split
  · exact List.nodup_nil
  · exact List.Nodup.filter _ h

/-- One step keeps the pairs apart exactly when it adds none that is there. -/
theorem membersOnce_step {db : Db} (h : db.MembersOnce) (op : VlanOp) :
    (vlanStep db op).MembersOnce ↔ op.AddsNew db := by
  cases op with
  | addMember groupId deviceId =>
      have hstep : (vlanStep db (.addMember groupId deviceId)).vlanMembers =
          db.vlanMembers ++ [⟨Buf.copy 256 groupId, Buf.copy 256 deviceId⟩] := by
        simp [vlanStep, vlanManagerAddMember, dbVlanMemberAdd, Sql.namesIndex]
      rw [Db.MembersOnce, hstep, ← List.concat_eq_append, List.nodup_concat]
      exact and_iff_left h
  | removeMember groupId deviceId =>
      have hstep : (vlanStep db (.removeMember groupId deviceId)).vlanMembers =
          db.vlanMembers.filter fun m =>
            !decide (m.groupId.chars = groupId ∧ m.deviceId.chars = deviceId) := by
        simp [vlanStep, vlanManagerRemoveMember, dbVlanMemberRemove, Sql.namesIndex]
      rw [Db.MembersOnce, hstep]
      exact iff_of_true (List.Nodup.filter _ h) trivial
  | rollback env id =>
      show (cfgVerRollback env db id).2.MembersOnce ↔
        ∀ v ∈ (dbConfigVersionGet db id).toOption, (rolledBackMembers env v).Nodup ∧
          ∀ m ∈ rolledBackMembers env v, m ∉ (wipe db v.deviceId).vlanMembers
      cases hv : dbConfigVersionGet db id with
      | error e =>
          have hstep : (cfgVerRollback env db id).2 = db := by rw [cfgVerRollback, hv]
          rw [hstep]
          refine iff_of_true h fun v hnone => ?_
          cases hnone
      | ok v =>
          have hkept := wipe_membersOnce h v.deviceId
          rw [Db.MembersOnce, cfgVerRollback_vlanMembers hv, List.nodup_append]
          constructor
          · rintro ⟨-, hnodup, hapart⟩ v' hv'
            cases hv'
            exact ⟨hnodup, fun m hm hold => hapart m hold m hm rfl⟩
          · intro hall
            obtain ⟨hnodup, hnew⟩ := hall v rfl
            refine ⟨hkept, hnodup, fun m hm m' hm' heq => ?_⟩
            exact hnew m' hm' (heq ▸ hm)

/-- Along a run from an empty table no pair is ever there twice exactly when
every step adds only pairs that are not there. -/
theorem members_once_iff (db : Db) (ops : List VlanOp) (hempty : db.vlanMembers = []) :
    (∀ front, front <+: ops → (run vlanStep db front).MembersOnce) ↔
      AllSteps vlanStep (fun db op => op.AddsNew db) db ops := by
  have hstart : db.MembersOnce := by
    rw [Db.MembersOnce, hempty]
    exact List.nodup_nil
  rw [forall_prefix_iff hstart]
  exact @allSteps_inv_iff _ _ vlanStep (fun db op => op.AddsNew db) Db.MembersOnce (fun _ => True)
    (fun _ _ h => h) (fun _ op _ h => membersOnce_step h op) db trivial hstart ops

/-- A database with one version of two members. -/
def camVersion : Db :=
  (dbConfigVersionAdd .empty 0 "v1".toList [] "vmem:vlan-10:cam-1 vmem:vlan-20:cam-1 ".toList).2

def camOps : List VlanOp :=
  [.addMember "vlan-10".toList "cam-1".toList, .removeMember "vlan-10".toList "cam-1".toList,
    .addMember "vlan-10".toList "cam-1".toList, .rollback .healthy 1]

theorem members_once_cam : (run vlanStep camVersion camOps).MembersOnce :=
  (members_once_iff camVersion camOps rfl).mpr (by decide) camOps List.prefix_rfl

/-- The same member is added twice. -/
theorem member_added_twice :
    ¬ ∀ (db : Db) (ops : List VlanOp), db.vlanMembers = [] → (run vlanStep db ops).MembersOnce := by
  intro hclaim
  have honce := hclaim .empty
    [.addMember "vlan-10".toList "cam-1".toList, .addMember "vlan-10".toList "cam-1".toList] rfl
  unfold Db.MembersOnce at honce
  exact absurd honce (by decide)

end Htsn
