import WirelessTsn.Db.Config

/-!
`vlan.c` and the group and member calls of `vlan_manager.c`. The manager has
no copy of the tables, and it looks at no result of a database call.
-/

namespace Htsn

open CText Keyed

/-- `HTSN_VLAN_ID_MIN` and `HTSN_VLAN_ID_MAX` -/
def vlanIdMin : Int32 := 1

def vlanIdMax : Int32 := 4094

/-- `htsn_vlan_group_model`, with the members of `htsn_vlan_group`. -/
abbrev VlanGroupModel := VlanGroup

def vlanValidateGroup (g : VlanGroupModel) : HtsnError :=
  if g.vlanId < vlanIdMin ∨ g.vlanId > vlanIdMax then .invalidArg
  else if g.name.chars.length = 0 then .invalidArg
  else .ok

def vlanManagerCreateGroup (db : Db) (g : VlanGroupModel) : HtsnError × Db :=
  if vlanValidateGroup g ≠ .ok then (vlanValidateGroup g, db)
  else (.ok, (dbVlanGroupSave db g).2)

def vlanManagerDeleteGroup (db : Db) (id : CStr) : HtsnError × Db :=
  (.ok, (dbVlanGroupDelete db id).2)

def vlanManagerAddMember (db : Db) (groupId deviceId : CStr) : HtsnError × Db :=
  (.ok, (dbVlanMemberAdd db ⟨Buf.copy 256 groupId, Buf.copy 256 deviceId⟩).2)

def vlanManagerRemoveMember (db : Db) (groupId deviceId : CStr) : HtsnError × Db :=
  (.ok, (dbVlanMemberRemove db groupId deviceId).2)

end Htsn
