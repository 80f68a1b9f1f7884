import WirelessTsn.Esp32.NetBlob
import WirelessTsn.Lib.Run
import WirelessTsn.Lib.Table

/-!
The saved networks over whole histories of `htsn_cfg_net_add`,
`htsn_cfg_net_remove` and `htsn_cfg_net_clear`. An entry keeps 32 bytes of the
name, but the search compares with the whole name: a network with a longer
name is never found again. As long as there is none, the blob is the list that
is meant.
-/

namespace Htsn.Esp32

open CText Keyed Run

/-- A string that fits the 64 bytes of the `add_wifi` command. -/
structure NetArg where
  chars : CStr
  noNul : '\x00' ∉ chars
  fits : chars.length ≤ 63

inductive NetOp where
  | add (ssid pass : NetArg) (named : ssid.chars ≠ [])
  | remove (ssid : CStr)
  | clear

def netOp (stored : Stored) : NetOp → Stored
  | .add ssid pass _ => (netAddBlob stored ssid.chars pass.chars).1
  | .remove ssid => netRemoveBlob stored ssid
  | .clear => netClearBlob

/-- The networks after a history, from an erased NVS on. -/
def netsAfter (ops : List NetOp) : List (CStr × CStr) := nets (run netOp none ops)

/-! ### What is asked of the list -/

/-- The password of the last `add` of a network. -/
def lastPass (ops : List NetOp) (ssid : CStr) : Option CStr :=
  ops.reverse.findSome? fun
    | .add s pass _ => if s.chars = ssid then some pass.chars else none
    | _ => none

structure NetsOk (ops : List NetOp) (l : List (CStr × CStr)) : Prop where
  bounded : l.length ≤ netMax
  distinct : (l.map Prod.fst).Nodup
  lastPass : ∀ net ∈ l, lastPass ops net.1 = some net.2

/-- The networks but one. -/
def netsBut (ssid : CStr) (l : List (CStr × CStr)) : List (CStr × CStr) := l.filter (·.1 ≠ ssid)

/-- What an operation makes of the list: all others stay in order, apart from
the oldest when a new network comes to a full list. -/
def NetStep (l : List (CStr × CStr)) (op : NetOp) (l' : List (CStr × CStr)) : Prop :=
  match op with
  | .add ssid pass _ =>
      (ssid.chars, pass.chars) ∈ l' ∧
        if HasKey Prod.fst ssid.chars l ∨ l.length < netMax then
          netsBut ssid.chars l' = netsBut ssid.chars l
        else l' = l.drop 1 ++ [(ssid.chars, pass.chars)]
  | .remove ssid => l' = netsBut ssid l
  | .clear => l' = []

/-- Every operation of a history does what it should, and leaves a list as it
should be. -/
def NetsKept (ops : List NetOp) : Prop :=
  AllAfter
    (fun before op =>
      NetStep (netsAfter before) op (netsAfter (before ++ [op])) ∧
        NetsOk (before ++ [op]) (netsAfter (before ++ [op])))
    ops

/-- The name of an added network fits an entry. -/
def NetOp.Fits : NetOp → Prop
  | .add ssid _ _ => ssid.chars.length ≤ 32
  | _ => True

/-! ### The list that is meant -/

/-- The list with a network added. -/
def addNet (net : CStr × CStr) (l : List (CStr × CStr)) : List (CStr × CStr) :=
  if HasKey Prod.fst net.1 l then upsertBy Prod.fst net l
  else (if l.length ≥ netMax then l.drop 1 else l) ++ [net]

def netStep (l : List (CStr × CStr)) : NetOp → List (CStr × CStr)
  | .add ssid pass _ => addNet (ssid.chars, pass.chars) l
  | .remove ssid => netsBut ssid l
  | .clear => []

structure NetsValid (l : List (CStr × CStr)) : Prop where
  bounded : l.length ≤ netMax
  distinct : (l.map Prod.fst).Nodup
  named : ∀ net ∈ l, net.1 ≠ []

theorem netsValid_nil : NetsValid [] := ⟨Nat.zero_le _, List.nodup_nil, by simp⟩

variable {l : List (CStr × CStr)}

theorem netsBut_cons (ssid : CStr) (net : CStr × CStr) (l : List (CStr × CStr)) :
    netsBut ssid (net :: l) = if net.1 = ssid then netsBut ssid l else net :: netsBut ssid l := by
  by_cases h : net.1 = ssid <;> simp [netsBut, h]

theorem netsBut_upsertBy (net : CStr × CStr) (l : List (CStr × CStr)) :
    netsBut net.1 (upsertBy Prod.fst net l) = netsBut net.1 l := by
  induction l with
  | nil => rw [upsertBy, netsBut_cons, if_pos rfl]
  | cons n l ih =>
      rw [upsertBy]
      by_cases hn : n.1 = net.1
      · rw [if_pos hn, netsBut_cons, netsBut_cons, if_pos rfl, if_pos hn]
      · rw [if_neg hn, netsBut_cons, netsBut_cons, if_neg hn, if_neg hn, ih]

theorem mem_addNet (h : NetsValid l) (net : CStr × CStr) : net ∈ addNet net l := by
  rw [addNet]
  split
  · exact (mem_upsertBy h.distinct).mpr (Or.inl rfl)
  · exact List.mem_append_right _ (List.mem_singleton_self _)

theorem netsValid_addNet (h : NetsValid l) {net : CStr × CStr} (hnamed : net.1 ≠ []) :
    NetsValid (addNet net l) := by
  have hpos : 0 < netMax := by decide
  rw [addNet]
  by_cases hkey : HasKey Prod.fst net.1 l
  · rw [if_pos hkey]
    refine ⟨(length_upsertBy_of_hasKey hkey).le.trans h.bounded, nodup_upsertBy h.distinct, ?_⟩
    intro n hn
    rcases (mem_upsertBy h.distinct).mp hn with rfl | ⟨hold, -⟩
    · exact hnamed
    · exact h.named n hold
  · rw [if_neg hkey]
    have hnew : net.1 ∉ l.map Prod.fst := fun hmem => hkey (hasKey_iff_mem_map.mpr hmem)
    have hsub : (if l.length ≥ netMax then l.drop 1 else l).Sublist l := by
      split
      · exact List.drop_sublist 1 l
      · exact List.Sublist.refl _
    have hkeys := hsub.map Prod.fst
    refine ⟨?_, ?_, ?_⟩
    · have hbound := h.bounded
      rw [List.length_append, List.length_singleton]
      split
      · rw [List.length_drop]
        omega
      · omega
    · rw [List.map_append, List.map_singleton]
      refine (h.distinct.sublist hkeys).append (List.nodup_singleton _) ?_
      rw [List.disjoint_singleton]
      exact fun hmem => hnew (hkeys.subset hmem)
    · intro n hn
      rcases List.mem_append.mp hn with hold | hlast
      · exact h.named n (hsub.subset hold)
      · exact List.mem_singleton.mp hlast ▸ hnamed

theorem netsValid_netStep (h : NetsValid l) (op : NetOp) : NetsValid (netStep l op) := by
  cases op with
  | add ssid pass named => exact netsValid_addNet h named
  | remove ssid =>
      have hsub : (netsBut ssid l).Sublist l := List.filter_sublist
      exact ⟨hsub.length_le.trans h.bounded, h.distinct.sublist (hsub.map _),
        fun n hn => h.named n (hsub.subset hn)⟩
  | clear => exact netsValid_nil

theorem netsValid_run (ops : List NetOp) : NetsValid (run netStep [] ops) := by
  have hstep : ∀ l op, NetsValid l → NetsValid (netStep l op) :=
    fun _ op h => netsValid_netStep h op
  exact run_invariant hstep netsValid_nil ops

/-- Each operation does what it should to a valid list. -/
theorem netStep_spec (h : NetsValid l) (op : NetOp) : NetStep l op (netStep l op) := by
  cases op with
  | add ssid pass _ =>
      refine ⟨mem_addNet h _, ?_⟩
      show if _ then netsBut ssid.chars (addNet _ l) = _ else addNet _ l = _
      rw [addNet]
      by_cases hkey : HasKey Prod.fst ssid.chars l
      · rw [if_pos (Or.inl hkey), if_pos hkey]
        exact netsBut_upsertBy (ssid.chars, pass.chars) l
      · rw [if_neg hkey]
        by_cases hroom : l.length < netMax
        · rw [if_pos (Or.inr hroom), if_neg (by omega), netsBut, List.filter_append]
          simp [netsBut]
        · rw [if_neg (by tauto), if_pos (by omega)]
  | remove ssid => rfl
  | clear => rfl

theorem lastPass_concat (ops : List NetOp) (op : NetOp) (ssid : CStr) :
    lastPass (ops ++ [op]) ssid =
      match op with
      | .add s pass _ => if s.chars = ssid then some pass.chars else lastPass ops ssid
      | _ => lastPass ops ssid := by
  rw [lastPass, List.reverse_append, List.reverse_singleton, List.singleton_append,
    List.findSome?_cons]
  cases op with
  | add s pass _ => by_cases h : s.chars = ssid <;> simp [h, lastPass]
  | remove s => rfl
  | clear => rfl

/-- Every network has the password it was last added with. -/
theorem lastPass_run (ops : List NetOp) :
    ∀ net ∈ run netStep [] ops, lastPass ops net.1 = some net.2 := by
  induction ops using List.reverseRecOn with
  | nil => simp [run]
  | append_singleton ops op ih =>
      have hvalid := netsValid_run ops
      intro net hnet
      rw [run_append] at hnet
      rw [lastPass_concat]
      cases op with
      | add ssid pass _ =>
          have hadd : net ∈ addNet (ssid.chars, pass.chars) (run netStep [] ops) := hnet
          rw [addNet] at hadd
          by_cases hkey : HasKey Prod.fst ssid.chars (run netStep [] ops)
          · rw [if_pos hkey, mem_upsertBy hvalid.distinct] at hadd
            rcases hadd with rfl | ⟨hold, hne⟩
            · exact if_pos rfl
            · rw [← ih net hold]
              exact if_neg (Ne.symm hne)
          · rw [if_neg hkey] at hadd
            rcases List.mem_append.mp hadd with hold | hnew
            · have hmem : net ∈ run netStep [] ops := by
                split at hold
                · exact List.mem_of_mem_drop hold
                · exact hold
              rw [← ih net hmem]
              exact if_neg fun heq => hkey ⟨net, hmem, heq.symm⟩
            · rw [List.mem_singleton.mp hnew]
              exact if_pos rfl
      | remove ssid => exact ih net (List.mem_of_mem_filter hnet)
      | clear => cases hnet

/-! ### The list that is kept -/

def nvsOp (nvs : Nvs) : NetOp → Nvs
  | .add ssid pass _ => (nvs.netAdd ssid.chars pass.chars).1
  | .remove ssid => nvs.netRemove ssid
  | .clear => nvs.netClear

def Nvs.nets (nvs : Nvs) : List (CStr × CStr) :=
  nvs.netList.items.map fun e => (e.ssid.chars, e.pass.chars)

/-- The blob is the list of `Nvs` after every history. -/
theorem stores_run (ops : List NetOp) :
    Stores (run netOp none ops) (run nvsOp {} ops).netList.items := by
  refine run_related (R := fun stored (nvs : Nvs) => Stores stored nvs.netList.items) ?_ .none ops
  intro stored nvs op h
  cases op with
  | add ssid pass _ => exact (h.netAdd ssid.noNul pass.noNul).1
  | remove ssid => exact h.netRemove ssid
  | clear => exact stores_netClear nvs

theorem netsAfter_eq (ops : List NetOp) : netsAfter ops = (run nvsOp {} ops).nets :=
  (stores_run ops).nets_eq (run nvsOp {} ops).netList.fits

/-- The search finds a name, and the password is replaced at its place. -/
theorem map_modify_pass {ssid : CStr} (pass : CStr) {es : List NetEntry} {i : Nat}
    (h : (es.findIdx? fun e => e.ssid.chars = ssid) = some i) :
    (es.modify i fun e => { e with pass := Buf.copy 65 pass }).map
        (fun e => (e.ssid.chars, e.pass.chars)) =
      upsertBy Prod.fst (ssid, pass.take 64) (es.map fun e => (e.ssid.chars, e.pass.chars)) := by
  induction es generalizing i with
  | nil => cases h
  | cons e es ih =>
      rw [List.findIdx?_cons] at h
      rw [List.map_cons, upsertBy]
      by_cases hssid : e.ssid.chars = ssid
      · rw [if_pos (by simpa using hssid), Option.some_inj] at h
        subst h
        rw [if_pos hssid, List.modify_zero_cons, List.map_cons, hssid]
        rfl
      · rw [if_neg (by simpa using hssid), Option.map_eq_some_iff] at h
        obtain ⟨j, hj, rfl⟩ := h
        rw [if_neg hssid, List.modify_succ_cons, List.map_cons, ih hj]

theorem hasKey_nets (ssid : CStr) (es : List NetEntry) :
    HasKey Prod.fst ssid (es.map fun e => (e.ssid.chars, e.pass.chars)) ↔
      (es.findIdx? fun e => e.ssid.chars = ssid) ≠ none := by
  simp [HasKey, List.findIdx?_eq_none_iff]

/-- With a name that fits, an addition is the one that is meant. -/
theorem nets_netAdd (nvs : Nvs) {ssid pass : CStr} (hnil : ssid ≠ []) (hssid : ssid.length ≤ 32)
    (hpass : pass.length ≤ 64) :
    (nvs.netAdd ssid pass).1.nets = addNet (ssid, pass) nvs.nets := by
  have hitems := congrArg Prod.fst (Nvs.netAdd_eq nvs hnil pass)
  have hkey := hasKey_nets ssid nvs.netList.items
  rw [Nvs.nets, Nvs.nets, addNet]
  cases hidx : nvs.netList.items.findIdx? fun e => e.ssid.chars = ssid with
  | some i =>
      rw [hidx] at hitems hkey
      have hmodify := map_modify_pass pass hidx
      rw [List.take_of_length_le hpass] at hmodify
      rw [if_pos (hkey.mpr (Option.some_ne_none i)), ← hmodify]
      exact congrArg _ hitems
  | none =>
      rw [hidx] at hitems hkey
      have hnew : (Buf.copy 33 ssid).chars = ssid := Buf.copy_chars_of_lt (by omega)
      have hnewPass : (Buf.copy 65 pass).chars = pass := Buf.copy_chars_of_lt (by omega)
      have hpush := hitems.trans (pushNet_items nvs.netList _)
      rw [if_neg (fun h => hkey.mp h rfl), List.length_map, ← List.map_drop, ← apply_ite]
      rw [show (nvs.netAdd ssid pass).1.netList.items = _ from hpush, List.map_append,
        List.map_singleton, hnew, hnewPass]

theorem nets_netRemove (nvs : Nvs) (hvalid : NetsValid nvs.nets) (ssid : CStr) :
    (nvs.netRemove ssid).nets = netsBut ssid nvs.nets := by
  rw [Nvs.netRemove]
  by_cases hnil : ssid = []
  · rw [if_pos hnil, netsBut, eq_comm, List.filter_eq_self]
    intro net hnet
    simpa [hnil] using hvalid.named net hnet
  · rw [if_neg hnil, Nvs.nets, Nvs.nets, Slots.edit_items, netsBut, List.filter_map]
    rfl

theorem nets_nvsOp (nvs : Nvs) (op : NetOp) (hvalid : NetsValid nvs.nets) (hop : op.Fits) :
    (nvsOp nvs op).nets = netStep nvs.nets op := by
  cases op with
  | add ssid pass named => exact nets_netAdd nvs named hop (pass.fits.trans (by decide))
  | remove ssid => exact nets_netRemove nvs hvalid ssid
  | clear => rfl

/-- As long as all names fit, the blob holds the list that is meant. -/
theorem netsAfter_of_fits {ops : List NetOp} (h : ∀ op ∈ ops, op.Fits) :
    netsAfter ops = run netStep [] ops := by
  rw [netsAfter_eq]
  have hinv : ∀ (nvs : Nvs) (op : NetOp), NetsValid nvs.nets → op.Fits →
      NetsValid (nvsOp nvs op).nets := by
    intro nvs op hvalid hop
    rw [nets_nvsOp nvs op hvalid hop]
    exact netsValid_netStep hvalid op
  have hfits : AllSteps nvsOp (fun _ op => op.Fits) {} ops := allSteps_const.mpr h
  have hempty : NetsValid (Nvs.nets {}) := netsValid_nil
  have hrefine := AllSteps.run_refines Nvs.nets id hinv nets_nvsOp hempty hfits
  rwa [List.map_id] at hrefine

/-- A network with a longer name is not in the list it was added to. -/
theorem not_mem_netsAfter (ops : List NetOp) {net : CStr × CStr} (h : ¬ net.1.length ≤ 32) :
    net ∉ netsAfter ops := by
  rw [netsAfter_eq]
  intro hmem
  obtain ⟨e, -, rfl⟩ := List.mem_map.mp hmem
  exact h (Nat.le_of_lt_succ e.ssid.fits)

/-- A history goes as it should exactly if the name of every added network
fits an entry. -/
theorem netsKept_iff (ops : List NetOp) : NetsKept ops ↔ ∀ op ∈ ops, op.Fits := by
  constructor
  · intro h op hop
    cases op with
    | add ssid pass named =>
        obtain ⟨before, after, heq⟩ := List.append_of_mem hop
        obtain ⟨⟨hmem, -⟩, -⟩ := h before (.add ssid pass named) after heq
        by_contra hlong
        have hlen : ¬ (ssid.chars, pass.chars).1.length ≤ 32 := hlong
        exact not_mem_netsAfter _ hlen hmem
    | remove ssid => trivial
    | clear => trivial
  · rintro h before op after rfl
    have hbefore : ∀ op ∈ before, op.Fits := fun o ho => h o (List.mem_append_left _ ho)
    have hboth : ∀ o ∈ before ++ [op], o.Fits := by
      intro o ho
      rcases List.mem_append.mp ho with ho | ho
      · exact hbefore o ho
      · exact h o (by simp [List.mem_singleton.mp ho])
    have hvalid := netsValid_run (before ++ [op])
    rw [netsAfter_of_fits hbefore, netsAfter_of_fits hboth]
    refine ⟨?_, hvalid.bounded, hvalid.distinct, lastPass_run _⟩
    rw [run_append]
    exact netStep_spec (netsValid_run before) op

/-- A name of 33 bytes. -/
def longName : NetArg := ⟨List.replicate 33 'a', by decide, by decide⟩

/-- It is not in the list after it was added. -/
theorem longName_not_kept :
    ¬ NetsKept [.add longName longName (List.cons_ne_nil _ _)] := by
  intro h
  obtain ⟨⟨hmem, -⟩, -⟩ := h [] _ [] rfl
  exact not_mem_netsAfter _ (by decide) hmem

end Htsn.Esp32
