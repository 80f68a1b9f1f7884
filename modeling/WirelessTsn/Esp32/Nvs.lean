import WirelessTsn.Esp32.Memory

/-!
What the ESP32 agent keeps in NVS
(`esp32-agent/components/htsn_agent/htsn_cfg.c`) and the applied state
(`htsn_tsn.c`), with the arrays of its gate list. The gate arrays are written
to NVS only together with a list that is not empty and read back only up to
its length; `loadPersisted_save` says that a state comes back as it was saved.

NVS writes succeed and a read gives the last value written. A key that was
never written is `none`. The PTP control plane is left out.
-/

namespace Htsn.Esp32

open CText Json Keyed

/-! ### The store -/

/-- `net_entry_t` -/
structure NetEntry where
  ssid : Buf 33
  pass : Buf 65
  deriving DecidableEq

/-- `HTSN_NET_MAX` -/
def netMax : Nat := 10

/-- The keys of the namespace `htsn` that are read below. The key of the
network list is erased when the list is empty. -/
structure Nvs where
  wifiSsid : Option CStr := none
  wifiPass : Option CStr := none
  netList : Slots NetEntry netMax := .empty
  tsnPrio : Option Int32 := none
  tsnTc : Option Int32 := none
  tsnVlan : Option Int32 := none
  tsnPre : Option Int32 := none
  tsnTmode : Option Int32 := none
  tsnCycle : Option Int64 := none
  tsnGclCnt : Option Int32 := none
  tsnGates : Option (Fin gclMax → Int32) := none
  tsnDurs : Option (Fin gclMax → Int64) := none

/-- `htsn_nvs_get_str` with the default `""`: a value that does not fit the
buffer counts as missing. -/
def nvsGetStr (value : Option CStr) (sz : Nat) : CStr :=
  match value with
  | some s => if s.length < sz then s else []
  | none => []

/-- `htsn_cfg_set_wifi` -/
def Nvs.setWifi (nvs : Nvs) (ssid pass : CStr) : Nvs :=
  { nvs with wifiSsid := some ssid, wifiPass := some pass }

/-- The list of `htsn_cfg_net_add` with a new network at its end; a full list
loses its oldest. -/
def pushNet (nets : Slots NetEntry netMax) (e : NetEntry) : Slots NetEntry netMax :=
  if nets.items.length ≥ netMax then (nets.edit (List.drop 1) (by simp)).push e else nets.push e

/-- `htsn_cfg_net_add`, which also answers whether the network is new. -/
def Nvs.netAdd (nvs : Nvs) (ssid pass : CStr) : Nvs × Bool :=
  if ssid = [] then (nvs, false)
  else
    let nvs := nvs.setWifi ssid pass
    match nvs.netList.items.findIdx? fun e => e.ssid.chars = ssid with
    | some i =>
        ({ nvs with
            netList := nvs.netList.edit
              (fun es => es.modify i fun e => { e with pass := Buf.copy 65 pass }) (by simp) },
          false)
    | none =>
        ({ nvs with netList := pushNet nvs.netList ⟨Buf.copy 33 ssid, Buf.copy 65 pass⟩ }, true)

theorem Nvs.netAdd_wifiSsid (nvs : Nvs) {ssid : CStr} (h : ssid ≠ []) (pass : CStr) :
    (nvs.netAdd ssid pass).1.wifiSsid = some ssid := by
  rw [Nvs.netAdd, if_neg h]
  dsimp only
  split <;> rfl

theorem Nvs.netAdd_of_empty {nvs : Nvs} (hempty : nvs.netList.items = []) {ssid : CStr}
    (h : ssid ≠ []) (pass : CStr) :
    (nvs.netAdd ssid pass).1.netList.items = [⟨Buf.copy 33 ssid, Buf.copy 65 pass⟩] := by
  have hfind : (nvs.setWifi ssid pass).netList.items.findIdx? (fun e => e.ssid.chars = ssid) = none := by
    have hitems : (nvs.setWifi ssid pass).netList.items = [] := hempty
    rw [hitems]
    rfl
  rw [Nvs.netAdd, if_neg h]
  simp only [hfind]
  have hroom : nvs.netList.items.length < netMax := by
    rw [hempty]
    decide
  have hpush : pushNet nvs.netList ⟨Buf.copy 33 ssid, Buf.copy 65 pass⟩ =
      ⟨nvs.netList.items ++ [⟨Buf.copy 33 ssid, Buf.copy 65 pass⟩], by simpa using hroom⟩ := by
    rw [pushNet, if_neg (by omega), Slots.push, dif_pos hroom]
  show (pushNet nvs.netList _).items = _
  rw [hpush]
  simp only [hempty, List.nil_append]

/-- `htsn_cfg_net_clear` -/
def Nvs.netClear (nvs : Nvs) : Nvs := { nvs with netList := .empty }

/-! ### The applied state -/

/-- `htsn_tsn_state` -/
structure RawState where
  priority : Int32 := 0
  trafficClass : Int32 := 0
  preemption : Int32 := 0
  vlanId : Int32 := 0
  timesyncMode : Int32 := 0
  tasCycleNs : Int64 := 0
  gclEntries : Int32 := 0
  gates : Fin gclMax → Int32 := fun _ => 0
  durations : Fin gclMax → Int64 := fun _ => 0

def RawState.applyQos (t : RawState) (priority trafficClass _bwKbps _latMs preemption : Int32) :
    RawState :=
  { t with priority, trafficClass, preemption }

def RawState.applyVlan (t : RawState) (vlanId : Int32) (_group : CStr) : RawState := { t with vlanId }

def RawState.applyTimesync (t : RawState) (mode : Int32) (_gm : CStr) : RawState :=
  { t with timesyncMode := mode }

/-- The first `entries` places of an array and zero behind them; a null
pointer counts as zeros. -/
def padded {α : Type} [Zero α] (entries : Int32) (arr : Option (Fin gclMax → α)) : Fin gclMax → α :=
  fun i => if (i : Int) < entries.toInt then (arr.map fun a => a i).getD 0 else 0

/-- The entries that fit the arrays. -/
def clampEntries (entries : Int32) : Int32 :=
  let entries := if entries > 32 then 32 else entries
  if entries < 0 then 0 else entries

def RawState.applyTas (t : RawState) (cycleNs : Int64) (gates : Option (Fin gclMax → Int32))
    (durations : Option (Fin gclMax → Int64)) (entries : Int32) : RawState :=
  { t with
    tasCycleNs := cycleNs
    gclEntries := clampEntries entries
    gates := padded (clampEntries entries) gates
    durations := padded (clampEntries entries) durations }

def RawState.applyPreemption (t : RawState) (preemption : Int32) (_emac _pmac : CStr) : RawState :=
  { t with preemption }

/-- The arrays of a parsed list. -/
def ConfigSnapshot.gates (cfg : ConfigSnapshot) (i : Fin gclMax) : Int32 :=
  (cfg.gcl.getD i (0, 0)).1

def ConfigSnapshot.durations (cfg : ConfigSnapshot) (i : Fin gclMax) : Int64 :=
  (cfg.gcl.getD i (0, 0)).2

def ConfigSnapshot.gclEntries (cfg : ConfigSnapshot) : Int32 := Int32.ofNat cfg.gcl.length

/-! ### Saving and loading -/

/-- `htsn_cfg_save_tsn_state` -/
def Nvs.saveTsnState (nvs : Nvs) (priority trafficClass vlanId preemption timesyncMode : Int32)
    (tasCycleNs : Int64) (gates : Option (Fin gclMax → Int32)) (durations : Option (Fin gclMax → Int64))
    (gclEntries : Int32) : Nvs :=
  let nvs :=
    { nvs with
      tsnPrio := some priority
      tsnTc := some trafficClass
      tsnVlan := some vlanId
      tsnPre := some preemption
      tsnTmode := some timesyncMode
      tsnCycle := some tasCycleNs
      tsnGclCnt := some gclEntries }
  if gclEntries > 0 ∧ gates.isSome ∧ durations.isSome then
    { nvs with
      tsnGates := some (padded gclEntries gates)
      tsnDurs := some (padded gclEntries durations) }
  else nvs

/-- The gate list of `htsn_cfg_load_tsn_state`: its length and its arrays. -/
def Nvs.loadGcl (nvs : Nvs) : Int32 × (Fin gclMax → Int32) × (Fin gclMax → Int64) :=
  match nvs.tsnGclCnt, nvs.tsnGates, nvs.tsnDurs with
  | some cnt, some g, some d =>
      if cnt > 0 ∧ cnt ≤ 32 then (cnt, g, d) else (0, fun _ => 0, fun _ => 0)
  | _, _, _ => (0, fun _ => 0, fun _ => 0)

/-- `htsn_cfg_load_tsn_state`; `none` where it returns false. Of the arrays
only the first `gclEntries` places are set. -/
def Nvs.loadTsnState (nvs : Nvs) : Option RawState :=
  nvs.tsnPrio.map fun priority =>
    { priority
      trafficClass := nvs.tsnTc.getD 0
      preemption := nvs.tsnPre.getD 0
      vlanId := nvs.tsnVlan.getD 0
      timesyncMode := nvs.tsnTmode.getD 0
      tasCycleNs := nvs.tsnCycle.getD 0
      gclEntries := nvs.loadGcl.1
      gates := nvs.loadGcl.2.1
      durations := nvs.loadGcl.2.2 }

/-! ### The node -/

/-- NVS, `g_state`, `g_loaded` and `g_streams`. -/
structure Node where
  nvs : Nvs := {}
  state : RawState := {}
  loaded : Bool := false
  streams : Slots Stream streamMax := .empty

/-- `load_persisted` -/
def Node.loadPersisted (n : Node) : Node :=
  if n.loaded then n
  else
    match n.nvs.loadTsnState with
    | none => { n with loaded := true }
    | some s =>
        { n with
          loaded := true
          state :=
            { s with
              gates := fun i => if (i : Int) < s.gclEntries.toInt then s.gates i else n.state.gates i
              durations := fun i =>
                if (i : Int) < s.gclEntries.toInt then s.durations i else n.state.durations i } }

/-- `htsn_tsn_restore` -/
def Node.tsnRestore (n : Node) : Node := n.loadPersisted

/-- `htsn_tsn_apply_snapshot`, which always returns 0. -/
def Node.tsnApplySnapshot (n : Node) (cfg : ConfigSnapshot) : Node :=
  let t := n.state.applyQos cfg.priority cfg.trafficClass cfg.bandwidthKbps cfg.latencyMs
    cfg.preemption
  let t := t.applyVlan cfg.vlanId cfg.group.chars
  let t := t.applyTimesync cfg.timesyncMode cfg.grandmaster.chars
  let t := t.applyTas cfg.tasCycleNs (some cfg.gates) (some cfg.durations) cfg.gclEntries
  let t := t.applyPreemption cfg.preemption [] []
  { n with
    state := t
    nvs := n.nvs.saveTsnState t.priority t.trafficClass t.vlanId t.preemption t.timesyncMode
      t.tasCycleNs (some t.gates) (some t.durations) t.gclEntries }

/-- `htsn_tsn_reset_state` -/
def Node.tsnResetState (n : Node) : Node :=
  { n with
    loaded := true
    state := {}
    nvs := n.nvs.saveTsnState 0 0 0 0 0 0 none none 0 }

/-- The same node right after power-on: only NVS is left. -/
def Node.powerOn (n : Node) : Node := { nvs := n.nvs }

/-- What `app_main` does to the network keys: a list that is empty gets the
network of the old keys. -/
def Nvs.migrate (nvs : Nvs) : Nvs :=
  if nvs.netList.items = [] then
    (nvs.netAdd (nvsGetStr nvs.wifiSsid 64) (nvsGetStr nvs.wifiPass 64)).1
  else nvs

/-- `app_main` up to the start of WiFi. Without a network the node stays in
provisioning mode and does not get to restore anything. -/
def Node.appMain (n : Node) : Node :=
  if nvsGetStr n.nvs.wifiSsid 64 = [] then n else Node.tsnRestore { n with nvs := n.nvs.migrate }

/-- `esp_restart` -/
def Node.restart (n : Node) : Node := n.powerOn.appMain

/-! ### What a save leaves -/

/-- The list fits its arrays, and they are zero behind it. -/
structure RawState.WellFormed (t : RawState) : Prop where
  nonneg : 0 ≤ t.gclEntries.toInt
  fits : t.gclEntries.toInt ≤ 32
  gates : t.gates = padded t.gclEntries (some t.gates)
  durations : t.durations = padded t.gclEntries (some t.durations)

/-- NVS holds the values of a state. Of an empty list only the length is
there; the arrays of an earlier one may be left behind it. -/
structure Nvs.Holds (nvs : Nvs) (t : RawState) : Prop where
  prio : nvs.tsnPrio = some t.priority
  tc : nvs.tsnTc = some t.trafficClass
  vlan : nvs.tsnVlan = some t.vlanId
  pre : nvs.tsnPre = some t.preemption
  tmode : nvs.tsnTmode = some t.timesyncMode
  cycle : nvs.tsnCycle = some t.tasCycleNs
  count : nvs.tsnGclCnt = some t.gclEntries
  arrays : t.gclEntries > 0 → nvs.tsnGates = some t.gates ∧ nvs.tsnDurs = some t.durations

theorem padded_zero {α : Type} [Zero α] (entries : Int32) :
    padded entries (some fun _ => (0 : α)) = fun _ => 0 := by
  funext i
  simp [padded]

theorem wellFormed_default : RawState.WellFormed {} :=
  ⟨by decide, by decide, (padded_zero 0).symm, (padded_zero 0).symm⟩

theorem clampEntries_toInt (entries : Int32) :
    0 ≤ (clampEntries entries).toInt ∧ (clampEntries entries).toInt ≤ 32 := by
  have hzero : (0 : Int32).toInt = 0 := rfl
  have hmax : (32 : Int32).toInt = 32 := rfl
  simp only [clampEntries, Int32.lt_iff_toInt_lt, gt_iff_lt]
  split <;> split <;> omega

theorem padded_padded {α : Type} [Zero α] (entries : Int32) (arr : Option (Fin gclMax → α)) :
    padded entries (some (padded entries arr)) = padded entries arr := by
  funext i
  by_cases hi : (i : Int) < entries.toInt <;> simp [padded, hi]

theorem wellFormed_applyTas (t : RawState) (cycleNs : Int64) (gates : Option (Fin gclMax → Int32))
    (durations : Option (Fin gclMax → Int64)) (entries : Int32) :
    (t.applyTas cycleNs gates durations entries).WellFormed where
  nonneg := (clampEntries_toInt entries).1
  fits := (clampEntries_toInt entries).2
  gates := (padded_padded _ gates).symm
  durations := (padded_padded _ durations).symm

/-- Saving a state makes NVS hold it, whatever was there. -/
theorem holds_saveTsnState (nvs : Nvs) {t : RawState} (ht : t.WellFormed) :
    (nvs.saveTsnState t.priority t.trafficClass t.vlanId t.preemption t.timesyncMode t.tasCycleNs
      (some t.gates) (some t.durations) t.gclEntries).Holds t := by
  rw [Nvs.saveTsnState]
  split
  · refine ⟨rfl, rfl, rfl, rfl, rfl, rfl, rfl, fun _ => ⟨?_, ?_⟩⟩
    · exact congrArg some ht.gates.symm
    · exact congrArg some ht.durations.symm
  · rename_i hempty
    refine ⟨rfl, rfl, rfl, rfl, rfl, rfl, rfl, fun hpos => ?_⟩
    exact absurd ⟨hpos, rfl, rfl⟩ hempty

theorem holds_tsnResetState (n : Node) : n.tsnResetState.nvs.Holds {} := by
  have hzero : ¬ (0 : Int32) > 0 := by decide
  rw [Node.tsnResetState, Nvs.saveTsnState, if_neg fun h => hzero h.1]
  exact ⟨rfl, rfl, rfl, rfl, rfl, rfl, rfl, fun h => absurd h hzero⟩

/-- Preemption is set once more behind the list, which leaves the list as it
is. -/
theorem wellFormed_tsnApplySnapshot (n : Node) (cfg : ConfigSnapshot) :
    (n.tsnApplySnapshot cfg).state.WellFormed := by
  obtain ⟨hnonneg, hfits, hgates, hdurations⟩ :=
    wellFormed_applyTas n.state cfg.tasCycleNs (some cfg.gates) (some cfg.durations) cfg.gclEntries
  exact ⟨hnonneg, hfits, hgates, hdurations⟩

theorem holds_tsnApplySnapshot (n : Node) (cfg : ConfigSnapshot) :
    (n.tsnApplySnapshot cfg).nvs.Holds (n.tsnApplySnapshot cfg).state :=
  holds_saveTsnState n.nvs (wellFormed_tsnApplySnapshot n cfg)

theorem loadGcl_of_holds {nvs : Nvs} {t : RawState} (ht : t.WellFormed) (h : nvs.Holds t) :
    nvs.loadGcl.1 = t.gclEntries ∧
      ∀ i : Fin gclMax, (i : Int) < t.gclEntries.toInt →
        nvs.loadGcl.2.1 i = t.gates i ∧ nvs.loadGcl.2.2 i = t.durations i := by
  by_cases hpos : t.gclEntries > 0
  · obtain ⟨hgates, hdurs⟩ := h.arrays hpos
    have hfits : t.gclEntries ≤ 32 := Int32.le_iff_toInt_le.mpr ht.fits
    simp only [Nvs.loadGcl, h.count, hgates, hdurs, hpos, hfits, and_self, if_true, implies_true]
  · have hzero : t.gclEntries.toInt = 0 := by
      have hle : ¬ (0 : Int32).toInt < t.gclEntries.toInt := fun hlt =>
        hpos (Int32.lt_iff_toInt_lt.mpr hlt)
      have hnonneg := ht.nonneg
      have h0 : (0 : Int32).toInt = 0 := rfl
      omega
    have hcount : nvs.loadGcl.1 = t.gclEntries := by
      have heq : t.gclEntries = 0 := Int32.toInt_inj.mp hzero
      rw [Nvs.loadGcl, h.count]
      split
      · rename_i cnt g d hcnt _ _
        cases hcnt
        rw [if_neg fun hh => hpos hh.1, heq]
      · exact heq.symm
    refine ⟨hcount, fun i hi => ?_⟩
    omega

/-- The places read back, over an array of zeros. -/
theorem restored_eq {α : Type} [Zero α] {entries : Int32} {blob arr : Fin gclMax → α}
    (hpad : arr = padded entries (some arr))
    (hsame : ∀ i : Fin gclMax, (i : Int) < entries.toInt → blob i = arr i) :
    (fun i : Fin gclMax => if (i : Int) < entries.toInt then blob i else 0) = arr := by
  rw [hpad]
  funext i
  by_cases hi : (i : Int) < entries.toInt
  · simp only [padded, hi, if_true, hsame i hi]
    rfl
  · simp only [padded, hi, if_false]

/-- A state that NVS holds is restored as it was, with all its places: what an
earlier, longer list left in NVS does not show. -/
theorem tsnRestore_of_holds {n : Node} {t : RawState} (ht : t.WellFormed) (h : n.nvs.Holds t) :
    n.powerOn.tsnRestore.state = t := by
  obtain ⟨hcount, harrays⟩ := loadGcl_of_holds ht h
  have hload : n.nvs.loadTsnState = some
      { priority := t.priority
        trafficClass := t.trafficClass
        preemption := t.preemption
        vlanId := t.vlanId
        timesyncMode := t.timesyncMode
        tasCycleNs := t.tasCycleNs
        gclEntries := t.gclEntries
        gates := n.nvs.loadGcl.2.1
        durations := n.nvs.loadGcl.2.2 } := by
    rw [Nvs.loadTsnState, h.prio, h.tc, h.pre, h.vlan, h.tmode, h.cycle, hcount]
    rfl
  have hgates := restored_eq ht.gates fun i hi => (harrays i hi).1
  have hdurations := restored_eq ht.durations fun i hi => (harrays i hi).2
  rw [Node.tsnRestore, Node.loadPersisted, Node.powerOn, if_neg Bool.false_ne_true]
  simp only [hload, hgates, hdurations]

/-! ### Keys that are left alone -/

/-- Only keys of the networks differ. -/
def Nvs.SameTsn (nvs nvs' : Nvs) : Prop :=
  nvs' = { nvs with wifiSsid := nvs'.wifiSsid, wifiPass := nvs'.wifiPass, netList := nvs'.netList }

theorem Nvs.SameTsn.refl (nvs : Nvs) : nvs.SameTsn nvs := rfl

theorem Nvs.SameTsn.loadTsnState {nvs nvs' : Nvs} (h : nvs.SameTsn nvs') :
    nvs'.loadTsnState = nvs.loadTsnState := by
  rw [h]
  rfl

theorem Nvs.SameTsn.holds {nvs nvs' : Nvs} (hsame : nvs.SameTsn nvs') {t : RawState}
    (h : nvs.Holds t) : nvs'.Holds t := by
  rw [hsame]
  exact ⟨h.prio, h.tc, h.vlan, h.pre, h.tmode, h.cycle, h.count, h.arrays⟩

theorem Nvs.sameTsn_netAdd (nvs : Nvs) (ssid pass : CStr) : nvs.SameTsn (nvs.netAdd ssid pass).1 := by
  rw [Nvs.netAdd]
  split
  · rfl
  · dsimp only
    split <;> rfl

theorem Node.loadPersisted_nvs (n : Node) : n.loadPersisted.nvs = n.nvs := by
  rw [Node.loadPersisted]
  split
  · rfl
  · split <;> rfl

theorem Node.loadPersisted_loaded (n : Node) : n.loadPersisted.loaded = true := by
  rw [Node.loadPersisted]
  split
  · assumption
  · split <;> rfl

/-- A second restore does nothing. -/
theorem Node.tsnRestore_tsnRestore (n : Node) : n.tsnRestore.tsnRestore = n.tsnRestore :=
  if_pos n.loadPersisted_loaded

theorem Nvs.sameTsn_migrate (nvs : Nvs) : nvs.SameTsn nvs.migrate := by
  rw [Nvs.migrate]
  split
  · exact nvs.sameTsn_netAdd _ _
  · rfl

theorem Node.restart_eq (n : Node) :
    n.restart =
      if nvsGetStr n.nvs.wifiSsid 64 = [] then n.powerOn else Node.tsnRestore { nvs := n.nvs.migrate } :=
  rfl

theorem Node.sameTsn_restart (n : Node) : n.nvs.SameTsn n.restart.nvs := by
  rw [Node.restart_eq]
  split
  · rfl
  · rw [Node.tsnRestore, Node.loadPersisted_nvs]
    exact n.nvs.sameTsn_migrate

/-- What a start restores depends on the TSN keys only. -/
theorem Node.restart_tsnRestore (n : Node) :
    n.restart.tsnRestore.state = n.powerOn.tsnRestore.state := by
  rw [Node.restart_eq]
  split
  · rfl
  · rw [Node.tsnRestore_tsnRestore]
    simp only [Node.tsnRestore, Node.loadPersisted, Node.powerOn, n.nvs.sameTsn_migrate.loadTsnState,
      Bool.false_eq_true, if_false]
    split <;> rfl

end Htsn.Esp32
