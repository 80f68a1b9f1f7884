import WirelessTsn.Esp32.Nvs
import WirelessTsn.Esp32.SnapshotFields

/-!
`apply_snapshot` of the ESP32 agent (`esp32-agent/main/main.c`) on a node with
its NVS. A snapshot is refused as a whole or installed as a whole, but the
values installed are those of the payload only if the searches for them stay
inside it. `Esp32.applySnapshot` is the same handler for the payloads none of
whose searches leaves the payload, on a state with a list for the gates.
-/

namespace Htsn.Esp32

open CText Json Keyed

/-- What `apply_snapshot` has read when it starts to check. -/
structure Parsed where
  havePrio : Bool
  cfg : ConfigSnapshot

/-- The reading half of `apply_snapshot`. -/
def parseSnapshot (payload : CStr) (behind : List CStr) : Parsed :=
  let mem := payload :: behind
  let prio := getIntIn mem "priority".toList
  { havePrio := prio.isSome
    cfg :=
      { priority := prio.getD 0
        trafficClass := (getIntIn mem "traffic_class".toList).getD 0
        bandwidthKbps := (getIntIn mem "bandwidth_kbps".toList).getD 0
        latencyMs := (getIntIn mem "latency_ms".toList).getD 0
        preemption := (getIntIn mem "preemption".toList).getD 0
        vlanId := (getIntIn mem "vlan_id".toList).getD 0
        group := Buf.copy 32 ((getStrIn mem "group".toList 32).getD [])
        timesyncMode := (getIntIn mem "timesync_mode".toList).getD 0
        grandmaster := Buf.copy 32 ((getStrIn mem "grandmaster".toList 32).getD [])
        tasCycleNs := (getI64In mem "tas_cycle_ns".toList).getD 0
        gcl := ((getRootArrayIn mem "gcl".toList).map fun arr => parseGclIn arr gclMax).getD [] } }

/-- The checks, with the reason of the one that fails. -/
def Parsed.refusal (p : Parsed) : Option CStr :=
  if p.havePrio = true ∧ (p.cfg.priority < 0 ∨ p.cfg.priority > 7) then some "bad_priority".toList
  else if p.cfg.preemption < 0 ∨ p.cfg.preemption > 1 then some "bad_preemption".toList
  else if p.cfg.timesyncMode < 0 ∨ p.cfg.timesyncMode > 3 then some "bad_timesync_mode".toList
  else none

/-- `apply_snapshot` -/
def Node.applySnapshot (n : Node) (payload : CStr) (behind : List CStr) : Node × Ack :=
  if payload.head? ≠ some '\x7b' then (n, ⟨false, "bad_json".toList⟩)
  else
    match (parseSnapshot payload behind).refusal with
    | some reason => (n, ⟨false, reason⟩)
    | none => (n.tsnApplySnapshot (parseSnapshot payload behind).cfg, ⟨true, []⟩)

/-! ### The state with a list -/

/-- The gate list. -/
def RawState.gcl (t : RawState) : List (Int32 × Int64) :=
  (List.ofFn fun i => (t.gates i, t.durations i)).take t.gclEntries.toInt.toNat

/-- The state without the places behind the list. -/
def RawState.abs (t : RawState) : TsnState :=
  { priority := t.priority
    trafficClass := t.trafficClass
    preemption := t.preemption
    vlanId := t.vlanId
    timesyncMode := t.timesyncMode
    tasCycleNs := t.tasCycleNs
    gcl := t.gcl }

/-- The state that a snapshot asks for. -/
def ConfigSnapshot.tsnState (cfg : ConfigSnapshot) : TsnState :=
  { priority := cfg.priority
    trafficClass := cfg.trafficClass
    preemption := cfg.preemption
    vlanId := cfg.vlanId
    timesyncMode := cfg.timesyncMode
    tasCycleNs := cfg.tasCycleNs
    gcl := cfg.gcl }

/-- A node as an agent whose store holds states. -/
def Node.agent (n : Node) : Agent :=
  { state := n.state.abs, saved := n.nvs.loadTsnState.map RawState.abs, streams := n.streams }

theorem gclLoopIn_length (behind : List CStr) (n : Nat) (p : CStr) :
    (gclLoopIn behind n p).length ≤ n := by
  induction n generalizing p with
  | zero => exact Nat.le_refl 0
  | succ n ih =>
      rw [gclLoopIn]
      split
      · exact Nat.zero_le _
      · split
        · exact Nat.zero_le _
        · rw [List.length_cons]
          apply Nat.succ_le_succ
          split
          · exact Nat.zero_le _
          · exact ih _

theorem parseSnapshot_gcl_length (payload : CStr) (behind : List CStr) :
    (parseSnapshot payload behind).cfg.gcl.length ≤ 32 := by
  simp only [parseSnapshot]
  cases getRootArrayIn (payload :: behind) "gcl".toList with
  | none => exact Nat.zero_le _
  | some arr => exact gclLoopIn_length _ _ _

theorem int32_ofNat_toInt {k : Nat} (h : k ≤ 32) : (Int32.ofNat k).toInt = k :=
  Int32.toInt_ofNat_of_lt (by omega)

theorem clampEntries_ofNat {k : Nat} (h : k ≤ 32) : clampEntries (Int32.ofNat k) = Int32.ofNat k := by
  have htoInt := int32_ofNat_toInt h
  have hmax : (32 : Int32).toInt = 32 := rfl
  have hzero : (0 : Int32).toInt = 0 := rfl
  have hbig : ¬ Int32.ofNat k > 32 := by
    rw [gt_iff_lt, Int32.lt_iff_toInt_lt]
    omega
  have hneg : ¬ Int32.ofNat k < 0 := by
    rw [Int32.lt_iff_toInt_lt]
    omega
  simp only [clampEntries, hbig, hneg, if_false]

/-- A list that fits the arrays is there again. -/
theorem gcl_applyTas (t : RawState) (cycleNs : Int64) {cfg : ConfigSnapshot}
    (hfits : cfg.gcl.length ≤ 32) :
    (t.applyTas cycleNs (some cfg.gates) (some cfg.durations) cfg.gclEntries).gcl = cfg.gcl := by
  have hcount := int32_ofNat_toInt hfits
  have hlen : gclMax = 32 := rfl
  apply List.ext_getElem
  · simp only [RawState.gcl, RawState.applyTas, ConfigSnapshot.gclEntries, clampEntries_ofNat hfits, hcount,
      List.length_take, List.length_ofFn, Int.toNat_natCast]
    omega
  · intro i hi hi'
    have hlt : (i : Int) < (Int32.ofNat cfg.gcl.length).toInt := by omega
    simp only [RawState.gcl, RawState.applyTas, ConfigSnapshot.gclEntries, clampEntries_ofNat hfits,
      List.getElem_take, List.getElem_ofFn, padded, hlt, if_true, Option.map_some, Option.getD_some,
      ConfigSnapshot.gates, ConfigSnapshot.durations, List.getD_eq_getElem?_getD,
      List.getElem?_eq_getElem hi']

theorem gcl_applyPreemption (t : RawState) (enabled : Int32) (emac pmac : CStr) :
    (t.applyPreemption enabled emac pmac).gcl = t.gcl := rfl

theorem gcl_tsnApplySnapshot (n : Node) {cfg : ConfigSnapshot} (hfits : cfg.gcl.length ≤ 32) :
    (n.tsnApplySnapshot cfg).state.gcl = cfg.gcl := by
  simp only [Node.tsnApplySnapshot, gcl_applyPreemption]
  exact gcl_applyTas _ cfg.tasCycleNs hfits

theorem abs_tsnApplySnapshot (n : Node) {cfg : ConfigSnapshot} (hfits : cfg.gcl.length ≤ 32) :
    (n.tsnApplySnapshot cfg).state.abs = cfg.tsnState := by
  rw [RawState.abs, gcl_tsnApplySnapshot n hfits]
  rfl

/-- Of what is loaded, only the list counts. -/
theorem loadTsnState_abs {nvs : Nvs} {t : RawState} (ht : t.WellFormed) (h : nvs.Holds t) :
    nvs.loadTsnState.map RawState.abs = some t.abs := by
  obtain ⟨hcount, harrays⟩ := loadGcl_of_holds ht h
  have hlist : (List.ofFn fun i => (nvs.loadGcl.2.1 i, nvs.loadGcl.2.2 i)).take t.gclEntries.toInt.toNat =
      t.gcl := by
    apply List.ext_getElem
    · simp [RawState.gcl]
    · intro i hi hi'
      have hlt : (i : Int) < t.gclEntries.toInt := by
        have hmin := lt_of_lt_of_le hi (List.length_take_le _ _)
        omega
      have hmax : i < gclMax := by
        have hmin := lt_of_lt_of_le hi (List.length_take_le' _ _)
        rwa [List.length_ofFn] at hmin
      obtain ⟨hgate, hduration⟩ := harrays ⟨i, hmax⟩ hlt
      simp only [RawState.gcl, List.getElem_take, List.getElem_ofFn, hgate, hduration]
  rw [Nvs.loadTsnState, h.prio, h.tc, h.pre, h.vlan, h.tmode, h.cycle, hcount]
  simp only [Option.map_some, RawState.abs, RawState.gcl, Option.getD_some]
  rw [hlist]
  rfl

theorem agent_tsnApplySnapshot (n : Node) {cfg : ConfigSnapshot} (hfits : cfg.gcl.length ≤ 32) :
    (n.tsnApplySnapshot cfg).agent = Esp32.tsnApplySnapshot n.agent cfg := by
  have hstate : (n.tsnApplySnapshot cfg).state.abs = cfg.tsnState := abs_tsnApplySnapshot n hfits
  have hagent : (Esp32.tsnApplySnapshot n.agent cfg).state = cfg.tsnState := by
    have hlist : cfg.gcl.take gclMax = cfg.gcl := List.take_of_length_le hfits
    simp only [Esp32.tsnApplySnapshot, Esp32.applyQos, Esp32.applyVlan, Esp32.applyTimesync,
      Esp32.applyTas, Esp32.applyPreemption, hlist, ConfigSnapshot.tsnState]
  have hsaved : (n.tsnApplySnapshot cfg).nvs.loadTsnState.map RawState.abs = some cfg.tsnState := by
    rw [loadTsnState_abs (wellFormed_tsnApplySnapshot n cfg) (holds_tsnApplySnapshot n cfg), hstate]
  rw [Node.agent, hstate, hsaved, ← hagent]
  rfl

/-! ### Payloads that no search leaves -/

/-- The reading half of `Esp32.applySnapshot`. -/
def parseInside (payload : CStr) : Option Parsed := do
  let prio ← getInt payload "priority".toList
  let trafficClass ← getInt payload "traffic_class".toList
  let bandwidthKbps ← getInt payload "bandwidth_kbps".toList
  let latencyMs ← getInt payload "latency_ms".toList
  let preemption ← getInt payload "preemption".toList
  let vlanId ← getInt payload "vlan_id".toList
  let group ← getStr payload "group".toList 32
  let timesyncMode ← getInt payload "timesync_mode".toList
  let grandmaster ← getStr payload "grandmaster".toList 32
  let tasCycleNs ← getI64 payload "tas_cycle_ns".toList
  let arr ← getRootArray payload "gcl".toList
  let gcl ← (arr.map fun p => parseGcl p gclMax).getD (some [])
  some
    { havePrio := prio.isSome
      cfg :=
        { priority := prio.getD 0
          trafficClass := trafficClass.getD 0
          bandwidthKbps := bandwidthKbps.getD 0
          latencyMs := latencyMs.getD 0
          preemption := preemption.getD 0
          vlanId := vlanId.getD 0
          group := Buf.copy 32 (group.getD [])
          timesyncMode := timesyncMode.getD 0
          grandmaster := Buf.copy 32 (grandmaster.getD [])
          tasCycleNs := tasCycleNs.getD 0
          gcl } }

theorem parseSnapshot_of_inside {payload : CStr} {p : Parsed} (h : parseInside payload = some p)
    (behind : List CStr) : parseSnapshot payload behind = p := by
  obtain ⟨prio, hprio, h⟩ := Option.bind_eq_some_iff.mp h
  obtain ⟨trafficClass, htc, h⟩ := Option.bind_eq_some_iff.mp h
  obtain ⟨bandwidthKbps, hbw, h⟩ := Option.bind_eq_some_iff.mp h
  obtain ⟨latencyMs, hlat, h⟩ := Option.bind_eq_some_iff.mp h
  obtain ⟨preemption, hpre, h⟩ := Option.bind_eq_some_iff.mp h
  obtain ⟨vlanId, hvlan, h⟩ := Option.bind_eq_some_iff.mp h
  obtain ⟨group, hgroup, h⟩ := Option.bind_eq_some_iff.mp h
  obtain ⟨timesyncMode, hmode, h⟩ := Option.bind_eq_some_iff.mp h
  obtain ⟨grandmaster, hgm, h⟩ := Option.bind_eq_some_iff.mp h
  obtain ⟨tasCycleNs, hcycle, h⟩ := Option.bind_eq_some_iff.mp h
  obtain ⟨arr, harr, h⟩ := Option.bind_eq_some_iff.mp h
  obtain ⟨gcl, hgcl, h⟩ := Option.bind_eq_some_iff.mp h
  cases h
  have hlist : ((getRootArrayIn (payload :: behind) "gcl".toList).map fun a =>
      parseGclIn a gclMax).getD [] = gcl := by
    rw [getRootArrayIn_lookup harr]
    cases arr with
    | none =>
        cases hgcl
        rfl
    | some p => exact gclLoopIn_gclLoop hgcl
  simp only [parseSnapshot, getIntIn, getI64In, getStrIn, readIn_lookup hprio, readIn_lookup htc,
    readIn_lookup hbw, readIn_lookup hlat, readIn_lookup hpre, readIn_lookup hvlan,
    readIn_lookup hgroup, readIn_lookup hmode, readIn_lookup hgm, readIn_lookup hcycle, hlist]

/-- The checking half of `Esp32.applySnapshot`. -/
def finish (a : Agent) (p : Parsed) : Agent × Ack :=
  match p.refusal with
  | some reason => (a, ⟨false, reason⟩)
  | none => (Esp32.tsnApplySnapshot a p.cfg, ⟨true, []⟩)

theorem some_finish (a : Agent) (p : Parsed) :
    some (finish a p) =
      if p.havePrio = true ∧ (p.cfg.priority < 0 ∨ p.cfg.priority > 7) then
        some (a, ⟨false, "bad_priority".toList⟩)
      else if p.cfg.preemption < 0 ∨ p.cfg.preemption > 1 then
        some (a, ⟨false, "bad_preemption".toList⟩)
      else if p.cfg.timesyncMode < 0 ∨ p.cfg.timesyncMode > 3 then
        some (a, ⟨false, "bad_timesync_mode".toList⟩)
      else some (Esp32.tsnApplySnapshot a p.cfg, ⟨true, []⟩) := by
  rw [finish, Parsed.refusal]
  split_ifs <;> rfl

theorem applySnapshot_eq (a : Agent) (payload : CStr) :
    Esp32.applySnapshot a payload =
      if payload.head? ≠ some '\x7b' then some (a, ⟨false, "bad_json".toList⟩)
      else (parseInside payload).map (finish a) := by
  rw [Esp32.applySnapshot, parseInside]
  split
  · rfl
  · rcases getInt payload "priority".toList with _ | prio
    · rfl
    rcases getInt payload "traffic_class".toList with _ | trafficClass
    · rfl
    rcases getInt payload "bandwidth_kbps".toList with _ | bandwidthKbps
    · rfl
    rcases getInt payload "latency_ms".toList with _ | latencyMs
    · rfl
    rcases getInt payload "preemption".toList with _ | preemption
    · rfl
    rcases getInt payload "vlan_id".toList with _ | vlanId
    · rfl
    rcases getStr payload "group".toList 32 with _ | group
    · rfl
    rcases getInt payload "timesync_mode".toList with _ | timesyncMode
    · rfl
    rcases getStr payload "grandmaster".toList 32 with _ | grandmaster
    · rfl
    rcases getI64 payload "tas_cycle_ns".toList with _ | tasCycleNs
    · rfl
    rcases getRootArray payload "gcl".toList with _ | arr
    · rfl
    simp only [Option.bind_eq_bind, Option.bind_some]
    rcases arr with _ | p
    · simp only [Option.map_none, Option.getD_none, Option.bind_some, Option.map_some, some_finish]
    · simp only [Option.map_some, Option.getD_some]
      rcases parseGcl p gclMax with _ | gcl
      · rfl
      · simp only [Option.bind_some, Option.map_some, some_finish]

/-- On a payload that no search leaves, a node does what the agent with a list
for the gates does. -/
theorem applySnapshot_agent {n : Node} {payload : CStr} {r : Agent × Ack}
    (h : Esp32.applySnapshot n.agent payload = some r) (behind : List CStr) :
    ((n.applySnapshot payload behind).1.agent, (n.applySnapshot payload behind).2) = r := by
  rw [applySnapshot_eq] at h
  rw [Node.applySnapshot]
  split at h
  · rename_i hhead
    cases h
    rw [if_pos hhead]
  · rename_i hhead
    obtain ⟨p, hp, rfl⟩ := Option.map_eq_some_iff.mp h
    have hfits := parseSnapshot_gcl_length payload behind
    rw [if_neg hhead]
    rw [parseSnapshot_of_inside hp behind] at hfits ⊢
    rw [finish]
    cases p.refusal with
    | some reason => rfl
    | none => exact congrArg (·, Ack.mk true []) (agent_tsnApplySnapshot n hfits)

/-! ### All or nothing -/

/-- The ranges that `apply_snapshot` checks. -/
structure RawState.InRange (t : RawState) : Prop where
  priority : 0 ≤ t.priority.toInt ∧ t.priority.toInt ≤ 7
  preemption : 0 ≤ t.preemption.toInt ∧ t.preemption.toInt ≤ 1
  timesyncMode : 0 ≤ t.timesyncMode.toInt ∧ t.timesyncMode.toInt ≤ 3
  gclEntries : 0 ≤ t.gclEntries.toInt ∧ t.gclEntries.toInt ≤ 32

section

variable {payload : CStr} {behind : List CStr}

/-- What `apply_snapshot` can do. -/
theorem applySnapshot_cases (n : Node) (payload : CStr) (behind : List CStr) :
    ((n.applySnapshot payload behind).1 = n ∧ (n.applySnapshot payload behind).2.ok = false ∧
      (payload.head? ≠ some '\x7b' ∨ (parseSnapshot payload behind).refusal ≠ none)) ∨
    (n.applySnapshot payload behind =
      (n.tsnApplySnapshot (parseSnapshot payload behind).cfg, ⟨true, []⟩) ∧
      payload.head? = some '\x7b' ∧ (parseSnapshot payload behind).refusal = none) := by
  rw [Node.applySnapshot]
  by_cases hhead : payload.head? = some '\x7b'
  · rw [if_neg (not_not.mpr hhead)]
    cases hrefusal : (parseSnapshot payload behind).refusal with
    | some reason => exact Or.inl ⟨rfl, rfl, Or.inr (by simp)⟩
    | none => exact Or.inr ⟨rfl, hhead, rfl⟩
  · rw [if_pos hhead]
    exact Or.inl ⟨rfl, rfl, Or.inl hhead⟩

theorem int32_range {v k : Int32} (h : ¬ (v < 0 ∨ v > k)) : 0 ≤ v.toInt ∧ v.toInt ≤ k.toInt := by
  have hzero : (0 : Int32).toInt = 0 := rfl
  rw [gt_iff_lt, Int32.lt_iff_toInt_lt, Int32.lt_iff_toInt_lt] at h
  omega

theorem refusal_eq_none_iff (p : Parsed) :
    p.refusal = none ↔
      (p.havePrio = true → ¬ (p.cfg.priority < 0 ∨ p.cfg.priority > 7)) ∧
        ¬ (p.cfg.preemption < 0 ∨ p.cfg.preemption > 1) ∧
        ¬ (p.cfg.timesyncMode < 0 ∨ p.cfg.timesyncMode > 3) := by
  rw [Parsed.refusal]
  split_ifs with hprio hpre hmode
  · simp [hprio]
  · simp [hpre]
  · simp [hmode]
  · simp only [true_iff]
    exact ⟨fun h hbad => hprio ⟨h, hbad⟩, hpre, hmode⟩

/-- A priority that was not read is zero, so the check need not look at it. -/
theorem inRange_of_accepted (n : Node) (h : (parseSnapshot payload behind).refusal = none) :
    (n.tsnApplySnapshot (parseSnapshot payload behind).cfg).state.InRange := by
  obtain ⟨hprio, hpre, hmode⟩ := (refusal_eq_none_iff _).mp h
  have hpriority : ¬ ((parseSnapshot payload behind).cfg.priority < 0 ∨
      (parseSnapshot payload behind).cfg.priority > 7) := by
    cases hread : getIntIn (payload :: behind) "priority".toList with
    | some v =>
        apply hprio
        simp only [parseSnapshot, hread, Option.isSome_some]
    | none =>
        simp only [parseSnapshot, hread, Option.getD_none]
        decide
  have hwell := wellFormed_tsnApplySnapshot n (parseSnapshot payload behind).cfg
  exact ⟨int32_range hpriority, int32_range hpre, int32_range hmode, hwell.nonneg, hwell.fits⟩

end

/-! ### Values from behind the payload -/

/-- Another message, left in memory behind the payload. -/
def strayMembers : List (Plain × Value) :=
  [(.lit "priority".toList, .ofInt 1), (.lit "traffic_class".toList, .ofInt 1),
    (.lit "preemption".toList, .ofInt 1), (.lit "vlan_id".toList, .ofInt 1),
    (.lit "timesync_mode".toList, .ofInt 1), (.lit "tas_cycle_ns".toList, .ofInt 1),
    (.lit "gate_state".toList, .ofInt 1), (.lit "duration_ns".toList, .ofInt 1),
    (.lit "gcl".toList, .ints .none [⟨.none, false, 1, .none⟩])]

def stray : CStr := (compactObject strayMembers).text

theorem readIn_stray {α : Type} (conv : CStr → α) {key : CStr} {later : List (Plain × Value)}
    (h : memberAt key strayMembers = some (.ofInt 1, later)) :
    readIn (readNumber 31 conv) [stray] key = some (conv "1".toList) := by
  apply readIn_lookup
  rw [stray, lookup_compact, h, Option.bind_some]
  exact congrArg some (readNumber_value (by decide) conv (.ofInt 1) .none [] _)

end Htsn.Esp32
