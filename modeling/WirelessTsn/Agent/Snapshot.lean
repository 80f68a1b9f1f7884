import WirelessTsn.Agent.Host
import WirelessTsn.Esp32.Agent

/-!
The two agents on one snapshot. The ESP32 agent reads the first member with a
key, the host agent what its scan over the text comes across, and it never
comes back from a search that reaches the end of the object.
-/

namespace Htsn

open CText Json

/-- A flat object whose numbers fit `int`. -/
structure FlatPayload (o : Object) : Prop where
  flat : ∀ m ∈ o.members, m.val.isFlat = true
  range : ∀ m ∈ o.members, ∀ v, m.val.number = some v → -(2 ^ 31) ≤ v ∧ v < 2 ^ 31

/-- The keys the host agent searches for. -/
def hostKeys : List CStr :=
  ["priority".toList, "traffic_class".toList, "bandwidth_kbps".toList, "latency_ms".toList,
    "preemption".toList, "vlan_id".toList, "timesync_mode".toList, "group".toList,
    "grandmaster".toList, "tas_cycle_ns".toList]

/-- The keys the ESP32 agent searches for. -/
def espKeys : List CStr := "gcl".toList :: hostKeys

/-- The keys of the six values that both agents apply. -/
def appliedKeys : List CStr :=
  ["priority".toList, "traffic_class".toList, "preemption".toList, "vlan_id".toList,
    "timesync_mode".toList, "tas_cycle_ns".toList]

/-- The operations called hand on the values of a state. -/
structure Applies (calls : List Host.OpCall) (t : Esp32.TsnState) : Prop where
  qos : ∃ bw lat, .applyQos t.priority t.trafficClass bw lat t.preemption ∈ calls
  vlan : ∃ group, .applyVlan t.vlanId group ∈ calls
  timesync : ∃ gm, .applyTimesync t.timesyncMode gm ∈ calls
  tas : .applyTas t.tasCycleNs ∈ calls

/-- Both agents come back from a payload with the same answer, and when it is
yes the host agent applies what the ESP32 agent stores. -/
def SpeakSame (o : Object) : Prop :=
  ∀ a : Esp32.Agent, ∃ fuel calls ok a' ack,
    Host.onApply fuel o.text = some (calls, ok) ∧
    Esp32.applySnapshot a o.text = some (a', ack) ∧ (ok = true ↔ ack.ok = true) ∧
    (ok = true → Applies calls a'.state)

/-- The member the host agent's scan comes across. -/
def hostMember (o : Object) (key : CStr) : Option Member :=
  match Host.hostScan key .past o.members with
  | .found m _ => some m
  | _ => none

/-- The integer the host agent reads. -/
def hostScalar (o : Object) (key : CStr) : Int := intOf (hostMember o key)

/-- The values the ESP32 agent checks are in range; a missing one counts as
zero. -/
structure InRange (o : Object) : Prop where
  priority : 0 ≤ scalarOf o "priority".toList ∧ scalarOf o "priority".toList ≤ 7
  preemption : 0 ≤ scalarOf o "preemption".toList ∧ scalarOf o "preemption".toList ≤ 1
  timesyncMode : 0 ≤ scalarOf o "timesync_mode".toList ∧ scalarOf o "timesync_mode".toList ≤ 3

/-- A payload both agents understand the same way. -/
structure Understood (o : Object) : Prop where
  ends : ∀ key ∈ hostKeys, Host.hostScan key .past o.members ≠ .hangs
  room : o.trail.chars = [] ∨ ∀ key ∈ espKeys, findMember key o.members ≠ none
  range : InRange o
  qos : ∃ m v, hostMember o "priority".toList = some m ∧ m.val.number = some v
  vlan : 0 < hostScalar o "vlan_id".toList
  same : ∀ key ∈ appliedKeys, hostScalar o key = scalarOf o key

/-! ### Numbers in the range of `int` -/

/-- A conversion that takes the number at the start of a text. -/
def Converts {α : Type} (conv : CStr → α) (of : Int → α) : Prop :=
  ∀ s v rest, scanInt s = some (v, rest) → -(2 ^ 31) ≤ v → v < 2 ^ 31 → conv s = of v

theorem converts_esp32 : Converts Esp32.atoi Int32.ofInt := by
  intro s v rest hscan hlo hhi
  rw [Esp32.atoi, hscan]
  show Int32.ofInt (max (-(2 ^ 31)) (min v (2 ^ 31 - 1))) = Int32.ofInt v
  congr 1
  omega

theorem converts_host : Converts atoi Int32.ofInt := by
  intro s v rest hscan hlo hhi
  rw [atoi, hscan]
  show Int32.ofInt (clampLong v) = Int32.ofInt v
  rw [clampLong_of_mem (by omega) (by omega)]

theorem converts_atoll : Converts atoll Int64.ofInt := by
  intro s v rest hscan hlo hhi
  rw [atoll, strtoll, hscan]
  show Int64.ofInt (clampLong v) = Int64.ofInt v
  rw [clampLong_of_mem (by omega) (by omega)]

theorem numText_length {neg : Bool} {n : Nat} (hlo : -(2 ^ 31) ≤ numVal neg n)
    (hhi : numVal neg n < 2 ^ 31) : (numText neg n).length ≤ 11 := by
  have hn : n < 10 ^ 10 := by
    cases neg with
    | true =>
        simp only [numVal, if_true] at hlo
        omega
    | false =>
        simp only [numVal, Bool.false_eq_true, if_false] at hhi
        omega
  have hdigits : (Nat.toDigits 10 n).length ≤ 10 :=
    (Nat.length_toDigits_le_iff (by omega) (by omega)).mpr hn
  cases neg with
  | true =>
      simp only [numText, if_true, List.length_cons]
      omega
  | false =>
      simp only [numText, Bool.false_eq_true, if_false]
      omega

/-- A number that fits `int` is read whole. -/
theorem readNumber_eq {α : Type} {conv : CStr → α} {of : Int → α} (hconv : Converts conv of)
    {cap : Nat} (hcap : 11 ≤ cap) {v : Value}
    (hrange : ∀ x, v.number = some x → -(2 ^ 31) ≤ x ∧ x < 2 ^ 31) :
    v.readNumber cap conv = v.number.map of := by
  cases v with
  | str s => rfl
  | lit l => rfl
  | ints pad items => rfl
  | num neg n tail =>
      obtain ⟨hlo, hhi⟩ := hrange (numVal neg n) rfl
      have hlen := numText_length hlo hhi
      have hscan := @scanInt_numText neg n [] (by simp)
      rw [List.append_nil] at hscan
      rw [Value.readNumber, List.take_of_length_le (by omega),
        hconv (numText neg n) (numVal neg n) [] hscan hlo hhi]
      rfl

/-- The number of a member, if it is there and holds one. -/
def numberAt (m : Option Member) : Option Int := m.bind fun m => m.val.number

theorem intOf_eq (m : Option Member) : intOf m = (numberAt m).getD 0 := by
  cases m with
  | none => rfl
  | some m =>
      simp only [intOf, numberAt, Option.map_some, Option.getD_some, Option.bind_some]
      cases m.val <;> rfl

theorem getD_map_ofInt {α : Type} {of : Int → α} (m : Option Member) :
    ((numberAt m).map of).getD (of 0) = of (intOf m) := by
  rw [intOf_eq]
  cases numberAt m <;> rfl

section

variable {o : Object} {key : CStr}

theorem FlatPayload.numberAt_range (h : FlatPayload o) {m : Option Member}
    (hm : ∀ x ∈ m, x ∈ o.members) {v : Int} (hv : numberAt m = some v) :
    -(2 ^ 31) ≤ v ∧ v < 2 ^ 31 := by
  cases m with
  | none => cases hv
  | some x => exact h.range x (hm x rfl) v hv

theorem FlatPayload.intOf_range (h : FlatPayload o) {m : Option Member}
    (hm : ∀ x ∈ m, x ∈ o.members) : -(2 ^ 31) ≤ intOf m ∧ intOf m < 2 ^ 31 := by
  rw [intOf_eq]
  cases hv : numberAt m with
  | none => decide
  | some v => exact h.numberAt_range hm hv

theorem FlatPayload.scalarOf_range (h : FlatPayload o) (key : CStr) :
    -(2 ^ 31) ≤ scalarOf o key ∧ scalarOf o key < 2 ^ 31 :=
  h.intOf_range fun _ hx => findMember_mem hx

/-! ### The ESP32 agent -/

/-- A search of the ESP32 agent stays inside the payload when it finds its key
or nothing trails the object. -/
theorem lookup_isSome_iff {α : Type} (read : CStr → Option α) :
    (∃ x, Esp32.lookup read o.text key = some x) ↔
      o.trail.chars = [] ∨ findMember key o.members ≠ none := by
  rw [Esp32.lookup_object]
  cases hloc : o.locate key with
  | some l =>
      obtain ⟨off, m, later⟩ := l
      simp [findMember_of_locate hloc]
  | none =>
      by_cases hnil : o.trail.chars = []
      · simp [hnil]
      · simp [hnil, findMember_of_locate_none hloc]

theorem lookup_number (h : FlatPayload o) {α : Type} {conv : CStr → α} {of : Int → α}
    (hconv : Converts conv of) (hroom : o.trail.chars = [] ∨ findMember key o.members ≠ none) :
    Esp32.lookup (readNumber 31 conv) o.text key =
      some ((numberAt (findMember key o.members)).map of) := by
  rw [Esp32.lookup_object]
  cases hloc : o.locate key with
  | none =>
      rw [findMember_of_locate_none hloc] at hroom ⊢
      rw [if_pos (hroom.resolve_right fun hne => hne rfl)]
      rfl
  | some l =>
      obtain ⟨off, m, later⟩ := l
      have hmem := findMember_mem (findMember_of_locate hloc)
      simp only [findMember_of_locate hloc]
      rw [readNumber_value (by decide), readNumber_eq hconv (by decide) (h.range m hmem)]
      rfl

/-- No member of a flat object is an array. -/
theorem getRootArray_flat (h : FlatPayload o)
    (hroom : o.trail.chars = [] ∨ findMember key o.members ≠ none) :
    Esp32.getRootArray o.text key = some none := by
  rw [Esp32.getRootArray, Esp32.lookup_object]
  cases hloc : o.locate key with
  | none =>
      rw [findMember_of_locate_none hloc] at hroom
      exact if_pos (hroom.resolve_right fun hne => hne rfl)
  | some l =>
      obtain ⟨off, m, later⟩ := l
      have hflat := h.flat m (findMember_mem (findMember_of_locate hloc))
      have hhead : (m.val.text (m.fin.chars ++ membersTail o.trail.chars later)).head? ≠ some '[' := by
        cases hval : m.val with
        | str s => simp [Value.text]
        | lit l => cases l <;> exact fun h => absurd (Option.some.inj h) (by decide)
        | ints pad items =>
            rw [hval] at hflat
            cases hflat
        | num neg n tail =>
            obtain ⟨c, cs, hnum⟩ := List.exists_cons_of_ne_nil (numText_ne_nil neg n)
            have hmem : c ∈ numText neg n := by
              rw [hnum]
              exact List.mem_cons_self
            rw [Value.text, hnum]
            rintro hc
            cases hc
            exact not_mem_numText (by decide) (by decide) neg n hmem
      exact congrArg some (if_neg hhead)

/-- The state holds the values of the object. -/
structure Stored (o : Object) (t : Esp32.TsnState) : Prop where
  priority : t.priority = Int32.ofInt (scalarOf o "priority".toList)
  trafficClass : t.trafficClass = Int32.ofInt (scalarOf o "traffic_class".toList)
  preemption : t.preemption = Int32.ofInt (scalarOf o "preemption".toList)
  vlanId : t.vlanId = Int32.ofInt (scalarOf o "vlan_id".toList)
  timesyncMode : t.timesyncMode = Int32.ofInt (scalarOf o "timesync_mode".toList)
  tasCycleNs : t.tasCycleNs = Int64.ofInt (scalarOf o "tas_cycle_ns".toList)

theorem int32_toInt {v : Int} (h : -(2 ^ 31) ≤ v ∧ v < 2 ^ 31) : (Int32.ofInt v).toInt = v :=
  Int32.toInt_ofInt_of_le (by omega) (by omega)

theorem int32_lt_iff {v w : Int} (hv : -(2 ^ 31) ≤ v ∧ v < 2 ^ 31)
    (hw : -(2 ^ 31) ≤ w ∧ w < 2 ^ 31) : Int32.ofInt v < Int32.ofInt w ↔ v < w := by
  rw [Int32.lt_iff_toInt_lt, int32_toInt hv, int32_toInt hw]

/-- A check against a range from zero. -/
theorem int32_outside_iff {v k : Int} (hv : -(2 ^ 31) ≤ v ∧ v < 2 ^ 31)
    (hk : -(2 ^ 31) ≤ k ∧ k < 2 ^ 31) :
    (Int32.ofInt v < 0 ∨ Int32.ofInt v > Int32.ofInt k) ↔ ¬ (0 ≤ v ∧ v ≤ k) := by
  have hneg : Int32.ofInt v < 0 ↔ v < 0 := @int32_lt_iff v 0 hv (by decide)
  have hbig : Int32.ofInt v > Int32.ofInt k ↔ k < v := int32_lt_iff hk hv
  rw [hneg, hbig]
  omega

theorem head_text (hlead : o.lead.chars = []) : o.text.head? = some '\x7b' := by
  rw [Object.text, hlead]
  rfl

theorem applySnapshot_flat (h : FlatPayload o) (hlead : o.lead.chars = [])
    (hroom : o.trail.chars = [] ∨ ∀ key ∈ espKeys, findMember key o.members ≠ none)
    (a : Esp32.Agent) :
    ∃ a' ack, Esp32.applySnapshot a o.text = some (a', ack) ∧ (ack.ok = true ↔ InRange o) ∧
      (InRange o → Stored o a'.state) := by
  have hkey : ∀ key ∈ espKeys, o.trail.chars = [] ∨ findMember key o.members ≠ none :=
    fun key hk => hroom.imp_right fun hall => hall key hk
  have hint : ∀ key ∈ espKeys, Esp32.getInt o.text key =
      some ((numberAt (findMember key o.members)).map Int32.ofInt) :=
    fun key hk => lookup_number h converts_esp32 (hkey key hk)
  have hcycle : Esp32.getI64 o.text "tas_cycle_ns".toList =
      some ((numberAt (findMember "tas_cycle_ns".toList o.members)).map Int64.ofInt) :=
    lookup_number h converts_atoll (hkey _ (by decide))
  obtain ⟨group, hgroup⟩ := (lookup_isSome_iff (readStr 32)).mpr (hkey "group".toList (by decide))
  obtain ⟨gm, hgm⟩ := (lookup_isSome_iff (readStr 32)).mpr (hkey "grandmaster".toList (by decide))
  have hgcl := getRootArray_flat h (hkey "gcl".toList (by decide))
  rw [Esp32.applySnapshot, if_neg (by simp [head_text hlead])]
  simp only [hint _ (by decide : "priority".toList ∈ espKeys),
    hint _ (by decide : "traffic_class".toList ∈ espKeys),
    hint _ (by decide : "bandwidth_kbps".toList ∈ espKeys),
    hint _ (by decide : "latency_ms".toList ∈ espKeys),
    hint _ (by decide : "preemption".toList ∈ espKeys),
    hint _ (by decide : "vlan_id".toList ∈ espKeys),
    hint _ (by decide : "timesync_mode".toList ∈ espKeys), hcycle, hgcl, Esp32.getStr, hgroup, hgm,
    Option.bind_eq_bind, Option.bind_some]
  have hget : ∀ key, ((numberAt (findMember key o.members)).map Int32.ofInt).getD 0 =
      Int32.ofInt (scalarOf o key) := fun key => getD_map_ofInt _
  have hlong : ((numberAt (findMember "tas_cycle_ns".toList o.members)).map Int64.ofInt).getD 0 =
      Int64.ofInt (scalarOf o "tas_cycle_ns".toList) := getD_map_ofInt _
  have hprio := @int32_outside_iff _ 7 (h.scalarOf_range "priority".toList) (by decide)
  have hpre := @int32_outside_iff _ 1 (h.scalarOf_range "preemption".toList) (by decide)
  have hmode := @int32_outside_iff _ 3 (h.scalarOf_range "timesync_mode".toList) (by decide)
  have hgiven : ((numberAt (findMember "priority".toList o.members)).map Int32.ofInt).isSome = true ∧
      (Int32.ofInt (scalarOf o "priority".toList) < 0 ∨
        Int32.ofInt (scalarOf o "priority".toList) > Int32.ofInt 7) ↔
      ¬ (0 ≤ scalarOf o "priority".toList ∧ scalarOf o "priority".toList ≤ 7) := by
    rw [hprio]
    refine and_iff_right_of_imp fun hout => ?_
    cases hnum : numberAt (findMember "priority".toList o.members) with
    | some v => rfl
    | none =>
        rw [scalarOf, intOf_eq, hnum] at hout
        exact absurd (by decide) hout
  simp only [hget, hlong]
  change ∃ a' ack, (if _ ∧ (_ ∨ _ > Int32.ofInt 7) then _ else if _ ∨ _ > Int32.ofInt 1 then _
    else if _ ∨ _ > Int32.ofInt 3 then _ else _) = some (a', ack) ∧ _
  simp only [hgiven, hpre, hmode]
  by_cases h7 : 0 ≤ scalarOf o "priority".toList ∧ scalarOf o "priority".toList ≤ 7
  · by_cases h1 : 0 ≤ scalarOf o "preemption".toList ∧ scalarOf o "preemption".toList ≤ 1
    · by_cases h3 : 0 ≤ scalarOf o "timesync_mode".toList ∧ scalarOf o "timesync_mode".toList ≤ 3
      · rw [if_neg (not_not_intro h7), if_neg (not_not_intro h1), if_neg (not_not_intro h3)]
        exact ⟨_, _, rfl, iff_of_true rfl ⟨h7, h1, h3⟩, fun _ => ⟨rfl, rfl, rfl, rfl, rfl, rfl⟩⟩
      · rw [if_neg (not_not_intro h7), if_neg (not_not_intro h1), if_pos h3]
        exact ⟨_, _, rfl, iff_of_false Bool.false_ne_true fun hr => h3 hr.timesyncMode,
          fun hr => absurd hr.timesyncMode h3⟩
    · rw [if_neg (not_not_intro h7), if_pos h1]
      exact ⟨_, _, rfl, iff_of_false Bool.false_ne_true fun hr => h1 hr.preemption,
        fun hr => absurd hr.preemption h1⟩
  · rw [if_pos h7]
    exact ⟨_, _, rfl, iff_of_false Bool.false_ne_true fun hr => h7 hr.priority,
      fun hr => absurd hr.priority h7⟩

theorem exists_of_bind {α β : Type} {x : Option α} {f : α → Option β} {y : β}
    (h : (x >>= f) = some y) : ∃ z, x = some z ∧ f z = some y :=
  Option.bind_eq_some_iff.mp h

/-- The ESP32 agent answers only when no search leaves the payload. -/
theorem room_of_applySnapshot (hlead : o.lead.chars = []) {a : Esp32.Agent}
    {x : Esp32.Agent × Esp32.Ack} (happ : Esp32.applySnapshot a o.text = some x) :
    o.trail.chars = [] ∨ ∀ key ∈ espKeys, findMember key o.members ≠ none := by
  by_cases htrail : o.trail.chars = []
  · exact Or.inl htrail
  · right
    have hfound : ∀ {α : Type} {read : CStr → Option α} {key : CStr} {y : Option α},
        Esp32.lookup read o.text key = some y → findMember key o.members ≠ none :=
      fun hy => ((lookup_isSome_iff _).mp ⟨_, hy⟩).resolve_left htrail
    rw [Esp32.applySnapshot, if_neg (by simp [head_text hlead])] at happ
    obtain ⟨_, h1, happ⟩ := exists_of_bind happ
    obtain ⟨_, h2, happ⟩ := exists_of_bind happ
    obtain ⟨_, h3, happ⟩ := exists_of_bind happ
    obtain ⟨_, h4, happ⟩ := exists_of_bind happ
    obtain ⟨_, h5, happ⟩ := exists_of_bind happ
    obtain ⟨_, h6, happ⟩ := exists_of_bind happ
    obtain ⟨_, h7, happ⟩ := exists_of_bind happ
    obtain ⟨_, h8, happ⟩ := exists_of_bind happ
    obtain ⟨_, h9, happ⟩ := exists_of_bind happ
    obtain ⟨_, h10, happ⟩ := exists_of_bind happ
    obtain ⟨_, h11, _⟩ := exists_of_bind happ
    intro key hkey
    simp only [espKeys, hostKeys, List.mem_cons, List.not_mem_nil, or_false] at hkey
    rcases hkey with rfl | rfl | rfl | rfl | rfl | rfl | rfl | rfl | rfl | rfl | rfl
    · exact hfound h11
    · exact hfound h1
    · exact hfound h2
    · exact hfound h3
    · exact hfound h4
    · exact hfound h5
    · exact hfound h6
    · exact hfound h8
    · exact hfound h7
    · exact hfound h9
    · exact hfound h10

/-! ### The host agent -/

theorem hostKeys_isKey : ∀ key ∈ hostKeys, IsKey key := by
  have halpha : ∀ key ∈ hostKeys, '"' ∉ key ∧ key.head?.any Char.isAlpha = true := by decide
  intro key hkey
  obtain ⟨hquote, hhead⟩ := halpha key hkey
  exact ⟨hquote, (Option.any_eq_true _ _).mp hhead⟩

/-- The text behind the key the host agent's scan comes across. -/
def hostText (o : Object) (key : CStr) : Option CStr :=
  match Host.hostScan key .past o.members with
  | .found m later => some (m.val.text (m.fin.chars ++ membersTail o.trail.chars later))
  | _ => none

theorem gives_iff {r : Option CStr} :
    (Host.hostScan key .past o.members).Gives o.trail.chars r ↔
      Host.hostScan key .past o.members ≠ .hangs ∧ r = hostText o key := by
  rw [hostText]
  cases Host.hostScan key .past o.members with
  | found m later => simp [Host.Sight.Gives]
  | nothing => simp [Host.Sight.Gives]
  | hangs => simp [Host.Sight.Gives]

theorem hostScan_mem {p : Host.Pass} {ms later : List Member} {m : Member}
    (h : Host.hostScan key p ms = .found m later) : m ∈ ms := by
  induction ms generalizing p with
  | nil => cases p <;> cases h
  | cons x ms ih =>
      cases p with
      | stuck => cases h
      | past =>
          rw [Host.hostScan] at h
          split at h
          · cases h
            exact List.mem_cons_self
          · exact List.mem_cons_of_mem x (ih h)
      | astray =>
          rw [Host.hostScan] at h
          split at h
          · cases h
          · exact List.mem_cons_of_mem x (ih h)
          · exact List.mem_cons_of_mem x (ih h)
          · exact List.mem_cons_of_mem x (ih h)

/-- With strings that all lead past their closing quote, a search comes back
exactly when its key is there. -/
theorem hostScan_ends_iff {ms : List Member} (hpast : ∀ m ∈ ms, Host.valuePass m.val = .past) :
    Host.hostScan key .past ms ≠ .hangs ↔ findMember key ms ≠ none := by
  induction ms with
  | nil => simp [Host.hostScan, findMember]
  | cons m ms ih =>
      rw [Host.hostScan, findMember]
      by_cases hkey : m.key.chars = key
      · simp [hkey]
      · rw [if_neg hkey, if_neg hkey, hpast m List.mem_cons_self]
        exact ih fun x hx => hpast x (List.mem_cons_of_mem m hx)

theorem hostMember_mem : ∀ m ∈ hostMember o key, m ∈ o.members := by
  intro m hm
  rw [hostMember] at hm
  split at hm
  · rename_i m' later hfound
    cases hm
    exact hostScan_mem hfound
  · cases hm

/-- The integers the host agent reads. -/
theorem hostText_number (h : FlatPayload o) (key : CStr) :
    (hostText o key).bind (readNumber 15 atoi) =
      (numberAt (hostMember o key)).map Int32.ofInt := by
  rw [hostText, hostMember]
  cases hscan : Host.hostScan key .past o.members with
  | nothing => rfl
  | hangs => rfl
  | found m later =>
      simp only [Option.bind_some, readNumber_value (by decide : 0 < 15), numberAt]
      exact readNumber_eq converts_host (by decide) (h.range m (hostScan_mem hscan))

theorem hostScalar_eq (key : CStr) :
    ((numberAt (hostMember o key)).map Int32.ofInt).getD 0 = Int32.ofInt (hostScalar o key) :=
  getD_map_ofInt _

theorem FlatPayload.hostScalar_range (h : FlatPayload o) (key : CStr) :
    -(2 ^ 31) ≤ hostScalar o key ∧ hostScalar o key < 2 ^ 31 :=
  h.intOf_range hostMember_mem

theorem cycleOf_hostText (h : FlatPayload o) (key : CStr) :
    Host.cycleOf (hostText o key) = Int64.ofInt (hostScalar o key) := by
  rw [hostText, hostScalar, hostMember]
  cases hscan : Host.hostScan key .past o.members with
  | nothing => rfl
  | hangs => rfl
  | found m later =>
      simp only [Host.cycleOf, intOf, Option.map_some, Option.getD_some]
      cases hval : m.val with
      | str s => rfl
      | lit l => cases l <;> rfl
      | ints pad items =>
          have hflat := h.flat m (hostScan_mem hscan)
          rw [hval] at hflat
          cases hflat
      | num neg n tail =>
          obtain ⟨c, cs, hnum, hc⟩ := numText_head neg n
          have hrange := h.range m (hostScan_mem hscan) (numVal neg n) (by rw [hval]; rfl)
          have hscanned := scanInt_numText neg n (tail.not_digit m.fin o.trail.chars later)
          rw [Value.text, if_neg (by rw [hnum]; simpa using hc)]
          exact converts_atoll _ _ _ hscanned hrange.1 hrange.2

/-- The four operations of a snapshot, the first two when they apply. -/
def opCalls (p : Option Int32) (t bw lat pr : Int32) (vlan : Option (Int32 × CStr)) (mode : Int32)
    (gm : Option CStr) (cycle : Int64) : List Host.OpCall :=
  (p.map fun p => .applyQos p t bw lat pr).toList ++
    (vlan.map fun v => .applyVlan v.1 v.2).toList ++ [.applyTimesync mode gm, .applyTas cycle]

/-- The operations the host agent calls for a payload it gets through. -/
def hostCalls (o : Object) : List Host.OpCall :=
  let int := fun key : String => Int32.ofInt (hostScalar o key.toList)
  let str := fun key : String => ((hostText o key.toList).bind (readStr 32)).getD []
  opCalls ((numberAt (hostMember o "priority".toList)).map Int32.ofInt) (int "traffic_class")
    (int "bandwidth_kbps") (int "latency_ms") (int "preemption")
    (if 0 < hostScalar o "vlan_id".toList then some (int "vlan_id", str "group") else none)
    (int "timesync_mode") (if str "grandmaster" = [] then none else some (str "grandmaster"))
    (Int64.ofInt (hostScalar o "tas_cycle_ns".toList))

theorem applySnapshot_host (h : FlatPayload o) {fuel : Nat}
    (hrun : ∀ key ∈ hostKeys, Host.jsonVal fuel o.text key = some (hostText o key)) :
    Host.applySnapshot fuel o.text = some (hostCalls o) := by
  have hint : ∀ key ∈ hostKeys, Host.jsonGetInt fuel o.text key =
      some ((numberAt (hostMember o key)).map Int32.ofInt) := by
    intro key hkey
    rw [Host.jsonGetInt, hrun key hkey, Option.map_some, hostText_number h]
  have hvlan : (Int32.ofInt (hostScalar o "vlan_id".toList) > 0) ↔
      0 < hostScalar o "vlan_id".toList :=
    @int32_lt_iff 0 _ (by decide) (h.hostScalar_range _)
  rw [Host.applySnapshot]
  simp only [hint _ (by decide : "priority".toList ∈ hostKeys),
    hint _ (by decide : "traffic_class".toList ∈ hostKeys),
    hint _ (by decide : "bandwidth_kbps".toList ∈ hostKeys),
    hint _ (by decide : "latency_ms".toList ∈ hostKeys),
    hint _ (by decide : "preemption".toList ∈ hostKeys),
    hint _ (by decide : "vlan_id".toList ∈ hostKeys),
    hint _ (by decide : "timesync_mode".toList ∈ hostKeys), Host.jsonGetStr,
    hrun _ (by decide : "group".toList ∈ hostKeys),
    hrun _ (by decide : "grandmaster".toList ∈ hostKeys),
    hrun _ (by decide : "tas_cycle_ns".toList ∈ hostKeys), Option.map_some, Option.bind_eq_bind,
    Option.bind_some, hostScalar_eq, cycleOf_hostText h, hvlan]
  simp only [hostCalls, opCalls, Option.map_map]
  by_cases hpos : 0 < hostScalar o "vlan_id".toList
  · cases numberAt (hostMember o "priority".toList) <;> simp only [hpos, if_true] <;> rfl
  · cases numberAt (hostMember o "priority".toList) <;> simp only [hpos, if_false] <;> rfl

/-- A payload the host agent answers for: every search comes back, and the
calls are those of `hostCalls`. -/
theorem applySnapshot_host_inv (h : FlatPayload o) (hlead : o.lead.chars = []) {fuel : Nat}
    {calls : List Host.OpCall} (happ : Host.applySnapshot fuel o.text = some calls) :
    (∀ key ∈ hostKeys, Host.hostScan key .past o.members ≠ .hangs) ∧ calls = hostCalls o := by
  have hback : ∀ key ∈ hostKeys, ∃ r, Host.jsonVal fuel o.text key = some r := by
    have hmap : ∀ {α : Type} {key : CStr} {f : Option CStr → α} {y : α},
        (Host.jsonVal fuel o.text key).map f = some y →
        ∃ r, Host.jsonVal fuel o.text key = some r := by
      intro α key f y hy
      obtain ⟨r, hr, _⟩ := Option.map_eq_some_iff.mp hy
      exact ⟨r, hr⟩
    rw [Host.applySnapshot] at happ
    obtain ⟨_, h1, happ⟩ := exists_of_bind happ
    obtain ⟨_, h2, happ⟩ := exists_of_bind happ
    obtain ⟨_, h3, happ⟩ := exists_of_bind happ
    obtain ⟨_, h4, happ⟩ := exists_of_bind happ
    obtain ⟨_, h5, happ⟩ := exists_of_bind happ
    obtain ⟨_, h6, happ⟩ := exists_of_bind happ
    obtain ⟨_, h7, happ⟩ := exists_of_bind happ
    obtain ⟨_, h8, happ⟩ := exists_of_bind happ
    obtain ⟨_, h9, happ⟩ := exists_of_bind happ
    obtain ⟨_, h10, _⟩ := exists_of_bind happ
    intro key hkey
    simp only [hostKeys, List.mem_cons, List.not_mem_nil, or_false] at hkey
    rcases hkey with rfl | rfl | rfl | rfl | rfl | rfl | rfl | rfl | rfl | rfl
    · exact hmap h1
    · exact hmap h2
    · exact hmap h3
    · exact hmap h4
    · exact hmap h5
    · exact hmap h6
    · exact hmap h7
    · exact hmap h8
    · exact hmap h9
    · exact ⟨_, h10⟩
  have hseen : ∀ key ∈ hostKeys, Host.hostScan key .past o.members ≠ .hangs ∧
      Host.jsonVal fuel o.text key = some (hostText o key) := by
    intro key hkey
    obtain ⟨r, hr⟩ := hback key hkey
    have hgives := (Host.ends_object (hostKeys_isKey key hkey) hlead h.flat).mp ⟨fuel, hr⟩
    obtain ⟨hends, rfl⟩ := gives_iff.mp hgives
    exact ⟨hends, hr⟩
  have hcalls := applySnapshot_host h fun key hkey => (hseen key hkey).2
  rw [happ, Option.some.injEq] at hcalls
  exact ⟨fun key hkey => (hseen key hkey).1, hcalls⟩

/-- Enough fuel for all searches that come back. -/
theorem exists_applySnapshot_host (h : FlatPayload o) (hlead : o.lead.chars = [])
    (hends : ∀ key ∈ hostKeys, Host.hostScan key .past o.members ≠ .hangs) :
    ∃ fuel, Host.applySnapshot fuel o.text = some (hostCalls o) := by
  obtain ⟨fuel, hfuel⟩ := @Loop.exists_fuel _ _ o.text _ Host.jsonValBody (hostText o) hostKeys
    fun key hkey => (Host.ends_object (hostKeys_isKey key hkey) hlead h.flat).mpr
      (gives_iff.mpr ⟨hends key hkey, rfl⟩)
  exact ⟨fuel, applySnapshot_host h hfuel⟩

/-! ### What the two agree on -/

section

variable {p : Option Int32} {t bw lat pr mode : Int32} {vlan : Option (Int32 × CStr)}
  {gm : Option CStr} {cycle : Int64}

theorem mem_opCalls_qos {p' t' bw' lat' pr' : Int32} :
    .applyQos p' t' bw' lat' pr' ∈ opCalls p t bw lat pr vlan mode gm cycle ↔
      p = some p' ∧ t' = t ∧ bw' = bw ∧ lat' = lat ∧ pr' = pr := by
  cases p <;> cases vlan <;> simp [opCalls, eq_comm]

theorem mem_opCalls_vlan {v : Int32} {group : CStr} :
    .applyVlan v group ∈ opCalls p t bw lat pr vlan mode gm cycle ↔ vlan = some (v, group) := by
  cases p <;> cases vlan <;> simp [opCalls, eq_comm, Prod.ext_iff]

theorem mem_opCalls_timesync {mode' : Int32} {gm' : Option CStr} :
    .applyTimesync mode' gm' ∈ opCalls p t bw lat pr vlan mode gm cycle ↔
      mode' = mode ∧ gm' = gm := by
  cases p <;> cases vlan <;> simp [opCalls]

theorem mem_opCalls_tas {cycle' : Int64} :
    .applyTas cycle' ∈ opCalls p t bw lat pr vlan mode gm cycle ↔ cycle' = cycle := by
  cases p <;> cases vlan <;> simp [opCalls]

end

theorem int32_ofInt_inj {v w : Int} (hv : -(2 ^ 31) ≤ v ∧ v < 2 ^ 31)
    (hw : -(2 ^ 31) ≤ w ∧ w < 2 ^ 31) (h : Int32.ofInt v = Int32.ofInt w) : v = w := by
  rw [← int32_toInt hv, h, int32_toInt hw]

theorem int64_ofInt_inj {v w : Int} (hv : -(2 ^ 31) ≤ v ∧ v < 2 ^ 31)
    (hw : -(2 ^ 31) ≤ w ∧ w < 2 ^ 31) (h : Int64.ofInt v = Int64.ofInt w) : v = w := by
  have htoInt : ∀ {x : Int}, -(2 ^ 31) ≤ x ∧ x < 2 ^ 31 → (Int64.ofInt x).toInt = x :=
    fun hx => Int64.toInt_ofInt_of_le (by omega) (by omega)
  rw [← htoInt hv, h, htoInt hw]

/-- The host agent applies what the ESP32 agent stored when it reads the same
values and calls the first two operations. -/
theorem applies_iff (h : FlatPayload o) {t : Esp32.TsnState} (ht : Stored o t) :
    Applies (hostCalls o) t ↔
      (∃ m v, hostMember o "priority".toList = some m ∧ m.val.number = some v) ∧
      0 < hostScalar o "vlan_id".toList ∧
      ∀ key ∈ appliedKeys, hostScalar o key = scalarOf o key := by
  have hsame : ∀ key, Int32.ofInt (scalarOf o key) = Int32.ofInt (hostScalar o key) →
      hostScalar o key = scalarOf o key :=
    fun key heq => (int32_ofInt_inj (h.scalarOf_range key) (h.hostScalar_range key) heq).symm
  constructor
  · rintro ⟨⟨bw, lat, hqos⟩, ⟨group, hvlan⟩, ⟨gm, htimesync⟩, htas⟩
    rw [hostCalls, mem_opCalls_qos, ht.priority, ht.trafficClass, ht.preemption] at hqos
    rw [hostCalls, mem_opCalls_vlan, ht.vlanId] at hvlan
    rw [hostCalls, mem_opCalls_timesync, ht.timesyncMode] at htimesync
    rw [hostCalls, mem_opCalls_tas, ht.tasCycleNs] at htas
    obtain ⟨hprio, htc, _, _, hpre⟩ := hqos
    have hpos : 0 < hostScalar o "vlan_id".toList := by
      by_contra hneg
      rw [if_neg hneg] at hvlan
      cases hvlan
    rw [if_pos hpos, Option.some.injEq, Prod.mk.injEq] at hvlan
    refine ⟨?_, hpos, ?_⟩
    · obtain ⟨v, hv, _⟩ := Option.map_eq_some_iff.mp hprio
      exact Option.bind_eq_some_iff.mp hv |>.imp fun m hm => ⟨v, hm⟩
    · intro key hkey
      simp only [appliedKeys, List.mem_cons, List.not_mem_nil, or_false] at hkey
      rcases hkey with rfl | rfl | rfl | rfl | rfl | rfl
      · apply hsame
        rw [← hostScalar_eq, hprio]
        rfl
      · exact hsame _ htc
      · exact hsame _ hpre
      · exact hsame _ hvlan.1.symm
      · exact hsame _ htimesync.1
      · exact (int64_ofInt_inj (h.scalarOf_range _) (h.hostScalar_range _) htas).symm
  · rintro ⟨⟨m, v, hm, hv⟩, hpos, hall⟩
    have hnumber : numberAt (hostMember o "priority".toList) = some v := by
      rw [hm]
      exact hv
    have hprio : v = scalarOf o "priority".toList := by
      rw [← hall _ (by decide), hostScalar, intOf_eq, hnumber]
      rfl
    refine ⟨⟨_, _, mem_opCalls_qos.mpr ⟨?_, ?_, rfl, rfl, ?_⟩⟩,
      ⟨((hostText o "group".toList).bind (readStr 32)).getD [], mem_opCalls_vlan.mpr ?_⟩,
      ⟨_, mem_opCalls_timesync.mpr ⟨?_, rfl⟩⟩, mem_opCalls_tas.mpr ?_⟩
    · rw [ht.priority, hnumber, ← hprio]
      rfl
    · rw [ht.trafficClass, ← hall _ (by decide)]
    · rw [ht.preemption, ← hall _ (by decide)]
    · rw [if_pos hpos, ht.vlanId, ← hall _ (by decide)]
    · rw [ht.timesyncMode, ← hall _ (by decide)]
    · rw [ht.tasCycleNs, ← hall _ (by decide)]

theorem speakSame_of_lead (hlead : o.lead.chars ≠ []) : SpeakSame o := by
  have hhead : o.text.head? ≠ some '\x7b' := by
    obtain ⟨c, cs, hcs⟩ := List.exists_cons_of_ne_nil hlead
    have hws := o.lead.blank c (by simp [hcs])
    rw [Object.text, hcs]
    rintro heq
    cases heq
    cases hws
  intro a
  refine ⟨0, [], false, a, ⟨false, "bad_json".toList⟩, if_neg hhead, if_pos hhead, ?_, ?_⟩
  · simp
  · simp

theorem speakSame_of_understood (h : FlatPayload o) (hlead : o.lead.chars = [])
    (hu : Understood o) : SpeakSame o := by
  intro a
  obtain ⟨fuel, hcalls⟩ := exists_applySnapshot_host h hlead hu.ends
  obtain ⟨a', ack, hrun, hok, hstored⟩ := applySnapshot_flat h hlead hu.room a
  refine ⟨fuel, hostCalls o, true, a', ack, ?_, hrun, ?_, fun _ => ?_⟩
  · rw [Host.onApply, if_pos (head_text hlead), hcalls]
    rfl
  · exact iff_of_true rfl (hok.mpr hu.range)
  · exact (applies_iff h (hstored hu.range)).mpr ⟨hu.qos, hu.vlan, hu.same⟩

theorem understood_of_speakSame (h : FlatPayload o) (hlead : o.lead.chars = [])
    (hs : SpeakSame o) : Understood o := by
  obtain ⟨fuel, calls, ok, a', ack, hhost, hesp, hiff, happlies⟩ := hs {}
  rw [Host.onApply, if_pos (head_text hlead), Option.map_eq_some_iff] at hhost
  obtain ⟨calls', hcalls, heq⟩ := hhost
  cases heq
  obtain ⟨hends, rfl⟩ := applySnapshot_host_inv h hlead hcalls
  have hroom := room_of_applySnapshot hlead hesp
  obtain ⟨a'', ack', hrun, hok, hstored⟩ := applySnapshot_flat h hlead hroom {}
  rw [hesp] at hrun
  cases hrun
  have hrange : InRange o := hok.mp (hiff.mp rfl)
  obtain ⟨hqos, hvlan, hsame⟩ := (applies_iff h (hstored hrange)).mp (happlies rfl)
  exact ⟨hends, hroom, hrange, hqos, hvlan, hsame⟩

/-- The two agents treat a flat snapshot alike exactly when both refuse it for
white space at its start, or both understand it. -/
theorem speakSame_iff (o : Object) (h : FlatPayload o) :
    SpeakSame o ↔ o.lead.chars ≠ [] ∨ Understood o := by
  constructor
  · intro hs
    by_cases hlead : o.lead.chars = []
    · exact Or.inr (understood_of_speakSame h hlead hs)
    · exact Or.inl hlead
  · rintro (hlead | hu)
    · exact speakSame_of_lead hlead
    · by_cases hlead : o.lead.chars = []
      · exact speakSame_of_understood h hlead hu
      · exact speakSame_of_lead hlead

end

/-- A snapshot with every key the host agent searches for. -/
def fullSnapshot : Object :=
  ⟨.none, .none,
    [.compact (.lit "priority".toList) (.ofInt 5),
      .compact (.lit "traffic_class".toList) (.ofInt 5),
      .compact (.lit "bandwidth_kbps".toList) (.ofInt 0),
      .compact (.lit "latency_ms".toList) (.ofInt 0),
      .compact (.lit "preemption".toList) (.ofInt 1),
      .compact (.lit "vlan_id".toList) (.ofInt 100),
      .compact (.lit "group".toList) (.str (.lit "Control".toList)),
      .compact (.lit "timesync_mode".toList) (.ofInt 2),
      .compact (.lit "grandmaster".toList) (.str (.lit "esp32-01".toList)),
      .compact (.lit "tas_cycle_ns".toList) (.ofInt 1000000)],
    .none⟩

theorem fullSnapshot_flat : FlatPayload fullSnapshot where
  flat := by decide
  range := by
    intro m hm v hv
    simp only [fullSnapshot, List.mem_cons, List.not_mem_nil, or_false] at hm
    rcases hm with rfl | rfl | rfl | rfl | rfl | rfl | rfl | rfl | rfl | rfl
    all_goals cases hv <;> decide

theorem fullSnapshot_understood : Understood fullSnapshot := by
  refine ⟨?_, Or.inl rfl, ⟨by decide, by decide, by decide⟩, ⟨_, _, rfl, rfl⟩, by decide, by decide⟩
  have hpresent : ∀ key ∈ hostKeys, (findMember key fullSnapshot.members).isSome = true := by decide
  intro key hkey
  rw [hostScan_ends_iff (by decide)]
  exact Option.isSome_iff_ne_none.mp (hpresent key hkey)

theorem fullSnapshot_same : FlatPayload fullSnapshot ∧ SpeakSame fullSnapshot :=
  ⟨fullSnapshot_flat, (speakSame_iff fullSnapshot fullSnapshot_flat).mpr (Or.inr fullSnapshot_understood)⟩

/-- A snapshot that changes the priority only. -/
def prioritySnapshot : Object :=
  ⟨.none, .none, [.compact (.lit "priority".toList) (.ofInt 3)], .none⟩

theorem prioritySnapshot_flat : FlatPayload prioritySnapshot where
  flat := by decide
  range := by
    intro m hm v hv
    simp only [prioritySnapshot, List.mem_singleton] at hm
    subst hm
    cases hv
    decide

/-- The host agent hangs in its search for the traffic class. -/
theorem prioritySnapshot_hangs : FlatPayload prioritySnapshot ∧ ¬ SpeakSame prioritySnapshot := by
  refine ⟨prioritySnapshot_flat, fun hs => ?_⟩
  have hu := understood_of_speakSame prioritySnapshot_flat rfl hs
  exact hu.ends "traffic_class".toList (by decide) rfl

end Htsn
