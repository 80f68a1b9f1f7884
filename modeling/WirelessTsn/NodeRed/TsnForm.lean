import WirelessTsn.Wired.ConfigPath

/-!
The TSN form of Node-RED: the function node `build flat TSN snapshot`
(`htsn-nodered/flow-production.json`) clamps what was typed and writes the text
for `cmd_tsn_config`. From there the bridge sends it to the endpoint and the
endpoint reports it back. The clamps keep every scalar where the endpoint can hold
it; what may be lost is the end of a long gate list.
-/

namespace Htsn.NodeRed

open CText Json

/-! ### Reading the fields -/

/-- `\s` of a regular expression, and what `trim` and `parseInt` pass over. -/
def isJsSpace (c : Char) : Bool :=
  c ∈ ['\t', '\n', '\x0b', '\x0c', '\r', ' ', '\u00a0', '\u1680', '\u2028', '\u2029', '\u202f', '\u205f',
    '\u3000', '\ufeff'] || ('\u2000' ≤ c && c ≤ '\u200a')

/-- The digits at the start of a text; none is `NaN`. -/
def jsDigits (s : CStr) : Option Nat :=
  if s.takeWhile Char.isDigit = [] then none else some (Nat.ofDigitChars 10 (s.takeWhile Char.isDigit) 0)

/-- `parseInt(s,10)` before it is rounded; numbers up to `2 ^ 53` are exact. -/
def jsParseInt (s : CStr) : Option Int :=
  match s.dropWhile isJsSpace with
  | '-' :: s => (jsDigits s).map fun n => -(n : Int)
  | '+' :: s => (jsDigits s).map fun n => (n : Int)
  | s => (jsDigits s).map fun n => (n : Int)

/-- `C(v,lo,hi,d)` -/
def clampField (v : CStr) (lo hi d : Int) : Int :=
  match jsParseInt v with
  | none => d
  | some n => max lo (min hi n)

/-- `trim().split(/\s+/)`, without the empty word of an empty text. -/
def jsWords (s : CStr) : List CStr := (s.splitOnP isJsSpace).filter (· ≠ [])

/-- One round of the loop over the words: two numbers around one colon. -/
def gateOf (p : CStr) : Option (Int × Int) :=
  match p.splitOn ':' with
  | [s, d] => (jsParseInt s).bind fun s => (jsParseInt d).map fun d => (s, d)
  | _ => none

/-- A choice of a select field. Names that every object inherits, such as
`constructor`, are not among them. -/
structure Choice where
  text : CStr
  own : text ∉ ["constructor".toList, "hasOwnProperty".toList, "isPrototypeOf".toList,
    "propertyIsEnumerable".toList, "toLocaleString".toList, "toString".toList, "valueOf".toList,
    "__proto__".toList, "__defineGetter__".toList, "__defineSetter__".toList, "__lookupGetter__".toList,
    "__lookupSetter__".toList]

/-- The payload of the form, each field as a text; an absent one is empty. -/
structure TsnForm where
  gcl : CStr
  priority : CStr
  trafficClass : CStr
  vlanId : CStr
  preemption : CStr
  timesyncMode : Choice
  stRole : Choice
  stVlan : CStr
  stPrio : CStr
  tasCycleNs : CStr

/-- A table lookup, with the number that was typed where the table has no such
name. -/
def choose (table : List (CStr × Int)) (v : Choice) : Int :=
  (table.lookup v.text).getD (clampField v.text 0 2 0)

/-- `TM` and `SR` -/
def timesyncModes : List (CStr × Int) := [("none".toList, 0), ("GM".toList, 1), ("slave".toList, 2)]
def streamRoles : List (CStr × Int) := [("talker".toList, 1), ("listener".toList, 2)]

/-- `gs` and `dur`, entry by entry -/
def TsnForm.gates (f : TsnForm) : List (Int × Int) := (jsWords f.gcl).filterMap gateOf

/-! ### The snapshot -/

/-- `flat` -/
structure FlatSnapshot where
  priority : Int
  trafficClass : Int
  vlanId : Int
  preemption : Int
  timesyncMode : Int
  stRole : Int
  stVlan : Int
  stPrio : Int
  tasCycleNs : Int
  gates : List (Int × Int)

def TsnForm.flat (f : TsnForm) : FlatSnapshot where
  priority := clampField f.priority 0 7 0
  trafficClass := clampField f.trafficClass 0 7 0
  vlanId := clampField f.vlanId 0 4094 0
  preemption := clampField f.preemption 0 1 0
  timesyncMode := choose timesyncModes f.timesyncMode
  stRole := choose streamRoles f.stRole
  stVlan := clampField f.stVlan 0 4094 0
  stPrio := clampField f.stPrio 0 7 0
  tasCycleNs := clampField f.tasCycleNs 0 1000000000 0
  gates := f.gates

/-- An array of numbers in `JSON.stringify`. -/
def intsText (ns : List Int) : CStr := '[' :: ((ns.map showInt).intersperse [',']).flatten ++ [']']

/-- An object in `JSON.stringify`, given the texts of its values. -/
def fieldsText (fields : List (CStr × CStr)) : CStr :=
  '\x7b' :: ((fields.map fun f => '"' :: (f.1 ++ '"' :: ':' :: f.2)).intersperse [',']).flatten ++ ['\x7d']

/-- `JSON.stringify(flat)` -/
def FlatSnapshot.stringify (s : FlatSnapshot) : CStr :=
  fieldsText [("priority".toList, showInt s.priority), ("traffic_class".toList, showInt s.trafficClass),
    ("vlan_id".toList, showInt s.vlanId), ("preemption".toList, showInt s.preemption),
    ("timesync_mode".toList, showInt s.timesyncMode), ("st_role".toList, showInt s.stRole),
    ("st_vlan".toList, showInt s.stVlan), ("st_prio".toList, showInt s.stPrio),
    ("tas_cycle_ns".toList, showInt s.tasCycleNs), (gsKey, intsText (s.gates.map Prod.fst)),
    (durKey, intsText (s.gates.map Prod.snd))]

/-! ### The snapshot as an object -/

def itemOf (n : Int) : Item := ⟨.none, decide (n < 0), n.natAbs, .none⟩
def intsValue (ns : List Int) : Value := .ints .none (ns.map itemOf)

/-- The object whose text this is. -/
def FlatSnapshot.object (s : FlatSnapshot) : Object :=
  compactObject [(.lit "priority".toList, .ofInt s.priority),
    (.lit "traffic_class".toList, .ofInt s.trafficClass), (.lit "vlan_id".toList, .ofInt s.vlanId),
    (.lit "preemption".toList, .ofInt s.preemption), (.lit "timesync_mode".toList, .ofInt s.timesyncMode),
    (.lit "st_role".toList, .ofInt s.stRole), (.lit "st_vlan".toList, .ofInt s.stVlan),
    (.lit "st_prio".toList, .ofInt s.stPrio), (.lit "tas_cycle_ns".toList, .ofInt s.tasCycleNs),
    (.lit gsKey, intsValue (s.gates.map Prod.fst)), (.lit durKey, intsValue (s.gates.map Prod.snd))]

theorem numText_ofInt (v : Int) : numText (decide (v < 0)) v.natAbs = showInt v := by
  have htext := Value.text_ofInt v []
  simpa [Value.ofInt, Value.text, NumTail.none] using htext

theorem text_intsValue (ns : List Int) (rest : CStr) : (intsValue ns).text rest = intsText ns ++ rest := by
  have htail : ∀ (n : Int) (ns : List Int), (itemOf n).text (itemsTail rest (ns.map itemOf)) =
      (((n :: ns).map showInt).intersperse [',']).flatten ++ ']' :: rest := by
    intro n ns
    induction ns generalizing n with
    | nil => simp [Item.text, itemOf, itemsTail, Ws.none, numText_ofInt]
    | cons m ns ih =>
        rw [List.map_cons, itemsTail, ih m, Item.text, itemOf, numText_ofInt]
        simp [Ws.none]
  cases ns with
  | nil => rfl
  | cons n ns =>
      rw [intsText, List.cons_append, List.cons_append, List.append_assoc]
      exact congrArg _ (htail n ns)

theorem text_compactObject (ms : List (Plain × Value)) :
    (compactObject ms).text = fieldsText (ms.map fun m => (m.1.chars, m.2.text [])) := by
  have hmember : ∀ (m : Plain × Value) (rest : CStr), (Member.compact m.1 m.2).text rest =
      '"' :: (m.1.chars ++ '"' :: ':' :: m.2.text rest) := fun m rest => rfl
  have htail : ∀ (m : Plain × Value) (ms : List (Plain × Value)),
      (Member.compact m.1 m.2).text (membersTail [] (compactMembers ms)) =
        (((m :: ms).map fun m => '"' :: (m.1.chars ++ '"' :: ':' :: m.2.text [])).intersperse
          [',']).flatten ++ ['\x7d'] := by
    intro m ms
    induction ms generalizing m with
    | nil =>
        rw [hmember, Value.text_append]
        simp [compactMembers, membersTail]
    | cons m' ms ih =>
        rw [compactMembers, List.map_cons, membersTail, ← compactMembers, ih m', hmember,
          Value.text_append]
        simp
  cases ms with
  | nil => rfl
  | cons m ms =>
      have htext : (compactObject (m :: ms)).text =
          '\x7b' :: (Member.compact m.1 m.2).text (membersTail [] (compactMembers ms)) := rfl
      rw [htext, htail, fieldsText, List.map_map]
      rfl

theorem FlatSnapshot.stringify_eq (s : FlatSnapshot) : s.object.text = s.stringify := by
  rw [object, text_compactObject, stringify]
  simp only [List.map_cons, List.map_nil, Value.text_ofInt, text_intsValue, List.append_nil]

/-! ### How long the text gets -/

theorem size_ofInt (key : Plain) (v : Int) :
    (Member.compact key (.ofInt v)).size = key.chars.length + 3 + (showInt v).length := by
  simp only [Member.size, Member.text, Member.valueText, Member.compact, Ws.none, List.nil_append,
    List.length_append, List.length_cons, Value.text_ofInt, List.length_nil]
  omega

theorem itemsTail_length (n : Int) (ns : List Int) :
    ((itemOf n).text (itemsTail [] (ns.map itemOf))).length = reachItems ((n :: ns).map itemOf) + 1 := by
  induction ns generalizing n with
  | nil => simp [Item.text, itemOf, itemsTail, reachItems, Ws.none]
  | cons m ns ih =>
      have hrest := ih m
      rw [List.map_cons, itemsTail, Item.text]
      simp only [List.length_append, List.length_cons, hrest, List.map_cons, reachItems]
      omega

/-- An array ends one bracket behind its last digit. -/
theorem size_intsValue (key : Plain) (ns : List Int) :
    (Member.compact key (intsValue ns)).size = key.chars.length + 5 + reachItems (ns.map itemOf) := by
  have hitems : (itemsText .none [] (ns.map itemOf)).length = reachItems (ns.map itemOf) + 1 := by
    cases ns with
    | nil => simp [itemsText, reachItems, Ws.none]
    | cons n ns => exact itemsTail_length n ns
  simp only [Member.size, Member.text, Member.valueText, Member.compact, Ws.none, List.nil_append,
    List.length_append, List.length_cons, intsValue, Value.text] at hitems ⊢
  omega

/-- A text is its members, each with the brace or the comma in front of it, and
the closing brace. -/
theorem compactObject_length {ms : List (Plain × Value)} (h : ms ≠ []) :
    (compactObject ms).text.length = 1 + (ms.map fun m => (Member.compact m.1 m.2).size + 1).sum := by
  have htail : ∀ ms : List (Plain × Value), (membersTail [] (compactMembers ms)).length =
      1 + (ms.map fun m => (Member.compact m.1 m.2).size + 1).sum := by
    intro ms
    induction ms with
    | nil => rfl
    | cons m ms ih =>
        rw [compactMembers, List.map_cons, membersTail, Member.text_append, List.length_cons,
          List.length_append, ← compactMembers, ih, List.map_cons, List.sum_cons, ← Member.size]
        omega
  obtain ⟨m, ms, rfl⟩ := List.exists_cons_of_ne_nil h
  rw [← htail]
  rfl

/-! ### What the snapshot says -/

theorem int_ofInt (v : Int) : (Value.ofInt v).int = v := by
  simp only [Value.ofInt, Value.int, numVal]
  split
  all_goals
    simp only [decide_eq_true_eq] at *
    omega

theorem val_itemOf (ns : List Int) : (ns.map itemOf).map Item.val = ns := by
  rw [List.map_map]
  refine (List.map_congr_left fun n _ => ?_).trans (List.map_id ns)
  exact int_ofInt n

theorem states_object (s : FlatSnapshot) : listOf s.object gsKey = s.gates.map Prod.fst :=
  val_itemOf _

theorem durations_object (s : FlatSnapshot) : listOf s.object durKey = s.gates.map Prod.snd :=
  val_itemOf _

/-- What the clamps leave of a scalar. -/
structure FlatSnapshot.Clamped (s : FlatSnapshot) : Prop where
  priority : 0 ≤ s.priority ∧ s.priority ≤ 7
  trafficClass : 0 ≤ s.trafficClass ∧ s.trafficClass ≤ 7
  vlanId : 0 ≤ s.vlanId ∧ s.vlanId ≤ 4094
  preemption : 0 ≤ s.preemption ∧ s.preemption ≤ 1
  timesyncMode : 0 ≤ s.timesyncMode ∧ s.timesyncMode ≤ 2
  stRole : 0 ≤ s.stRole ∧ s.stRole ≤ 2
  stVlan : 0 ≤ s.stVlan ∧ s.stVlan ≤ 4094
  stPrio : 0 ≤ s.stPrio ∧ s.stPrio ≤ 7
  tasCycleNs : 0 ≤ s.tasCycleNs ∧ s.tasCycleNs ≤ 1000000000

theorem clampField_bounds (v : CStr) {lo hi d : Int} (hlo : lo ≤ d) (hhi : d ≤ hi) :
    lo ≤ clampField v lo hi d ∧ clampField v lo hi d ≤ hi := by
  rw [clampField]
  cases jsParseInt v with
  | none => exact ⟨hlo, hhi⟩
  | some n =>
      simp only
      exact ⟨by omega, by omega⟩

theorem choose_bounds {table : List (CStr × Int)} (htable : ∀ e ∈ table, 0 ≤ e.2 ∧ e.2 ≤ 2)
    (v : Choice) : 0 ≤ choose table v ∧ choose table v ≤ 2 := by
  rw [choose]
  cases hlook : table.lookup v.text with
  | none => exact clampField_bounds v.text (by decide) (by decide)
  | some n =>
      obtain ⟨before, after, rfl, _⟩ := List.lookup_eq_some_iff.mp hlook
      exact htable (v.text, n) (by simp)

/-- Whatever was typed, the scalars are clamped. -/
theorem TsnForm.flat_clamped (f : TsnForm) : f.flat.Clamped where
  priority := clampField_bounds f.priority (by decide) (by decide)
  trafficClass := clampField_bounds f.trafficClass (by decide) (by decide)
  vlanId := clampField_bounds f.vlanId (by decide) (by decide)
  preemption := clampField_bounds f.preemption (by decide) (by decide)
  timesyncMode := choose_bounds (by decide) f.timesyncMode
  stRole := choose_bounds (by decide) f.stRole
  stVlan := clampField_bounds f.stVlan (by decide) (by decide)
  stPrio := clampField_bounds f.stPrio (by decide) (by decide)
  tasCycleNs := clampField_bounds f.tasCycleNs (by decide) (by decide)

/-- Gates the endpoint can hold, with durations that JavaScript writes digit by
digit. -/
structure FlatSnapshot.Fits (s : FlatSnapshot) : Prop where
  clamped : s.Clamped
  count : s.gates.length ≤ maxGcl
  gates : ∀ g ∈ s.gates, 0 ≤ g.1 ∧ g.1 ≤ 255
  durations : ∀ g ∈ s.gates, 0 ≤ g.2 ∧ g.2 ≤ 2 ^ 53

theorem FlatSnapshot.Fits.isConfig {s : FlatSnapshot} (h : s.Fits) : IsConfig s.object where
  distinct := by
    have hkeys : (s.object.members.map fun m => m.key.chars) =
        (FlatSnapshot.object ⟨0, 0, 0, 0, 0, 0, 0, 0, 0, []⟩).members.map fun m => m.key.chars := rfl
    rw [Distinct, hkeys]
    decide
  scalars := by
    intro f hf m hm
    simp only [scalarBounds, List.mem_cons, List.not_mem_nil, or_false] at hf
    rcases hf with rfl | rfl | rfl | rfl | rfl | rfl | rfl | rfl | rfl
    all_goals
      cases hm
      exact ⟨_, _, _, rfl, rfl⟩
  lists := by
    intro key hkey m hm
    simp only [List.mem_cons, List.not_mem_nil, or_false] at hkey
    rcases hkey with rfl | rfl
    all_goals
      cases hm
      exact ⟨_, _, rfl⟩
  bounds := by
    obtain ⟨⟨hprio, hclass, hvlan, hpre, hmode, hrole, hstvlan, hstprio, hcycle⟩, _⟩ := h
    have hscalar : ∀ {key : CStr} {v : Int}, scalarOf s.object key = (Value.ofInt v).int →
        ∀ {lo hi : Int}, lo ≤ v → v ≤ hi → lo ≤ scalarOf s.object key ∧ scalarOf s.object key ≤ hi := by
      intro key v hkey lo hi hlo hhi
      rw [hkey, int_ofInt]
      exact ⟨hlo, hhi⟩
    intro f hf
    simp only [scalarBounds, List.mem_cons, List.not_mem_nil, or_false] at hf
    rcases hf with rfl | rfl | rfl | rfl | rfl | rfl | rfl | rfl | rfl
    · exact hscalar rfl hprio.1 hprio.2
    · exact hscalar rfl hclass.1 hclass.2
    · exact hscalar rfl hvlan.1 hvlan.2
    · exact hscalar rfl hpre.1 (hpre.2.trans (by decide))
    · exact hscalar rfl hmode.1 hmode.2
    · exact hscalar rfl hrole.1 hrole.2
    · exact hscalar rfl hstvlan.1 hstvlan.2
    · exact hscalar rfl hstprio.1 hstprio.2
    · exact hscalar rfl (hcycle.1.trans' (by decide)) (hcycle.2.trans (by decide))
  lengths := by
    rw [states_object, durations_object, List.length_map, List.length_map]
  count := by
    rw [states_object, List.length_map]
    exact h.count
  gates := by
    intro v hv
    rw [states_object, List.mem_map] at hv
    obtain ⟨g, hg, rfl⟩ := hv
    exact h.gates g hg
  durations := by
    intro v hv
    rw [durations_object, List.mem_map] at hv
    obtain ⟨g, hg, rfl⟩ := hv
    exact (h.durations g hg).1

/-! ### What can be read of the text -/

/-- The scalars end within the first 200 characters. -/
theorem FlatSnapshot.Clamped.length_le {s : FlatSnapshot} (h : s.Clamped) :
    (showInt s.priority).length ≤ 2 ∧ (showInt s.trafficClass).length ≤ 2 ∧
      (showInt s.vlanId).length ≤ 5 ∧ (showInt s.preemption).length ≤ 2 ∧
      (showInt s.timesyncMode).length ≤ 2 ∧ (showInt s.stRole).length ≤ 2 ∧
      (showInt s.stVlan).length ≤ 5 ∧ (showInt s.stPrio).length ≤ 2 ∧
      (showInt s.tasCycleNs).length ≤ 11 := by
  obtain ⟨hprio, hclass, hvlan, hpre, hmode, hrole, hstvlan, hstprio, hcycle⟩ := h
  refine ⟨?_, ?_, ?_, ?_, ?_, ?_, ?_, ?_, ?_⟩
  all_goals
    apply showInt_length_le (by decide)
    omega

theorem spacedItems_map (ns : List Int) : SpacedItems (ns.map itemOf) := by
  induction ns with
  | nil => trivial
  | cons n ns ih =>
      cases ns with
      | nil => trivial
      | cons m ns =>
          rw [List.map_cons] at ih
          refine ⟨?_, ih⟩
          simp [itemOf, Ws.none]

theorem FlatSnapshot.object_lead (s : FlatSnapshot) : s.object.lead.chars = [] := rfl

/-- Clamped scalars are read whole. -/
theorem FlatSnapshot.Clamped.scalarReadable {s : FlatSnapshot} (h : s.Clamped) :
    ∀ f ∈ scalarBounds, ScalarReadable s.object f.1 := by
  have hlen := h.length_le
  intro f hf
  simp only [scalarBounds, List.mem_cons, List.not_mem_nil, or_false] at hf
  rcases hf with rfl | rfl | rfl | rfl | rfl | rfl | rfl | rfl | rfl
  all_goals
    refine ⟨_, _, _, _, _, _, rfl, rfl, rfl, ?_⟩
    simp only [size_ofInt, numText_ofInt]
    simp only [object_lead, Member.valueAt, Member.compact, Ws.none, String.reduceToList, List.length_nil,
      List.length_cons, frameMaxplen]
    omega

theorem gsKey_length : gsKey.length = 6 := rfl

theorem durKey_length : durKey.length = 7 := rfl

theorem FlatSnapshot.object_length (s : FlatSnapshot) :
    s.object.text.length = 146 + (showInt s.priority).length + (showInt s.trafficClass).length +
      (showInt s.vlanId).length + (showInt s.preemption).length + (showInt s.timesyncMode).length +
      (showInt s.stRole).length + (showInt s.stVlan).length + (showInt s.stPrio).length +
      (showInt s.tasCycleNs).length + reachItems ((s.gates.map Prod.fst).map itemOf) +
      reachItems ((s.gates.map Prod.snd).map itemOf) := by
  rw [FlatSnapshot.object, compactObject_length (by simp)]
  simp only [List.map_cons, List.map_nil, List.sum_cons, List.sum_nil, size_ofInt, size_intsValue,
    String.reduceToList, List.length_nil, List.length_cons, gsKey_length, durKey_length]
  omega

theorem listReadable_iff {o : Object} {key : CStr} {off : Nat} {m : Member} {later : List Member}
    {ns : List Int} (hloc : o.locate key = some (off, m, later)) (hval : m.val = intsValue ns)
    (hmid : m.mid.chars = []) (hpost : m.post.chars = []) :
    ListReadable o key ↔ off + m.valueAt + (1 + reachItems (ns.map itemOf)) ≤ frameMaxplen := by
  constructor
  · rintro ⟨off', m', later', pad, items, hloc', hval', _, _, _, hend⟩
    rw [hloc, Option.some.injEq, Prod.mk.injEq, Prod.mk.injEq] at hloc'
    obtain ⟨rfl, rfl, rfl⟩ := hloc'
    rw [hval, intsValue, Value.ints.injEq] at hval'
    obtain ⟨rfl, rfl⟩ := hval'
    rw [hpost, List.length_nil] at hend
    omega
  · intro hend
    refine ⟨off, m, later, _, _, hloc, hval, hmid, ?_, spacedItems_map ns, ?_⟩
    · simp [hpost]
    · rw [hpost, List.length_nil]
      omega

/-- The states end before the durations, and these two characters before the
text does. -/
theorem FlatSnapshot.listReadable_iff (s : FlatSnapshot) :
    (ListReadable s.object gsKey ∧ ListReadable s.object durKey) ↔ s.object.text.length ≤ 386 := by
  rw [s.object_length]
  rw [@NodeRed.listReadable_iff s.object gsKey _ _ _ (s.gates.map Prod.fst) rfl rfl rfl rfl,
    @NodeRed.listReadable_iff s.object durKey _ _ _ (s.gates.map Prod.snd) rfl rfl rfl rfl]
  simp only [size_ofInt, size_intsValue]
  simp only [object_lead, Member.valueAt, Member.compact, Ws.none, gsKey_length, durKey_length, String.reduceToList,
    List.length_nil, List.length_cons, frameMaxplen]
  omega

/-- Whatever is typed in the form, its scalars can be read. Its gates can with
them exactly when there are none or the text is at most 386 characters long. -/
theorem TsnForm.readable_iff (f : TsnForm) (hdurations : ∀ g ∈ f.gates, g.2 ≤ 2 ^ 53) :
    ConfigReadable f.flat.object ↔ f.gates = [] ∨ f.flat.stringify.length ≤ 386 := by
  rw [← f.flat.stringify_eq, ConfigReadable, states_object, durations_object]
  constructor
  · rintro ⟨-, hlists⟩
    by_cases hnil : f.gates = []
    · exact Or.inl hnil
    · obtain ⟨hgs, hdur, _⟩ := hlists fun h => hnil (List.map_eq_nil_iff.mp h)
      exact Or.inr (f.flat.listReadable_iff.mp ⟨hgs, hdur⟩)
  · intro h
    refine ⟨fun field hfield _ => f.flat_clamped.scalarReadable field hfield, fun hne => ?_⟩
    have hnil : f.gates ≠ [] := fun h => hne (List.map_eq_nil_iff.mpr h)
    obtain ⟨hgs, hdur⟩ := f.flat.listReadable_iff.mpr (h.resolve_left hnil)
    refine ⟨hgs, hdur, ?_⟩
    intro v hv
    obtain ⟨g, hg, rfl⟩ := List.mem_map.mp hv
    have hmax := hdurations g hg
    omega

/-- What is typed in the form reaches the endpoint and is reported back exactly
when it has no gates or its text is at most 386 characters long, and the nodes
show it already if the endpoint holds it, as that is not reported again. -/
theorem form_arrives_iff (f : TsnForm) (hcount : f.gates.length ≤ maxGcl)
    (hgates : ∀ g ∈ f.gates, 0 ≤ g.1 ∧ g.1 ≤ 255) (hdurations : ∀ g ∈ f.gates, 0 ≤ g.2 ∧ g.2 ≤ 2 ^ 53)
    {b : Bridge} {i : PollInput} (hnew : FindsNew f.flat.object b i) (e : Endpoint) (n : AppNodes) :
    ConfigArrives f.flat.object b i e n ↔ (f.gates = [] ∨ f.flat.stringify.length ≤ 386) ∧
      (e.valid = true → e.payload = configBytes f.flat.object → NodesCarry f.flat.object n) := by
  have hfits : f.flat.Fits := ⟨f.flat_clamped, hcount, hgates, hdurations⟩
  have hconfig := hfits.isConfig
  rw [arrives_iff_carries hconfig hnew, ← f.readable_iff fun g hg => (hdurations g hg).2,
    ← carries_iff hconfig]
  apply and_congr_right
  intro hcarries
  rw [payload_of_carries hconfig hcarries]

/-- The form with a gate list. -/
def gateForm (gcl : CStr) : TsnForm where
  gcl := gcl
  priority := "6".toList
  trafficClass := "6".toList
  vlanId := "9999".toList
  preemption := "1".toList
  timesyncMode := ⟨"GM".toList, by decide⟩
  stRole := ⟨"listener".toList, by decide⟩
  stVlan := "100".toList
  stPrio := "".toList
  tasCycleNs := "1000000".toList

/-- Two gates, and fourteen with long durations, as they are typed. -/
theorem gateForm_gates : ∀ gcl ∈ ["255:500000  1:500000 x:3".toList,
      (List.replicate 14 "255:1000000000000 ".toList).flatten],
    (gateForm gcl).gates.length ≤ maxGcl ∧ (gateForm gcl).gates ≠ [] ∧
      ∀ g ∈ (gateForm gcl).gates, (0 ≤ g.1 ∧ g.1 ≤ 255) ∧ 0 ≤ g.2 ∧ g.2 ≤ 2 ^ 53 := by
  decide +kernel

theorem gateForm_length :
    (gateForm "255:500000  1:500000 x:3".toList).flat.stringify.length ≤ 386 ∧
      ¬ (gateForm (List.replicate 14 "255:1000000000000 ".toList).flatten).flat.stringify.length ≤ 386 := by
  decide +kernel

/-- The two gates arrive; of the fourteen the last one is cut. -/
theorem gateForm_arrives :
    (let o := (gateForm "255:500000  1:500000 x:3".toList).flat.object;
      ConfigArrives o freshBridge (firstPoll o) {} {}) ∧
    (let o := (gateForm (List.replicate 14 "255:1000000000000 ".toList).flatten).flat.object;
      ¬ ConfigArrives o freshBridge (firstPoll o) {} {}) := by
  obtain ⟨hcount, _, hgates⟩ := gateForm_gates _ List.mem_cons_self
  obtain ⟨hcount', hnil, hgates'⟩ := gateForm_gates _ (List.mem_cons_of_mem _ List.mem_cons_self)
  constructor
  · apply (form_arrives_iff _ hcount (fun g hg => (hgates g hg).1) (fun g hg => (hgates g hg).2)
      (firstPoll_findsNew _) _ _).mpr
    exact ⟨Or.inr gateForm_length.1, by simp⟩
  · intro o harrives
    have h := (form_arrives_iff _ hcount' (fun g hg => (hgates' g hg).1)
      (fun g hg => (hgates' g hg).2) (firstPoll_findsNew _) _ _).mp harrives
    exact h.1.elim hnil gateForm_length.2

end Htsn.NodeRed
