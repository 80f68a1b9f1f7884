import WirelessTsn.Lib.JsonWord

/-!
The motion trigger of the camera node (`esp32-cam/main/camera_app.c`). An event
is meant to start a clip when its `motion` or its `wifi_motion` is non-zero.
`json_motion_true` looks at one member only, the first that its search meets,
and of its value at one character.
-/

namespace Htsn.Cam

open CText Json JsonText

/-- `json_motion_true`; `none` is the null pointer. -/
def jsonMotionTrue (payload : Option CStr) : Bool :=
  match payload with
  | none => false
  | some payload =>
      match (strstr "\"motion\"".toList payload).or (strstr "\"wifi_motion\"".toList payload) with
      | none => false
      | some m =>
          match strchr ':' m with
          | none => false
          | some col => ((col.drop 1).dropWhile (· == ' ')).head? == some '1'

/-- `mqtt_motion_event` on `g_motion_seen` -/
def mqttMotionEvent (motionSeen : Bool) (payload : Option CStr) : Bool :=
  if jsonMotionTrue payload then true else motionSeen

/-- The latch stays until the main loop takes it back. -/
theorem motionSeen_run (seen : Bool) (payloads : List (Option CStr)) :
    payloads.foldl mqttMotionEvent seen = (seen || payloads.any jsonMotionTrue) := by
  induction payloads generalizing seen with
  | nil => simp
  | cons p ps ih =>
      rw [List.foldl_cons, ih, List.any_cons, mqttMotionEvent]
      cases jsonMotionTrue p with
      | true => simp
      | false => simp

/-! ### What an event says -/

def motionKey : CStr := "motion".toList

def wifiMotionKey : CStr := "wifi_motion".toList

/-- The event reports motion: one of the two members is there and not zero. -/
def Moving (event : JVal) : Prop :=
  ∃ key ∈ [motionKey, wifiMotionKey], ∃ n : Int, event.get key = some (ofInt n) ∧ n ≠ 0

theorem ofInt_inj {a b : Int} (h : ofInt a = ofInt b) : a = b :=
  Rat.intCast_inj.mp (JVal.num.inj h)

theorem moving_value_iff (e : IntObject) :
    Moving e.value ↔ ∃ key ∈ [motionKey, wifiMotionKey],
      ∃ m ∈ e.members.find? fun m => m.name = key, m.val ≠ 0 := by
  unfold Moving
  simp only [e.get_value]
  refine exists_congr fun key => and_congr_right fun _ => ?_
  cases e.members.find? fun m => m.name = key with
  | none => simp
  | some m =>
      constructor
      · rintro ⟨n, hget, hn⟩
        refine ⟨m, rfl, fun hzero => hn ?_⟩
        rw [← ofInt_inj (Option.some.inj hget), hzero]
      · rintro ⟨m', hm, hne⟩
        cases hm
        exact ⟨m.val, rfl, hne⟩

/-! ### What the code looks at -/

/-- The member at which the search stops. -/
def spotted (e : IntObject) : Option IntMember :=
  (e.members.find? fun m => Spells motionKey m.key).or
    (e.members.find? fun m => Spells wifiMotionKey m.key)

/-- Behind blanks alone the value starts with the digit one. -/
def StartsWithOne (m : IntMember) : Prop :=
  (∀ c ∈ m.post.chars, c = ' ') ∧ (numText m.neg m.n).head? = some '1'

instance (m : IntMember) : Decidable (StartsWithOne m) := inferInstanceAs (Decidable (_ ∧ _))

/-- The blanks are passed over; a tab or a line end is what is read. -/
theorem head_dropBlanks (w : Ws) {s : CStr} (hs : ∀ c ∈ s.head?, c ≠ ' ') :
    ((w.chars ++ s).dropWhile (· == ' ')).head? = some '1' ↔
      (∀ c ∈ w.chars, c = ' ') ∧ s.head? = some '1' := by
  obtain ⟨w, hblank⟩ := w
  induction w with
  | nil =>
      cases s with
      | nil => simp
      | cons c s => simp [hs c rfl]
  | cons c w ih =>
      have hrest := ih fun x hx => hblank x (List.mem_cons_of_mem c hx)
      rcases eq_or_ne c ' ' with rfl | hc
      · simpa using hrest
      · have hone : c ≠ '1' := by
          rintro rfl
          exact absurd (hblank '1' List.mem_cons_self) (by decide)
        simp [hc, hone]

/-- From the key of a member the code reads the start of its value. -/
theorem read_stopsAt {w t : CStr} (hw : ':' ∉ w) {m : IntMember} (h : StopsAt w t m) :
    ∃ col, strchr ':' t = some col ∧
      (((col.drop 1).dropWhile (· == ' ')).head? = some '1' ↔ StartsWithOne m) := by
  obtain ⟨rest, rfl⟩ := h
  have hquoted : ':' ∉ quoted w ++ m.mid.chars := by
    have hmid : ':' ∉ m.mid.chars := fun hmem => absurd (m.mid.blank _ hmem) (by decide)
    simp [quoted, hw, hmid]
  refine ⟨':' :: m.valueText rest, ?_, ?_⟩
  · rw [IntMember.behindKey, ← List.append_assoc, strchr_append hquoted, strchr_cons_self]
  · obtain ⟨d, ds, hnum⟩ := List.exists_cons_of_ne_nil (numText_ne_nil m.neg m.n)
    have hd : d ≠ ' ' := by
      rintro rfl
      exact not_mem_numText (by decide) (by decide) m.neg m.n (hnum ▸ List.mem_cons_self)
    rw [List.drop_one, List.tail_cons, IntMember.valueText, head_dropBlanks m.post, StartsWithOne, hnum]
    · rfl
    · intro c hc
      rw [hnum] at hc
      cases hc
      exact hd

/-- The code says yes when the member it meets starts with a one. -/
theorem jsonMotionTrue_iff (e : IntObject) :
    jsonMotionTrue (some e.text) = true ↔ ∃ m ∈ spotted e, StartsWithOne m := by
  have hmotion := strstr_intObject (w := motionKey) (by decide) e
  have hwifi := strstr_intObject (w := wifiMotionKey) (by decide) e
  have hstop : ∀ {w t m}, ':' ∉ w → StopsAt w t m →
      ((match strchr ':' t with
        | none => false
        | some col => ((col.drop 1).dropWhile (· == ' ')).head? == some '1') = true ↔
          StartsWithOne m) := by
    intro w t m hw h
    obtain ⟨col, hcol, hread⟩ := read_stopsAt hw h
    rw [hcol, ← hread]
    exact beq_iff_eq
  have hquotedMotion : "\"motion\"".toList = quoted motionKey := rfl
  have hquotedWifi : "\"wifi_motion\"".toList = quoted wifiMotionKey := rfl
  simp only [jsonMotionTrue, spotted, hquotedMotion, hquotedWifi]
  generalize strstr (quoted motionKey) e.text = a at hmotion
  generalize strstr (quoted wifiMotionKey) e.text = b at hwifi
  generalize (e.members.find? fun m => Spells motionKey m.key) = x at hmotion
  generalize (e.members.find? fun m => Spells wifiMotionKey m.key) = y at hwifi
  cases hmotion with
  | some h => simpa using hstop (by decide) h
  | none =>
      cases hwifi with
      | some h => simpa using hstop (by decide) h
      | none => simp

theorem StartsWithOne.val_ne_zero {m : IntMember} (h : StartsWithOne m) : m.val ≠ 0 := by
  have hone := h.2
  have hpos : m.n ≠ 0 := by
    intro hzero
    rw [hzero] at hone
    cases hneg : m.neg with
    | true => simp [numText, hneg] at hone
    | false => simp [numText, hneg] at hone
  cases hneg : m.neg with
  | true => simpa [IntMember.val, numVal, hneg] using hpos
  | false => simpa [IntMember.val, numVal, hneg] using hpos

/-! ### When the code is right -/

/-- Of an event with motion the member that is met starts with a one, and of a
quiet event it does not. -/
structure MotionHolds (e : IntObject) : Prop where
  moving : Moving e.value → ∃ m ∈ spotted e, StartsWithOne m
  quiet : ¬ Moving e.value → ∀ m ∈ spotted e, ¬ StartsWithOne m

/-- Without escapes in the keys the search meets a member of the name. -/
theorem spotted_of_plain {e : IntObject} (h : ∀ m ∈ e.members, IsPlainKey m.key) :
    spotted e = (e.members.find? fun m => m.name = motionKey).or
      (e.members.find? fun m => m.name = wifiMotionKey) := by
  have hfind : ∀ w, (e.members.find? fun m => Spells w m.key) =
      e.members.find? fun m => m.name = w := by
    intro w
    apply List.find?_congr
    intro m hm
    exact decide_eq_decide.mpr (spells_iff_of_plain (h m hm))
  rw [spotted, hfind, hfind]

/-- A quiet event without escapes in its keys is never taken for motion. -/
theorem quiet_of_plain {e : IntObject} (h : ∀ m ∈ e.members, IsPlainKey m.key)
    (hquiet : ¬ Moving e.value) : ∀ m ∈ spotted e, ¬ StartsWithOne m := by
  intro m hm hone
  apply hquiet
  rw [spotted_of_plain h] at hm
  rw [moving_value_iff]
  rcases Option.or_eq_some_iff.mp hm with hmotion | ⟨-, hwifi⟩
  · exact ⟨motionKey, List.mem_cons_self, m, hmotion, hone.val_ne_zero⟩
  · exact ⟨wifiMotionKey, by simp, m, hwifi, hone.val_ne_zero⟩

/-- There the condition is one on events with motion alone. -/
theorem motionHolds_iff_of_plain {e : IntObject} (h : ∀ m ∈ e.members, IsPlainKey m.key) :
    MotionHolds e ↔ (Moving e.value → ∃ m ∈ spotted e, StartsWithOne m) :=
  ⟨MotionHolds.moving, fun hmoving => ⟨hmoving, quiet_of_plain h⟩⟩

/-- The answer is right under this condition and under no other. -/
theorem jsonMotionTrue_exact_iff (e : IntObject) :
    (jsonMotionTrue (some e.text) = true ↔ Moving e.value) ↔ MotionHolds e := by
  rw [jsonMotionTrue_iff]
  constructor
  · intro h
    refine ⟨h.mpr, fun hquiet m hm hone => hquiet ?_⟩
    exact h.mp ⟨m, hm, hone⟩
  · rintro ⟨hmoving, hquiet⟩
    refine ⟨fun ⟨m, hm, hone⟩ => ?_, hmoving⟩
    by_contra h
    exact hquiet h m hm hone

/-! ### A sequence of events -/

/-- Events without escapes in their keys leave the latch set exactly if one of
them has motion and is answered rightly. -/
theorem motionSeen_iff_of_plain {es : List IntObject} (h : ∀ e ∈ es, ∀ m ∈ e.members, IsPlainKey m.key) :
    (es.map fun e => some e.text).foldl mqttMotionEvent false = true ↔
      ∃ e ∈ es, Moving e.value ∧ MotionHolds e := by
  rw [motionSeen_run, Bool.false_or, List.any_map, List.any_eq_true]
  refine exists_congr fun e => and_congr_right fun he => ?_
  show jsonMotionTrue (some e.text) = true ↔ _
  rw [jsonMotionTrue_iff, motionHolds_iff_of_plain (h e he)]
  constructor
  · rintro ⟨m, hm, hone⟩
    refine ⟨?_, fun _ => ⟨m, hm, hone⟩⟩
    by_contra hquiet
    exact quiet_of_plain (h e he) hquiet m hm hone
  · rintro ⟨hmoving, hholds⟩
    exact hholds hmoving

/-- `"motion":0,"wifi_motion":1` -/
def radioOnly : IntObject where
  lead := .none
  pad := .none
  members := [⟨.none, plainPieces motionKey (by decide), .none, .none, false, 0, .none⟩,
    ⟨.none, plainPieces wifiMotionKey (by decide), .none, .none, false, 1, .none⟩]
  trail := .none

/-- Motion that the radio alone has seen is missed: the search stops at the
first member, which is zero. -/
theorem radioOnly_missed :
    ¬ ∀ e : IntObject, jsonMotionTrue (some e.text) = true ↔ Moving e.value := by
  intro h
  have hmoving : Moving radioOnly.value := ⟨wifiMotionKey, by simp, 1, rfl, by decide⟩
  have hseen : jsonMotionTrue (some radioOnly.text) = true := (h radioOnly).mpr hmoving
  exact absurd hseen (by decide +kernel)

/-- Alone it leaves the latch as it was. -/
theorem radioOnly_not_latched :
    (∀ e ∈ [radioOnly], ∀ m ∈ e.members, IsPlainKey m.key) ∧
      ¬ ∃ e ∈ [radioOnly], Moving e.value ∧ MotionHolds e := by
  have hplain : ∀ e ∈ [radioOnly], ∀ m ∈ e.members, IsPlainKey m.key := by decide
  refine ⟨hplain, fun hlatched => ?_⟩
  exact absurd ((motionSeen_iff_of_plain hplain).mpr hlatched) (by decide +kernel)

end Htsn.Cam
