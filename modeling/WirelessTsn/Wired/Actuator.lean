import WirelessTsn.Esp32.Json
import WirelessTsn.Wired.Telemetry

/-!
The endpoint's relay and buzzer (`stm32-tsn/actuators/htsn_actuator.c`), the
commands that drive them (`cmd_task_fn`, `stm32-tsn/src/main.c`) and the nodes
their reports are written to.

A report names only the actuator it is about, and the bridge writes the nodes
of all of them, so each report clears what the others showed.
-/

namespace Htsn

open CText Json

def kindCmdServo : Byte := 1
def kindCmdSonar : Byte := 2
def kindCmdRelay : Byte := 3
def kindCmdBeep : Byte := 4
def kindCmdHud : Byte := 5
def kindCmdReboot : Byte := 6

/-- `HTSN_NODE_ID` -/
def nodeId : CStr := "stm32-tsn-01".toList

/-! ### The commands -/

/-- The `int16_t` at the front of a payload, zero when that is too short. -/
def int16Arg (pl : List Byte) : BitVec 16 :=
  match pl with
  | lo :: hi :: _ => le16 lo hi
  | _ => 0

/-- The verb and the argument that `cmd_task_fn` hands to the callback. -/
def cmdVerb (kind : Byte) (pl : List Byte) : Option (CStr × CStr) :=
  if kind = kindCmdServo then some ("servo".toList, showInt (int16Arg pl).toInt)
  else if kind = kindCmdSonar then some ("sonar".toList, [])
  else if kind = kindCmdRelay then some ("relay".toList, showInt (pl.getD 0 0).toNat)
  else if kind = kindCmdBeep then some ("beep".toList, showInt (int16Arg pl).toInt)
  else if kind = kindCmdHud then some ("hud".toList, bytesText pl)
  else if kind = kindCmdReboot then some ("reboot".toList, [])
  else none

/-- `g_relay_on`, `g_buzz_hz` and `g_buzz_ms`: the relay, and the last beep
with a positive duration. -/
structure Actuator where
  relayOn : Bool := false
  buzzHz : Int32 := 0
  buzzMs : Int32 := 0
  deriving DecidableEq, Repr

def relayReport (state : Bool) : CStr :=
  (Buf.copy 64 ("\x7b\"device\":\"".toList ++ (nodeId ++ ("\",\"on\":".toList ++
    (showInt (if state then 1 else 0) ++ "\x7d".toList))))).chars

/-- `htsn_actuator_relay`, with the report it publishes. -/
def Actuator.relay (a : Actuator) (on : Int32) : Actuator × Option CStr :=
  let state := decide (on ≠ 0)
  if state = a.relayOn then (a, none) else ({ a with relayOn := state }, some (relayReport state))

def beepReport (hz ms : Int32) : CStr :=
  (Buf.copy 64 ("\x7b\"device\":\"".toList ++ (nodeId ++ ("\",\"hz\":".toList ++
    (showInt hz.toInt ++ (",\"ms\":".toList ++ (showInt ms.toInt ++ "\x7d".toList))))))).chars

/-- `htsn_actuator_beep` -/
def Actuator.beep (a : Actuator) (ms : Int32) : Actuator × Option CStr :=
  if ms ≤ 0 then (a, none)
  else ({ a with buzzHz := 1000, buzzMs := ms }, some (beepReport 1000 ms))

/-- The endpoint's `on_command`; the other verbs leave relay and buzzer alone.
Both firmwares are built with a `long` of 32 bits. -/
def Actuator.onCommand (a : Actuator) (cmd arg : CStr) : Actuator × Option CStr :=
  if cmd = "relay".toList then a.relay (Esp32.atoi arg)
  else if cmd = "beep".toList then a.beep (Esp32.atoi arg)
  else (a, none)

/-! ### Endpoint and nodes together -/

/-- A relay or a beep command, by the payload of its frame. -/
inductive ActCmd where
  | relay (pl : List Byte)
  | beep (pl : List Byte)
  deriving DecidableEq, Repr

def ActCmd.kind : ActCmd → Byte
  | .relay _ => kindCmdRelay
  | .beep _ => kindCmdBeep

def ActCmd.payload : ActCmd → List Byte
  | .relay pl | .beep pl => pl

structure Plant where
  act : Actuator := {}
  nodes : TelemNodes := {}
  deriving DecidableEq, Repr

/-- The endpoint executes a command and the bridge processes its report. -/
def Plant.step (s : Plant) (c : ActCmd) : Plant :=
  match cmdVerb c.kind c.payload with
  | none => s
  | some (cmd, arg) =>
      let (act, report) := s.act.onCommand cmd arg
      let frame := report.bind (publishTelemetry "actuator".toList)
      { act, nodes := (frame.map s.nodes.receive).getD s.nodes }

/-- The nodes show the relay, and the last beep with a positive duration. -/
def Plant.Reflects (s : Plant) : Prop :=
  s.nodes.relayOn = s.act.relayOn ∧
    (s.nodes.buzzerHz.toNat : Int) = s.act.buzzHz.toInt ∧
    (s.nodes.buzzerMs.toNat : Int) = s.act.buzzMs.toInt

/-! ### One command -/

theorem atoi_showInt {v : Int} (hlo : -(2 ^ 31) ≤ v) (hhi : v < 2 ^ 31) :
    Esp32.atoi (showInt v) = Int32.ofInt v := by
  have hscan := scanInt_showInt v [] (by simp)
  rw [List.append_nil] at hscan
  rw [Esp32.atoi, hscan]
  have hclamp : max (-(2 ^ 31)) (min v (2 ^ 31 - 1)) = v := by omega
  simp only [hclamp]

theorem toNat_of_toInt_pos {x : BitVec 16} (h : 0 < x.toInt) : (x.toNat : Int) = x.toInt := by
  rw [BitVec.toInt_eq_toNat_cond] at h ⊢
  split at h
  · rename_i hsmall
    rw [if_pos hsmall]
  · omega

theorem setWidth_toCLongLong {x : BitVec 16} (h : 0 < x.toInt) :
    (toCLongLong x.toInt).toBitVec.setWidth 16 = x := by
  have hhi := x.toInt_lt
  have hval : (toCLongLong x.toInt).toInt = x.toInt := toInt_toCLongLong (by omega) (by omega)
  have hwidth := @setWidth_toNat (toCLongLong x.toInt) 16 (by omega) (by omega)
  have hnat := toNat_of_toInt_pos h
  apply BitVec.eq_of_toNat_eq
  omega

def relayMembers (state : Bool) : List (Plain × Value) :=
  [(.lit "device".toList, .str (.lit nodeId)),
    (.lit "on".toList, .ofInt (if state then 1 else 0))]

theorem relayReport_eq (state : Bool) :
    relayReport state = (compactObject (relayMembers state)).text := by
  cases state <;> decide

def beepMembers (ms : Int32) : List (Plain × Value) :=
  [(.lit "device".toList, .str (.lit nodeId)),
    (.lit "hz".toList, .ofInt 1000),
    (.lit "ms".toList, .ofInt ms.toInt)]

theorem beepReport_eq (ms : Int32) :
    beepReport 1000 ms = (compactObject (beepMembers ms)).text := by
  have hlen : (showInt ms.toInt).length ≤ 11 := by
    have hlo := ms.le_toInt
    have hhi := ms.toInt_lt
    exact showInt_length_le (by omega) (by omega)
  have hthousand : (1000 : Int32).toInt = 1000 := by decide
  have hid : nodeId.length = 12 := by decide
  have hhz : (showInt 1000).length ≤ 5 := @showInt_length_le 1000 4 (by omega) (by omega)
  have htext : (compactObject (beepMembers ms)).text =
      "\x7b\"device\":\"".toList ++ (nodeId ++ ("\",\"hz\":".toList ++
        (showInt 1000 ++ (",\"ms\":".toList ++ (showInt ms.toInt ++ "\x7d".toList))))) := by
    simp only [compactObject, compactMembers, beepMembers, Object.text, List.map_cons, List.map_nil,
      membersText, membersTail, Member.text, Member.compact, Member.valueText, Value.text_ofInt]
    generalize showInt 1000 = hz
    generalize showInt ms.toInt = duration
    rfl
  rw [htext, beepReport, hthousand]
  apply Buf.copy_chars_of_lt
  simp only [hid, String.reduceToList, List.length_append, List.length_cons, List.length_nil]
  omega

theorem isBytes_relayReport (state : Bool) : IsBytes (relayReport state) := by
  cases state <;> decide

theorem isBytes_beepReport (hz ms : Int32) : IsBytes (beepReport hz ms) := by
  intro c hc
  have hmem := List.mem_of_mem_take hc
  exact (IsBytes.append (by decide) (IsBytes.append (by decide) (IsBytes.append (by decide)
    (IsBytes.append (isBytes_showInt _) (IsBytes.append (by decide)
      (IsBytes.append (isBytes_showInt _) (by decide))))))) c hmem

/-- A report that fits a frame is read by `on_telemetry` as it was written. -/
theorem receive_report {report : CStr} (hlen : report.length ≤ 384) (hbytes : IsBytes report)
    (n : TelemNodes) :
    ((publishTelemetry "actuator".toList report).map n.receive).getD n = n.onActuator report := by
  have hsize : (textBytes report).length ≤ 384 := by rwa [textBytes_length]
  obtain ⟨frame, hframe⟩ := exists_packed hsize kindTelemActuator
  have hpublish : publishTelemetry "actuator".toList report = some frame := hframe
  rw [hpublish, Option.map_some, Option.getD_some, receive_packed hframe]
  have hbranch : n.onTelemetry kindTelemActuator (textBytes report) =
      n.onActuator (bytesText (textBytes report)) := rfl
  rw [hbranch, bytesText_textBytes hbytes]

theorem onActuator_relayReport (n : TelemNodes) (state : Bool) :
    n.onActuator (relayReport state) =
      { n with servoAngle := 0, buzzerHz := 0, buzzerMs := 0, relayOn := state } := by
  have hdist : ((relayMembers state).map fun m => m.1.chars).Nodup := by
    simp only [relayMembers, List.map_cons, List.map_nil]
    decide
  have hon := jbool_bit ⟨by decide, 'o', rfl, by decide⟩ (by decide) hdist
    (show memberAt "on".toList (relayMembers state) = some (.ofInt (if state then 1 else 0), []) from rfl)
    false
  rw [relayReport_eq, TelemNodes.onActuator, hon,
    jint_absent ⟨by decide, 'a', rfl, by decide⟩ (by decide) hdist rfl,
    jint_absent ⟨by decide, 'h', rfl, by decide⟩ (by decide) hdist rfl,
    jint_absent ⟨by decide, 'm', rfl, by decide⟩ (by decide) hdist rfl]
  rfl

theorem onActuator_beepReport (n : TelemNodes) (ms : Int32) :
    n.onActuator (beepReport 1000 ms) =
      { n with
        servoAngle := 0
        buzzerHz := 1000
        buzzerMs := (toCLongLong ms.toInt).toBitVec.setWidth 16
        relayOn := false } := by
  have hdist : ((beepMembers ms).map fun m => m.1.chars).Nodup := by
    simp only [beepMembers, List.map_cons, List.map_nil]
    decide
  have hhz : jint (compactObject (beepMembers ms)).text "hz".toList 0 = toCLongLong 1000 :=
    jint_number ⟨by decide, 'h', rfl, by decide⟩ (by decide) hdist rfl 0
  have hms : jint (compactObject (beepMembers ms)).text "ms".toList 0 = toCLongLong ms.toInt :=
    jint_number ⟨by decide, 'm', rfl, by decide⟩ (by decide) hdist rfl 0
  rw [beepReport_eq, TelemNodes.onActuator, hhz, hms,
    jint_absent ⟨by decide, 'a', rfl, by decide⟩ (by decide) hdist rfl,
    jbool_absent ⟨by decide, 'o', rfl, by decide⟩ (by decide) hdist rfl]
  rfl

/-- A relay command that changes nothing is silent; one that does clears the
buzzer's nodes. -/
theorem Plant.step_relay (s : Plant) (pl : List Byte) :
    s.step (.relay pl) =
      if decide (pl.getD 0 0 ≠ 0) = s.act.relayOn then s
      else
        { act := { s.act with relayOn := decide (pl.getD 0 0 ≠ 0) }
          nodes :=
            { s.nodes with
              servoAngle := 0, buzzerHz := 0, buzzerMs := 0
              relayOn := decide (pl.getD 0 0 ≠ 0) } } := by
  have hbyte := (pl.getD 0 0).isLt
  have harg : Esp32.atoi (showInt (pl.getD 0 0).toNat) = Int32.ofInt (pl.getD 0 0).toNat :=
    atoi_showInt (by omega) (by omega)
  have hon : decide (Int32.ofInt (pl.getD 0 0).toNat ≠ 0) = decide (pl.getD 0 0 ≠ 0) := by
    apply decide_eq_decide.mpr
    rw [not_iff_not, ← Int32.toInt_inj, Int32.toInt_ofInt_of_le (by omega) (by omega),
      ← BitVec.toNat_inj]
    exact Int.natCast_inj
  have hstep : s.step (.relay pl) =
      { act := (s.act.relay (Esp32.atoi (showInt (pl.getD 0 0).toNat))).1
        nodes := (((s.act.relay (Esp32.atoi (showInt (pl.getD 0 0).toNat))).2.bind
          (publishTelemetry "actuator".toList)).map s.nodes.receive).getD s.nodes } := rfl
  rw [hstep, harg, Actuator.relay, hon]
  split
  · rfl
  · have hlen : (relayReport (decide (pl.getD 0 0 ≠ 0))).length < 64 := Buf.fits _
    rw [Option.bind_some, receive_report (by omega) (isBytes_relayReport _), onActuator_relayReport]

/-- A beep that sounds clears the relay's node. -/
theorem Plant.step_beep (s : Plant) (pl : List Byte) :
    s.step (.beep pl) =
      if 0 < (int16Arg pl).toInt then
        { act := { s.act with buzzHz := 1000, buzzMs := Int32.ofInt (int16Arg pl).toInt }
          nodes :=
            { s.nodes with
              servoAngle := 0, buzzerHz := 1000, buzzerMs := int16Arg pl, relayOn := false } }
      else s := by
  have hlo := (int16Arg pl).le_toInt
  have hhi := (int16Arg pl).toInt_lt
  have harg : Esp32.atoi (showInt (int16Arg pl).toInt) = Int32.ofInt (int16Arg pl).toInt :=
    atoi_showInt (by omega) (by omega)
  have hval : (Int32.ofInt (int16Arg pl).toInt).toInt = (int16Arg pl).toInt :=
    Int32.toInt_ofInt_of_le (by omega) (by omega)
  have hpos : Int32.ofInt (int16Arg pl).toInt ≤ 0 ↔ ¬ 0 < (int16Arg pl).toInt := by
    rw [Int32.le_iff_toInt_le, hval]
    exact Int.not_lt.symm
  have hstep : s.step (.beep pl) =
      { act := (s.act.beep (Esp32.atoi (showInt (int16Arg pl).toInt))).1
        nodes := (((s.act.beep (Esp32.atoi (showInt (int16Arg pl).toInt))).2.bind
          (publishTelemetry "actuator".toList)).map s.nodes.receive).getD s.nodes } := rfl
  rw [hstep, harg, Actuator.beep]
  split
  · rename_i hquiet
    rw [if_neg (hpos.mp hquiet)]
    rfl
  · rename_i hsounds
    have hlen : (beepReport 1000 (Int32.ofInt (int16Arg pl).toInt)).length < 64 := Buf.fits _
    have hsound : 0 < (int16Arg pl).toInt := Decidable.not_not.mp fun h => hsounds (hpos.mpr h)
    rw [if_pos hsound, Option.bind_some, receive_report (by omega) (isBytes_beepReport _ _),
      onActuator_beepReport, hval, setWidth_toCLongLong hsound]

/-! ### A sequence of commands -/

/-- What a relay command asks for. -/
def ActCmd.relayArg : ActCmd → Option Bool
  | .relay pl => some (decide (pl.getD 0 0 ≠ 0))
  | .beep _ => none

/-- The duration of a beep that sounds. -/
def ActCmd.sound : ActCmd → Option (BitVec 16)
  | .relay _ => none
  | .beep pl => if 0 < (int16Arg pl).toInt then some (int16Arg pl) else none

/-- What the last of the relay commands asks for; the relay is off at first. -/
def lastRelay (cmds : List ActCmd) : Bool := ((cmds.filterMap ActCmd.relayArg).getLast?).getD false

/-- At the last beep that sounds the relay is off, and no command after it
switches it on. -/
def QuietRelay (cmds : List ActCmd) : Prop :=
  ∀ before c after, cmds = before ++ c :: after → c.sound ≠ none →
    (∀ d ∈ after, d.sound = none) →
      lastRelay before = false ∧ ∀ d ∈ after, d.relayArg ≠ some true

/-- One step, by what the command is. -/
theorem Plant.step_eq (s : Plant) (c : ActCmd) :
    s.step c =
      match c.relayArg, c.sound with
      | some on, _ =>
          if on = s.act.relayOn then s
          else
            { act := { s.act with relayOn := on }
              nodes :=
                { s.nodes with servoAngle := 0, buzzerHz := 0, buzzerMs := 0, relayOn := on } }
      | none, some ms =>
          { act := { s.act with buzzHz := 1000, buzzMs := Int32.ofInt ms.toInt }
            nodes :=
              { s.nodes with servoAngle := 0, buzzerHz := 1000, buzzerMs := ms, relayOn := false } }
      | none, none => s := by
  cases c with
  | relay pl => exact s.step_relay pl
  | beep pl =>
      rw [s.step_beep]
      simp only [ActCmd.relayArg, ActCmd.sound]
      split <;> rfl

theorem relayArg_of_sound {c : ActCmd} {ms : BitVec 16} (h : c.sound = some ms) :
    c.relayArg = none ∧ 0 < ms.toInt := by
  cases c with
  | relay pl => cases h
  | beep pl =>
      rw [ActCmd.sound] at h
      split at h
      · rename_i hpos
        cases h
        exact ⟨rfl, hpos⟩
      · cases h

section

variable {s : Plant} {cmds : List ActCmd}

theorem run_relayOn (s : Plant) (cmds : List ActCmd) :
    (Run.run Plant.step s cmds).act.relayOn =
      ((cmds.filterMap ActCmd.relayArg).getLast?).getD s.act.relayOn := by
  induction cmds generalizing s with
  | nil => rfl
  | cons c cmds ih =>
      rw [Run.run_cons, ih, s.step_eq, List.filterMap_cons]
      cases harg : c.relayArg with
      | none => cases c.sound <;> rfl
      | some on =>
          have hon : (if on = s.act.relayOn then s else
              { act := { s.act with relayOn := on }
                nodes := { s.nodes with
                  servoAngle := 0, buzzerHz := 0, buzzerMs := 0, relayOn := on } }).act.relayOn =
              on := by
            split
            · rename_i hsame
              exact hsame.symm
            · rfl
          simp only [hon, List.getLast?_cons, Option.getD_some]

/-- The last report was the relay's, or there was none. -/
def Plant.Cleared (s : Plant) : Prop :=
  s.nodes.buzzerHz = 0 ∧ s.nodes.buzzerMs = 0 ∧ s.nodes.relayOn = s.act.relayOn

/-- A run without a beep that sounds keeps what is known of the last one. -/
theorem run_buzz (hsilent : ∀ c ∈ cmds, c.sound = none) :
    (Run.run Plant.step s cmds).act.buzzHz = s.act.buzzHz ∧
      (Run.run Plant.step s cmds).act.buzzMs = s.act.buzzMs := by
  induction cmds generalizing s with
  | nil => exact ⟨rfl, rfl⟩
  | cons c cmds ih =>
      have hstep : (s.step c).act.buzzHz = s.act.buzzHz ∧ (s.step c).act.buzzMs = s.act.buzzMs := by
        rw [s.step_eq, hsilent c List.mem_cons_self]
        cases c.relayArg with
        | none => exact ⟨rfl, rfl⟩
        | some on =>
            dsimp only
            split <;> exact ⟨rfl, rfl⟩
      rw [← hstep.1, ← hstep.2]
      exact ih fun d hd => hsilent d (List.mem_cons_of_mem c hd)

theorem run_cleared (hs : s.Cleared) (hsilent : ∀ c ∈ cmds, c.sound = none) :
    (Run.run Plant.step s cmds).Cleared := by
  induction cmds generalizing s with
  | nil => exact hs
  | cons c cmds ih =>
      refine ih ?_ fun d hd => hsilent d (List.mem_cons_of_mem c hd)
      rw [s.step_eq, hsilent c List.mem_cons_self]
      cases c.relayArg with
      | none => exact hs
      | some on =>
          dsimp only
          split
          · exact hs
          · exact ⟨rfl, rfl, rfl⟩

/-- Without a sound and without a change of the relay nothing is reported;
with a change the relay's report is the last one. -/
theorem run_silent (hsilent : ∀ c ∈ cmds, c.sound = none) :
    if ∀ c ∈ cmds, c.relayArg ≠ some (!s.act.relayOn) then Run.run Plant.step s cmds = s
    else (Run.run Plant.step s cmds).Cleared := by
  induction cmds generalizing s with
  | nil => simp [Run.run]
  | cons c cmds ih =>
      have hlater : ∀ d ∈ cmds, d.sound = none := fun d hd => hsilent d (List.mem_cons_of_mem c hd)
      have hstep := s.step_eq c
      rw [hsilent c List.mem_cons_self] at hstep
      by_cases hchange : c.relayArg = some (!s.act.relayOn)
      · have hcleared : (s.step c).Cleared := by
          rw [hstep, hchange]
          simp only [Bool.not_eq_eq_eq_not, Bool.eq_not_self, if_false]
          exact ⟨rfl, rfl, rfl⟩
        rw [if_neg fun hall => hall c List.mem_cons_self hchange, Run.run_cons]
        exact run_cleared hcleared hlater
      · have hsame : s.step c = s := by
          rw [hstep]
          cases harg : c.relayArg with
          | none => rfl
          | some on =>
              have hon : on = s.act.relayOn := by
                rw [harg, Option.some.injEq] at hchange
                cases on <;> cases h : s.act.relayOn <;> simp_all
              exact if_pos hon
        have hcond : (∀ d ∈ c :: cmds, d.relayArg ≠ some (!s.act.relayOn)) ↔
            ∀ d ∈ cmds, d.relayArg ≠ some (!s.act.relayOn) := by
          rw [List.forall_mem_cons]
          exact and_iff_right hchange
        rw [Run.run_cons, hsame]
        simp only [hcond]
        exact ih hlater

end

/-- Without a beep that sounds the nodes are right. -/
theorem reflects_of_silent {cmds : List ActCmd} (hsilent : ∀ c ∈ cmds, c.sound = none) :
    (Run.run Plant.step {} cmds).Reflects := by
  have hcleared : (Run.run Plant.step {} cmds).Cleared := run_cleared ⟨rfl, rfl, rfl⟩ hsilent
  obtain ⟨hhz, hms⟩ := @run_buzz {} cmds hsilent
  refine ⟨hcleared.2.2, ?_, ?_⟩
  · rw [hcleared.1, hhz]
    rfl
  · rw [hcleared.2.1, hms]
    rfl

/-- From the last beep that sounds on. -/
theorem reflects_iff_of_last {before after : List ActCmd} {c : ActCmd} (hsound : c.sound ≠ none)
    (hsilent : ∀ d ∈ after, d.sound = none) :
    (Run.run Plant.step {} (before ++ c :: after)).Reflects ↔
      lastRelay before = false ∧ ∀ d ∈ after, d.relayArg ≠ some true := by
  obtain ⟨ms, hms⟩ := Option.ne_none_iff_exists'.mp hsound
  obtain ⟨harg, hpos⟩ := relayArg_of_sound hms
  have hrelay : (Run.run Plant.step {} before).act.relayOn = lastRelay before := run_relayOn {} before
  rw [Run.run_append, Run.run_cons]
  generalize Run.run Plant.step {} before = s at hrelay ⊢
  have hstep := s.step_eq c
  rw [harg, hms] at hstep
  have hms32 : (Int32.ofInt ms.toInt).toInt = ms.toInt := by
    have hhi := ms.toInt_lt
    exact Int32.toInt_ofInt_of_le (by omega) (by omega)
  have hhz : (((1000 : BitVec 16).toNat : Int)) = (1000 : Int32).toInt := by decide
  have hzero : ((0 : BitVec 16).toNat : Int) ≠ (1000 : Int32).toInt := by decide
  have hbeeped : (s.step c).Reflects ↔ lastRelay before = false := by
    rw [hstep, ← hrelay]
    constructor
    · intro h
      exact h.1.symm
    · intro h
      exact ⟨h.symm, hhz, (toNat_of_toInt_pos hpos).trans hms32.symm⟩
  have hafter := @run_silent (s.step c) after hsilent
  have hkept := @run_buzz (s.step c) after hsilent
  have hon : (s.step c).act.relayOn = lastRelay before := by
    rw [hstep]
    exact hrelay
  rw [hon] at hafter
  by_cases hquiet : ∀ d ∈ after, d.relayArg ≠ some (!lastRelay before)
  · rw [if_pos hquiet] at hafter
    rw [hafter, hbeeped]
    constructor
    · intro hoff
      refine ⟨hoff, fun d hd => ?_⟩
      have hne := hquiet d hd
      rwa [hoff] at hne
    · exact fun h => h.1
  · rw [if_neg hquiet] at hafter
    constructor
    · -- The relay's report has cleared the beep that sounded.
      intro h
      have hshown := h.2.1
      rw [hafter.1, hkept.1, hstep] at hshown
      exact absurd hshown hzero
    · rintro ⟨hoff, hnone⟩
      rw [hoff] at hquiet
      exact absurd hnone hquiet

/-- The nodes show relay and buzzer after a sequence of commands exactly when
none of them sounds, or the relay is off at the last one that does and stays
off. -/
theorem reflects_iff (cmds : List ActCmd) :
    (Run.run Plant.step {} cmds).Reflects ↔ QuietRelay cmds := by
  constructor
  · rintro h before c after rfl hsound hsilent
    exact (reflects_iff_of_last hsound hsilent).mp h
  · intro hquiet
    by_cases hsilent : ∀ c ∈ cmds, c.sound = none
    · exact reflects_of_silent hsilent
    · push Not at hsilent
      obtain ⟨c, hc, hsound⟩ := hsilent
      obtain ⟨d, ⟨before, after, rfl, hafter⟩, hd⟩ :=
        @Run.exists_survives _ (fun b _ : ActCmd => b.sound ≠ none)
          (fun _ _ _ ha _ => ha) cmds c hc
      have hlast : d.sound ≠ none := by
        rcases hd with rfl | hd
        · exact hsound
        · exact hd
      have hrest : ∀ e ∈ after, e.sound = none := fun e he => Decidable.not_not.mp (hafter e he)
      exact (reflects_iff_of_last hlast hrest).mpr (hquiet before d after rfl hlast hrest)

/-- The relay is switched on, then the buzzer sounds for 100 ms. -/
theorem relayThenBeep_not_reflected :
    ¬ (Run.run Plant.step {} [.relay [1], .beep [100, 0]]).Reflects := by
  have hiff := @reflects_iff_of_last [.relay [1]] [] (.beep [100, 0]) (by decide) (by simp)
  intro h
  exact absurd (hiff.mp h).1 (by decide)

end Htsn
