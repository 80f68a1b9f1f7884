import WirelessTsn.Wired.Actuator

/-!
The main loop of the bridge (`rpi-tsn/tsn_opcua_bridge.c`): it learns the
endpoint's address, hands telemetry on and polls the command nodes that an
operator writes.

A level command is forwarded when the poll reads another value than the last
one, a trigger when it is set. In both cases the poll marks the command as
done whether or not `sendto` succeeded, so a command whose first send fails is
never sent. The address is taken from the first datagram of any kind.
-/

namespace Htsn

open CText

/-! ### The nodes of the operator -/

/-- The commands beside the TSN configuration. -/
inductive CmdOp where
  | servo
  | relay
  | beep
  | sonar
  | reboot
  deriving DecidableEq, Repr

def CmdOp.all : List CmdOp := [.servo, .relay, .beep, .sonar, .reboot]

def CmdOp.kind : CmdOp → Byte
  | .servo => kindCmdServo
  | .relay => kindCmdRelay
  | .beep => kindCmdBeep
  | .sonar => kindCmdSonar
  | .reboot => kindCmdReboot

/-- The `cmd_*` nodes, with the values `htsn_build_address_space` gives
them. -/
structure CmdNodes where
  servoAngle : BitVec 16 := 90
  relayOn : Bool := false
  beepMs : BitVec 16 := 0
  sonarTrig : Bool := false
  reboot : Bool := false
  tsnConfig : CStr := []
  deriving DecidableEq, Repr

/-- A write of the operator. -/
inductive CmdWrite where
  | servoAngle (v : BitVec 16)
  | relayOn (b : Bool)
  | beepMs (v : BitVec 16)
  | sonarTrig (b : Bool)
  | reboot (b : Bool)
  | tsnConfig (json : CStr)
  deriving DecidableEq, Repr

def CmdNodes.write (n : CmdNodes) : CmdWrite → CmdNodes
  | .servoAngle v => { n with servoAngle := v }
  | .relayOn b => { n with relayOn := b }
  | .beepMs v => { n with beepMs := v }
  | .sonarTrig b => { n with sonarTrig := b }
  | .reboot b => { n with reboot := b }
  | .tsnConfig json => { n with tsnConfig := json }

/-- The payload of a command's frame. A trigger has none. -/
def CmdOp.payload (n : CmdNodes) : CmdOp → List Byte
  | .servo => [lo8 n.servoAngle, hi8 n.servoAngle]
  | .relay => [if n.relayOn then 1 else 0]
  | .beep => [lo8 n.beepMs, hi8 n.beepMs]
  | .sonar | .reboot => []

/-! ### The bridge -/

/-- The process: what it keeps between polls, the learned address, and the
nodes of the server it works on. -/
structure BridgeMain where
  bridge : Bridge := {}
  ep : SockAddr := ⟨0, 0⟩
  lastServo : BitVec 16 := 0
  lastRelay : Bool := false
  lastBeep : BitVec 16 := 0
  primed : Bool := false
  cmd : CmdNodes := {}
  telem : TelemNodes := {}
  deriving DecidableEq, Repr

/-- What the environment decides at a poll: which reads of the server succeed,
the time, and which `sendto` calls succeed. -/
structure PollEnv where
  configRead : Bool
  now : Int
  pushOk : Bool
  keepaliveOk : Bool
  readOk : CmdOp → Bool
  sendOk : CmdOp → Bool

/-- A command the next poll that reads it forwards. -/
def CmdOp.pending (s : BridgeMain) : CmdOp → Bool
  | .servo => s.primed && s.cmd.servoAngle != s.lastServo
  | .relay => s.primed && s.cmd.relayOn != s.lastRelay
  | .beep => s.primed && s.cmd.beepMs != s.lastBeep
  | .sonar => s.cmd.sonarTrig
  | .reboot => s.cmd.reboot

/-- What leaves the bridge: a datagram and where it goes. -/
abbrev Sent := SockAddr × List Byte

/-- `send_cmd_kind`; `ok` is whether `sendto` succeeds. -/
def BridgeMain.sendCmd (s : BridgeMain) (kind : Byte) (pl : List Byte) (ok : Bool) : List Sent :=
  if s.bridge.epKnown && ok then
    (Rpi.htsnFramePack typeCmd kind pl).toList.map fun frame => (s.ep, frame)
  else []

/-- The frames a poll sends for one command. -/
def BridgeMain.forward (s : BridgeMain) (e : PollEnv) (op : CmdOp) : List Sent :=
  if e.readOk op && op.pending s then s.sendCmd op.kind (op.payload s.cmd) (e.sendOk op) else []

/-- `poll_commands`. The five commands read and write different nodes and
variables, so their branches are put side by side. -/
def BridgeMain.pollCommands (s : BridgeMain) (e : PollEnv) : BridgeMain × List Sent :=
  let node := if e.configRead then some s.cmd.tsnConfig else none
  let (bridge, frames) := Htsn.pollCommands s.bridge ⟨node, e.now, e.pushOk, e.keepaliveOk⟩
  ({ s with
      bridge
      lastServo := if e.readOk .servo then s.cmd.servoAngle else s.lastServo
      lastRelay := if e.readOk .relay then s.cmd.relayOn else s.lastRelay
      lastBeep := if e.readOk .beep then s.cmd.beepMs else s.lastBeep
      cmd :=
        { s.cmd with
          sonarTrig := if e.readOk .sonar then false else s.cmd.sonarTrig
          reboot := if e.readOk .reboot then false else s.cmd.reboot }
      primed := true },
    frames.map (fun frame => (s.ep, frame)) ++ CmdOp.all.flatMap (s.forward e))

/-- The receive branch of the main loop. -/
def BridgeMain.recv (s : BridgeMain) (src : SockAddr) (dgram : List Byte) : BridgeMain :=
  if dgram = [] then s
  else
    { s with
      bridge := { s.bridge with epKnown := true }
      ep := if s.bridge.epKnown then s.ep else src
      telem := s.telem.receive (dgram.take frameMax) }

/-- What happens to the bridge: an operator writes a node, or the loop goes
round, with or without a datagram. -/
inductive BridgeAct where
  | write (w : CmdWrite)
  | loop (dgram : Option (SockAddr × List Byte)) (e : PollEnv)

def BridgeMain.step (s : BridgeMain) : BridgeAct → BridgeMain × List Sent
  | .write w => ({ s with cmd := s.cmd.write w }, [])
  | .loop dgram e =>
      let s :=
        match dgram with
        | some (src, buf) => s.recv src buf
        | none => s
      if s.bridge.epKnown then s.pollCommands e else (s, [])

/-- The state after a sequence of actions. -/
def bridgeRun (s : BridgeMain) (acts : List BridgeAct) : BridgeMain :=
  Run.run (Run.next BridgeMain.step) s acts

def bridgeSent (s : BridgeMain) (acts : List BridgeAct) : List Sent :=
  Run.outputs BridgeMain.step s acts

/-! ### The frames of a poll -/

theorem framePack_kind {kind : Byte} {pl frame : List Byte}
    (h : Rpi.htsnFramePack typeCmd kind pl = some frame) : frame.getD 2 0 = kind := by
  obtain ⟨_, rfl⟩ := framePack_eq_some.mp h
  rfl

theorem kind_injective {op op' : CmdOp} (h : op.kind = op'.kind) : op = op' := by
  cases op <;> cases op' <;> first | rfl | exact absurd h (by decide)

theorem kind_ne_tsnCfg (op : CmdOp) : op.kind ≠ kindCmdTsnCfg := by
  cases op <;> decide

/-- A send of the configuration: what it leaves of the address, and its
kind. -/
def ConfigSend (b : Bridge) (out : Bridge × Option (List Byte)) : Prop :=
  out.1.epKnown = b.epKnown ∧ ∀ frame ∈ out.2, frame.getD 2 0 = kindCmdTsnCfg

theorem configSend_none (b : Bridge) : ConfigSend b (b, none) := ⟨rfl, by simp⟩

theorem configSend_push (b : Bridge) (json : CStr) (ok : Bool) :
    ConfigSend b (pushTsnConfig b json ok) := by
  rw [pushTsnConfig, framePack_cfgFrame]
  split
  · cases ok with
    | true =>
        refine ⟨rfl, fun frame hframe => ?_⟩
        cases hframe
        exact framePack_kind (framePack_cfgFrame json)
    | false => exact configSend_none b
  · exact configSend_none b

theorem configSend_pollPush (b : Bridge) (i : PollInput) : ConfigSend b (pollPush b i) := by
  rw [pollPush]
  split
  · exact configSend_none b
  · dsimp only
    split
    · exact configSend_push _ _ _
    · exact configSend_none b

theorem configSend_pollKeepalive (b : Bridge) (i : PollInput) :
    ConfigSend b (pollKeepalive b i) := by
  rw [pollKeepalive]
  split
  · exact configSend_push _ _ _
  · exact configSend_none b

/-- The part of a poll before the commands. -/
theorem pollCommands_config (b : Bridge) (i : PollInput) :
    (pollCommands b i).1.epKnown = b.epKnown ∧
      ∀ frame ∈ (pollCommands b i).2, frame.getD 2 0 = kindCmdTsnCfg := by
  rw [pollCommands]
  split
  · obtain ⟨hpush, hpushed⟩ := configSend_pollPush b i
    obtain ⟨hkeep, hkept⟩ := configSend_pollKeepalive (pollPush b i).1 i
    refine ⟨hkeep.trans hpush, fun frame hframe => ?_⟩
    rcases List.mem_append.mp hframe with h | h
    · exact hpushed frame (Option.mem_toList.mp h)
    · exact hkept frame (Option.mem_toList.mp h)
  · exact ⟨rfl, by simp⟩

/-- Of the frames of a poll those of a command's kind are the ones that
forward it. -/
theorem mem_forward_of_kind {s : BridgeMain} {e : PollEnv} {m : Sent} {op : CmdOp}
    (hm : m ∈ (s.pollCommands e).2) (hkind : m.2.getD 2 0 = op.kind) : m ∈ s.forward e op := by
  rcases List.mem_append.mp hm with h | h
  · obtain ⟨frame, hframe, rfl⟩ := List.mem_map.mp h
    have hcfg := (pollCommands_config _ _).2 frame hframe
    exact absurd (hkind.symm.trans hcfg) (kind_ne_tsnCfg op)
  · obtain ⟨op', _, hop'⟩ := List.mem_flatMap.mp h
    have hsent := hop'
    rw [BridgeMain.forward] at hsent
    split at hsent
    · rw [BridgeMain.sendCmd] at hsent
      split at hsent
      · obtain ⟨frame, hframe, rfl⟩ := List.mem_map.mp hsent
        have hpacked := framePack_kind (Option.mem_toList.mp hframe)
        rw [kind_injective (hkind.symm.trans hpacked)]
        exact hop'
      · cases hsent
    · cases hsent

/-! ### What a poll leaves of a command -/

/-- A node as a number. -/
def CmdOp.value (n : CmdNodes) : CmdOp → BitVec 16
  | .servo => n.servoAngle
  | .relay => if n.relayOn then 1 else 0
  | .beep => n.beepMs
  | .sonar => if n.sonarTrig then 1 else 0
  | .reboot => if n.reboot then 1 else 0

/-- What the bridge compares the node with; a trigger is compared with zero. -/
def CmdOp.last (s : BridgeMain) : CmdOp → BitVec 16
  | .servo => s.lastServo
  | .relay => if s.lastRelay then 1 else 0
  | .beep => s.lastBeep
  | .sonar | .reboot => 0

/-- No change since the last poll that read the node. -/
def CmdOp.Settled (op : CmdOp) (s : BridgeMain) : Prop := op.value s.cmd = op.last s

theorem bit_inj {a b : Bool} : (if a then (1 : BitVec 16) else 0) = (if b then 1 else 0) ↔ a = b := by
  cases a <;> cases b <;> decide

theorem pending_of_settled {op : CmdOp} {s : BridgeMain} (h : op.Settled s) :
    op.pending s = false := by
  cases op with
  | servo =>
      have hsame : s.cmd.servoAngle = s.lastServo := h
      simp [CmdOp.pending, hsame]
  | relay =>
      have hsame : s.cmd.relayOn = s.lastRelay := bit_inj.mp h
      simp [CmdOp.pending, hsame]
  | beep =>
      have hsame : s.cmd.beepMs = s.lastBeep := h
      simp [CmdOp.pending, hsame]
  | sonar => exact @bit_inj s.cmd.sonarTrig false |>.mp h
  | reboot => exact @bit_inj s.cmd.reboot false |>.mp h

/-- A poll that reads the node settles the command, whatever `sendto` did. -/
theorem settled_pollCommands (s : BridgeMain) {e : PollEnv} {op : CmdOp} (hread : e.readOk op = true) :
    op.Settled (s.pollCommands e).1 := by
  cases op <;> simp [CmdOp.Settled, CmdOp.value, CmdOp.last, BridgeMain.pollCommands, hread]

/-- A poll leaves a settled command as it is. -/
theorem pollCommands_settled {s : BridgeMain} (e : PollEnv) {op : CmdOp} (h : op.Settled s) :
    op.Settled (s.pollCommands e).1 ∧ op.value (s.pollCommands e).1.cmd = op.value s.cmd := by
  cases hread : e.readOk op with
  | true =>
      refine ⟨settled_pollCommands s hread, ?_⟩
      cases op with
      | servo | relay | beep => rfl
      | sonar | reboot =>
          have hzero : _ = (0 : BitVec 16) := h
          rw [hzero]
          simp [CmdOp.value, BridgeMain.pollCommands, hread]
  | false =>
      have hvalue : op.value (s.pollCommands e).1.cmd = op.value s.cmd := by
        cases op <;> simp [CmdOp.value, BridgeMain.pollCommands, hread]
      refine ⟨?_, hvalue⟩
      rw [CmdOp.Settled, hvalue, h]
      cases op <;> simp [CmdOp.last, BridgeMain.pollCommands, hread]

/-! ### One round of the loop -/

/-- The state in which a round polls. -/
def BridgeMain.received (s : BridgeMain) : Option (SockAddr × List Byte) → BridgeMain
  | some (src, buf) => s.recv src buf
  | none => s

theorem step_loop (s : BridgeMain) (dgram : Option (SockAddr × List Byte)) (e : PollEnv) :
    s.step (.loop dgram e) =
      if (s.received dgram).bridge.epKnown then (s.received dgram).pollCommands e
      else (s.received dgram, []) := by
  cases dgram <;> rfl

/-- Receiving touches neither the command nodes nor what is kept of them. -/
theorem received_cmd (s : BridgeMain) (dgram : Option (SockAddr × List Byte)) :
    (s.received dgram).cmd = s.cmd ∧ (s.received dgram).primed = s.primed ∧
      (s.received dgram).lastServo = s.lastServo ∧ (s.received dgram).lastRelay = s.lastRelay ∧
      (s.received dgram).lastBeep = s.lastBeep := by
  cases dgram with
  | none => exact ⟨rfl, rfl, rfl, rfl, rfl⟩
  | some d =>
      simp only [BridgeMain.received, BridgeMain.recv]
      split <;> exact ⟨rfl, rfl, rfl, rfl, rfl⟩

theorem received_last (s : BridgeMain) (dgram : Option (SockAddr × List Byte)) (op : CmdOp) :
    op.last (s.received dgram) = op.last s ∧ op.pending (s.received dgram) = op.pending s := by
  obtain ⟨hcmd, hprimed, hservo, hrelay, hbeep⟩ := received_cmd s dgram
  cases op <;> simp [CmdOp.last, CmdOp.pending, hcmd, hprimed, hservo, hrelay, hbeep]

/-- A settled command stays settled and is not sent, as long as the operator
leaves its node alone. -/
theorem step_settled {s : BridgeMain} {a : BridgeAct} {op : CmdOp} (h : op.Settled s)
    (hkeep : ∀ w, a = .write w → op.value (s.cmd.write w) = op.value s.cmd) :
    (op.Settled (Run.next BridgeMain.step s a) ∧
      op.value (Run.next BridgeMain.step s a).cmd = op.value s.cmd) ∧
      ∀ m ∈ (s.step a).2, m.2.getD 2 0 ≠ op.kind := by
  cases a with
  | write w =>
      have hvalue := hkeep w rfl
      exact ⟨⟨hvalue.trans h, hvalue⟩, by simp [BridgeMain.step]⟩
  | loop dgram e =>
      obtain ⟨hcmd, -⟩ := received_cmd s dgram
      have hsettled : op.Settled (s.received dgram) := by
        rw [CmdOp.Settled, hcmd, (received_last s dgram op).1]
        exact h
      simp only [Run.next, step_loop]
      split
      · refine ⟨?_, fun m hm hkind => ?_⟩
        · rw [← hcmd]
          exact pollCommands_settled e hsettled
        · have hsent := mem_forward_of_kind hm hkind
          rw [BridgeMain.forward, pending_of_settled hsettled, Bool.and_false] at hsent
          cases hsent
      · refine ⟨⟨hsettled, by rw [hcmd]⟩, by simp⟩

/-- Whether a write changes a node depends on the node only. -/
theorem value_write_congr {op : CmdOp} {n n' : CmdNodes} {w : CmdWrite}
    (hsame : op.value n = op.value n') (hkeep : op.value (n'.write w) = op.value n') :
    op.value (n.write w) = op.value n := by
  cases op <;> cases w <;> first | rfl | exact hkeep.trans hsame.symm

/-! ### No command is lost -/

/-- The operator does not change the command's node any more. -/
def Keeps (op : CmdOp) (n : CmdNodes) (acts : List BridgeAct) : Prop :=
  ∀ w, BridgeAct.write w ∈ acts → op.value (n.write w) = op.value n

/-- There is a poll from which on every read and every send for the command
succeeds. -/
def Recovers (op : CmdOp) (acts : List BridgeAct) : Prop :=
  ∃ front dgram e rest, acts = front ++ .loop dgram e :: rest ∧
    ∀ dgram' e', BridgeAct.loop dgram' e' ∈ .loop dgram e :: rest →
      e'.readOk op = true ∧ e'.sendOk op = true

/-- A frame with the command's present value is sent to the endpoint. -/
def CommandSent (op : CmdOp) (s : BridgeMain) (acts : List BridgeAct) : Prop :=
  ∃ frame, Rpi.htsnFramePack typeCmd op.kind (op.payload s.cmd) = some frame ∧
    (s.ep, frame) ∈ bridgeSent s acts

theorem sent_settled {s : BridgeMain} {op : CmdOp} {acts : List BridgeAct} (h : op.Settled s)
    (hkeep : Keeps op s.cmd acts) : ∀ m ∈ bridgeSent s acts, m.2.getD 2 0 ≠ op.kind := by
  refine @Run.forall_outputs _ _ _ BridgeMain.step
    (fun t => op.Settled t ∧ op.value t.cmd = op.value s.cmd) _ acts ?_ s ⟨h, rfl⟩
  rintro t a ha ⟨hsettled, hvalue⟩
  have hwrite : ∀ w, a = .write w → op.value (t.cmd.write w) = op.value t.cmd := by
    rintro w rfl
    exact value_write_congr hvalue (hkeep w ha)
  obtain ⟨⟨hnext, hsame⟩, hout⟩ := step_settled hsettled hwrite
  exact ⟨⟨hnext, hsame.trans hvalue⟩, hout⟩

/-- Polling starts once the address is known. -/
theorem epKnown_of_primed (acts : List BridgeAct) :
    (bridgeRun {} acts).primed = true → (bridgeRun {} acts).bridge.epKnown = true := by
  refine @Run.run_invariant _ _ (Run.next BridgeMain.step)
    (fun s => s.primed = true → s.bridge.epKnown = true) ?_ {} (fun h => absurd h (by decide)) acts
  intro s a hs
  cases a with
  | write w => exact hs
  | loop dgram e =>
      rw [Run.next, step_loop]
      split
      · rename_i hknown
        intro _
        exact (pollCommands_config _ _).1.trans hknown
      · rename_i hknown
        intro hprimed
        rw [(received_cmd s dgram).2.1] at hprimed
        have hbefore := hs hprimed
        cases dgram with
        | none => exact hbefore
        | some d =>
            simp only [BridgeMain.received, BridgeMain.recv]
            split
            · exact hbefore
            · rfl

/-- Receiving leaves a known address alone. -/
theorem received_ep {s : BridgeMain} (hknown : s.bridge.epKnown = true)
    (dgram : Option (SockAddr × List Byte)) :
    (s.received dgram).bridge.epKnown = true ∧ (s.received dgram).ep = s.ep := by
  cases dgram with
  | none => exact ⟨hknown, rfl⟩
  | some d =>
      simp only [BridgeMain.received, BridgeMain.recv]
      split
      · exact ⟨hknown, rfl⟩
      · exact ⟨rfl, rfl⟩

section

variable {s : BridgeMain} {op : CmdOp} {dgram : Option (SockAddr × List Byte)} {e : PollEnv}
  {after : List BridgeAct}

theorem commandSent_of_sendOk (hknown : s.bridge.epKnown = true) (hpending : op.pending s = true)
    (hread : e.readOk op = true) (hsend : e.sendOk op = true) :
    CommandSent op s (.loop dgram e :: after) := by
  obtain ⟨hep, haddr⟩ := received_ep hknown dgram
  have hlen : (op.payload s.cmd).length ≤ 384 := by
    cases op <;> simp [CmdOp.payload]
  obtain ⟨frame, hpack⟩ :
      ∃ frame, Rpi.htsnFramePack typeCmd op.kind (op.payload s.cmd) = some frame :=
    ⟨_, framePack_eq_some.mpr ⟨hlen, rfl⟩⟩
  have hforward : (s.ep, frame) ∈ (s.received dgram).forward e op := by
    rw [BridgeMain.forward, (received_last s dgram op).2, hpending, hread, Bool.and_self,
      if_pos rfl, BridgeMain.sendCmd, hep, hsend, Bool.and_self, if_pos rfl,
      (received_cmd s dgram).1, hpack, haddr]
    exact List.mem_singleton.mpr rfl
  have hop : op ∈ CmdOp.all := by
    cases op <;> decide
  refine ⟨frame, hpack, List.mem_append_left _ ?_⟩
  rw [step_loop, if_pos hep]
  exact List.mem_append_right _ (List.mem_flatMap.mpr ⟨op, hop, hforward⟩)

/-- A command whose first send fails is not sent later, however long the node
keeps its value. -/
theorem not_commandSent (hknown : s.bridge.epKnown = true) (hread : e.readOk op = true)
    (hsend : e.sendOk op = false)
    (hkeep : Keeps op (Run.next BridgeMain.step s (.loop dgram e)).cmd after) :
    ¬ CommandSent op s (.loop dgram e :: after) := by
  obtain ⟨hep, -⟩ := received_ep hknown dgram
  have hstep : s.step (.loop dgram e) = (s.received dgram).pollCommands e := by
    rw [step_loop, if_pos hep]
  have hsettled : op.Settled (Run.next BridgeMain.step s (.loop dgram e)) := by
    rw [Run.next, hstep]
    exact settled_pollCommands _ hread
  rintro ⟨frame, hpack, hsent⟩
  have hkind := framePack_kind hpack
  rcases List.mem_append.mp hsent with hnow | hlater
  · rw [hstep] at hnow
    have hforward := mem_forward_of_kind hnow hkind
    rw [BridgeMain.forward, BridgeMain.sendCmd, hsend, Bool.and_false, if_neg Bool.false_ne_true,
      ite_self] at hforward
    cases hforward
  · exact sent_settled hsettled hkeep _ hlater hkind

end

/-- A pending command reaches the endpoint exactly when the send succeeds at
the poll that reads it first: there is no second attempt. -/
theorem command_kept_iff (op : CmdOp) (before after : List BridgeAct)
    (dgram : Option (SockAddr × List Byte)) (e : PollEnv)
    (hprimed : (bridgeRun {} before).primed = true)
    (hpending : op.pending (bridgeRun {} before) = true) (hread : e.readOk op = true)
    (hkeep : Keeps op (bridgeRun {} (before ++ [.loop dgram e])).cmd after) :
    (Recovers op after → CommandSent op (bridgeRun {} before) (.loop dgram e :: after)) ↔
      (Recovers op after → e.sendOk op = true) := by
  have hknown := epKnown_of_primed before hprimed
  rw [bridgeRun, Run.run_append] at hkeep
  refine imp_congr_right fun _ => ⟨fun hsent => ?_, fun hsend => ?_⟩
  · rw [← Bool.not_eq_false]
    exact fun hsend => not_commandSent hknown hread hsend hkeep hsent
  · exact commandSent_of_sendOk hknown hpending hread hsend

/-- A poll at which everything succeeds, or at which no command can be sent. -/
def pollEnv (sendOk : Bool) : PollEnv := ⟨true, 0, true, true, fun _ => true, fun _ => sendOk⟩

/-- The bridge has polled once, then the operator turns the servo to 45. -/
def servoTurned : List BridgeAct :=
  [.loop (some (⟨1, 1⟩, [0])) (pollEnv true), .write (.servoAngle 45)]

theorem servoTurned_pending :
    (bridgeRun {} servoTurned).primed = true ∧ CmdOp.pending (bridgeRun {} servoTurned) .servo = true := by
  decide

theorem keeps_of_loop (op : CmdOp) (n : CmdNodes) (dgram : Option (SockAddr × List Byte))
    (e : PollEnv) : Keeps op n [.loop dgram e] := by
  intro w hw
  rcases List.mem_singleton.mp hw

theorem recovers_pollEnv (op : CmdOp) : Recovers op [.loop none (pollEnv true)] := by
  refine ⟨[], none, pollEnv true, [], rfl, fun dgram e he => ?_⟩
  cases List.mem_singleton.mp he
  exact ⟨rfl, rfl⟩

theorem servoTurned_sent :
    CommandSent .servo (bridgeRun {} servoTurned)
      [.loop none (pollEnv true), .loop none (pollEnv true)] :=
  (command_kept_iff .servo servoTurned [.loop none (pollEnv true)] none (pollEnv true)
    servoTurned_pending.1 servoTurned_pending.2 rfl (keeps_of_loop _ _ _ _)).mpr
    (fun _ => rfl) (recovers_pollEnv .servo)

/-- One failed `sendto`, and the servo command is gone. -/
theorem servoTurned_lost :
    Recovers .servo [.loop none (pollEnv true)] ∧
      ¬ CommandSent .servo (bridgeRun {} servoTurned)
        [.loop none (pollEnv false), .loop none (pollEnv true)] :=
  ⟨recovers_pollEnv .servo,
    not_commandSent (epKnown_of_primed servoTurned servoTurned_pending.1) rfl rfl
      (keeps_of_loop _ _ _ _)⟩

/-! ### The learned address -/

/-- `ep`, once `ep_known` is set. -/
def BridgeMain.learned (s : BridgeMain) : Option SockAddr :=
  if s.bridge.epKnown then some s.ep else none

/-- The datagram of a round of the loop. -/
def BridgeAct.dgram : BridgeAct → Option (SockAddr × List Byte)
  | .write _ => none
  | .loop d _ => d

def datagrams (acts : List BridgeAct) : List (SockAddr × List Byte) := acts.filterMap BridgeAct.dgram

/-- The first datagram for which `recvfrom` returns more than zero. -/
def firstDatagram (acts : List BridgeAct) : Option (SockAddr × List Byte) :=
  (datagrams acts).find? fun d => d.2 ≠ []

/-- A datagram that `htsn_frame_unpack` accepts as telemetry. -/
def IsTelemetry (d : SockAddr × List Byte) : Prop :=
  ∃ u, Rpi.htsnFrameUnpack (d.2.take frameMax) = some u ∧ u.type = typeTelem

/-- Whenever an address is known, and for every frame that was sent, a
datagram from there was accepted as telemetry. -/
def LearnedFromTelemetry (acts : List BridgeAct) : Prop :=
  ∀ front, front <+: acts →
    (∀ a, (bridgeRun {} front).learned = some a → ∃ d ∈ datagrams front, d.1 = a ∧ IsTelemetry d) ∧
    ∀ m ∈ bridgeSent {} front, ∃ d ∈ datagrams front, d.1 = m.1 ∧ IsTelemetry d

/-- The source of a datagram that is not empty. -/
def sourceOf (dgram : Option (SockAddr × List Byte)) : Option SockAddr :=
  (dgram.filter fun d => d.2 ≠ []).map Prod.fst

theorem received_learned (s : BridgeMain) (dgram : Option (SockAddr × List Byte)) :
    (s.received dgram).learned = s.learned.or (sourceOf dgram) := by
  cases dgram with
  | none =>
      rw [sourceOf, Option.filter_none, Option.map_none, Option.or_none]
      rfl
  | some d =>
      rw [BridgeMain.received, BridgeMain.recv, sourceOf, Option.filter_some]
      by_cases hempty : d.2 = []
      · simp [hempty]
      · cases hknown : s.bridge.epKnown <;> simp [BridgeMain.learned, hempty, hknown]

theorem pollCommands_learned (s : BridgeMain) (e : PollEnv) :
    (s.pollCommands e).1.learned = s.learned := by
  have hknown : (s.pollCommands e).1.bridge.epKnown = s.bridge.epKnown := (pollCommands_config _ _).1
  rw [BridgeMain.learned, BridgeMain.learned, hknown]
  rfl

theorem step_learned (s : BridgeMain) (a : BridgeAct) :
    (Run.next BridgeMain.step s a).learned = s.learned.or (sourceOf a.dgram) := by
  cases a with
  | write w =>
      rw [BridgeAct.dgram, sourceOf, Option.filter_none, Option.map_none, Option.or_none]
      rfl
  | loop dgram e =>
      rw [BridgeAct.dgram, ← received_learned, Run.next, step_loop]
      split
      · exact pollCommands_learned _ e
      · rfl

theorem firstDatagram_append (as bs : List BridgeAct) :
    firstDatagram (as ++ bs) = (firstDatagram as).or (firstDatagram bs) := by
  rw [firstDatagram, datagrams, List.filterMap_append, List.find?_append]
  rfl

theorem firstDatagram_singleton (a : BridgeAct) :
    firstDatagram [a] = a.dgram.filter fun d => d.2 ≠ [] := by
  cases h : a.dgram with
  | none => simp [firstDatagram, datagrams, h]
  | some d =>
      rw [Option.filter_some]
      by_cases hempty : d.2 = [] <;> simp [firstDatagram, datagrams, h, hempty]

/-- The address is that of the first datagram, and is kept. -/
theorem run_learned (s : BridgeMain) (acts : List BridgeAct) :
    (bridgeRun s acts).learned = s.learned.or ((firstDatagram acts).map Prod.fst) := by
  induction acts generalizing s with
  | nil =>
      have hnone : firstDatagram [] = none := rfl
      rw [hnone, Option.map_none, Option.or_none]
      rfl
  | cons a acts ih =>
      have hfirst := firstDatagram_append [a] acts
      rw [List.singleton_append, firstDatagram_singleton] at hfirst
      have hrun : bridgeRun s (a :: acts) = bridgeRun (Run.next BridgeMain.step s a) acts := rfl
      rw [hrun, ih, step_learned, Option.or_assoc, hfirst, Option.map_or]
      rfl

theorem mem_step_learned {s : BridgeMain} {a : BridgeAct} {m : Sent} (hm : m ∈ (s.step a).2) :
    (Run.next BridgeMain.step s a).learned = some m.1 := by
  cases a with
  | write w => cases hm
  | loop dgram e =>
      rw [Run.next]
      rw [step_loop] at hm ⊢
      split at hm
      · rename_i hknown
        rw [if_pos hknown, pollCommands_learned, BridgeMain.learned, if_pos hknown]
        rcases List.mem_append.mp hm with h | h
        · obtain ⟨frame, -, rfl⟩ := List.mem_map.mp h
          rfl
        · obtain ⟨op, -, hop⟩ := List.mem_flatMap.mp h
          rw [BridgeMain.forward] at hop
          split at hop
          · rw [BridgeMain.sendCmd] at hop
            split at hop
            · obtain ⟨frame, -, rfl⟩ := List.mem_map.mp hop
              rfl
            · cases hop
          · cases hop
      · cases hm

/-- Every frame is sent to the learned address. -/
theorem sent_learned {s : BridgeMain} {acts : List BridgeAct} {m : Sent}
    (hm : m ∈ bridgeSent s acts) : (bridgeRun s acts).learned = some m.1 := by
  induction acts generalizing s with
  | nil => cases hm
  | cons a acts ih =>
      rcases List.mem_append.mp hm with h | h
      · have hrun : bridgeRun s (a :: acts) = bridgeRun (Run.next BridgeMain.step s a) acts := rfl
        rw [hrun, run_learned, mem_step_learned h, Option.some_or]
      · exact ih h

/-- Up to the round that brings the first datagram only empty ones arrive. -/
theorem exists_first {acts : List BridgeAct} {d : SockAddr × List Byte}
    (h : firstDatagram acts = some d) :
    ∃ front a rest, acts = front ++ a :: rest ∧ a.dgram = some d ∧
      firstDatagram front = none ∧ firstDatagram (front ++ [a]) = some d := by
  induction acts with
  | nil => cases h
  | cons a acts ih =>
      have hfirst := firstDatagram_append [a] acts
      rw [List.singleton_append, h] at hfirst
      cases ha : firstDatagram [a] with
      | some d' =>
          rw [ha, Option.some_or, Option.some.injEq] at hfirst
          subst hfirst
          have hdgram := ha
          rw [firstDatagram_singleton, Option.filter_eq_some_iff] at hdgram
          exact ⟨[], a, acts, rfl, hdgram.1, rfl, ha⟩
      | none =>
          rw [ha, Option.none_or] at hfirst
          obtain ⟨front, b, rest, rfl, hb, hnone, hsome⟩ := ih hfirst.symm
          have hcons := firstDatagram_append [a]
          simp only [ha, Option.none_or, List.singleton_append] at hcons
          exact ⟨a :: front, b, rest, rfl, hb, (hcons front).trans hnone,
            (hcons (front ++ [b])).trans hsome⟩

theorem not_isTelemetry_of_firstDatagram {acts : List BridgeAct} (h : firstDatagram acts = none)
    {d : SockAddr × List Byte} (hd : d ∈ datagrams acts) : ¬ IsTelemetry d := by
  have hempty : d.2 = [] := by
    simpa using List.find?_eq_none.mp h d hd
  rintro ⟨u, hu, -⟩
  rw [hempty] at hu
  cases hu

theorem telemetry_of_learned {acts : List BridgeAct} (h : LearnedFromTelemetry acts)
    {d : SockAddr × List Byte} (hd : firstDatagram acts = some d) : IsTelemetry d := by
  obtain ⟨front, a, rest, rfl, hdgram, hnone, hfirst⟩ := exists_first hd
  have hlearned : (bridgeRun {} (front ++ [a])).learned = some d.1 := by
    rw [run_learned, hfirst]
    rfl
  obtain ⟨d', hmem, -, htelem⟩ := (h (front ++ [a]) ⟨rest, by simp⟩).1 d.1 hlearned
  rw [datagrams, List.filterMap_append, List.mem_append] at hmem
  rcases hmem with hmem | hmem
  · exact absurd htelem (not_isTelemetry_of_firstDatagram hnone hmem)
  · rw [List.filterMap_cons_some hdgram, List.filterMap_nil, List.mem_singleton] at hmem
    rwa [← hmem]

theorem firstDatagram_of_front {front acts : List BridgeAct} {d : SockAddr × List Byte}
    (hfront : front <+: acts) (hd : firstDatagram front = some d) : firstDatagram acts = some d := by
  obtain ⟨rest, rfl⟩ := hfront
  rw [firstDatagram_append, hd, Option.some_or]

/-- The first datagram decides: the address is learned from telemetry exactly
when that one is telemetry. -/
theorem learnedFromTelemetry_iff (acts : List BridgeAct) :
    LearnedFromTelemetry acts ↔ ∀ d, firstDatagram acts = some d → IsTelemetry d := by
  refine ⟨fun h d hd => telemetry_of_learned h hd, fun h front hfront => ?_⟩
  have hlearned : ∀ a, (bridgeRun {} front).learned = some a →
      ∃ d ∈ datagrams front, d.1 = a ∧ IsTelemetry d := by
    intro a ha
    rw [run_learned] at ha
    obtain ⟨d, hd, rfl⟩ := Option.map_eq_some_iff.mp ha
    exact ⟨d, List.mem_of_find?_eq_some hd, rfl, h d (firstDatagram_of_front hfront hd)⟩
  exact ⟨hlearned, fun m hm => hlearned m.1 (sent_learned hm)⟩

/-- One byte from anywhere makes its sender the endpoint. -/
theorem strayByte_learned :
    ¬ LearnedFromTelemetry [.loop (some (⟨66, 66⟩, [0])) (pollEnv true)] := by
  intro h
  obtain ⟨u, hu, -⟩ := telemetry_of_learned h (d := (⟨66, 66⟩, [0])) rfl
  have hrejected : Rpi.htsnFrameUnpack ([0].take frameMax) = none := by decide
  exact Option.some_ne_none u (hu.symm.trans hrejected)

end Htsn
