import WirelessTsn.Lib.Run
import WirelessTsn.Wired.Bridge
import WirelessTsn.Wired.Endpoint

/-!
Bridge and endpoint as two parties that exchange datagrams. A datagram is in
flight from the moment it is sent until it is delivered or dropped, in any
order; each carries the number under which it was sent. The endpoint can
reboot at any time.

The endpoint reports a configuration when it first applies it and stays quiet
on every re-push, so the view converges when a push of the configuration is
not one of those: `nodes_show_config`.
-/

namespace Htsn

open CText

/-- A datagram with the number under which it was sent. -/
abbrev Flight := Nat × List Byte

structure Wire where
  node : CStr := []
  bridge : Bridge := {}
  nodes : AppNodes := {}
  endpoint : Endpoint := {}
  cmds : List Flight := []
  telems : List Flight := []
  sent : Nat := 0
  deriving DecidableEq, Repr

/-- The telemetry kinds besides the report. -/
inductive TelemKind where
  | hello | sweep | buttons | actuator | ptp | preempt | preemptUrg
  deriving DecidableEq, Repr

def TelemKind.code : TelemKind → Byte
  | .hello => 1
  | .sweep => 2
  | .buttons => 3
  | .actuator => 4
  | .ptp => 5
  | .preempt => 7
  | .preemptUrg => 8

inductive WireAct where
  /-- the `cmd_tsn_config` node is written -/
  | setConfig (json : CStr)
  /-- a poll of the bridge, with the outcome of the read and of the two sends -/
  | poll (readOk : Bool) (now : Int) (pushOk keepaliveOk : Bool)
  /-- the endpoint publishes other telemetry -/
  | publish (kind : TelemKind) (payload : List Byte)
  | reboot
  | deliverCmd (d : Flight)
  | dropCmd (d : Flight)
  | deliverTelem (d : Flight)
  | dropTelem (d : Flight)
  deriving DecidableEq, Repr

def Wire.setBridge (s : Wire) (b : Bridge) : Wire := { s with bridge := b }

/-- Frames go out under the next numbers. -/
def Wire.sendCmds (s : Wire) : List (List Byte) → Wire
  | [] => s
  | f :: fs => Wire.sendCmds { s with cmds := s.cmds ++ [(s.sent, f)], sent := s.sent + 1 } fs

def Wire.sendTelem (s : Wire) : Option (List Byte) → Wire
  | none => s
  | some f => { s with telems := s.telems ++ [(s.sent, f)], sent := s.sent + 1 }

def wireStep (s : Wire) : WireAct → Wire
  | .setConfig json => { s with node := json }
  | .poll readOk now pushOk keepaliveOk =>
      let (b, frames) := pollCommands s.bridge
        { node := if readOk then some s.node else none, now, pushOk, keepaliveOk }
      (s.setBridge b).sendCmds frames
  | .publish kind payload =>
      s.sendTelem (Stm32.htsnFramePack typeTelem kind.code payload)
  | .reboot => { s with endpoint := {} }
  | .deliverCmd d =>
      if d ∈ s.cmds then
        let (e, report) := cmdTask s.endpoint d.2
        { s with cmds := s.cmds.erase d, endpoint := e }.sendTelem report
      else s
  | .dropCmd d => { s with cmds := s.cmds.erase d }
  | .deliverTelem d =>
      if d ∈ s.telems then
        let (b, n) := bridgeRecv s.bridge s.nodes d.2
        { s with telems := s.telems.erase d, bridge := b, nodes := n }
      else s
  | .dropTelem d => { s with telems := s.telems.erase d }

def wireRun (s : Wire) (acts : List WireAct) : Wire := Run.run wireStep s acts

@[simp] theorem wireRun_nil (s : Wire) : wireRun s [] = s := rfl

@[simp] theorem wireRun_cons (s : Wire) (a : WireAct) (as : List WireAct) :
    wireRun s (a :: as) = wireRun (wireStep s a) as := rfl

def WireAct.isSetConfig : WireAct → Bool
  | .setConfig _ => true
  | _ => false

/-- The configuration the bridge pushes for a node value: it copies the first
384 bytes. -/
def pushedConfig (json : CStr) : CStr := json.take frameMaxplen

/-- The datagram is a report of the configuration `c`. -/
def Reports (c : TsnCfg) (frame : List Byte) : Prop :=
  ∃ payload, Rpi.htsnFrameUnpack frame = some ⟨typeTelem, kindTelemTsnApplied, payload⟩ ∧
    cfgSize ≤ payload.length ∧ TsnCfg.ofBytes payload = c

/-- It is a report of a configuration that the nodes show in another way. -/
def ReportsOther (c : TsnCfg) (frame : List Byte) : Prop :=
  ∃ other, Reports other frame ∧ AppNodes.ofCfg other 0 ≠ AppNodes.ofCfg c 0

/-- In the run of `acts` from `s`, when a report of another configuration with a
number below `a` is delivered, a report of `c` is in flight that is delivered
later. -/
def Repaired (c : TsnCfg) (a : Nat) (s : Wire) (acts : List WireAct) : Prop :=
  ∀ front d back, acts = front ++ .deliverTelem d :: back → d ∈ (wireRun s front).telems →
    d.1 < a → ReportsOther c d.2 →
    ∃ e ∈ (wireRun s (front ++ [.deliverTelem d])).telems,
      Reports c e.2 ∧ .deliverTelem e ∈ back ∧ .dropTelem e ∉ back

/-- A run cut at the last change of the configuration and at the arrival of a
push. -/
structure WireRun where
  before : List WireAct
  json : CStr
  mid : List WireAct
  push : Flight
  post : List WireAct

namespace WireRun

variable (r : WireRun)

def changed : Wire := wireRun {} (r.before ++ [.setConfig r.json])

def arrival : Wire := wireRun r.changed r.mid

def final : Wire := wireRun r.arrival (.deliverCmd r.push :: r.post)

/-- After the last change of the configuration and the last reboot, a push of
that configuration reaches the endpoint, and every datagram the endpoint sends
from then on is delivered. -/
structure PushReaches : Prop where
  midQuiet : ∀ a ∈ r.mid, a.isSetConfig = false
  postQuiet : ∀ a ∈ r.post, a.isSetConfig = false ∧ a ≠ .reboot
  inFlight : r.push ∈ r.arrival.cmds
  content : r.push.2 = cfgFrame (pushedConfig r.json)
  recent : r.changed.sent ≤ r.push.1
  notDropped : ∀ d, r.arrival.sent ≤ d.1 → .dropTelem d ∉ r.post
  delivered : ∀ d ∈ r.final.telems, d.1 < r.arrival.sent

/-- The push finds the endpoint with another configuration, or the nodes show
this one already. -/
def Noticed : Prop :=
  ¬ (r.arrival.endpoint.valid ∧ r.arrival.endpoint.payload = tsnPayload (pushedConfig r.json)) ∨
    r.arrival.nodes.Shows (cfgOfJson (pushedConfig r.json))

/-- A command that was sent before the push and is delivered after it is of the
same configuration. Behind a report of another configuration, sent before the
arrival and delivered after it, a report of this one is still delivered. -/
structure NotOvertaking : Prop where
  cmds : ∀ d, .deliverCmd d ∈ r.post → d.1 < r.push.1 → d.2 = r.push.2
  telems : Repaired (cfgOfJson (pushedConfig r.json)) r.arrival.sent
    (wireStep r.arrival (.deliverCmd r.push)) r.post

end WireRun

/-! ### The two parties on a pushed configuration -/

theorem cmdTask_cfgFrame (e : Endpoint) (json : CStr) :
    cmdTask e (cfgFrame json) = tsnHandleCfg e (tsnPayload json) := by
  have hunpack : Stm32.htsnFrameUnpack (cfgFrame json) =
      some ⟨typeCmd, kindCmdTsnCfg, tsnPayload json⟩ := by
    rw [frame_codecs_same.2]
    exact frameUnpack_eq_some.mpr ⟨_, framePack_cfgFrame json, List.prefix_refl _⟩
  rw [cmdTask, hunpack]
  rfl

/-- The payload starts with the struct. -/
theorem tsnPayload_eq_append (json : CStr) :
    ∃ gcl, tsnPayload json = (cfgOfJson json).toBytes ++ gcl := by
  have happend : ∀ (es : List (Int64 × Int64)) (pl : List Byte), pl <+: appendGcl pl es := by
    intro es
    induction es with
    | nil => exact fun pl => List.prefix_refl pl
    | cons e es ih =>
        intro pl
        rw [appendGcl]
        split
        · exact (List.prefix_append _ _).trans (ih _)
        · exact List.prefix_refl pl
  obtain ⟨gcl, hgcl⟩ := happend _ (cfgOfJson json).toBytes
  exact ⟨gcl, hgcl.symm⟩

theorem exists_reportFrame {json : CStr} {e : Endpoint} (he : e.payload = tsnPayload json) :
    ∃ frame, Stm32.htsnFramePack typeTelem kindTelemTsnApplied (reportPayload e) = some frame := by
  have hlen := (tsnPayload_length json).2
  rw [frame_codecs_same.1]
  refine ⟨_, framePack_eq_some.mpr ⟨?_, rfl⟩⟩
  rw [reportPayload_length, he]
  simp only [frameMaxplen] at *
  omega

/-- The report of a pushed configuration. -/
theorem reports_pack {json : CStr} {e : Endpoint} (he : e.payload = tsnPayload json)
    {frame : List Byte}
    (hframe : Stm32.htsnFramePack typeTelem kindTelemTsnApplied (reportPayload e) = some frame) :
    Reports (cfgOfJson json) frame := by
  rw [frame_codecs_same.1] at hframe
  obtain ⟨gcl, hgcl⟩ := tsnPayload_eq_append json
  have hlo := (tsnPayload_length json).1
  refine ⟨reportPayload e, frameUnpack_eq_some.mpr ⟨frame, hframe, List.prefix_refl _⟩, ?_, ?_⟩
  · rw [reportPayload_length, he]
    omega
  · simp only [reportPayload]
    rw [he, hgcl, List.append_assoc, TsnCfg.ofBytes_toBytes]

/-- A delivered report of a configuration makes the nodes show it. -/
theorem bridgeRecv_reports {c : TsnCfg} {frame : List Byte} (h : Reports c frame) (b : Bridge)
    (n : AppNodes) : (bridgeRecv b n frame).2.Shows c := by
  obtain ⟨payload, hunpack, hlong, rfl⟩ := h
  simp only [bridgeRecv, hunpack, if_true, onTelemetry, if_neg (Nat.not_lt.mpr hlong)]
  rfl

/-- Other telemetry leaves the nodes alone. -/
theorem bridgeRecv_publish {kind : TelemKind} {payload frame : List Byte}
    (hframe : Stm32.htsnFramePack typeTelem kind.code payload = some frame)
    (b : Bridge) (n : AppNodes) : (bridgeRecv b n frame).2 = n := by
  rw [frame_codecs_same.1] at hframe
  have hunpack : Rpi.htsnFrameUnpack frame = some ⟨typeTelem, kind.code, payload⟩ :=
    frameUnpack_eq_some.mpr ⟨frame, hframe, List.prefix_refl _⟩
  have hkind : kind.code ≠ kindTelemTsnApplied := by
    cases kind <;> decide
  simp only [bridgeRecv, hunpack, if_true, onTelemetry, hkind, if_false]

/-! ### One poll is two sends -/

/-- A send of the bridge: its state afterwards and the frame that left. -/
def Wire.sendPhase (s : Wire) (out : Bridge × Option (List Byte)) : Wire :=
  (s.setBridge out.1).sendCmds out.2.toList

theorem sendCmds_append (s : Wire) (fs gs : List (List Byte)) :
    s.sendCmds (fs ++ gs) = (s.sendCmds fs).sendCmds gs := by
  induction fs generalizing s with
  | nil => rfl
  | cons f fs ih => exact ih _

theorem sendCmds_setBridge (s : Wire) (b : Bridge) (fs : List (List Byte)) :
    (s.setBridge b).sendCmds fs = (s.sendCmds fs).setBridge b := by
  induction fs generalizing s with
  | nil => rfl
  | cons f fs ih =>
      exact ih { s with cmds := s.cmds ++ [(s.sent, f)], sent := s.sent + 1 }

theorem setBridge_setBridge (s : Wire) (b c : Bridge) : (s.setBridge b).setBridge c = s.setBridge c :=
  rfl

theorem wireStep_poll (s : Wire) (readOk : Bool) (now : Int) (pushOk keepaliveOk : Bool) :
    let i : PollInput := ⟨if readOk then some s.node else none, now, pushOk, keepaliveOk⟩
    wireStep s (.poll readOk now pushOk keepaliveOk) =
      if s.bridge.epKnown then
        (s.sendPhase (pollPush s.bridge i)).sendPhase (pollKeepalive (pollPush s.bridge i).1 i)
      else s := by
  intro i
  by_cases hknown : s.bridge.epKnown = true
  · have hpoll : wireStep s (.poll readOk now pushOk keepaliveOk) =
        (s.setBridge (pollKeepalive (pollPush s.bridge i).1 i).1).sendCmds
          ((pollPush s.bridge i).2.toList ++
            (pollKeepalive (pollPush s.bridge i).1 i).2.toList) := by
      simp only [wireStep, pollCommands, hknown, if_true]
      rfl
    rw [hpoll, if_pos hknown, sendCmds_append, Wire.sendPhase, Wire.sendPhase]
    simp only [sendCmds_setBridge, setBridge_setBridge]
  · rw [if_neg hknown]
    simp only [wireStep, pollCommands, hknown]
    rfl

/-- What a send of the bridge can be, next to a frame `F`: nothing is sent and
the last configuration stays, or the frame of the new last configuration is
sent, which is `F` if the last one was. -/
def SendOk (F : List Byte) (b : Bridge) (out : Bridge × Option (List Byte)) : Prop :=
  out.1.epKnown = b.epKnown ∧ out.1.lastTsn.length ≤ frameMaxplen ∧
    (out.2 = none ∧ out.1.lastTsn = b.lastTsn ∨
      out.2 = some (cfgFrame out.1.lastTsn) ∧ (cfgFrame b.lastTsn = F → cfgFrame out.1.lastTsn = F))

theorem pushTsnConfig_sendOk {F : List Byte} {b : Bridge} {json : CStr} {ok : Bool}
    (hlast : b.lastTsn.length ≤ frameMaxplen) (hjson : json.length ≤ frameMaxplen)
    (hF : cfgFrame b.lastTsn = F → cfgFrame json = F) :
    SendOk F b (pushTsnConfig b json ok) := by
  by_cases hknown : b.epKnown = true
  · rw [pushTsnConfig_eq hknown]
    cases ok with
    | false => exact ⟨rfl, hlast, Or.inl ⟨rfl, rfl⟩⟩
    | true =>
        have htake : json.take frameMaxplen = json := List.take_of_length_le hjson
        refine ⟨rfl, by simp, Or.inr ⟨?_, ?_⟩⟩
        · simp [htake]
        · simpa [htake] using hF
  · rw [pushTsnConfig, if_neg hknown]
    exact ⟨rfl, hlast, Or.inl ⟨rfl, rfl⟩⟩

theorem pollPush_sendOk {b : Bridge} {json : CStr} {i : PollInput}
    (hlast : b.lastTsn.length ≤ frameMaxplen) (hnode : ∀ us ∈ i.node, us = json) :
    SendOk (cfgFrame (pushedConfig json)) b (pollPush b i) := by
  unfold pollPush
  split
  · exact ⟨rfl, hlast, Or.inl ⟨rfl, rfl⟩⟩
  · rename_i us hus
    have hsame : us = json := hnode us hus
    subst hsame
    dsimp only
    split
    · exact pushTsnConfig_sendOk hlast (by simp) fun _ => rfl
    · exact ⟨rfl, hlast, Or.inl ⟨rfl, rfl⟩⟩

theorem pollKeepalive_sendOk {F : List Byte} {b : Bridge} {i : PollInput}
    (hlast : b.lastTsn.length ≤ frameMaxplen) : SendOk F b (pollKeepalive b i) := by
  unfold pollKeepalive
  split
  · exact pushTsnConfig_sendOk hlast hlast id
  · exact ⟨rfl, hlast, Or.inl ⟨rfl, rfl⟩⟩

@[simp] theorem sendTelem_cmds (s : Wire) (f : Option (List Byte)) :
    (s.sendTelem f).cmds = s.cmds := by
  cases f <;> rfl

@[simp] theorem sendTelem_bridge (s : Wire) (f : Option (List Byte)) :
    (s.sendTelem f).bridge = s.bridge := by
  cases f <;> rfl

@[simp] theorem sendTelem_node (s : Wire) (f : Option (List Byte)) :
    (s.sendTelem f).node = s.node := by
  cases f <;> rfl

@[simp] theorem sendTelem_nodes (s : Wire) (f : Option (List Byte)) :
    (s.sendTelem f).nodes = s.nodes := by
  cases f <;> rfl

@[simp] theorem sendTelem_endpoint (s : Wire) (f : Option (List Byte)) :
    (s.sendTelem f).endpoint = s.endpoint := by
  cases f <;> rfl

theorem le_sendTelem_sent (s : Wire) (f : Option (List Byte)) : s.sent ≤ (s.sendTelem f).sent := by
  cases f with
  | none => exact Nat.le_refl _
  | some f => exact Nat.le_succ _

/-! ### What holds of the bridge in every run -/

/-- The last configuration is a C string of its buffer, and numbers are given
out in order. -/
def Bounded (s : Wire) : Prop :=
  s.bridge.lastTsn.length ≤ frameMaxplen ∧ ∀ d ∈ s.cmds, d.1 < s.sent

/-- From number `k` on only `F` is under way to the endpoint, and only `F` will
be sent. -/
def Settled (F : List Byte) (k : Nat) (s : Wire) : Prop :=
  cfgFrame s.bridge.lastTsn = F ∧ ∀ d ∈ s.cmds, k ≤ d.1 → d.2 = F

/-- Once `F` was sent under a number from `k` on, the bridge is settled on
it. -/
def Recent (F : List Byte) (k : Nat) (s : Wire) : Prop :=
  ∀ d ∈ s.cmds, k ≤ d.1 → d.2 = F → Settled F d.1 s

theorem sendPhase_bridge (s : Wire) (out : Bridge × Option (List Byte)) :
    (s.sendPhase out).bridge = out.1 := by
  rw [Wire.sendPhase, sendCmds_setBridge]
  rfl

/-- A send leaves everything but the bridge and the commands in flight, and
adds at most one command. -/
theorem sendPhase_eq (s : Wire) (out : Bridge × Option (List Byte)) :
    out.2 = none ∧ s.sendPhase out = s.setBridge out.1 ∨
    ∃ f, out.2 = some f ∧
      s.sendPhase out =
        { s.setBridge out.1 with cmds := s.cmds ++ [(s.sent, f)], sent := s.sent + 1 } := by
  obtain ⟨b, f⟩ := out
  cases f with
  | none => exact Or.inl ⟨rfl, rfl⟩
  | some f => exact Or.inr ⟨f, rfl, rfl⟩

theorem bounded_sendPhase {F : List Byte} {s : Wire} {out : Bridge × Option (List Byte)}
    (h : Bounded s) (hout : SendOk F s.bridge out) : Bounded (s.sendPhase out) := by
  refine ⟨by rw [sendPhase_bridge]; exact hout.2.1, ?_⟩
  rcases sendPhase_eq s out with ⟨_, heq⟩ | ⟨f, _, heq⟩
  · rw [heq]
    exact h.2
  · rw [heq]
    intro d hd
    rcases List.mem_append.mp hd with hold | hnew
    · exact Nat.lt_succ_of_lt (h.2 d hold)
    · rw [List.mem_singleton.mp hnew]
      exact Nat.lt_succ_self _

theorem settled_sendPhase {F : List Byte} {k : Nat} {s : Wire}
    {out : Bridge × Option (List Byte)} (h : Settled F k s) (hout : SendOk F s.bridge out) :
    Settled F k (s.sendPhase out) := by
  obtain ⟨_, _, hsent⟩ := hout
  rcases sendPhase_eq s out with ⟨hnone, heq⟩ | ⟨f, hsome, heq⟩
  · rcases hsent with ⟨_, hlast⟩ | ⟨hcfg, _⟩
    · rw [heq]
      exact ⟨hlast ▸ h.1, h.2⟩
    · rw [hnone] at hcfg
      cases hcfg
  · rcases hsent with ⟨hnone, _⟩ | ⟨hcfg, hF⟩
    · rw [hnone] at hsome
      cases hsome
    · rw [hcfg, Option.some.injEq] at hsome
      rw [heq]
      refine ⟨hF h.1, fun d hd hk => ?_⟩
      rcases List.mem_append.mp hd with hold | hnew
      · exact h.2 d hold hk
      · rw [List.mem_singleton.mp hnew, ← hsome]
        exact hF h.1

theorem recent_sendPhase {F : List Byte} {k : Nat} {s : Wire}
    {out : Bridge × Option (List Byte)} (hbounded : Bounded s) (h : Recent F k s)
    (hout : SendOk F s.bridge out) : Recent F k (s.sendPhase out) := by
  intro d hd hk hF
  by_cases hold : d ∈ s.cmds
  · exact settled_sendPhase (h d hold hk hF) hout
  · -- the command just sent is the newest, so it alone has to be the frame
    rcases sendPhase_eq s out with ⟨_, heq⟩ | ⟨f, hsome, heq⟩
    · rw [heq] at hd
      exact absurd hd hold
    · rw [heq] at hd ⊢
      have hnew : d = (s.sent, f) := by
        rcases List.mem_append.mp hd with hmem | hmem
        · exact absurd hmem hold
        · exact List.mem_singleton.mp hmem
      subst hnew
      have hcfg : cfgFrame out.1.lastTsn = F := by
        rcases hout.2.2 with ⟨hnone, _⟩ | ⟨hsent, _⟩
        · rw [hnone] at hsome
          cases hsome
        · rw [hsent, Option.some.injEq] at hsome
          exact hsome.trans hF
      refine ⟨hcfg, fun e he hle => ?_⟩
      rcases List.mem_append.mp he with hmem | hmem
      · have hlt := hbounded.2 e hmem
        simp only at hle
        omega
      · rw [List.mem_singleton.mp hmem]
        exact hF

/-- What both sends of a poll keep, the poll keeps. -/
theorem poll_preserves {P : Wire → Prop} {s : Wire} (hs : P s)
    (hlast : s.bridge.lastTsn.length ≤ frameMaxplen)
    (hsend : ∀ t out, P t → SendOk (cfgFrame (pushedConfig s.node)) t.bridge out →
      P (t.sendPhase out))
    (readOk : Bool) (now : Int) (pushOk keepaliveOk : Bool) :
    P (wireStep s (.poll readOk now pushOk keepaliveOk)) := by
  rw [wireStep_poll]
  split
  · have hnode : ∀ us ∈ (if readOk then some s.node else none), us = s.node := by
      intro us hus
      cases readOk with
      | false => cases hus
      | true => exact (Option.some.inj hus).symm
    have hpush := pollPush_sendOk (i := ⟨if readOk then some s.node else none, now, pushOk,
      keepaliveOk⟩) hlast hnode
    refine hsend _ _ (hsend _ _ hs hpush) ?_
    rw [sendPhase_bridge]
    exact pollKeepalive_sendOk hpush.2.1
  · exact hs

/-- Every other action sends no command and keeps the last configuration. -/
theorem wireStep_other {s : Wire} {a : WireAct}
    (h : ∀ readOk now pushOk keepaliveOk, a ≠ .poll readOk now pushOk keepaliveOk) :
    (∀ d ∈ (wireStep s a).cmds, d ∈ s.cmds) ∧
      (wireStep s a).bridge.lastTsn = s.bridge.lastTsn ∧ s.sent ≤ (wireStep s a).sent := by
  cases a with
  | setConfig json => exact ⟨fun d hd => hd, rfl, Nat.le_refl _⟩
  | poll readOk now pushOk keepaliveOk => exact absurd rfl (h _ _ _ _)
  | publish kind payload =>
      simp only [wireStep, sendTelem_cmds, sendTelem_bridge]
      exact ⟨fun d hd => hd, trivial, le_sendTelem_sent _ _⟩
  | reboot => exact ⟨fun d hd => hd, rfl, Nat.le_refl _⟩
  | deliverCmd d =>
      simp only [wireStep]
      split
      · simp only [sendTelem_cmds, sendTelem_bridge]
        exact ⟨fun e he => List.mem_of_mem_erase he, trivial, le_sendTelem_sent
          { s with cmds := s.cmds.erase d, endpoint := (cmdTask s.endpoint d.2).1 } _⟩
      · exact ⟨fun d hd => hd, rfl, Nat.le_refl _⟩
  | dropCmd d => exact ⟨fun e he => List.mem_of_mem_erase he, rfl, Nat.le_refl _⟩
  | deliverTelem d =>
      simp only [wireStep]
      split
      · exact ⟨fun d hd => hd, rfl, Nat.le_refl _⟩
      · exact ⟨fun d hd => hd, rfl, Nat.le_refl _⟩
  | dropTelem d => exact ⟨fun d hd => hd, rfl, Nat.le_refl _⟩

theorem bounded_step (s : Wire) (a : WireAct) (h : Bounded s) : Bounded (wireStep s a) := by
  by_cases hpoll : ∃ readOk now pushOk keepaliveOk, a = .poll readOk now pushOk keepaliveOk
  · obtain ⟨readOk, now, pushOk, keepaliveOk, rfl⟩ := hpoll
    exact poll_preserves h h.1 (fun t out ht hout => bounded_sendPhase ht hout) _ _ _ _
  · obtain ⟨hcmds, hlast, hsent⟩ := wireStep_other (s := s) (a := a)
      fun readOk now pushOk keepaliveOk heq => hpoll ⟨_, _, _, _, heq⟩
    exact ⟨hlast ▸ h.1, fun d hd => (h.2 d (hcmds d hd)).trans_le hsent⟩

theorem sendPhase_node (s : Wire) (out : Bridge × Option (List Byte)) :
    (s.sendPhase out).node = s.node := by
  rcases sendPhase_eq s out with ⟨_, heq⟩ | ⟨f, _, heq⟩ <;> rw [heq] <;> rfl

theorem node_step {s : Wire} {a : WireAct} (h : a.isSetConfig = false) :
    (wireStep s a).node = s.node := by
  cases a with
  | setConfig json => cases h
  | poll readOk now pushOk keepaliveOk =>
      rw [wireStep_poll]
      split
      · rw [sendPhase_node, sendPhase_node]
      · rfl
  | publish kind payload => exact sendTelem_node _ _
  | deliverCmd d =>
      simp only [wireStep]
      split
      · exact sendTelem_node _ _
      · rfl
  | deliverTelem d =>
      simp only [wireStep]
      split <;> rfl
  | reboot => rfl
  | dropCmd d => rfl
  | dropTelem d => rfl

/-- A step that is no change of the configuration keeps the bridge on its way
to the node's value. -/
theorem recent_step {k : Nat} {s : Wire} {a : WireAct} (hbounded : Bounded s)
    (h : Recent (cfgFrame (pushedConfig s.node)) k s) :
    Recent (cfgFrame (pushedConfig s.node)) k (wireStep s a) := by
  by_cases hpoll : ∃ readOk now pushOk keepaliveOk, a = .poll readOk now pushOk keepaliveOk
  · obtain ⟨readOk, now, pushOk, keepaliveOk, rfl⟩ := hpoll
    have hboth := poll_preserves
      (P := fun t => Bounded t ∧ Recent (cfgFrame (pushedConfig s.node)) k t) ⟨hbounded, h⟩
      hbounded.1 (fun t out ht hout =>
        ⟨bounded_sendPhase ht.1 hout, recent_sendPhase ht.1 ht.2 hout⟩) readOk now pushOk keepaliveOk
    exact hboth.2
  · obtain ⟨hcmds, hlast, _⟩ := wireStep_other (s := s) (a := a)
      fun readOk now pushOk keepaliveOk heq => hpoll ⟨_, _, _, _, heq⟩
    intro d hd hk hF
    obtain ⟨hframe, hall⟩ := h d (hcmds d hd) hk hF
    exact ⟨hlast ▸ hframe, fun e he hle => hall e (hcmds e he) hle⟩

theorem settled_step {k : Nat} {s : Wire} {a : WireAct}
    (hlast : s.bridge.lastTsn.length ≤ frameMaxplen)
    (h : Settled (cfgFrame (pushedConfig s.node)) k s) :
    Settled (cfgFrame (pushedConfig s.node)) k (wireStep s a) := by
  by_cases hpoll : ∃ readOk now pushOk keepaliveOk, a = .poll readOk now pushOk keepaliveOk
  · obtain ⟨readOk, now, pushOk, keepaliveOk, rfl⟩ := hpoll
    exact poll_preserves h hlast (fun t out ht hout => settled_sendPhase ht hout) _ _ _ _
  · obtain ⟨hcmds, hsame, _⟩ := wireStep_other (s := s) (a := a)
      fun readOk now pushOk keepaliveOk heq => hpoll ⟨_, _, _, _, heq⟩
    exact ⟨hsame ▸ h.1, fun d hd hk => h.2 d (hcmds d hd) hk⟩

/-! ### From the arrival of the push on -/

/-- Receiving the datagram does not take a shown configuration away. -/
def Harmless (c : TsnCfg) (frame : List Byte) : Prop :=
  ∀ b n, n.Shows c → (bridgeRecv b n frame).2.Shows c

/-- The endpoint holds the configuration `json`, the bridge sends nothing
else from number `k` on, and the endpoint reports nothing else from number `a`
on. -/
structure Converging (json : CStr) (k a : Nat) (s : Wire) : Prop where
  node : s.node = json
  bounded : s.bridge.lastTsn.length ≤ frameMaxplen
  settled : Settled (cfgFrame (pushedConfig json)) k s
  held : s.endpoint.valid ∧ s.endpoint.payload = tsnPayload (pushedConfig json)
  harmless : ∀ t ∈ s.telems, a ≤ t.1 → Harmless (cfgOfJson (pushedConfig json)) t.2

/-- The nodes show `c`, or a report of it is in flight that is not lost: its
number is at least `a`, or it is delivered by the actions that follow. -/
def Shown (c : TsnCfg) (a : Nat) (s : Wire) (acts : List WireAct) : Prop :=
  s.nodes.Shows c ∨
    ∃ t ∈ s.telems, Reports c t.2 ∧ (a ≤ t.1 ∨ .deliverTelem t ∈ acts ∧ .dropTelem t ∉ acts)

/-- What an action from the arrival on may be. -/
structure AfterArrival (json : CStr) (k a : Nat) (act : WireAct) : Prop where
  noChange : act.isSetConfig = false
  noReboot : act ≠ .reboot
  cmd : ∀ d, act = .deliverCmd d → d.1 < k → d.2 = cfgFrame (pushedConfig json)
  drop : ∀ d, act = .dropTelem d → d.1 < a

section

variable {json : CStr} {k a : Nat}

/-- The endpoint stays quiet on a re-push of what it holds. -/
theorem cmdTask_held {e : Endpoint}
    (h : e.valid ∧ e.payload = tsnPayload (pushedConfig json)) :
    cmdTask e (cfgFrame (pushedConfig json)) = (e, none) := by
  obtain ⟨hlo, hhi⟩ := tsnPayload_length (pushedConfig json)
  rw [cmdTask_cfgFrame, tsnHandleCfg_eq hlo hhi, if_pos h]

theorem sendPhase_frame (s : Wire) (out : Bridge × Option (List Byte)) :
    (s.sendPhase out).endpoint = s.endpoint ∧ (s.sendPhase out).telems = s.telems ∧
      (s.sendPhase out).nodes = s.nodes := by
  rcases sendPhase_eq s out with ⟨_, heq⟩ | ⟨f, _, heq⟩
  · rw [heq]
    exact ⟨rfl, rfl, rfl⟩
  · rw [heq]
    exact ⟨rfl, rfl, rfl⟩

/-- A poll touches the bridge's side only. -/
theorem poll_frame (s : Wire) (readOk : Bool) (now : Int) (pushOk keepaliveOk : Bool) :
    let s' := wireStep s (.poll readOk now pushOk keepaliveOk)
    s'.endpoint = s.endpoint ∧ s'.telems = s.telems ∧ s'.nodes = s.nodes := by
  intro s'
  simp only [s', wireStep_poll]
  split
  · obtain ⟨he, ht, hn⟩ := sendPhase_frame (s.sendPhase (pollPush s.bridge
      ⟨if readOk then some s.node else none, now, pushOk, keepaliveOk⟩)) (pollKeepalive
        (pollPush s.bridge ⟨if readOk then some s.node else none, now, pushOk, keepaliveOk⟩).1
        ⟨if readOk then some s.node else none, now, pushOk, keepaliveOk⟩)
    obtain ⟨he', ht', hn'⟩ := sendPhase_frame s (pollPush s.bridge
      ⟨if readOk then some s.node else none, now, pushOk, keepaliveOk⟩)
    exact ⟨he.trans he', ht.trans ht', hn.trans hn'⟩
  · exact ⟨rfl, rfl, rfl⟩

theorem harmless_publish {c : TsnCfg} {kind : TelemKind} {payload frame : List Byte}
    (h : Stm32.htsnFramePack typeTelem kind.code payload = some frame) : Harmless c frame := by
  intro b n hn
  rw [bridgeRecv_publish h]
  exact hn

theorem harmless_reports {c : TsnCfg} {frame : List Byte} (h : Reports c frame) : Harmless c frame :=
  fun b n _ => bridgeRecv_reports h b n

/-- The feature word does not matter. -/
theorem ofCfg_shows {c other : TsnCfg} (h : AppNodes.ofCfg other 0 = AppNodes.ofCfg c 0)
    (features : BitVec 32) : (AppNodes.ofCfg other features).Shows c := by
  show AppNodes.ofCfg other features = AppNodes.ofCfg c features
  exact congrArg (fun n : AppNodes => { n with features }) h

/-- Only a report of another configuration takes a shown one away. -/
theorem harmless_of_not_other {c : TsnCfg} {frame : List Byte} (h : ¬ ReportsOther c frame) :
    Harmless c frame := by
  intro b n hn
  unfold bridgeRecv
  dsimp only
  split
  · rename_i u hunpack
    split
    · rename_i htype
      unfold onTelemetry
      split
      · rename_i hkind
        split
        · exact hn
        · rename_i hlong
          have hreports : Reports (TsnCfg.ofBytes u.payload) frame := by
            obtain ⟨type, kind, payload⟩ := u
            obtain rfl : type = typeTelem := htype
            obtain rfl : kind = kindTelemTsnApplied := hkind
            exact ⟨payload, hunpack, Nat.not_lt.mp hlong, rfl⟩
          have hsame : AppNodes.ofCfg (TsnCfg.ofBytes u.payload) 0 = AppNodes.ofCfg c 0 := by
            by_contra hne
            exact h ⟨_, hreports, hne⟩
          exact ofCfg_shows hsame _
      · exact hn
    · exact hn
  · exact hn

/-- The three parts of the invariant that only the bridge's side can break hold
after every action that is no change of the configuration. -/
theorem converging_bridge {s : Wire} {act : WireAct} (h : Converging json k a s)
    (hbounded : Bounded s) (hact : act.isSetConfig = false) :
    (wireStep s act).node = json ∧
    (wireStep s act).bridge.lastTsn.length ≤ frameMaxplen ∧
    Settled (cfgFrame (pushedConfig json)) k (wireStep s act) := by
  refine ⟨(node_step hact).trans h.node, (bounded_step s act hbounded).1, ?_⟩
  have hsettled := h.settled
  rw [← h.node] at hsettled ⊢
  exact settled_step h.bounded hsettled

/-- A command that arrives is the one the endpoint holds, and changes nothing. -/
theorem deliverCmd_held {s : Wire} {d : Flight} (h : Converging json k a s)
    (hact : AfterArrival json k a (.deliverCmd d)) :
    wireStep s (.deliverCmd d) = { s with cmds := s.cmds.erase d } := by
  simp only [wireStep]
  split
  · rename_i hmem
    have hframe : d.2 = cfgFrame (pushedConfig json) := by
      by_cases hold : d.1 < k
      · exact hact.cmd d rfl hold
      · exact h.settled.2 d hmem (Nat.le_of_not_lt hold)
    rw [hframe, cmdTask_held h.held]
    rfl
  · rename_i hmem
    rw [List.erase_of_not_mem hmem]

theorem converging_step {s : Wire} {act : WireAct} (h : Converging json k a s)
    (hbounded : Bounded s) (hact : AfterArrival json k a act) :
    Converging json k a (wireStep s act) := by
  obtain ⟨hnode, hlast, hsettled⟩ := converging_bridge h hbounded hact.noChange
  suffices hrest : ((wireStep s act).endpoint.valid ∧
      (wireStep s act).endpoint.payload = tsnPayload (pushedConfig json)) ∧
      (∀ t ∈ (wireStep s act).telems, a ≤ t.1 →
        Harmless (cfgOfJson (pushedConfig json)) t.2) from
    ⟨hnode, hlast, hsettled, hrest.1, hrest.2⟩
  cases act with
  | setConfig json => cases hact.noChange
  | reboot => exact absurd rfl hact.noReboot
  | poll readOk now pushOk keepaliveOk =>
      obtain ⟨he, ht, -⟩ := poll_frame s readOk now pushOk keepaliveOk
      rw [he, ht]
      exact ⟨h.held, h.harmless⟩
  | publish kind payload =>
      simp only [wireStep, sendTelem_endpoint]
      cases hf : Stm32.htsnFramePack typeTelem kind.code payload with
      | none => exact ⟨h.held, h.harmless⟩
      | some frame =>
          refine ⟨h.held, fun t ht hle => ?_⟩
          rcases List.mem_append.mp ht with hold | hnew
          · exact h.harmless t hold hle
          · rw [List.mem_singleton.mp hnew]
            exact harmless_publish hf
  | deliverCmd d =>
      rw [deliverCmd_held h hact]
      exact ⟨h.held, h.harmless⟩
  | dropCmd d => exact ⟨h.held, h.harmless⟩
  | deliverTelem d =>
      simp only [wireStep]
      split
      · exact ⟨h.held, fun t ht hle => h.harmless t (List.mem_of_mem_erase ht) hle⟩
      · exact ⟨h.held, h.harmless⟩
  | dropTelem d => exact ⟨h.held, fun t ht hle => h.harmless t (List.mem_of_mem_erase ht) hle⟩

/-- What the first action of a repaired run leaves is repaired. -/
theorem repaired_tail {c : TsnCfg} {s : Wire} {act : WireAct} {acts : List WireAct}
    (h : Repaired c a s (act :: acts)) : Repaired c a (wireStep s act) acts :=
  fun front d back heq hmem hold hother =>
    h (act :: front) d back (by rw [heq, List.cons_append]) hmem hold hother

/-- A report that is not delivered now is kept in flight for later. -/
theorem kept_tail {t : Nat × List Byte} {act : WireAct} {acts : List WireAct} (hact : act ≠ .deliverTelem t)
    (h : a ≤ t.1 ∨ .deliverTelem t ∈ act :: acts ∧ .dropTelem t ∉ act :: acts) :
    a ≤ t.1 ∨ .deliverTelem t ∈ acts ∧ .dropTelem t ∉ acts := by
  refine h.imp_right ?_
  rintro ⟨hdeliver, hdrop⟩
  exact ⟨(List.mem_cons.mp hdeliver).resolve_left hact.symm, fun hmem => hdrop (List.mem_cons_of_mem act hmem)⟩

/-- The nodes and the reports in flight, when no telemetry arrives or is lost. -/
theorem shown_of_frame {c : TsnCfg} {s s' : Wire} {act : WireAct} {acts : List WireAct}
    (h : Shown c a s (act :: acts)) (hnodes : s'.nodes = s.nodes)
    (htelems : ∀ t ∈ s.telems, t ∈ s'.telems) (hact : ∀ d, act ≠ .deliverTelem d) :
    Shown c a s' acts := by
  unfold Shown at h ⊢
  rw [hnodes]
  refine h.imp_right ?_
  rintro ⟨t, ht, hreports, hkept⟩
  exact ⟨t, htelems t ht, hreports, kept_tail (hact t) hkept⟩

/-- Only telemetry from before the arrival is lost. -/
theorem shown_dropTelem {c : TsnCfg} {s : Wire} {d : Nat × List Byte} {acts : List WireAct} (hold : d.1 < a)
    (hshown : Shown c a s (.dropTelem d :: acts)) : Shown c a (wireStep s (.dropTelem d)) acts := by
  refine hshown.imp_right ?_
  rintro ⟨t, ht, hreports, hkept⟩
  have htd : t ≠ d := by
    rintro rfl
    rcases hkept with hnew | ⟨-, hdrop⟩
    · exact absurd hold (Nat.not_lt.mpr hnew)
    · exact hdrop List.mem_cons_self
  exact ⟨t, (List.mem_erase_of_ne htd).mpr ht, hreports, kept_tail (by simp) hkept⟩

/-- A report of another configuration spoils the nodes, and a report that comes
later mends them; all other telemetry leaves them. -/
theorem shown_deliverTelem {c : TsnCfg} {s : Wire} {d : Nat × List Byte} {acts : List WireAct}
    (hharmless : ∀ t ∈ s.telems, a ≤ t.1 → Harmless c t.2) (hrepaired : Repaired c a s (.deliverTelem d :: acts))
    (hshown : Shown c a s (.deliverTelem d :: acts)) : Shown c a (wireStep s (.deliverTelem d)) acts := by
  by_cases hmem : d ∈ s.telems
  · have hstep : wireStep s (.deliverTelem d) =
        { s with
          telems := s.telems.erase d
          bridge := (bridgeRecv s.bridge s.nodes d.2).1
          nodes := (bridgeRecv s.bridge s.nodes d.2).2 } := by
      simp only [wireStep, if_pos hmem]
    rcases hshown with hshows | ⟨t, ht, hreports, hkept⟩
    · by_cases hother : d.1 < a ∧ ReportsOther c d.2
      · obtain ⟨e, he, hreports, hdeliver, hdrop⟩ := hrepaired [] d acts rfl hmem hother.1 hother.2
        exact Or.inr ⟨e, he, hreports, Or.inr ⟨hdeliver, hdrop⟩⟩
      · have hleaves : Harmless c d.2 := by
          by_cases hold : d.1 < a
          · exact harmless_of_not_other fun hreports => hother ⟨hold, hreports⟩
          · exact hharmless d hmem (Nat.le_of_not_lt hold)
        rw [hstep]
        exact Or.inl (hleaves s.bridge s.nodes hshows)
    · rw [hstep]
      by_cases htd : t = d
      · subst htd
        exact Or.inl (bridgeRecv_reports hreports s.bridge s.nodes)
      · exact Or.inr ⟨t, (List.mem_erase_of_ne htd).mpr ht, hreports,
          kept_tail (fun heq => htd (WireAct.deliverTelem.inj heq).symm) hkept⟩
  · have hstep : wireStep s (.deliverTelem d) = s := by
      simp only [wireStep, if_neg hmem]
    rw [hstep]
    refine hshown.imp_right ?_
    rintro ⟨t, ht, hreports, hkept⟩
    refine ⟨t, ht, hreports, kept_tail (fun heq => hmem ?_) hkept⟩
    rw [WireAct.deliverTelem.inj heq]
    exact ht

theorem shown_step {s : Wire} {act : WireAct} {acts : List WireAct} (h : Converging json k a s)
    (hact : AfterArrival json k a act)
    (hrepaired : Repaired (cfgOfJson (pushedConfig json)) a s (act :: acts))
    (hshown : Shown (cfgOfJson (pushedConfig json)) a s (act :: acts)) :
    Shown (cfgOfJson (pushedConfig json)) a (wireStep s act) acts := by
  cases act with
  | setConfig json => cases hact.noChange
  | reboot => exact absurd rfl hact.noReboot
  | poll readOk now pushOk keepaliveOk =>
      obtain ⟨-, ht, hn⟩ := poll_frame s readOk now pushOk keepaliveOk
      exact shown_of_frame hshown hn (fun t hmem => ht.symm ▸ hmem) (by simp)
  | publish kind payload =>
      refine shown_of_frame hshown (sendTelem_nodes s _) (fun t hmem => ?_) (by simp)
      simp only [wireStep]
      cases Stm32.htsnFramePack typeTelem kind.code payload with
      | none => exact hmem
      | some frame => exact List.mem_append_left _ hmem
  | deliverCmd d =>
      rw [deliverCmd_held h hact]
      exact shown_of_frame hshown rfl (fun t hmem => hmem) (by simp)
  | dropCmd d => exact shown_of_frame hshown rfl (fun t hmem => hmem) (by simp)
  | dropTelem d => exact shown_dropTelem (hact.drop d rfl) hshown
  | deliverTelem d => exact shown_deliverTelem h.harmless hrepaired hshown

theorem shown_run {s : Wire} {acts : List WireAct} (h : Converging json k a s)
    (hbounded : Bounded s) (hacts : ∀ act ∈ acts, AfterArrival json k a act)
    (hrepaired : Repaired (cfgOfJson (pushedConfig json)) a s acts)
    (hshown : Shown (cfgOfJson (pushedConfig json)) a s acts) :
    Shown (cfgOfJson (pushedConfig json)) a (wireRun s acts) [] := by
  induction acts generalizing s with
  | nil => exact hshown
  | cons act acts ih =>
      have hact := hacts act List.mem_cons_self
      exact ih (converging_step h hbounded hact) (bounded_step s act hbounded)
        (fun b hb => hacts b (List.mem_cons_of_mem _ hb)) (repaired_tail hrepaired)
        (shown_step h hact hrepaired hshown)

end

/-! ### The view converges -/

/-- Telemetry in flight was sent earlier. -/
def TelemsBounded (s : Wire) : Prop := ∀ t ∈ s.telems, t.1 < s.sent

theorem le_sendPhase_sent (s : Wire) (out : Bridge × Option (List Byte)) :
    s.sent ≤ (s.sendPhase out).sent := by
  rcases sendPhase_eq s out with ⟨_, heq⟩ | ⟨f, _, heq⟩
  · rw [heq]
    exact Nat.le_refl _
  · rw [heq]
    exact Nat.le_succ _

theorem telemsBounded_sendTelem {s : Wire} (h : TelemsBounded s) (f : Option (List Byte)) :
    TelemsBounded (s.sendTelem f) := by
  cases f with
  | none => exact h
  | some f =>
      intro t ht
      rcases List.mem_append.mp ht with hold | hnew
      · exact Nat.lt_succ_of_lt (h t hold)
      · rw [List.mem_singleton.mp hnew]
        exact Nat.lt_succ_self _

theorem telemsBounded_step (s : Wire) (a : WireAct) (h : TelemsBounded s) :
    TelemsBounded (wireStep s a) := by
  cases a with
  | poll readOk now pushOk keepaliveOk =>
      rw [wireStep_poll]
      split
      · intro t ht
        rw [(sendPhase_frame _ _).2.1, (sendPhase_frame _ _).2.1] at ht
        exact ((h t ht).trans_le (le_sendPhase_sent _ _)).trans_le (le_sendPhase_sent _ _)
      · exact h
  | publish kind payload => exact telemsBounded_sendTelem h _
  | deliverCmd d =>
      simp only [wireStep]
      split
      · have hsame : TelemsBounded
            { s with cmds := s.cmds.erase d, endpoint := (cmdTask s.endpoint d.2).1 } := h
        exact telemsBounded_sendTelem hsame _
      · exact h
  | deliverTelem d =>
      simp only [wireStep]
      split
      · exact fun t ht => h t (List.mem_of_mem_erase ht)
      · exact h
  | dropTelem d => exact fun t ht => h t (List.mem_of_mem_erase ht)
  | setConfig json => exact h
  | reboot => exact h
  | dropCmd d => exact h

theorem bounded_run {s : Wire} (h : Bounded s) (acts : List WireAct) : Bounded (wireRun s acts) :=
  Run.run_invariant bounded_step h acts

theorem recent_run {k : Nat} {s : Wire} {acts : List WireAct} (hbounded : Bounded s)
    (hquiet : ∀ a ∈ acts, a.isSetConfig = false)
    (h : Recent (cfgFrame (pushedConfig s.node)) k s) :
    (wireRun s acts).node = s.node ∧
      Recent (cfgFrame (pushedConfig s.node)) k (wireRun s acts) := by
  induction acts generalizing s with
  | nil => exact ⟨rfl, h⟩
  | cons a acts ih =>
      have hnode : (wireStep s a).node = s.node := node_step (hquiet a List.mem_cons_self)
      have hnext := recent_step (a := a) hbounded h
      rw [← hnode] at hnext ⊢
      exact ih (bounded_step s a hbounded) (fun b hb => hquiet b (List.mem_cons_of_mem _ hb)) hnext

namespace WireRun

variable {r : WireRun}

theorem bounded_changed (r : WireRun) : Bounded r.changed :=
  bounded_run ⟨by simp, by simp⟩ _

theorem bounded_arrival (r : WireRun) : Bounded r.arrival :=
  bounded_run r.bounded_changed _

theorem changed_node (r : WireRun) : r.changed.node = r.json := by
  simp [changed, wireRun, Run.run, wireStep]

/-- When the push arrives, the bridge has settled on its configuration. -/
theorem PushReaches.settled (h : r.PushReaches) :
    r.arrival.node = r.json ∧
      Settled (cfgFrame (pushedConfig r.json)) r.push.1 r.arrival := by
  have hold : Recent (cfgFrame (pushedConfig r.changed.node)) r.changed.sent r.changed := by
    intro d hd hk
    exact absurd (r.bounded_changed.2 d hd) (by omega)
  obtain ⟨hnode, hrecent⟩ := recent_run r.bounded_changed h.midQuiet hold
  rw [changed_node] at hnode hrecent
  exact ⟨hnode, hrecent r.push h.inFlight h.recent h.content⟩

/-- What is under way at the arrival was sent earlier. -/
theorem telemsBounded_arrival (r : WireRun) : TelemsBounded r.arrival :=
  Run.run_invariant telemsBounded_step
    (Run.run_invariant telemsBounded_step (by simp [TelemsBounded]) _) _

theorem PushReaches.deliverCmd (h : r.PushReaches) :
    wireStep r.arrival (.deliverCmd r.push) =
      { r.arrival with
        cmds := r.arrival.cmds.erase r.push
        endpoint := (tsnHandleCfg r.arrival.endpoint (tsnPayload (pushedConfig r.json))).1
        }.sendTelem (tsnHandleCfg r.arrival.endpoint (tsnPayload (pushedConfig r.json))).2 := by
  simp only [wireStep, if_pos h.inFlight, h.content, cmdTask_cfgFrame]

/-- The arrival itself: the endpoint applies the configuration, or holds it
already. -/
theorem PushReaches.converging (h : r.PushReaches) :
    Converging r.json r.push.1 r.arrival.sent (wireStep r.arrival (.deliverCmd r.push)) := by
  obtain ⟨hnode, hsettled⟩ := h.settled
  have hbounded : Bounded r.arrival := r.bounded_arrival
  have hearlier : TelemsBounded r.arrival := r.telemsBounded_arrival
  obtain ⟨report, hreport⟩ := exists_reportFrame
    (show (Endpoint.applied (tsnPayload (pushedConfig r.json))).payload = _ from rfl)
  have hstep : (wireStep r.arrival (.deliverCmd r.push)).node = r.json ∧
      (wireStep r.arrival (.deliverCmd r.push)).bridge.lastTsn.length ≤ frameMaxplen ∧
      Settled (cfgFrame (pushedConfig r.json)) r.push.1
        (wireStep r.arrival (.deliverCmd r.push)) := by
    refine ⟨(node_step rfl).trans hnode, (bounded_step _ _ hbounded).1, ?_⟩
    rw [← hnode] at hsettled ⊢
    exact settled_step hbounded.1 hsettled
  obtain ⟨hlo, hhi⟩ := tsnPayload_length (pushedConfig r.json)
  refine ⟨hstep.1, hstep.2.1, hstep.2.2, ?_, ?_⟩
  all_goals rw [h.deliverCmd, tsnHandleCfg_eq hlo hhi]
  · split
    · rename_i hheld
      exact hheld
    · rw [sendTelem_endpoint]
      exact ⟨rfl, rfl⟩
  · intro t ht hle
    split at ht
    · exact absurd (hearlier t ht) (by omega)
    · rw [hreport] at ht
      rcases List.mem_append.mp ht with hold | hnew
      · exact absurd (hearlier t hold) (by omega)
      · rw [List.mem_singleton.mp hnew]
        exact harmless_reports (reports_pack rfl hreport)

/-- The endpoint reports what it applies; what it held already, the nodes
show. -/
theorem PushReaches.shown (h : r.PushReaches) (hnoticed : r.Noticed) :
    Shown (cfgOfJson (pushedConfig r.json)) r.arrival.sent
      (wireStep r.arrival (.deliverCmd r.push)) r.post := by
  obtain ⟨hlo, hhi⟩ := tsnPayload_length (pushedConfig r.json)
  obtain ⟨report, hreport⟩ := exists_reportFrame
    (show (Endpoint.applied (tsnPayload (pushedConfig r.json))).payload = _ from rfl)
  rw [h.deliverCmd, tsnHandleCfg_eq hlo hhi]
  split
  · rename_i hheld
    exact Or.inl (hnoticed.resolve_left fun hnot => hnot hheld)
  · rw [hreport]
    exact Or.inr ⟨(r.arrival.sent, report), List.mem_append_right _ (by simp), reports_pack rfl hreport,
      Or.inl (Nat.le_refl _)⟩

theorem AfterArrival.of_post (h : r.PushReaches) (horder : r.NotOvertaking) :
    ∀ act ∈ r.post, AfterArrival r.json r.push.1 r.arrival.sent act := by
  intro act hact
  refine ⟨(h.postQuiet act hact).1, (h.postQuiet act hact).2, ?_, ?_⟩
  · rintro d rfl hold
    rw [horder.cmds d hact hold, h.content]
  · rintro d rfl
    exact Nat.lt_of_not_le fun hle => h.notDropped d hle hact

end WireRun

/-- In every run: if a push of the last configuration reaches the endpoint
after the last reboot, every datagram the endpoint sends from then on is
delivered, the push was not one the endpoint stays quiet on before the nodes
showed it, and no older command or report of another configuration comes late,
then the nodes show that configuration. -/
theorem nodes_show_config (r : WireRun) (hreaches : r.PushReaches) (hnoticed : r.Noticed)
    (horder : r.NotOvertaking) : r.final.nodes.Shows (cfgOfJson (pushedConfig r.json)) := by
  have hfinal := shown_run hreaches.converging (bounded_step _ _ r.bounded_arrival)
    (WireRun.AfterArrival.of_post hreaches horder) horder.telems (hreaches.shown hnoticed)
  rcases hfinal with hshows | ⟨t, ht, -, hnew | ⟨hdeliver, -⟩⟩
  · exact hshows
  · exact absurd (hreaches.delivered t ht) (Nat.not_lt.mpr hnew)
  · cases hdeliver

/-- The JSON text of a configuration with a one-digit VLAN. -/
def vlanText (digit : Char) : CStr := "\x7b\"vlan_id\":".toList ++ [digit, '\x7d']

/-- The endpoint's report of a configuration. -/
def reportFrame (json : CStr) : List Byte :=
  (Stm32.htsnFramePack typeTelem kindTelemTsnApplied
    (reportPayload (Endpoint.applied (tsnPayload json)))).getD []

/-- The endpoint greets the bridge. -/
def greeted : List WireAct :=
  [.publish .hello [], .deliverTelem (0, [0xA5, 1, 1, 0, 0, 0xBB, 0x59])]

/-- The first push reaches a fresh endpoint and its report is delivered. -/
def firstPush : WireRun :=
  { before := greeted
    json := vlanText '5'
    mid := [.poll true 100 true true]
    push := (1, cfgFrame (vlanText '5'))
    post := [.deliverTelem (3, reportFrame (vlanText '5'))] }

theorem firstPush_shows : firstPush.final.nodes.Shows (cfgOfJson (pushedConfig (vlanText '5'))) := by
  refine nodes_show_config firstPush ⟨by decide, by decide +kernel, by decide +kernel,
    by decide +kernel, by decide +kernel, ?_, by decide +kernel⟩ (Or.inl ?_) ⟨?_, ?_⟩
  · intro d _ hmem
    simp [firstPush] at hmem
  · decide +kernel
  · intro d hmem
    simp [firstPush] at hmem
  · intro front d back hpost _ hold _
    have hmem : WireAct.deliverTelem d ∈ firstPush.post := by
      rw [hpost]
      exact List.mem_append_right front List.mem_cons_self
    simp only [firstPush, List.mem_singleton, WireAct.deliverTelem.injEq] at hmem
    subst hmem
    exact absurd hold (by decide +kernel)

/-- The report of the first push is lost; the keepalive arrives and the
endpoint stays quiet. -/
def lostReport : WireRun :=
  { before := greeted
    json := vlanText '5'
    mid := [.poll true 100 true true, .deliverCmd (1, cfgFrame (vlanText '5')),
      .dropTelem (3, reportFrame (vlanText '5'))]
    push := (2, cfgFrame (vlanText '5'))
    post := [] }

/-- A push of the configuration before is delivered last. -/
def overtakenPush : WireRun :=
  { before := greeted ++ [.setConfig (vlanText '5'), .poll true 100 true true]
    json := vlanText '6'
    mid := [.poll true 105 true true]
    push := (3, cfgFrame (vlanText '6'))
    post := [.deliverTelem (4, reportFrame (vlanText '6')),
      .deliverCmd (1, cfgFrame (vlanText '5')), .deliverTelem (5, reportFrame (vlanText '5'))] }

/-- A report of the configuration before is delivered last. -/
def overtakenReport : WireRun :=
  { before := greeted ++ [.setConfig (vlanText '5'), .poll true 100 true true,
      .deliverCmd (1, cfgFrame (vlanText '5'))]
    json := vlanText '6'
    mid := [.poll true 105 true true]
    push := (4, cfgFrame (vlanText '6'))
    post := [.deliverTelem (5, reportFrame (vlanText '6')),
      .deliverTelem (3, reportFrame (vlanText '5'))] }

theorem pushReaches_of_post {r : WireRun} (hmid : ∀ a ∈ r.mid, a.isSetConfig = false)
    (hpost : ∀ a ∈ r.post, (∃ d, a = .deliverCmd d) ∨ ∃ d, a = .deliverTelem d)
    (hflight : r.push ∈ r.arrival.cmds) (hcontent : r.push.2 = cfgFrame (pushedConfig r.json))
    (hrecent : r.changed.sent ≤ r.push.1)
    (hdelivered : ∀ d ∈ r.final.telems, d.1 < r.arrival.sent) : r.PushReaches := by
  refine ⟨hmid, fun a ha => ?_, hflight, hcontent, hrecent, fun d _ hd => ?_, hdelivered⟩
  · rcases hpost a ha with ⟨d, rfl⟩ | ⟨d, rfl⟩
    · exact ⟨rfl, by simp⟩
    · exact ⟨rfl, by simp⟩
  · rcases hpost _ hd with ⟨e, he⟩ | ⟨e, he⟩
    · cases he
    · cases he

/-- Each of the three runs brings a push of the last configuration to the
endpoint and delivers all it sends from then on, and the nodes do not show
it. -/
theorem reached_push_not_shown :
    (lostReport.PushReaches ∧
      ¬ lostReport.final.nodes.Shows (cfgOfJson (pushedConfig lostReport.json))) ∧
    (overtakenPush.PushReaches ∧ overtakenPush.Noticed ∧
      ¬ overtakenPush.final.nodes.Shows (cfgOfJson (pushedConfig overtakenPush.json))) ∧
    (overtakenReport.PushReaches ∧ overtakenReport.Noticed ∧
      ¬ overtakenReport.final.nodes.Shows (cfgOfJson (pushedConfig overtakenReport.json))) := by
  have hpush : ∀ a ∈ overtakenPush.post, (∃ d, a = .deliverCmd d) ∨ ∃ d, a = .deliverTelem d := by
    simp [overtakenPush]
  have hreport : ∀ a ∈ overtakenReport.post,
      (∃ d, a = .deliverCmd d) ∨ ∃ d, a = .deliverTelem d := by
    simp [overtakenReport]
  unfold AppNodes.Shows WireRun.Noticed
  refine ⟨⟨pushReaches_of_post ?_ (by simp [lostReport]) ?_ ?_ ?_ ?_, ?_⟩,
    ⟨pushReaches_of_post ?_ hpush ?_ ?_ ?_ ?_, Or.inl ?_, ?_⟩,
    ⟨pushReaches_of_post ?_ hreport ?_ ?_ ?_ ?_, Or.inl ?_, ?_⟩⟩
  all_goals decide +kernel

end Htsn
