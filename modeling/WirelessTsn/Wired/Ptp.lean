import WirelessTsn.Lib.Run
import WirelessTsn.Wired.Frame

/-!
The endpoint's PTP slave (`stm32-tsn/tsn/ptp.c`): the packet handler, the
clock steering and the task loop that polls the event and the general socket.
What the hardware clock reads and what the sockets return are inputs of a run;
every call of `steer` is recorded with the timestamps it was computed from.
-/

namespace Htsn

abbrev U64 := BitVec 64

structure SockAddr where
  addr : BitVec 32
  port : BitVec 16
  deriving DecidableEq, Repr

/-- A datagram as `recvfrom` leaves it: the 128-byte buffer, of which the first
`len` bytes are new, and its source. -/
structure Datagram where
  buf : List Byte
  len : Nat
  src : SockAddr
  deriving DecidableEq, Repr

/-- Which of the two sockets could be opened. -/
structure PtpSocks where
  ev : Bool
  ge : Bool
  deriving DecidableEq, Repr

/-- One call of `steer`, by the timestamps its argument was computed from. -/
structure Steer where
  t1 : U64
  s2 : U64
  s3 : U64
  t4 : U64
  deriving DecidableEq, Repr

structure PtpState where
  socks : PtpSocks
  cNs : U64 := 0
  locked : Bool := false
  lastOffsetNs : U64 := 0
  haveS2 : Bool := false
  s2 : U64 := 0
  haveT1 : Bool := false
  t1 : U64 := 0
  s3 : U64 := 0
  domain : Byte := 0
  gm : Option SockAddr := none
  steers : List Steer := []
  requests : List (SockAddr × List Byte) := []
  deriving DecidableEq, Repr

/-- The state in which the task enters its loop. -/
def PtpState.init (socks : PtpSocks) : PtpState := { socks }

/-! ### Fields of a packet -/

inductive PtpMsg where
  | sync
  | followUp
  | announce
  | delayResp
  deriving DecidableEq, Repr

def Datagram.at (d : Datagram) (i : Nat) : Byte := d.buf.getD i 0

/-- `ptp_hdr_time_ns`. -/
def ptpHdrTimeNs (d : Datagram) : U64 :=
  let sec : U64 := ((d.at 12).setWidth 64 <<< 8 ||| (d.at 13).setWidth 64) <<< 32 |||
    ((d.at 14).setWidth 64 <<< 24 ||| (d.at 15).setWidth 64 <<< 16 |||
      (d.at 16).setWidth 64 <<< 8 ||| (d.at 17).setWidth 64)
  let ns : U64 := (d.at 18).setWidth 64 <<< 24 ||| (d.at 19).setWidth 64 <<< 16 |||
    (d.at 20).setWidth 64 <<< 8 ||| (d.at 21).setWidth 64
  sec * 1000000000 + ns

/-- `ptp_ts64`. -/
def ptpTs64 (d : Datagram) (off : Nat) : U64 :=
  (List.range 8).foldl (fun v i => (v <<< 8) ||| (d.at (off + i)).setWidth 64) 0

/-- The message `handle_packet` switches on, if it gets that far. -/
def Datagram.msg (d : Datagram) : Option PtpMsg :=
  if d.len < 32 then none
  else if d.at 2 ≠ 2 then none
  else if d.at 1 = 0x0 then some .sync
  else if d.at 1 = 0x8 then some .followUp
  else if d.at 1 = 0xB then some .announce
  else if d.at 1 = 0x9 then some .delayResp
  else none

/-! ### The handler and the loop -/

/-- `steer`: a step above 50 ms, else a slew of a fifth. -/
def steer (s : PtpState) (cNew : U64) : PtpState :=
  let delta := cNew - s.cNs
  let moved :=
    if delta.toInt > 50000000 ∨ delta.toInt < -50000000 then
      { s with cNs := cNew, lastOffsetNs := delta }
    else if delta ≠ 0 then
      { s with cNs := s.cNs + delta.sdiv 5, lastOffsetNs := delta.sdiv 5 }
    else s
  { moved with locked := true }

/-- `handle_packet`; `raw` is what `raw_ns` reads. -/
def handlePacket (s : PtpState) (d : Datagram) (raw : U64) : PtpState :=
  match d.msg with
  | none => s
  | some .sync =>
      let s := { s with s2 := raw, haveS2 := true }
      let o := ptpTs64 d 40
      if o > 0 then { s with t1 := o, haveT1 := true } else s
  | some .followUp => { s with t1 := ptpTs64 d 40, haveT1 := true }
  | some .announce => { s with domain := d.at 10 }
  | some .delayResp =>
      let t4 := ptpHdrTimeNs d
      let s :=
        if s.haveT1 && s.haveS2 then
          { steer s (((t4 + s.t1) - (s.s2 + s.s3)) / 2) with
            steers := s.steers ++ [⟨s.t1, s.s2, s.s3, t4⟩] }
        else s
      { s with haveT1 := false, haveS2 := false }

/-- The bytes that `ptp_write_hdr_time` writes. -/
def hdrTimeBytes (ns : U64) : List Byte :=
  let sec := ns / 1000000000
  let fns : BitVec 32 := (ns % 1000000000).setWidth 32
  [(sec >>> 40).setWidth 8, (sec >>> 32).setWidth 8, (sec >>> 24).setWidth 8, (sec >>> 16).setWidth 8,
    (sec >>> 8).setWidth 8, sec.setWidth 8, (fns >>> 24).setWidth 8, (fns >>> 16).setWidth 8,
    (fns >>> 8).setWidth 8, fns.setWidth 8]

/-- `ptp_write_hdr_time`: bytes 12 to 21 of the message. -/
def ptpWriteHdrTime (b : List Byte) (ns : U64) : List Byte := b.take 12 ++ (hdrTimeBytes ns ++ b.drop 22)

/-- The DELAY_REQ that `send_delay_req` builds at the PTP time `now`. -/
def delayReqBytes (domain : Byte) (now : U64) : List Byte :=
  ptpWriteHdrTime ([0, 1, 2, 0, 0, 0, 0, 44, 0, 0, domain] ++ List.replicate 33 0) now

/-- The three places of the loop body that touch the exchange, in its order:
the event socket, the request, the general socket. The clock readings are
those of `raw_ns` at that place. -/
inductive PtpAction where
  | eventRecv (d : Option Datagram) (raw : U64)
  | request (now raw : U64)
  | generalRecv (d : Option Datagram) (raw : U64)
  deriving DecidableEq, Repr

/-- The condition under which the loop sends a DELAY_REQ. -/
def PtpState.requests? (s : PtpState) : Bool :=
  s.socks.ev && s.haveT1 && s.haveS2 && s.gm.isSome

def ptpStep (s : PtpState) : PtpAction → PtpState
  | .eventRecv (some d) raw =>
      if s.socks.ev && decide (0 < d.len) then
        handlePacket { s with gm := some (s.gm.getD d.src) } d raw
      else s
  | .eventRecv none _ => s
  | .request now raw =>
      if s.requests? then
        { s with
          s3 := raw
          haveT1 := false
          requests := s.requests ++
            s.gm.toList.map (fun gm => (gm, delayReqBytes s.domain (now + s.cNs))) }
      else s
  | .generalRecv (some d) raw =>
      if s.socks.ge && decide (0 < d.len) then handlePacket s d raw else s
  | .generalRecv none _ => s

/-- What one iteration of the loop receives and reads. -/
structure PtpTick where
  event : Option Datagram
  eventRaw : U64
  now : U64
  sendRaw : U64
  general : Option Datagram
  generalRaw : U64

def PtpTick.actions (t : PtpTick) : List PtpAction :=
  [.eventRecv t.event t.eventRaw, .request t.now t.sendRaw, .generalRecv t.general t.generalRaw]

/-- `ptp_task_fn`: the actions of its iterations in order. -/
def ptpTask (ticks : List PtpTick) : List PtpAction := ticks.flatMap PtpTick.actions

def ptpRun (s : PtpState) (acts : List PtpAction) : PtpState := Run.run ptpStep s acts

/-! ### Exchanges -/

/-- The datagram an action hands to `handle_packet`. -/
def PtpAction.handled (k : PtpSocks) : PtpAction → Option Datagram
  | .eventRecv (some d) _ => if k.ev && decide (0 < d.len) then some d else none
  | .generalRecv (some d) _ => if k.ge && decide (0 < d.len) then some d else none
  | _ => none

def PtpAction.msg (k : PtpSocks) (a : PtpAction) : Option PtpMsg :=
  (a.handled k).bind Datagram.msg

/-- The clock reading of an action. -/
def PtpAction.raw : PtpAction → U64
  | .eventRecv _ raw | .request _ raw | .generalRecv _ raw => raw

/-- The origin timestamp an action brings: a FOLLOW_UP's, or a one-step
SYNC's. -/
def PtpAction.origin (k : PtpSocks) (a : PtpAction) : Option U64 :=
  match a.msg k, a.handled k with
  | some .followUp, some d => some (ptpTs64 d 40)
  | some .sync, some d => if ptpTs64 d 40 > 0 then some (ptpTs64 d 40) else none
  | _, _ => none

/-- A stretch of a run: a SYNC, what follows up to the DELAY_REQ, and what
follows that up to the DELAY_RESP. -/
structure PtpExchange where
  sync : PtpAction
  between : List PtpAction
  request : PtpAction
  quiet : List PtpAction
  resp : PtpAction

def PtpExchange.actions (x : PtpExchange) : List PtpAction :=
  x.sync :: x.between ++ x.request :: x.quiet ++ [x.resp]

/-- The stretch is an exchange from `s`: the last SYNC before the request and
its origin timestamp are processed, the request is sent, and the DELAY_RESP is
the first message after it. -/
structure PtpExchange.Occurs (s : PtpState) (x : PtpExchange) : Prop where
  sync : x.sync.msg s.socks = some .sync
  between : ∀ a ∈ x.between, a.msg s.socks ≠ some .sync
  origin : (x.sync :: x.between).filterMap (PtpAction.origin s.socks) ≠ []
  request : ∃ now raw, x.request = .request now raw
  sent : (ptpRun s (x.sync :: x.between)).requests? = true
  quiet : ∀ a ∈ x.quiet, a.msg s.socks = none
  resp : x.resp.msg s.socks = some .delayResp

/-- The exchange steers the clock once, with its own four timestamps, and
leaves it locked. -/
def PtpExchange.Steers (s : PtpState) (x : PtpExchange) : Prop :=
  ∃ t1 d, ((x.sync :: x.between).filterMap (PtpAction.origin s.socks)).getLast? = some t1 ∧
    x.resp.handled s.socks = some d ∧
    (ptpRun s x.actions).steers =
      s.steers ++ [⟨t1, x.sync.raw, x.request.raw, ptpHdrTimeNs d⟩] ∧
    (ptpRun s x.actions).locked = true

/-! ### What one action does to the exchange's flags -/

theorem steer_socks (s : PtpState) (cNew : U64) : (steer s cNew).socks = s.socks := by
  simp only [steer]
  by_cases hstep : (cNew - s.cNs).toInt > 50000000 ∨ (cNew - s.cNs).toInt < -50000000
  · rw [if_pos hstep]
  · rw [if_neg hstep]
    by_cases hslew : cNew - s.cNs ≠ 0
    · rw [if_pos hslew]
    · rw [if_neg hslew]

@[simp] theorem handlePacket_socks (s : PtpState) (d : Datagram) (raw : U64) :
    (handlePacket s d raw).socks = s.socks := by
  unfold handlePacket
  cases d.msg with
  | none => rfl
  | some m =>
      cases m with
      | sync =>
          dsimp only
          split <;> rfl
      | followUp => rfl
      | announce => rfl
      | delayResp =>
          by_cases hboth : (s.haveT1 && s.haveS2) = true
          · simp only [hboth, if_true, steer_socks]
          · simp only [hboth]
            rfl

@[simp] theorem ptpStep_socks (s : PtpState) (a : PtpAction) : (ptpStep s a).socks = s.socks := by
  unfold ptpStep
  split
  · split
    · rw [handlePacket_socks]
    · rfl
  · rfl
  · split <;> rfl
  · split
    · rw [handlePacket_socks]
    · rfl
  · rfl

/-- A handled packet that is no SYNC and leaves `g_have_s2` set was no
DELAY_RESP, so nothing was steered. -/
theorem handlePacket_haveS2 {s : PtpState} {d : Datagram} {raw : U64}
    (hmsg : d.msg ≠ some .sync) (hs2 : (handlePacket s d raw).haveS2 = true) :
    s.haveS2 = true ∧ (handlePacket s d raw).steers = s.steers := by
  unfold handlePacket at hs2 ⊢
  cases hd : d.msg with
  | none =>
      rw [hd] at hs2
      exact ⟨hs2, rfl⟩
  | some m =>
      rw [hd] at hs2
      cases m with
      | sync => exact absurd hd hmsg
      | followUp => exact ⟨hs2, rfl⟩
      | announce => exact ⟨hs2, rfl⟩
      | delayResp => cases hs2

/-- Without a pending origin timestamp a DELAY_RESP only clears the flags. -/
theorem handlePacket_delayResp {s : PtpState} {d : Datagram} {raw : U64}
    (hmsg : d.msg = some .delayResp) (ht1 : s.haveT1 = false) :
    (handlePacket s d raw).steers = s.steers := by
  unfold handlePacket
  rw [hmsg]
  simp [ht1]

theorem handlePacket_sync_steers {s : PtpState} {d : Datagram} {raw : U64}
    (hmsg : d.msg = some .sync) : (handlePacket s d raw).steers = s.steers := by
  unfold handlePacket
  rw [hmsg]
  dsimp only
  split <;> rfl

theorem handlePacket_ignored {s : PtpState} {d : Datagram} {raw : U64} (hmsg : d.msg = none) :
    handlePacket s d raw = s := by
  unfold handlePacket
  rw [hmsg]

/-- Every action is the request, or hands a datagram to the handler from a
state that differs at most in the grandmaster, or does nothing. -/
theorem ptpStep_cases (s : PtpState) (a : PtpAction) :
    (∃ now raw, a = .request now raw) ∨
    (∃ d raw gm, a.handled s.socks = some d ∧ ptpStep s a = handlePacket { s with gm } d raw) ∨
    (a.handled s.socks = none ∧ ptpStep s a = s) := by
  cases a with
  | request now raw => exact Or.inl ⟨now, raw, rfl⟩
  | eventRecv d raw =>
      cases d with
      | none => exact Or.inr (Or.inr ⟨rfl, rfl⟩)
      | some d =>
          by_cases hopen : (s.socks.ev && decide (0 < d.len)) = true
          · refine Or.inr (Or.inl ⟨d, raw, some (s.gm.getD d.src), ?_, ?_⟩)
            · rw [PtpAction.handled, if_pos hopen]
            · rw [ptpStep, if_pos hopen]
          · refine Or.inr (Or.inr ⟨?_, ?_⟩)
            · rw [PtpAction.handled, if_neg hopen]
            · rw [ptpStep, if_neg hopen]
  | generalRecv d raw =>
      cases d with
      | none => exact Or.inr (Or.inr ⟨rfl, rfl⟩)
      | some d =>
          by_cases hopen : (s.socks.ge && decide (0 < d.len)) = true
          · refine Or.inr (Or.inl ⟨d, raw, s.gm, ?_, ?_⟩)
            · rw [PtpAction.handled, if_pos hopen]
            · rw [ptpStep, if_pos hopen]
          · refine Or.inr (Or.inr ⟨?_, ?_⟩)
            · rw [PtpAction.handled, if_neg hopen]
            · rw [ptpStep, if_neg hopen]

theorem msg_of_handled {k : PtpSocks} {a : PtpAction} {d : Datagram}
    (h : a.handled k = some d) : a.msg k = d.msg := by
  rw [PtpAction.msg, h, Option.bind_some]

/-- Between a SYNC and its request: what leaves `g_have_s2` set steered
nothing. -/
theorem ptpStep_haveS2 {s : PtpState} {a : PtpAction} (hmsg : a.msg s.socks ≠ some .sync)
    (hs2 : (ptpStep s a).haveS2 = true) :
    s.haveS2 = true ∧ (ptpStep s a).steers = s.steers := by
  rcases ptpStep_cases s a with ⟨now, raw, rfl⟩ | ⟨d, raw, gm, hd, hstep⟩ | ⟨_, hstep⟩
  · rw [ptpStep] at hs2 ⊢
    split at hs2
    · rename_i hsent
      rw [if_pos hsent]
      exact ⟨hs2, rfl⟩
    · rename_i hnot
      rw [if_neg hnot]
      exact ⟨hs2, rfl⟩
  · rw [hstep] at hs2 ⊢
    rw [msg_of_handled hd] at hmsg
    exact handlePacket_haveS2 hmsg hs2
  · rw [hstep] at hs2 ⊢
    exact ⟨hs2, rfl⟩

/-- After the request: an action that handles no message keeps the origin
timestamp consumed and steers nothing. -/
theorem ptpStep_quiet {s : PtpState} {a : PtpAction} (hmsg : a.msg s.socks = none)
    (ht1 : s.haveT1 = false) :
    (ptpStep s a).haveT1 = false ∧ (ptpStep s a).steers = s.steers := by
  rcases ptpStep_cases s a with ⟨now, raw, rfl⟩ | ⟨d, raw, gm, hd, hstep⟩ | ⟨_, hstep⟩
  · rw [ptpStep]
    split
    · exact ⟨rfl, rfl⟩
    · exact ⟨ht1, rfl⟩
  · rw [msg_of_handled hd] at hmsg
    rw [hstep, handlePacket_ignored hmsg]
    exact ⟨ht1, rfl⟩
  · rw [hstep]
    exact ⟨ht1, rfl⟩

/-! ### Over a run -/

@[simp] theorem ptpRun_nil (s : PtpState) : ptpRun s [] = s := rfl

@[simp] theorem ptpRun_cons (s : PtpState) (a : PtpAction) (as : List PtpAction) :
    ptpRun s (a :: as) = ptpRun (ptpStep s a) as := rfl

theorem ptpRun_append (s : PtpState) (as bs : List PtpAction) :
    ptpRun s (as ++ bs) = ptpRun (ptpRun s as) bs := by
  simp [ptpRun, Run.run]

@[simp] theorem ptpRun_socks (s : PtpState) (as : List PtpAction) :
    (ptpRun s as).socks = s.socks := by
  induction as generalizing s with
  | nil => rfl
  | cons a as ih => rw [ptpRun_cons, ih, ptpStep_socks]

theorem ptpRun_haveS2 {s : PtpState} {as : List PtpAction}
    (hmsg : ∀ a ∈ as, a.msg s.socks ≠ some .sync) (hs2 : (ptpRun s as).haveS2 = true) :
    s.haveS2 = true ∧ (ptpRun s as).steers = s.steers := by
  induction as generalizing s with
  | nil => exact ⟨hs2, rfl⟩
  | cons a as ih =>
      rw [ptpRun_cons] at hs2 ⊢
      have hrest := ih (fun b hb => by
        rw [ptpStep_socks]
        exact hmsg b (List.mem_cons_of_mem _ hb)) hs2
      have hfirst := ptpStep_haveS2 (hmsg a List.mem_cons_self) hrest.1
      exact ⟨hfirst.1, hrest.2.trans hfirst.2⟩

theorem ptpRun_quiet {s : PtpState} {as : List PtpAction}
    (hmsg : ∀ a ∈ as, a.msg s.socks = none) (ht1 : s.haveT1 = false) :
    (ptpRun s as).haveT1 = false ∧ (ptpRun s as).steers = s.steers := by
  induction as generalizing s with
  | nil => exact ⟨ht1, rfl⟩
  | cons a as ih =>
      have hfirst := ptpStep_quiet (hmsg a List.mem_cons_self) ht1
      have hrest := ih (fun b hb => by
        rw [ptpStep_socks]
        exact hmsg b (List.mem_cons_of_mem _ hb)) hfirst.1
      exact ⟨hrest.1, hrest.2.trans hfirst.2⟩

theorem ptpStep_sync_steers {s : PtpState} {a : PtpAction} (h : a.msg s.socks = some .sync) :
    (ptpStep s a).steers = s.steers := by
  rcases ptpStep_cases s a with ⟨now, raw, rfl⟩ | ⟨d, raw, gm, hd, hstep⟩ | ⟨_, hstep⟩
  · cases h
  · rw [msg_of_handled hd] at h
    rw [hstep, handlePacket_sync_steers h]
  · rw [hstep]

theorem ptpStep_resp_steers {s : PtpState} {a : PtpAction} (h : a.msg s.socks = some .delayResp)
    (ht1 : s.haveT1 = false) : (ptpStep s a).steers = s.steers := by
  rcases ptpStep_cases s a with ⟨now, raw, rfl⟩ | ⟨d, raw, gm, hd, hstep⟩ | ⟨_, hstep⟩
  · cases h
  · rw [msg_of_handled hd] at h
    rw [hstep]
    exact handlePacket_delayResp h ht1
  · rw [hstep]

/-- An exchange steers nothing: the request itself takes back the flag that
the DELAY_RESP is checked against. -/
theorem exchange_steers_eq {s : PtpState} {x : PtpExchange} (h : x.Occurs s) :
    (ptpRun s x.actions).steers = s.steers := by
  obtain ⟨now, raw, hrequest⟩ := h.request
  have hsent := h.sent
  rw [PtpState.requests?, Bool.and_eq_true, Bool.and_eq_true] at hsent
  have hbefore : (ptpRun s (x.sync :: x.between)).steers = s.steers := by
    rw [ptpRun_cons] at hsent ⊢
    have hrest := ptpRun_haveS2 (fun a ha => by
      rw [ptpStep_socks]
      exact h.between a ha) hsent.1.2
    rw [hrest.2, ptpStep_sync_steers h.sync]
  have hafter : (ptpStep (ptpRun s (x.sync :: x.between)) x.request).haveT1 = false ∧
      (ptpStep (ptpRun s (x.sync :: x.between)) x.request).steers = s.steers := by
    rw [hrequest, ptpStep, if_pos h.sent]
    exact ⟨rfl, hbefore⟩
  have hquiet := ptpRun_quiet (fun a ha => by
    rw [ptpStep_socks, ptpRun_socks]
    exact h.quiet a ha) hafter.1
  rw [PtpExchange.actions, ptpRun_append, ptpRun_append, ptpRun_cons, ptpRun_cons, ptpRun_nil]
  rw [ptpStep_resp_steers (by
    rw [ptpRun_socks, ptpStep_socks, ptpRun_socks]
    exact h.resp) hquiet.1, hquiet.2, hafter.2]

/-- In no run of the task does an exchange steer the clock. -/
theorem ptp_exchange_never_steers (socks : PtpSocks) (ticks : List PtpTick)
    (before after : List PtpAction) (x : PtpExchange)
    (_hrun : ptpTask ticks = before ++ x.actions ++ after)
    (hoccurs : x.Occurs (ptpRun (PtpState.init socks) before)) :
    ¬ x.Steers (ptpRun (PtpState.init socks) before) := by
  rintro ⟨t1, d, _, _, hsteers, _⟩
  rw [exchange_steers_eq hoccurs] at hsteers
  simp at hsteers

/-- A PTP packet with a type, a header time in seconds and a body timestamp,
each below 256. -/
def ptpPacket (type sec ts : Byte) : Datagram :=
  { buf := [0, type, 2] ++ List.replicate 14 0 ++ [sec] ++ List.replicate 29 0 ++ [ts] ++
      List.replicate 80 0
    len := 64
    src := ⟨0x0A000001, 319⟩ }

/-- A two-step SYNC, its FOLLOW_UP, the request and the DELAY_RESP, with
nothing else on either socket. -/
def plainExchange : PtpExchange :=
  { sync := .eventRecv (some (ptpPacket 0x0 0 0)) 100
    between := [.request 110 110, .generalRecv (some (ptpPacket 0x8 0 90)) 120,
      .eventRecv none 200]
    request := .request 210 220
    quiet := []
    resp := .generalRecv (some (ptpPacket 0x9 3 0)) 300 }

def plainTicks : List PtpTick :=
  [{ event := some (ptpPacket 0x0 0 0), eventRaw := 100, now := 110, sendRaw := 110,
     general := some (ptpPacket 0x8 0 90), generalRaw := 120 },
   { event := none, eventRaw := 200, now := 210, sendRaw := 220,
     general := some (ptpPacket 0x9 3 0), generalRaw := 300 }]

theorem plainExchange_occurs : plainExchange.Occurs (PtpState.init ⟨true, true⟩) where
  sync := by decide
  between := by decide
  origin := by decide
  request := ⟨210, 220, rfl⟩
  sent := by decide
  quiet := by decide
  resp := by decide

theorem plain_exchange_not_steered :
    ptpTask plainTicks = [] ++ plainExchange.actions ++ [] ∧
    plainExchange.Occurs (ptpRun (PtpState.init ⟨true, true⟩) []) ∧
    ¬ plainExchange.Steers (ptpRun (PtpState.init ⟨true, true⟩) []) :=
  ⟨rfl, plainExchange_occurs,
    ptp_exchange_never_steers _ plainTicks [] [] plainExchange rfl plainExchange_occurs⟩

/-- The plain exchange sends its one request and ends with the clock unlocked
and never steered. -/
theorem plain_exchange_leaves_unlocked :
    ptpTask plainTicks = plainExchange.actions ∧
    plainExchange.Occurs (PtpState.init ⟨true, true⟩) ∧
    (ptpRun (PtpState.init ⟨true, true⟩) plainExchange.actions).requests.length = 1 ∧
    (ptpRun (PtpState.init ⟨true, true⟩) plainExchange.actions).locked = false ∧
    ¬ plainExchange.Steers (PtpState.init ⟨true, true⟩) := by
  have hlocked : (ptpRun (PtpState.init ⟨true, true⟩) plainExchange.actions).locked = false := by
    decide
  refine ⟨rfl, plainExchange_occurs, by decide, hlocked, ?_⟩
  rintro ⟨_, _, _, _, _, htrue⟩
  rw [hlocked] at htrue
  cases htrue

end Htsn
