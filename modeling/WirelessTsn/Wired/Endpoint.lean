import WirelessTsn.Wired.Config

/-!
The configuration half of the STM32 endpoint (`stm32-tsn/tsn/eth_proto.c`):
the command task, the stored TSN configuration and the report of what was
applied.
-/

namespace Htsn

/-- The endpoint's TSN state. `payload` is the used part of
`g_tsn_payload`. -/
structure Endpoint where
  payload : List Byte := []
  valid : Bool := false
  vlanId : BitVec 16 := 0
  pcp : Byte := 0
  preempt : Byte := 0
  deriving DecidableEq, Repr

/-- `tsn_features`. -/
def tsnFeatures (e : Endpoint) : BitVec 32 :=
  let f : BitVec 32 := 1 <<< 5
  let f := if e.vlanId > 0 then f ||| (1 ||| 1 <<< 1) else f
  if e.preempt ≠ 0 ∧ e.vlanId > 0 then f ||| 1 <<< 2 else f

/-- The payload of `tsn_report_applied`. -/
def reportPayload (e : Endpoint) : List Byte :=
  let f := tsnFeatures e
  e.payload ++ [f.setWidth 8, (f >>> 8).setWidth 8, (f >>> 16).setWidth 8, (f >>> 24).setWidth 8]

/-- `tsn_report_applied`, with the telemetry frame it sends. -/
def tsnReportApplied (e : Endpoint) : Endpoint × Option (List Byte) :=
  let e :=
    if e.payload.length + 4 > frameMaxplen then
      { e with payload := e.payload.take (frameMaxplen - 4) }
    else e
  (e, Stm32.htsnFramePack typeTelem kindTelemTsnApplied (reportPayload e))

/-- `tsn_handle_cfg`. -/
def tsnHandleCfg (e : Endpoint) (p : List Byte) : Endpoint × Option (List Byte) :=
  if p.length < cfgSize ∨ p.length > frameMaxplen - 4 then (e, none)
  else if e.valid ∧ e.payload = p then (e, none)
  else
    let cfg := TsnCfg.ofBytes p
    tsnReportApplied
      { payload := p, valid := true, vlanId := cfg.vlanId, pcp := cfg.priority,
        preempt := cfg.preemption }

/-- One datagram in `cmd_task_fn`; the commands for actuators touch nothing
here. -/
def cmdTask (e : Endpoint) (buf : List Byte) : Endpoint × Option (List Byte) :=
  match Stm32.htsnFrameUnpack buf with
  | none => (e, none)
  | some u =>
      if u.type ≠ typeCmd then (e, none)
      else if u.kind = kindCmdTsnCfg then tsnHandleCfg e u.payload
      else (e, none)

/-- The endpoint's state once it has applied a payload. -/
def Endpoint.applied (p : List Byte) : Endpoint :=
  { payload := p, valid := true, vlanId := (TsnCfg.ofBytes p).vlanId,
    pcp := (TsnCfg.ofBytes p).priority, preempt := (TsnCfg.ofBytes p).preemption }

theorem reportPayload_length (e : Endpoint) : (reportPayload e).length = e.payload.length + 4 := by
  simp [reportPayload]

/-- A payload within the bounds is stored and reported unless it is stored
already. -/
theorem tsnHandleCfg_eq {e : Endpoint} {p : List Byte} (hlo : cfgSize ≤ p.length)
    (hhi : p.length ≤ frameMaxplen - 4) :
    tsnHandleCfg e p =
      if e.valid ∧ e.payload = p then (e, none)
      else (Endpoint.applied p,
        Stm32.htsnFramePack typeTelem kindTelemTsnApplied (reportPayload (Endpoint.applied p))) := by
  have hbounds : ¬ (p.length < cfgSize ∨ p.length > frameMaxplen - 4) := by omega
  have hroom : ¬ p.length + 4 > frameMaxplen := by
    simp only [frameMaxplen] at *
    omega
  rw [tsnHandleCfg, if_neg hbounds]
  split
  · rfl
  · simp only [tsnReportApplied, hroom, if_false]
    rfl

end Htsn
