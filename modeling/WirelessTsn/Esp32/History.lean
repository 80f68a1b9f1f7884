import WirelessTsn.Esp32.Commands
import WirelessTsn.Lib.Run

/-!
The TSN state of an ESP32 node over sequences of commands and starts. What a
start restores is the state right after the last snapshot that was accepted
or the last reset; single commands change the state until the next start.
Only `/apply` checks what it installs: the state stays in range exactly as
long as the `qos`, `timesync` and `preemption` commands bring values that
`/apply` would have accepted.
-/

namespace Htsn.Esp32

open CText Json Keyed

/-! ### What a command leaves in NVS -/

/-- Apart from a reset and the factory reset, commands leave the TSN keys
alone. -/
theorem sameTsn_handle (n : Node) (m : Message) {c : Command} (hreset : c ≠ .reset)
    (hfactory : c ≠ .factory) : n.nvs.SameTsn (n.handle m c).node.nvs := by
  cases c with
  | reset => exact absurd rfl hreset
  | factory => exact absurd rfl hfactory
  | wifi =>
      simp only [Node.handle, Node.crateSetWifi]
      split <;> rfl
  | addWifi =>
      simp only [Node.handle, Node.addWifi]
      split
      · rfl
      · exact n.nvs.sameTsn_netAdd _ _
  | stream =>
      simp only [Node.handle, Node.onStream]
      split
      · rfl
      · split <;> rfl
  | status =>
      rw [Node.handle, n.loadPersisted_nvs]
      rfl
  | ota =>
      simp only [Node.handle, Node.onOta]
      split <;> rfl
  | _ => rfl

theorem boot_state (n : Node) : n.boot.state = n.powerOn.tsnRestore.state := n.restart_tsnRestore

theorem sameTsn_boot (n : Node) : n.nvs.SameTsn n.boot.nvs := by
  rw [Node.boot, Node.tsnRestore, Node.loadPersisted_nvs]
  exact n.sameTsn_restart

theorem sameTsn_step {n : Node} {m : Message} (h : n.nvs.SameTsn (n.onCommand m).node.nvs) :
    n.nvs.SameTsn (n.step m).nvs := by
  rw [Node.step]
  split
  · have hboot := sameTsn_boot (n.onCommand m).node
    rw [Nvs.SameTsn] at h hboot ⊢
    rw [hboot, h]
  · exact h

/-! ### The last state that is kept -/

/-- The messages of a history: snapshots, resets and the single commands. -/
def Message.InHistory (m : Message) : Prop :=
  route m.topic = .apply ∨
    ∃ c ∈ [Command.reset, .qos, .vlan, .timesync, .tas, .preemption], route m.topic = .command c

inductive HistoryEvent where
  | command (m : Message) (h : m.InHistory)
  | powerCycle

def HistoryEvent.next (n : Node) : HistoryEvent → Node
  | .command m _ => n.step m
  | .powerCycle => n.boot

/-- The state right after a snapshot that is accepted, or after a reset. -/
def HistoryEvent.kept (n : Node) : HistoryEvent → Option RawState
  | .command m _ =>
      if route m.topic = .command .reset ∨
          (route m.topic = .apply ∧ (n.onCommand m).acks = [ackOk]) then
        some (n.onCommand m).node.state
      else none
  | .powerCycle => none

theorem kept_command (n : Node) {m : Message} (h : m.InHistory) :
    HistoryEvent.kept n (.command m h) =
      if route m.topic = .command .reset ∨
          (route m.topic = .apply ∧ (n.onCommand m).acks = [ackOk]) then
        some (n.onCommand m).node.state
      else none :=
  rfl

/-- The node after a history, and the last state that was kept in it. -/
def historyRun (n : Node) (history : List HistoryEvent) : Node × Option RawState :=
  Run.run (fun s e => (e.next s.1, (e.kept s.1).or s.2)) (n, none) history

theorem onCommand_apply {n : Node} {m : Message} (h : route m.topic = .apply) :
    n.onCommand m =
      { node := (n.applySnapshot m.payload m.behind).1
        acks := [(n.applySnapshot m.payload m.behind).2] } := by
  rw [Node.onCommand, h]

theorem onCommand_command {n : Node} {m : Message} {c : Command} (h : route m.topic = .command c) :
    n.onCommand m = n.handle m c := by
  rw [Node.onCommand, h]

/-- An event either saves the state it leads to, or leaves the TSN keys
alone. -/
def SavesOrKeeps (n : Node) (e : HistoryEvent) : Prop :=
  (∃ t, e.kept n = some t ∧ t.WellFormed ∧ (e.next n).nvs.Holds t) ∨
    (e.kept n = none ∧ n.nvs.SameTsn (e.next n).nvs)

theorem apply_savesOrKeeps (n : Node) {m : Message} (hm : m.InHistory) (h : route m.topic = .apply) :
    SavesOrKeeps n (.command m hm) := by
  have hstep : n.step m = (n.applySnapshot m.payload m.behind).1 := by
    rw [Node.step, onCommand_apply h]
    rfl
  rcases applySnapshot_cases n m.payload m.behind with ⟨hsame, hok, -⟩ | ⟨happly, -⟩
  · refine Or.inr ⟨?_, ?_⟩
    · apply if_neg
      rintro (hreset | ⟨-, hack⟩)
      · rw [h] at hreset
        cases hreset
      · rw [onCommand_apply h, List.singleton_inj] at hack
        rw [hack] at hok
        cases hok
    · show n.nvs.SameTsn (n.step m).nvs
      rw [hstep, hsame]
      rfl
  · have hack : (n.onCommand m).acks = [ackOk] := by
      rw [onCommand_apply h, happly]
      rfl
    have hnode : (n.onCommand m).node =
        n.tsnApplySnapshot (parseSnapshot m.payload m.behind).cfg := by
      rw [onCommand_apply h, happly]
    refine Or.inl ⟨(n.onCommand m).node.state, if_pos (Or.inr ⟨h, hack⟩), ?_, ?_⟩
    · rw [hnode]
      exact wellFormed_tsnApplySnapshot n _
    · show (n.step m).nvs.Holds _
      rw [hstep, hnode, happly]
      exact holds_tsnApplySnapshot n _

theorem reset_savesOrKeeps (n : Node) {m : Message} (hm : m.InHistory)
    (h : route m.topic = .command .reset) : SavesOrKeeps n (.command m hm) := by
  have hnode : (n.onCommand m).node = Node.tsnResetState { n with nvs := n.nvs.netClear.setWifi [] [] } := by
    rw [onCommand_command h]
    rfl
  have hstep : n.step m = (n.onCommand m).node.boot := by
    rw [Node.step, onCommand_command h]
    rfl
  refine Or.inl ⟨(n.onCommand m).node.state, if_pos (Or.inl h), ?_, ?_⟩
  · rw [hnode]
    exact wellFormed_default
  · show (n.step m).nvs.Holds _
    rw [hstep, hnode]
    exact (sameTsn_boot _).holds (holds_tsnResetState _)

theorem single_savesOrKeeps (n : Node) {m : Message} (hm : m.InHistory) {c : Command}
    (h : route m.topic = .command c) (hreset : c ≠ .reset) (hfactory : c ≠ .factory) :
    SavesOrKeeps n (.command m hm) := by
  refine Or.inr ⟨?_, ?_⟩
  · apply if_neg
    rw [h]
    rintro (heq | ⟨heq, -⟩)
    · cases heq
      exact hreset rfl
    · cases heq
  · apply sameTsn_step
    rw [onCommand_command h]
    exact sameTsn_handle n m hreset hfactory

theorem savesOrKeeps (n : Node) (e : HistoryEvent) : SavesOrKeeps n e := by
  cases e with
  | powerCycle => exact Or.inr ⟨rfl, sameTsn_boot n⟩
  | command m hm =>
      rcases hm with h | ⟨c, hc, h⟩
      · exact apply_savesOrKeeps n _ h
      · by_cases hreset : c = .reset
        · rw [hreset] at h
          exact reset_savesOrKeeps n _ h
        · refine single_savesOrKeeps n _ h hreset ?_
          rintro rfl
          exact absurd hc (by decide)

/-- NVS holds the last state that was kept. -/
def HoldsKept (s : Node × Option RawState) : Prop :=
  ∀ t, s.2 = some t → t.WellFormed ∧ s.1.nvs.Holds t

theorem step_holdsKept (s : Node × Option RawState) (e : HistoryEvent) (hs : HoldsKept s) :
    HoldsKept (e.next s.1, (e.kept s.1).or s.2) := by
  intro t ht
  rcases savesOrKeeps s.1 e with ⟨u, hkept, hwell, hholds⟩ | ⟨hkept, hsame⟩
  · simp only [hkept, Option.some_or, Option.some.injEq] at ht
    subst ht
    exact ⟨hwell, hholds⟩
  · simp only [hkept, Option.none_or] at ht
    obtain ⟨hwell, hholds⟩ := hs t ht
    exact ⟨hwell, hsame.holds hholds⟩

theorem historyRun_holdsKept (n : Node) (history : List HistoryEvent) :
    HoldsKept (historyRun n history) :=
  Run.run_invariant step_holdsKept (fun _ h => absurd h (Option.some_ne_none _).symm) history

/-- After any history `htsn_tsn_restore` at the next start brings back the
state right after the last accepted snapshot or reset, with all its places. -/
theorem restore_last_kept (n : Node) (history : List HistoryEvent) (t : RawState)
    (hlast : (historyRun n history).2 = some t) :
    (historyRun n history).1.powerOn.tsnRestore.state = t ∧
      ((historyRun n history).1.restart.loaded = true →
        (historyRun n history).1.restart.state = t) := by
  obtain ⟨hwell, hholds⟩ := historyRun_holdsKept n history t hlast
  have hrestore := tsnRestore_of_holds hwell hholds
  refine ⟨hrestore, fun hloaded => ?_⟩
  have hboot := boot_state (historyRun n history).1
  rw [Node.boot, Node.tsnRestore, Node.loadPersisted, if_pos hloaded] at hboot
  exact hboot.trans hrestore

/-- A snapshot with ones, a `qos` command and a power cut. -/
def onesApplied : Message := { topic := "tsn/cmd/a/apply".toList, payload := stray }

def qosNine : Message := { topic := "tsn/cmd/a/qos".toList, payload := "9".toList }

theorem route_onesApplied : route onesApplied.topic = .apply := by decide

theorem route_qosNine : route qosNine.topic = .command .qos := by decide

theorem onesApplied_inHistory : onesApplied.InHistory := Or.inl route_onesApplied

theorem qosNine_inHistory : qosNine.InHistory := Or.inr ⟨.qos, by decide, route_qosNine⟩

def onesHistory : List HistoryEvent :=
  [.command onesApplied onesApplied_inHistory, .command qosNine qosNine_inHistory, .powerCycle]

theorem onesApplied_applied (n : Node) :
    n.applySnapshot onesApplied.payload onesApplied.behind =
      (n.tsnApplySnapshot (parseSnapshot stray []).cfg, ackOk) ∧
      (parseSnapshot stray []).cfg.priority = 1 := by
  have hone : ∀ key later, memberAt key strayMembers = some (.ofInt 1, later) →
      getIntIn [stray] key = some 1 := fun key later h => readIn_stray atoi h
  have hprio := hone "priority".toList _ rfl
  have hrefusal : (parseSnapshot stray []).refusal = none := by
    rw [refusal_eq_none_iff]
    simp only [parseSnapshot, hprio, hone "preemption".toList _ rfl, hone "timesync_mode".toList _ rfl]
    decide
  have hhead : stray.head? = some '\x7b' := rfl
  constructor
  · rcases applySnapshot_cases n stray [] with ⟨-, -, hbad⟩ | ⟨happly, -⟩
    · exact absurd hbad (by simp [hhead, hrefusal])
    · exact happly
  · simp only [parseSnapshot, hprio, Option.getD_some]

theorem onesHistory_kept :
    (historyRun {} onesHistory).2 =
      some (({} : Node).tsnApplySnapshot (parseSnapshot stray []).cfg).state := by
  have hack := (onesApplied_applied {}).1
  have happly : HistoryEvent.kept {} (.command onesApplied onesApplied_inHistory) =
      some (({} : Node).tsnApplySnapshot (parseSnapshot stray []).cfg).state := by
    rw [kept_command, onCommand_apply route_onesApplied, hack]
    exact if_pos (Or.inr ⟨route_onesApplied, rfl⟩)
  have hqos : ∀ n h, HistoryEvent.kept n (.command qosNine h) = none := by
    intro n h
    rw [kept_command, route_qosNine]
    apply if_neg
    simp
  simp only [historyRun, onesHistory, Run.run, List.foldl_cons, List.foldl_nil, happly, hqos]
  rfl

/-- The state after the power cut is that of the snapshot again. -/
theorem onesHistory_restored :
    (historyRun {} onesHistory).1.powerOn.tsnRestore.state.priority = 1 := by
  rw [(restore_last_kept {} onesHistory _ onesHistory_kept).1]
  exact (onesApplied_applied {}).2

/-! ### The ranges -/

/-- A single command with a value that `/apply` would accept. -/
def Message.Acceptable (m : Message) : Prop :=
  match route m.topic with
  | .command .qos => 0 ≤ (atoi m.payload).toInt ∧ (atoi m.payload).toInt ≤ 7
  | .command .timesync => 0 ≤ (atoi m.payload).toInt ∧ (atoi m.payload).toInt ≤ 3
  | .command .preemption =>
      0 ≤ (atoi (preemptionArgs m.payload).1).toInt ∧ (atoi (preemptionArgs m.payload).1).toInt ≤ 1
  | _ => True

/-- What a start would restore is in range. -/
def Nvs.SavedInRange (nvs : Nvs) : Prop := ∀ t, nvs.loadTsnState = some t → t.InRange

theorem inRange_default : RawState.InRange {} := by
  constructor <;> decide

theorem savedInRange_of_holds {nvs : Nvs} {t : RawState} (hwell : t.WellFormed) (h : nvs.Holds t)
    (hrange : t.InRange) : nvs.SavedInRange := by
  intro s hs
  rw [Nvs.loadTsnState, h.prio, h.tc, h.pre, h.vlan, h.tmode, h.cycle,
    (loadGcl_of_holds hwell h).1] at hs
  cases hs
  exact ⟨hrange.priority, hrange.preemption, hrange.timesyncMode, hrange.gclEntries⟩

theorem Nvs.SameTsn.savedInRange {nvs nvs' : Nvs} (hsame : nvs.SameTsn nvs') (h : nvs.SavedInRange) :
    nvs'.SavedInRange := by
  intro t ht
  rw [hsame.loadTsnState] at ht
  exact h t ht

theorem inRange_loadPersisted {n : Node} (hsaved : n.nvs.SavedInRange) (h : n.state.InRange) :
    n.loadPersisted.state.InRange := by
  rw [Node.loadPersisted]
  split
  · exact h
  · split
    · exact h
    · rename_i s hs
      have hrange := hsaved s hs
      exact ⟨hrange.priority, hrange.preemption, hrange.timesyncMode, hrange.gclEntries⟩

theorem inRange_boot {n : Node} (hsaved : n.nvs.SavedInRange) : n.boot.state.InRange := by
  rw [boot_state]
  exact inRange_loadPersisted (n := n.powerOn) hsaved inRange_default

theorem savedInRange_reset (n : Node) : n.tsnResetState.nvs.SavedInRange :=
  savedInRange_of_holds wellFormed_default (holds_tsnResetState n) inRange_default

theorem savedInRange_handle {n : Node} (m : Message) (c : Command) (hsaved : n.nvs.SavedInRange) :
    (n.handle m c).node.nvs.SavedInRange := by
  by_cases hreset : c = .reset
  · rw [hreset]
    exact savedInRange_reset _
  · by_cases hfactory : c = .factory
    · rw [hfactory]
      intro t ht
      cases ht
    · exact (sameTsn_handle n m hreset hfactory).savedInRange hsaved

/-- Only snapshots and resets are saved, so what is saved is in range whatever
the other commands bring. -/
theorem savedInRange_step (n : Node) (m : Message) (h : n.nvs.SavedInRange) :
    (n.step m).nvs.SavedInRange := by
  cases hroute : route m.topic with
  | feed =>
      rw [Node.step, Node.onCommand, hroute]
      exact h
  | unknown =>
      rw [Node.step, Node.onCommand, hroute]
      exact h
  | apply =>
      rw [Node.step, onCommand_apply hroute]
      rcases applySnapshot_cases n m.payload m.behind with ⟨hsame, -, -⟩ | ⟨happly, -, hnone⟩
      · rw [hsame]
        exact h
      · rw [happly]
        exact savedInRange_of_holds (wellFormed_tsnApplySnapshot n _) (holds_tsnApplySnapshot n _)
          (inRange_of_accepted n hnone)
  | command c =>
      rw [Node.step, onCommand_command hroute]
      split
      · exact (sameTsn_boot _).savedInRange (savedInRange_handle m c h)
      · exact savedInRange_handle m c h

/-- The commands that install a value without a check. -/
def Command.Unchecked (c : Command) : Prop := c = .qos ∨ c = .timesync ∨ c = .preemption

theorem inRange_handle {n : Node} (m : Message) {c : Command} (hc : ¬ c.Unchecked)
    (hsaved : n.nvs.SavedInRange) (h : n.state.InRange) : (n.handle m c).node.state.InRange := by
  cases c with
  | qos => exact absurd (Or.inl rfl) hc
  | timesync => exact absurd (Or.inr (Or.inl rfl)) hc
  | preemption => exact absurd (Or.inr (Or.inr rfl)) hc
  | vlan => exact ⟨h.priority, h.preemption, h.timesyncMode, h.gclEntries⟩
  | tas => exact ⟨h.priority, h.preemption, h.timesyncMode, clampEntries_toInt 0⟩
  | status => exact inRange_loadPersisted hsaved h
  | reset => exact inRange_default
  | wifi =>
      simp only [Node.handle, Node.crateSetWifi]
      split <;> exact h
  | addWifi =>
      simp only [Node.handle, Node.addWifi]
      split <;> exact h
  | stream =>
      simp only [Node.handle, Node.onStream]
      split
      · exact h
      · split <;> exact h
  | ota =>
      simp only [Node.handle, Node.onOta]
      split <;> exact h
  | _ => exact h

theorem acceptable_of_checked {m : Message} {c : Command} (hroute : route m.topic = .command c)
    (hc : ¬ c.Unchecked) : m.Acceptable := by
  rw [Message.Acceptable, hroute]
  cases c with
  | qos => exact absurd (Or.inl rfl) hc
  | timesync => exact absurd (Or.inr (Or.inl rfl)) hc
  | preemption => exact absurd (Or.inr (Or.inr rfl)) hc
  | _ => trivial

/-- One unchecked command: the state stays in range exactly when its value
does. -/
theorem inRange_unchecked_iff {n : Node} {m : Message} {c : Command}
    (hroute : route m.topic = .command c) (hc : c.Unchecked) (h : n.state.InRange) :
    (n.step m).state.InRange ↔ m.Acceptable := by
  rw [Node.step, onCommand_command hroute, Message.Acceptable, hroute]
  rcases hc with rfl | rfl | rfl
  · have hoff : 0 ≤ (0 : Int32).toInt ∧ (0 : Int32).toInt ≤ 1 := by decide
    refine ⟨fun hin => hin.priority, fun hv => ?_⟩
    exact ⟨hv, hoff, h.timesyncMode, h.gclEntries⟩
  · refine ⟨fun hin => hin.timesyncMode, fun hv => ?_⟩
    exact ⟨h.priority, h.preemption, hv, h.gclEntries⟩
  · refine ⟨fun hin => hin.preemption, fun hv => ?_⟩
    exact ⟨h.priority, hv, h.timesyncMode, h.gclEntries⟩

theorem inRange_step_iff {n : Node} (m : Message) (hsaved : n.nvs.SavedInRange) (h : n.state.InRange) :
    (n.step m).state.InRange ↔ m.Acceptable := by
  cases hroute : route m.topic with
  | feed | unknown =>
      rw [Node.step, Node.onCommand, Message.Acceptable, hroute]
      exact iff_of_true h trivial
  | apply =>
      rw [Node.step, onCommand_apply hroute, Message.Acceptable, hroute]
      refine iff_of_true ?_ trivial
      rcases applySnapshot_cases n m.payload m.behind with ⟨hsame, -, -⟩ | ⟨happly, -, hnone⟩
      · rw [hsame]
        exact h
      · rw [happly]
        exact inRange_of_accepted n hnone
  | command c =>
      by_cases hc : c.Unchecked
      · exact inRange_unchecked_iff hroute hc h
      · refine iff_of_true ?_ (acceptable_of_checked hroute hc)
        rw [Node.step, onCommand_command hroute]
        split
        · exact inRange_boot (savedInRange_handle m c hsaved)
        · exact inRange_handle m hc hsaved h

/-- From the reset state, whatever commands follow: every state reached is in
range exactly when no `qos`, `timesync` or `preemption` command brings a value
outside its range. -/
theorem inRange_run_iff (n : Node) (ms : List Message) :
    (∀ front, front <+: ms → (Run.run Node.step n.tsnResetState front).state.InRange) ↔
      ∀ m ∈ ms, m.Acceptable := by
  have hstart : n.tsnResetState.state.InRange := inRange_default
  have halong : (∀ front, front <+: ms → (Run.run Node.step n.tsnResetState front).state.InRange) ↔
      Run.AllSteps Node.step (fun s m => (s.step m).state.InRange) n.tsnResetState ms :=
    @Run.forall_prefix_iff _ _ Node.step (fun s => s.state.InRange) _ hstart ms
  have hsteps : Run.AllSteps Node.step (fun s m => (s.step m).state.InRange) n.tsnResetState ms ↔
      Run.AllSteps Node.step (fun _ m => m.Acceptable) n.tsnResetState ms :=
    @Run.allSteps_inv_iff _ _ Node.step (fun _ m => m.Acceptable) (fun s => s.state.InRange)
      (fun s => s.nvs.SavedInRange) savedInRange_step
      (fun _ m hsaved h => inRange_step_iff m hsaved h) _ (savedInRange_reset n) hstart ms
  exact halong.trans (hsteps.trans Run.allSteps_const)

/-- A `qos` command installs priority 9. -/
theorem qosNine_out_of_range :
    ¬ ∀ front, front <+: [qosNine] →
      (Run.run Node.step ({} : Node).tsnResetState front).state.InRange := by
  intro h
  have hrange := (h [qosNine] (List.prefix_refl _)).priority.2
  have hnine : (Run.run Node.step ({} : Node).tsnResetState [qosNine]).state.priority = 9 := by
    have hstep : Run.run Node.step ({} : Node).tsnResetState [qosNine] =
        ({} : Node).tsnResetState.step qosNine := rfl
    rw [hstep, Node.step, onCommand_command route_qosNine]
    rfl
  rw [hnine] at hrange
  exact absurd hrange (by decide)

end Htsn.Esp32
