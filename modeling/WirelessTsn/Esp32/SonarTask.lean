import WirelessTsn.Esp32.SonarSweep
import WirelessTsn.Lib.Run

/-!
The sweep task of the sonar (`htsn_agent/htsn_sonar.c`) among the calls that
other tasks make of its interface. The task and its callers share three volatile
flags and the servo; each access is a step of its own here, so a trigger or a
manual command may come between any two of them.
-/

namespace Htsn.Esp32

open CText Run

/-- `deg` after the two clamps of `servo_set_angle`. -/
def clampAngle (deg : Int) : Nat := (min (max deg 0) 180).toNat

/-- `duty` of `servo_set_us` for the pulse of `servo_set_angle`: 1000 us at 0 and
2000 us at 180 degrees, of 20000 us in 16384 counts. -/
def servoDuty (deg : Int) : Nat := (1000 + clampAngle deg * 1000 / 180) * 16384 / 20000

/-- The angles of the self-test, and the one it parks at. -/
def selfTestAngles : List Nat :=
  (List.range 13).map (· * 15) ++ (List.range 13).map (180 - · * 15) ++ [90]

/-- What `sonar_task` does next. -/
inductive SonarAt where
  /-- `servo_set_angle` for the first of the angles that are left. -/
  | testing (rest : List Nat)
  /-- `if (!g_trigger) continue;` -/
  | waiting
  /-- `g_trigger = false;` -/
  | seen
  /-- `if (g_sweeping) continue;`, then `g_sweeping = true;` -/
  | taken
  /-- `g_cur_angle = a;` -/
  | marking (a : Fin sonarSweepAngles)
  /-- `servo_set_angle(a);` -/
  | aiming (a : Fin sonarSweepAngles)
  /-- `sonar_read_cm` and the store into `g_sweep[a]`. -/
  | listening (a : Fin sonarSweepAngles)
  /-- `servo_set_angle(90);` -/
  | parking
  /-- The length, the number and the flag of the sweep. -/
  | counting
  /-- `g_cur_angle = -1;` and `g_sweeping = false;` -/
  | releasing
  /-- `publish_sweep();` -/
  | publishing

/-- One measurement: what was stored, the place, the duty of the servo then, and
whether a manual command came after the servo was aimed. -/
structure SonarReading where
  angle : Fin sonarSweepAngles
  cm : Int16
  duty : Nat
  meddled : Bool
deriving DecidableEq

/-- The static data of the sonar and the place of its task. The last three fields
are the record of the run. -/
structure SonarTask where
  place : SonarAt := .testing selfTestAngles
  trigger : Bool := false
  sweeping : Bool := false
  curAngle : Int32 := -1
  duty : Nat := servoDuty 0
  sweep : Vector Int16 sonarSweepAngles := .replicate sonarSweepAngles (-1)
  sweepLen : Nat := 0
  sweepId : Int32 := 0
  sweepOk : Bool := false
  meddled : Bool := false
  readings : List SonarReading := []
  handed : List Sonar := []

/-- What `publish_sweep` reads. -/
def SonarTask.sonar (s : SonarTask) (mq : Bool) (devId : Buf 32) : Sonar where
  mq := mq
  devId := devId
  sweepId := s.sweepId
  sweep := ⟨s.sweep.toList.take s.sweepLen, by simp⟩

/-- What is stored for a measurement. -/
def storedCm (cm : Int) : Int16 := Int16.ofInt (if cm < 0 then -1 else cm)

/-- The place after `g_sweep[a]`. -/
def SonarAt.after (a : Fin sonarSweepAngles) : SonarAt :=
  if h : a.val + 1 < sonarSweepAngles then .marking ⟨a.val + 1, h⟩ else .parking

/-- One step of `sonar_task`; `cm` is what `sonar_read_cm` returns in it. -/
def SonarTask.turn (mq : Bool) (devId : Buf 32) (s : SonarTask) (cm : Int) : SonarTask :=
  match s.place with
  | .testing [] => { s with place := .waiting }
  | .testing (a :: rest) => { s with place := .testing rest, duty := servoDuty a }
  | .waiting => { s with place := if s.trigger then .seen else .waiting }
  | .seen => { s with place := .taken, trigger := false }
  | .taken => if s.sweeping then { s with place := .waiting } else
      { s with place := .marking ⟨0, by decide⟩, sweeping := true }
  | .marking a => { s with place := .aiming a, curAngle := Int32.ofNat a }
  | .aiming a => { s with place := .listening a, duty := servoDuty a.val, meddled := false }
  | .listening a =>
      { s with
        place := .after a
        sweep := s.sweep.set a (storedCm cm)
        readings := s.readings ++ [⟨a, storedCm cm, s.duty, s.meddled⟩] }
  | .parking => { s with place := .counting, duty := servoDuty 90 }
  | .counting =>
      { s with
        place := .releasing
        sweepLen := sonarSweepAngles
        sweepId := s.sweepId + 1
        sweepOk := true }
  | .releasing => { s with place := .publishing, curAngle := -1, sweeping := false }
  | .publishing => { s with place := .waiting, handed := s.handed ++ [s.sonar mq devId] }

/-- What happens next: the task goes on, or another one calls
`htsn_sonar_trigger`, `htsn_sonar_set_angle` or `htsn_sonar_motor`. -/
inductive SonarEvent where
  | turn (cm : Int)
  | trigger
  | setAngle (deg : Int32)
  | motor (dir : Int32)
deriving DecidableEq

def SonarEvent.step (mq : Bool) (devId : Buf 32) (s : SonarTask) : SonarEvent → SonarTask
  | .turn cm => s.turn mq devId cm
  | .trigger => { s with trigger := true }
  | .setAngle deg => { s with curAngle := deg, duty := servoDuty deg.toInt, meddled := true }
  | .motor dir => if dir = 1 then { s with duty := servoDuty 0, meddled := true } else s

/-! ### The places of a sweep -/

/-- How many entries the sweep of the task has. -/
def SonarAt.filled : SonarAt → Nat
  | .marking a | .aiming a | .listening a => a.val
  | .parking | .counting | .releasing | .publishing => sonarSweepAngles
  | _ => 0

/-- The sweep is begun and not handed over yet. -/
def SonarAt.inSweep : SonarAt → Bool
  | .testing _ | .waiting | .seen | .taken => false
  | _ => true

/-- `g_sweeping` at the place. -/
def SonarAt.holds : SonarAt → Bool
  | .publishing => false
  | p => p.inSweep

/-- The sweep has got its number. -/
def SonarAt.counted : SonarAt → Bool
  | .releasing | .publishing => true
  | _ => false

/-- The trigger is taken and the sweep not begun yet. -/
def SonarAt.claims : SonarAt → Bool
  | .taken => true
  | _ => false

/-- The sweeps that were begun. -/
def SonarTask.begun (s : SonarTask) : Nat := s.handed.length + s.place.inSweep.toNat

theorem SonarAt.after_filled (a : Fin sonarSweepAngles) : (SonarAt.after a).filled = a.val + 1 := by
  unfold SonarAt.after
  split
  · rfl
  · next h => exact Nat.le_antisymm (Nat.le_of_not_lt h) a.isLt

theorem SonarAt.after_inSweep (a : Fin sonarSweepAngles) : (SonarAt.after a).inSweep = true := by
  unfold SonarAt.after
  split <;> rfl

theorem SonarAt.after_holds (a : Fin sonarSweepAngles) : (SonarAt.after a).holds = true := by
  unfold SonarAt.after
  split <;> rfl

theorem SonarAt.after_counted (a : Fin sonarSweepAngles) : (SonarAt.after a).counted = false := by
  unfold SonarAt.after
  split <;> rfl

theorem SonarAt.after_claims (a : Fin sonarSweepAngles) : (SonarAt.after a).claims = false := by
  unfold SonarAt.after
  split <;> rfl

/-! ### The record and the data -/

/-- What is stored is what was measured, sweep by sweep, and the numbers follow
the sweeps. -/
structure SonarInv (s : SonarTask) : Prop where
  sweeping : s.sweeping = s.place.holds
  whole : ∀ sonar ∈ s.handed, sonar.sweep.items.length = sonarSweepAngles
  text : s.handed.flatMap (·.sweep.items) ++ s.sweep.toList.take s.place.filled =
    s.readings.map SonarReading.cm
  number : s.sweepId = Int32.ofNat (s.handed.length + s.place.counted.toNat)
  numbers : s.handed.map Sonar.sweepId =
    (List.range s.handed.length).map fun i => Int32.ofNat (i + 1)
  length : s.place.counted = true → s.sweepLen = sonarSweepAngles
  angles : ∀ i (h : i < s.readings.length), s.readings[i].angle.val = i % sonarSweepAngles
  aimed : ∀ r ∈ s.readings, r.meddled = false → r.duty = servoDuty r.angle.val
  turned : ∀ a, s.place = .listening a → s.meddled = false → s.duty = servoDuty a.val

theorem length_flatMap_const {α β : Type} {f : α → List β} {n : Nat} {as : List α}
    (h : ∀ a ∈ as, (f a).length = n) : (as.flatMap f).length = n * as.length := by
  induction as with
  | nil => rfl
  | cons a as ih =>
      rw [List.flatMap_cons, List.length_append, h a List.mem_cons_self,
        ih fun b hb => h b (List.mem_cons_of_mem a hb), List.length_cons, Nat.mul_succ, Nat.add_comm]

/-- The measurements are those of the sweeps that were handed over and of the
one the task is at. -/
theorem SonarInv.count {s : SonarTask} (h : SonarInv s) :
    s.readings.length = sonarSweepAngles * s.handed.length + s.place.filled := by
  have hfilled : s.place.filled ≤ sonarSweepAngles := by
    cases s.place <;> simp only [SonarAt.filled] <;> omega
  have htext := congrArg List.length h.text
  rw [List.length_append, length_flatMap_const h.whole, List.length_take, Vector.length_toList,
    Nat.min_eq_left hfilled, List.length_map] at htext
  exact htext.symm

theorem sonarInv_start : SonarInv {} where
  sweeping := rfl
  whole := by simp
  text := rfl
  number := rfl
  numbers := rfl
  length := nofun
  angles := nofun
  aimed := by simp
  turned := nofun

/-- A step that neither measures nor counts nor hands over. -/
theorem SonarInv.move {s s' : SonarTask} (h : SonarInv s) (hsweep : s'.sweep = s.sweep)
    (hlen : s'.sweepLen = s.sweepLen) (hid : s'.sweepId = s.sweepId)
    (hreadings : s'.readings = s.readings) (hhanded : s'.handed = s.handed)
    (hfilled : s'.place.filled = s.place.filled) (hcounted : s'.place.counted = s.place.counted)
    (hholds : s'.sweeping = s'.place.holds)
    (hturned : ∀ a, s'.place = .listening a → s'.meddled = false → s'.duty = servoDuty a.val) :
    SonarInv s' where
  sweeping := hholds
  whole := hhanded ▸ h.whole
  text := by
    rw [hsweep, hreadings, hhanded, hfilled]
    exact h.text
  number := by
    rw [hid, hhanded, hcounted]
    exact h.number
  numbers := by
    rw [hhanded]
    exact h.numbers
  length := by
    rw [hcounted, hlen]
    exact h.length
  angles := by
    rw [hreadings]
    exact h.angles
  aimed := hreadings ▸ h.aimed
  turned := hturned

/-- The measurement at `a` comes behind those of the angles before. -/
theorem SonarInv.measure {s : SonarTask} (h : SonarInv s) {a : Fin sonarSweepAngles}
    (hplace : s.place = .listening a) (cm : Int16) :
    SonarInv { s with
      place := .after a
      sweep := s.sweep.set a cm
      readings := s.readings ++ [⟨a, cm, s.duty, s.meddled⟩] } := by
  have hcount : s.readings.length = sonarSweepAngles * s.handed.length + a.val := by
    rw [h.count, hplace, SonarAt.filled]
  constructor
  · dsimp only
    rw [h.sweeping, hplace, SonarAt.after_holds]
    rfl
  · exact h.whole
  · have htake : (s.sweep.set a cm).toList.take (a.val + 1) = s.sweep.toList.take a.val ++ [cm] := by
      have hset : (s.sweep.set a cm).toList = s.sweep.toList.set a.val cm :=
        Vector.toList_set a.isLt
      rw [hset, List.take_succ_eq_append_getElem (by simp), List.take_set_of_le (Nat.le_refl _),
        List.getElem_set_self]
    have htext := h.text
    rw [hplace, SonarAt.filled] at htext
    dsimp only
    rw [SonarAt.after_filled, htake, List.map_append, ← htext, List.append_assoc]
    rfl
  · dsimp only
    rw [h.number, hplace, SonarAt.after_counted]
    rfl
  · exact h.numbers
  · dsimp only
    rw [SonarAt.after_counted]
    exact nofun
  · intro i hi
    rcases Nat.lt_or_ge i s.readings.length with hlt | hge
    · rw [List.getElem_append_left hlt]
      exact h.angles i hlt
    · have hlast : i = s.readings.length := by
        rw [List.length_append, List.length_singleton] at hi
        omega
      subst hlast
      rw [List.getElem_concat_length, hcount, Nat.mul_add_mod, Nat.mod_eq_of_lt a.isLt]
      rfl
  · intro r hr hm
    rcases List.mem_append.mp hr with hr | hr
    · exact h.aimed r hr hm
    · rw [List.mem_singleton] at hr
      subst hr
      exact h.turned a hplace hm
  · intro b hb
    unfold SonarAt.after at hb
    split at hb <;> cases hb

/-- The sweep that is handed over is the one just measured, under the next
number. -/
theorem SonarInv.handOver {s : SonarTask} (h : SonarInv s) (hplace : s.place = .publishing)
    (mq : Bool) (devId : Buf 32) :
    SonarInv { s with place := .waiting, handed := s.handed ++ [s.sonar mq devId] } := by
  have hlen : s.sweepLen = sonarSweepAngles := h.length (by rw [hplace]; rfl)
  have hitems : (s.sonar mq devId).sweep.items = s.sweep.toList := by
    rw [SonarTask.sonar]
    exact List.take_of_length_le (by simp [hlen])
  constructor
  · dsimp only
    rw [h.sweeping, hplace]
    rfl
  · intro sonar hin
    rcases List.mem_append.mp hin with hin | hin
    · exact h.whole sonar hin
    · rw [List.mem_singleton.mp hin, hitems, Vector.length_toList]
  · have htext := h.text
    rw [hplace, SonarAt.filled, List.take_of_length_le (by simp)] at htext
    have hnone : SonarAt.waiting.filled = 0 := rfl
    dsimp only
    rw [List.flatMap_append, List.flatMap_singleton, hitems, htext, hnone, List.take_zero,
      List.append_nil]
  · dsimp only
    rw [h.number, hplace, List.length_append]
    rfl
  · have hnumber : s.sweepId = Int32.ofNat (s.handed.length + 1) := by
      rw [h.number, hplace]
      rfl
    dsimp only
    rw [List.map_append, h.numbers, List.length_append, List.length_singleton, List.range_succ,
      List.map_append, List.map_singleton, List.map_singleton, SonarTask.sonar, hnumber]
  · exact nofun
  · exact h.angles
  · exact h.aimed
  · exact nofun

theorem SonarInv.turn {s : SonarTask} (h : SonarInv s) (mq : Bool) (devId : Buf 32) (cm : Int) :
    SonarInv (s.turn mq devId cm) := by
  have hsweeping := h.sweeping
  unfold SonarTask.turn
  cases hplace : s.place with
  | testing rest =>
      rw [hplace] at hsweeping
      cases rest with
      | nil => exact h.move rfl rfl rfl rfl rfl (by rw [hplace]; rfl) (by rw [hplace]; rfl) hsweeping nofun
      | cons a rest =>
          exact h.move rfl rfl rfl rfl rfl (by rw [hplace]; rfl) (by rw [hplace]; rfl) hsweeping nofun
  | waiting =>
      rw [hplace] at hsweeping
      cases htrigger : s.trigger with
      | false => exact h.move rfl rfl rfl rfl rfl (by rw [hplace]; rfl) (by rw [hplace]; rfl) hsweeping nofun
      | true => exact h.move rfl rfl rfl rfl rfl (by rw [hplace]; rfl) (by rw [hplace]; rfl) hsweeping nofun
  | seen =>
      rw [hplace] at hsweeping
      exact h.move rfl rfl rfl rfl rfl (by rw [hplace]; rfl) (by rw [hplace]; rfl) hsweeping nofun
  | taken =>
      rw [hplace] at hsweeping
      dsimp only
      rw [hsweeping]
      exact h.move rfl rfl rfl rfl rfl (by rw [hplace]; rfl) (by rw [hplace]; rfl) rfl nofun
  | marking a =>
      rw [hplace] at hsweeping
      exact h.move rfl rfl rfl rfl rfl (by rw [hplace]; rfl) (by rw [hplace]; rfl) hsweeping nofun
  | aiming a =>
      rw [hplace] at hsweeping
      refine h.move rfl rfl rfl rfl rfl (by rw [hplace]; rfl) (by rw [hplace]; rfl) hsweeping ?_
      intro b hb _
      cases hb
      rfl
  | listening a => exact h.measure hplace (storedCm cm)
  | parking =>
      rw [hplace] at hsweeping
      exact h.move rfl rfl rfl rfl rfl (by rw [hplace]; rfl) (by rw [hplace]; rfl) hsweeping nofun
  | counting =>
      rw [hplace] at hsweeping
      have hnumber : s.sweepId + 1 = Int32.ofNat (s.handed.length + 1) := by
        rw [h.number, hplace]
        exact (Int32.ofNat_add _ 1).symm
      refine ⟨hsweeping, h.whole, ?_, hnumber, h.numbers, fun _ => rfl, h.angles, h.aimed, nofun⟩
      have htext := h.text
      rw [hplace] at htext
      exact htext
  | releasing => exact h.move rfl rfl rfl rfl rfl (by rw [hplace]; rfl) (by rw [hplace]; rfl) rfl nofun
  | publishing => exact h.handOver hplace mq devId

/-- What the other tasks do leaves the sweep alone; a manual command may turn the
servo under a measurement. -/
theorem SonarInv.step {s : SonarTask} (h : SonarInv s) (mq : Bool) (devId : Buf 32) (e : SonarEvent) :
    SonarInv (e.step mq devId s) := by
  cases e with
  | turn cm => exact h.turn mq devId cm
  | trigger => exact h.move rfl rfl rfl rfl rfl rfl rfl h.sweeping h.turned
  | setAngle deg => exact h.move rfl rfl rfl rfl rfl rfl rfl h.sweeping nofun
  | motor dir =>
      have hmotor : SonarInv { s with duty := servoDuty 0, meddled := true } :=
        h.move rfl rfl rfl rfl rfl rfl rfl h.sweeping nofun
      simp only [SonarEvent.step]
      split
      · exact hmotor
      · exact h

theorem sonarInv_run (mq : Bool) (devId : Buf 32) (events : List SonarEvent) :
    SonarInv (run (SonarEvent.step mq devId) {} events) :=
  run_invariant (fun _ e h => h.step mq devId e) sonarInv_start events

/-! ### Triggers -/

/-- The steps the task needs until it waits for the next trigger. -/
def SonarAt.togo : SonarAt → Nat
  | .testing rest => rest.length + 1
  | .waiting => 0
  | .seen => 3 * sonarSweepAngles + 6
  | .taken => 3 * sonarSweepAngles + 5
  | .marking a => 3 * (sonarSweepAngles - a.val) + 4
  | .aiming a => 3 * (sonarSweepAngles - a.val) + 3
  | .listening a => 3 * (sonarSweepAngles - a.val) + 2
  | .parking => 4
  | .counting => 3
  | .releasing => 2
  | .publishing => 1

/-- The steps from a trigger that was not seen yet to the end of its sweep, for a
task that waits. -/
def sonarTurns : Nat := 3 * sonarSweepAngles + 7

/-- A sweep without any measurement of the first `old` is handed over, or it will
be within `turns` steps of the task. -/
def Answering (old turns : Nat) (s : SonarTask) : Prop :=
  (∃ i < s.handed.length, old ≤ sonarSweepAngles * i) ∨
  ((s.place = .seen ∨ s.place = .taken ∨ s.place.inSweep = true) ∧
    old ≤ sonarSweepAngles * s.handed.length ∧ s.place.togo ≤ turns) ∨
  (s.trigger = true ∧ old ≤ s.readings.length ∧ s.place.togo + sonarTurns ≤ turns)

/-- The triggers of a run pay for the sweeps that it begins. -/
structure Triggered (triggers : Nat) (s : SonarTask) : Prop where
  seen : s.place = .seen → s.trigger = true
  paid : s.begun + s.trigger.toNat + s.place.claims.toNat ≤ triggers

theorem SonarAt.togo_after (a : Fin sonarSweepAngles) :
    (SonarAt.after a).togo + 1 = (SonarAt.listening a).togo := by
  have ha : a.val < 180 := a.isLt
  unfold SonarAt.after
  split
  · simp only [togo, sonarSweepAngles]
    omega
  · next h =>
      unfold sonarSweepAngles at h
      simp only [togo, sonarSweepAngles]
      omega

/-- Away from the place where it waits, each step of the task brings it nearer. -/
theorem SonarInv.togo_turn {s : SonarTask} (h : SonarInv s) (mq : Bool) (devId : Buf 32) (cm : Int)
    (hplace : s.place ≠ .waiting) : (s.turn mq devId cm).place.togo + 1 = s.place.togo := by
  have hsweeping := h.sweeping
  unfold SonarTask.turn
  cases hat : s.place with
  | testing rest => cases rest <;> rfl
  | waiting => exact absurd hat hplace
  | seen => rfl
  | taken =>
      rw [hat] at hsweeping
      dsimp only
      rw [hsweeping]
      rfl
  | marking a => rfl
  | aiming a => rfl
  | listening a => exact SonarAt.togo_after a
  | parking => rfl
  | counting => rfl
  | releasing => rfl
  | publishing => rfl

theorem SonarTask.turn_readings (s : SonarTask) (mq : Bool) (devId : Buf 32) (cm : Int) :
    s.readings.length ≤ (s.turn mq devId cm).readings.length := by
  unfold turn
  split <;> first | exact Nat.le_refl _ | (split <;> exact Nat.le_refl _) | simp

theorem SonarTask.turn_handed (s : SonarTask) (mq : Bool) (devId : Buf 32) (cm : Int) :
    s.handed.length ≤ (s.turn mq devId cm).handed.length := by
  unfold turn
  split <;> first | exact Nat.le_refl _ | (split <;> exact Nat.le_refl _) | simp

/-- Only the task clears the trigger, and only where it has just seen it. -/
theorem SonarTask.turn_trigger {s : SonarTask} (mq : Bool) (devId : Buf 32) (cm : Int)
    (hplace : s.place ≠ .seen) : (s.turn mq devId cm).trigger = s.trigger := by
  unfold turn
  split <;> first | rfl | (split <;> rfl) | exact absurd ‹_› hplace

/-- A sweep that is begun goes on until it is handed over. -/
theorem SonarTask.turn_inSweep {s : SonarTask} (mq : Bool) (devId : Buf 32) (cm : Int)
    (hplace : s.place.inSweep = true) :
    (s.turn mq devId cm).place.inSweep = true ∨
      s.handed.length < (s.turn mq devId cm).handed.length := by
  unfold turn
  cases hat : s.place with
  | testing rest => simp [hat, SonarAt.inSweep] at hplace
  | waiting => simp [hat, SonarAt.inSweep] at hplace
  | seen => simp [hat, SonarAt.inSweep] at hplace
  | taken => simp [hat, SonarAt.inSweep] at hplace
  | marking a => exact Or.inl rfl
  | aiming a => exact Or.inl rfl
  | listening a => exact Or.inl (SonarAt.after_inSweep a)
  | parking => exact Or.inl rfl
  | counting => exact Or.inl rfl
  | releasing => exact Or.inl rfl
  | publishing => exact Or.inr (by simp)

theorem Answering.turn {old turns : Nat} {s : SonarTask} (hinv : SonarInv s)
    (h : Answering old (turns + 1) s) (mq : Bool) (devId : Buf 32) (cm : Int) :
    Answering old turns (s.turn mq devId cm) := by
  have hreadings := s.turn_readings mq devId cm
  have hhanded := s.turn_handed mq devId cm
  have hgrow : sonarSweepAngles * s.handed.length ≤
      sonarSweepAngles * (s.turn mq devId cm).handed.length := Nat.mul_le_mul_left _ hhanded
  rcases h with ⟨i, hi, hold⟩ | ⟨hplace, hold, htogo⟩ | ⟨htrigger, hold, htogo⟩
  · exact Or.inl ⟨i, hi.trans_le hhanded, hold⟩
  · have hnear := hinv.togo_turn mq devId cm (by
      intro hwait
      rw [hwait] at hplace
      simp [SonarAt.inSweep] at hplace)
    rcases hplace with hseen | htaken | hsweep
    · refine Or.inr (Or.inl ⟨Or.inr (Or.inl ?_), hold.trans hgrow, by omega⟩)
      rw [SonarTask.turn, hseen]
    · refine Or.inr (Or.inl ⟨Or.inr (Or.inr ?_), hold.trans hgrow, by omega⟩)
      rw [SonarTask.turn, htaken, hinv.sweeping, htaken]
      rfl
    · rcases SonarTask.turn_inSweep mq devId cm hsweep with hgoes | hover
      · exact Or.inr (Or.inl ⟨Or.inr (Or.inr hgoes), hold.trans hgrow, by omega⟩)
      · exact Or.inl ⟨_, hover, hold⟩
  · have hcount := hinv.count
    rcases eq_or_ne s.place .waiting with hwait | hwait
    · rw [hwait] at hcount htogo
      have hnext : (s.turn mq devId cm).place = .seen := by
        rw [SonarTask.turn, hwait]
        exact if_pos htrigger
      refine Or.inr (Or.inl ⟨Or.inl hnext, ?_, ?_⟩)
      · exact (hold.trans hcount.le).trans hgrow
      · rw [hnext]
        simp only [SonarAt.togo, sonarTurns] at htogo ⊢
        omega
    · have hnear := hinv.togo_turn mq devId cm hwait
      rcases eq_or_ne s.place .seen with hseen | hseen
      · rw [hseen] at hcount
        refine Or.inr (Or.inl ⟨Or.inr (Or.inl ?_), (hold.trans hcount.le).trans hgrow, by omega⟩)
        rw [SonarTask.turn, hseen]
      · refine Or.inr (Or.inr ⟨?_, hold.trans hreadings, by omega⟩)
        rw [SonarTask.turn_trigger mq devId cm hseen]
        exact htrigger

def SonarEvent.isTurn : SonarEvent → Bool
  | .turn _ => true
  | _ => false

/-- What the other tasks do takes no step from the sweep. -/
theorem Answering.other {old turns : Nat} {s : SonarTask} (h : Answering old turns s) (mq : Bool)
    (devId : Buf 32) {e : SonarEvent} (he : e.isTurn = false) :
    Answering old turns (e.step mq devId s) := by
  cases e with
  | turn cm => cases he
  | trigger => exact h.imp_right (Or.imp_right fun hlate => ⟨rfl, hlate.2⟩)
  | setAngle deg => exact h
  | motor dir =>
      simp only [SonarEvent.step]
      split
      · exact h
      · exact h

/-- A trigger that comes in any state is answered in time. -/
theorem SonarTask.answering {s : SonarTask} (mq : Bool) (devId : Buf 32) :
    Answering s.readings.length (s.place.togo + sonarTurns) (SonarEvent.step mq devId s .trigger) :=
  Or.inr (Or.inr ⟨rfl, Nat.le_refl _, Nat.le_refl _⟩)

theorem Answering.mono {old turns turns' : Nat} {s : SonarTask} (h : Answering old turns s)
    (hle : turns ≤ turns') : Answering old turns' s := by
  rcases h with hdone | ⟨hplace, hold, htogo⟩ | ⟨htrigger, hold, htogo⟩
  · exact Or.inl hdone
  · exact Or.inr (Or.inl ⟨hplace, hold, htogo.trans hle⟩)
  · exact Or.inr (Or.inr ⟨htrigger, hold, htogo.trans hle⟩)

theorem Answering.run {old : Nat} {s : SonarTask} (hinv : SonarInv s) (mq : Bool) (devId : Buf 32)
    {events : List SonarEvent} {turns : Nat} (h : Answering old turns s)
    (henough : turns ≤ events.countP SonarEvent.isTurn) :
    Answering old 0 (run (SonarEvent.step mq devId) s events) := by
  induction events generalizing s turns with
  | nil =>
      rw [List.countP_nil] at henough
      exact Nat.eq_zero_of_le_zero henough ▸ h
  | cons e events ih =>
      have hnext := hinv.step mq devId e
      rw [run_cons]
      cases he : e.isTurn with
      | false =>
          rw [List.countP_cons_of_neg (by simp [he])] at henough
          exact ih hnext (h.other mq devId he) henough
      | true =>
          rw [List.countP_cons_of_pos he] at henough
          cases e with
          | turn cm =>
              have hlater : Answering old (turns - 1 + 1) s := h.mono (by omega)
              exact ih hnext (hlater.turn hinv mq devId cm) (by omega)
          | trigger => cases he
          | setAngle deg => cases he
          | motor dir => cases he

/-- Nothing is left to do: the sweep is there. -/
theorem Answering.done {old : Nat} {s : SonarTask} (h : Answering old 0 s) :
    ∃ i < s.handed.length, old ≤ sonarSweepAngles * i := by
  rcases h with hdone | ⟨hplace, -, htogo⟩ | ⟨-, -, htogo⟩
  · exact hdone
  · cases hat : s.place <;> simp_all [SonarAt.togo, SonarAt.inSweep]
  · simp [sonarTurns] at htogo

/-- The task is never further from the end of its work than a sweep takes. -/
theorem SonarInv.togo_step {s : SonarTask} (h : SonarInv s) (htogo : s.place.togo ≤ sonarTurns)
    (mq : Bool) (devId : Buf 32) (e : SonarEvent) : (e.step mq devId s).place.togo ≤ sonarTurns := by
  cases e with
  | turn cm =>
      rcases eq_or_ne s.place .waiting with hwait | hwait
      · rw [SonarEvent.step, SonarTask.turn, hwait]
        dsimp only
        split
        · exact Nat.le_succ _
        · exact Nat.zero_le _
      · have hnear := h.togo_turn mq devId cm hwait
        exact (Nat.le_of_succ_le hnear.le).trans htogo
  | trigger => exact htogo
  | setAngle deg => exact htogo
  | motor dir =>
      rw [SonarEvent.step]
      split
      · exact htogo
      · exact htogo

theorem sonar_togo_run (mq : Bool) (devId : Buf 32) (events : List SonarEvent) :
    (run (SonarEvent.step mq devId) {} events).place.togo ≤ sonarTurns := by
  induction events using List.reverseRecOn with
  | nil =>
      have hstart : (SonarAt.testing selfTestAngles).togo ≤ sonarTurns := by decide
      exact hstart
  | append_singleton events e ih =>
      rw [run_append]
      exact (sonarInv_run mq devId events).togo_step ih mq devId e

/-! ### The sweeps that are begun -/

theorem Triggered.turn {triggers : Nat} {s : SonarTask} (hinv : SonarInv s) (h : Triggered triggers s)
    (mq : Bool) (devId : Buf 32) (cm : Int) : Triggered triggers (s.turn mq devId cm) := by
  have hpaid := h.paid
  have hseen := h.seen
  have hsweeping := hinv.sweeping
  unfold SonarTask.begun at hpaid
  unfold SonarTask.turn
  cases hat : s.place with
  | testing rest =>
      rw [hat] at hpaid
      cases rest with
      | nil => exact ⟨nofun, hpaid⟩
      | cons a rest => exact ⟨nofun, hpaid⟩
  | waiting =>
      rw [hat] at hpaid
      dsimp only
      split
      · next htrigger => exact ⟨fun _ => htrigger, hpaid⟩
      · exact ⟨nofun, hpaid⟩
  | seen =>
      rw [hat, hseen hat] at hpaid
      exact ⟨nofun, hpaid⟩
  | taken =>
      rw [hat] at hpaid hsweeping
      rw [SonarAt.holds, SonarAt.inSweep] at hsweeping
      · dsimp only
        rw [if_neg (by simp [hsweeping])]
        refine ⟨nofun, ?_⟩
        simp only [SonarAt.inSweep, SonarAt.claims, Bool.toNat_true, Bool.toNat_false, SonarTask.begun] at hpaid ⊢
        omega
      · nofun
  | marking a =>
      rw [hat] at hpaid
      exact ⟨nofun, hpaid⟩
  | aiming a =>
      rw [hat] at hpaid
      exact ⟨nofun, hpaid⟩
  | listening a =>
      rw [hat] at hpaid
      refine ⟨fun hnext => absurd (congrArg SonarAt.holds hnext) (by rw [SonarAt.after_holds]; nofun), ?_⟩
      dsimp only [SonarTask.begun]
      rw [SonarAt.after_inSweep, SonarAt.after_claims]
      exact hpaid
  | parking =>
      rw [hat] at hpaid
      exact ⟨nofun, hpaid⟩
  | counting =>
      rw [hat] at hpaid
      exact ⟨nofun, hpaid⟩
  | releasing =>
      rw [hat] at hpaid
      exact ⟨nofun, hpaid⟩
  | publishing =>
      rw [hat] at hpaid
      refine ⟨nofun, ?_⟩
      simp only [SonarAt.inSweep, SonarAt.claims, Bool.toNat_true, Bool.toNat_false, SonarTask.begun,
        List.length_append, List.length_singleton] at hpaid ⊢
      omega

theorem Triggered.step {triggers : Nat} {s : SonarTask} (hinv : SonarInv s) (h : Triggered triggers s)
    (mq : Bool) (devId : Buf 32) (e : SonarEvent) :
    Triggered (triggers + if e = .trigger then 1 else 0) (e.step mq devId s) := by
  cases e with
  | turn cm => exact h.turn hinv mq devId cm
  | trigger =>
      refine ⟨fun _ => rfl, ?_⟩
      have hpaid := h.paid
      have hone : s.trigger.toNat ≤ 1 := Bool.toNat_le s.trigger
      simp only [SonarEvent.step, SonarTask.begun, Bool.toNat_true, if_true] at hpaid ⊢
      omega
  | setAngle deg => exact ⟨h.seen, h.paid⟩
  | motor dir =>
      have hmotor : Triggered triggers { s with duty := servoDuty 0, meddled := true } := ⟨h.seen, h.paid⟩
      rw [if_neg nofun, SonarEvent.step]
      split
      · exact hmotor
      · exact h

theorem triggered_run (mq : Bool) (devId : Buf 32) (events : List SonarEvent) :
    Triggered (events.countP (· = .trigger)) (run (SonarEvent.step mq devId) {} events) := by
  induction events using List.reverseRecOn with
  | nil => exact ⟨nofun, Nat.le_refl _⟩
  | append_singleton events e ih =>
      have hstep := ih.step (sonarInv_run mq devId events) mq devId e
      rw [run_append, List.countP_append, List.countP_singleton]
      simp only [decide_eq_true_eq]
      exact hstep

/-- However the calls of other tasks fall between the steps of the sweep task:
there are no more sweeps than triggers, each sweep that is handed to
`publish_sweep` has 180 entries, together they are the measurements in the order
in which they were made, at most one sweep's worth of measurements is not handed
over yet, and the sweeps are numbered from 1. Entry `a` was measured at place `a`,
and with the servo at `a` degrees unless a manual command came after it was
aimed. -/
theorem sonar_sweeps_handed (mq : Bool) (devId : Buf 32) (events : List SonarEvent) :
    ∃ s, s = run (SonarEvent.step mq devId) {} events ∧
      s.begun ≤ events.countP (· = .trigger) ∧
      (∀ sonar ∈ s.handed, sonar.sweep.items.length = sonarSweepAngles) ∧
      (∃ pending, pending.length ≤ sonarSweepAngles ∧
        s.handed.flatMap (·.sweep.items) ++ pending = s.readings.map SonarReading.cm) ∧
      s.handed.map Sonar.sweepId = (List.range s.handed.length).map (fun i => Int32.ofNat (i + 1)) ∧
      (∀ i (h : i < s.readings.length), s.readings[i].angle.val = i % sonarSweepAngles) ∧
      ∀ r ∈ s.readings, r.meddled = false → r.duty = servoDuty r.angle.val := by
  have hinv := sonarInv_run mq devId events
  have hpaid := (triggered_run mq devId events).paid
  refine ⟨_, rfl, by omega, hinv.whole, ⟨_, ?_, hinv.text⟩, hinv.numbers, hinv.angles, hinv.aimed⟩
  rw [List.length_take, Vector.length_toList]
  exact Nat.min_le_right _ _

/-- No trigger is lost, wherever in the loop of the task it comes: within the steps
of two sweeps, and whatever else is called meanwhile, a sweep is handed over all
of whose entries were measured after the trigger. -/
theorem sonar_trigger_answered (mq : Bool) (devId : Buf 32) (before after : List SonarEvent)
    (henough : 2 * sonarTurns ≤ after.countP SonarEvent.isTurn) :
    ∃ i < (run (SonarEvent.step mq devId) {} (before ++ .trigger :: after)).handed.length,
      (run (SonarEvent.step mq devId) {} before).readings.length ≤ sonarSweepAngles * i := by
  have hinv := (sonarInv_run mq devId before).step mq devId .trigger
  have htogo := sonar_togo_run mq devId before
  have hanswering := SonarTask.answering (s := run (SonarEvent.step mq devId) {} before) mq devId
  rw [run_append, run_cons]
  exact (hanswering.run hinv mq devId (by omega)).done

/-- A second trigger in the middle of a sweep. -/
theorem sonar_trigger_twice :
    ∃ i < (run (SonarEvent.step true (Buf.copy 32 "esp32-02".toList)) {}
        ((.trigger :: List.replicate 300 (.turn 25)) ++ .trigger ::
          List.replicate (2 * sonarTurns) (.turn 30))).handed.length,
      (run (SonarEvent.step true (Buf.copy 32 "esp32-02".toList)) {}
        (.trigger :: List.replicate 300 (.turn 25))).readings.length ≤ sonarSweepAngles * i :=
  sonar_trigger_answered true _ _ _ (by simp [List.countP_replicate, SonarEvent.isTurn])

end Htsn.Esp32
