import WirelessTsn.Lib.Scanf
import WirelessTsn.Lib.Run

/-!
Over-the-air updates (`shared/htsn_ota/htsn_ota.c`). `esp_https_ota_finish`
makes the new image the one that boots, and only then is its CRC compared. Of
the exits of the comparison only the one for a wrong CRC points the node back
at the running image; the others leave the new one in place.

The update service, the partitions and the CRC routine of the ROM are outside
the repository: their results are inputs of the model.
-/

namespace Htsn.Esp32

open CText

inductive EspErr where
  | ok
  | fail
  | notFound
  | noMem
  | invalidArg
  | invalidState
  | invalidCrc
  | otaInProgress
  | other (code : Int32)
  deriving DecidableEq

/-- The two application partitions. -/
inductive OtaSlot where
  | running
  | update
  deriving DecidableEq

/-! ### The image -/

/-- The digits at the start of a text, as one number. -/
def hexDigits : CStr → Nat → Nat
  | [], acc => acc
  | c :: s, acc =>
      match hexVal c with
      | some d => hexDigits s (acc * 16 + d)
      | none => acc

/-- The optional `0x`, which counts only before a digit. -/
def skipHexPrefix : CStr → CStr
  | '0' :: x :: d :: s =>
      if (x = 'x' ∨ x = 'X') ∧ (hexVal d).isSome then d :: s else '0' :: x :: d :: s
  | s => s

/-- `strtoul(s, NULL, 16)`: a value that does not fit is the largest one, and
a minus sign negates modulo 2^32. -/
def strtoul16 (s : CStr) : UInt32 :=
  let read (neg : Bool) (s : CStr) : UInt32 :=
    let v := hexDigits (skipHexPrefix s) 0
    if v ≥ 2 ^ 32 then 0xFFFFFFFF else if neg then -UInt32.ofNat v else UInt32.ofNat v
  match s.dropWhile isSpace with
  | '-' :: s => read true s
  | '+' :: s => read false s
  | s => read false s

/-- The update partition: its size and what stands in it. -/
structure OtaPartition where
  size : UInt32
  byte : Nat → UInt8

/-- The `n` bytes from an offset on. -/
def OtaPartition.bytes (part : OtaPartition) (off n : Nat) : List UInt8 :=
  (List.range n).map fun i => part.byte (off + i)

/-- Bytes 8 to 11 of the header, little-endian. -/
def OtaPartition.imgSize (part : OtaPartition) : UInt32 :=
  (part.byte 8).toUInt32 ||| ((part.byte 9).toUInt32 <<< 8) ||| ((part.byte 10).toUInt32 <<< 16) |||
    ((part.byte 11).toUInt32 <<< 24)

/-- What the services around `ota_task` answer. Reads of the partition are
counted from 0, the read of the header. -/
structure OtaEnv where
  crc32 : UInt32 → List UInt8 → UInt32
  begin : EspErr
  perform : EspErr
  finish : EspErr
  part : Option OtaPartition
  readOk : Nat → Bool
  runningFound : Bool
  setBootOk : Bool

variable {env : OtaEnv} {part : OtaPartition} {hex : CStr} {boot : OtaSlot}

/-- The loop over the image, in pieces of at most 4096 bytes; `none` when a
read fails. -/
def crcLoop (env : OtaEnv) (part : OtaPartition) (size reads off : Nat) (state : UInt32) :
    Option UInt32 :=
  if _h : off < size then
    let n := min (size - off) 4096
    if env.readOk reads then
      crcLoop env part size (reads + 1) (off + n) (env.crc32 state (part.bytes off n))
    else none
  else some state
termination_by size - off
decreasing_by omega

/-- What `ota_verify_crc` finds out about the image. -/
inductive OtaCheck where
  | noPartition
  | badHeader
  | badSize
  | readFailed
  | compared (got : UInt32)
  deriving DecidableEq

/-- `ota_verify_crc` up to the comparison. -/
def otaCheck (env : OtaEnv) : OtaCheck :=
  match env.part with
  | none => .noPartition
  | some part =>
      if env.readOk 0 = false ∨ part.byte 0 ≠ 0xE9 then .badHeader
      else if part.imgSize = 0 ∨ part.imgSize > part.size then .badSize
      else
        match crcLoop env part part.imgSize.toNat 1 0 0xFFFFFFFF with
        | none => .readFailed
        | some state => .compared (state ^^^ 0xFFFFFFFF)

/-- `ota_verify_crc`, with the partition that boots afterwards. -/
def otaVerifyCrc (env : OtaEnv) (hex : CStr) (boot : OtaSlot) : EspErr × OtaSlot :=
  match otaCheck env with
  | .noPartition => (.notFound, boot)
  | .badHeader | .badSize | .readFailed => (.fail, boot)
  | .compared got =>
      if got ≠ strtoul16 hex then
        (.invalidCrc, if env.runningFound = true ∧ env.setBootOk = true then .running else boot)
      else (.ok, boot)

/-! ### The task -/

/-- The result of `begin` and `perform`. -/
def otaDownload (env : OtaEnv) : EspErr :=
  if env.begin = .ok then if env.perform = .otaInProgress then .ok else env.perform else env.begin

/-- `ota_task`: its error and the partition that boots. It restarts the node
when there is no error. -/
def otaTask (env : OtaEnv) (crc : Option CStr) (boot : OtaSlot) : EspErr × OtaSlot :=
  if otaDownload env = .ok then
    if env.finish = .ok then
      match crc with
      | some hex => otaVerifyCrc env hex .update
      | none => (.ok, .update)
    else (env.finish, boot)
  else (otaDownload env, boot)

/-- A call of `htsn_ota_start_checked`, with its allocations and the creation
of the task. -/
structure OtaRequest where
  url : CStr
  crc : Option CStr
  allocOk : Bool := true
  taskOk : Bool := true
  env : OtaEnv

/-- A node between two requests. One that restarts takes no more of them. -/
structure OtaNode where
  boot : OtaSlot := .running
  restarts : Bool := false

/-- `htsn_ota_start_checked` and the task it creates. The task is through
before another request is taken, as `g_busy` says. -/
def OtaNode.request (n : OtaNode) (r : OtaRequest) : OtaNode :=
  if n.restarts = true ∨ r.url = [] ∨ r.allocOk = false ∨ r.taskOk = false then n
  else
    let t := otaTask r.env r.crc n.boot
    { boot := t.2, restarts := t.1 = .ok }

/-- Unless the node restarts, the running image is the one that boots. -/
def OtaNode.BootsRunning (n : OtaNode) : Prop := n.restarts = true ∨ n.boot = .running

/-! ### Which updates strand the node -/

/-- A check that ends without turning the node back. -/
def OtaCheck.Strands (env : OtaEnv) (hex : CStr) : OtaCheck → Prop
  | .noPartition | .badHeader | .badSize | .readFailed => True
  | .compared got => got ≠ strtoul16 hex ∧ ¬ (env.runningFound = true ∧ env.setBootOk = true)

/-- The new image is made the one that boots and the check of its CRC ends
without a restart and without turning the node back. -/
def OtaRequest.Strands (r : OtaRequest) : Prop :=
  (r.url ≠ [] ∧ r.allocOk = true ∧ r.taskOk = true) ∧ otaDownload r.env = .ok ∧ r.env.finish = .ok ∧
    ∃ hex, r.crc = some hex ∧ (otaCheck r.env).Strands r.env hex

theorem verify_iff (env : OtaEnv) (hex : CStr) :
    ((otaVerifyCrc env hex .update).1 = .ok ∨ (otaVerifyCrc env hex .update).2 = .running) ↔
      ¬ (otaCheck env).Strands env hex := by
  rw [otaVerifyCrc]
  cases otaCheck env with
  | noPartition | badHeader | badSize | readFailed => simp [OtaCheck.Strands]
  | compared got =>
      by_cases hsame : got ≠ strtoul16 hex
      · by_cases hback : env.runningFound = true ∧ env.setBootOk = true
        · simp [OtaCheck.Strands, hsame, hback]
        · simp [OtaCheck.Strands, hsame, hback]
      · simp [OtaCheck.Strands, hsame]

theorem task_iff (env : OtaEnv) (crc : Option CStr) :
    ((otaTask env crc .running).1 = .ok ∨ (otaTask env crc .running).2 = .running) ↔
      ¬ (otaDownload env = .ok ∧ env.finish = .ok ∧
        ∃ hex, crc = some hex ∧ (otaCheck env).Strands env hex) := by
  unfold otaTask
  by_cases hload : otaDownload env = .ok
  · by_cases hfinish : env.finish = .ok
    · rw [if_pos hload, if_pos hfinish]
      cases crc with
      | none => simp
      | some hex => simp [hload, hfinish, verify_iff]
    · simp [hload, hfinish]
  · simp [hload]

/-- A request keeps the node at its running image, or restarts it, exactly
when it does not strand it. -/
theorem request_iff {n : OtaNode} (r : OtaRequest) (hn : n.BootsRunning) :
    (n.request r).BootsRunning ↔ n.restarts = true ∨ ¬ r.Strands := by
  cases hrestarts : n.restarts with
  | true => simp [OtaNode.request, OtaNode.BootsRunning, hrestarts]
  | false =>
      have hboot : n.boot = .running := hn.resolve_left (by simp [hrestarts])
      by_cases hstart : r.url ≠ [] ∧ r.allocOk = true ∧ r.taskOk = true
      · obtain ⟨hurl, halloc, htask⟩ := hstart
        simp [OtaNode.request, OtaNode.BootsRunning, OtaRequest.Strands, hrestarts, hurl, halloc, htask,
          hboot, task_iff]
      · have hskip : n.request r = n := by
          rw [OtaNode.request, if_pos]
          by_contra hno
          simp only [not_or, Bool.not_eq_false] at hno
          exact hstart ⟨hno.2.1, hno.2.2.1, hno.2.2.2⟩
        rw [hskip]
        exact iff_of_true hn (Or.inr fun h => hstart h.1)

/-- Whatever updates are requested: the running image stays the one that boots
until a restart, exactly when no update strands the node. -/
theorem boots_running_iff (rs : List OtaRequest) :
    (∀ front, front <+: rs → (Run.run OtaNode.request {} front).BootsRunning) ↔
      Run.AllSteps OtaNode.request (fun n r => n.restarts = true ∨ ¬ r.Strands) {} rs := by
  have hstart : ({} : OtaNode).BootsRunning := Or.inr rfl
  have hsteps : Run.AllSteps OtaNode.request (fun n r => (n.request r).BootsRunning) {} rs ↔
      Run.AllSteps OtaNode.request (fun n r => n.restarts = true ∨ ¬ r.Strands) {} rs :=
    @Run.allSteps_inv_iff _ _ OtaNode.request (fun n r => n.restarts = true ∨ ¬ r.Strands)
      OtaNode.BootsRunning (fun _ => True) (fun _ _ h => h) (fun _ r _ hn => request_iff r hn) _ trivial
      hstart rs
  exact (Run.forall_prefix_iff hstart).trans hsteps

/-- An update whose image has no ESP header, with an expected CRC. -/
def headlessUpdate : OtaRequest where
  url := "http://192.168.0.2/fw.bin".toList
  crc := some "DEADBEEF".toList
  env :=
    { crc32 := fun state _ => state
      begin := .ok
      perform := .ok
      finish := .ok
      part := some ⟨0x100000, fun _ => 0xFF⟩
      readOk := fun _ => true
      runningFound := true
      setBootOk := true }

/-- The node ends without a restart and would boot the image that failed the
check. -/
theorem headlessUpdate_strands :
    ¬ ∀ front, front <+: [headlessUpdate] → (Run.run OtaNode.request {} front).BootsRunning := by
  intro h
  have hboots := h [headlessUpdate] (List.prefix_refl _)
  have hcheck : otaCheck headlessUpdate.env = .badHeader := by decide
  have hstrands : headlessUpdate.Strands :=
    ⟨by decide, by decide, by decide, "DEADBEEF".toList, rfl, by rw [hcheck]; trivial⟩
  rcases (@request_iff {} headlessUpdate (Or.inr rfl)).mp hboots with hrestart | hno
  · cases hrestart
  · exact hno hstrands

/-! ### The calls of the task -/

/-- A call of `ota_task`, with what comes back. -/
inductive OtaCall where
  | begin (r : EspErr)
  | perform (r : EspErr)
  | finish (r : EspErr)
  | verify (r : EspErr)
  | restart
  deriving DecidableEq

/-- There is one call of `perform`, and no loop around it. -/
def downloadCalls (env : OtaEnv) : List OtaCall :=
  .begin env.begin :: if env.begin = .ok then [.perform env.perform] else []

def installCalls (env : OtaEnv) (crc : Option CStr) : List OtaCall :=
  if otaDownload env = .ok then
    .finish env.finish ::
      match crc with
      | some hex => if env.finish = .ok then [.verify (otaVerifyCrc env hex .update).1] else []
      | none => []
  else []

/-- `ota_task`, as the calls it makes. -/
def otaCalls (env : OtaEnv) (crc : Option CStr) : List OtaCall :=
  downloadCalls env ++ installCalls env crc ++
    if (otaTask env crc .running).1 = .ok then [.restart] else []

/-- The calls of `perform` that a transfer needs: some that answer that more is
to come, and one that is the last. -/
structure OtaTransfer where
  more : Nat
  last : EspErr
  complete : last ≠ .otaInProgress

def OtaTransfer.performs (t : OtaTransfer) : Nat := t.more + 1

/-- What call number `i` of `perform` answers. -/
def OtaTransfer.answer (t : OtaTransfer) (i : Nat) : EspErr :=
  if i < t.more then .otaInProgress else t.last

/-- The same services with a transfer to make. -/
def OtaEnv.over (env : OtaEnv) (t : OtaTransfer) : OtaEnv := { env with perform := t.answer 0 }

/-- `finish` is called behind a `perform` that succeeded, and the node restarts
only when that, `finish` and the check of the CRC, if there is one, did. -/
structure WholeImage (crc : Option CStr) (calls : List OtaCall) : Prop where
  finish : ∀ before r after, calls = before ++ .finish r :: after → .perform .ok ∈ before
  restart : .restart ∈ calls →
    .perform .ok ∈ calls ∧ .finish .ok ∈ calls ∧ (crc ≠ none → .verify .ok ∈ calls)

variable {crc : Option CStr} {t : OtaTransfer}

theorem mem_downloadCalls {c : OtaCall} :
    c ∈ downloadCalls env ↔ c = .begin env.begin ∨ env.begin = .ok ∧ c = .perform env.perform := by
  unfold downloadCalls
  by_cases hbegin : env.begin = .ok
  · simp [hbegin]
  · simp [hbegin]

/-- A restart is behind the install, whose checks all succeeded. -/
theorem install_of_restart (h : (otaTask env crc .running).1 = .ok) :
    .finish .ok ∈ installCalls env crc ∧ (crc ≠ none → .verify .ok ∈ installCalls env crc) := by
  unfold otaTask at h
  split at h
  · rename_i hload
    split at h
    · rename_i hfinish
      unfold installCalls
      rw [if_pos hload, hfinish]
      refine ⟨List.mem_cons_self, fun hcrc => ?_⟩
      cases crc with
      | none => exact absurd rfl hcrc
      | some hex =>
          have hverify : (otaVerifyCrc env hex .update).1 = .ok := h
          simp [hverify]
    · rename_i hfinish
      exact absurd h hfinish
  · rename_i hload
    exact absurd h hload

/-- A download that went well, with an answer that says so. -/
theorem wholeImage_of_performed (h : .perform .ok ∈ downloadCalls env) : WholeImage crc (otaCalls env crc) := by
  constructor
  · intro before r after hcalls
    have hnone : OtaCall.finish r ∉ downloadCalls env := by
      rw [mem_downloadCalls]
      rintro (hbegin | ⟨-, hperform⟩)
      · cases hbegin
      · cases hperform
    rw [otaCalls, List.append_assoc, List.append_eq_append_iff] at hcalls
    rcases hcalls with ⟨front, rfl, -⟩ | ⟨back, hdown, hback⟩
    · exact List.mem_append_left front h
    · cases back with
      | nil =>
          rw [List.append_nil] at hdown
          exact hdown ▸ h
      | cons c back =>
          rw [List.cons_append, List.cons.injEq] at hback
          exact absurd (by simp [hdown, hback.1]) hnone
  · intro hrestart
    have hok : (otaTask env crc .running).1 = .ok := by
      by_contra hno
      rw [otaCalls, if_neg hno, List.append_nil, List.mem_append, mem_downloadCalls] at hrestart
      rcases hrestart with (hbegin | ⟨-, hperform⟩) | hinstall
      · cases hbegin
      · cases hperform
      · unfold installCalls at hinstall
        split at hinstall
        · cases crc with
          | none => simp at hinstall
          | some hex => split at hinstall <;> simp at hinstall
        · cases hinstall
    obtain ⟨hfinish, hverify⟩ := install_of_restart hok
    rw [otaCalls]
    refine ⟨?_, ?_, fun hcrc => ?_⟩
    · exact List.mem_append_left _ (List.mem_append_left _ h)
    · exact List.mem_append_left _ (List.mem_append_right _ hfinish)
    · exact List.mem_append_left _ (List.mem_append_right _ (hverify hcrc))

/-- Without an image nothing is installed. -/
theorem wholeImage_of_failed (h : otaDownload env ≠ .ok) : WholeImage crc (otaCalls env crc) := by
  have hcalls : otaCalls env crc = downloadCalls env := by
    have htask : otaTask env crc .running = (otaDownload env, .running) := if_neg h
    have hinstall : installCalls env crc = [] := if_neg h
    rw [otaCalls, hinstall, htask, if_neg h, List.append_nil, List.append_nil]
  rw [hcalls]
  constructor
  · intro before r after hsplit
    have hmem : OtaCall.finish r ∈ downloadCalls env := by simp [hsplit]
    rw [mem_downloadCalls] at hmem
    rcases hmem with hbegin | ⟨-, hperform⟩
    · cases hbegin
    · cases hperform
  · intro hrestart
    rw [mem_downloadCalls] at hrestart
    rcases hrestart with hbegin | ⟨-, hperform⟩
    · cases hbegin
    · cases hperform

/-- An answer that more is to come is taken for the end of the download. -/
theorem not_wholeImage (hbegin : env.begin = .ok) (hperform : env.perform = .otaInProgress) :
    ¬ WholeImage crc (otaCalls env crc) := by
  have hload : otaDownload env = .ok := by rw [otaDownload, if_pos hbegin, if_pos hperform]
  intro h
  have hcalls : ∃ after, otaCalls env crc = downloadCalls env ++ .finish env.finish :: after := by
    unfold otaCalls installCalls
    rw [if_pos hload, List.append_assoc, List.cons_append]
    exact ⟨_, rfl⟩
  obtain ⟨after, hafter⟩ := hcalls
  have hmem := h.finish _ _ _ hafter
  rw [mem_downloadCalls, hperform] at hmem
  rcases hmem with hbegin' | ⟨-, hperform'⟩
  · cases hbegin'
  · cases hperform'

/-- For every transfer and all answers of the services: the task installs and
boots whole images only exactly when the download cannot begin or one call of
`perform` is the whole transfer. -/
theorem wholeImage_iff (env : OtaEnv) (t : OtaTransfer) (crc : Option CStr) :
    WholeImage crc (otaCalls (env.over t) crc) ↔ env.begin ≠ .ok ∨ t.performs = 1 := by
  have hbegin' : (env.over t).begin = env.begin := rfl
  have hperform' : (env.over t).perform = t.answer 0 := rfl
  by_cases hbegin : env.begin = .ok
  · by_cases hone : t.performs = 1
    · have hanswer : t.answer 0 = t.last := by
        have hmore : t.more = 0 := Nat.succ_injective hone
        rw [OtaTransfer.answer, hmore, if_neg (Nat.lt_irrefl 0)]
      refine iff_of_true ?_ (Or.inr hone)
      by_cases hlast : t.last = .ok
      · apply wholeImage_of_performed
        rw [mem_downloadCalls, hbegin', hperform', hanswer, hlast]
        exact Or.inr ⟨hbegin, rfl⟩
      · apply wholeImage_of_failed
        rw [otaDownload, hbegin', if_pos hbegin, hperform', hanswer, if_neg t.complete]
        exact hlast
    · have hanswer : t.answer 0 = .otaInProgress := by
        have hmore : 0 < t.more := Nat.pos_of_ne_zero fun hzero => hone (by rw [OtaTransfer.performs, hzero])
        exact if_pos hmore
      refine iff_of_false (not_wholeImage (hbegin'.trans hbegin) (hperform'.trans hanswer)) ?_
      rintro (hno | hone')
      · exact hno hbegin
      · exact hone hone'
  · refine iff_of_true (wholeImage_of_failed ?_) (Or.inl hbegin)
    rw [otaDownload, hbegin', if_neg hbegin]
    exact hbegin

/-- A transfer of two calls. -/
def twoPieces : OtaTransfer := ⟨1, .ok, by decide⟩

theorem twoPieces_not_wholeImage :
    ¬ ∀ (env : OtaEnv) (t : OtaTransfer) (crc : Option CStr), WholeImage crc (otaCalls (env.over t) crc) :=
  fun h => not_wholeImage rfl rfl (h headlessUpdate.env twoPieces none)

end Htsn.Esp32
