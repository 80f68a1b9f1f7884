import WirelessTsn.Lib.Run

/-!
Recording and replay of the camera node (`esp32-cam/main/camera_app.c`). There
is one table of frame offsets. A recording fills it while it runs and names
its own file only at the end, so until then the table already belongs to a
clip that the path does not name yet; and a replay that is under way keeps its
file while the next recording writes over the entries it has still to read.

A clip is known by its number, which its path contains. Writes to the card
succeed. Each entry of the table is kept with the clip it was written for.
-/

namespace Htsn.Cam

/-- `LAST_CLIP_MAX_FRAMES` -/
def lastClipMaxFrames : Nat := 2400

structure ClipEntry where
  off : UInt32 := 0
  len : UInt32 := 0
  clip : Option Nat := none
  deriving DecidableEq

/-- Where `record_task` is: at its loop, behind `fclose`, or between the
assignments of `g_last_clip_frames` and `g_last_clip_path`. -/
inductive Recorder where
  | idle
  | capturing (clip : Nat) (running : UInt32) (nframes : Nat)
  | closed (clip nframes : Nat)
  | counted (clip : Nat)
  deriving DecidableEq

/-- A run of `replay_handler`: the clip it has opened and its loop counter. -/
structure Replay where
  clip : Nat
  next : Nat
  deriving DecidableEq

structure SentFrame where
  clip : Nat
  index : Nat
  entry : ClipEntry
  deriving DecidableEq

/-- `files` has the lengths of the frames in the file of each clip. -/
structure CamClips where
  mounted : Bool := true
  recIndex : Nat := 0
  files : Nat → List UInt32 := fun _ => []
  table : Nat → ClipEntry := fun _ => {}
  lastFrames : Nat := 0
  lastClip : Option Nat := none
  recorder : Recorder := .idle
  replay : Option Replay := none
  sent : List SentFrame := []

/-- A recording starts, captures a frame, leaves its loop, and makes its two
assignments; a replay opens its file, and comes to its next frame, where `ok`
says whether `fseek` and the header went through. -/
inductive ClipEvent where
  | recStart (openOk : Bool)
  | frame (len : UInt32)
  | recClose
  | setFrames
  | setPath
  | replayOpen (openOk : Bool)
  | replayFrame (ok : Bool)

variable {n : CamClips}

def CamClips.recStart (n : CamClips) (openOk : Bool) : CamClips :=
  if n.mounted = true ∧ n.recorder = .idle then
    { n with
      recIndex := n.recIndex + 1
      recorder := if openOk then .capturing (n.recIndex + 1) 0 0 else .idle }
  else n

def CamClips.frame (n : CamClips) (len : UInt32) : CamClips :=
  match n.recorder with
  | .capturing clip running nframes =>
      if len = 0 then n
      else if nframes < lastClipMaxFrames then
        { n with
          files := Function.update n.files clip (n.files clip ++ [len])
          table := Function.update n.table nframes ⟨running, len, some clip⟩
          recorder := .capturing clip (running + len) (nframes + 1) }
      else
        { n with
          files := Function.update n.files clip (n.files clip ++ [len])
          recorder := .capturing clip (running + len) nframes }
  | _ => n

def CamClips.replayOpen (n : CamClips) (openOk : Bool) : CamClips :=
  if n.replay = none ∧ n.mounted = true ∧ n.lastFrames > 0 then
    match n.lastClip with
    | some clip => { n with replay := if openOk then some ⟨clip, 0⟩ else none }
    | none => n
  else n

def CamClips.replayFrame (n : CamClips) (ok : Bool) : CamClips :=
  match n.replay with
  | none => n
  | some r =>
      if r.next < n.lastFrames ∧ ok = true then
        { n with
          sent := n.sent ++ [⟨r.clip, r.next, n.table r.next⟩]
          replay := some ⟨r.clip, r.next + 1⟩ }
      else { n with replay := none }

/-- `record_task`, of which one runs at a time, and `replay_handler`. -/
def CamClips.step (n : CamClips) : ClipEvent → CamClips
  | .recStart openOk => n.recStart openOk
  | .frame len => n.frame len
  | .recClose =>
      match n.recorder with
      | .capturing clip _ nframes => { n with recorder := .closed clip nframes }
      | _ => n
  | .setFrames =>
      match n.recorder with
      | .closed clip nframes => { n with lastFrames := nframes, recorder := .counted clip }
      | _ => n
  | .setPath =>
      match n.recorder with
      | .counted clip => { n with lastClip := some clip, recorder := .idle }
      | _ => n
  | .replayOpen openOk => n.replayOpen openOk
  | .replayFrame ok => n.replayFrame ok

/-- Offset and length of a frame in a file. -/
def frameRange (frames : List UInt32) (i : Nat) : UInt32 × UInt32 :=
  ((frames.take i).foldl (· + ·) 0, frames.getD i 0)

/-- What was sent is the frame of that number of the clip that was opened. -/
def SentFrame.Right (n : CamClips) (s : SentFrame) : Prop :=
  s.entry.clip = some s.clip ∧ (s.entry.off, s.entry.len) = frameRange (n.files s.clip) s.index

/-- At a frame that is sent, no clip after the opened one has got as far. -/
def NotOvertaken (n : CamClips) (e : ClipEvent) : Prop :=
  ∀ r, e = .replayFrame true → n.replay = some r → r.next < n.lastFrames →
    ∀ clip, r.clip < clip → (n.files clip).length ≤ r.next

/-! ### What the table holds -/

/-- The clip that captures, if one does, is the newest, and has filled the
table as far as it fits. -/
def Recorder.Fits (n : CamClips) : Recorder → Prop
  | .idle => True
  | .capturing clip running nframes =>
      clip = n.recIndex ∧ nframes = min (n.files clip).length lastClipMaxFrames ∧
        running = (n.files clip).foldl (· + ·) 0
  | .closed clip nframes =>
      clip = n.recIndex ∧ nframes = min (n.files clip).length lastClipMaxFrames
  | .counted clip => clip = n.recIndex

/-- The clip whose frames were counted last. -/
structure Counted (n : CamClips) (clip : Nat) : Prop where
  frames : n.lastFrames = min (n.files clip).length lastClipMaxFrames
  le : clip ≤ n.recIndex
  before : ∀ c running k, n.recorder = .capturing c running k → clip < c
  counted : ∀ c, n.recorder = .counted c → clip = c
  path : ∀ c, n.lastClip = some c → c ≤ clip
  replay : ∀ r, n.replay = some r → r.clip ≤ clip

structure ClipsInv (n : CamClips) : Prop where
  future : ∀ c, n.recIndex < c → n.files c = []
  owner : ∀ i < lastClipMaxFrames, ∀ c, (n.table i).clip = some c ↔
    i < (n.files c).length ∧ ∀ c', c < c' → (n.files c').length ≤ i
  range : ∀ i c, (n.table i).clip = some c →
    i < (n.files c).length ∧ ((n.table i).off, (n.table i).len) = frameRange (n.files c) i
  recorder : n.recorder.Fits n
  counted : ∃ clip, Counted n clip
  sent : ∀ s ∈ n.sent, ∀ c, s.entry.clip = some c →
    s.index < (n.files c).length ∧ (s.entry.off, s.entry.len) = frameRange (n.files c) s.index

theorem frameRange_append {frames : List UInt32} {i : Nat} (h : i < frames.length) (len : UInt32) :
    frameRange (frames ++ [len]) i = frameRange frames i := by
  rw [frameRange, frameRange, List.take_append_of_le_length (by omega), List.getD_eq_getElem?_getD,
    List.getD_eq_getElem?_getD, List.getElem?_append_left h]

theorem frameRange_last (frames : List UInt32) (len : UInt32) :
    frameRange (frames ++ [len]) frames.length = (frames.foldl (· + ·) 0, len) := by
  simp [frameRange]

/-- A frame stays where it is while frames are added behind it. -/
theorem range_update {files : Nat → List UInt32} {clip c i : Nat} {p : UInt32 × UInt32} {len : UInt32}
    (h : i < (files c).length ∧ p = frameRange (files c) i) :
    i < (Function.update files clip (files clip ++ [len]) c).length ∧
      p = frameRange (Function.update files clip (files clip ++ [len]) c) i := by
  by_cases hc : c = clip
  · subst hc
    rw [Function.update_self, frameRange_append h.1, List.length_append]
    exact ⟨by omega, h.2⟩
  · rwa [Function.update_of_ne hc]

theorem inv_init (mounted : Bool) : ClipsInv { mounted } := by
  refine ⟨fun c _ => rfl, fun i _ c => ?_, fun i c h => (by cases h), trivial, ⟨0, ?_⟩, fun s h => (by cases h)⟩
  · exact iff_of_false (fun h => (by cases h)) fun h => absurd h.1 (Nat.not_lt_zero i)
  · refine ⟨rfl, le_refl 0, ?_, ?_, ?_, ?_⟩
    · intro c running k h
      cases h
    · intro c h
      cases h
    · intro c h
      cases h
    · intro r h
      cases h

/-! ### Steps -/

theorem recStart_inv (h : ClipsInv n) (openOk : Bool) : ClipsInv (n.recStart openOk) := by
  unfold CamClips.recStart
  split
  · rename_i hidle
    obtain ⟨clip, hcounted⟩ := h.counted
    have hnew : n.files (n.recIndex + 1) = [] := h.future _ (Nat.lt_succ_self _)
    refine ⟨fun c hc => h.future c (Nat.lt_of_succ_lt hc), h.owner, h.range, ?_, ⟨clip, ?_⟩, h.sent⟩
    · cases openOk with
      | false => trivial
      | true => exact ⟨rfl, by simp [hnew], by simp [hnew]⟩
    · refine ⟨hcounted.frames, Nat.le_succ_of_le hcounted.le, ?_, ?_, hcounted.path, hcounted.replay⟩
      · intro c running k hrec
        cases openOk with
        | false => cases hrec
        | true =>
            obtain ⟨rfl, -, -⟩ := Recorder.capturing.inj hrec
            exact Nat.lt_succ_of_le hcounted.le
      · intro c hrec
        cases openOk with
        | false => cases hrec
        | true => cases hrec
  · exact h

/-- The frame that is captured is the newest clip's, and the first of its
number from then on. -/
theorem owner_update {clip nframes : Nat} {running len : UInt32} (h : ClipsInv n)
    (hnewest : clip = n.recIndex) (hnframes : nframes = (n.files clip).length) :
    ∀ i < lastClipMaxFrames, ∀ c,
      (Function.update n.table nframes ⟨running, len, some clip⟩ i).clip = some c ↔
        i < (Function.update n.files clip (n.files clip ++ [len]) c).length ∧
          ∀ c', c < c' → (Function.update n.files clip (n.files clip ++ [len]) c').length ≤ i := by
  intro i hi c
  have hlen : ∀ c', (Function.update n.files clip (n.files clip ++ [len]) c').length =
      if c' = clip then (n.files clip).length + 1 else (n.files c').length := by
    intro c'
    by_cases hc : c' = clip
    · subst hc
      simp
    · rw [Function.update_of_ne hc, if_neg hc]
  have hfuture : ∀ c', clip < c' → (n.files c').length = 0 := by
    intro c' hc'
    rw [h.future c' (hnewest ▸ hc')]
    rfl
  simp only [hlen]
  by_cases hhere : i = nframes
  · subst hhere
    rw [Function.update_self]
    simp only [Option.some_inj]
    constructor
    · rintro rfl
      refine ⟨by rw [if_pos rfl]; omega, fun c' hc' => ?_⟩
      rw [if_neg (by omega), hfuture c' hc']
      omega
    · rintro ⟨hc, hlater⟩
      by_contra hne
      rw [if_neg (Ne.symm hne)] at hc
      rcases Nat.lt_or_gt_of_ne hne with hlt | hlt
      · have hnone := hfuture c hlt
        omega
      · have hat := hlater clip hlt
        rw [if_pos rfl] at hat
        omega
  · rw [Function.update_of_ne hhere, h.owner i hi c]
    have hsame : ∀ c', (i < if c' = clip then (n.files clip).length + 1 else (n.files c').length) ↔
        i < (n.files c').length := by
      intro c'
      split
      · rename_i hc
        rw [hc]
        omega
      · exact Iff.rfl
    simp only [← Nat.not_lt, hsame]

theorem foldl_append_one (frames : List UInt32) (len : UInt32) :
    (frames ++ [len]).foldl (· + ·) 0 = frames.foldl (· + ·) 0 + len := by simp

/-- The counted clip is complete: a frame of the newest one leaves it. -/
theorem counted_frame {clip nframes : Nat} {running len : UInt32} {m : CamClips} {k : Nat} {c : Nat}
    (hcounted : Counted n c) (hrec : n.recorder = .capturing clip running nframes)
    (hfiles : m.files = Function.update n.files clip (n.files clip ++ [len]))
    (hrecIndex : m.recIndex = n.recIndex) (hlast : m.lastFrames = n.lastFrames)
    (hrecorder : m.recorder = .capturing clip (running + len) k) (hpath : m.lastClip = n.lastClip)
    (hreplay : m.replay = n.replay) : Counted m c := by
  have hbefore := hcounted.before clip running nframes hrec
  refine ⟨?_, ?_, ?_, ?_, ?_, ?_⟩
  · rw [hlast, hfiles, Function.update_of_ne (by omega)]
    exact hcounted.frames
  · rw [hrecIndex]
    exact hcounted.le
  · intro c' running' k' hrec'
    rw [hrecorder] at hrec'
    obtain ⟨rfl, -, -⟩ := Recorder.capturing.inj hrec'
    exact hbefore
  · intro c' hrec'
    rw [hrecorder] at hrec'
    cases hrec'
  · rw [hpath]
    exact hcounted.path
  · rw [hreplay]
    exact hcounted.replay

/-- A frame behind the end of the table changes no entry. -/
theorem owner_full {clip : Nat} {len : UInt32} (h : ClipsInv n)
    (hfull : lastClipMaxFrames ≤ (n.files clip).length) :
    ∀ i < lastClipMaxFrames, ∀ c, (n.table i).clip = some c ↔
      i < (Function.update n.files clip (n.files clip ++ [len]) c).length ∧
        ∀ c', c < c' → (Function.update n.files clip (n.files clip ++ [len]) c').length ≤ i := by
  intro i hi c
  have hsame : ∀ c', i < (Function.update n.files clip (n.files clip ++ [len]) c').length ↔
      i < (n.files c').length := by
    intro c'
    by_cases hc : c' = clip
    · subst hc
      rw [Function.update_self, List.length_append]
      simp only [List.length_singleton]
      omega
    · rw [Function.update_of_ne hc]
  simp only [← Nat.not_lt, hsame]
  simpa only [Nat.not_lt] using h.owner i hi c

theorem future_update {clip : Nat} {len : UInt32} (h : ClipsInv n) (hnewest : clip = n.recIndex) :
    ∀ c, n.recIndex < c → Function.update n.files clip (n.files clip ++ [len]) c = [] := by
  intro c hc
  rw [Function.update_of_ne (by omega)]
  exact h.future c hc

theorem frame_inv (h : ClipsInv n) (len : UInt32) : ClipsInv (n.frame len) := by
  unfold CamClips.frame
  split
  · rename_i clip running nframes hrec
    have hfits := h.recorder
    rw [hrec] at hfits
    obtain ⟨hnewest, hnframes, hrunning⟩ := hfits
    obtain ⟨c, hcounted⟩ := h.counted
    split
    · exact h
    split
    · rename_i hroom
      have hall : nframes = (n.files clip).length := by omega
      refine ⟨future_update h hnewest, owner_update h hnewest hall, fun i c' howner => ?_, ?_,
        ⟨c, counted_frame hcounted hrec rfl rfl rfl rfl rfl rfl⟩,
        fun s hs c' hc' => range_update (h.sent s hs c' hc')⟩
      · by_cases hhere : i = nframes
        · subst hhere
          simp only [Function.update_self, Option.some_inj] at howner ⊢
          subst howner
          rw [Function.update_self, hall, hrunning, frameRange_last]
          exact ⟨by simp, rfl⟩
        · simp only [Function.update_of_ne hhere] at howner ⊢
          exact range_update (h.range i c' howner)
      · show clip = n.recIndex ∧ _
        simp only [Function.update_self, foldl_append_one, List.length_append, List.length_singleton,
          hrunning]
        exact ⟨hnewest, by omega, trivial⟩
    · rename_i hroom
      refine ⟨future_update h hnewest, owner_full h (by omega),
        fun i c' howner => range_update (h.range i c' howner), ?_,
        ⟨c, counted_frame hcounted hrec rfl rfl rfl rfl rfl rfl⟩,
        fun s hs c' hc' => range_update (h.sent s hs c' hc')⟩
      show clip = n.recIndex ∧ _
      simp only [Function.update_self, foldl_append_one, List.length_append, List.length_singleton,
        hrunning]
      exact ⟨hnewest, by omega, trivial⟩
  · exact h

theorem replayOpen_inv (h : ClipsInv n) (openOk : Bool) : ClipsInv (n.replayOpen openOk) := by
  unfold CamClips.replayOpen
  split
  · split
    · rename_i clip hpath
      obtain ⟨c, hcounted⟩ := h.counted
      refine ⟨h.future, h.owner, h.range, h.recorder, ⟨c, ?_⟩, h.sent⟩
      refine ⟨hcounted.frames, hcounted.le, hcounted.before, hcounted.counted, hcounted.path, ?_⟩
      intro r hr
      cases openOk with
      | false => cases hr
      | true =>
          obtain rfl := Option.some_inj.mp hr
          exact hcounted.path clip hpath
    · exact h
  · exact h

theorem replayFrame_inv (h : ClipsInv n) (ok : Bool) : ClipsInv (n.replayFrame ok) := by
  obtain ⟨c, hcounted⟩ := h.counted
  unfold CamClips.replayFrame
  split
  · exact h
  · rename_i r hreplay
    split
    · refine ⟨h.future, h.owner, h.range, h.recorder, ⟨c, ?_⟩, fun s hs => ?_⟩
      · refine ⟨hcounted.frames, hcounted.le, hcounted.before, hcounted.counted, hcounted.path, ?_⟩
        intro r' hr'
        obtain rfl := Option.some_inj.mp hr'
        exact hcounted.replay r hreplay
      · rcases List.mem_append.mp hs with hs | hs
        · exact h.sent s hs
        · obtain rfl := List.mem_singleton.mp hs
          exact h.range r.next
    · refine ⟨h.future, h.owner, h.range, h.recorder, ⟨c, ?_⟩, h.sent⟩
      refine ⟨hcounted.frames, hcounted.le, hcounted.before, hcounted.counted, hcounted.path, ?_⟩
      intro r' hr'
      cases hr'

/-- Every step keeps the table and the counts as they should be. -/
theorem step_inv (h : ClipsInv n) (e : ClipEvent) : ClipsInv (n.step e) := by
  obtain ⟨c, hcounted⟩ := h.counted
  cases e with
  | recStart openOk => exact recStart_inv h openOk
  | frame len => exact frame_inv h len
  | replayOpen openOk => exact replayOpen_inv h openOk
  | replayFrame ok => exact replayFrame_inv h ok
  | recClose =>
      unfold CamClips.step
      dsimp only
      split
      · rename_i clip running nframes hrec
        have hfits := h.recorder
        rw [hrec] at hfits
        refine ⟨h.future, h.owner, h.range, ⟨hfits.1, hfits.2.1⟩, ⟨c, ?_⟩, h.sent⟩
        exact ⟨hcounted.frames, hcounted.le, fun c' r k h => (by cases h), fun c' h => (by cases h),
          hcounted.path, hcounted.replay⟩
      · exact h
  | setFrames =>
      unfold CamClips.step
      dsimp only
      split
      · rename_i clip nframes hrec
        have hfits := h.recorder
        rw [hrec] at hfits
        obtain ⟨hnewest, hnframes⟩ := hfits
        refine ⟨h.future, h.owner, h.range, hnewest, ⟨clip, ?_⟩, h.sent⟩
        refine ⟨hnframes, le_of_eq hnewest, fun c' r k h => (by cases h), fun c' h => ?_, ?_, ?_⟩
        · exact Recorder.counted.inj h
        · intro p hp
          exact (hcounted.path p hp).trans (hcounted.le.trans (le_of_eq hnewest.symm))
        · intro r hr
          exact (hcounted.replay r hr).trans (hcounted.le.trans (le_of_eq hnewest.symm))
      · exact h
  | setPath =>
      unfold CamClips.step
      dsimp only
      split
      · rename_i clip hrec
        refine ⟨h.future, h.owner, h.range, trivial, ⟨c, ?_⟩, h.sent⟩
        refine ⟨hcounted.frames, hcounted.le, fun c' r k h => (by cases h), fun c' h => (by cases h), ?_,
          hcounted.replay⟩
        intro p hp
        obtain rfl := Option.some_inj.mp hp
        exact le_of_eq (hcounted.counted clip hrec).symm
      · exact h

/-! ### What is sent -/

/-- The next frame of a replay is the opened clip's exactly when no later clip
has got as far. -/
theorem next_right_iff (h : ClipsInv n) {r : Replay} (hreplay : n.replay = some r)
    (hnext : r.next < n.lastFrames) :
    SentFrame.Right n ⟨r.clip, r.next, n.table r.next⟩ ↔
      ∀ clip, r.clip < clip → (n.files clip).length ≤ r.next := by
  obtain ⟨c, hcounted⟩ := h.counted
  have hframes := hcounted.frames
  have howner := h.owner r.next (by omega) r.clip
  constructor
  · intro hright
    exact (howner.mp hright.1).2
  · intro hlater
    have hopened : r.clip = c := by
      by_contra hne
      have hle := hcounted.replay r hreplay
      have hpast := hlater c (by omega)
      omega
    have hin : r.next < (n.files r.clip).length := by
      rw [hopened]
      omega
    exact ⟨howner.mpr ⟨hin, hlater⟩, (h.range r.next r.clip (howner.mpr ⟨hin, hlater⟩)).2⟩

/-- For a frame that was sent the entry's clip decides: its range is that of
the clip it was written for. -/
theorem right_iff (h : ClipsInv n) {s : SentFrame} (hs : s ∈ n.sent) :
    s.Right n ↔ s.entry.clip = some s.clip :=
  ⟨fun hright => hright.1, fun hclip => ⟨hclip, (h.sent s hs s.clip hclip).2⟩⟩

/-- A step sends at most the next frame of the replay. -/
theorem step_sent (n : CamClips) (e : ClipEvent) :
    (n.step e).sent = n.sent ∧ (∀ r, e = .replayFrame true → n.replay = some r → ¬ r.next < n.lastFrames) ∨
      ∃ r, e = .replayFrame true ∧ n.replay = some r ∧ r.next < n.lastFrames ∧
        (n.step e).sent = n.sent ++ [⟨r.clip, r.next, n.table r.next⟩] := by
  cases e with
  | replayFrame ok =>
      cases hreplay : n.replay with
      | none => exact Or.inl ⟨by simp [CamClips.step, CamClips.replayFrame, hreplay], by simp⟩
      | some r =>
          by_cases hsent : r.next < n.lastFrames ∧ ok = true
          · obtain ⟨hnext, rfl⟩ := hsent
            exact Or.inr ⟨r, rfl, rfl, hnext, by simp [CamClips.step, CamClips.replayFrame, hreplay, hnext]⟩
          · refine Or.inl ⟨by simp only [CamClips.step, CamClips.replayFrame, hreplay, hsent, if_false], ?_⟩
            rintro r' he hr' hnext
            obtain rfl := Option.some_inj.mp hr'
            exact hsent ⟨hnext, ClipEvent.replayFrame.inj he⟩
  | recStart openOk =>
      refine Or.inl ⟨?_, fun r he => (by cases he)⟩
      unfold CamClips.step CamClips.recStart
      dsimp only
      split <;> rfl
  | frame len =>
      refine Or.inl ⟨?_, fun r he => (by cases he)⟩
      unfold CamClips.step CamClips.frame
      dsimp only
      split
      · split
        · rfl
        split <;> rfl
      · rfl
  | recClose | setFrames | setPath =>
      refine Or.inl ⟨?_, fun r he => (by cases he)⟩
      unfold CamClips.step
      dsimp only
      split <;> rfl
  | replayOpen openOk =>
      refine Or.inl ⟨?_, fun r he => (by cases he)⟩
      unfold CamClips.step CamClips.replayOpen
      dsimp only
      split
      · split <;> rfl
      · rfl

theorem step_right_iff (h : ClipsInv n) (e : ClipEvent) :
    (∀ s ∈ (n.step e).sent, s.Right (n.step e)) ↔ (∀ s ∈ n.sent, s.Right n) ∧ NotOvertaken n e := by
  have hnext := step_inv h e
  have hclip : (∀ s ∈ (n.step e).sent, s.Right (n.step e)) ↔
      ∀ s ∈ (n.step e).sent, s.entry.clip = some s.clip :=
    forall₂_congr fun s hs => right_iff hnext hs
  have hclip' : (∀ s ∈ n.sent, s.Right n) ↔ ∀ s ∈ n.sent, s.entry.clip = some s.clip :=
    forall₂_congr fun s hs => right_iff h hs
  rw [hclip, hclip']
  rcases step_sent n e with ⟨hsame, hnone⟩ | ⟨r, rfl, hreplay, hr, hsent⟩
  · rw [hsame]
    exact ⟨fun hall => ⟨hall, fun r he hreplay hr => absurd hr (hnone r he hreplay)⟩, fun hall => hall.1⟩
  · have hover : NotOvertaken n (.replayFrame true) ↔
        SentFrame.Right n ⟨r.clip, r.next, n.table r.next⟩ := by
      rw [next_right_iff h hreplay hr]
      constructor
      · exact fun hover => hover r rfl hreplay hr
      · intro hlater r' _ hreplay' _
        obtain rfl := Option.some_inj.mp (hreplay.symm.trans hreplay')
        exact hlater
    have hrange : SentFrame.Right n ⟨r.clip, r.next, n.table r.next⟩ ↔
        (n.table r.next).clip = some r.clip :=
      ⟨fun hright => hright.1, fun hclip => ⟨hclip, (h.range r.next r.clip hclip).2⟩⟩
    rw [hsent, hover, hrange]
    simp [or_imp, forall_and]

theorem run_inv (mounted : Bool) (evs : List ClipEvent) :
    ClipsInv (Run.run CamClips.step { mounted } evs) :=
  @Run.run_invariant _ _ CamClips.step ClipsInv (fun _ e h => step_inv h e) _ (inv_init mounted) evs

/-- Over every interleaving: all frames sent are those of the opened clips
exactly when no replay is overtaken by a later recording. -/
theorem replay_serves_one_clip_iff (mounted : Bool) (evs : List ClipEvent) :
    (∀ s ∈ (Run.run CamClips.step { mounted } evs).sent,
      s.Right (Run.run CamClips.step { mounted } evs)) ↔
      Run.AllAfter (fun before e => NotOvertaken (Run.run CamClips.step { mounted } before) e) evs := by
  refine @Run.iff_allAfter _ _ (fun evs => ∀ s ∈ (Run.run CamClips.step { mounted } evs).sent,
    s.Right (Run.run CamClips.step { mounted } evs)) (fun s hs => (by cases hs)) (fun evs e => ?_) evs
  rw [Run.run_append]
  exact step_right_iff (run_inv mounted evs) e

/-- A clip of one frame, opened for a replay; then the next recording captures
its first frame before the replay sends its own. -/
def overtakenReplay : List ClipEvent :=
  [.recStart true, .frame 100, .recClose, .setFrames, .setPath, .replayOpen true, .recStart true,
    .frame 250, .replayFrame true]

theorem overtakenReplay_wrong :
    ¬ ∀ s ∈ (Run.run CamClips.step {} overtakenReplay).sent,
      s.Right (Run.run CamClips.step {} overtakenReplay) := by
  intro h
  have hsent : (Run.run CamClips.step {} overtakenReplay).sent = [⟨1, 0, ⟨0, 250, some 2⟩⟩] := by decide
  rw [hsent] at h
  have hclip := (h _ List.mem_cons_self).1
  exact absurd hclip (by decide)

end Htsn.Cam
