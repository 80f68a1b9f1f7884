import WirelessTsn.Lib.Appending
import WirelessTsn.Lib.Loop

/-!
How the LLM bridge takes a request from its client (the start of
`handle_client` in `rpi-ai/llm_bridge.c`). The loop's guard asks for the result
of the last `read`, and before the first one that variable is 0.
-/

namespace Htsn.Ai

open CText

/-- `MAX_BODY` -/
def maxBody : Nat := 256 * 1024

/-- What `read` answers behind the last piece. -/
inductive StreamEnd where
  | closed
  | failed
  deriving DecidableEq

def StreamEnd.result : StreamEnd → Int
  | .closed => 0
  | .failed => -1

/-- A request, in the pieces in which it arrives. -/
structure HttpRequest where
  chunks : List CStr
  nonempty : ∀ c ∈ chunks, c ≠ []
  ending : StreamEnd

/-- The variables of the loop, the pieces that are left, and the number of
bytes that `read` has handed over. -/
structure ReadState where
  n : Int
  total : Int
  buf : Mem
  left : List CStr
  seen : Nat

/-- `n = read(fd, buf + total, MAX_BODY - 1 - total); total += n;`. Of a piece
that is too long the rest stays. -/
def ReadState.read (ending : StreamEnd) (s : ReadState) : ReadState :=
  match s.left with
  | [] => { s with n := ending.result, total := s.total + ending.result }
  | c :: cs =>
      let room := (maxBody - 1 - s.total).toNat
      let got := c.take room
      { n := got.length
        total := s.total + got.length
        buf := s.buf.write s.total.toNat got
        left := if c.length ≤ room then cs else c.drop room :: cs
        seen := s.seen + got.length }

def readBody (ending : StreamEnd) (s : ReadState) : Loop.Step ReadState ReadState :=
  if 0 < s.n ∧ s.total < maxBody - 1 then .next (s.read ending) else .done s

/-- Bytes and pieces that are left, and whether the loop may still go on. -/
def ReadState.remaining (s : ReadState) : Nat :=
  (s.left.map fun c => c.length + 1).sum + if 0 < s.n then 1 else 0

theorem ReadState.remaining_read {s : ReadState} (ending : StreamEnd) (hn : 0 < s.n)
    (hroom : s.total < maxBody - 1) : (s.read ending).remaining < s.remaining := by
  have hlast : ∀ n : Int, (if 0 < n then 1 else 0) ≤ 1 := by
    intro n
    split
    · exact Nat.le_refl 1
    · exact Nat.zero_le 1
  unfold ReadState.read ReadState.remaining
  rw [if_pos hn]
  cases hleft : s.left with
  | nil =>
      have hend : ¬ 0 < ending.result := by cases ending <;> decide
      simp only [hend, if_false]
      omega
  | cons c cs =>
      have hrest := hlast (c.take (maxBody - 1 - s.total).toNat).length
      simp only [List.map_cons, List.sum_cons]
      split
      · omega
      · simp only [List.map_cons, List.sum_cons, List.length_drop]
        omega

theorem remaining_next {ending : StreamEnd} (s t : ReadState) (h : readBody ending s = .next t) :
    t.remaining < s.remaining := by
  unfold readBody at h
  split at h
  · rename_i hguard
    injection h with heq
    exact heq ▸ s.remaining_read ending hguard.1 hguard.2
  · cases h

/-- `int n = 0, total = 0;`, and nothing in the buffer yet. -/
def HttpRequest.start (req : HttpRequest) : ReadState where
  n := 0
  total := 0
  buf := .fresh
  left := req.chunks
  seen := 0

/-- The variables behind the loop. -/
def HttpRequest.taken (req : HttpRequest) : ReadState :=
  Loop.total (readBody req.ending) ReadState.remaining remaining_next req.start

/-- The buffer that is parsed: `buf[total] = '\0'`. -/
def HttpRequest.buffer (req : HttpRequest) : Mem :=
  req.taken.buf.write req.taken.total.toNat ['\x00']

def HttpRequest.text (req : HttpRequest) : CStr := req.chunks.flatten

/-- The buffer holds the request, and along the loop the running total is never
below the number of bytes read. -/
def HttpRequest.ReadWhole (req : HttpRequest) : Prop :=
  (∀ s, Loop.Visits (readBody req.ending) req.start s → (s.seen : Int) ≤ s.total) ∧
    req.buffer.Holds req.text

section

variable {req : HttpRequest} {s t : ReadState} {ending : StreamEnd}

theorem readBody_next (hn : 0 < s.n) (hroom : s.total < maxBody - 1) :
    readBody ending s = .next (s.read ending) := if_pos ⟨hn, hroom⟩

/-! ### The loop as it is -/

/-- The guard fails before the first `read`. -/
theorem readBody_start (req : HttpRequest) : readBody req.ending req.start = .done req.start :=
  if_neg fun h => absurd h.1 (Int.lt_irrefl 0)

theorem taken_eq (req : HttpRequest) : req.taken = req.start := Loop.total_done (readBody_start req)

/-- What is parsed is the empty text. -/
theorem buffer_holds_nil (req : HttpRequest) : req.buffer.Holds [] := by
  rw [HttpRequest.buffer, taken_eq]
  exact Mem.fresh_starts.write ['\x00']

/-- Behind it nothing was written. -/
theorem buffer_one (req : HttpRequest) : req.buffer 1 = none := by
  rw [HttpRequest.buffer, taken_eq]
  rfl

theorem text_eq_nil_iff (req : HttpRequest) : req.text = [] ↔ req.chunks = [] := by
  rw [HttpRequest.text, List.flatten_eq_nil_iff]
  constructor
  · intro h
    rw [List.eq_nil_iff_forall_not_mem]
    intro c hc
    exact req.nonempty c hc (h c hc)
  · intro h c hc
    rw [h] at hc
    cases hc

/-- For every request in any pieces and with either end: it is read whole
exactly when there is nothing to read. -/
theorem request_read_whole_iff (req : HttpRequest) : req.ReadWhole ↔ req.chunks = [] := by
  rw [← text_eq_nil_iff]
  constructor
  · rintro ⟨-, hholds⟩
    by_contra hne
    have hpos : 0 < req.text.length := List.length_pos_iff.mpr hne
    have hat := hholds 1 (by simpa using hpos)
    rw [buffer_one, List.getElem?_eq_getElem (by simpa using hpos)] at hat
    cases hat
  · intro hnil
    refine ⟨fun s hvisits => ?_, ?_⟩
    · rw [(Loop.visits_done (readBody_start req)).mp hvisits]
      exact Int.le_refl 0
    · rw [hnil]
      exact buffer_holds_nil req

/-- One piece, and the client closes. -/
def healthRequest : HttpRequest where
  chunks := ["GET /health HTTP/1.1\r\n\r\n".toList]
  nonempty := by decide
  ending := .closed

theorem healthRequest_not_read :
    ¬ ∀ req : HttpRequest, req.text.length < 262144 → req.ReadWhole := by
  intro h
  have hholds := (h healthRequest (by decide)).2
  have hat := hholds 1 (by decide)
  rw [buffer_one] at hat
  cases hat

/-! ### The loop, once entered -/

/-- A piece that leaves room is taken whole. -/
theorem read_of_room {c : CStr} {cs : List CStr} (hleft : s.left = c :: cs)
    (hroom : s.total + c.length ≤ maxBody - 1) :
    s.read ending =
      { n := c.length, total := s.total + c.length, buf := s.buf.write s.total.toNat c, left := cs
        seen := s.seen + c.length } := by
  have hle : c.length ≤ (maxBody - 1 - s.total).toNat := by omega
  unfold ReadState.read
  rw [hleft]
  simp only [List.take_of_length_le hle, hle, if_true]

/-- From a state in which the last `read` brought something: the loop takes all
that is left, and adds the result of the last call to the total too. -/
theorem total_entered {front : CStr} {left : List CStr} (hleft : s.left = left) (hn : 0 < s.n)
    (htotal : s.total = front.length) (hbuf : s.buf.Starts front) (hne : ∀ c ∈ left, c ≠ [])
    (hfit : (front ++ left.flatten).length < maxBody - 1) :
    (Loop.total (readBody ending) ReadState.remaining remaining_next s).total =
        (front ++ left.flatten).length + ending.result ∧
      (Loop.total (readBody ending) ReadState.remaining remaining_next s).buf.Starts
        (front ++ left.flatten) := by
  induction left generalizing s front with
  | nil =>
      rw [List.flatten_nil, List.append_nil] at hfit ⊢
      rw [Loop.total_next (readBody_next hn (by omega))]
      have hread : s.read ending = { s with n := ending.result, total := s.total + ending.result } := by
        rw [ReadState.read, hleft]
      have hlast : ¬ 0 < ending.result := by cases ending <;> decide
      have hdone : readBody ending (s.read ending) = .done (s.read ending) := by
        rw [hread]
        exact if_neg fun h => hlast h.1
      rw [Loop.total_done hdone, hread, ← htotal]
      exact ⟨rfl, hbuf⟩
  | cons c cs ih =>
      rw [List.flatten_cons, ← List.append_assoc] at hfit ⊢
      have hlength := hfit
      rw [List.length_append, List.length_append] at hlength
      obtain ⟨hc, hcs⟩ := List.forall_mem_cons.mp hne
      rw [Loop.total_next (readBody_next hn (by omega)), read_of_room hleft (by omega)]
      have hwritten : (s.buf.write s.total.toNat c).Starts (front ++ c) := by
        rw [htotal, Int.toNat_natCast]
        exact hbuf.write c
      apply ih rfl _ _ hwritten hcs hfit
      · exact Int.natCast_pos.mpr (List.length_pos_iff.mpr hc)
      · rw [htotal, List.length_append, Int.natCast_add]

/-- Had the loop been entered: what a client sends before it closes would be in
the buffer, and what it sends before a failure, less the last byte. -/
theorem entered_holds (hn : 0 < s.n) (htotal : s.total = 0) (hne : ∀ c ∈ s.left, c ≠ [])
    (hleft : s.left ≠ []) (hfit : s.left.flatten.length < maxBody - 1) :
    let u := Loop.total (readBody ending) ReadState.remaining remaining_next s
    0 ≤ u.total ∧
      (u.buf.write u.total.toNat ['\x00']).Holds
        (match ending with
          | .closed => s.left.flatten
          | .failed => s.left.flatten.dropLast) := by
  have hstarts : s.buf.Starts [] := fun i hi => absurd hi (Nat.not_lt_zero i)
  obtain ⟨htaken, hbuf⟩ := @total_entered s ending [] s.left rfl hn htotal hstarts hne hfit
  have hpos : 0 < s.left.flatten.length := by
    rw [List.length_pos_iff, ne_eq, List.flatten_eq_nil_iff]
    obtain ⟨c, cs, hcons⟩ := List.exists_cons_of_ne_nil hleft
    have hmem : c ∈ s.left := by simp [hcons]
    exact fun hall => hne c hmem (hall c hmem)
  rw [List.nil_append] at htaken hbuf
  dsimp only
  rw [htaken]
  cases ending with
  | closed =>
      refine ⟨Int.natCast_nonneg _, ?_⟩
      have hat : (s.left.flatten.length + StreamEnd.closed.result).toNat = s.left.flatten.length :=
        Int.toNat_natCast _
      rw [hat]
      exact hbuf.write ['\x00']
  | failed =>
      have hat : (s.left.flatten.length + StreamEnd.failed.result).toNat = s.left.flatten.dropLast.length := by
        rw [List.length_dropLast, StreamEnd.result]
        omega
      refine ⟨by simp only [StreamEnd.result]; omega, ?_⟩
      have hcut := hbuf.take (s.left.flatten.length - 1)
      rw [← List.dropLast_eq_take] at hcut
      rw [hat]
      exact hcut.write ['\x00']

end

end Htsn.Ai
