import WirelessTsn.Esp32.Agent

/-!
The JSON readers of the ESP32 agent on memory. The handlers get a pointer to
the payload, and a search that steps over its terminator goes on in what
stands behind it. Memory is a list of texts here, each ended by a NUL; the
payload comes first. The readers of `Esp32.Json` are the ones for which
nothing behind the payload is read.
-/

namespace Htsn.Esp32

open CText Json

/-- `probe_value`: the value of a key and what stands behind its text. -/
def probeIn (key : CStr) : List CStr → Option (CStr × List CStr)
  | [] => none
  | json :: behind =>
      match probeValue json key with
      | .found v => some (v, behind)
      | .absent => none
      | .overrun => probeIn key behind

/-- A reader applied to the value of a key. -/
def readIn {α : Type} (read : CStr → Option α) (mem : List CStr) (key : CStr) : Option α :=
  (probeIn key mem).bind fun v => read v.1

def getIntIn (mem : List CStr) (key : CStr) : Option Int32 := readIn (readNumber 31 atoi) mem key

def getI64In (mem : List CStr) (key : CStr) : Option Int64 := readIn (readNumber 31 atoll) mem key

def getStrIn (mem : List CStr) (key : CStr) (sz : Nat) : Option CStr := readIn (readStr sz) mem key

/-- `htsn_json_get_root_array` -/
def getRootArrayIn (mem : List CStr) (key : CStr) : Option (CStr × List CStr) :=
  (probeIn key mem).filter fun v => v.1.head? = some '['

/-- The loop of `htsn_json_parse_gcl` with `n` places left. -/
def gclLoopIn (behind : List CStr) : Nat → CStr → List (Int32 × Int64)
  | 0, _ => []
  | n + 1, p =>
      match p.dropWhile fun c => isWs c || c == ',' || c == '\x7b' with
      | [] => []
      | c :: q =>
          if c = ']' then []
          else
            ((getIntIn ((c :: q) :: behind) "gate_state".toList).getD 0,
              (getI64In ((c :: q) :: behind) "duration_ns".toList).getD 0) ::
              match (c :: q).dropWhile (· != '\x7d') with
              | [] => []
              | _ :: rest => gclLoopIn behind n rest

def parseGclIn (arr : CStr × List CStr) (maxEntries : Nat) : List (Int32 × Int64) :=
  gclLoopIn arr.2 maxEntries (arr.1.drop 1)

/-! ### Searches that stay inside the payload -/

variable {α : Type} {read : CStr → Option α} {json key : CStr} {behind : List CStr}

theorem readIn_lookup {x : Option α} (h : lookup read json key = some x) :
    readIn read (json :: behind) key = x := by
  rw [lookup] at h
  rw [readIn, probeIn]
  cases hprobe : probeValue json key with
  | overrun =>
      rw [hprobe] at h
      cases h
  | absent =>
      rw [hprobe] at h
      cases h
      rfl
  | found v =>
      rw [hprobe] at h
      cases h
      rfl

theorem getRootArrayIn_lookup {x : Option CStr} (h : getRootArray json key = some x) :
    getRootArrayIn (json :: behind) key = x.map fun v => (v, behind) := by
  rw [getRootArray, lookup] at h
  rw [getRootArrayIn, probeIn]
  cases hprobe : probeValue json key with
  | overrun =>
      rw [hprobe] at h
      cases h
  | absent =>
      rw [hprobe] at h
      cases h
      rfl
  | found v =>
      rw [hprobe] at h
      cases h
      by_cases hhead : v.head? = some '[' <;> simp [readArray, hhead, Option.filter_some]

theorem gclLoopIn_gclLoop {n : Nat} {p : CStr} {gcl : List (Int32 × Int64)}
    (h : gclLoop n p = some gcl) : gclLoopIn behind n p = gcl := by
  induction n generalizing p gcl with
  | zero =>
      cases h
      rfl
  | succ n ih =>
      cases hdrop : p.dropWhile fun c => isWs c || c == ',' || c == '\x7b' with
      | nil =>
          simp only [gclLoop, hdrop, Option.some.injEq] at h
          simp only [gclLoopIn, hdrop, h]
      | cons c q =>
          simp only [gclLoop, hdrop] at h
          simp only [gclLoopIn, hdrop]
          by_cases hclose : c = ']'
          · rw [if_pos hclose, Option.some.injEq] at h
            rw [if_pos hclose, h]
          · rw [if_neg hclose] at h ⊢
            obtain ⟨gs, hgs, h⟩ := Option.bind_eq_some_iff.mp h
            obtain ⟨dur, hdur, h⟩ := Option.bind_eq_some_iff.mp h
            have hgate : getIntIn ((c :: q) :: behind) "gate_state".toList = gs := readIn_lookup hgs
            have htime : getI64In ((c :: q) :: behind) "duration_ns".toList = dur := readIn_lookup hdur
            rw [hgate, htime]
            cases hbrace : (c :: q).dropWhile (· != '\x7d') with
            | nil =>
                simp only [hbrace] at h
                cases h
                rfl
            | cons d rest =>
                simp only [hbrace] at h
                obtain ⟨more, hmore, h⟩ := Option.bind_eq_some_iff.mp h
                cases h
                exact congrArg _ (ih hmore)

end Htsn.Esp32
