import WirelessTsn.Lib.Appending
import WirelessTsn.Lib.JsonText

/-!
The sweep that the actor board publishes on `tsn/sonar`
(`htsn_agent/htsn_sonar.c`). The comment in `publish_sweep` shows an object
with three closing brackets, its last format has two, so whatever the sweep the
outer object stays open.
-/

namespace Htsn.Esp32

open CText JsonText

/-- `SONAR_SWEEP_ANGLES` -/
def sonarSweepAngles : Nat := 180

/-- The static data of the sonar; `sweep` has the first `g_sweep_len` entries
of `g_sweep`. -/
structure Sonar where
  mq : Bool := true
  devId : Buf 32
  sweepId : Int32 := 0
  sweep : Slots Int16 sonarSweepAngles := .empty

/-- `buflen` -/
def Sonar.buflen (s : Sonar) : BitVec 32 := 32 + BitVec.ofNat 32 s.sweep.items.length * 7

def Sonar.head (s : Sonar) : CStr :=
  '\x7b' :: ("\"id\":\"".toList ++ (s.devId.chars ++ ('"' :: (",\"sonar\":\x7b\"id\":".toList ++
    (showInt s.sweepId.toInt ++ ",\"sweep\":[".toList)))))

def Sonar.tail (timer : Int64) : CStr :=
  ']' :: ("\x7d,\"ts\":".toList ++ showInt (timer / 1000000).toInt)

/-- `buf` when it is published; `timer` is what `esp_timer_get_time` returns. -/
def Sonar.buf (s : Sonar) (timer : Int64) : Writer 32 :=
  let start := Writer.fresh.append s.buflen s.head
  let listed := s.sweep.items.zipIdx.foldl (fun b e =>
    b.append s.buflen ((if e.2 = 0 then [] else [',']) ++ showInt e.1.toInt)) start
  listed.append s.buflen (Sonar.tail timer)

/-- The buffer that is handed to `htsn_mqtt_publish`. -/
def publishSweep (s : Sonar) (mallocOk : Bool) (timer : Int64) : Option (Writer 32) :=
  if !s.mq || s.sweep.items.length ≤ 0 then none
  else if !mallocOk then none
  else some (s.buf timer)

/-- The payload is an object with the values of the sweep, and nothing was
written outside the buffer. -/
structure SweepComplete (s : Sonar) (timer : Int64) (b : Writer 32) : Prop where
  inside : b.mem.Within s.buflen.toNat
  decodes : ∃ v sonar, Denotes v (b.mem.str s.buflen.toNat) ∧
    v.get "id".toList = some (.str s.devId.chars) ∧ v.get "sonar".toList = some sonar ∧
    sonar.get "id".toList = some (ofInt s.sweepId.toInt) ∧
    sonar.get "sweep".toList = some (.arr (s.sweep.items.map fun x => ofInt x.toInt)) ∧
    v.get "ts".toList = some (ofInt (timer / 1000000).toInt)

/-! ### The text -/

/-- What the calls print, one after the other. -/
def Sonar.calls (s : Sonar) (timer : Int64) : List CStr :=
  s.head :: (commaPieces (s.sweep.items.map fun x => showInt x.toInt) ++ [Sonar.tail timer])

theorem Sonar.buf_eq (s : Sonar) (timer : Int64) :
    s.buf timer = Writer.fresh.appendAll s.buflen (s.calls timer) := by
  have hlist := foldl_commaPieces (Writer.append s.buflen) (fun x : Int16 => showInt x.toInt)
    s.sweep.items (Writer.fresh.append s.buflen s.head)
  rw [Sonar.calls, Writer.appendAll_cons, Writer.appendAll_concat, Writer.appendAll, ← hlist]
  rfl

theorem Sonar.calls_flatten (s : Sonar) (timer : Int64) :
    (s.calls timer).flatten = s.head ++
      (commaSep (s.sweep.items.map fun x => showInt x.toInt) ++ Sonar.tail timer) := by
  rw [Sonar.calls, List.flatten_cons, List.flatten_append, List.flatten_singleton]
  rfl

/-- What is printed behind the first bracket. -/
def Sonar.body (s : Sonar) (timer : Int64) : CStr :=
  "\"id\":\"".toList ++ (s.devId.chars ++ (['"'] ++ (",\"sonar\":\x7b\"id\":".toList ++
    (showInt s.sweepId.toInt ++ (",\"sweep\":[".toList ++
      (commaSep (s.sweep.items.map fun x => showInt x.toInt) ++
        ("]\x7d,\"ts\":".toList ++ showInt (timer / 1000000).toInt)))))))

theorem Sonar.calls_body (s : Sonar) (timer : Int64) :
    (s.calls timer).flatten = '\x7b' :: s.body timer := by
  have hbody : ∀ L : CStr, s.head ++ (L ++ Sonar.tail timer) = '\x7b' ::
      ("\"id\":\"".toList ++ (s.devId.chars ++ (['"'] ++ (",\"sonar\":\x7b\"id\":".toList ++
        (showInt s.sweepId.toInt ++ (",\"sweep\":[".toList ++
          (L ++ ("]\x7d,\"ts\":".toList ++ showInt (timer / 1000000).toInt)))))))) := by
    intro L
    simp only [Sonar.head, Sonar.tail, String.reduceToList, List.append_assoc, List.cons_append,
      List.nil_append]
  rw [Sonar.calls_flatten, hbody]
  rfl

/-- Behind the first bracket one is always open, also when the device id ends in
a backslash and so turns what is inside and outside of strings around. -/
theorem Sonar.body_keepsOpen {s : Sonar} (timer : Int64) (hid : '"' ∉ s.devId.chars) :
    ∃ s', KeepsOpen (.out, 1) (s.body timer) s' := by
  have hlist : ∀ c ∈ commaSep (s.sweep.items.map fun x => showInt x.toInt), IsQuiet c := by
    apply quiet_commaSep
    intro t ht
    obtain ⟨x, _, rfl⟩ := List.mem_map.mp ht
    exact quiet_showInt x.toInt
  have hopen : KeepsOpen (.out, 1) "\"id\":\"".toList (.str, 1) := by decide
  rcases keepsOpen_content hid (by decide : (0 : Int) < 1) with hcontent | hcontent
  · have hquote : KeepsOpen (.str, 1) ['"'] (.out, 1) := by decide
    have hsonar : KeepsOpen (.out, 1) ",\"sonar\":\x7b\"id\":".toList (.out, 2) := by decide
    have hsweep : KeepsOpen (.out, 2) ",\"sweep\":[".toList (.out, 3) := by decide
    have hts : KeepsOpen (.out, 3) "]\x7d,\"ts\":".toList (.out, 1) := by decide
    have hnum : KeepsOpen (.out, 2) (showInt s.sweepId.toInt) (.out, 2) :=
      keepsOpen_quiet (quiet_showInt _) (by decide) (by decide)
    have hints : KeepsOpen (.out, 3) (commaSep (s.sweep.items.map fun x => showInt x.toInt)) (.out, 3) :=
      keepsOpen_quiet hlist (by decide) (by decide)
    have htime : KeepsOpen (.out, 1) (showInt (timer / 1000000).toInt) (.out, 1) :=
      keepsOpen_quiet (quiet_showInt _) (by decide) (by decide)
    exact ⟨_, hopen.append (hcontent.append (hquote.append (hsonar.append (hnum.append
      (hsweep.append (hints.append (hts.append htime)))))))⟩
  · have hquote : KeepsOpen (.esc, 1) ['"'] (.str, 1) := by decide
    have hsonar : KeepsOpen (.str, 1) ",\"sonar\":\x7b\"id\":".toList (.str, 1) := by decide
    have hsweep : KeepsOpen (.str, 1) ",\"sweep\":[".toList (.str, 1) := by decide
    have hts : KeepsOpen (.str, 1) "]\x7d,\"ts\":".toList (.str, 1) := by decide
    have hnum : KeepsOpen (.str, 1) (showInt s.sweepId.toInt) (.str, 1) :=
      keepsOpen_quiet (quiet_showInt _) (by decide) (by decide)
    have hints : KeepsOpen (.str, 1) (commaSep (s.sweep.items.map fun x => showInt x.toInt)) (.str, 1) :=
      keepsOpen_quiet hlist (by decide) (by decide)
    have htime : KeepsOpen (.str, 1) (showInt (timer / 1000000).toInt) (.str, 1) :=
      keepsOpen_quiet (quiet_showInt _) (by decide) (by decide)
    exact ⟨_, hopen.append (hcontent.append (hquote.append (hsonar.append (hnum.append
      (hsweep.append (hints.append (hts.append htime)))))))⟩

/-! ### The payload -/

theorem Sonar.buflen_toNat (s : Sonar) : s.buflen.toNat = 32 + s.sweep.items.length * 7 := by
  have hfits : s.sweep.items.length ≤ 180 := s.sweep.fits
  rw [Sonar.buflen, BitVec.toNat_add, BitVec.toNat_mul, BitVec.toNat_ofNat]
  show (32 + s.sweep.items.length % 2 ^ 32 * 7 % 2 ^ 32) % 2 ^ 32 = _
  omega

theorem Sonar.body_length (s : Sonar) (timer : Int64) : (s.body timer).length ≤ 2000 := by
  have hid := s.devId.fits
  have hfits : s.sweep.items.length ≤ 180 := s.sweep.fits
  have hnum : (showInt s.sweepId.toInt).length ≤ 11 := by
    have hlo := s.sweepId.le_toInt
    have hhi := s.sweepId.toInt_lt
    exact showInt_length_le (by decide) (by omega)
  have hints : (commaSep (s.sweep.items.map fun x => showInt x.toInt)).length ≤
      s.sweep.items.length * 7 := by
    have hlength := @commaSep_length_le (s.sweep.items.map fun x => showInt x.toInt) 6 (by
      intro t ht
      obtain ⟨x, _, rfl⟩ := List.mem_map.mp ht
      have hlo := x.le_toInt
      have hhi := x.toInt_lt
      exact showInt_length_le (by decide) (by omega))
    rwa [List.length_map] at hlength
  have htime : (showInt (timer / 1000000).toInt).length ≤ 20 := by
    have hlo := (timer / 1000000).le_toInt
    have hhi := (timer / 1000000).toInt_lt
    exact showInt_length_le (by decide) (by omega)
  have htext := congrArg List.length (s.calls_body timer)
  simp only [Sonar.calls_flatten, Sonar.head, Sonar.tail, String.reduceToList, List.length_append,
    List.length_cons, List.length_nil] at htext
  omega

/-- What is published is a part of the text, from its first bracket on. -/
theorem Sonar.payload_eq (s : Sonar) (timer : Int64) :
    ∃ w, w <+: s.body timer ∧ (s.buf timer).mem.str s.buflen.toNat = '\x7b' :: w := by
  have hlen := s.buflen_toNat
  have hbody := s.body_length timer
  have hheld := @Writer.holds_appendAll 32 s.buflen (s.calls timer) (List.cons_ne_nil _ _)
    (by omega) (by rw [Sonar.calls_body, List.length_cons]; omega)
  rw [Sonar.calls_body] at hheld
  obtain ⟨k, hk⟩ : ∃ k, s.buflen.toNat - 1 = k + 1 := ⟨s.buflen.toNat - 2, by omega⟩
  rw [hk, List.take_succ_cons] at hheld
  refine ⟨((s.body timer).take k).takeWhile (· != '\x00'), ?_, ?_⟩
  · exact (List.takeWhile_prefix _).trans (List.take_prefix k _)
  · rw [Sonar.buf_eq, hheld.str_eq, List.takeWhile_cons_of_pos (by decide)]
    rw [List.length_cons, List.length_take]
    omega

theorem Sonar.buf_incomplete {s : Sonar} (timer : Int64) (hid : '"' ∉ s.devId.chars) :
    ¬ SweepComplete s timer (s.buf timer) := by
  rintro ⟨-, v, sonar, hdenotes, -⟩
  obtain ⟨w, hw, hpayload⟩ := s.payload_eq timer
  obtain ⟨s', hopen⟩ := Sonar.body_keepsOpen timer hid
  rw [hpayload] at hdenotes
  have habove : 0 < (brackets (.out, 0) ('\x7b' :: w)).2 := hopen.above w hw
  exact not_denotes_of_open habove v hdenotes

/-- No sweep is published completely: the outer object is never closed. -/
theorem not_sweepComplete {s : Sonar} {mallocOk : Bool} {timer : Int64} {b : Writer 32}
    (hid : '"' ∉ s.devId.chars) (hpub : publishSweep s mallocOk timer = some b) :
    ¬ SweepComplete s timer b := by
  unfold publishSweep at hpub
  split at hpub
  · cases hpub
  · split at hpub
    · cases hpub
    · cases hpub
      exact Sonar.buf_incomplete timer hid

/-- A sweep of one reading. -/
def shortSweep : Sonar :=
  { devId := Buf.copy 32 "esp32-02".toList, sweepId := 1, sweep := Slots.empty.push 57 }

theorem shortSweep_incomplete :
    ¬ SweepComplete shortSweep 90000000 (shortSweep.buf 90000000) :=
  @not_sweepComplete shortSweep true 90000000 _ (by decide) rfl

/-- The readings of three angles. -/
def threeAngles : Sonar :=
  { devId := Buf.copy 32 "esp32-02".toList, sweepId := 7, sweep := ⟨[-1, 57, 400], by decide⟩ }

theorem threeAngles_incomplete :
    publishSweep threeAngles true 90000000 = some (threeAngles.buf 90000000) ∧
      ¬ SweepComplete threeAngles 90000000 (threeAngles.buf 90000000) :=
  ⟨rfl, Sonar.buf_incomplete 90000000 (by decide)⟩

end Htsn.Esp32
