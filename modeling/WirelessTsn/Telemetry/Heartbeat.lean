import WirelessTsn.Device.Manager
import WirelessTsn.Telemetry.Report

/-!
`on_message` of `htsn_telemetry.c`. Its test for the prefix `tsn/status/`
compares the terminator as well, so the topic of a device is never taken for a
status topic, and on `tsn/status` the device is what `parse_payload` makes of
the payload. `Parts` takes a payload apart into what the parser goes over
between two commas; with it the id is that of the last part that starts with
`id`.
-/

namespace Htsn.Telemetry

open CText Json Keyed

/-! ### The handler -/

/-- `htsn_telemetry`, without the trace and the client. -/
structure HtsnTelemetry where
  devices : Option DeviceSystem
  timesync : Bool

inductive Call where
  | recordReport (device : CStr) (offset jitter : Int64) (count loss : Int32)
  | recordHeartbeat (device : CStr)
deriving DecidableEq

def statusTopic : CStr := "tsn/status".toList

def statusPrefix : CStr := "tsn/status/".toList

/-- The device named by the topic, or the empty string. -/
def topicNode (topic : CStr) : CStr :=
  if strncmpEq 12 topic statusPrefix then ((topic.drop 11).takeWhile (· != '/')).take 255 else []

/-- The calls of `on_message`. `stack` is what stands in the uninitialised
buffer of the id, which a missing payload leaves there. -/
def onMessageCalls (t : HtsnTelemetry) (stack : CStr) (topic payload : Option CStr) : List Call :=
  match topic with
  | none => []
  | some topic =>
      if topic = statusTopic ∨ strncmpEq 12 topic statusPrefix = true then
        let out := parsePayload payload 256 ⟨.none, stack, 0, 0, 0⟩
        let dev := if topicNode topic = [] then out.id else topicNode topic
        if dev = [] then []
        else
          (if out.kind = .syncReport ∧ t.timesync = true then
            [.recordReport dev out.offset out.jitter 0 out.loss] else []) ++
          (if t.devices.isSome then [.recordHeartbeat dev] else [])
      else []

/-- A call with the devices; a report does not touch them. -/
def Call.apply (now : Int64) (s : DeviceSystem) : Call → DeviceSystem
  | .recordReport _ _ _ _ _ => s
  | .recordHeartbeat dev => (deviceManagerRecordHeartbeat s now dev).2

def onMessage (t : HtsnTelemetry) (now : Int64) (stack : CStr) (topic payload : Option CStr) :
    HtsnTelemetry :=
  { t with devices := t.devices.map fun s =>
      (onMessageCalls t stack topic payload).foldl (Call.apply now) s }

/-- The devices a heartbeat is recorded for. -/
def heartbeats (calls : List Call) : List CStr :=
  calls.filterMap fun
    | .recordHeartbeat dev => some dev
    | .recordReport _ _ _ _ _ => none

/-- The messages that are a heartbeat of device `d`. -/
inductive StatusMessage (d : CStr) : CStr → Option CStr → Prop where
  | device (payload : Option CStr) : StatusMessage d (statusPrefix ++ d) payload
  | suffixed (suffix : CStr) (payload : Option CStr) :
      StatusMessage d (statusPrefix ++ d ++ '/' :: suffix) payload
  | report (text : CStr) : StatusMessage d statusTopic (some text)

/-- The device is online in the manager. -/
def Online (s : DeviceSystem) (d : CStr) : Prop :=
  ∃ dev, deviceManagerGet s.manager d = some dev ∧ dev.status = deviceOnline

/-- The message makes the handler record a heartbeat for `d` and for no other
device, and `d` is online afterwards. -/
def Heartbeats (s : DeviceSystem) (timesync : Bool) (now : Int64) (stack : CStr)
    (topic : CStr) (payload : Option CStr) (d : CStr) : Prop :=
  heartbeats (onMessageCalls ⟨some s, timesync⟩ stack (some topic) payload) = [d] ∧
    ∀ s' ∈ (onMessage ⟨some s, timesync⟩ now stack (some topic) payload).devices, Online s' d

/-! ### A payload in parts -/

/-- What the parser goes over up to a comma: text in which no key is found, or
a key, a colon and a value. -/
inductive Part where
  | other (opens body : CStr) (hopens : ∀ c ∈ opens, isOpen c = true)
      (hhead : ∀ c ∈ body.head?, isOpen c = false) (hcomma : ',' ∉ body)
      (hkey : ∀ k : Key, ¬ k.text <+: body)
  | keyed (opens : CStr) (k : Key) (gap value : CStr) (hopens : ∀ c ∈ opens, isOpen c = true)
      (hgap : ':' ∉ gap) (hvalue : ',' ∉ value)

def Part.text : Part → CStr
  | .other opens body _ _ _ _ => opens ++ body
  | .keyed opens k gap value _ _ _ => opens ++ (k.text ++ (gap ++ ':' :: value))

def Part.read : Part → Parsed → Parsed
  | .other _ body _ _ _ _, out => readOther body out
  | .keyed _ k _ value _ _ _, out => k.read value out

/-- The value of an id. -/
def Part.idValue : Part → Option CStr
  | .other _ _ _ _ _ _ => none
  | .keyed _ k _ value _ _ _ => if k = .id then some value else none

/-- The end of a payload: a last part, or a key without a colon behind it. -/
inductive Ending where
  | part (p : Part)
  | broken (opens : CStr) (k : Key) (gap : CStr) (hopens : ∀ c ∈ opens, isOpen c = true)
      (hgap : ':' ∉ gap)

def Ending.text : Ending → CStr
  | .part p => p.text
  | .broken opens k gap _ _ => opens ++ (k.text ++ gap)

def Ending.parts : Ending → List Part
  | .part p => [p]
  | .broken _ _ _ _ _ => []

/-- Parts, each with its comma, and the end of the payload. -/
structure Parts where
  parts : List Part
  ending : Ending

def Parts.text (t : Parts) : CStr := t.parts.flatMap (fun p => p.text ++ [',']) ++ t.ending.text

def Parts.all (t : Parts) : List Part := t.parts ++ t.ending.parts

theorem ends_comma (rest : CStr) : Ends (',' :: rest) := by
  intro c hc
  cases hc
  exact .inl rfl

theorem ends_nil : Ends [] := by
  intro c hc
  cases hc

theorem parseFrom_part (p : Part) {tail : CStr} (ht : tail = [] ∨ ∃ rest, tail = ',' :: rest)
    (out : Parsed) : parseFrom 256 (p.text ++ tail) out = parseRest tail (p.read out) := by
  have hends : Ends tail := by
    rcases ht with rfl | ⟨rest, rfl⟩
    · exact ends_nil
    · exact ends_comma rest
  cases p with
  | other opens body hopens hhead hcomma hkey =>
      rw [Part.text, List.append_assoc, parseFrom_opens hopens]
      refine parseFrom_other ?_ hcomma hkey hends out
      intro c hc
      cases body with
      | nil =>
          rcases ht with rfl | ⟨rest, rfl⟩
          · cases hc
          · cases hc
            rfl
      | cons x body => exact hhead c hc
  | keyed opens k gap value hopens hgap hvalue =>
      have htext : (Part.keyed opens k gap value hopens hgap hvalue).text ++ tail =
          opens ++ (k.text ++ (gap ++ ':' :: (value ++ tail))) := by
        simp [Part.text]
      rw [htext, parseFrom_opens hopens]
      exact parseFrom_key k hgap hvalue hends out

/-- The parser reads part after part. -/
theorem parseFrom_parts (t : Parts) (out : Parsed) :
    parseFrom 256 t.text out = t.all.foldl (fun out p => p.read out) out := by
  obtain ⟨ps, e⟩ := t
  induction ps generalizing out with
  | nil =>
      cases e with
      | part p =>
          have hlast := parseFrom_part p (.inl rfl) out
          rw [List.append_nil] at hlast
          exact hlast
      | broken opens k gap hopens hgap =>
          show parseFrom 256 (opens ++ (k.text ++ gap)) out = out
          rw [parseFrom_opens hopens, parseFrom_no_colon k hgap]
  | cons p ps ih =>
      have htext : Parts.text ⟨p :: ps, e⟩ = p.text ++ ',' :: Parts.text ⟨ps, e⟩ := by
        simp [Parts.text]
      rw [htext, parseFrom_part p (.inr ⟨_, rfl⟩), parseRest_comma, ih]
      rfl

/-- Every text is one of parts. -/
theorem exists_parts (s : CStr) : ∃ t : Parts, t.text = s := by
  induction hlen : s.length using Nat.strong_induction_on generalizing s with
  | _ n ih =>
    subst hlen
    have hnext : ∀ (p : Part) (rest : CStr), s = p.text ++ ',' :: rest → ∃ t : Parts, t.text = s := by
      rintro p rest rfl
      have hshort : rest.length < (p.text ++ ',' :: rest).length := by
        rw [List.length_append, List.length_cons]
        omega
      obtain ⟨t, ht⟩ := ih rest.length hshort rest rfl
      refine ⟨⟨p :: t.parts, t.ending⟩, ?_⟩
      rw [← ht]
      simp [Parts.text]
    obtain ⟨opens, t, hs, hopens, hhead⟩ := exists_span isOpen s
    by_cases hkey : ∃ k : Key, k.text <+: t
    · obtain ⟨k, u, rfl⟩ := hkey
      by_cases hcolon : ':' ∈ u
      · obtain ⟨gap, w, rfl, hgap⟩ := List.eq_append_cons_of_mem hcolon
        by_cases hcomma : ',' ∈ w
        · obtain ⟨value, rest, rfl, hvalue⟩ := List.eq_append_cons_of_mem hcomma
          refine hnext (.keyed opens k gap value hopens hgap hvalue) rest ?_
          rw [hs]
          simp [Part.text]
        · exact ⟨⟨[], .part (.keyed opens k gap w hopens hgap hcomma)⟩, hs.symm⟩
      · exact ⟨⟨[], .broken opens k u hopens hcolon⟩, hs.symm⟩
    · have hno : ∀ k : Key, ¬ k.text <+: t := fun k hk => hkey ⟨k, hk⟩
      by_cases hcomma : ',' ∈ t
      · obtain ⟨body, rest, rfl, hbody⟩ := List.eq_append_cons_of_mem hcomma
        have hfirst : ∀ c ∈ body.head?, isOpen c = false := by
          intro c hc
          cases body with
          | nil => cases hc
          | cons x body => exact hhead c hc
        have hnone : ∀ k : Key, ¬ k.text <+: body :=
          fun k hk => hno k (hk.trans (List.prefix_append body _))
        refine hnext (.other opens body hopens hfirst hbody hnone) rest ?_
        rw [hs, Part.text, List.append_assoc]
      · exact ⟨⟨[], .part (.other opens t hopens hhead hcomma hno)⟩, hs.symm⟩

/-! ### The id of a payload -/

/-- The value is, behind spaces, `d` without quotes: it ends there, or a brace
follows, or `d` fills the buffer. -/
def Bare (d value : CStr) : Prop :=
  ∃ spaces more, value = spaces ++ (d ++ more) ∧ (∀ c ∈ spaces, c = ' ') ∧
    (∀ c ∈ d.head?, c ≠ ' ') ∧ '\x7d' ∉ d ∧ d.length ≤ 255 ∧
    (d.length = 255 ∨ more = [] ∨ more.head? = some '\x7d')

/-- The last id of the parts is `d`. -/
def LastId (d : CStr) (ps : List Part) : Prop :=
  ∃ value, (ps.filterMap Part.idValue).getLast? = some value ∧ Bare d value

/-- In the part of the payload that the parser has room for, the last id is
`d`, written without quotes. -/
def NamesBare (d text : CStr) : Prop := ∃ t : Parts, t.text = text.take 511 ∧ LastId d t.all

/-- What ends a copy that does not fill the buffer. -/
theorem copyId_stops {d q more : CStr} {x : Char} (hcopy : copyId 255 q = d) (hq : d ++ x :: more = q) :
    d.length = 255 ∨ x = ',' ∨ x = '\x7d' := by
  have hgoes : ∀ c ∈ d, isIdChar c = true := fun c hc => isIdChar_of_mem_copyId (hcopy ▸ hc)
  have hlen : d.length ≤ 255 := hcopy ▸ copyId_length_le 255 q
  by_cases hfull : d.length = 255
  · exact .inl hfull
  · right
    obtain ⟨n, hn⟩ : ∃ n, 255 - d.length = n + 1 := ⟨254 - d.length, by omega⟩
    rw [← hq, copyId, List.take_append, List.take_of_length_le hlen, hn, List.take_succ_cons,
      List.takeWhile_append_of_pos hgoes, List.append_right_eq_self, List.takeWhile_cons] at hcopy
    split at hcopy
    · cases hcopy
    · rename_i hstop
      rwa [isIdChar_eq_true, not_and_or, not_not, not_not] at hstop

/-- A nonempty copy is the bare value. -/
theorem copyId_eq_iff {d value : CStr} (hd : d ≠ []) (hvalue : ',' ∉ value) :
    copyId 255 (value.dropWhile (· == ' ')) = d ↔ Bare d value := by
  constructor
  · intro hcopy
    obtain ⟨more, hmore⟩ : d <+: value.dropWhile (· == ' ') := hcopy ▸ copyId_isPrefix 255 _
    have hin : ∀ c ∈ d, isIdChar c = true := fun c hc => isIdChar_of_mem_copyId (hcopy ▸ hc)
    refine ⟨value.takeWhile (· == ' '), more, ?_, ?_, ?_, fun h => absurd (hin _ h) (by decide),
      hcopy ▸ copyId_length_le 255 _, ?_⟩
    · rw [hmore, List.takeWhile_append_dropWhile]
    · intro c hc
      simpa using List.mem_takeWhile_imp hc
    · intro c hc
      have hhead := List.head?_dropWhile_not (· == ' ') value
      rw [← hmore, List.head?_append_of_ne_nil _ hd, Option.mem_def.mp hc] at hhead
      simpa using hhead
    · cases more with
      | nil => exact .inr (.inl rfl)
      | cons x more =>
          refine (copyId_stops hcopy hmore).imp_right fun hx => .inr ?_
          have hmem : x ∈ value := by
            apply (List.dropWhile_sublist (· == ' ')).subset
            rw [← hmore]
            simp
          rcases hx with rfl | rfl
          · exact absurd hmem hvalue
          · rfl
  · rintro ⟨spaces, more, rfl, hspaces, hhead, hbrace, hlen, hend⟩
    have hdrop : (spaces ++ (d ++ more)).dropWhile (· == ' ') = d ++ more := by
      rw [List.dropWhile_append_of_pos fun c hc => by simpa using hspaces c hc]
      cases d with
      | nil => exact absurd rfl hd
      | cons c d => exact List.dropWhile_cons_of_neg (by simpa using hhead c rfl)
    have hgoes : ∀ c ∈ d, isIdChar c = true := by
      intro c hc
      rw [isIdChar_eq_true]
      constructor
      · rintro rfl
        exact hvalue (by simp [hc])
      · rintro rfl
        exact hbrace hc
    have hrest : (more.take (255 - d.length)).takeWhile isIdChar = [] := by
      rcases hend with hfull | rfl | hend
      · rw [hfull]
        rfl
      · simp
      · cases more with
        | nil => cases hend
        | cons x more =>
            cases hend
            cases 255 - d.length <;> rfl
    rw [hdrop, copyId, List.take_append, List.take_of_length_le hlen,
      List.takeWhile_append_of_pos hgoes, hrest, List.append_nil]

theorem idValue_read {p : Part} {out : Parsed} :
    (p.read out).id =
      match p.idValue with
      | none => out.id
      | some value => copyId 255 (value.dropWhile (· == ' ')) := by
  cases p with
  | other opens body hopens hhead hcomma hkey =>
      show (readOther body out).id = out.id
      unfold readOther
      split
      · rfl
      · rfl
  | keyed opens k gap value hopens hgap hvalue => cases k <;> rfl

theorem comma_not_mem_idValue {p : Part} {value : CStr} (h : p.idValue = some value) :
    ',' ∉ value := by
  cases p with
  | other opens body hopens hhead hcomma hkey => cases h
  | keyed opens k gap v hopens hgap hvalue =>
      rw [Part.idValue, Option.ite_none_right_eq_some] at h
      exact Option.some_inj.mp h.2 ▸ hvalue

/-- The id after the parts is that of the last part with one. -/
theorem foldl_read_id {d : CStr} (hd : d ≠ []) (ps : List Part) {out : Parsed} (hout : out.id ≠ d) :
    (ps.foldl (fun out p => p.read out) out).id = d ↔ LastId d ps := by
  induction ps using List.reverseRecOn with
  | nil =>
      refine iff_of_false hout ?_
      rintro ⟨value, hlast, -⟩
      cases hlast
  | append_singleton ps p ih =>
      rw [List.foldl_concat, idValue_read, LastId, List.filterMap_append]
      cases hvalue : p.idValue with
      | none =>
          rw [List.filterMap_cons_none hvalue, List.filterMap_nil, List.append_nil]
          exact ih
      | some value =>
          rw [List.filterMap_cons_some hvalue, List.filterMap_nil, List.getLast?_concat]
          simp only [Option.some_inj, exists_eq_left']
          exact copyId_eq_iff hd (comma_not_mem_idValue hvalue)

theorem parsePayload_id_iff {d : CStr} (hd : d ≠ []) (text : CStr) (init : Parsed) :
    (parsePayload (some text) 256 init).id = d ↔ NamesBare d text := by
  have hparts : ∀ t : Parts, t.text = text.take 511 →
      ((parsePayload (some text) 256 init).id = d ↔ LastId d t.all) := by
    intro t ht
    rw [parsePayload, ← ht, parseFrom_parts]
    exact foldl_read_id hd t.all (Ne.symm hd)
  constructor
  · intro hid
    obtain ⟨t, ht⟩ := exists_parts (text.take 511)
    exact ⟨t, ht, (hparts t ht).mp hid⟩
  · rintro ⟨t, ht, hlast⟩
    exact (hparts t ht).mpr hlast

/-- A report in the documented form does not name its device bare. -/
theorem report_not_bare {o : Object} {r : StatusReport} (h : Documents o r) (hd : r.id.chars ≠ []) :
    ¬ NamesBare r.id.chars o.text := by
  rw [← parsePayload_id_iff hd o.text cleared, parsePayload_id h]
  split
  · exact not_false
  · exact Ne.symm hd

/-! ### Messages -/

theorem isPrefix_test (topic : CStr) : strncmpEq 12 topic statusPrefix = true ↔ topic = statusPrefix :=
  strncmpEq_succ topic statusPrefix

/-- On a topic that the handler takes, the device is that of the payload. -/
theorem heartbeats_taken (s : DeviceSystem) (timesync : Bool) (stack : CStr) {topic : CStr}
    (payload : Option CStr) (htopic : topic = statusTopic ∨ topic = statusPrefix) :
    heartbeats (onMessageCalls ⟨some s, timesync⟩ stack (some topic) payload) =
      if (parsePayload payload 256 ⟨.none, stack, 0, 0, 0⟩).id = [] then []
      else [(parsePayload payload 256 ⟨.none, stack, 0, 0, 0⟩).id] := by
  have htaken : topic = statusTopic ∨ strncmpEq 12 topic statusPrefix = true := by
    rw [isPrefix_test]
    exact htopic
  have hnode : topicNode topic = [] := by
    rcases htopic with rfl | rfl
    · decide
    · decide
  unfold onMessageCalls
  simp only [htaken, if_true, hnode, Option.isSome_some]
  split
  · rfl
  · split
    · rfl
    · rfl

/-- Other topics are left alone. -/
theorem onMessageCalls_other (t : HtsnTelemetry) (stack : CStr) {topic : CStr} (payload : Option CStr)
    (hstatus : topic ≠ statusTopic) (hstart : topic ≠ statusPrefix) :
    onMessageCalls t stack (some topic) payload = [] := by
  have hother : ¬ (topic = statusTopic ∨ strncmpEq 12 topic statusPrefix = true) := by
    rw [isPrefix_test, not_or]
    exact ⟨hstatus, hstart⟩
  exact if_neg hother

theorem statusTopic_ne_append (d : CStr) : statusPrefix ++ d ≠ statusTopic := by
  intro h
  have hlen := congrArg List.length h
  rw [List.length_append] at hlen
  have hstart : statusPrefix.length = 11 := rfl
  have hstatus : statusTopic.length = 10 := rfl
  omega

/-- A heartbeat makes the device online. -/
theorem online_recordHeartbeat {s : DeviceSystem} {d : CStr} {dev : Device}
    (hreg : deviceManagerGet s.manager d = some dev) (now : Int64) :
    Online (deviceManagerRecordHeartbeat s now d).2 d := by
  refine ⟨dev.heartbeat now, ?_, rfl⟩
  rw [deviceManagerRecordHeartbeat, withDevice, hreg]
  exact findBy_modifyBy (f := Device.heartbeat now) (fun _ => rfl) hreg

/-- Only the heartbeats among the calls change the devices. -/
theorem foldl_apply (now : Int64) (calls : List Call) (s : DeviceSystem) :
    calls.foldl (Call.apply now) s =
      (heartbeats calls).foldl (fun s dev => (deviceManagerRecordHeartbeat s now dev).2) s := by
  induction calls generalizing s with
  | nil => rfl
  | cons c calls ih => cases c <;> exact ih _

/-- For a registered device it is enough that the heartbeat is recorded. -/
theorem heartbeats_of_calls {s : DeviceSystem} {timesync : Bool} {now : Int64} {stack topic d : CStr}
    {payload : Option CStr} {dev : Device} (hreg : deviceManagerGet s.manager d = some dev) :
    Heartbeats s timesync now stack topic payload d ↔
      heartbeats (onMessageCalls ⟨some s, timesync⟩ stack (some topic) payload) = [d] := by
  refine ⟨And.left, fun hcalls => ⟨hcalls, ?_⟩⟩
  intro s' hs'
  rw [onMessage, Option.map_some, foldl_apply, hcalls, Option.mem_some_iff] at hs'
  rw [← hs']
  exact online_recordHeartbeat hreg now

/-- A message of a registered device makes the handler record its heartbeat
exactly if its topic is `tsn/status` and its payload names the device bare. -/
theorem heartbeats_iff (s : DeviceSystem) (timesync : Bool) (now : Int64) (stack : CStr)
    {d topic : CStr} {payload : Option CStr} {dev : Device}
    (hreg : deviceManagerGet s.manager d = some dev) (h : StatusMessage d topic payload) :
    Heartbeats s timesync now stack topic payload d ↔
      d ≠ [] ∧ topic = statusTopic ∧ ∃ text, payload = some text ∧ NamesBare d text := by
  rw [heartbeats_of_calls hreg]
  cases h with
  | device payload =>
      have hstatus := statusTopic_ne_append d
      refine iff_of_false ?_ fun hright => hstatus hright.2.1
      by_cases hd : d = []
      · rw [hd, List.append_nil, heartbeats_taken s timesync stack payload (.inr rfl)]
        split
        · exact List.cons_ne_nil _ _ ∘ Eq.symm
        · rename_i hid
          intro heq
          exact hid (List.head_eq_of_cons_eq heq)
      · have hstart : statusPrefix ++ d ≠ statusPrefix := by
          rw [Ne, List.append_right_eq_self]
          exact hd
        rw [onMessageCalls_other _ stack payload hstatus hstart]
        exact List.cons_ne_nil _ _ ∘ Eq.symm
  | suffixed suffix payload =>
      have htopic : statusPrefix ++ d ++ '/' :: suffix = statusPrefix ++ (d ++ '/' :: suffix) :=
        List.append_assoc _ _ _
      have hstatus := statusTopic_ne_append (d ++ '/' :: suffix)
      have hstart : statusPrefix ++ (d ++ '/' :: suffix) ≠ statusPrefix := by
        rw [Ne, List.append_right_eq_self]
        simp
      rw [htopic, onMessageCalls_other _ stack payload hstatus hstart]
      exact iff_of_false (List.cons_ne_nil _ _ ∘ Eq.symm) fun hright => hstatus hright.2.1
  | report text =>
      rw [heartbeats_taken s timesync stack (some text) (.inl rfl)]
      constructor
      · intro heq
        split at heq
        · cases heq
        · rename_i hid
          have hsame := List.head_eq_of_cons_eq heq
          have hd : d ≠ [] := hsame ▸ hid
          exact ⟨hd, rfl, text, rfl, (parsePayload_id_iff hd text _).mp hsame⟩
      · rintro ⟨hd, -, text', htext, hnames⟩
        cases htext
        have hid := (parsePayload_id_iff hd text ⟨.none, stack, 0, 0, 0⟩).mpr hnames
        rw [hid, if_neg hd]

/-- A manager with one device, which is offline. -/
def oneDevice (id : CStr) : DeviceSystem :=
  ⟨Db.empty, ⟨Slots.empty.push { Device.ofId id "default".toList with status := deviceOffline }⟩⟩

/-- `{"id":"5","idx":5}` on `tsn/status`: the second member ends the id. -/
theorem heartbeats_bare :
    Heartbeats (oneDevice ['5']) false 100 [] statusTopic (some "\x7b\"id\":\"5\",\"idx\":5\x7d".toList)
      ['5'] :=
  (heartbeats_iff (oneDevice ['5']) false 100 [] rfl
    (.report "\x7b\"id\":\"5\",\"idx\":5\x7d".toList)).mpr
    ⟨by decide, rfl, _, rfl,
      ⟨[.keyed ['\x7b', '"'] .id ['"'] "\"5\"".toList (by decide) (by decide) (by decide)],
        .part (.keyed ['"'] .id "x\"".toList "5\x7d".toList (by decide) (by decide) (by decide))⟩,
      rfl, "5\x7d".toList, rfl,
      [], ['\x7d'], rfl, by decide, by rintro _ ⟨⟩; decide, by decide, by decide,
      .inr (.inr rfl)⟩

/-- A message on the topic of a registered device records nothing. -/
theorem deviceTopic_not_heartbeat : ¬ ∀ (s : DeviceSystem) (timesync : Bool) (now : Int64)
    (stack d topic : CStr) (payload : Option CStr) (dev : Device),
    deviceManagerGet s.manager d = some dev → StatusMessage d topic payload →
      Heartbeats s timesync now stack topic payload d := by
  intro h
  have hheart := h (oneDevice "esp-1".toList) true 100 [] "esp-1".toList _ (some "online".toList) _ rfl
    (.device (some "online".toList))
  exact absurd hheart.1 (by decide)

end Htsn.Telemetry
