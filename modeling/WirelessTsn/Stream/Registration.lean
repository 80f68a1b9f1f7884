import WirelessTsn.Stream.Manager
import WirelessTsn.Esp32.Agent

/-!
The payload of `publish_stream` at the `stream` handler of the ESP32 agent.
The sender names the stream id `stream`, the handler looks for `stream_id`, so
no stream is ever registered.
-/

namespace Htsn

open CText Json

/-- The handler acknowledges the published stream and holds a stream with its
eight fields. -/
def Registers (a : Esp32.Agent) (s : Stream) (role : StreamRole) : Prop :=
  ∃ a' ack, Esp32.onStream a (streamPayload s role) = some (a', ack) ∧ ack.ok = true ∧
    ∃ t ∈ a'.streams.items, t.streamId.chars = s.streamId.chars ∧ t.name.chars = s.name.chars ∧
      t.talker.chars = s.talker.chars ∧ t.vlanId = s.vlanId ∧ t.maxLatencyNs = s.maxLatencyNs ∧
      t.maxIntervalNs = s.maxIntervalNs ∧ t.priority = s.priority ∧
      t.dataFramePrio = s.dataFramePrio

/-- No quotes and no control characters. -/
def Clean (s : CStr) : Prop := ∀ c ∈ s, c ≠ '"' ∧ ' ' ≤ c

instance (s : CStr) : Decidable (Clean s) :=
  inferInstanceAs (Decidable (∀ c ∈ s, c ≠ '"' ∧ ' ' ≤ c))

structure CleanStream (s : Stream) : Prop where
  streamId : Clean s.streamId.chars
  name : Clean s.name.chars
  talker : Clean s.talker.chars

theorem clean_streamRoleStr (role : StreamRole) : Clean (streamRoleStr role) := by
  cases role <;> decide

theorem clean_streamStatusStr (st : Int32) : Clean (streamStatusStr st) := by
  unfold streamStatusStr
  split
  · decide
  · split
    · decide
    · split <;> decide

/-- The members of a published stream. -/
def streamMembers (s : Stream) (role : StreamRole) (h : CleanStream s) : List Member :=
  [.compact (.lit "stream".toList) (.str ⟨s.streamId.chars, h.streamId⟩),
    .compact (.lit "name".toList) (.str ⟨s.name.chars, h.name⟩),
    .compact (.lit "role".toList) (.str ⟨streamRoleStr role, clean_streamRoleStr role⟩),
    .compact (.lit "talker".toList) (.str ⟨s.talker.chars, h.talker⟩),
    .compact (.lit "vlan_id".toList) (.ofInt s.vlanId.toInt),
    .compact (.lit "latency_ns".toList) (.ofInt s.maxLatencyNs.toInt),
    .compact (.lit "interval_ns".toList) (.ofInt s.maxIntervalNs.toInt),
    .compact (.lit "priority".toList) (.ofInt s.priority.toInt),
    .compact (.lit "dfprio".toList) (.ofInt s.dataFramePrio.toInt),
    .compact (.lit "status".toList)
      (.str ⟨streamStatusStr s.status, clean_streamStatusStr s.status⟩)]

def streamObject (s : Stream) (role : StreamRole) (h : CleanStream s) : Object :=
  ⟨.none, .none, streamMembers s role h, .none⟩

/-- `payload[1024]` holds the whole text. -/
def PayloadFits (s : Stream) (role : StreamRole) (h : CleanStream s) : Prop :=
  (streamObject s role h).text.length < 1024

theorem streamPayload_eq {s : Stream} {role : StreamRole} {h : CleanStream s}
    (hfits : PayloadFits s role h) : streamPayload s role = (streamObject s role h).text := by
  rw [← Buf.copy_chars_of_lt hfits, streamPayload]
  simp only [streamObject, streamMembers, Object.text, membersText, membersTail, Member.text,
    Member.compact, Member.valueText, Value.text_ofInt]
  simp only [Value.text, Ws.none, String.reduceToList, List.append_assoc, List.cons_append,
    List.nil_append]

/-- None of the members is the stream id the handler looks for. -/
theorem locate_streamId (s : Stream) (role : StreamRole) (h : CleanStream s) :
    (streamObject s role h).locate "stream_id".toList = none := rfl

/-- Without white space behind the object a reader always comes back. -/
theorem lookup_streamObject {α : Type} (read : CStr → Option α) (s : Stream) (role : StreamRole)
    (h : CleanStream s) (key : CStr) :
    ∃ r, Esp32.lookup read (streamObject s role h).text key = some r := by
  rw [Esp32.lookup_object]
  cases (streamObject s role h).locate key with
  | none => exact ⟨none, if_pos rfl⟩
  | some l => exact ⟨_, rfl⟩

/-- The handler refuses every published stream. -/
theorem onStream_streamPayload {s : Stream} {role : StreamRole} {h : CleanStream s}
    (hfits : PayloadFits s role h) (a : Esp32.Agent) :
    Esp32.onStream a (streamPayload s role) = some (a, ⟨false, "stream_invalid".toList⟩) := by
  have hid : Esp32.getStr (streamObject s role h).text "stream_id".toList 48 = some none := by
    rw [Esp32.getStr, Esp32.lookup_object, locate_streamId]
    exact if_pos rfl
  have hread := fun {α : Type} (read : CStr → Option α) (key : CStr) =>
    lookup_streamObject read s role h key
  obtain ⟨name, hname⟩ := hread (readStr 64) "name".toList
  obtain ⟨talker, htalker⟩ := hread (readStr 64) "talker".toList
  obtain ⟨vlan, hvlan⟩ := hread (readNumber 31 Esp32.atoi) "vlan_id".toList
  obtain ⟨latency, hlatency⟩ := hread (readNumber 31 atoll) "max_latency_ns".toList
  obtain ⟨interval, hinterval⟩ := hread (readNumber 31 atoll) "max_interval_ns".toList
  obtain ⟨prio, hprio⟩ := hread (readNumber 31 Esp32.atoi) "priority".toList
  obtain ⟨dfprio, hdfprio⟩ := hread (readNumber 31 Esp32.atoi) "data_frame_prio".toList
  obtain ⟨arr, harr⟩ := hread Esp32.readArray "listeners".toList
  rw [streamPayload_eq hfits, Esp32.onStream, hid]
  simp only [Esp32.getStr, Esp32.getInt, Esp32.getI64, Esp32.getRootArray, hname, htalker, hvlan,
    hlatency, hinterval, hprio, hdfprio, harr, Option.bind_eq_bind, Option.bind_some]
  rfl

theorem not_registers {s : Stream} {role : StreamRole} {h : CleanStream s}
    (hfits : PayloadFits s role h) (a : Esp32.Agent) : ¬ Registers a s role := by
  rintro ⟨a', ack, hrun, hok, _⟩
  rw [onStream_streamPayload hfits] at hrun
  cases hrun
  cases hok

/-- Whatever the agent's state, a published stream is refused and not
registered. -/
theorem published_stream_refused (s : Stream) (role : StreamRole) (h : CleanStream s)
    (hfits : PayloadFits s role h) (a : Esp32.Agent) :
    Esp32.onStream a (streamPayload s role) = some (a, ⟨false, "stream_invalid".toList⟩) ∧
      ¬ Registers a s role :=
  ⟨onStream_streamPayload hfits a, not_registers hfits a⟩

/-- A valid stream from `d1` to `d2`. -/
def cameraStream : Stream := .request "cam".toList "d1".toList "d2".toList 0

theorem cameraStream_clean : CleanStream cameraStream := ⟨by decide, by decide, by decide⟩

theorem cameraStream_fits : PayloadFits cameraStream .talker cameraStream_clean := by
  unfold PayloadFits
  decide +kernel

theorem cameraStream_refused :
    PayloadFits cameraStream .talker cameraStream_clean ∧
      Esp32.onStream {} (streamPayload cameraStream .talker) =
        some ({}, ⟨false, "stream_invalid".toList⟩) :=
  ⟨cameraStream_fits,
    (published_stream_refused cameraStream .talker cameraStream_clean cameraStream_fits {}).1⟩

theorem cameraStream_not_registered :
    streamValidate cameraStream = .ok ∧ CleanStream cameraStream ∧
      PayloadFits cameraStream .talker cameraStream_clean ∧
      ¬ Registers {} cameraStream .talker :=
  ⟨by decide, cameraStream_clean, cameraStream_fits, not_registers cameraStream_fits {}⟩

end Htsn
