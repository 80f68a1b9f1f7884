import WirelessTsn.Db.Streams

/-!
A stream that is saved and loaded. The listeners are rows of their own: an
empty name gets none, and the reserved name `*` is read back as the flag, so
neither comes back as a listener.
-/

namespace Htsn

open CText Keyed

/-- A name that has a row and is read back as a listener. -/
def IsListener (l : Str) : Prop := l.chars ≠ [] ∧ l.chars ≠ allListeners

instance (l : Str) : Decidable (IsListener l) :=
  inferInstanceAs (Decidable (l.chars ≠ [] ∧ l.chars ≠ allListeners))

/-- The rows of a stream that are read back as listeners. -/
theorem explicit_listenerRows (s : Stream) :
    ((listenerRows s).filter StreamMember.isExplicit).map StreamMember.deviceId =
      s.listeners.items.filter fun l => decide (IsListener l) := by
  have hwild : (if s.listenerAll then [⟨s.streamId, .listener, allListenersId⟩] else []).filter
      StreamMember.isExplicit = [] := by
    cases s.listenerAll with
    | true => simp [StreamMember.isExplicit, allListenersId_chars]
    | false => rfl
  have hname : StreamMember.deviceId ∘ StreamMember.mk s.streamId .listener = id := rfl
  rw [listenerRows, List.filter_append, hwild, List.nil_append, List.filter_map, List.map_map,
    List.filter_filter, hname, List.map_id]
  apply List.filter_congr
  intro l _
  simp [StreamMember.isExplicit, IsListener, and_comm]

theorem reloaded_listeners (s : Stream) :
    s.reloaded.listeners.items = s.listeners.items.filter fun l => decide (IsListener l) := by
  have hfits : (s.listeners.items.filter fun l => decide (IsListener l)).length ≤ maxDevices :=
    (List.length_filter_le _ _).trans s.listeners.fits
  show ((listenerRows s).foldl loadMember (.empty, false)).1.items = _
  rw [foldl_loadMember, explicit_listenerRows, Slots.foldl_push_items, Slots.empty_items,
    List.nil_append, List.take_of_length_le hfits]

theorem reloaded_listenerAll (s : Stream) :
    s.reloaded.listenerAll = true ↔
      s.listenerAll = true ∨ ∃ l ∈ s.listeners.items, l.chars = allListeners := by
  have hwild : (if s.listenerAll then [⟨s.streamId, .listener, allListenersId⟩] else []).any
      StreamMember.isWildcard = s.listenerAll := by
    cases s.listenerAll with
    | true => simp [StreamMember.isWildcard, allListenersId_chars]
    | false => rfl
  have hempty : allListeners ≠ [] := by decide
  show ((listenerRows s).foldl loadMember (.empty, false)).2 = true ↔ _
  rw [foldl_loadMember, Bool.false_or, listenerRows, List.any_append, hwild, Bool.or_eq_true]
  apply or_congr_right
  rw [List.any_eq_true]
  constructor
  · rintro ⟨m, hm, hname⟩
    obtain ⟨l, hl, rfl⟩ := List.mem_map.mp hm
    exact ⟨l, (List.mem_filter.mp hl).1, by simpa [StreamMember.isWildcard] using hname⟩
  · rintro ⟨l, hl, hname⟩
    have hrow : l ∈ s.listeners.items.filter fun l => !decide (l.chars = []) :=
      List.mem_filter.mpr ⟨hl, by simp [hname, hempty]⟩
    exact ⟨_, List.mem_map_of_mem hrow, by simp [StreamMember.isWildcard, hname]⟩

/-- The members of a stream do not count for the check but in its last
line. -/
theorem streamValidate_congr {s t : Stream} (h : streamRow t = streamRow s) (hok : streamValidate s = .ok)
    (hlisteners : t.listenerAll = true ∨ t.listeners.items ≠ []) : streamValidate t = .ok := by
  have hmembers : ¬ (t.listenerAll = false ∧ t.listeners.items.length = 0) := by
    rintro ⟨hall, hnone⟩
    rcases hlisteners with h | h
    · exact Bool.false_ne_true (hall.symm.trans h)
    · exact h (List.length_eq_zero_iff.mp hnone)
  simp only [streamRow, StreamRow.mk.injEq] at h
  obtain ⟨hid, -, htalker, hvlan, hlatency, hinterval, hprio, hframe, -⟩ := h
  unfold streamValidate at hok ⊢
  rw [hid, htalker, hvlan, hlatency, hinterval, hprio, hframe, if_neg hmembers]
  split_ifs at hok ⊢
  rfl

/-- A stream that is accepted comes back with all its columns; the flag is set
if it was or if a listener has the reserved name, and the list is without that
name and without empty ones. If it still has someone to reach, it is accepted
again. -/
theorem saved_stream_reloads (db : Db) (s : Stream) (hok : streamValidate s = .ok)
    (hstatus : statusChecked s.status) :
    ∃ t, dbTsnLoad (dbTsnSave db s).2 s.streamId.chars = .ok t ∧ streamRow t = streamRow s ∧
      (t.listenerAll = true ↔
        s.listenerAll = true ∨ ∃ l ∈ s.listeners.items, l.chars = allListeners) ∧
      t.listeners.items = (s.listeners.items.filter fun l => decide (IsListener l)) ∧
      (t.listenerAll = true ∨ t.listeners.items ≠ [] → streamValidate t = .ok) := by
  have hload := dbTsnLoad_save_self db s hstatus
  refine ⟨s.reloaded, ?_, streamRow_reloaded s, reloaded_listenerAll s, reloaded_listeners s,
    streamValidate_congr (streamRow_reloaded s) hok⟩
  cases hresult : dbTsnLoad (dbTsnSave db s).2 s.streamId.chars with
  | error e =>
      rw [hresult] at hload
      cases hload
  | ok t =>
      rw [hresult] at hload
      cases hload
      rfl

theorem request_reloads :
    ∃ t, dbTsnLoad (dbTsnSave .empty (.request "s1".toList "esp32-01".toList "rpi-1".toList 0)).2
        "s1".toList = .ok t ∧
      streamRow t = streamRow (.request "s1".toList "esp32-01".toList "rpi-1".toList 0) ∧
      streamValidate t = .ok := by
  obtain ⟨t, hload, hrow, -, hitems, hvalid⟩ := saved_stream_reloads .empty
    (.request "s1".toList "esp32-01".toList "rpi-1".toList 0) (by decide) (by decide)
  refine ⟨t, hload, hrow, hvalid (Or.inr ?_)⟩
  rw [hitems]
  decide

/-- A listener with the reserved name comes back as the flag. -/
theorem reserved_listener_lost :
    ¬ ∀ (db : Db) (s : Stream), streamValidate s = .ok → statusChecked s.status →
      ∃ t, dbTsnLoad (dbTsnSave db s).2 s.streamId.chars = .ok t ∧ streamRow t = streamRow s ∧
        t.listenerAll = s.listenerAll ∧ t.listeners.items = s.listeners.items ∧
        streamValidate t = .ok := by
  intro hclaim
  obtain ⟨t, hload, -, -, hitems, -⟩ := hclaim .empty
    (.request "s1".toList "esp32-01".toList "*".toList 0) (by decide) (by decide)
  have hback : (dbTsnLoad (dbTsnSave .empty (.request "s1".toList "esp32-01".toList "*".toList 0)).2
      "s1".toList).toOption.map (fun t => t.listeners.items) = some [] := by decide
  have hid : (Stream.request "s1".toList "esp32-01".toList "*".toList 0).streamId.chars =
      "s1".toList := by decide
  rw [hid] at hload
  rw [hload] at hback
  have hnone : t.listeners.items = [] := Option.some.inj hback
  rw [hnone] at hitems
  exact absurd hitems (by decide)

end Htsn
