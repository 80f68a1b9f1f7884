import WirelessTsn.Db.Schema

/-!
`db_tsn.c`: the stream table, whose status column carries a CHECK, and the
member table that refers to it. A step that violates a constraint fails
without effect, and no function here looks at its result.
-/

namespace Htsn

open CText Keyed

/-- The row bound by `htsn_db_tsn_save`: every field but the members. -/
def streamRow (s : Stream) : StreamRow where
  streamId := s.streamId
  name := s.name
  talker := s.talker
  vlanId := s.vlanId
  maxLatencyNs := s.maxLatencyNs
  maxIntervalNs := s.maxIntervalNs
  priority := s.priority
  dataFramePrio := s.dataFramePrio
  status := s.status
  comment := s.comment

def streamKey (s : Stream) : CStr := s.streamId.chars

@[simp] theorem key_streamRow (s : Stream) :
    PrimaryKey.key (streamRow s) = s.streamId.chars := rfl

/-- `INSERT .. ON CONFLICT(stream_id) DO UPDATE`, subject to the CHECK. -/
def Db.upsertStream (db : Db) (r : StreamRow) : Db :=
  if statusChecked r.status then { db with tsnStreams := db.tsnStreams.upsert r } else db

def Db.deleteStreamMembers (db : Db) (id : CStr) : Db :=
  { db with tsnStreamMembers := db.tsnStreamMembers.filter fun m => !decide (m.streamId.chars = id) }

/-- `INSERT INTO tsn_stream_members`, subject to its foreign key. -/
def Db.insertStreamMember (db : Db) (m : StreamMember) : Db :=
  if db.tsnStreams.Has m.streamId.chars then
    { db with tsnStreamMembers := db.tsnStreamMembers ++ [m] }
  else db

/-- `DELETE FROM tsn_streams WHERE stream_id=?` with its cascade. -/
def Db.deleteStream (db : Db) (id : CStr) : Db :=
  if db.tsnStreams.Has id then
    { db with
      tsnStreams := db.tsnStreams.deleteWhere fun r => decide (r.streamId.chars = id)
      tsnStreamMembers :=
        db.tsnStreamMembers.filter fun m => !decide (m.streamId.chars = id) }
  else db

/-- `HTSN_STREAM_ALL_LISTENERS` as a member's device id. -/
def allListenersId : Str := Buf.copy 256 allListeners

/-- The listener rows of a stream: the wildcard first, then every listener
that is not empty. -/
def listenerRows (s : Stream) : List StreamMember :=
  (if s.listenerAll then [⟨s.streamId, .listener, allListenersId⟩] else []) ++
    (s.listeners.items.filter fun l => !decide (l.chars = [])).map
      (StreamMember.mk s.streamId .listener)

def memberRows (s : Stream) : List StreamMember :=
  ⟨s.streamId, .talker, s.talker⟩ :: listenerRows s

def dbTsnSave (db : Db) (s : Stream) : HtsnError × Db :=
  if prepares .tsnSave then
    let db := db.upsertStream (streamRow s)
    if prepares .tsnMemberDelete then
      let db := db.deleteStreamMembers s.streamId.chars
      if prepares .tsnMemberInsert then
        (.ok, (memberRows s).foldl Db.insertStreamMember db)
      else (.db, db)
    else (.db, db)
  else (.db, db)

/-- The member loop of `htsn_db_tsn_load`: what it has collected so far and
the next row. -/
def loadMember (acc : Slots Str maxDevices × Bool) (m : StreamMember) :
    Slots Str maxDevices × Bool :=
  if m.role = .listener then
    if m.deviceId.chars = allListeners then (acc.1, true) else (acc.1.push m.deviceId, acc.2)
  else acc

def loadMembers (db : Db) (id : CStr) : Slots Str maxDevices × Bool :=
  (db.tsnStreamMembers.filter fun m => decide (m.streamId.chars = id)).foldl loadMember
    (.empty, false)

/-- The stream of a row and the members collected for it. -/
def streamOf (r : StreamRow) (members : Slots Str maxDevices × Bool) : Stream where
  streamId := r.streamId
  name := r.name
  talker := r.talker
  vlanId := r.vlanId
  maxLatencyNs := r.maxLatencyNs
  maxIntervalNs := r.maxIntervalNs
  priority := r.priority
  dataFramePrio := r.dataFramePrio
  status := r.status
  comment := r.comment
  listeners := members.1
  listenerAll := members.2

def dbTsnLoad (db : Db) (id : CStr) : Except HtsnError Stream :=
  if prepares .tsnSelect then
    match db.tsnStreams.find id with
    | none => .error .notFound
    | some r =>
        if prepares .tsnMemberSelect then .ok (streamOf r (loadMembers db id)) else .error .db
  else .error .db

/-- The streams that `htsn_db_tsn_for_each` hands to a callback that never
stops it. -/
def dbTsnForEach (db : Db) : List Stream :=
  if prepares .tsnSelectIds then
    db.tsnStreams.rows.filterMap fun r => (dbTsnLoad db r.streamId.chars).toOption
  else []

def dbTsnDelete (db : Db) (id : CStr) : HtsnError × Db :=
  if prepares .tsnDelete then
    let db := db.deleteStream id
    if prepares .tsnMemberDelete then (.ok, db.deleteStreamMembers id) else (.db, db)
  else (.db, db)

/-- `UPDATE tsn_streams SET status=?`, subject to the CHECK. -/
def dbTsnSetStatus (db : Db) (id : CStr) (status : Int32) : HtsnError × Db :=
  if prepares .tsnSetStatus then
    (.ok,
      if statusChecked status then
        { db with
          tsnStreams := db.tsnStreams.updateWhere (fun r => decide (r.streamId.chars = id))
            (fun r => { r with status := status }) fun _ => rfl }
      else db)
  else (.db, db)

/-- A member row that names a listener, and one that names all of them. -/
def StreamMember.isExplicit (m : StreamMember) : Bool :=
  decide (m.role = .listener) && !decide (m.deviceId.chars = allListeners)

def StreamMember.isWildcard (m : StreamMember) : Bool :=
  decide (m.role = .listener) && decide (m.deviceId.chars = allListeners)

/-- The member loop keeps the named listeners in order and notes a wildcard. -/
theorem foldl_loadMember (ms : List StreamMember) (acc : Slots Str maxDevices × Bool) :
    ms.foldl loadMember acc =
      (((ms.filter StreamMember.isExplicit).map StreamMember.deviceId).foldl Slots.push acc.1,
        acc.2 || ms.any StreamMember.isWildcard) := by
  induction ms generalizing acc with
  | nil => simp
  | cons m ms ih =>
      rw [List.foldl_cons, ih]
      by_cases hrole : m.role = .listener
      · by_cases hall : m.deviceId.chars = allListeners
        · simp [loadMember, StreamMember.isExplicit, StreamMember.isWildcard, hrole, hall]
        · simp [loadMember, StreamMember.isExplicit, StreamMember.isWildcard, hrole, hall]
      · simp [loadMember, StreamMember.isExplicit, StreamMember.isWildcard, hrole]

/-- The listeners of a stream: its explicit rows, as many as fit. -/
theorem loadMembers_items (db : Db) (id : CStr) :
    (loadMembers db id).1.items =
      (((db.tsnStreamMembers.filter fun m => decide (m.streamId.chars = id)).filter
        StreamMember.isExplicit).map StreamMember.deviceId).take maxDevices := by
  simp [loadMembers, foldl_loadMember, Slots.foldl_push_items]

theorem loadMembers_all (db : Db) (id : CStr) :
    (loadMembers db id).2 =
      (db.tsnStreamMembers.filter fun m => decide (m.streamId.chars = id)).any
        StreamMember.isWildcard := by
  simp [loadMembers, foldl_loadMember]

/-- The member rows that read back as the given listeners and wildcard. -/
def membersOf (streamId : Str) (listeners : List Str) (all : Bool) : List StreamMember :=
  listeners.map (StreamMember.mk streamId .listener) ++
    if all then [⟨streamId, .listener, allListenersId⟩] else []

theorem allListenersId_chars : allListenersId.chars = allListeners := by decide

/-- Listeners with names of their own are read back with the wildcard. -/
theorem foldl_loadMember_membersOf (id : Str) (listeners : Slots Str maxDevices) (all : Bool)
    (h : ∀ l ∈ listeners.items, l.chars ≠ allListeners) :
    (membersOf id listeners.items all).foldl loadMember (.empty, false) = (listeners, all) := by
  have hexplicit : (membersOf id listeners.items all).filter StreamMember.isExplicit =
      listeners.items.map (StreamMember.mk id .listener) := by
    have hall : (listeners.items.map (StreamMember.mk id .listener)).filter
        StreamMember.isExplicit = listeners.items.map (StreamMember.mk id .listener) := by
      rw [List.filter_eq_self]
      intro m hm
      obtain ⟨l, hl, rfl⟩ := List.mem_map.mp hm
      simp [StreamMember.isExplicit, h l hl]
    cases all with
    | false => simp [membersOf, hall]
    | true => simp [membersOf, hall, StreamMember.isExplicit, allListenersId_chars]
  have hwild : (membersOf id listeners.items all).any StreamMember.isWildcard = all := by
    have hnone : ∀ l ∈ listeners.items,
        (StreamMember.mk id .listener l).isWildcard = false := by
      intro l hl
      simp [StreamMember.isWildcard, h l hl]
    cases all with
    | false => simpa [membersOf] using hnone
    | true => simp [membersOf, StreamMember.isWildcard, allListenersId_chars]
  have hpush : listeners.items.foldl Slots.push (.empty : Slots Str maxDevices) = listeners := by
    apply Slots.ext
    rw [Slots.foldl_push_items, Slots.empty_items, List.nil_append,
      List.take_of_length_le listeners.fits]
  rw [foldl_loadMember, hexplicit, hwild, List.map_map]
  simp [Function.comp_def, hpush]

/-- The stream read from a row and the member table. -/
def streamOfRow (db : Db) (r : StreamRow) : Stream :=
  streamOf r (loadMembers db r.streamId.chars)

@[simp] theorem streamRow_streamOfRow (db : Db) (r : StreamRow) :
    streamRow (streamOfRow db r) = r := rfl

@[simp] theorem streamKey_streamOfRow (db : Db) (r : StreamRow) :
    streamKey (streamOfRow db r) = r.streamId.chars := rfl

/-- A stream is found exactly when it has a row. -/
theorem dbTsnLoad_toOption (db : Db) (id : CStr) :
    (dbTsnLoad db id).toOption = (db.tsnStreams.find id).map (streamOfRow db) := by
  simp only [dbTsnLoad, prepares_eq, Sql.namesIndex, Bool.not_false, if_true]
  cases hfind : db.tsnStreams.find id with
  | none => rfl
  | some r =>
      obtain ⟨-, hkey⟩ := db.tsnStreams.find_eq_some.mp hfind
      have hid : r.streamId.chars = id := hkey
      subst hid
      rfl

/-- Walking the table reads every row in order. -/
theorem dbTsnForEach_eq (db : Db) :
    dbTsnForEach db = db.tsnStreams.rows.map (streamOfRow db) := by
  simp only [dbTsnForEach, prepares_eq, Sql.namesIndex, Bool.not_false, if_true]
  rw [← List.filterMap_eq_map]
  apply List.filterMap_congr
  intro r hr
  have hfind : db.tsnStreams.find r.streamId.chars = some r :=
    db.tsnStreams.find_eq_some.mpr ⟨hr, rfl⟩
  rw [dbTsnLoad_toOption, hfind]
  rfl

private theorem foldl_insertStreamMember (db : Db) (id : Str) (ms : List StreamMember)
    (hms : ∀ m ∈ ms, m.streamId = id) :
    ms.foldl Db.insertStreamMember db =
      if db.tsnStreams.Has id.chars then
        { db with tsnStreamMembers := db.tsnStreamMembers ++ ms }
      else db := by
  induction ms generalizing db with
  | nil => simp
  | cons m ms ih =>
      have hm : m.streamId = id := hms m (by simp)
      have hrest := fun db => ih db fun m' hm' => hms m' (by simp [hm'])
      rw [List.foldl_cons, hrest]
      by_cases hhas : db.tsnStreams.Has id.chars
      · simp [Db.insertStreamMember, hm, hhas]
      · simp [Db.insertStreamMember, hm, hhas]

theorem memberRows_streamId (s : Stream) : ∀ m ∈ memberRows s, m.streamId = s.streamId := by
  intro m hm
  simp only [memberRows, listenerRows, List.mem_cons, List.mem_append, List.mem_map] at hm
  rcases hm with rfl | hall | ⟨l, -, rfl⟩
  · rfl
  · split at hall
    · rw [List.mem_singleton] at hall
      rw [hall]
    · simp at hall
  · rfl

/-- What `htsn_db_tsn_save` leaves: the row, if its status passes the CHECK,
and the member rows of the stream, if it then has a row. -/
theorem dbTsnSave_eq (db : Db) (s : Stream) :
    dbTsnSave db s = (.ok,
      let streams := if statusChecked s.status then db.tsnStreams.upsert (streamRow s)
        else db.tsnStreams
      { db with
        tsnStreams := streams
        tsnStreamMembers :=
          (db.tsnStreamMembers.filter fun m => !decide (m.streamId.chars = s.streamId.chars)) ++
            if streams.Has s.streamId.chars then memberRows s else [] }) := by
  simp only [dbTsnSave, prepares_eq, Sql.namesIndex, Bool.not_false, if_true]
  rw [foldl_insertStreamMember _ s.streamId _ (memberRows_streamId s)]
  by_cases hstatus : statusChecked s.status
  · have hrow : statusChecked (streamRow s).status := hstatus
    have hhas := db.tsnStreams.has_upsert_self (streamRow s)
    rw [key_streamRow] at hhas
    simp [Db.upsertStream, Db.deleteStreamMembers, hrow, hstatus, hhas]
  · have hrow : ¬ statusChecked (streamRow s).status := hstatus
    by_cases hhas : db.tsnStreams.Has s.streamId.chars
    · simp [Db.upsertStream, Db.deleteStreamMembers, hrow, hstatus, hhas]
    · simp [Db.upsertStream, Db.deleteStreamMembers, hrow, hstatus, hhas]

/-- The stream that a load returns after `s` was saved: empty listeners are
gone, and a listener named like the wildcard has become one. -/
def Stream.reloaded (s : Stream) : Stream :=
  let members := (listenerRows s).foldl loadMember (.empty, false)
  { s with listeners := members.1, listenerAll := members.2 }

@[simp] theorem streamRow_reloaded (s : Stream) : streamRow s.reloaded = streamRow s := rfl

/-- Loading reads the members of the one stream only. -/
theorem loadMembers_congr {db db' : Db} {id : CStr}
    (h : (db'.tsnStreamMembers.filter fun m => decide (m.streamId.chars = id)) =
      db.tsnStreamMembers.filter fun m => decide (m.streamId.chars = id)) :
    loadMembers db' id = loadMembers db id := by
  simp [loadMembers, h]

theorem streamOfRow_congr {db db' : Db} {r : StreamRow}
    (h : loadMembers db' r.streamId.chars = loadMembers db r.streamId.chars) :
    streamOfRow db' r = streamOfRow db r := by
  simp [streamOfRow, h]

private theorem filter_other_append {id id' : CStr} (hne : id ≠ id') (ms ns : List StreamMember)
    (hns : ∀ m ∈ ns, m.streamId.chars = id) :
    ((ms.filter fun m => !decide (m.streamId.chars = id)) ++ ns).filter
        (fun m => decide (m.streamId.chars = id')) =
      ms.filter fun m => decide (m.streamId.chars = id') := by
  have hnone : ns.filter (fun m => decide (m.streamId.chars = id')) = [] := by
    rw [List.filter_eq_nil_iff]
    intro m hm
    simpa [hns m hm] using hne
  rw [List.filter_append, hnone, List.append_nil, List.filter_filter]
  apply List.filter_congr
  intro m _
  by_cases hm : m.streamId.chars = id'
  · simp [hm, Ne.symm hne]
  · simp [hm]

/-- A save leaves every other stream as it was. -/
theorem dbTsnLoad_save_other (db : Db) (s : Stream) {id : CStr} (h : s.streamId.chars ≠ id) :
    (dbTsnLoad (dbTsnSave db s).2 id).toOption = (dbTsnLoad db id).toOption := by
  simp only [dbTsnLoad_toOption, dbTsnSave_eq]
  have hfind : (if statusChecked s.status then db.tsnStreams.upsert (streamRow s)
      else db.tsnStreams).find id = db.tsnStreams.find id := by
    split
    · rw [Table.find_upsert, key_streamRow, if_neg h]
    · rfl
  rw [hfind]
  cases hrow : db.tsnStreams.find id with
  | none => rfl
  | some r =>
      obtain ⟨-, hkey⟩ := db.tsnStreams.find_eq_some.mp hrow
      have hid : r.streamId.chars = id := hkey
      refine congrArg some (streamOfRow_congr (loadMembers_congr ?_))
      rw [hid]
      apply filter_other_append h
      intro m hm
      have hmem : m ∈ memberRows s := by
        by_contra hnot
        split at hm <;> simp_all
      exact congrArg Buf.chars (memberRows_streamId s m hmem)

/-- A save that passes the CHECK is read back as `Stream.reloaded`. -/
theorem dbTsnLoad_save_self (db : Db) (s : Stream) (h : statusChecked s.status) :
    (dbTsnLoad (dbTsnSave db s).2 s.streamId.chars).toOption = some s.reloaded := by
  have hhas := db.tsnStreams.has_upsert_self (streamRow s)
  rw [key_streamRow] at hhas
  simp only [dbTsnLoad_toOption, dbTsnSave_eq, h, if_true, hhas, Table.find_upsert, key_streamRow]
  have hold : (db.tsnStreamMembers.filter fun m =>
      !decide (m.streamId.chars = s.streamId.chars)).filter
        (fun m => decide (m.streamId.chars = s.streamId.chars)) = [] := by
    simp [List.filter_filter]
  have hown : (memberRows s).filter (fun m => decide (m.streamId.chars = s.streamId.chars)) =
      memberRows s := by
    rw [List.filter_eq_self]
    intro m hm
    simp [memberRows_streamId s m hm]
  have hmembers : ∀ streams : Table StreamRow, loadMembers { db with
      tsnStreams := streams
      tsnStreamMembers :=
        (db.tsnStreamMembers.filter fun m => !decide (m.streamId.chars = s.streamId.chars)) ++
          memberRows s } s.streamId.chars =
        (listenerRows s).foldl loadMember (.empty, false) := by
    intro streams
    simp only [loadMembers, List.filter_append, hold, hown, List.nil_append]
    rfl
  simp only [Option.map_some, Option.some.injEq, streamOfRow]
  have hid : (streamRow s).streamId = s.streamId := rfl
  rw [hid, hmembers]
  rfl

/-- A save that fails the CHECK leaves the row as it was. -/
theorem find_dbTsnSave_unchecked (db : Db) (s : Stream) (h : ¬ statusChecked s.status) :
    (dbTsnSave db s).2.tsnStreams = db.tsnStreams := by
  rw [dbTsnSave_eq]
  simp [h]

theorem dbTsnLoad_delete (db : Db) (id id' : CStr) :
    (dbTsnLoad (dbTsnDelete db id).2 id').toOption =
      if id = id' then none else (dbTsnLoad db id').toOption := by
  have hdelete : (dbTsnDelete db id).2 = (db.deleteStream id).deleteStreamMembers id := by
    simp [dbTsnDelete, Sql.namesIndex]
  rw [hdelete, dbTsnLoad_toOption, dbTsnLoad_toOption]
  split
  · rename_i heq
    subst heq
    rw [Option.map_eq_none_iff, Table.find_eq_none]
    rintro ⟨r, hr, hkey⟩
    have hid : r.streamId.chars = id := hkey
    simp only [Db.deleteStreamMembers, Db.deleteStream] at hr
    split at hr
    · simp [hid] at hr
    · rename_i hnone
      exact hnone ⟨r, hr, hkey⟩
  · rename_i hne
    have hfind : ((db.deleteStream id).deleteStreamMembers id).tsnStreams.find id' =
        db.tsnStreams.find id' := by
      simp only [Db.deleteStreamMembers, Db.deleteStream]
      split
      · apply Table.find_deleteWhere
        intro r _ hkey
        have hid : r.streamId.chars = id' := hkey
        simp [hid, Ne.symm hne]
      · rfl
    rw [hfind]
    cases hrow : db.tsnStreams.find id' with
    | none => rfl
    | some r =>
        obtain ⟨-, hkey⟩ := db.tsnStreams.find_eq_some.mp hrow
        have hid : r.streamId.chars = id' := hkey
        refine congrArg some (streamOfRow_congr (loadMembers_congr ?_))
        rw [hid]
        have hkeep := @filter_other_append id id' hne db.tsnStreamMembers [] (by simp)
        rw [List.append_nil] at hkeep
        simp only [Db.deleteStreamMembers, Db.deleteStream]
        split
        · simpa [List.filter_filter] using hkeep
        · exact hkeep

theorem dbTsnLoad_setStatus (db : Db) (id id' : CStr) {status : Int32}
    (h : statusChecked status) :
    (dbTsnLoad (dbTsnSetStatus db id status).2 id').toOption =
      (dbTsnLoad db id').toOption.map fun s =>
        if id' = id then { s with status := status } else s := by
  have hset : (dbTsnSetStatus db id status).2 =
      { db with
        tsnStreams := db.tsnStreams.updateWhere (fun r => decide (r.streamId.chars = id))
          (fun r => { r with status := status }) fun _ => rfl } := by
    simp [dbTsnSetStatus, Sql.namesIndex, h]
  rw [hset, dbTsnLoad_toOption, dbTsnLoad_toOption, Table.find_updateWhere]
  cases hrow : db.tsnStreams.find id' with
  | none => rfl
  | some r =>
      obtain ⟨-, hkey⟩ := db.tsnStreams.find_eq_some.mp hrow
      have hid : r.streamId.chars = id' := hkey
      subst hid
      by_cases heq : r.streamId.chars = id
      · simp only [Option.map_some, heq, decide_true, if_true]
        rfl
      · simp only [Option.map_some, heq, decide_false, if_false]
        rfl

end Htsn
