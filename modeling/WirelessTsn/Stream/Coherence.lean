import WirelessTsn.Stream.Manager

/-!
The stream manager's array against the stream tables. Both sides of a lookup
agree after a create on at most 512 streams; an add keeps that if the status
passes the CHECK of the table, and a deployment keeps it if the cached status
was READY already, since the new status is written to the table and to a
local copy of the cached stream only.
-/

namespace Htsn

open CText Keyed Run

inductive TsnOp where
  | add (s : Stream)
  | remove (id : CStr)
  | deploy (id : CStr)
  | deployAll (domain : Option CStr)

def tsnStep (m : TsnSystem) : TsnOp → TsnSystem
  | .add s => (tsnManagerAdd m s).2
  | .remove id => (tsnManagerRemove m id).2
  | .deploy id => (tsnManagerDeploy m id).2
  | .deployAll domain => (tsnManagerDeployAll m domain).2

section Agreement

variable {β : Type} (f : Stream → β)

/-- A lookup in the cache and a load from the tables both find nothing, or
find streams with the same `f`. -/
def TsnSystem.Agrees (m : TsnSystem) : Prop :=
  ∀ id, (tsnManagerLoad m id).map f = (dbTsnLoad m.db id).toOption.map f

/-- The initial state and every state a run reaches agree. -/
def TsnSystem.AgreesAlong (m : TsnSystem) (ops : List TsnOp) : Prop :=
  m.Agrees f ∧ AllSteps tsnStep (fun m op => (tsnStep m op).Agrees f) m ops

end Agreement

/-- `htsn_tsn_manager_add` gets past its checks. -/
def TsnSystem.Accepts (m : TsnSystem) (s : Stream) : Prop :=
  streamValidate s = .ok ∧
    (HasKey streamKey (streamKey s) m.streams.items ∨ m.streams.items.length < maxDevices)

/-- A deployment that writes READY finds READY in the cache. -/
def TsnSystem.ReadyCached (m : TsnSystem) (id : CStr) : Prop :=
  m.TalkerReached id → ∀ s ∈ tsnManagerLoad m id, s.status = streamReady

/-- What an operation needs for the two copies to stay equal. -/
def TsnSystem.StepKeeps (m : TsnSystem) : TsnOp → Prop
  | .add s => m.Accepts s → statusChecked s.status
  | .remove _ => True
  | .deploy id => m.ReadyCached id
  | .deployAll domain =>
      AllSteps (deployCb domain)
        (fun m s => streamInDomain m s.streamId.chars domain = true →
          m.ReadyCached s.streamId.chars)
        m m.streams.items

/-- Cached ids are distinct, and stored statuses pass the CHECK. -/
structure TsnSystem.Valid (m : TsnSystem) : Prop where
  distinct : (m.streams.items.map streamKey).Nodup
  checked : ∀ r ∈ m.db.tsnStreams.rows, statusChecked r.status

/-- The cache after an add that was accepted. -/
theorem tsnManagerAdd_accepted {m : TsnSystem} {s : Stream} (h : m.Accepts s) :
    (tsnManagerAdd m s).2.streams.items = upsertBy streamKey s m.streams.items ∧
      (tsnManagerAdd m s).2.db = (dbTsnSave m.db s).2 := by
  obtain ⟨hvalid, hroom⟩ := h
  by_cases hkey : HasKey streamKey (streamKey s) m.streams.items
  · simp [tsnManagerAdd, hvalid, hkey]
  · have hlt : m.streams.items.length < maxDevices := hroom.resolve_left hkey
    simp [tsnManagerAdd, hvalid, hkey, Nat.not_le_of_lt hlt, Slots.push, hlt,
      upsertBy_of_not_hasKey hkey]

theorem tsnManagerAdd_refused {m : TsnSystem} {s : Stream} (h : ¬ m.Accepts s) :
    (tsnManagerAdd m s).2 = m := by
  by_cases hvalid : streamValidate s = .ok
  · have hno : ¬ (HasKey streamKey (streamKey s) m.streams.items ∨
        m.streams.items.length < maxDevices) := fun hor => h ⟨hvalid, hor⟩
    rw [not_or] at hno
    simp [tsnManagerAdd, hvalid, hno.1, Nat.le_of_not_lt hno.2]
  · simp [tsnManagerAdd, hvalid]

/-- The stream as a deployment leaves it in the table. -/
def Stream.markReady (s : Stream) : Stream := { s with status := streamReady }

/-- The tables after a deployment: the one stream is READY if its talker was
reached, and nothing else has changed. -/
theorem dbTsnLoad_deployScoped_reached {m : TsnSystem} {id : CStr} (h : m.TalkerReached id)
    (domain : Option CStr) (id' : CStr) :
    (dbTsnLoad (deployScoped m id domain).2.db id').toOption =
      (dbTsnLoad m.db id').toOption.map fun s => if id' = id then s.markReady else s := by
  obtain ⟨s, hs, c, hc, hh, hok⟩ := h
  rw [deployScoped_reached hs hc hh hok domain]
  exact dbTsnLoad_setStatus m.db id id' (by decide)

theorem deployScoped_db_not_reached {m : TsnSystem} {id : CStr} (h : ¬ m.TalkerReached id)
    (domain : Option CStr) : (deployScoped m id domain).2.db = m.db := by
  obtain ⟨-, hsame | ⟨s, c, -, -, -, heq⟩⟩ := deployScoped_not_reached h domain
  · rw [hsame]
  · rw [heq]

theorem deployScoped_streams (m : TsnSystem) (id : CStr) (domain : Option CStr) :
    (deployScoped m id domain).2.streams = m.streams := by
  by_cases h : m.TalkerReached id
  · obtain ⟨s, hs, c, hc, hh, hok⟩ := h
    rw [deployScoped_reached hs hc hh hok domain]
  · obtain ⟨-, hsame | ⟨s, c, -, -, -, heq⟩⟩ := deployScoped_not_reached h domain
    · rw [hsame]
    · rw [heq]

theorem deployCb_streams (domain : Option CStr) (m : TsnSystem) (s : Stream) :
    (deployCb domain m s).streams = m.streams := by
  unfold deployCb
  split
  · exact deployScoped_streams m _ domain
  · rfl

theorem run_deployCb_streams (domain : Option CStr) (m : TsnSystem) (ss : List Stream) :
    (run (deployCb domain) m ss).streams = m.streams := by
  have hinv := @run_invariant _ _ (deployCb domain) (fun m' => m'.streams = m.streams)
    (fun m' s h => (deployCb_streams domain m' s).trans h) m rfl ss
  exact hinv

theorem setStatus_checked {db : Db} {id : CStr}
    (h : ∀ r ∈ db.tsnStreams.rows, statusChecked r.status) :
    ∀ r ∈ (dbTsnSetStatus db id streamReady).2.tsnStreams.rows, statusChecked r.status := by
  intro r hr
  have hready : statusChecked streamReady := by decide
  simp only [dbTsnSetStatus, prepares_eq, Sql.namesIndex, Bool.not_false, if_true, hready,
    Table.updateWhere_rows, List.mem_map] at hr
  obtain ⟨r₀, hr₀, rfl⟩ := hr
  split
  · exact hready
  · exact h r₀ hr₀

theorem deployScoped_valid {m : TsnSystem} (h : m.Valid) (id : CStr) (domain : Option CStr) :
    (deployScoped m id domain).2.Valid := by
  refine ⟨by rw [deployScoped_streams]; exact h.distinct, ?_⟩
  by_cases hreach : m.TalkerReached id
  · obtain ⟨s, hs, c, hc, hh, hok⟩ := hreach
    rw [deployScoped_reached hs hc hh hok domain]
    exact setStatus_checked h.checked
  · rw [deployScoped_db_not_reached hreach]
    exact h.checked

theorem deployCb_valid {m : TsnSystem} (h : m.Valid) (domain : Option CStr) (s : Stream) :
    (deployCb domain m s).Valid := by
  unfold deployCb
  split
  · exact deployScoped_valid h _ domain
  · exact h

theorem tsnStep_valid (m : TsnSystem) (op : TsnOp) (h : m.Valid) : (tsnStep m op).Valid := by
  cases op with
  | add s =>
      by_cases hacc : m.Accepts s
      · obtain ⟨hitems, hdb⟩ := tsnManagerAdd_accepted hacc
        refine ⟨?_, ?_⟩
        · rw [tsnStep, hitems]
          exact nodup_upsertBy h.distinct
        · rw [tsnStep, hdb, dbTsnSave_eq]
          intro r hr
          by_cases hstatus : statusChecked s.status
          · simp only [hstatus, if_true, Table.upsert_rows] at hr
            rcases (mem_upsertBy m.db.tsnStreams.pk).mp hr with rfl | ⟨hold, -⟩
            · exact hstatus
            · exact h.checked r hold
          · simp only [hstatus, if_false] at hr
            exact h.checked r hr
      · rw [tsnStep, tsnManagerAdd_refused hacc]
        exact h
  | remove id =>
      simp only [tsnStep, tsnManagerRemove]
      split
      · exact h
      · refine ⟨?_, ?_⟩
        · simp only [Slots.edit_items, eraseBy_eq_filter h.distinct]
          exact (List.filter_sublist.map streamKey).nodup h.distinct
        · intro r hr
          apply h.checked r
          simp only [dbTsnDelete, prepares_eq, Sql.namesIndex, Bool.not_false, if_true,
            Db.deleteStreamMembers, Db.deleteStream] at hr
          split at hr
          · exact List.mem_of_mem_filter hr
          · exact hr
  | deploy id => exact deployScoped_valid h id none
  | deployAll domain =>
      exact @run_invariant _ _ (deployCb domain) TsnSystem.Valid
        (fun m' s h' => deployCb_valid h' domain s) m h _

/-- A status that a deployment has written stays READY to the end. -/
private theorem status_run_deployCb (domain : Option CStr) (ss : List Stream) {m : TsnSystem}
    {id : CStr} (h : ∀ s ∈ (dbTsnLoad m.db id).toOption, s.status = streamReady) :
    ∀ s ∈ (dbTsnLoad (run (deployCb domain) m ss).db id).toOption, s.status = streamReady := by
  refine @run_invariant _ _ (deployCb domain)
    (fun m => ∀ s ∈ (dbTsnLoad m.db id).toOption, s.status = streamReady) ?_ m h ss
  intro m' s hm'
  unfold deployCb
  split
  · by_cases hreach : m'.TalkerReached s.streamId.chars
    · rw [dbTsnLoad_deployScoped_reached hreach]
      intro s' hs'
      simp only [Option.mem_def, Option.map_eq_some_iff] at hs'
      obtain ⟨s₀, hs₀, rfl⟩ := hs'
      split
      · rfl
      · exact hm' s₀ hs₀
    · rw [deployScoped_db_not_reached hreach]
      exact hm'
  · exact hm'

private theorem status_deployScoped {m : TsnSystem} {id : CStr} (hreach : m.TalkerReached id)
    (domain : Option CStr) :
    ∀ s ∈ (dbTsnLoad (deployScoped m id domain).2.db id).toOption, s.status = streamReady := by
  intro s hs
  rw [dbTsnLoad_deployScoped_reached hreach] at hs
  simp only [if_true, Option.mem_def, Option.map_eq_some_iff] at hs
  obtain ⟨s₀, -, rfl⟩ := hs
  rfl

section Agreement

variable {β : Type} {f : Stream → β} (hf : ∀ a b, f a = f b → a.status = b.status)

include hf

/-- A deployment keeps the agreement exactly when it finds READY in the cache
or does not reach the end. -/
theorem agrees_deployScoped {m : TsnSystem} (h : m.Agrees f) {id : CStr}
    (hready : m.ReadyCached id) (domain : Option CStr) :
    (deployScoped m id domain).2.Agrees f := by
  intro id'
  have hcache : tsnManagerLoad (deployScoped m id domain).2 id' = tsnManagerLoad m id' := by
    simp [tsnManagerLoad, deployScoped_streams]
  by_cases hreach : m.TalkerReached id
  · rw [hcache, dbTsnLoad_deployScoped_reached hreach, h id']
    by_cases hid : id' = id
    · subst hid
      obtain ⟨s, hs, -⟩ := id hreach
      have hstatus := hready hreach s hs
      have hagree := h id'
      rw [hs] at hagree
      cases hload : (dbTsnLoad m.db id').toOption with
      | none => rfl
      | some s' =>
          rw [hload] at hagree
          have hs' : s'.status = streamReady :=
            (hf s s' (Option.some.inj hagree)).symm.trans hstatus
          have hsame : s'.markReady = s' := by
            rw [Stream.markReady, ← hs']
          simp [hsame]
    · simp [hid]
  · rw [hcache, deployScoped_db_not_reached hreach]
    exact h id'

/-- A step that meets its condition keeps the agreement; a stream added must
be read back with the same `f`. -/
theorem agrees_tsnStep {m : TsnSystem} (hvalid : m.Valid) (h : m.Agrees f) {op : TsnOp}
    (hkeeps : m.StepKeeps op) (hadd : ∀ s, op = .add s → f s.reloaded = f s) :
    (tsnStep m op).Agrees f := by
  cases op with
  | add s =>
      by_cases hacc : m.Accepts s
      · obtain ⟨hitems, hdb⟩ := tsnManagerAdd_accepted hacc
        have hstatus : statusChecked s.status := hkeeps hacc
        intro id
        simp only [tsnStep, tsnManagerLoad, hitems, hdb, findBy_upsertBy hvalid.distinct]
        by_cases hid : s.streamId.chars = id
        · subst hid
          rw [dbTsnLoad_save_self m.db s hstatus]
          simp [streamKey, hadd s rfl]
        · rw [dbTsnLoad_save_other m.db s hid, if_neg (show ¬ streamKey s = id from hid)]
          exact h id
      · rw [tsnStep, tsnManagerAdd_refused hacc]
        exact h
  | remove id =>
      simp only [tsnStep, tsnManagerRemove]
      split
      · exact h
      · intro id'
        simp only [tsnManagerLoad, Slots.edit_items, findBy_eraseBy hvalid.distinct,
          dbTsnLoad_delete]
        by_cases hid : id = id'
        · simp [hid]
        · simpa [hid] using (show (findBy streamKey id' m.streams.items).map f = _ from h id')
  | deploy id => exact agrees_deployScoped hf h hkeeps none
  | deployAll domain =>
      refine AllSteps.run_invariant ?_ h hkeeps
      intro m' s hm' hs
      unfold deployCb
      split
      · rename_i hin
        exact agrees_deployScoped hf hm' (hs hin) domain
      · exact hm'

/-- If a lookup agrees at the end of a deployment that wrote READY, the cache
held READY. -/
private theorem ready_of_agrees {m m' : TsnSystem} {id : CStr} (hcache : m'.streams = m.streams)
    (h : m'.Agrees f) (hdb : ∀ s ∈ (dbTsnLoad m'.db id).toOption, s.status = streamReady) :
    ∀ s ∈ tsnManagerLoad m id, s.status = streamReady := by
  intro s hs
  have hload : tsnManagerLoad m' id = some s := by
    simpa [tsnManagerLoad, hcache] using hs
  have hagree := h id
  rw [hload] at hagree
  cases hrow : (dbTsnLoad m'.db id).toOption with
  | none => simp [hrow] at hagree
  | some s' =>
      rw [hrow] at hagree
      exact (hf s s' (Option.some.inj hagree)).trans (hdb s' hrow)

/-- A step after which the copies agree met its condition. -/
theorem stepKeeps_of_agrees {m : TsnSystem} (hvalid : m.Valid) {op : TsnOp}
    (h : (tsnStep m op).Agrees f) : m.StepKeeps op := by
  cases op with
  | add s =>
      intro hacc
      obtain ⟨hitems, hdb⟩ := tsnManagerAdd_accepted hacc
      by_contra hstatus
      have hagree := h s.streamId.chars
      simp only [tsnStep, tsnManagerLoad, hitems, hdb, findBy_upsertBy hvalid.distinct, streamKey,
        if_true, Option.map_some] at hagree
      cases hload : (dbTsnLoad (dbTsnSave m.db s).2 s.streamId.chars).toOption with
      | none => simp [hload] at hagree
      | some s' =>
          rw [hload] at hagree
          have heq := hf s s' (Option.some.inj hagree)
          -- The failed INSERT left the row of `s'`, whose status passes the CHECK.
          rw [dbTsnLoad_toOption, find_dbTsnSave_unchecked m.db s hstatus,
            Option.map_eq_some_iff] at hload
          obtain ⟨r, hr, rfl⟩ := hload
          obtain ⟨hmem, -⟩ := m.db.tsnStreams.find_eq_some.mp hr
          exact hstatus (heq ▸ hvalid.checked r hmem)
  | remove id => trivial
  | deploy id =>
      intro hreach
      exact ready_of_agrees hf (deployScoped_streams m id none) h (status_deployScoped hreach none)
  | deployAll domain =>
      have hrun : ∀ (ss : List Stream) (m : TsnSystem),
          (run (deployCb domain) m ss).Agrees f →
            AllSteps (deployCb domain)
              (fun m s => streamInDomain m s.streamId.chars domain = true →
                m.ReadyCached s.streamId.chars) m ss := by
        intro ss
        induction ss with
        | nil => exact fun _ _ => trivial
        | cons s ss ih =>
            intro m hm
            refine ⟨?_, ih (deployCb domain m s) hm⟩
            intro hin hreach
            have hcache : (run (deployCb domain) m (s :: ss)).streams = m.streams :=
              run_deployCb_streams domain m (s :: ss)
            refine ready_of_agrees hf hcache hm ?_
            apply status_run_deployCb domain ss
            simp only [deployCb, hin, if_true]
            exact status_deployScoped hreach domain
      exact hrun m.streams.items m h

end Agreement

/-- A created manager caches the first 512 stored streams. -/
theorem tsnManagerCreate_items (db : Db) (mqtt : Option MqttClient) :
    (tsnManagerCreate db mqtt).streams.items =
      (db.tsnStreams.rows.take maxDevices).map (streamOfRow db) := by
  simp [tsnManagerCreate, Slots.foldl_push_items, dbTsnForEach_eq, List.map_take]

theorem tsnManagerCreate_load (db : Db) (mqtt : Option MqttClient) (id : CStr) :
    tsnManagerLoad (tsnManagerCreate db mqtt) id =
      (findBy PrimaryKey.key id (db.tsnStreams.rows.take maxDevices)).map (streamOfRow db) := by
  rw [tsnManagerLoad, tsnManagerCreate_items]
  exact findBy_map (streamOfRow db) (fun _ => rfl) id _

theorem tsnManagerCreate_valid {db : Db} (hdb : db.Constraints) (mqtt : Option MqttClient) :
    (tsnManagerCreate db mqtt).Valid := by
  refine ⟨?_, hdb.status⟩
  rw [tsnManagerCreate_items, List.map_map]
  exact ((List.take_sublist _ _).map PrimaryKey.key).nodup db.tsnStreams.pk

/-- All stored streams are cached exactly when they fit the array. -/
theorem agrees_create_iff {β : Type} (f : Stream → β) (db : Db) (mqtt : Option MqttClient) :
    (tsnManagerCreate db mqtt).Agrees f ↔ db.tsnStreams.rows.length ≤ maxDevices := by
  constructor
  · intro h
    by_contra hmany
    have hlt : maxDevices < db.tsnStreams.rows.length := Nat.lt_of_not_le hmany
    -- The first row behind the array is stored but cannot be cached.
    let r := db.tsnStreams.rows[maxDevices]
    have hdrop : db.tsnStreams.rows.drop maxDevices =
        r :: db.tsnStreams.rows.drop (maxDevices + 1) := List.drop_eq_getElem_cons hlt
    have hsplit := db.tsnStreams.rows.take_append_drop maxDevices
    rw [hdrop] at hsplit
    have hpk := db.tsnStreams.pk
    rw [← hsplit, List.map_append, List.nodup_append] at hpk
    have hstored : db.tsnStreams.find r.streamId.chars = some r :=
      db.tsnStreams.find_eq_some.mpr ⟨List.getElem_mem hlt, rfl⟩
    have hcached : findBy PrimaryKey.key r.streamId.chars (db.tsnStreams.rows.take maxDevices) =
        none := by
      rw [findBy_eq_none, hasKey_iff_mem_map]
      intro hmem
      exact hpk.2.2 _ hmem (PrimaryKey.key r) (by simp) rfl
    have hagree := h r.streamId.chars
    have hdb : (tsnManagerCreate db mqtt).db = db := rfl
    rw [tsnManagerCreate_load, hcached, hdb, dbTsnLoad_toOption, hstored] at hagree
    simp at hagree
  · intro hfew id
    have hdb : (tsnManagerCreate db mqtt).db = db := rfl
    rw [tsnManagerCreate_load, List.take_of_length_le hfew, hdb, dbTsnLoad_toOption]
    rfl

/-- Every listener of a stream to be added has a name of its own. -/
def TsnOp.ListenersNamed : TsnOp → Prop
  | .add s => ∀ l ∈ s.listeners.items, l.chars ≠ [] ∧ l.chars ≠ allListeners
  | _ => True

/-- Such a stream is read back whole. -/
theorem reloaded_of_listenersNamed {s : Stream} (h : (TsnOp.add s).ListenersNamed) :
    s.reloaded = s := by
  have hnamed : s.listeners.items.filter (fun l => !decide (l.chars = [])) = s.listeners.items := by
    rw [List.filter_eq_self]
    intro l hl
    simpa using (h l hl).1
  have hread := foldl_loadMember_membersOf s.streamId s.listeners s.listenerAll
    fun l hl => (h l hl).2
  -- The wildcard row is saved first here and last there; the order does not matter.
  have hswap : (listenerRows s).foldl loadMember (.empty, false) =
      (membersOf s.streamId s.listeners.items s.listenerAll).foldl loadMember (.empty, false) := by
    rw [foldl_loadMember, foldl_loadMember, listenerRows, hnamed, membersOf]
    cases s.listenerAll with
    | false => simp
    | true => simp [StreamMember.isExplicit, StreamMember.isWildcard, allListenersId_chars]
  unfold Stream.reloaded
  rw [hswap, hread]

/-- From a create on, the cache and the tables agree on every field of every
stream row along a run exactly when at most 512 streams were stored, every
added stream has a status the table admits, and every deployment that gets
past the talker finds the cached stream READY already. If moreover all added
listeners are named, the whole streams agree. -/
theorem stream_cache_agrees_iff (db : Db) (hdb : db.Constraints) (mqtt : Option MqttClient)
    (ops : List TsnOp) :
    let m := tsnManagerCreate db mqtt
    (m.AgreesAlong streamRow ops ↔
      db.tsnStreams.rows.length ≤ 512 ∧ AllSteps tsnStep TsnSystem.StepKeeps m ops) ∧
    (db.tsnStreams.rows.length ≤ 512 →
      AllSteps tsnStep (fun m op => m.StepKeeps op ∧ op.ListenersNamed) m ops →
        m.AgreesAlong id ops) := by
  intro m
  have hvalid : m.Valid := tsnManagerCreate_valid hdb mqtt
  have hrow : ∀ a b : Stream, streamRow a = streamRow b → a.status = b.status :=
    fun _ _ heq => congrArg StreamRow.status heq
  constructor
  · have hsteps := fun hstart : m.Agrees streamRow =>
      @allSteps_inv_iff _ _ tsnStep TsnSystem.StepKeeps (TsnSystem.Agrees streamRow)
        TsnSystem.Valid tsnStep_valid
        (fun m op hv ha => ⟨stepKeeps_of_agrees hrow hv,
          fun hk => agrees_tsnStep hrow hv ha hk fun _ _ => rfl⟩) m hvalid hstart ops
    constructor
    · rintro ⟨hstart, hall⟩
      exact ⟨(agrees_create_iff streamRow db mqtt).mp hstart, (hsteps hstart).mp hall⟩
    · rintro ⟨hfew, hall⟩
      have hstart := (agrees_create_iff streamRow db mqtt).mpr hfew
      exact ⟨hstart, (hsteps hstart).mpr hall⟩
  · intro hfew hall
    have hstart : m.Agrees id := (agrees_create_iff id db mqtt).mpr hfew
    have hwhole : ∀ a b : Stream, id a = id b → a.status = b.status :=
      fun _ _ heq => congrArg Stream.status heq
    have hkeep : ∀ (m : TsnSystem) (op : TsnOp), m.Valid ∧ m.Agrees id →
        m.StepKeeps op ∧ op.ListenersNamed → (tsnStep m op).Agrees id := by
      rintro m op ⟨hv, ha⟩ ⟨hk, hnamed⟩
      refine agrees_tsnStep hwhole hv ha hk ?_
      rintro s rfl
      exact reloaded_of_listenersNamed hnamed
    refine ⟨hstart, AllSteps.imp ?_ hkeep ⟨hvalid, hstart⟩ hall⟩
    exact fun m op hm hp => ⟨tsnStep_valid m op hm.1, hkeep m op hm hp⟩

/-- A stream added as READY and deployed again. -/
theorem redeployed_stream_agrees :
    (tsnManagerCreate Db.empty (some (.start fun _ => true))).AgreesAlong streamRow
      [.add (.request "s1".toList "d1".toList "d2".toList streamReady),
        .deploy "s1".toList] := by
  refine (stream_cache_agrees_iff Db.empty Db.empty_constraints _ _).1.mpr ⟨by decide, ?_⟩
  refine ⟨fun _ => by decide, fun _ s hs => ?_, trivial⟩
  have hcached : some (Stream.request "s1".toList "d1".toList "d2".toList streamReady) = some s := by
    rw [← hs]
    decide
  exact Option.some.inj hcached ▸ rfl

/-- A new stream deployed once is READY in the table and CONFIGURED in the
cache. -/
theorem deployed_stream_disagrees :
    ¬ (tsnManagerCreate Db.empty (some (.start fun _ => true))).AgreesAlong streamRow
      [.add (.request "s1".toList "d1".toList "d2".toList streamConfigured),
        .deploy "s1".toList] := by
  rintro ⟨-, -, hdeployed, -⟩
  exact absurd (hdeployed "s1".toList) (by decide)

end Htsn
