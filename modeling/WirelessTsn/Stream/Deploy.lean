import WirelessTsn.Stream.Coherence

/-!
What a deployment tells whom. The status READY is written after the talker's
publish alone succeeded, and a deployment scoped to a domain filters the
talker and the walked devices but not the listeners a stream lists. For both
the exact condition is proved under which the deployment does what its
comments say.
-/

namespace Htsn

open CText Keyed Run

section Ready

/-- The listeners of a global deployment: the listed ones, or every device
other than the talker. -/
def selectedListeners (db : Db) (s : Stream) : List CStr :=
  if s.listenerAll then
    ((dbDeviceForEach db).filter fun dev => !decide (dev.id.chars = s.talker.chars)).map
      fun dev => dev.id.chars
  else s.listeners.items.map Buf.chars

/-- One successful publish to the talker and one to each listener. -/
def configuredEndpoints (s : Stream) (listeners : List CStr) : List Publish :=
  ⟨streamTopic s.talker.chars, streamPayload s .talker, true⟩ ::
    listeners.map fun l => ⟨streamTopic l, streamPayload s .listener, true⟩

/-- The deployment writes READY to the stored stream. -/
def TsnSystem.SetsReady (m : TsnSystem) (id : CStr) : Prop :=
  (tsnManagerDeploy m id).1 = .ok ∧
    ∃ r ∈ (tsnManagerDeploy m id).2.db.tsnStreams.rows,
      r.streamId.chars = id ∧ r.status = streamReady

/-- The calls that the deployment made are the successful publishes to the
talker and to all selected listeners. -/
def TsnSystem.ConfiguresAll (m : TsnSystem) (id : CStr) : Prop :=
  ∃ s ∈ tsnManagerLoad m id, ∃ c ∈ m.mqtt, ∃ c' ∈ (tsnManagerDeploy m id).2.mqtt,
    c'.calls = c.calls ++ configuredEndpoints s (selectedListeners m.db s)

/-- If the deployment gets past the talker and the stream is stored, every
selected listener has an id and its publish is accepted. -/
def TsnSystem.ListenersAccepted (m : TsnSystem) (id : CStr) : Prop :=
  ∀ s ∈ tsnManagerLoad m id, ∀ c ∈ m.mqtt, c.handle = true →
    c.accepts c.calls.length = true → m.db.tsnStreams.Has id →
      (∀ l ∈ selectedListeners m.db s, l ≠ []) ∧
        ∀ i < (selectedListeners m.db s).length, c.accepts (c.calls.length + 1 + i) = true

/-- The code pushes to the selected listeners that have an id. -/
theorem pushedListeners_global (db : Db) (s : Stream) :
    pushedListeners db s none = (selectedListeners db s).filter fun l => !decide (l = []) := by
  unfold pushedListeners selectedListeners
  split
  · rw [List.filter_map, List.filter_filter]
    simp only [walkedDevices, inScope, Option.filter_none]
    congr 1
    apply List.filter_congr
    intro dev _
    simp [listensIn]
  · rw [List.filter_map]
    rfl

theorem publishesTo_eq_ok_iff (accepts : Nat → Bool) (s : Stream) (role : StreamRole) (n : Nat)
    (ds : List CStr) :
    publishesTo accepts s role n ds =
        ds.map (fun d => ⟨streamTopic d, streamPayload s role, true⟩) ↔
      ∀ i < ds.length, accepts (n + i) = true := by
  induction ds generalizing n with
  | nil => simp [publishesTo]
  | cons d ds ih =>
      simp only [publishesTo, List.map_cons, List.cons.injEq, ih, Publish.mk.injEq, true_and,
        List.length_cons]
      constructor
      · rintro ⟨hn, hrest⟩ i hi
        cases i with
        | zero => exact hn
        | succ i =>
            have h := hrest i (by omega)
            rwa [Nat.add_assoc, Nat.add_comm 1 i] at h
      · intro h
        refine ⟨h 0 (by omega), fun i hi => ?_⟩
        have hnext := h (i + 1) (by omega)
        rwa [Nat.add_comm i 1, ← Nat.add_assoc] at hnext

theorem length_publishesTo (accepts : Nat → Bool) (s : Stream) (role : StreamRole) (n : Nat)
    (ds : List CStr) : (publishesTo accepts s role n ds).length = ds.length := by
  induction ds generalizing n with
  | nil => rfl
  | cons d ds ih => simp [publishesTo, ih]

/-- Pushing to the listeners that have an id leaves one successful call for
every listener exactly when all have an id and are accepted. -/
theorem publishesTo_filter_iff (accepts : Nat → Bool) (s : Stream) (n : Nat) (ls : List CStr) :
    publishesTo accepts s .listener n (ls.filter fun l => !decide (l = [])) =
        ls.map (fun l => ⟨streamTopic l, streamPayload s .listener, true⟩) ↔
      (∀ l ∈ ls, l ≠ []) ∧ ∀ i < ls.length, accepts (n + i) = true := by
  constructor
  · intro h
    have hlen := congrArg List.length h
    rw [length_publishesTo, List.length_map] at hlen
    have hall := List.length_filter_eq_length_iff.mp hlen
    have hnamed : ∀ l ∈ ls, l ≠ [] := fun l hl => by simpa using hall l hl
    rw [List.filter_eq_self.mpr hall] at h
    exact ⟨hnamed, (publishesTo_eq_ok_iff accepts s .listener n ls).mp h⟩
  · rintro ⟨hnamed, hok⟩
    rw [List.filter_eq_self.mpr fun l hl => by simpa using hnamed l hl]
    exact (publishesTo_eq_ok_iff accepts s .listener n ls).mpr hok

/-- Whatever the devices, the stored streams and the outcomes of the
individual publishes are: a deployment marks a stream READY only after every
endpoint was configured if and only if the publish to each selected listener
is accepted whenever the one to the talker is. -/
theorem ready_only_when_configured_iff (m : TsnSystem) (id : CStr) :
    (m.SetsReady id → m.ConfiguresAll id) ↔ m.ListenersAccepted id := by
  by_cases hreach : m.TalkerReached id
  · obtain ⟨s, hs, c, hc, hh, hok⟩ := hreach
    have hs' : tsnManagerLoad m id = some s := hs
    have hc' : m.mqtt = some c := hc
    have hdeploy := deployScoped_reached hs' hc' hh hok none
    have hready : m.SetsReady id ↔ m.db.tsnStreams.Has id := by
      have hcheck : statusChecked streamReady := by decide
      simp only [TsnSystem.SetsReady, tsnManagerDeploy, hdeploy, true_and, dbTsnSetStatus,
        prepares_eq, Sql.namesIndex, Bool.not_false, if_true, hcheck, Table.updateWhere_rows]
      constructor
      · rintro ⟨r, hr, hid, -⟩
        obtain ⟨r₀, hr₀, rfl⟩ := List.mem_map.mp hr
        refine ⟨r₀, hr₀, ?_⟩
        have hkey : PrimaryKey.key r₀ = r₀.streamId.chars := rfl
        rw [hkey, ← hid]
        split <;> rfl
      · rintro ⟨r, hr, hid⟩
        have hid' : r.streamId.chars = id := hid
        exact ⟨_, List.mem_map_of_mem hr, by simp [hid'], by simp [hid']⟩
    have hconf : m.ConfiguresAll id ↔
        (∀ l ∈ selectedListeners m.db s, l ≠ []) ∧
          ∀ i < (selectedListeners m.db s).length,
            c.accepts (c.calls.length + 1 + i) = true := by
      rw [← publishesTo_filter_iff c.accepts s, ← pushedListeners_global]
      simp only [TsnSystem.ConfiguresAll, tsnManagerDeploy, hdeploy, hs', hc', Option.mem_def,
        Option.some.injEq, exists_eq_left', List.append_cancel_left_eq, configuredEndpoints,
        publishesTo, hok, List.cons_append, List.nil_append, List.cons.injEq, true_and]
    rw [hready, hconf]
    simp only [TsnSystem.ListenersAccepted, hs', hc', Option.mem_def, Option.some.injEq,
      forall_eq', hh, hok, true_implies]
  · constructor
    · rintro - s hs c hc hh hok -
      exact absurd ⟨s, hs, c, hc, hh, hok⟩ hreach
    · rintro - ⟨hok, -⟩
      exact absurd hok (deployScoped_not_reached hreach none).1

/-- The talker's publish succeeds, the only listener's fails, and the stream
is READY. -/
theorem ready_after_listener_failed :
    let s := Stream.request "s1".toList "d1".toList "d2".toList streamConfigured
    let m := (tsnManagerAdd (tsnManagerCreate Db.empty (some (.start (· == 0)))) s).2
    ¬ (m.SetsReady "s1".toList → m.ConfiguresAll "s1".toList) := by
  intro s m h
  have hset : m.SetsReady "s1".toList := ⟨by decide, by decide⟩
  obtain ⟨s', -, c, hc, c', hc', hcalls⟩ := h hset
  have hbefore : m.mqtt.map MqttClient.calls = some [] := by decide
  have hafter : (tsnManagerDeploy m "s1".toList).2.mqtt.map (fun c => c.calls.all Publish.ok) =
      some false := by decide
  rw [show m.mqtt = some c from hc, Option.map_some, Option.some.injEq] at hbefore
  rw [show (tsnManagerDeploy m "s1".toList).2.mqtt = some c' from hc', Option.map_some, hcalls,
    hbefore] at hafter
  simp [configuredEndpoints] at hafter

end Ready

section Isolation

/-- The topic names a device recorded with a domain other than `d`. -/
def NamesForeign (db : Db) (d : CStr) (topic : CStr) : Prop :=
  ∃ r ∈ db.devices.rows, topic = streamTopicText r.id.chars ∧
    ∃ dom, r.domain = some dom ∧ dom ≠ [] ∧ dom ≠ d

/-- Whatever the broker answers, a deployment of all streams in the domain
`d` publishes to no device recorded with another domain. -/
def DomainIsolated (db : Db) (streams : Slots Stream maxDevices) (d : CStr) : Prop :=
  ∀ mqtt, ∀ c ∈ mqtt, ∀ c' ∈ (tsnManagerDeployAll ⟨db, streams, mqtt⟩ (some d)).2.mqtt,
    ∀ p ∈ c'.calls.drop c.calls.length, ¬ NamesForeign db d p.topic

/-- The cached streams that a deployment in the domain `d` picks. -/
def PickedIn (db : Db) (streams : Slots Stream maxDevices) (d : CStr) (s : Stream) : Prop :=
  findBy streamKey s.streamId.chars streams.items = some s ∧
    streamInDomain ⟨db, streams, none⟩ s.streamId.chars (some d) = true

/-- The topics a stream is published to when nothing fails. -/
def streamTopics (db : Db) (d : CStr) (s : Stream) : List CStr :=
  streamTopic s.talker.chars :: (pushedListeners db s (some d)).map streamTopic

/-- What the code does not ensure by itself for a picked stream. A listed
listener is not looked up at all; an id of more than 240 bytes does not fit
the topic and a domain of more than 255 bytes does not fit the record it is
compared in, so that the cut text may be another one's. -/
structure EndpointsInDomain (db : Db) (d : CStr) (s : Stream) : Prop where
  listed : s.listenerAll = false → ∀ l ∈ s.listeners.items, l.chars ≠ [] →
    ¬ NamesForeign db d (streamTopic l.chars)
  longTalker :
    (240 < s.talker.chars.length ∨
      ∃ r ∈ db.devices.rows, r.id = s.talker ∧ ∃ dom, r.domain = some dom ∧ 255 < dom.length) →
      ¬ NamesForeign db d (streamTopic s.talker.chars)
  longWalked : s.listenerAll = true → ∀ r ∈ db.devices.rows, r.domain = some d →
    d.length ≤ 255 → r.id ≠ s.talker → 240 < r.id.chars.length →
      ¬ NamesForeign db d (streamTopic r.id.chars)

theorem streamTopicText_injective {a b : CStr} (h : streamTopicText a = streamTopicText b) :
    a = b := by
  unfold streamTopicText at h
  exact List.append_cancel_left (List.append_cancel_right h)

theorem streamTopicText_length (a : CStr) : (streamTopicText a).length = a.length + 15 := by
  have hbefore : "tsn/cmd/".toList.length = 8 := by decide
  have hbehind : "/stream".toList.length = 7 := by decide
  unfold streamTopicText
  rw [List.length_append, List.length_append, hbefore, hbehind]
  omega

theorem streamTopic_of_short {a : CStr} (h : a.length ≤ 240) :
    streamTopic a = streamTopicText a := by
  have hlt : (streamTopicText a).length < 256 := by
    rw [streamTopicText_length]
    omega
  exact Buf.copy_chars_of_lt hlt

/-- A deployment touches nothing in the database but the stream table. -/
theorem deployScoped_db (m : TsnSystem) (id : CStr) (domain : Option CStr) :
    ∃ t, (deployScoped m id domain).2.db = { m.db with tsnStreams := t } := by
  by_cases h : m.TalkerReached id
  · obtain ⟨s, hs, c, hc, hh, hok⟩ := h
    have hready : statusChecked streamReady := by decide
    rw [deployScoped_reached hs hc hh hok domain]
    simp only [dbTsnSetStatus, prepares_eq, Sql.namesIndex, Bool.not_false, if_true, hready]
    exact ⟨_, rfl⟩
  · rw [deployScoped_db_not_reached h]
    exact ⟨m.db.tsnStreams, rfl⟩

/-- The state of the calls during a deployment of all streams: the devices
and the cache are as at the start, and the calls made so far are new. -/
structure DeployingFrom (m : TsnSystem) (c : MqttClient) (topics : CStr → Prop)
    (m' : TsnSystem) : Prop where
  streams : m'.streams = m.streams
  db : ∃ t, m'.db = { m.db with tsnStreams := t }
  mqtt : ∃ calls, m'.mqtt = some { c with calls := c.calls ++ calls } ∧
    ∀ p ∈ calls, topics p.topic

theorem streamInDomain_congr {m m' : TsnSystem} (hstreams : m'.streams = m.streams)
    (hdb : ∃ t, m'.db = { m.db with tsnStreams := t }) (id : CStr) (domain : Option CStr) :
    streamInDomain m' id domain = streamInDomain m id domain := by
  obtain ⟨t, ht⟩ := hdb
  unfold streamInDomain tsnManagerLoad
  rw [hstreams, ht]
  rfl

/-- Deploying a picked stream publishes to its topics only. -/
theorem deployCb_topics {m m' : TsnSystem} {c : MqttClient} {d : CStr} {s : Stream}
    (h : DeployingFrom m c
      (fun topic => ∃ s, PickedIn m.db m.streams d s ∧ topic ∈ streamTopics m.db d s) m') :
    DeployingFrom m c
      (fun topic => ∃ s, PickedIn m.db m.streams d s ∧ topic ∈ streamTopics m.db d s)
      (deployCb (some d) m' s) := by
  obtain ⟨hstreams, ⟨t, ht⟩, calls, hmqtt, hcalls⟩ := h
  unfold deployCb
  split
  · rename_i hin
    have hpicked : ∀ s', tsnManagerLoad m' s.streamId.chars = some s' →
        PickedIn m.db m.streams d s' := by
      intro s' hs'
      have hid : streamKey s' = s.streamId.chars := by
        have hfound := List.find?_some hs'
        simpa using hfound
      have hid' : s'.streamId.chars = s.streamId.chars := hid
      refine ⟨?_, ?_⟩
      · rw [hid', ← hstreams]
        exact hs'
      · rw [hid', ← hin]
        exact (@streamInDomain_congr ⟨m.db, m.streams, none⟩ m' hstreams ⟨t, ht⟩ _ _).symm
    have hpushed : ∀ s', pushedListeners m'.db s' (some d) = pushedListeners m.db s' (some d) := by
      intro s'
      rw [ht]
      rfl
    obtain ⟨t', ht'⟩ := deployScoped_db m' s.streamId.chars (some d)
    refine ⟨(deployScoped_streams m' _ _).trans hstreams, ⟨t', by rw [ht', ht]⟩, ?_⟩
    by_cases hreach : m'.TalkerReached s.streamId.chars
    · obtain ⟨s', hs', c₁, hc₁, hh, hok⟩ := hreach
      rw [deployScoped_reached hs' hc₁ hh hok (some d)]
      rw [show m'.mqtt = some c₁ from hc₁, Option.some.injEq] at hmqtt
      subst hmqtt
      refine ⟨_, by rw [List.append_assoc], ?_⟩
      intro p hp
      rcases List.mem_append.mp hp with hp | hp
      · exact hcalls p hp
      · refine ⟨s', hpicked s' hs', ?_⟩
        rcases List.mem_append.mp hp with hp | hp
        · obtain ⟨dev, hdev, htopic⟩ := mem_publishesTo_topic hp
          rw [List.mem_singleton] at hdev
          rw [htopic, hdev]
          exact List.mem_cons_self
        · obtain ⟨dev, hdev, htopic⟩ := mem_publishesTo_topic hp
          rw [hpushed] at hdev
          rw [htopic]
          exact List.mem_cons_of_mem _ (List.mem_map_of_mem hdev)
    · obtain ⟨-, hsame | ⟨s', c₁, hs', hc₁, hh, heq⟩⟩ := deployScoped_not_reached hreach (some d)
      · rw [hsame]
        exact ⟨calls, hmqtt, hcalls⟩
      · rw [heq]
        rw [hc₁, Option.some.injEq] at hmqtt
        subst hmqtt
        refine ⟨_, by rw [List.append_assoc], ?_⟩
        intro p hp
        rcases List.mem_append.mp hp with hp | hp
        · exact hcalls p hp
        · obtain ⟨dev, hdev, htopic⟩ := mem_publishesTo_topic hp
          rw [List.mem_singleton] at hdev
          refine ⟨s', hpicked s' hs', ?_⟩
          rw [htopic, hdev]
          exact List.mem_cons_self
  · exact ⟨hstreams, ⟨t, ht⟩, calls, hmqtt, hcalls⟩

/-- With a broker that accepts everything, deploying a picked stream
publishes to all its topics. -/
theorem deployCb_accepted {m : TsnSystem} {c : MqttClient} (hc : m.mqtt = some c)
    (hh : c.handle = true) (hok : ∀ n, c.accepts n = true) (d : CStr) (s : Stream) :
    ∃ calls, (deployCb (some d) m s).mqtt = some { c with calls := c.calls ++ calls } ∧
      (PickedIn m.db m.streams d s →
        ∀ topic ∈ streamTopics m.db d s, ∃ p ∈ calls, p.topic = topic) := by
  unfold deployCb
  split
  · cases hs : tsnManagerLoad m s.streamId.chars with
    | none =>
        have hdeploy : (deployScoped m s.streamId.chars (some d)).2 = m := by
          simp [deployScoped, hs]
        rw [hdeploy]
        refine ⟨[], by simp [hc], ?_⟩
        rintro ⟨hfind, -⟩
        exact absurd (hs.symm.trans hfind) (by simp)
    | some s' =>
        rw [deployScoped_reached hs hc hh (hok _) (some d)]
        refine ⟨_, rfl, ?_⟩
        rintro ⟨hfind, -⟩ topic htopic
        have heq : s' = s := Option.some.inj (hs.symm.trans hfind)
        subst heq
        rcases List.mem_cons.mp htopic with rfl | hpushed
        · obtain ⟨p, hp, htop⟩ := @exists_mem_publishesTo c.accepts s' .talker c.calls.length
            [s'.talker.chars] s'.talker.chars (by simp)
          exact ⟨p, List.mem_append_left _ hp, htop⟩
        · obtain ⟨dev, hdev, rfl⟩ := List.mem_map.mp hpushed
          obtain ⟨p, hp, htop⟩ := @exists_mem_publishesTo c.accepts s' .listener
            (c.calls.length + 1) _ dev hdev
          exact ⟨p, List.mem_append_right _ hp, htop⟩
  · rename_i hout
    refine ⟨[], by simp [hc], ?_⟩
    rintro ⟨-, hin⟩
    refine absurd ?_ hout
    rw [← hin]
    exact streamInDomain_congr rfl ⟨m.db.tsnStreams, rfl⟩ _ _

/-- With such a broker a deployment of streams reaches all their topics. -/
theorem run_deployCb_accepted {m : TsnSystem} (d : CStr) (ss : List Stream) (m' : TsnSystem)
    (c : MqttClient) (hc : m'.mqtt = some c) (hh : c.handle = true)
    (hok : ∀ n, c.accepts n = true) (hstreams : m'.streams = m.streams)
    (hdb : ∃ t, m'.db = { m.db with tsnStreams := t }) :
    ∃ calls, (run (deployCb (some d)) m' ss).mqtt = some { c with calls := c.calls ++ calls } ∧
      ∀ s ∈ ss, PickedIn m.db m.streams d s →
        ∀ topic ∈ streamTopics m.db d s, ∃ p ∈ calls, p.topic = topic := by
  induction ss generalizing m' c with
  | nil => exact ⟨[], by simp [run, hc], by simp⟩
  | cons s ss ih =>
      obtain ⟨calls, hcalls, htopics⟩ := deployCb_accepted hc hh hok d s
      obtain ⟨t, ht⟩ := hdb
      have hdb' : ∃ t, (deployCb (some d) m' s).db = { m.db with tsnStreams := t } := by
        unfold deployCb
        split
        · obtain ⟨t', ht'⟩ := deployScoped_db m' s.streamId.chars (some d)
          exact ⟨t', by rw [ht', ht]⟩
        · exact ⟨t, ht⟩
      obtain ⟨rest, hrest, hrestTopics⟩ := ih (deployCb (some d) m' s) _ hcalls hh hok
        ((deployCb_streams _ m' s).trans hstreams) hdb'
      refine ⟨calls ++ rest, ?_, ?_⟩
      · rw [← List.append_assoc]
        exact hrest
      · intro s' hs' hpicked topic htopic
        rcases List.mem_cons.mp hs' with rfl | hs'
        · have hpicked' : PickedIn m'.db m'.streams d s' := by
            refine ⟨by rw [hstreams]; exact hpicked.1, ?_⟩
            rw [← hpicked.2]
            exact @streamInDomain_congr ⟨m.db, m.streams, none⟩ ⟨m'.db, m'.streams, none⟩
              hstreams ⟨t, ht⟩ _ _
          have htopic' : topic ∈ streamTopics m'.db d s' := by
            rw [ht]
            exact htopic
          obtain ⟨p, hp, htop⟩ := htopics hpicked' topic htopic'
          exact ⟨p, List.mem_append_left _ hp, htop⟩
        · obtain ⟨p, hp, htop⟩ := hrestTopics s' hs' hpicked topic htopic
          exact ⟨p, List.mem_append_right _ hp, htop⟩

/-- A deployment is isolated exactly when no topic of a picked stream names a
foreign device. -/
theorem domainIsolated_iff_topics (db : Db) (streams : Slots Stream maxDevices) (d : CStr) :
    DomainIsolated db streams d ↔
      ∀ s, PickedIn db streams d s → ∀ topic ∈ streamTopics db d s, ¬ NamesForeign db d topic := by
  constructor
  · intro h s hs topic htopic
    have hmem : s ∈ streams.items := List.mem_of_find?_eq_some hs.1
    obtain ⟨calls, hcalls, htopics⟩ := @run_deployCb_accepted
      ⟨db, streams, some (.start fun _ => true)⟩ d streams.items _ _ rfl rfl (fun _ => rfl) rfl
      ⟨db.tsnStreams, rfl⟩
    obtain ⟨p, hp, rfl⟩ := htopics s hmem hs topic htopic
    refine h (some (.start fun _ => true)) _ rfl _ hcalls p ?_
    simpa [MqttClient.start] using hp
  · intro h mqtt c hc c' hc' p hp
    have hmqtt : mqtt = some c := hc
    subst hmqtt
    let topics := fun topic => ∃ s, PickedIn db streams d s ∧ topic ∈ streamTopics db d s
    have hstart : DeployingFrom ⟨db, streams, some c⟩ c topics ⟨db, streams, some c⟩ :=
      ⟨rfl, ⟨db.tsnStreams, rfl⟩, [], by simp, by simp⟩
    have hend := @run_invariant _ _ (deployCb (some d))
      (DeployingFrom ⟨db, streams, some c⟩ c topics) (fun m' s h => deployCb_topics h) _ hstart
      streams.items
    obtain ⟨calls, hcalls, htopics⟩ := hend.mqtt
    have heq : c' = { c with calls := c.calls ++ calls } :=
      Option.some.inj ((show _ = some c' from hc').symm.trans hcalls)
    subst heq
    simp only [List.drop_left] at hp
    obtain ⟨s, hs, htopic⟩ := htopics p hp
    exact h s hs p.topic htopic

/-- Only its own row can make the topic of a short id foreign. -/
theorem namesForeign_of_short {db : Db} {d : CStr} {id : Str} (hid : id.chars.length ≤ 240)
    (h : NamesForeign db d (streamTopic id.chars)) :
    ∃ r ∈ db.devices.rows, r.id = id ∧ ∃ dom, r.domain = some dom ∧ dom ≠ [] ∧ dom ≠ d := by
  obtain ⟨r, hr, htopic, hdom⟩ := h
  rw [streamTopic_of_short hid] at htopic
  exact ⟨r, hr, (Buf.chars_injective (streamTopicText_injective htopic)).symm, hdom⟩

/-- The check of the talker's domain covers every talker that fits. -/
theorem talker_not_foreign {db : Db} {streams : Slots Stream maxDevices} {d : CStr} (hd : d ≠ [])
    {s : Stream} (hs : PickedIn db streams d s) (hid : s.talker.chars.length ≤ 240)
    (hdom : ∀ r ∈ db.devices.rows, r.id = s.talker → ∀ dom, r.domain = some dom →
      dom.length ≤ 255) :
    ¬ NamesForeign db d (streamTopic s.talker.chars) := by
  intro hforeign
  obtain ⟨r, hr, hrid, dom, hrdom, hne, hother⟩ := namesForeign_of_short hid hforeign
  have hfind : db.devices.find s.talker.chars = some r :=
    db.devices.find_eq_some.mpr ⟨hr, congrArg Buf.chars hrid⟩
  have hget : dbDeviceGet db s.talker.chars = .ok (rowToDevice db r) := by
    simp [dbDeviceGet, Sql.namesIndex, hfind]
  have hcopy : (rowToDevice db r).domain.chars = dom := by
    simp only [rowToDevice, hrdom, Option.getD_some]
    exact Buf.copy_chars_of_lt (Nat.lt_succ_of_le (hdom r hr hrid dom hrdom))
  have hin := hs.2
  have hload : tsnManagerLoad ⟨db, streams, none⟩ s.streamId.chars = some s := hs.1
  have hscope : inScope (some d) = some d := by simp [inScope, hd]
  simp only [streamInDomain, hscope, hload, hget, hcopy, Bool.or_eq_true, decide_eq_true_eq] at hin
  rcases hin with hnil | heq
  · exact hne hnil
  · exact hother heq

theorem mem_walkedDevices {db : Db} {d : CStr} (hd : d ≠ []) {dev : Device} :
    dev ∈ walkedDevices db (some d) ↔
      ∃ r ∈ db.devices.rows, r.domain = some d ∧ rowToDevice db r = dev := by
  have hscope : inScope (some d) = some d := by simp [inScope, hd]
  simp [walkedDevices, hscope, dbDeviceForEachInDomain, Sql.namesIndex, and_assoc]

/-- A stream's topics are free of foreign devices exactly when the endpoints
that the code does not check are. -/
theorem topics_not_foreign_iff {db : Db} {streams : Slots Stream maxDevices} {d : CStr}
    (hd : d ≠ []) {s : Stream} (hs : PickedIn db streams d s) :
    (∀ topic ∈ streamTopics db d s, ¬ NamesForeign db d topic) ↔ EndpointsInDomain db d s := by
  constructor
  · intro h
    refine ⟨?_, ?_, ?_⟩
    · intro hall l hl hne
      apply h
      refine List.mem_cons_of_mem _ (List.mem_map_of_mem ?_)
      simp only [pushedListeners, hall, Bool.false_eq_true, if_false]
      exact List.mem_map_of_mem (List.mem_filter.mpr ⟨hl, by simpa using hne⟩)
    · exact fun _ => h _ List.mem_cons_self
    · intro hall r hr hdom hshort hne hlong
      apply h
      refine List.mem_cons_of_mem _ (List.mem_map_of_mem ?_)
      have hcopy : (Buf.copy 256 d).chars = d := Buf.copy_chars_of_lt (Nat.lt_succ_of_le hshort)
      have hid : r.id.chars ≠ [] := by
        intro hnil
        simp [hnil] at hlong
      have htalker : r.id.chars ≠ s.talker.chars := fun heq => hne (Buf.chars_injective heq)
      simp only [pushedListeners, hall, if_true]
      refine List.mem_map.mpr ⟨rowToDevice db r, List.mem_filter.mpr ⟨?_, ?_⟩, rfl⟩
      · exact (mem_walkedDevices hd).mpr ⟨r, hr, hdom, rfl⟩
      · simp [listensIn, hid, htalker, rowToDevice, hdom, hcopy]
  · rintro ⟨hlisted, hlongTalker, hlongWalked⟩ topic htopic
    rcases List.mem_cons.mp htopic with rfl | hpushed
    · by_cases hlong : 240 < s.talker.chars.length ∨
          ∃ r ∈ db.devices.rows, r.id = s.talker ∧ ∃ dom, r.domain = some dom ∧ 255 < dom.length
      · exact hlongTalker hlong
      · rw [not_or] at hlong
        refine talker_not_foreign hd hs (Nat.le_of_not_lt hlong.1) ?_
        intro r hr hrid dom hdom
        exact Nat.le_of_not_lt fun hlt => hlong.2 ⟨r, hr, hrid, dom, hdom, hlt⟩
    · obtain ⟨id, hid, rfl⟩ := List.mem_map.mp hpushed
      cases hall : s.listenerAll with
      | false =>
          simp only [pushedListeners, hall, Bool.false_eq_true, if_false] at hid
          obtain ⟨l, hl, rfl⟩ := List.mem_map.mp hid
          obtain ⟨hl, hne⟩ := List.mem_filter.mp hl
          exact hlisted hall l hl (by simpa using hne)
      | true =>
          simp only [pushedListeners, hall, if_true] at hid
          obtain ⟨dev, hdev, rfl⟩ := List.mem_map.mp hid
          obtain ⟨hdev, hlistens⟩ := List.mem_filter.mp hdev
          obtain ⟨r, hr, hdom, rfl⟩ := (mem_walkedDevices hd).mp hdev
          simp only [listensIn, rowToDevice_id, Bool.and_eq_true, Bool.not_eq_true',
            decide_eq_true_eq] at hlistens
          have hshort : d.length ≤ 255 := by
            rw [← hlistens.2]
            exact Nat.le_of_lt_succ (rowToDevice db r).domain.fits
          by_cases hlong : 240 < r.id.chars.length
          · exact hlongWalked hall r hr hdom hshort
              (fun heq => of_decide_eq_false hlistens.1.2 (congrArg Buf.chars heq)) hlong
          · intro hforeign
            obtain ⟨r', hr', hid', dom, hdom', -, hother⟩ :=
              namesForeign_of_short (Nat.le_of_not_lt hlong) hforeign
            have heq : r' = r := eq_of_key_eq db.devices.pk hr' hr (congrArg Buf.chars hid')
            subst heq
            exact hother (Option.some.inj (hdom'.symm.trans hdom))

/-- For every set of cached streams, every devices table and every non-empty
domain: a deployment of the domain publishes to no device recorded with
another one if and only if no picked stream lists such a device as a
listener, and no text that had to be cut names one. -/
theorem deploy_all_isolated_iff (db : Db) (streams : Slots Stream maxDevices) (d : CStr)
    (hd : d ≠ []) :
    DomainIsolated db streams d ↔
      ∀ s, PickedIn db streams d s → EndpointsInDomain db d s := by
  rw [domainIsolated_iff_topics]
  constructor
  · exact fun h s hs => (topics_not_foreign_iff hd hs).mp (h s hs)
  · exact fun h s hs => (topics_not_foreign_iff hd hs).mpr (h s hs)

/-- Two devices of one domain and a stream between them. -/
theorem deploy_all_isolated_one_cell :
    DomainIsolated
      (dbDeviceUpsert (dbDeviceUpsert Db.empty (.ofId "d1".toList "cell-1".toList)).2
        (.ofId "d2".toList "cell-1".toList)).2
      (Slots.empty.push (.request "s1".toList "d1".toList "d2".toList streamConfigured))
      "cell-1".toList := by
  refine (deploy_all_isolated_iff _ _ _ (by decide)).mpr fun s _ => ?_
  have hrows : ∀ topic, ¬ NamesForeign
      (dbDeviceUpsert (dbDeviceUpsert Db.empty (.ofId "d1".toList "cell-1".toList)).2
        (.ofId "d2".toList "cell-1".toList)).2 "cell-1".toList topic := by
    rintro topic ⟨r, hr, -, dom, hdom, -, hother⟩
    have hall : ∀ r ∈ (dbDeviceUpsert (dbDeviceUpsert Db.empty
        (.ofId "d1".toList "cell-1".toList)).2 (.ofId "d2".toList "cell-1".toList)).2.devices.rows,
        r.domain = some "cell-1".toList := by decide
    exact hother (Option.some.inj (hdom.symm.trans (hall r hr)))
  exact ⟨fun _ _ _ _ => hrows _, fun _ => hrows _, fun _ _ _ _ _ _ _ => hrows _⟩

/-- A stream whose talker is in the domain and whose listed listener is in
another one. -/
theorem deploy_all_reaches_other_cell :
    ¬ DomainIsolated
      (dbDeviceUpsert (dbDeviceUpsert Db.empty (.ofId "d1".toList "cell-1".toList)).2
        (.ofId "d2".toList "cell-2".toList)).2
      (Slots.empty.push (.request "s1".toList "d1".toList "d2".toList streamConfigured))
      "cell-1".toList := by
  intro h
  rw [domainIsolated_iff_topics] at h
  refine h (.request "s1".toList "d1".toList "d2".toList streamConfigured) ⟨by decide, by decide⟩
    (streamTopicText "d2".toList) (by decide) ?_
  exact ⟨bindDevice (.ofId "d2".toList "cell-2".toList), by decide, by decide,
    "cell-2".toList, by decide, by decide, by decide⟩

end Isolation

end Htsn
