import WirelessTsn.Common
import WirelessTsn.Lib.Run

/-!
The event bus (`src/mvc/event_bus.c`) and the notifications of a model
(`src/mvc/model.c`). A publication copies the subscriptions that match under the
lock and calls their handlers after it has given the lock back. In between other
threads subscribe and publish, and a handler may do so itself, so the calls of
several publications are interleaved.
-/

namespace Htsn.Mvc

open CText Run

/-- `MAX_SUBSCRIBERS` -/
def maxSubscribers : Nat := 64

/-- `subscription`; the handler stands for `cb` with its `userdata`. -/
structure Subscription (H : Type) where
  topic : Str
  handler : H

/-- `subs` and `num_subs` of an `htsn_event_bus`. -/
abbrev EventBus (H : Type) := Slots (Subscription H) maxSubscribers

section Bus

variable {H : Type}

/-- `htsn_event_bus_subscribe` -/
def subscribe (bus : EventBus H) (topic : CStr) (cb : H) : HtsnError × EventBus H :=
  if bus.items.length ≥ maxSubscribers then (.busy, bus)
  else (.ok, bus.push ⟨Buf.copy 256 topic, cb⟩)

/-- The test in the loop of `htsn_event_bus_publish`. -/
def Subscription.takes (sub : Subscription H) (topic : CStr) : Bool :=
  strncmpEq sub.topic.chars.length topic sub.topic.chars || sub.topic.chars == "*".toList

/-- `local`, as it is filled under the lock. -/
def localSubs (bus : EventBus H) (topic : CStr) : List (Subscription H) :=
  bus.items.filter fun sub => sub.takes topic

/-- A subscription takes the topics that begin with its own, or all of them. -/
theorem Subscription.takes_iff (sub : Subscription H) (topic : CStr) :
    sub.takes topic = true ↔ sub.topic.chars <+: topic ∨ sub.topic.chars = "*".toList := by
  rw [takes, Bool.or_eq_true, strncmpEq_length, beq_iff_eq]

/-- What is accepted comes last, and nothing is when all places are taken. -/
theorem subscribe_items (bus : EventBus H) (topic : CStr) (cb : H) :
    (subscribe bus topic cb).2.items =
      (bus.items ++ [Subscription.mk (Buf.copy 256 topic) cb]).take maxSubscribers := by
  unfold subscribe
  split
  · next hfull =>
      rw [List.take_append_of_le_length hfull, List.take_of_length_le bus.fits]
  · next hroom =>
      have hlt : bus.items.length < maxSubscribers := Nat.lt_of_not_le hroom
      rw [Slots.push, dif_pos hlt, List.take_of_length_le]
      simpa using hlt

end Bus

/-! ### Threads -/

/-- An `htsn_event_bus_publish` that has not come back: `rest` is what the second
loop still has to call. The number says which one it is. -/
structure Publication (H D : Type) where
  number : Nat
  topic : CStr
  data : D
  rest : List (Subscription H)

/-- One call of a handler, with the publication that makes it. -/
structure Call (H D : Type) where
  number : Nat
  topic : CStr
  data : D
  handler : H
deriving DecidableEq

/-- The bus, the publications that run in each thread (the innermost one first)
and the calls that were made. -/
structure System (T H D : Type) where
  bus : EventBus H
  running : T → List (Publication H D)
  published : Nat
  calls : List (Call H D)

/-- What a thread does next. Handlers subscribe and publish while the publication
that called them is still running. -/
inductive Event (T H D : Type) where
  | subscribe (topic : CStr) (cb : H)
  | publish (t : T) (topic : CStr) (data : D)
  | call (t : T)
  | leave (t : T)

section Threads

variable {T H D : Type} [DecidableEq T]

/-- Before the first subscription. -/
def System.start : System T H D := ⟨.empty, fun _ => [], 0, []⟩

/-- The first loop of `htsn_event_bus_publish`, which holds the lock. -/
def System.publish (s : System T H D) (t : T) (topic : CStr) (data : D) : System T H D :=
  { s with
    running := Function.update s.running t
      (⟨s.published, topic, data, localSubs s.bus topic⟩ :: s.running t)
    published := s.published + 1 }

/-- One turn of the second loop, in the innermost publication of a thread. -/
def System.call (s : System T H D) (t : T) : System T H D :=
  match s.running t with
  | ⟨number, topic, data, sub :: rest⟩ :: outer =>
      { s with
        running := Function.update s.running t (⟨number, topic, data, rest⟩ :: outer)
        calls := s.calls ++ [⟨number, topic, data, sub.handler⟩] }
  | _ => s

/-- The publication comes back when its loop is through. -/
def System.leave (s : System T H D) (t : T) : System T H D :=
  match s.running t with
  | ⟨_, _, _, []⟩ :: outer => { s with running := Function.update s.running t outer }
  | _ => s

def step (s : System T H D) : Event T H D → System T H D
  | .subscribe topic cb => { s with bus := (subscribe s.bus topic cb).2 }
  | .publish t topic data => s.publish t topic data
  | .call t => s.call t
  | .leave t => s.leave t

/-- A stack after the one of thread `t` was exchanged. -/
theorem mem_update {running : T → List (Publication H D)} {t u : T} {stack : List (Publication H D)}
    {p : Publication H D} (h : p ∈ Function.update running t stack u) :
    (u = t ∧ p ∈ stack) ∨ p ∈ running u := by
  rcases eq_or_ne u t with rfl | hu
  · rw [Function.update_self] at h
    exact Or.inl ⟨rfl, h⟩
  · rw [Function.update_of_ne hu] at h
    exact Or.inr h

/-! ### What the events before a publication say -/

def Event.subscription? : Event T H D → Option (Subscription H)
  | .subscribe topic cb => some ⟨Buf.copy 256 topic, cb⟩
  | _ => none

def Event.isPublish : Event T H D → Bool
  | .publish _ _ _ => true
  | _ => false

/-- The subscriptions that were accepted: the first ones, as many as there are
places. -/
def accepted (events : List (Event T H D)) : List (Subscription H) :=
  (events.filterMap Event.subscription?).take maxSubscribers

/-- The calls that a publication has to make. -/
def due (number : Nat) (topic : CStr) (data : D) (subs : List (Subscription H)) : List (Call H D) :=
  (subs.filter fun sub => sub.takes topic).map fun sub => ⟨number, topic, data, sub.handler⟩

/-- The calls that it still owes. -/
def Publication.owed (p : Publication H D) : List (Call H D) :=
  p.rest.map fun sub => ⟨p.number, p.topic, p.data, sub.handler⟩

/-- The calls made for a publication. -/
def callsOf (number : Nat) (calls : List (Call H D)) : List (Call H D) :=
  calls.filter fun c => c.number = number

/-- The calls that a stack of publications owes for one of them. -/
def owedOf (number : Nat) (stack : List (Publication H D)) : List (Call H D) :=
  (stack.filter fun p => p.number = number).flatMap Publication.owed

/-! ### One step -/

/-- The bus holds what was accepted, and numbers are given once. -/
structure Counted (events : List (Event T H D)) (s : System T H D) : Prop where
  bus : s.bus.items = accepted events
  published : s.published = events.countP Event.isPublish
  running : ∀ t, ∀ p ∈ s.running t, p.number < s.published
  calls : ∀ c ∈ s.calls, c.number < s.published

omit [DecidableEq T] in
theorem take_take_append (n : Nat) (as bs : List T) :
    (as.take n ++ bs).take n = (as ++ bs).take n := by
  rw [List.take_append, List.take_append, List.take_take, Nat.min_self, List.length_take]
  congr 2
  omega

omit [DecidableEq T] in
theorem counted_start : Counted [] (System.start (T := T) (H := H) (D := D)) where
  bus := rfl
  published := rfl
  running := by simp [System.start]
  calls := by simp [System.start]

omit [DecidableEq T] in
/-- An event that is no subscription and no publication changes no count. -/
theorem counted_other {events : List (Event T H D)} {e : Event T H D}
    (hsub : e.subscription? = none) (hpub : e.isPublish = false) :
    accepted (events ++ [e]) = accepted events ∧
      (events ++ [e]).countP Event.isPublish = events.countP Event.isPublish := by
  simp [accepted, List.filterMap_append, List.countP_append, hsub, hpub]

theorem Counted.call {events : List (Event T H D)} {s : System T H D} (h : Counted events s) (t : T) :
    Counted (events ++ [.call t]) (s.call t) := by
  obtain ⟨hacc, hcount⟩ := @counted_other _ _ _ events (.call t) rfl rfl
  unfold System.call
  split
  · next number topic data sub rest outer hstack =>
      have hlt : number < s.published := h.running t _ (hstack ▸ List.mem_cons_self)
      constructor
      · exact h.bus.trans hacc.symm
      · exact h.published.trans hcount.symm
      · intro u p hp
        rcases mem_update hp with ⟨rfl, hin⟩ | hin
        · rcases List.mem_cons.mp hin with rfl | hin
          · exact hlt
          · exact h.running u p (hstack ▸ List.mem_cons_of_mem _ hin)
        · exact h.running u p hin
      · intro c hc
        rcases List.mem_append.mp hc with hc | hc
        · exact h.calls c hc
        · rw [List.mem_singleton.mp hc]
          exact hlt
  · exact ⟨h.bus.trans hacc.symm, h.published.trans hcount.symm, h.running, h.calls⟩

theorem Counted.leave {events : List (Event T H D)} {s : System T H D} (h : Counted events s) (t : T) :
    Counted (events ++ [.leave t]) (s.leave t) := by
  obtain ⟨hacc, hcount⟩ := @counted_other _ _ _ events (.leave t) rfl rfl
  unfold System.leave
  split
  · next outer hstack =>
      refine ⟨h.bus.trans hacc.symm, h.published.trans hcount.symm, ?_, h.calls⟩
      intro u p hp
      rcases mem_update hp with ⟨rfl, hin⟩ | hin
      · exact h.running u p (hstack ▸ List.mem_cons_of_mem _ hin)
      · exact h.running u p hin
  · exact ⟨h.bus.trans hacc.symm, h.published.trans hcount.symm, h.running, h.calls⟩

theorem Counted.publish {events : List (Event T H D)} {s : System T H D} (h : Counted events s) (t : T)
    (topic : CStr) (data : D) :
    Counted (events ++ [.publish t topic data]) (s.publish t topic data) := by
  constructor
  · rw [System.publish, h.bus]
    simp [accepted, Event.subscription?]
  · rw [System.publish, h.published]
    simp [Event.isPublish]
  · intro u p hp
    have hnext : s.published < s.published + 1 := Nat.lt_succ_self _
    rcases mem_update hp with ⟨rfl, hin⟩ | hin
    · rcases List.mem_cons.mp hin with rfl | hin
      · exact hnext
      · exact (h.running u p hin).trans hnext
    · exact (h.running u p hin).trans hnext
  · intro c hc
    exact (h.calls c hc).trans (Nat.lt_succ_self _)

theorem Counted.step {events : List (Event T H D)} {s : System T H D} (h : Counted events s)
    (e : Event T H D) : Counted (events ++ [e]) (step s e) := by
  cases e with
  | subscribe topic cb =>
      refine ⟨?_, ?_, h.running, h.calls⟩
      · rw [Mvc.step, subscribe_items, h.bus, accepted, accepted, List.filterMap_append]
        exact take_take_append _ _ _
      · exact h.published.trans (by simp [Event.isPublish])
  | publish t topic data => exact h.publish t topic data
  | call t => exact h.call t
  | leave t => exact h.leave t

theorem counted_run (events : List (Event T H D)) : Counted events (run step .start events) := by
  induction events using List.reverseRecOn with
  | nil => exact counted_start
  | append_singleton events e ih =>
      rw [run_append]
      exact ih.step e

/-! ### One publication among all others -/

/-- Publication `number` runs in thread `t`: what was called for it and what is
still owed make up `all`. -/
structure Serves (number : Nat) (t : T) (all : List (Call H D)) (s : System T H D) : Prop where
  all : callsOf number s.calls ++ owedOf number (s.running t) = all
  elsewhere : ∀ u ≠ t, ∀ p ∈ s.running u, p.number ≠ number
  given : number < s.published

omit [DecidableEq T] in
theorem callsOf_append (number : Nat) (calls : List (Call H D)) (c : Call H D) :
    callsOf number (calls ++ [c]) = callsOf number calls ++ if c.number = number then [c] else [] := by
  rw [callsOf, List.filter_append, List.filter_singleton, callsOf]
  simp

theorem owedOf_cons (number : Nat) (p : Publication H D) (stack : List (Publication H D)) :
    owedOf number (p :: stack) = (if p.number = number then p.owed else []) ++ owedOf number stack := by
  unfold owedOf
  split
  · next h => rw [List.filter_cons_of_pos (by simpa using h), List.flatMap_cons]
  · next h => rw [List.filter_cons_of_neg (by simpa using h), List.nil_append]

/-- Right after the publication nothing is called yet and everything is owed. -/
theorem Counted.serves {events : List (Event T H D)} {s : System T H D} (h : Counted events s) (t : T)
    (topic : CStr) (data : D) :
    Serves s.published t (due s.published topic data (accepted events)) (s.publish t topic data) := by
  have hcalls : callsOf s.published s.calls = [] := by
    refine List.filter_eq_nil_iff.mpr fun c hc => ?_
    simpa using (h.calls c hc).ne
  have howed : owedOf s.published (s.running t) = [] := by
    rw [owedOf, List.filter_eq_nil_iff.mpr, List.flatMap_nil]
    intro p hp
    simpa using (h.running t p hp).ne
  constructor
  · dsimp only [System.publish]
    rw [hcalls, Function.update_self, owedOf_cons, howed, if_pos rfl, localSubs, h.bus]
    simp [Publication.owed, due]
  · intro u hu p hp
    rcases mem_update hp with ⟨rfl, -⟩ | hin
    · exact absurd rfl hu
    · exact (h.running u p hin).ne
  · exact Nat.lt_succ_self _

/-- A call moves from what is owed to what was made. -/
theorem Serves.call {number : Nat} {t : T} {all : List (Call H D)} {s : System T H D}
    (h : Serves number t all s) (u : T) : Serves number t all (s.call u) := by
  unfold System.call
  split
  · next n topic data sub rest outer hstack =>
      constructor
      · rcases eq_or_ne t u with rfl | hu
        · have hall := h.all
          rw [hstack, owedOf_cons] at hall
          dsimp only
          rw [callsOf_append, Function.update_self, owedOf_cons, ← hall]
          rcases eq_or_ne n number with rfl | hn
          · simp [Publication.owed]
          · simp [hn]
        · have hn : n ≠ number := h.elsewhere u hu.symm _ (hstack ▸ List.mem_cons_self)
          dsimp only
          rw [callsOf_append, Function.update_of_ne hu, if_neg hn, List.append_nil]
          exact h.all
      · intro v hv p hp
        rcases mem_update hp with ⟨rfl, hin⟩ | hin
        · rcases List.mem_cons.mp hin with rfl | hin
          · exact h.elsewhere v hv ⟨n, topic, data, sub :: rest⟩ (hstack ▸ List.mem_cons_self)
          · exact h.elsewhere v hv p (hstack ▸ List.mem_cons_of_mem _ hin)
        · exact h.elsewhere v hv p hin
      · exact h.given
  · exact h

/-- What comes back owes nothing. -/
theorem Serves.leave {number : Nat} {t : T} {all : List (Call H D)} {s : System T H D}
    (h : Serves number t all s) (u : T) : Serves number t all (s.leave u) := by
  unfold System.leave
  split
  · next n topic data outer hstack =>
      refine ⟨?_, ?_, h.given⟩
      · rcases eq_or_ne t u with rfl | hu
        · have hall := h.all
          rw [hstack, owedOf_cons] at hall
          dsimp only
          rw [Function.update_self, ← hall]
          simp [Publication.owed]
        · dsimp only
          rw [Function.update_of_ne hu]
          exact h.all
      · intro v hv p hp
        rcases mem_update hp with ⟨rfl, hin⟩ | hin
        · exact h.elsewhere v hv p (hstack ▸ List.mem_cons_of_mem _ hin)
        · exact h.elsewhere v hv p hin
  · exact h

/-- A later publication, in the same thread or in another, has another number. -/
theorem Serves.publish {number : Nat} {t : T} {all : List (Call H D)} {s : System T H D}
    (h : Serves number t all s) (u : T) (topic : CStr) (data : D) :
    Serves number t all (s.publish u topic data) := by
  have hnew : s.published ≠ number := h.given.ne'
  constructor
  · dsimp only [System.publish]
    rcases eq_or_ne t u with rfl | hu
    · rw [Function.update_self, owedOf_cons, if_neg hnew, List.nil_append]
      exact h.all
    · rw [Function.update_of_ne hu]
      exact h.all
  · intro v hv p hp
    rcases mem_update hp with ⟨rfl, hin⟩ | hin
    · rcases List.mem_cons.mp hin with rfl | hin
      · exact hnew
      · exact h.elsewhere v hv p hin
    · exact h.elsewhere v hv p hin
  · exact h.given.trans (Nat.lt_succ_self _)

theorem Serves.step {number : Nat} {t : T} {all : List (Call H D)} {s : System T H D}
    (h : Serves number t all s) (e : Event T H D) : Serves number t all (step s e) := by
  cases e with
  | subscribe topic cb => exact ⟨h.all, h.elsewhere, h.given⟩
  | publish u topic data => exact h.publish u topic data
  | call u => exact h.call u
  | leave u => exact h.leave u

/-- However the threads take turns, a publication calls the handlers of the
subscriptions that were accepted before it and take its topic, each once, in the
order of subscription and with its topic and data; what is not called yet is
owed by its own thread, and when it has come back nothing is. -/
theorem publication_served (before after : List (Event T H D)) (t : T) (topic : CStr) (data : D) :
    ∃ owed, callsOf (before.countP Event.isPublish)
          (run step .start (before ++ .publish t topic data :: after)).calls ++ owed =
        due (before.countP Event.isPublish) topic data (accepted before) ∧
      ((∀ p ∈ (run step .start (before ++ .publish t topic data :: after)).running t,
        p.number ≠ before.countP Event.isPublish) → owed = []) := by
  have hbefore := counted_run before
  have hserves := hbefore.serves t topic data
  rw [hbefore.published] at hserves
  have hrun : Serves _ t _ (run step _ after) := run_invariant (fun _ e hs => hs.step e) hserves after
  rw [run_append, run_cons]
  refine ⟨_, hrun.all, fun hback => ?_⟩
  rw [owedOf, List.filter_eq_nil_iff.mpr, List.flatMap_nil]
  intro p hp
  simpa using hback p hp

end Threads

end Htsn.Mvc
