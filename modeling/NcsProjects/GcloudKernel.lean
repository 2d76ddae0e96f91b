import NcsProjects.MessageQueues
import NcsProjects.PublishPayload

/-!
The kernel objects that the threads of gcloud.c share: the command queue and the
semaphore of gcloud_connect. A thread that waits in one of them stays at its call
until it is no longer among the waiting threads; whoever wakes it leaves it a
return value, and a message that is handed to the waiting gcloud thread is
written to the variable `event` of that thread. The waits of the API have a
timeout of 100 s; the gcloud thread waits for a command for ever.
-/
namespace NcsProjects.Gcloud

open Semaphores MessageQueues PublishPayload

/-- The application threads, the gcloud thread and the mqtt thread. -/
inductive Tid
  | app (n : ℕ)
  | gcloud
  | mqtt
  deriving DecidableEq

/-- mqtt_publish_message: the payload pointer, its length and the QoS. The topic is
that of the command. -/
structure Message where
  data : ℕ
  size : ℕ
  qos : Qos
  deriving DecidableEq

/-- struct gcloud_event. A CONNECT carries the call of gcloud_connect that queued it,
or none when the module queued it itself, and a DISCONNECT carries its call. -/
inductive GcloudEvent
  | connect (origin : Option ℕ)
  | publishState (m : Message)
  | publish (m : Message)
  | reconnectTimeout
  | disconnect (call : ℕ)
  | subscribe
  deriving DecidableEq

def GcloudEvent.isConnect : GcloudEvent → Bool
  | .connect _ => true
  | _ => false

/-- N_MESSAGES -/
def nMessages : ℕ := 3

def eagain : ℤ := -11
def enomsg : ℤ := -35

structure Kernel where
  msgq : MsgQ Tid GcloudEvent nMessages
  gcConnectedSem : Sem Tid Unit 1
  retval : Tid → ℤ
  /-- The local variable `event` of gcloud_thread. -/
  event : Option GcloudEvent
  /-- The CONNECT commands that gcloud_msgq has accepted so far. -/
  connects : ℕ

namespace Kernel

def start : Kernel where
  msgq := MsgQ.empty
  gcConnectedSem := Sem.start [] Sem.empty_fits
  retval := fun _ => 0
  event := none
  connects := 0

/-- The count of accepted CONNECT commands once `e` is in. -/
def countConnect (k : Kernel) (e : GcloudEvent) : ℕ :=
  if e.isConnect then k.connects + 1 else k.connects

/-- k_msgq_put. The result says whether the message is in; otherwise `self` waits. -/
def put (k : Kernel) (pos : ℕ) (self : Tid) (e : GcloudEvent) : Bool × Kernel :=
  match k.msgq.put e with
  | .handed _ q => (true, { k with msgq := q, event := some e, connects := k.countConnect e })
  | .stored q => (true, { k with msgq := q, connects := k.countConnect e })
  | .full => (false, { k with msgq := k.msgq.pendWrite pos self e })

/-- k_msgq_put with K_NO_WAIT, from a timer: a message that finds no room is dropped. -/
def putNoWait (k : Kernel) (e : GcloudEvent) : Kernel :=
  match k.msgq.put e with
  | .handed _ q => { k with msgq := q, event := some e, connects := k.countConnect e }
  | .stored q => { k with msgq := q, connects := k.countConnect e }
  | .full => k

/-- k_msgq_get of the gcloud thread; none when the queue is empty. -/
def get (k : Kernel) : Option Kernel :=
  match k.msgq.get with
  | none => none
  | some (e, none, q) => some { k with msgq := q, event := some e }
  | some (e, some (t, m), q) => some { k with
      msgq := q
      event := some e
      retval := Function.update k.retval t 0
      connects := k.countConnect m }

def pendRead (k : Kernel) (pos : ℕ) : Kernel :=
  { k with msgq := k.msgq.pendRead pos .gcloud }

/-- A put that had to wait is over. -/
def putDone (k : Kernel) (self : Tid) : Prop := self ∉ k.msgq.writers.map Prod.fst

instance (k : Kernel) (self : Tid) : Decidable (k.putDone self) :=
  inferInstanceAs (Decidable (self ∉ k.msgq.writers.map Prod.fst))

/-- k_msgq_purge wakes every waiting thread with -ENOMSG. -/
def purge (k : Kernel) : Kernel :=
  { k with
    msgq := MsgQ.empty
    retval := fun t => if t ∈ k.msgq.writers.map Prod.fst then enomsg else k.retval t }

/-- k_sem_give(&gc_connected_sem) -/
def give (k : Kernel) : Kernel := { k with gcConnectedSem := (k.gcConnectedSem.give ()).2 }

/-- k_sem_take(&gc_connected_sem); the result says whether a token was there. -/
def take (k : Kernel) (pos : ℕ) (self : Tid) : Bool × Kernel :=
  match k.gcConnectedSem.take pos self with
  | (some (), sem) => (true, { k with gcConnectedSem := sem })
  | (none, sem) => (false, { k with gcConnectedSem := sem })

/-- The 100 s of a waiting put or take are over. -/
def timeout (k : Kernel) (t : Tid) : Option Kernel :=
  if t ∈ k.msgq.writers.map Prod.fst then
    some { k with msgq := k.msgq.cancel t, retval := Function.update k.retval t eagain }
  else if t ∈ k.gcConnectedSem.waiters then
    some { k with gcConnectedSem := k.gcConnectedSem.cancel t }
  else none

/-- An aborted thread leaves every wait queue. -/
def drop (k : Kernel) (t : Tid) : Kernel :=
  { k with msgq := k.msgq.cancel t, gcConnectedSem := k.gcConnectedSem.cancel t }

theorem countConnect_ge (k : Kernel) (e : GcloudEvent) : k.connects ≤ k.countConnect e := by
  unfold countConnect
  split <;> omega

/-- An accepted CONNECT is counted. -/
theorem put_connect_accepted {k k' : Kernel} {pos : ℕ} {self : Tid} {origin : Option ℕ}
    (h : k.put pos self (.connect origin) = (true, k')) : k'.connects = k.connects + 1 := by
  unfold put at h
  split at h
  · cases h
    rfl
  · cases h
    rfl
  · cases h

/-- A put is accepted when the queue has room. -/
theorem put_of_room {k : Kernel} (pos : ℕ) (self : Tid) (e : GcloudEvent)
    (hroom : k.msgq.buf.length < nMessages) : (k.put pos self e).1 = true := by
  unfold put MsgQ.put
  rw [dif_pos hroom]
  split <;> rename_i heq
  · rfl
  · rfl
  · split at heq <;> cases heq

theorem put_connects_le (k : Kernel) (pos : ℕ) (self : Tid) (e : GcloudEvent) :
    k.connects ≤ (k.put pos self e).2.connects := by
  unfold put
  split
  · exact k.countConnect_ge e
  · exact k.countConnect_ge e
  · exact Nat.le_refl _

theorem putNoWait_connects_le (k : Kernel) (e : GcloudEvent) :
    k.connects ≤ (k.putNoWait e).connects := by
  unfold putNoWait
  split
  · exact k.countConnect_ge e
  · exact k.countConnect_ge e
  · exact Nat.le_refl _

theorem get_connects_le {k k' : Kernel} (h : k.get = some k') : k.connects ≤ k'.connects := by
  unfold get at h
  split at h
  · cases h
  · cases h
    exact Nat.le_refl _
  · cases h
    exact k.countConnect_ge _

theorem take_connects (k : Kernel) (pos : ℕ) (self : Tid) :
    (k.take pos self).2.connects = k.connects := by
  unfold take
  split <;> rfl

theorem timeout_connects {k k' : Kernel} {t : Tid} (h : k.timeout t = some k') :
    k'.connects = k.connects := by
  unfold timeout at h
  split at h
  · cases h
    rfl
  · split at h
    · cases h
      rfl
    · cases h

/-- What all operations but get, pendRead and purge keep of the queue: messages stay,
nobody starts to read, and without a reader the variable `event` is left alone. -/
structure Keeps (k k' : Kernel) : Prop where
  buf : k.msgq.buf ⊆ k'.msgq.buf
  readers : k'.msgq.readers.Sublist k.msgq.readers
  event : k.msgq.readers = [] → k'.event = k.event

theorem Keeps.refl (k : Kernel) : k.Keeps k :=
  ⟨List.Subset.refl _, List.Sublist.refl _, fun _ => rfl⟩

theorem Keeps.handed {k : Kernel} {e : GcloudEvent} {r : Tid} {q : MsgQ Tid GcloudEvent nMessages}
    (h : k.msgq.put e = .handed r q) (n : ℕ) :
    k.Keeps { k with msgq := q, event := some e, connects := n } := by
  obtain ⟨hbuf, hreaders, _⟩ := MsgQ.put_of_handed h
  refine ⟨?_, ?_, ?_⟩
  · rw [hbuf]
    exact List.Subset.refl _
  · rw [hreaders]
    exact List.sublist_cons_self _ _
  · intro hnone
    rw [hreaders] at hnone
    cases hnone

theorem Keeps.stored {k : Kernel} {e : GcloudEvent} {q : MsgQ Tid GcloudEvent nMessages}
    (h : k.msgq.put e = .stored q) (n : ℕ) :
    k.Keeps { k with msgq := q, connects := n } := by
  obtain ⟨hbuf, hreaders, hnone, _⟩ := MsgQ.put_of_stored h
  refine ⟨?_, ?_, fun _ => rfl⟩
  · rw [hbuf]
    exact List.subset_append_left _ _
  · rw [hreaders]
    exact List.nil_sublist _

theorem put_keeps (k : Kernel) (pos : ℕ) (self : Tid) (e : GcloudEvent) :
    k.Keeps (k.put pos self e).2 := by
  unfold put
  split
  · rename_i hput
    exact Keeps.handed hput _
  · rename_i hput
    exact Keeps.stored hput _
  · exact ⟨by simp, by simp, fun _ => rfl⟩

theorem putNoWait_keeps (k : Kernel) (e : GcloudEvent) : k.Keeps (k.putNoWait e) := by
  unfold putNoWait
  split
  · rename_i hput
    exact Keeps.handed hput _
  · rename_i hput
    exact Keeps.stored hput _
  · exact Keeps.refl k

theorem take_keeps (k : Kernel) (pos : ℕ) (self : Tid) : k.Keeps (k.take pos self).2 := by
  unfold take
  split <;> exact ⟨List.Subset.refl _, List.Sublist.refl _, fun _ => rfl⟩

theorem drop_keeps (k : Kernel) (t : Tid) : k.Keeps (k.drop t) :=
  ⟨List.Subset.refl _, List.filter_sublist, fun _ => rfl⟩

theorem timeout_keeps {k k' : Kernel} {t : Tid} (h : k.timeout t = some k') : k.Keeps k' := by
  unfold timeout at h
  split at h
  · cases h
    exact ⟨List.Subset.refl _, List.filter_sublist, fun _ => rfl⟩
  · split at h
    · cases h
      exact ⟨List.Subset.refl _, List.Sublist.refl _, fun _ => rfl⟩
    · cases h

/-- A message with room and no reader is stored. -/
theorem mem_put_of_room {k : Kernel} (pos : ℕ) (self : Tid) (e : GcloudEvent)
    (hroom : k.msgq.buf.length < nMessages) (hreaders : k.msgq.readers = []) :
    e ∈ (k.put pos self e).2.msgq.buf := by
  unfold put
  split
  · rename_i hput
    obtain ⟨_, hcons, _⟩ := MsgQ.put_of_handed hput
    rw [hreaders] at hcons
    cases hcons
  · rename_i hput
    obtain ⟨hbuf, _⟩ := MsgQ.put_of_stored hput
    rw [hbuf]
    exact List.mem_append_right _ List.mem_cons_self
  · rename_i hput
    exact absurd hroom (MsgQ.put_of_full hput)

/-- An accepted message is in the queue, or it is in `event` and a reader is gone. -/
theorem put_cases {k k' : Kernel} {pos : ℕ} {self : Tid} {e : GcloudEvent}
    (h : k.put pos self e = (true, k')) :
    e ∈ k'.msgq.buf ∨ k'.event = some e ∧ ∃ r, k.msgq.readers = r :: k'.msgq.readers := by
  unfold put at h
  split at h
  · rename_i hput
    obtain ⟨_, hreaders, _⟩ := MsgQ.put_of_handed hput
    cases h
    exact Or.inr ⟨rfl, _, hreaders⟩
  · rename_i hput
    obtain ⟨hbuf, _⟩ := MsgQ.put_of_stored hput
    cases h
    exact Or.inl (by simp [hbuf])
  · cases h

/-- A thread whose put finds no room waits with its message. -/
theorem mem_put_writers {k k' : Kernel} {pos : ℕ} {self : Tid} {e : GcloudEvent}
    (h : k.put pos self e = (false, k')) : (self, e) ∈ k'.msgq.writers := by
  unfold put at h
  split at h
  · cases h
  · cases h
  · rename_i hput
    cases h
    exact MsgQ.mem_pendWrite (MsgQ.put_of_full hput)

/-- A get takes one message to `event` and leaves the others. -/
theorem get_cases {k k' : Kernel} (h : k.get = some k') :
    ∃ e, k'.event = some e ∧ e ∈ k.msgq.buf ∧ (∀ x ∈ k.msgq.buf, x = e ∨ x ∈ k'.msgq.buf) ∧
      k'.msgq.readers = [] := by
  unfold get at h
  split at h
  · cases h
  · rename_i e q hget
    cases h
    obtain ⟨rest, hbuf, hreaders, hq⟩ := MsgQ.get_cases hget
    refine ⟨e, rfl, by simp [hbuf], ?_, hreaders⟩
    intro x hx
    rw [hbuf] at hx
    exact (List.mem_cons.mp hx).imp id (hq x)
  · rename_i e t m q hget
    cases h
    obtain ⟨rest, hbuf, hreaders, hq⟩ := MsgQ.get_cases hget
    refine ⟨e, rfl, by simp [hbuf], ?_, hreaders⟩
    intro x hx
    rw [hbuf] at hx
    exact (List.mem_cons.mp hx).imp id (hq x)

theorem get_none {k : Kernel} (h : k.get = none) : k.msgq.buf = [] := by
  unfold get at h
  split at h
  · rename_i hget
    exact MsgQ.get_none hget
  · cases h
  · cases h

/-- Where every command is one with the property `P`, so is every command that comes
into the queue or into `event`; without a new one a waiting gcloud thread waits on. -/
structure Feeds (P : GcloudEvent → Prop) (k k' : Kernel) : Prop where
  all : k'.msgq.All P
  event : k'.event = k.event ∧ (k.msgq.readers = [.gcloud] → k'.msgq.readers = [.gcloud]) ∨
    ∃ e, k'.event = some e ∧ P e
  connects : (∀ e, P e → e.isConnect = false) → k'.connects = k.connects

section Feeds

variable {P : GcloudEvent → Prop} {k k' : Kernel}

theorem Feeds.refl (h : k.msgq.All P) : Feeds P k k := ⟨h, Or.inl ⟨rfl, id⟩, fun _ => rfl⟩

theorem countConnect_of_not {e : GcloudEvent} (h : e.isConnect = false) :
    k.countConnect e = k.connects := by
  simp [countConnect, h]

theorem handed_feeds {e : GcloudEvent} {r : Tid} {q : MsgQ Tid GcloudEvent nMessages}
    (h : k.msgq.All P) (he : P e) (hput : k.msgq.put e = .handed r q) :
    Feeds P k { k with msgq := q, event := some e, connects := k.countConnect e } :=
  ⟨h.handed hput, Or.inr ⟨e, rfl, he⟩, fun hP => countConnect_of_not (hP e he)⟩

theorem stored_feeds {e : GcloudEvent} {q : MsgQ Tid GcloudEvent nMessages}
    (h : k.msgq.All P) (he : P e) (hput : k.msgq.put e = .stored q) :
    Feeds P k { k with msgq := q, connects := k.countConnect e } := by
  refine ⟨h.stored he hput, Or.inl ⟨rfl, ?_⟩, fun hP => countConnect_of_not (hP e he)⟩
  intro hr
  rw [(MsgQ.put_of_stored hput).2.2.1] at hr
  cases hr

theorem put_feeds (pos : ℕ) (self : Tid) {e : GcloudEvent} (h : k.msgq.All P) (he : P e) :
    Feeds P k (k.put pos self e).2 := by
  unfold put
  split
  · rename_i hput
    exact handed_feeds h he hput
  · rename_i hput
    exact stored_feeds h he hput
  · exact ⟨h.pendWrite he, Or.inl ⟨rfl, by simp⟩, fun _ => rfl⟩

theorem putNoWait_feeds {e : GcloudEvent} (h : k.msgq.All P) (he : P e) :
    Feeds P k (k.putNoWait e) := by
  unfold putNoWait
  split
  · rename_i hput
    exact handed_feeds h he hput
  · rename_i hput
    exact stored_feeds h he hput
  · exact Feeds.refl h

theorem get_feeds (h : k.msgq.All P) (hk : k.get = some k') : Feeds P k k' := by
  unfold get at hk
  split at hk
  · cases hk
  · rename_i e q hget
    obtain ⟨he, _, hq⟩ := h.get hget
    cases hk
    exact ⟨hq, Or.inr ⟨e, rfl, he⟩, fun _ => rfl⟩
  · rename_i e t m q hget
    obtain ⟨he, hm, hq⟩ := h.get hget
    cases hk
    exact ⟨hq, Or.inr ⟨e, rfl, he⟩, fun hP => countConnect_of_not (hP m (hm _ rfl))⟩

theorem timeout_feeds {t : Tid} (h : k.msgq.All P) (hk : k.timeout t = some k') :
    Feeds P k k' := by
  unfold timeout at hk
  split at hk
  · rename_i hmem
    cases hk
    refine ⟨h.cancel, Or.inl ⟨rfl, fun hr => ?_⟩, fun _ => rfl⟩
    rw [MsgQ.writers_nil_of_reading (by decide) (by rw [hr]; rintro ⟨⟩)] at hmem
    cases hmem
  · split at hk <;> cases hk
    exact ⟨h, Or.inl ⟨rfl, id⟩, fun _ => rfl⟩

theorem take_feeds (pos : ℕ) (self : Tid) (h : k.msgq.All P) :
    Feeds P k (k.take pos self).2 := by
  unfold take
  split <;> exact ⟨h, Or.inl ⟨rfl, id⟩, fun _ => rfl⟩

theorem drop_feeds (h : k.msgq.All P) : Feeds P k (k.drop .mqtt) := by
  refine ⟨h.cancel, Or.inl ⟨rfl, fun hr => ?_⟩, fun _ => rfl⟩
  simp [drop, MsgQ.cancel, hr]

theorem pendRead_feeds (pos : ℕ) (h : k.msgq.All P) (hnil : k.msgq.readers = []) :
    Feeds P k (k.pendRead pos) :=
  ⟨h.pendRead, Or.inl ⟨rfl, fun hr => by simp [hnil] at hr⟩, fun _ => rfl⟩

theorem give_feeds (h : k.msgq.All P) : Feeds P k k.give :=
  ⟨h, Or.inl ⟨rfl, id⟩, fun _ => rfl⟩

end Feeds

end Kernel

/-- A call on the kernel objects. -/
inductive KernelCall
  | none
  | put (pos : ℕ) (self : Tid) (e : GcloudEvent)
  | putNoWait (e : GcloudEvent)
  | get (pos : ℕ)
  | purge
  | take (pos : ℕ) (self : Tid)
  | give
  | timeout (t : Tid)
  | drop (t : Tid)

def KernelCall.exec (k : Kernel) : KernelCall → Kernel
  | .none => k
  | .put pos self e => (k.put pos self e).2
  | .putNoWait e => k.putNoWait e
  | .get pos => k.get.getD (k.pendRead pos)
  | .purge => k.purge
  | .take pos self => (k.take pos self).2
  | .give => k.give
  | .timeout t => (k.timeout t).getD k
  | .drop t => k.drop t

theorem KernelCall.connects_le (c : KernelCall) (k : Kernel) :
    k.connects ≤ (c.exec k).connects := by
  cases c with
  | none | give | purge | drop t => exact Nat.le_refl _
  | put pos self e => exact k.put_connects_le pos self e
  | putNoWait e => exact k.putNoWait_connects_le e
  | get pos =>
    simp only [exec]
    cases hget : k.get with
    | none => exact Nat.le_refl _
    | some k' => exact Kernel.get_connects_le hget
  | take pos self => exact Nat.le_of_eq (k.take_connects pos self).symm
  | timeout t =>
    simp only [exec]
    cases htimeout : k.timeout t with
    | none => exact Nat.le_refl _
    | some k' => exact Nat.le_of_eq (Kernel.timeout_connects htimeout).symm

end NcsProjects.Gcloud
