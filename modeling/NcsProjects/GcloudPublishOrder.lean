import NcsProjects.GcloudCommands
import NcsProjects.GcloudPayloads
import NcsProjects.GcloudSessions

/-!
The order of the publishes. A history numbers the calls of gcloud_publish and
gcloud_publish_state, carries the numbers along with the commands through gcloud_msgq,
and keeps two lists: the numbers in the order in which the queue accepts the commands,
and the calls of mqtt_publish with what they pass. The queue is first in, first out; a
purge takes accepted commands away, and one on the mqtt thread also wakes gcloud_thread
out of k_msgq_get, which then dispatches its last command a second time.
-/
namespace NcsProjects.Gcloud

open MessageQueues TransitionRuns

/-- GCLOUD_TOPIC and GCLOUD_STATE_TOPIC. -/
inductive Topic
  | events
  | state
  deriving DecidableEq

/-- A mqtt_publish_message: the topic, and the payload with its size and QoS. -/
structure Publish where
  topic : Topic
  message : Message
  deriving DecidableEq

/-- What the two publish calls of the API put into their command. -/
def ApiCall.request : ApiCall → Option Publish
  | .publish m => some ⟨.events, m⟩
  | .publishState m => some ⟨.state, m⟩
  | .connect | .disconnect => none

/-- The member of the union `param` that belongs to a publish. -/
def GcloudEvent.request : GcloudEvent → Option Publish
  | .publish m => some ⟨.events, m⟩
  | .publishState m => some ⟨.state, m⟩
  | .connect _ | .reconnectTimeout | .disconnect _ | .subscribe => none

/-- What the step calls mqtt_publish with. -/
def publishes (s : State) (a : Act) : Option Publish :=
  match handsOver s a, s.kernel.event.bind GcloudEvent.request with
  | some m, some r => some ⟨r.topic, m⟩
  | _, _ => none

/-- A command with the number of the publish call that it belongs to. -/
abbrev Numbered := GcloudEvent × ℕ

/-- The number of a publish command. -/
def number (x : Numbered) : Option ℕ := x.1.request.map fun _ => x.2

structure Sends where
  /-- The publish calls of the application; the number of a call is its place here. -/
  requests : List Publish
  /-- The number of the last call of thread `n`. -/
  call : ℕ → ℕ
  queue : MsgQ Tid Numbered nMessages
  event : Option Numbered
  /-- The command in `event` has not been dispatched yet. -/
  fresh : Bool
  /-- The publishes whose put succeeded, in the order in which gcloud_msgq accepted them. -/
  accepted : List ℕ
  /-- The calls of mqtt_publish, in their order. -/
  published : List (ℕ × Publish)

def Sends.start : Sends := ⟨[], fun _ => 0, MsgQ.empty, none, false, [], []⟩

def numberOf (a : Act) (h : Sends) (e : GcloudEvent) : Numbered :=
  match a with
  | .app n _ => (e, h.call n)
  | _ => (e, 0)

def sendCall (s : State) (a : Act) (h : Sends) : QueueCall Tid Numbered :=
  (queueCall s a).map (numberOf a h)

def noteSends (s : State) (a : Act) (h : Sends) : Sends where
  requests := match a with
    | .start _ c => h.requests ++ c.request.toList
    | _ => h.requests
  call := match a with
    | .start n _ => Function.update h.call n h.requests.length
    | _ => h.call
  queue := ((sendCall s a h).exec h.queue).1
  event := ((sendCall s a h).exec h.queue).2.or h.event
  fresh := ((sendCall s a h).exec h.queue).2.isSome || h.fresh && !dispatches s a
  accepted := h.accepted ++ ((sendCall s a h).accepted h.queue).toList.filterMap number
  published := match publishes s a with
    | some r => h.published ++ [((h.event.map Prod.snd).getD 0, r)]
    | none => h.published

def sendMachine : Machine (State × Sends) Act := machine.recorded noteSends Sends.start

/-- The accepted publishes that are dequeued and not dispatched, or in the queue. -/
def Sends.waiting (h : Sends) : List ℕ :=
  (if h.fresh then h.event.toList.filterMap number else []) ++ h.queue.buf.filterMap number

/-- The publishes that wait for room in the queue. -/
def Sends.blocked (h : Sends) : List ℕ := (h.queue.writers.map Prod.snd).filterMap number

/-- The calls of mqtt_publish are a subsequence of the accepted publishes, of which none
comes twice, and each is made with the size, the QoS and the topic of its own call. -/
structure SentInOrder (h : Sends) : Prop where
  sequence : (h.published.map Prod.fst).Sublist h.accepted
  once : h.accepted.Nodup
  own : ∀ x ∈ h.published, h.requests[x.1]? = some x.2

/-- A purge does not wake gcloud_thread out of k_msgq_get while `connected` and with a
publish as its last command. -/
def purgeSafe (s : State) (a : Act) : Bool :=
  !(purges s a && decide (.gcloud ∈ s.kernel.msgq.readers) && s.connected &&
    (s.kernel.event.bind GcloudEvent.request).isSome)

def State.purgeDue (s : State) : Bool :=
  s.gcloud.handler.any (fun h => h.2.unpurged) || s.mqtt.handler.any (fun h => h.2.unpurged)

/-- `connected` stays true and no MQTT_EVT_DISCONNECT is delivered. -/
def undisturbed (s : State) (a : Act) : Bool := s.connected && !delivers s a

/-- The gcloud thread has come out of k_msgq_get and not dispatched yet. -/
def Held (s : State) : Prop := s.gcloud = .dispatch ∨ s.gcloud = .wait ∧ s.kernel.msgq.readers = []

/-- The command carries what the call of its number was made with. -/
def Carries (h : Sends) (x : Numbered) : Prop := ∀ r ∈ x.1.request, h.requests[x.2]? = some r

/-- The numbered queue is the queue of the kernel, and carries every command with what its
call was made with. -/
structure NumbersInv (t : State × Sends) : Prop where
  queue : t.2.queue.map Prod.fst = t.1.kernel.msgq
  event : t.2.event.map Prod.fst = t.1.kernel.event
  fresh : t.2.fresh = true → Held t.1
  own : t.2.queue.All (Carries t.2)
  ownEvent : ∀ x ∈ t.2.event, Carries t.2 x
  ownApps : ∀ n e, t.1.app n = .check e ∨ t.1.app n = .put e → Carries t.2 (e, t.2.call n)
  ownPublished : ∀ x ∈ t.2.published, t.2.requests[x.1]? = some x.2

/-- Thread `n` is in a publish call that has not put its command yet. -/
def Sending (s : State) (n : ℕ) : Prop :=
  ∃ e r, (s.app n = .check e ∨ s.app n = .put e) ∧ e.request = some r

/-- No number is at two places: accepted, waiting for room, or with a call that has not put
its command. -/
structure OnceInv (t : State × Sends) : Prop where
  nodup : (t.2.accepted ++ t.2.blocked).Nodup
  below : ∀ k ∈ t.2.accepted ++ t.2.blocked, k < t.2.requests.length
  apps : ∀ n, Sending t.1 n →
    t.2.call n < t.2.requests.length ∧ t.2.call n ∉ t.2.accepted ++ t.2.blocked
  apart : ∀ n n', Sending t.1 n → Sending t.1 n' → t.2.call n = t.2.call n' → n = n'

theorem numberOf_fst (a : Act) (h : Sends) (e : GcloudEvent) : (numberOf a h e).1 = e := by
  unfold numberOf
  split <;> rfl

variable {s s' : State} {a : Act} {h : Sends} {t t' : State × Sends}

/-- What the queue of the kernel delivers is what the numbered queue delivers. -/
theorem delivered_iff (hqueue : h.queue.map Prod.fst = s.kernel.msgq) :
    ((sendCall s a h).exec h.queue).2.isSome =
      ((queueCall s a).exec s.kernel.msgq).2.isSome := by
  rw [marked_exec (a := a) (numberOf_fst a h) hqueue, Option.isSome_map]
  rfl

theorem number_of_request {x : Numbered} {r : Publish} (hr : x.1.request = some r) :
    number x = some x.2 := by
  simp [number, hr]

/-- mqtt_publish is called with the command in `event`, in the dispatch of the step. -/
theorem publishes_cases {r : Publish} (hr : publishes s a = some r) :
    dispatches s a = true ∧ s.connected = true ∧
      s.kernel.event.bind GcloudEvent.request = some r := by
  unfold publishes at hr
  split at hr
  · rename_i m r' hm hr'
    cases a with
    | gcloud env =>
      simp only [handsOver] at hm
      split at hm
      · rename_i hg
        refine ⟨decide_eq_true hg, ?_⟩
        split at hm <;> cases hm
        rename_i hcall
        obtain ⟨_, _, hc, hevent | hevent⟩ := dispatch_publish hcall
        · rw [hevent] at hr' ⊢
          cases hr'
          exact ⟨hc, hr⟩
        · rw [hevent] at hr' ⊢
          cases hr'
          exact ⟨hc, hr⟩
      · cases hm
    | start n c | app n env | mqtt env | timer | timeout u => cases hm
  · cases hr

theorem publishes_none (hr : dispatches s a = false ∨ s.connected = false) :
    publishes s a = none := by
  cases hsome : publishes s a with
  | none => rfl
  | some r =>
    obtain ⟨hd, hc, _⟩ := publishes_cases hsome
    rcases hr with hd' | hc'
    · rw [hd] at hd'
      cases hd'
    · rw [hc] at hc'
      cases hc'

theorem publishes_of_dispatches {r : Publish} (hd : dispatches s a = true)
    (hc : s.connected = true) (hr : s.kernel.event.bind GcloudEvent.request = some r) :
    publishes s a = some r := by
  cases a with
  | gcloud env =>
    have hg : s.gcloud = .dispatch := of_decide_eq_true hd
    obtain ⟨e, hevent, hreq⟩ := Option.bind_eq_some_iff.mp hr
    cases e with
    | publish m | publishState m =>
      cases hreq
      simp [publishes, handsOver, hg, dispatch, hevent, hc, GcloudEvent.request]
    | connect o | reconnectTimeout | disconnect k | subscribe => cases hreq
  | start n c | app n env | mqtt env | timer | timeout u => cases hd

/-- The dispatch makes no call on the queue. -/
theorem sendCall_of_dispatches (hd : dispatches s a = true) : sendCall s a h = .quiet := by
  cases a with
  | gcloud env =>
    have hg : s.gcloud = .dispatch := of_decide_eq_true hd
    simp [sendCall, queueCall, kernelCall, hg, KernelCall.onQueue, QueueCall.map]
  | start n c | app n env | mqtt env | timer | timeout u => cases hd

theorem sendCall_purge (hcall : sendCall s a h = .purge) : queueCall s a = .purge := by
  unfold sendCall at hcall
  cases hq : queueCall s a with
  | purge => rfl
  | put pos self e | putNoWait e | get pos self | getNoWait | cancel u | quiet =>
    rw [hq] at hcall
    cases hcall

theorem queueCall_of_get {env : Env} (hg : s.gcloud = .get) :
    queueCall s (.gcloud env) = .get env.pos .gcloud := by
  simp [queueCall, kernelCall, hg, KernelCall.onQueue]

/-- Only k_msgq_get and the waiting gcloud thread are given a command. -/
theorem held_of_delivered (hq : QueueInv s) (hs : step s a = some s')
    (hout : ((queueCall s a).exec s.kernel.msgq).2.isSome = true) : ¬ Held s ∧ Held s' := by
  obtain ⟨m, hm⟩ := Option.isSome_iff_exists.mp hout
  rcases QueueCall.exec_delivered hm with (⟨pos, self, hcall⟩ | hcall) | ⟨r, hreaders⟩
  · obtain ⟨⟨env, rfl⟩, hg⟩ := queueCall_get hcall
    constructor
    · rintro (hd | ⟨hw, _⟩)
      · rw [hg] at hd
        cases hd
      · rw [hg] at hw
        cases hw
    · rw [queueCall_of_get hg, ← Kernel.get_isSome] at hout
      simp only [step, gcloudStep, hg] at hs
      split at hs <;> rename_i hget <;> cases hs
      · exact Or.inl rfl
      · rw [hget] at hout
        cases hout
  · exact absurd hcall (queueCall_waits s a)
  · rw [← (step_follows hs).msgq] at hreaders
    rcases hq.reads with hnil | ⟨hone, hg⟩
    · rw [hnil] at hreaders
      cases hreaders
    · have hother : ∀ env, a ≠ .gcloud env := by
        rintro env rfl
        simp [step, gcloudStep, hg, hone] at hs
      rw [hone] at hreaders
      constructor
      · rintro (hd | ⟨_, hnil⟩)
        · rw [hg] at hd
          cases hd
        · rw [hone] at hnil
          cases hnil
      · exact Or.inr ⟨(gcloud_of_other hother hs).trans hg, (List.cons.inj hreaders).2.symm⟩

/-- A command that is held is not overwritten, and is let go by its dispatch. -/
theorem held_of_step (hq : QueueInv s) (hs : step s a = some s') (hheld : Held s)
    (hd : dispatches s a = false) : Held s' ∧ s'.kernel.event = s.kernel.event := by
  by_cases ha : ∃ env, a = .gcloud env
  · obtain ⟨env, rfl⟩ := ha
    rcases hheld with hg | ⟨hg, hnil⟩
    · simp [dispatches, hg] at hd
    · simp only [step, gcloudStep, hg, hnil, List.not_mem_nil, if_false, Option.some.injEq] at hs
      subst hs
      exact ⟨Or.inl rfl, rfl⟩
  · have hother : ∀ env, a ≠ .gcloud env := fun env he => ha ⟨env, he⟩
    have hnil : s.kernel.msgq.readers = [] := by
      rcases hheld with hg | ⟨_, hnil⟩
      · apply hq.readers_nil
        rw [hg]
        rintro ⟨⟩
      · exact hnil
    obtain ⟨hevent, hnil'⟩ := event_of_other hother hs hnil
    refine ⟨?_, hevent⟩
    rw [Held, gcloud_of_other hother hs]
    exact hheld.imp_right fun hw => ⟨hw.1, hnil'⟩

theorem requests_grow (s : State) (a : Act) (h : Sends) :
    ∃ l, (noteSends s a h).requests = h.requests ++ l := by
  cases a with
  | start n c => exact ⟨_, rfl⟩
  | app n env | gcloud env | mqtt env | timer | timeout u => exact ⟨[], (List.append_nil _).symm⟩

/-- The calls made so far keep their numbers. -/
theorem request_kept {k : ℕ} {r : Publish} (hr : h.requests[k]? = some r) :
    (noteSends s a h).requests[k]? = some r := by
  obtain ⟨l, hl⟩ := requests_grow s a h
  rw [hl]
  exact List.getElem?_append_left (List.getElem?_eq_some_iff.mp hr).1 ▸ hr

theorem Carries.kept {x : Numbered} (hx : Carries h x) : Carries (noteSends s a h) x :=
  fun r hr => request_kept (hx r hr)

theorem request_of_message {e : GcloudEvent} (he : e.message = none) : e.request = none := by
  cases e with
  | publish m | publishState m => cases he
  | connect o | reconnectTimeout | disconnect k | subscribe => rfl

theorem call_of_other {n : ℕ} (hother : ∀ c, a ≠ .start n c) :
    (noteSends s a h).call n = h.call n := by
  cases a with
  | start k c =>
    refine Function.update_of_ne ?_ _ _
    rintro rfl
    exact hother c rfl
  | app k env | gcloud env | mqtt env | timer | timeout u => rfl

/-- The command of an API call carries what the call was made with. -/
theorem carries_apps (hinv : ∀ n e, s.app n = .check e ∨ s.app n = .put e → Carries h (e, h.call n))
    (hs : step s a = some s') : ∀ n e, s'.app n = .check e ∨ s'.app n = .put e →
      Carries (noteSends s a h) (e, (noteSends s a h).call n) := by
  intro n e he
  rcases stands_of_step hs he with ⟨hold, hother⟩ | ⟨m, ⟨rfl, rfl⟩ | ⟨rfl, rfl⟩⟩ | hnone
  · rw [call_of_other hother]
    exact (hinv n e hold).kept
  · rintro r ⟨⟩
    simp [noteSends, ApiCall.request]
  · rintro r ⟨⟩
    simp [noteSends, ApiCall.request]
  · intro r hr
    rw [request_of_message hnone] at hr
    cases hr

theorem carries_call
    (hinv : ∀ n e, s.app n = .check e ∨ s.app n = .put e → Carries h (e, h.call n)) :
    ∀ x ∈ (sendCall s a h).message, Carries h x := by
  intro x hx
  rw [sendCall, QueueCall.message_map] at hx
  obtain ⟨e, he, rfl⟩ := Option.map_eq_some_iff.mp hx
  rcases queueCall_message he with hnone | ⟨n, env, rfl, hpc⟩
  · intro r hr
    rw [numberOf_fst, request_of_message hnone] at hr
    cases hr
  · exact hinv n e (Or.inr hpc)

/-- What mqtt_publish is called with is what the call of this number was made with. -/
theorem carries_published (hinv : NumbersInv t) {r : Publish} (hr : publishes t.1 a = some r) :
    ∃ y, t.2.event = some y ∧ y.1.request = some r ∧ t.2.requests[y.2]? = some r := by
  obtain ⟨_, _, hevent⟩ := publishes_cases hr
  rw [← hinv.event] at hevent
  obtain ⟨e, he, hreq⟩ := Option.bind_eq_some_iff.mp hevent
  obtain ⟨y, hy, rfl⟩ := Option.map_eq_some_iff.mp he
  exact ⟨y, hy, hreq, hinv.ownEvent y hy r hreq⟩

theorem noteSends_published_of_none (hr : publishes s a = none) :
    (noteSends s a h).published = h.published := by
  simp only [noteSends, hr]

theorem noteSends_published {r : Publish} (hr : publishes s a = some r) {y : Numbered}
    (hy : h.event = some y) : (noteSends s a h).published = h.published ++ [(y.2, r)] := by
  simp only [noteSends, hr, hy, Option.map_some, Option.getD_some]

theorem numbersInv_init : NumbersInv sendMachine.init where
  queue := rfl
  event := rfl
  fresh := by rintro ⟨⟩
  own := MsgQ.all_empty
  ownEvent := by rintro x ⟨⟩
  ownApps := by
    rintro n e (he | he)
    · cases he
    · cases he
  ownPublished := by rintro x ⟨⟩

theorem numbersInv_step (hq : QueueInv t.1) (hinv : NumbersInv t) (hs : step t.1 a = some t'.1)
    (hnote : t'.2 = noteSends t.1 a t.2) : NumbersInv t' := by
  obtain ⟨hqueue, hevent⟩ :=
    marked_follows hs (numberOf_fst a t.2) hinv.queue hinv.event
  obtain ⟨hown, hout⟩ := QueueCall.exec_all hinv.own (carries_call (a := a) hinv.ownApps)
  rw [← sendCall] at hqueue hevent
  constructor
  · rw [hnote]
    exact hqueue
  · rw [hnote]
    exact hevent
  · rw [hnote]
    intro hfresh
    simp only [noteSends, Bool.or_eq_true, Bool.and_eq_true] at hfresh
    rcases hfresh with hdelivered | ⟨hfresh, hd⟩
    · rw [delivered_iff hinv.queue] at hdelivered
      exact (held_of_delivered hq hs hdelivered).2
    · exact (held_of_step hq hs (hinv.fresh hfresh) (by simpa using hd)).1
  · rw [hnote]
    exact hown.mono fun _ hx => hx.kept
  · rw [hnote]
    intro x hx
    rcases Option.or_eq_some_iff.mp hx with hx | ⟨_, hx⟩
    · exact (hout x hx).kept
    · exact (hinv.ownEvent x hx).kept
  · rw [hnote]
    exact carries_apps hinv.ownApps hs
  · rw [hnote]
    intro x hx
    cases hr : publishes t.1 a with
    | none =>
      rw [noteSends_published_of_none hr] at hx
      exact request_kept (hinv.ownPublished x hx)
    | some r =>
      obtain ⟨y, hy, _, hown⟩ := carries_published hinv hr
      rw [noteSends_published hr hy] at hx
      rcases List.mem_append.mp hx with hold | hnew
      · exact request_kept (hinv.ownPublished x hold)
      · rw [List.mem_singleton.mp hnew]
        exact request_kept hown

/-- The numbers that the step brings to the queue. -/
def brought (s : State) (a : Act) (h : Sends) : List ℕ :=
  (sendCall s a h).message.toList.filterMap number

theorem subperm_filterMap {A B : Type*} {l l' : List A} (f : A → Option B) (h : l.Subperm l') :
    (l.filterMap f).Subperm (l'.filterMap f) := by
  obtain ⟨m, hperm, hsub⟩ := h
  exact ⟨m.filterMap f, hperm.filterMap f, hsub.filterMap f⟩

/-- What is accepted or waits for room was so before, or is brought. -/
theorem custody (s : State) (a : Act) (h : Sends) :
    ((noteSends s a h).accepted ++ (noteSends s a h).blocked).Subperm
      (brought s a h ++ (h.accepted ++ h.blocked)) := by
  have hcustody := subperm_filterMap number (QueueCall.exec_custody h.queue (sendCall s a h))
  rw [List.filterMap_append, List.filterMap_append] at hcustody
  have hmove : (h.accepted ++ (brought s a h ++ h.blocked)).Perm
      (brought s a h ++ (h.accepted ++ h.blocked)) := by
    rw [← List.append_assoc, ← List.append_assoc]
    exact List.perm_append_comm.append_right _
  have haccepted : (noteSends s a h).accepted =
      h.accepted ++ ((sendCall s a h).accepted h.queue).toList.filterMap number := rfl
  refine List.Subperm.trans ?_ hmove.subperm
  rw [haccepted, List.append_assoc]
  exact (List.subperm_append_left _).mpr hcustody

/-- A number is brought by the put of its call only. -/
theorem brought_cases (s : State) (a : Act) (h : Sends) : brought s a h = [] ∨
    ∃ n env e r, a = .app n env ∧ s.app n = .put e ∧ e.request = some r ∧
      brought s a h = [h.call n] := by
  have hmap := QueueCall.message_map (numberOf a h) (queueCall s a)
  rw [← sendCall] at hmap
  cases hmsg : (queueCall s a).message with
  | none =>
    rw [hmsg] at hmap
    left
    simp [brought, hmap]
  | some e =>
    rw [hmsg] at hmap
    cases hr : e.request with
    | none =>
      left
      simp [brought, hmap, number, numberOf_fst, hr]
    | some r =>
      rcases queueCall_message hmsg with hnone | ⟨n, env, rfl, hpc⟩
      · rw [request_of_message hnone] at hr
        cases hr
      · refine Or.inr ⟨n, env, e, r, rfl, hpc, hr, ?_⟩
        simp [brought, hmap, number, numberOf, hr]

theorem sending_of_step {n : ℕ} (hs : step s a = some s') (hn : Sending s' n) :
    (Sending s n ∧ ∀ c, a ≠ .start n c) ∨ ∃ c r, a = .start n c ∧ c.request = some r := by
  obtain ⟨e, r, he, hr⟩ := hn
  rcases stands_of_step hs he with ⟨hold, hother⟩ | ⟨m, ⟨rfl, rfl⟩ | ⟨rfl, rfl⟩⟩ | hnone
  · exact Or.inl ⟨⟨e, r, hold, hr⟩, hother⟩
  · exact Or.inr ⟨_, _, rfl, rfl⟩
  · exact Or.inr ⟨_, _, rfl, rfl⟩
  · rw [request_of_message hnone] at hr
    cases hr

theorem length_requests (s : State) (a : Act) (h : Sends) :
    h.requests.length ≤ (noteSends s a h).requests.length := by
  obtain ⟨l, hl⟩ := requests_grow s a h
  rw [hl, List.length_append]
  omega

/-- A number that is brought comes from a call that now has put its command. -/
theorem onceInv_brought (hinv : OnceInv t) (hs : step t.1 a = some t'.1) :
    (brought t.1 a t.2 ++ (t.2.accepted ++ t.2.blocked)).Nodup ∧
      (∀ k ∈ brought t.1 a t.2, k < t.2.requests.length) ∧
        ∀ n, Sending t.1 n → Sending t'.1 n → t.2.call n ∉ brought t.1 a t.2 := by
  rcases brought_cases t.1 a t.2 with hnil | ⟨n₀, env, e, r, rfl, hpc, hr, hone⟩
  · rw [hnil]
    exact ⟨hinv.nodup, by simp, by simp⟩
  · have hsending : Sending t.1 n₀ := ⟨e, r, Or.inr hpc, hr⟩
    obtain ⟨hlt, hnot⟩ := hinv.apps n₀ hsending
    rw [hone]
    refine ⟨List.nodup_cons.mpr ⟨hnot, hinv.nodup⟩, by simpa using hlt, ?_⟩
    intro n hn hn'
    rw [List.mem_singleton]
    intro hcall
    have heq := hinv.apart n n₀ hn hsending hcall
    subst heq
    obtain ⟨pc, happ, hplace⟩ := appStep_place hs
    obtain ⟨e', r', he', _⟩ := hn'
    rw [happ, Function.update_self] at he'
    have hcheck := hplace e' he'
    rw [hpc] at hcheck
    cases hcheck

theorem onceInv_step (hinv : OnceInv t) (hs : step t.1 a = some t'.1)
    (hnote : t'.2 = noteSends t.1 a t.2) : OnceInv t' := by
  obtain ⟨hnodup, hlt, hnew⟩ := onceInv_brought hinv hs
  have hsub := custody t.1 a t.2
  have hlen := length_requests t.1 a t.2
  have hmem : ∀ k ∈ t'.2.accepted ++ t'.2.blocked,
      k ∈ brought t.1 a t.2 ∨ k ∈ t.2.accepted ++ t.2.blocked := by
    rw [hnote]
    exact fun k hk => List.mem_append.mp (hsub.subset hk)
  have hold : ∀ n, Sending t'.1 n → (Sending t.1 n ∧ t'.2.call n = t.2.call n ∧
      t'.2.call n < t.2.requests.length) ∨ (∃ c, a = .start n c) ∧
        t'.2.call n = t.2.requests.length ∧ t.2.requests.length < t'.2.requests.length := by
    intro n hn
    rw [hnote]
    rcases sending_of_step hs hn with ⟨hn, hother⟩ | ⟨c, r, rfl, hr⟩
    · rw [call_of_other hother]
      exact Or.inl ⟨hn, rfl, (hinv.apps n hn).1⟩
    · refine Or.inr ⟨⟨c, rfl⟩, Function.update_self n _ _, ?_⟩
      simp [noteSends, hr]
  have hbelow : ∀ k ∈ t'.2.accepted ++ t'.2.blocked, k < t.2.requests.length := by
    intro k hk
    rcases hmem k hk with hk | hk
    · exact hlt k hk
    · exact hinv.below k hk
  constructor
  · obtain ⟨l, hperm, hsublist⟩ := hsub
    rw [hnote]
    exact hperm.nodup_iff.mp (hnodup.sublist hsublist)
  · intro k hk
    rw [hnote]
    exact Nat.lt_of_lt_of_le (hbelow k hk) hlen
  · intro n hn
    rcases hold n hn with ⟨hn₀, hcall, hlt₀⟩ | ⟨_, hcall, hgrown⟩
    · refine ⟨?_, ?_⟩
      · rw [hnote] at hlt₀ ⊢
        exact Nat.lt_of_lt_of_le hlt₀ hlen
      · intro hk
        rcases hmem _ hk with hk | hk
        · rw [hcall] at hk
          exact hnew n hn₀ hn hk
        · rw [hcall] at hk
          exact (hinv.apps n hn₀).2 hk
    · rw [hcall]
      refine ⟨hgrown, ?_⟩
      intro hk
      exact Nat.lt_irrefl _ (hbelow _ hk)
  · intro n n' hn hn' heq
    rcases hold n hn with ⟨hn₀, hcall, hlt₀⟩ | ⟨⟨c, ha⟩, hcall, _⟩
    · rcases hold n' hn' with ⟨hn₁, hcall', _⟩ | ⟨_, hcall', _⟩
      · rw [hcall, hcall'] at heq
        exact hinv.apart n n' hn₀ hn₁ heq
      · omega
    · rcases hold n' hn' with ⟨_, _, hlt₁⟩ | ⟨⟨c', ha'⟩, _, _⟩
      · omega
      · rw [ha] at ha'
        cases ha'
        rfl

theorem onceInv_init : OnceInv sendMachine.init := by
  have hidle : ∀ n, ¬ Sending State.start n := by
    rintro n ⟨e, r, he | he, _⟩
    · cases he
    · cases he
  refine ⟨List.nodup_nil, ?_, fun n hn => absurd hn (hidle n), fun n _ hn _ => absurd hn (hidle n)⟩
  rintro k ⟨⟩

/-- What gcloud_thread finds when a purge has woken it: no session is there or coming, and
with `connected` its last command is no publish. -/
structure Silenced (s : State) : Prop where
  closed : s.client.session = .closed
  waits : s.mqtt.phase ≠ .accepting
  silent : s.connected = true → s.kernel.event.bind GcloudEvent.request = none

/-- A command that gcloud_thread dispatches again is no publish that it would send. -/
def StaleInv (t : State × Sends) : Prop := Held t.1 → t.2.fresh = false → Silenced t.1

/-- While the gcloud thread does not move, no session comes up. -/
theorem silenced_of_other (ha : ∀ env, a ≠ .gcloud env) (hs : step s a = some s')
    (hevent : s'.kernel.event = s.kernel.event) (h : Silenced s) : Silenced s' := by
  cases a with
  | gcloud env => exact absurd rfl (ha env)
  | mqtt env =>
    have hacc : accepts s (.mqtt env) = false := by
      simp only [accepts, h.closed]
      split <;> rfl
    constructor
    · rcases mqttStep_session hs with hsame | hclosed | hacc'
      · exact hsame.trans h.closed
      · exact hclosed
      · rw [hacc] at hacc'
        cases hacc'
    · intro hphase
      rcases mqttStep_accepting hs hphase with hold | hacc'
      · exact h.waits hold
      · rw [hacc] at hacc'
        cases hacc'
    · intro hc
      rw [hevent]
      rcases mqttStep_connected hs with hsame | ⟨hphase, _⟩
      · exact h.silent (hsame ▸ hc)
      · exact absurd hphase h.waits
  | start n c | app n env | timer | timeout u =>
    have hf := outside_frame rfl hs
    refine ⟨?_, ?_, ?_⟩
    · rw [hf.client]
      exact h.closed
    · rw [hf.mqtt]
      exact h.waits
    · rw [hf.connected, hevent]
      exact h.silent

/-- The gcloud thread comes out of k_msgq_get with a command, or after it was woken. -/
theorem held_of_gcloudStep {env : Env} (hq : QueueInv s) (hs : gcloudStep env s = some s')
    (hheld : Held s') : ((queueCall s (.gcloud env)).exec s.kernel.msgq).2.isSome = true ∨
      s.gcloud = .wait ∧ s.kernel.msgq.readers = [] ∧ s' = { s with gcloud := .dispatch } := by
  have hleft : ∀ pc : GcloudPc, s'.gcloud = pc → pc ≠ .dispatch → pc ≠ .wait → False := by
    intro pc hpc hd hw
    rcases hheld with hg | ⟨hg, _⟩
    · exact hd (hpc.symm.trans hg)
    · exact hw (hpc.symm.trans hg)
  cases hg : s.gcloud with
  | get =>
    simp only [gcloudStep, hg] at hs
    split at hs <;> rename_i hget <;> cases hs
    · left
      rw [queueCall_of_get hg, ← Kernel.get_isSome, hget]
      rfl
    · have hempty := Kernel.get_none hget
      rcases hheld with hd | ⟨_, hnil⟩
      · cases hd
      · have hmem : .gcloud ∈ (s.kernel.pendRead env.pos).msgq.readers := by
          simp [Kernel.pendRead, MsgQ.pendRead, hempty, Semaphores.mem_enqueue]
        rw [hnil] at hmem
        cases hmem
  | wait =>
    have hnil := hq.readers_nil_of_step hs
    simp only [gcloudStep, hg, hnil, List.not_mem_nil, if_false, Option.some.injEq] at hs
    exact Or.inr ⟨rfl, hnil, hs.symm⟩
  | dispatch =>
    simp only [gcloudStep, hg, Option.some.injEq] at hs
    subst hs
    exfalso
    rcases dispatch_cases env s with ⟨_, hd⟩ | ⟨_, hd | ⟨_, hd | ⟨m, id, hd⟩ | hd⟩⟩
    all_goals exact hleft _ hd (by rintro ⟨⟩) (by rintro ⟨⟩)
  | setConnecting =>
    simp only [gcloudStep, hg, Option.some.injEq] at hs
    subst hs
    exfalso
    refine hleft _ rfl ?_ ?_
    all_goals
      split
      all_goals rintro ⟨⟩
  | create =>
    obtain ⟨-, rfl⟩ := gcloudStep_create hg hs
    exact absurd (hleft _ rfl (by rintro ⟨⟩) (by rintro ⟨⟩)) id
  | clientInit | stopTimer | clearConnected | markConnecting =>
    simp only [gcloudStep, hg, Option.some.injEq] at hs
    subst hs
    exact absurd (hleft _ rfl (by rintro ⟨⟩) (by rintro ⟨⟩)) id
  | call c p =>
    simp only [gcloudStep, hg] at hs
    exfalso
    rcases gcloudCall_place hs with ⟨p', hp, _⟩ | hret
    · exact hleft _ hp (by rintro ⟨⟩) (by rintro ⟨⟩)
    · refine hleft _ hret ?_ ?_
      all_goals
        cases c
        all_goals rintro ⟨⟩

/-- Only a purge wakes the waiting gcloud thread with no command. -/
theorem purges_of_woken (hq : QueueInv s) (ha : ∀ env, a ≠ .gcloud env)
    (hs : step s a = some s') (hnot : ¬ Held s) (hheld : Held s')
    (hout : ((queueCall s a).exec s.kernel.msgq).2 = none) :
    purges s a = true ∧ s.gcloud = .wait ∧ .gcloud ∈ s.kernel.msgq.readers := by
  have hg := gcloud_of_other ha hs
  have hwait : s.gcloud = .wait ∧ s'.kernel.msgq.readers = [] := by
    rw [Held, hg] at hheld
    rcases hheld with hd | hw
    · exact absurd (Or.inl hd) hnot
    · exact hw
  have hreads : s.kernel.msgq.readers = [.gcloud] := by
    rcases hq.reads with hnil | ⟨hone, _⟩
    · exact absurd (Or.inr ⟨hwait.1, hnil⟩) hnot
    · exact hone
  have hmem : .gcloud ∈ s.kernel.msgq.readers := by simp [hreads]
  refine ⟨?_, hwait.1, hmem⟩
  by_cases hpurge : queueCall s a = .purge
  · exact queueCall_purge hpurge
  · exfalso
    have hcancel : queueCall s a ≠ .cancel .gcloud := by
      intro hcall
      rcases cancels_of_step hs hcall with ⟨_, hwriter⟩ | ⟨hmqtt, _⟩
      · rw [MsgQ.writers_nil_of_reading (by decide) (by rw [hreads]; rintro ⟨⟩)] at hwriter
        cases hwriter
      · cases hmqtt
    have hstill := QueueCall.exec_reads hmem hout hpurge hcancel
    rw [← (step_follows hs).msgq, hwait.2] at hstill
    cases hstill

/-- The purge that wakes gcloud_thread comes with the loss of the session. -/
theorem silenced_of_purge (hloss : LossInv s) (hsafe : purgeSafe s a = true)
    (hs : step s a = some s') (hp : purges s a = true) (hg : s.gcloud = .wait)
    (hmem : .gcloud ∈ s.kernel.msgq.readers) : Silenced s' := by
  rcases purge_cases hp hs with ⟨env, c, b, rfl, hcall, _⟩ | ⟨env, c, rev, b, rfl, hm, rfl⟩
  · rw [hg] at hcall
    cases hcall
  · have hclosed : s.client.session = .closed := by
      rcases hloss.mqtt (by simp [hm, MqttPc.handler]) with hclosed | ⟨_, hdial⟩
      · exact hclosed
      · rw [hg] at hdial
        cases hdial
    refine ⟨hclosed, by rintro ⟨⟩, ?_⟩
    intro hc
    have hc : s.connected = true := hc
    show s.kernel.event.bind GcloudEvent.request = none
    simpa [purgeSafe, hp, hmem, hc] using hsafe

theorem staleInv_step (hq : QueueInv t.1) (hloss : LossInv t.1) (hnum : NumbersInv t)
    (hstale : StaleInv t) (hsafe : purgeSafe t.1 a = true) (hs : step t.1 a = some t'.1)
    (hnote : t'.2 = noteSends t.1 a t.2) : StaleInv t' := by
  intro hheld hfresh
  rw [hnote] at hfresh
  simp only [noteSends, Bool.or_eq_false_iff, Bool.and_eq_false_iff] at hfresh
  obtain ⟨hout, hfresh⟩ := hfresh
  rw [delivered_iff hnum.queue] at hout
  by_cases ha : ∃ env, a = .gcloud env
  · obtain ⟨env, rfl⟩ := ha
    rcases held_of_gcloudStep hq hs hheld with hsome | ⟨hg, hnil, hs'⟩
    · rw [hout] at hsome
      cases hsome
    · have hold : t.2.fresh = false := by
        refine hfresh.resolve_right ?_
        simp [dispatches, hg]
      rw [hs']
      have hsilent := hstale (Or.inr ⟨hg, hnil⟩) hold
      exact ⟨hsilent.closed, hsilent.waits, hsilent.silent⟩
  · have hother : ∀ env, a ≠ .gcloud env := fun env he => ha ⟨env, he⟩
    have hd : dispatches t.1 a = false := by
      cases a with
      | gcloud env => exact absurd rfl (hother env)
      | start n c | app n env | mqtt env | timer | timeout u => rfl
    by_cases hheld₀ : Held t.1
    · have hold : t.2.fresh = false := hfresh.resolve_right (by simp [hd])
      exact silenced_of_other hother hs (held_of_step hq hs hheld₀ hd).2 (hstale hheld₀ hold)
    · obtain ⟨hp, hg, hmem⟩ := purges_of_woken hq hother hs hheld₀ hheld (by simpa using hout)
      exact silenced_of_purge hloss hsafe hs hp hg hmem

/-- The numbers that the queue accepts in the step. -/
def admitted (s : State) (a : Act) (h : Sends) : List ℕ :=
  ((sendCall s a h).accepted h.queue).toList.filterMap number

theorem noteSends_accepted (s : State) (a : Act) (h : Sends) :
    (noteSends s a h).accepted = h.accepted ++ admitted s a h := rfl

/-- The calls of mqtt_publish so far, and the accepted publishes that are still on their way. -/
def Sends.passed (h : Sends) : List ℕ := h.published.map Prod.fst ++ h.waiting

/-- The command in `event`, when it is a publish. -/
theorem number_event (hnum : NumbersInv t)
    (hnone : t.1.kernel.event.bind GcloudEvent.request = none) :
    t.2.event.toList.filterMap number = [] := by
  rw [← hnum.event] at hnone
  cases hy : t.2.event with
  | none => rfl
  | some y =>
    rw [hy] at hnone
    have hr : y.1.request = none := hnone
    simp [number, hr]

theorem waiting_of_dispatches (hd : dispatches s a = true) :
    (noteSends s a h).waiting = h.queue.buf.filterMap number := by
  simp [Sends.waiting, noteSends, sendCall_of_dispatches hd, hd, QueueCall.exec]

/-- The dispatch moves the number of a publish from the ones on their way to the published
ones; with no command to dispatch it must not find a publish. -/
theorem passed_dispatch (hnum : NumbersInv t) (hd : dispatches t.1 a = true)
    (hc : t.1.connected = true)
    (hstale : t.2.fresh = false → t.1.kernel.event.bind GcloudEvent.request = none) :
    (noteSends t.1 a t.2).passed = t.2.passed := by
  rw [Sends.passed, waiting_of_dispatches hd, Sends.passed, Sends.waiting]
  cases hevent : t.1.kernel.event.bind GcloudEvent.request with
  | none =>
    have hnone : publishes t.1 a = none := by
      cases hr : publishes t.1 a with
      | none => rfl
      | some r =>
        obtain ⟨_, _, hsome⟩ := publishes_cases hr
        rw [hevent] at hsome
        cases hsome
    rw [noteSends_published_of_none hnone, number_event hnum hevent]
    simp
  | some r =>
    have hfresh : t.2.fresh = true := by
      by_contra hnot
      rw [hstale (by simpa using hnot)] at hevent
      cases hevent
    have hr := publishes_of_dispatches hd hc hevent
    obtain ⟨y, hy, hreq, _⟩ := carries_published hnum hr
    rw [noteSends_published hr hy, hfresh, hy]
    simp [number_of_request hreq]

/-- Every other step but a purge passes on what the queue accepts, first in, first out. -/
theorem passed_move (hq : QueueInv t.1) (hnum : NumbersInv t) (hs : step t.1 a = some t'.1)
    (hd : dispatches t.1 a = false) (hpurge : queueCall t.1 a ≠ .purge) :
    (noteSends t.1 a t.2).passed = t.2.passed ++ admitted t.1 a t.2 := by
  have hnone := publishes_none (Or.inl hd)
  have hfifo := congrArg (List.filterMap number)
    (QueueCall.exec_fifo (c := sendCall t.1 a t.2) t.2.queue
      (fun hcall => hpurge (sendCall_purge hcall)))
  simp only [List.filterMap_append] at hfifo
  have hwaiting : (noteSends t.1 a t.2).waiting = t.2.waiting ++ admitted t.1 a t.2 := by
    cases hout : ((sendCall t.1 a t.2).exec t.2.queue).2 with
    | some x =>
      have hsome : ((queueCall t.1 a).exec t.1.kernel.msgq).2.isSome = true := by
        rw [← delivered_iff hnum.queue, hout]
        rfl
      have hfresh : t.2.fresh = false := by
        by_contra hnot
        exact (held_of_delivered hq hs hsome).1 (hnum.fresh (by simpa using hnot))
      rw [hout] at hfifo
      simpa [Sends.waiting, noteSends, hout, hfresh, admitted] using hfifo
    | none =>
      rw [hout] at hfifo
      simp only [Option.toList, List.filterMap_nil, List.nil_append] at hfifo
      simp [Sends.waiting, noteSends, hout, hd, admitted, hfifo, Option.toList]
  rw [Sends.passed, noteSends_published_of_none hnone, hwaiting, Sends.passed, List.append_assoc]

theorem held_of_dispatches (hd : dispatches s a = true) : Held s := by
  cases a with
  | gcloud env => exact Or.inl (of_decide_eq_true hd)
  | start n c | app n env | mqtt env | timer | timeout u => cases hd

/-- No accepted publish is lost or passed on twice in a step, but for a purge and for a
dispatch while not `connected`. -/
theorem passed_step (hq : QueueInv t.1) (hnum : NumbersInv t) (hstale : StaleInv t)
    (hs : step t.1 a = some t'.1) (hc : dispatches t.1 a = true → t.1.connected = true)
    (hpurge : queueCall t.1 a ≠ .purge) :
    (noteSends t.1 a t.2).passed = t.2.passed ++ admitted t.1 a t.2 := by
  cases hd : dispatches t.1 a with
  | true =>
    have hnone : admitted t.1 a t.2 = [] := by
      simp [admitted, sendCall_of_dispatches hd, QueueCall.accepted]
    rw [hnone, List.append_nil]
    exact passed_dispatch hnum hd (hc hd)
      fun hf => (hstale (held_of_dispatches hd) hf).silent (hc hd)
  | false => exact passed_move hq hnum hs hd hpurge

/-- A purge, and the dispatch of a command while not `connected`, let accepted publishes go. -/
theorem passed_drops (hr : publishes s a = none)
    (hw : (noteSends s a h).waiting.Sublist h.waiting) :
    (noteSends s a h).passed.Sublist h.passed := by
  rw [Sends.passed, noteSends_published_of_none hr]
  exact List.Sublist.append (List.Sublist.refl _) hw

theorem waiting_of_purge (hd : dispatches s a = false) (hpurge : queueCall s a = .purge) :
    (noteSends s a h).waiting.Sublist h.waiting := by
  have hcall : sendCall s a h = .purge := by
    rw [sendCall, hpurge]
    rfl
  simp [Sends.waiting, noteSends, hcall, hd, QueueCall.exec, MsgQ.empty]

theorem dispatches_of_purge (hpurge : queueCall s a = .purge) : dispatches s a = false := by
  cases hd : dispatches s a with
  | false => rfl
  | true =>
    have hquiet := sendCall_of_dispatches (h := Sends.start) hd
    rw [sendCall, hpurge] at hquiet
    cases hquiet

/-- In every step what has been passed and is on its way stays a part of what the queue has
accepted, in its order. -/
theorem passed_sublist (hq : QueueInv t.1) (hnum : NumbersInv t) (hstale : StaleInv t)
    (hs : step t.1 a = some t'.1) (h : t.2.passed.Sublist t.2.accepted) :
    (noteSends t.1 a t.2).passed.Sublist (noteSends t.1 a t.2).accepted := by
  have hgrown : t.2.passed.Sublist (noteSends t.1 a t.2).accepted :=
    List.Sublist.trans h (List.sublist_append_left _ _)
  by_cases hpurge : queueCall t.1 a = .purge
  · have hd := dispatches_of_purge hpurge
    exact (passed_drops (publishes_none (Or.inl hd)) (waiting_of_purge hd hpurge)).trans hgrown
  · by_cases hdown : dispatches t.1 a = true ∧ t.1.connected = false
    · refine (passed_drops (publishes_none (Or.inr hdown.2)) ?_).trans hgrown
      rw [waiting_of_dispatches hdown.1]
      exact List.sublist_append_right _ _
    · have hc : dispatches t.1 a = true → t.1.connected = true := by
        intro hd
        simpa [hd] using hdown
      rw [passed_step hq hnum hstale hs hc hpurge]
      exact List.Sublist.append h (List.Sublist.refl _)

/-- What holds of the threads and of the numbers in every run. -/
structure SendFacts (t : State × Sends) : Prop where
  queue : QueueInv t.1
  loss : LossInv t.1
  numbers : NumbersInv t
  once : OnceInv t

theorem facts_of_sends (h : Reachable sendMachine t) : SendFacts t := by
  refine reachable_invariant (I := SendFacts)
    ⟨queueInv_start, lossInv_start, numbersInv_init, onceInv_init⟩ ?_ h
  intro t a t' hf hstep
  obtain ⟨hs, hnote⟩ := Machine.recorded_step hstep
  exact ⟨queueInv_step _ _ _ hf.queue hs, lossInv_step _ _ _ hf.loss hs,
    numbersInv_step hf.queue hf.numbers hs hnote, onceInv_step hf.once hs hnote⟩

theorem order_of_purgeSafe
    (h : ReachableUnder sendMachine (fun t a => purgeSafe t.1 a = true) t) :
    StaleInv t ∧ t.2.passed.Sublist t.2.accepted := by
  refine TransitionRuns.Path.preserves_of_reachable
    (I := fun t => StaleInv t ∧ t.2.passed.Sublist t.2.accepted) (fun _ => facts_of_sends) ?_
    (reachable_init _) h ⟨?_, List.Sublist.refl _⟩
  · rintro t a t' hf ⟨hstale, hsub⟩ hsafe hstep
    obtain ⟨hs, hnote⟩ := Machine.recorded_step hstep
    refine ⟨staleInv_step hf.queue hf.loss hf.numbers hstale hsafe hs hnote, ?_⟩
    rw [hnote]
    exact passed_sublist hf.queue hf.numbers hstale hs hsub
  · rintro (hd | ⟨hw, _⟩)
    · cases hd
    · cases hw

/-- Without a further MQTT_EVT_DISCONNECT no purge becomes due. -/
theorem purgeDue_of_step (hs : step s a = some s') (hdue : s.purgeDue = false)
    (hquiet : delivers s a = false) : s'.purgeDue = false := by
  simp only [State.purgeDue, Bool.or_eq_false_iff, Option.any_eq_false] at hdue ⊢
  obtain ⟨hdg, hdm⟩ := hdue
  cases a with
  | gcloud env =>
    constructor
    · intro x hx
      rcases gcloudStep_handling hs hx with ⟨hnew, _⟩ | ⟨y, hy, hxy, _⟩
      · rw [hquiet] at hnew
        cases hnew
      · by_contra hx'
        have hy' := hxy (by simpa using hx')
        rw [hdg y hy] at hy'
        cases hy'
    · rcases gcloudStep_mqtt hs with hsame | hpoll | hdead
      · rw [hsame]
        exact hdm
      · rw [hpoll]
        rintro x ⟨⟩
      · rw [hdead]
        rintro x ⟨⟩
  | mqtt env =>
    constructor
    · rw [mqttStep_gcloud hs]
      exact hdg
    · intro x hx
      rcases mqttStep_handling hs hx with ⟨hnew, _⟩ | ⟨y, hy, hxy, _⟩
      · rw [hquiet] at hnew
        cases hnew
      · by_contra hx'
        have hy' := hxy (by simpa using hx')
        rw [hdm y hy] at hy'
        cases hy'
  | start n c | app n env | timer | timeout u =>
    have hf := outside_frame rfl hs
    rw [hf.gcloud, hf.mqtt]
    exact ⟨hdg, hdm⟩

theorem purges_of_purgeDue (hs : step s a = some s') (hdue : s.purgeDue = false) :
    purges s a = false := by
  by_contra hp
  rcases purge_cases (by simpa using hp) hs with ⟨_, c, b, _, hg, _⟩ | ⟨_, c, rev, b, _, hm, _⟩
  · simp [State.purgeDue, hg, GcloudPc.handler, DiscPc.unpurged] at hdue
  · simp [State.purgeDue, hm, MqttPc.handler, DiscPc.unpurged] at hdue

/-- What the queue has accepted since `t` has been passed on, or is on its way. -/
structure WindowInv (t u : State × Sends) : Prop where
  stale : StaleInv u
  due : u.1.purgeDue = false
  passed : ∃ new, u.2.accepted = t.2.accepted ++ new ∧ u.2.passed = t.2.passed ++ new

theorem windowInv_step {u u' : State × Sends} (hf : SendFacts u) (hw : WindowInv t u)
    (hcalm : undisturbed u.1 a = true) (hs : step u.1 a = some u'.1)
    (hnote : u'.2 = noteSends u.1 a u.2) : WindowInv t u' := by
  simp only [undisturbed, Bool.and_eq_true, Bool.not_eq_true'] at hcalm
  obtain ⟨hc, hquiet⟩ := hcalm
  have hp := purges_of_purgeDue hs hw.due
  have hsafe : purgeSafe u.1 a = true := by simp [purgeSafe, hp]
  refine ⟨staleInv_step hf.queue hf.loss hf.numbers hw.stale hsafe hs hnote,
    purgeDue_of_step hs hw.due hquiet, ?_⟩
  obtain ⟨new, haccepted, hpassed⟩ := hw.passed
  rw [hnote, noteSends_accepted, haccepted]
  have hpurge : queueCall u.1 a ≠ .purge := by
    intro hcall
    rw [queueCall_purge hcall] at hp
    cases hp
  refine ⟨new ++ admitted u.1 a u.2, by rw [List.append_assoc], ?_⟩
  rw [passed_step hf.queue hf.numbers hw.stale hs (fun _ => hc) hpurge, hpassed,
    List.append_assoc]

theorem windowInv_of_path {u : State × Sends} (hr : Reachable sendMachine t)
    (hstale : StaleInv t) (hdue : t.1.purgeDue = false)
    (h : TransitionRuns.Path sendMachine (fun t a => undisturbed t.1 a = true) t u) :
    WindowInv t u := by
  refine TransitionRuns.Path.preserves_of_reachable (I := WindowInv t) (fun _ => facts_of_sends)
    ?_ hr h ⟨hstale, hdue, [], by simp, by simp⟩
  intro u a u' hf hw hcalm hstep
  obtain ⟨hs, hnote⟩ := Machine.recorded_step hstep
  exact windowInv_step hf hw hcalm hs hnote

/-- In every run whose purges leave gcloud_thread asleep with its last publish, the calls of
mqtt_publish are a subsequence of the accepted publishes, none comes twice, and each passes
the size, the QoS and the topic of its own call. From a state with no accepted publish on
its way and no purge due, they are the whole sequence once no publish is on its way again,
if `connected` stays true and no MQTT_EVT_DISCONNECT is delivered between. -/
theorem publishes_of_purgeSafe {t : State × Sends}
    (h : ReachableUnder sendMachine (fun t a => purgeSafe t.1 a = true) t) :
    SentInOrder t.2 ∧ ∀ u,
      TransitionRuns.Path sendMachine (fun t a => undisturbed t.1 a = true) t u →
      t.1.purgeDue = false → t.2.waiting = [] → u.2.waiting = [] →
        ∃ new, u.2.accepted = t.2.accepted ++ new ∧
          u.2.published.map Prod.fst = t.2.published.map Prod.fst ++ new := by
  have hr := ReachableUnder.reachable h
  have hf := facts_of_sends hr
  obtain ⟨hstale, hsub⟩ := order_of_purgeSafe h
  refine ⟨⟨(List.sublist_append_left _ _).trans hsub, (List.nodup_append.mp hf.once.nodup).1,
    hf.numbers.ownPublished⟩, ?_⟩
  intro u hpath hdue ht hu
  obtain ⟨new, haccepted, hpassed⟩ := (windowInv_of_path hr hstale hdue hpath).passed
  refine ⟨new, haccepted, ?_⟩
  rwa [Sends.passed, Sends.passed, ht, hu, List.append_nil, List.append_nil] at hpassed

/-- The session is up and subscribed, and gcloud_thread waits for a command. -/
def subscribedRun : List Act := handshake ++ List.replicate 6 (.gcloud {})

/-- A publish of one byte, which gcloud_thread hands to mqtt_publish. -/
def publishRun : List Act :=
  [.start 1 (.publish ⟨0, 1, .atLeastOnce⟩), .app 1 {}, .app 1 {}] ++
    List.replicate 6 (.gcloud {})

/-- mqtt_input finds the connection lost, up to the purge in the handler. -/
def lossRun : List Act :=
  List.replicate 5 (.mqtt {}) ++ [.mqtt { packet := .lost }, .mqtt {}]

/-- Two threads publish. The second one is the first to put its command. -/
def overtakingRun : List Act :=
  [.start 1 (.publish ⟨0, 1, .atLeastOnce⟩), .start 2 (.publish ⟨8, 4, .atMostOnce⟩), .app 2 {},
    .app 2 {}, .app 1 {}, .app 1 {}] ++ List.replicate 11 (.gcloud {})

theorem publishes_of_two_threads : ∃ t u : State × Sends, SentInOrder t.2 ∧
    u.2.accepted = [1, 0] ∧ u.2.published.map Prod.fst = u.2.accepted := by
  obtain ⟨t, u, hrun, hpath, htu⟩ := exists_two_runs (M := sendMachine)
    (C := fun t a => purgeSafe t.1 a = true) (D := fun t a => undisturbed t.1 a = true)
    (p := fun t u => decide (t.1.purgeDue = false ∧ t.2.waiting = [] ∧ u.2.waiting = [] ∧
      t.2.accepted = [] ∧ u.2.accepted = [1, 0] ∧ t.2.published.map Prod.fst = []))
    subscribedRun overtakingRun (by decide)
  obtain ⟨hdue, ht, hu, haccepted, haccepted', hnone⟩ := of_decide_eq_true htu
  obtain ⟨horder, hwhole⟩ := publishes_of_purgeSafe hrun
  obtain ⟨new, hnew, hpublished⟩ := hwhole u hpath hdue ht hu
  refine ⟨t, u, horder, haccepted', ?_⟩
  rw [hpublished, hnew, haccepted, hnone]

/-- A purge on the mqtt thread makes gcloud_thread send its last publish again; and with a
purge due, a publish that is accepted before it is lost with `connected` true throughout. -/
theorem publish_sent_again :
    (¬ ∀ t, Reachable sendMachine t → SentInOrder t.2) ∧
      ¬ ∀ t u, ReachableUnder sendMachine (fun t a => purgeSafe t.1 a = true) t →
        TransitionRuns.Path sendMachine (fun t a => undisturbed t.1 a = true) t u →
        t.2.waiting = [] → u.2.waiting = [] →
          ∃ new, u.2.accepted = t.2.accepted ++ new ∧
            u.2.published.map Prod.fst = t.2.published.map Prod.fst ++ new := by
  constructor
  · intro hall
    obtain ⟨t, hrun, ht⟩ := exists_reachable_of_exec (M := sendMachine)
      (p := fun t => decide (t.2.published.map Prod.fst = [0, 0]))
      (subscribedRun ++ publishRun ++ lossRun ++ [.mqtt {}, .gcloud {}, .gcloud {}]) (by decide)
    have horder := hall t hrun
    have htwice := horder.once.sublist horder.sequence
    rw [of_decide_eq_true ht] at htwice
    simp at htwice
  · intro hall
    obtain ⟨t, u, hrun, hpath, htu⟩ := exists_two_runs (M := sendMachine)
      (C := fun t a => purgeSafe t.1 a = true) (D := fun t a => undisturbed t.1 a = true)
      (p := fun t u => decide (t.2.waiting = [] ∧ u.2.waiting = [] ∧ t.2.accepted = [] ∧
        u.2.accepted = [0] ∧ u.2.published.map Prod.fst = []))
      (handshake ++ List.replicate 5 (.gcloud {}) ++ lossRun)
      [.start 1 (.publish ⟨0, 1, .atLeastOnce⟩), .app 1 {}, .app 1 {}, .mqtt {}] (by decide)
    obtain ⟨ht, hu, haccepted, haccepted', hnone⟩ := of_decide_eq_true htu
    obtain ⟨new, hnew, hpublished⟩ := hall t u hrun hpath ht hu
    rw [haccepted, haccepted'] at hnew
    rw [hnone] at hpublished
    have hnil := (List.append_eq_nil_iff.mp hpublished.symm).2
    rw [hnil] at hnew
    cases hnew

end NcsProjects.Gcloud
