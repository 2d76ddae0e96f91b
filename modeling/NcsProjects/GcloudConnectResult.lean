import NcsProjects.GcloudDisconnect

/-!
What it means that gcloud_connect returns 0. The semaphore that it waits for is given
by the handler of a CONNACK, whichever command the CONNACK answers, and before
`connected` is written. The result is right if the calls do not overlap, with each
other or with a handshake of the module, and no token is left over.
-/
namespace NcsProjects.Gcloud

open Semaphores MessageQueues PublishPayload TransitionRuns

/-- Every return of 0 follows an accepted CONNACK for the CONNECT of that very call, and
finds `connected` set. -/
def ConnectResult (s : State) : Prop :=
  ∀ r ∈ s.returns, r.err = 0 → some r.call ∈ s.acks ∧ r.connected = true

/-- The call that will return 0 once it gets a token. -/
def AppPc.awaiting : AppPc → Option ℕ
  | .connect call .putWait => some call
  | .connect call (.take err) | .connect call (.takeWait err) =>
    if err = 0 then some call else none
  | _ => none

/-- The call waits for a token and will return 0. -/
def AppPc.taking : AppPc → Bool
  | .connect _ (.takeWait err) => err = 0
  | _ => false

/-- The call is about to return 0. -/
def AppPc.returning : AppPc → Bool
  | .connect _ (.ret err) => err = 0
  | _ => false

/-- The mqtt thread is between the give and the write of `connected`. -/
def MqttPc.given : MqttPc → Bool
  | .connack _ .setConnected => true
  | _ => false

def MqttPc.giving : MqttPc → Bool
  | .connack _ .give => true
  | _ => false

/-- A command that is a CONNECT is that of the call. -/
def GcloudEvent.belongs (call : ℕ) : GcloudEvent → Bool
  | .connect origin => origin = some call
  | _ => true

/-- The gcloud thread has a command in its hands, or has been woken without one. -/
def Executes (s : State) : Prop :=
  s.gcloud = .dispatch ∨ s.gcloud = .clientInit ∨ s.gcloud.attempting = true ∨
    s.gcloud = .wait ∧ s.kernel.msgq.readers = []

instance (s : State) : Decidable (Executes s) := inferInstanceAs (Decidable (_ ∨ _ ∨ _ ∨ _ ∧ _))

/-- The call of an application thread has its answer and has not returned: it has been
woken, it is about to return, or it will find the token. -/
def Answered (s : State) (n : ℕ) : Prop :=
  (s.app n).returning = true ∨
    (s.app n).taking = true ∧ .app n ∉ s.kernel.gcConnectedSem.waiters ∨
    (s.app n).awaiting ≠ none ∧ s.kernel.gcConnectedSem.tokens ≠ []

instance (s : State) (n : ℕ) : Decidable (Answered s n) :=
  inferInstanceAs (Decidable (_ ∨ _ ∧ _ ∨ _ ∧ _))

/-- No token is left over, and no CONNECT is queued, in execution or in a handshake. -/
structure Free (s : State) : Prop where
  tokens : s.kernel.gcConnectedSem.tokens = []
  queue : s.kernel.msgq.All fun e => e.isConnect = false
  executes : Executes s → s.kernel.event.any GcloudEvent.isConnect = false
  handshake : s.client.session = .tcp → s.mqtt.phase = .gone ∧ s.gcloud.attempting = false
  giving : s.mqtt.giving = false

instance (s : State) : Decidable (Free s) :=
  decidable_of_iff (s.kernel.gcConnectedSem.tokens = [] ∧
      (s.kernel.msgq.All fun e => e.isConnect = false) ∧
      (Executes s → s.kernel.event.any GcloudEvent.isConnect = false) ∧
      (s.client.session = .tcp → s.mqtt.phase = .gone ∧ s.gcloud.attempting = false) ∧
      s.mqtt.giving = false)
    ⟨fun ⟨ht, hq, he, hh, hg⟩ => ⟨ht, hq, he, hh, hg⟩,
      fun ⟨ht, hq, he, hh, hg⟩ => ⟨ht, hq, he, hh, hg⟩⟩

/-- The step against the call of application thread `n`. The call queues its CONNECT
when it is free to, nobody else queues one while it awaits its token, its wait does not
run out, and it does not return between the give and the write of `connected`. While it
awaits its token no second CONNACK comes on a session of another call, and the purge on
the mqtt thread does not wake the gcloud thread with the CONNECT of another call. Once
it has its answer `connected` is not cleared, nor the write of it aborted, before it
returns. -/
def callSafeAt (s : State) (n : ℕ) : Act → Bool
  | .timeout t => t ≠ .app n || !(s.app n).taking
  | .app m _ =>
    match s.app m with
    | .connect _ .put => if m = n then decide (Free s) else (s.app n).awaiting = none
    | .connect _ (.ret _) => m ≠ n || !s.mqtt.given || s.connected
    | _ => true
  | .gcloud _ =>
    match s.gcloud with
    | .clearConnected => !decide (Answered s n)
    | .call _ (.disc _ .abort) => s.connected || !decide (Answered s n)
    | .call _ (.disc _ (.connect .put)) => (s.app n).awaiting = none
    | _ => true
  | .mqtt env =>
    match s.mqtt with
    | .call .input _ .body => decide (s.client.session = .connected → s.client.remaining = 0 →
        env.packet = .connack true → ∀ call ∈ (s.app n).awaiting, s.client.origin = some call)
    | .call _ _ (.disc _ .purge) => decide (s.gcloud = .wait →
        ∀ call ∈ (s.app n).awaiting, ∀ e ∈ s.kernel.event, e.belongs call = true)
    | _ => true
  | _ => true

/-- The step is safe for the calls of all application threads. -/
def callSafe (s : State) (a : Act) : Prop := ∀ n, callSafeAt s n a = true

/-- The CONNACK for call `call` is in, and `connected` is set or about to be. -/
structure Pledged (call : ℕ) (s : State) : Prop where
  acked : some call ∈ s.acks
  up : s.connected = true ∨ s.mqtt.given = true

/-- The commands in the queue and the one in execution all have the property `P`. -/
structure Serves (P : GcloudEvent → Prop) (s : State) : Prop where
  queue : s.kernel.msgq.All P
  event : Executes s → ∀ e, s.kernel.event = some e → P e

/-- Every CONNECT under way is that of the call, and so is every token to come. -/
structure Own (call : ℕ) (s : State) : Prop where
  serves : Serves (fun e => e.belongs call = true) s
  session : s.client.session = .tcp → s.mqtt.phase ≠ .gone ∨ s.gcloud.attempting = true →
    s.client.origin = some call
  giving : s.mqtt.giving = true → some call ∈ s.acks
  token : s.kernel.gcConnectedSem.tokens ≠ [] → Pledged call s

structure CallInv (s : State) : Prop where
  queue : QueueInv s
  executes : s.gcloud = .clientInit ∨ s.gcloud.attempting = true →
    ∃ origin, s.kernel.event = some (.connect origin)
  own : ∀ n call, (s.app n).awaiting = some call → Own call s
  woken : ∀ n call, s.app n = .connect call (.takeWait 0) →
    .app n ∉ s.kernel.gcConnectedSem.waiters → Pledged call s
  waits : ∀ n, .app n ∈ s.kernel.gcConnectedSem.waiters →
    ∃ call err, s.app n = .connect call (.takeWait err)
  ret : ∀ n call, s.app n = .connect call (.ret 0) → Pledged call s
  result : ConnectResult s

theorem callInv_start : CallInv State.start := by
  constructor
  case queue => exact queueInv_start
  case executes => rintro (h | h) <;> cases h
  case woken => rintro _ _ ⟨⟩
  case own => rintro _ _ ⟨⟩
  case ret => rintro _ _ ⟨⟩
  case waits => rintro _ ⟨⟩
  case result => rintro _ ⟨⟩

/-- What a step leaves of the semaphore: no token comes in, and the waiting application
threads stay. -/
structure SemKeeps (k k' : Kernel) : Prop where
  tokens : k'.gcConnectedSem.tokens ≠ [] → k.gcConnectedSem.tokens ≠ []
  waiters : ∀ n, .app n ∈ k'.gcConnectedSem.waiters ↔ .app n ∈ k.gcConnectedSem.waiters

theorem SemKeeps.of_eq {k k' : Kernel} (h : k'.gcConnectedSem = k.gcConnectedSem) :
    SemKeeps k k' := ⟨by rw [h]; exact id, fun n => by rw [h]⟩

theorem put_sem (k : Kernel) (pos : ℕ) (self : Tid) (e : GcloudEvent) :
    (k.put pos self e).2.gcConnectedSem = k.gcConnectedSem := by
  unfold Kernel.put
  split <;> rfl

theorem putNoWait_sem (k : Kernel) (e : GcloudEvent) :
    (k.putNoWait e).gcConnectedSem = k.gcConnectedSem := by
  unfold Kernel.putNoWait
  split <;> rfl

theorem get_sem {k k' : Kernel} (h : k.get = some k') : k'.gcConnectedSem = k.gcConnectedSem := by
  unfold Kernel.get at h
  split at h <;> cases h <;> rfl

theorem drop_sem (k : Kernel) : SemKeeps k (k.drop .mqtt) := by
  refine ⟨id, fun n => ?_⟩
  simp [Kernel.drop]

/-- A take finds a token, or the thread enters the queue of an empty semaphore. -/
theorem take_cases {k k' : Kernel} {pos : ℕ} {self : Tid} {b : Bool}
    (h : k.take pos self = (b, k')) :
    b = true ∧ k.gcConnectedSem.tokens ≠ [] ∧ SemKeeps k k' ∨
      b = false ∧ k'.gcConnectedSem.tokens = [] ∧
        k'.gcConnectedSem.waiters = enqueue pos self k.gcConnectedSem.waiters := by
  cases ht : k.gcConnectedSem.tokens with
  | cons g rest =>
    obtain ⟨sem, htake, _, hwaiters⟩ := Sem.take_of_token k.gcConnectedSem pos self ht
    simp only [Kernel.take, htake, Prod.mk.injEq] at h
    obtain ⟨rfl, rfl⟩ := h
    refine Or.inl ⟨rfl, (by rintro ⟨⟩), fun _ => by rw [ht]; rintro ⟨⟩, fun n => ?_⟩
    rw [← hwaiters]
  | nil =>
    obtain ⟨sem, htake, htokens, hwaiters⟩ := Sem.take_of_empty k.gcConnectedSem pos self ht
    simp only [Kernel.take, htake, Prod.mk.injEq] at h
    obtain ⟨rfl, rfl⟩ := h
    exact Or.inr ⟨rfl, htokens, hwaiters⟩

/-- The steps of gcloud_connect. -/
theorem connStep_cases {self : Tid} {origin : Option ℕ} {env : Env} {p p' : ConnPc}
    {k k' : Kernel} (h : connStep self origin env p k = some (p', k')) :
    p = .put ∧ (p' = .take 0 ∨ p' = .putWait) ∧ k'.gcConnectedSem = k.gcConnectedSem ∨
      p = .putWait ∧ p' = .take (k.retval self) ∧ k' = k ∨
      (∃ err, p = .take err ∧ (p' = .ret err ∧ k.gcConnectedSem.tokens ≠ [] ∧ SemKeeps k k' ∨
        p' = .takeWait err ∧ k'.gcConnectedSem.tokens = [] ∧
          k'.gcConnectedSem.waiters = enqueue env.pos self k.gcConnectedSem.waiters)) ∨
      ∃ err, p = .takeWait err ∧ self ∉ k.gcConnectedSem.waiters ∧ p' = .ret err ∧ k' = k := by
  cases p with
  | put =>
    have hsem := put_sem k env.pos self (.connect origin)
    simp only [connStep] at h
    split at h <;> rename_i heq <;> cases h <;> rw [heq] at hsem
    · exact Or.inl ⟨rfl, Or.inl rfl, hsem⟩
    · exact Or.inl ⟨rfl, Or.inr rfl, hsem⟩
  | putWait =>
    simp only [connStep] at h
    split at h <;> cases h
    exact Or.inr (Or.inl ⟨rfl, rfl, rfl⟩)
  | take err =>
    simp only [connStep] at h
    split at h <;> rename_i heq <;> cases h <;> obtain ⟨hb, htake⟩ | ⟨hb, htake⟩ := take_cases heq
    · exact Or.inr (Or.inr (Or.inl ⟨err, rfl, Or.inl ⟨rfl, htake⟩⟩))
    · cases hb
    · cases hb
    · exact Or.inr (Or.inr (Or.inl ⟨err, rfl, Or.inr ⟨rfl, htake⟩⟩))
  | takeWait err =>
    simp only [connStep] at h
    split at h <;> rename_i hin <;> cases h
    exact Or.inr (Or.inr (Or.inr ⟨err, rfl, hin, rfl, rfl⟩))
  | ret err => cases h

/-- gcloud_connect in the handler takes tokens and waits as the gcloud thread only. -/
theorem connStep_gcloud_sem {origin : Option ℕ} {env : Env} {p p' : ConnPc} {k k' : Kernel}
    (h : connStep .gcloud origin env p k = some (p', k')) : SemKeeps k k' := by
  obtain ⟨_, _, hsem⟩ | ⟨_, _, rfl⟩ | ⟨err, _, ⟨_, _, hsem⟩ | ⟨_, htokens, hwaiters⟩⟩ |
    ⟨err, _, _, _, rfl⟩ := connStep_cases h
  · exact .of_eq hsem
  · exact .of_eq rfl
  · exact hsem
  · refine ⟨fun hne => absurd htokens hne, fun n => ?_⟩
    rw [hwaiters, mem_enqueue]
    simp
  · exact .of_eq rfl

/-- What a step of the gcloud thread can do to the session, the mqtt thread, the flag
`connected` and the semaphore. -/
structure GcloudEffect (s s' : State) : Prop where
  session : s'.client.session = .tcp →
    s.client.session = .tcp ∧ s'.client.origin = s.client.origin ∨
      s.gcloud = .call .connect .body ∧
        ∀ origin, s.kernel.event = some (.connect origin) → s'.client.origin = origin
  mqtt : s'.mqtt = s.mqtt ∨
    s.gcloud = .create ∧ (s.mqtt = .absent ∨ s.mqtt = .dead) ∧ s'.mqtt = .poll ∨
    (∃ c a, s.gcloud = .call c (.disc a .abort)) ∧ s'.mqtt = .dead
  connected : s'.connected = s.connected ∨ s.gcloud = .clearConnected
  attempt : s'.gcloud.attempting = true → s.gcloud.attempting = true ∨
    s.gcloud = .clientInit ∧ s'.client.session = .closed
  sem : SemKeeps s.kernel s'.kernel

theorem gcloudEffect_of_same {s s' : State} (hsession : s'.client.session = s.client.session)
    (horigin : s'.client.origin = s.client.origin) (hm : s'.mqtt = s.mqtt)
    (hc : s'.connected = s.connected)
    (hatt : s'.gcloud.attempting = true → s.gcloud.attempting = true)
    (hsem : SemKeeps s.kernel s'.kernel) : GcloudEffect s s' :=
  ⟨fun ht => Or.inl ⟨hsession.symm.trans ht, horigin⟩, Or.inl hm, Or.inl hc,
    fun ha => Or.inl (hatt ha), hsem⟩

theorem attempting_of_call {s : State} {c : GcloudCall} {p : CallPc} (hg : s.gcloud = .call c p)
    (q : CallPc) (hq : (GcloudPc.call c q).attempting = true) : s.gcloud.attempting = true := by
  rw [hg, attempting_call c p q]
  exact hq

theorem gcloudDisc_effect {c : GcloudCall} {env : Env} {a : Activation} {p : DiscPc}
    {s s' : State} (hg : s.gcloud = .call c (.disc a p))
    (h : gcloudDisc c env a p s = some s') : GcloudEffect s s' := by
  have hatt := attempting_of_call hg
  cases p with
  | stopTimer | purge | leave =>
    cases h
    exact gcloudEffect_of_same rfl rfl rfl rfl (hatt _) (.of_eq rfl)
  | check =>
    simp only [gcloudDisc] at h
    split at h <;> cases h <;> exact gcloudEffect_of_same rfl rfl rfl rfl (hatt _) (.of_eq rfl)
  | abort =>
    cases h
    exact ⟨fun ht => Or.inl ⟨ht, rfl⟩, Or.inr (Or.inr ⟨⟨c, a, hg⟩, rfl⟩), Or.inl rfl,
      fun ha => Or.inl (hatt _ ha), drop_sem _⟩
  | connect p =>
    obtain ⟨_, rfl⟩ | ⟨p', k, hconn, rfl⟩ := gcloudDisc_connect_cases h
    · exact gcloudEffect_of_same rfl rfl rfl rfl (hatt _) (.of_eq rfl)
    · exact gcloudEffect_of_same rfl rfl rfl rfl (hatt _) (connStep_gcloud_sem hconn)

theorem gcloudBody_effect {c : GcloudCall} {env : Env} {s s' : State}
    (hg : s.gcloud = .call c .body) (h : gcloudCall c env .body s = some s') :
    GcloudEffect s s' := by
  have hatt := attempting_of_call hg
  simp only [gcloudCall] at h
  split at h <;> rename_i hbody <;> cases h
  · rename_i ok cl
    refine ⟨fun ht => ?_, Or.inl rfl, Or.inl rfl, fun ha => Or.inl (hatt _ ha), .of_eq rfl⟩
    change cl.session = .tcp at ht
    cases c with
    | connect =>
      refine Or.inr ⟨hg, fun origin hevent => ?_⟩
      simp only [gcloudBody, hevent] at hbody
      split at hbody <;> cases hbody <;> rfl
    | publish m id | subscribe =>
      simp only [gcloudBody] at hbody
      split at hbody
      · cases hbody
        exact Or.inl ⟨ht, rfl⟩
      · split at hbody
        · cases hbody
          exact Or.inl ⟨ht, rfl⟩
        · split at hbody <;> cases hbody
          exact Or.inl ⟨ht, rfl⟩
    | disconnect =>
      simp only [gcloudBody] at hbody
      split at hbody <;> cases hbody
      exact Or.inl ⟨ht, rfl⟩
  · exact ⟨(by rintro ⟨⟩), Or.inl rfl, Or.inl rfl, fun ha => Or.inl (hatt _ ha), .of_eq rfl⟩

theorem gcloudStep_effect {env : Env} {s s' : State} (h : gcloudStep env s = some s') :
    GcloudEffect s s' := by
  cases hg : s.gcloud with
  | get =>
    simp only [gcloudStep, hg] at h
    split at h <;> rename_i hget <;> cases h
    · exact gcloudEffect_of_same rfl rfl rfl rfl (by rintro ⟨⟩) (.of_eq (get_sem hget))
    · exact gcloudEffect_of_same rfl rfl rfl rfl (by rintro ⟨⟩) (.of_eq rfl)
  | wait =>
    simp only [gcloudStep, hg] at h
    split at h <;> cases h
    exact gcloudEffect_of_same rfl rfl rfl rfl (by rintro ⟨⟩) (.of_eq rfl)
  | dispatch =>
    simp only [gcloudStep, hg, Option.some.injEq] at h
    subst h
    refine gcloudEffect_of_same rfl rfl rfl rfl ?_ (.of_eq rfl)
    intro ha
    rw [(dispatch_quiet env s).2.2] at ha
    cases ha
  | clientInit =>
    simp only [gcloudStep, hg, Option.some.injEq] at h
    subst h
    exact ⟨(by rintro ⟨⟩), Or.inl rfl, Or.inl rfl, fun _ => Or.inr ⟨hg, rfl⟩, .of_eq rfl⟩
  | setConnecting =>
    simp only [gcloudStep, hg, Option.some.injEq] at h
    subst h
    exact gcloudEffect_of_same rfl rfl rfl rfl (fun _ => by rw [hg]; rfl) (.of_eq rfl)
  | create =>
    obtain ⟨hgone, rfl⟩ := gcloudStep_create hg h
    exact ⟨fun ht => Or.inl ⟨ht, rfl⟩, Or.inr (Or.inl ⟨hg, hgone, rfl⟩), Or.inl rfl,
      (by rintro ⟨⟩), .of_eq rfl⟩
  | stopTimer | markConnecting =>
    simp only [gcloudStep, hg, Option.some.injEq] at h
    subst h
    exact gcloudEffect_of_same rfl rfl rfl rfl (by rintro ⟨⟩) (.of_eq rfl)
  | clearConnected =>
    simp only [gcloudStep, hg, Option.some.injEq] at h
    subst h
    exact ⟨fun ht => Or.inl ⟨ht, rfl⟩, Or.inl rfl, Or.inr hg, (by rintro ⟨⟩), .of_eq rfl⟩
  | call c p =>
    have hatt := attempting_of_call hg
    simp only [gcloudStep, hg] at h
    cases p with
    | lock | relock ok =>
      simp only [gcloudCall] at h
      split at h <;> rename_i hlock <;> cases h
      all_goals
        obtain ⟨_, rfl⟩ := Prod.mk.inj hlock
        exact gcloudEffect_of_same rfl rfl rfl rfl (hatt _) (.of_eq rfl)
    | lockWait | relockWait ok =>
      simp only [gcloudCall] at h
      split at h <;> cases h
      exact gcloudEffect_of_same rfl rfl rfl rfl (hatt _) (.of_eq rfl)
    | body => exact gcloudBody_effect hg h
    | disc a q => exact gcloudDisc_effect hg h
    | unlock ok =>
      cases h
      refine gcloudEffect_of_same rfl rfl rfl rfl ?_ (.of_eq rfl)
      intro ha
      rw [hg]
      cases c with
      | connect => rfl
      | publish m id | subscribe | disconnect => cases ha

/-- What a step of the mqtt thread can do to the session, the CONNACKs that are in, and
the flag `connected`. -/
structure MqttAnswer (env : Env) (s s' : State) : Prop where
  session : s'.client.session = .tcp →
    s.client.session = .tcp ∧ s'.client.origin = s.client.origin
  acks : s.acks ⊆ s'.acks
  up : s.connected = true ∨ s.mqtt.given = true → s'.connected = true
  giving : s'.mqtt.giving = true → (∃ rev, s.mqtt = .call .input rev .body) ∧
    s.client.session ≠ .closed ∧ s.client.remaining = 0 ∧ env.packet = .connack true ∧
    s'.acks = s.client.origin :: s.acks

theorem phase_of_giving {pc : MqttPc} (h : pc.giving = true ∨ pc.given = true) :
    pc.phase = .accepting := by
  cases pc with
  | connack rev p =>
    cases p <;> first | rfl | exact absurd h (by simp [MqttPc.giving, MqttPc.given])
  | absent | dead | overrun | poll | call c rev p => rcases h with h | h <;> cases h

theorem mqttAnswer_of_same {env : Env} {s s' : State}
    (hsession : s'.client.session = s.client.session) (horigin : s'.client.origin = s.client.origin)
    (hacks : s'.acks = s.acks) (hc : s'.connected = s.connected) (hgiven : s.mqtt.given = false)
    (hgiving : s'.mqtt.giving = false) : MqttAnswer env s s' := by
  refine ⟨fun ht => ⟨hsession.symm.trans ht, horigin⟩, ?_, ?_, ?_⟩
  · rw [hacks]
    exact List.Subset.refl _
  · rintro (hup | hup)
    · exact hc.trans hup
    · rw [hgiven] at hup
      cases hup
  · intro hg
    rw [hgiving] at hg
    cases hg

theorem mqttAnswer_of_calm {env : Env} {s s' : State} (hcalm : Calm s s')
    (hs : s.mqtt.phase = .serving) (hs' : s'.mqtt.phase ≠ .accepting) : MqttAnswer env s s' := by
  refine mqttAnswer_of_same hcalm.session hcalm.origin hcalm.acks hcalm.connected ?_ ?_
  · refine Bool.eq_false_iff.mpr fun hg => ?_
    rw [phase_of_giving (Or.inr hg)] at hs
    cases hs
  · exact Bool.eq_false_iff.mpr fun hg => hs' (phase_of_giving (Or.inl hg))

theorem mqttStep_answer {env : Env} {s s' : State} (h : mqttStep env s = some s') :
    MqttAnswer env s s' := by
  cases mqttStep_effect h with
  | calm hcalm hs hs' => exact mqttAnswer_of_calm hcalm hs (by rw [hs']; rintro ⟨⟩)
  | exit hcalm hs _ hs' => exact mqttAnswer_of_calm hcalm hs (by rw [hs']; rintro ⟨⟩)
  | lose c rev hm _ _ =>
    refine ⟨(by rintro ⟨⟩), List.Subset.refl _, ?_, (by rintro ⟨⟩)⟩
    rw [hm]
    exact fun hup => hup.resolve_right (by rintro ⟨⟩)
  | accept rev hm hopen hdrained hpacket =>
    refine ⟨(by rintro ⟨⟩), List.subset_cons_self _ _, ?_, ?_⟩
    · rw [hm]
      exact fun hup => hup.resolve_right (by rintro ⟨⟩)
    · exact fun _ => ⟨⟨rev, hm⟩, hopen, hdrained, hpacket, rfl⟩
  | connack rev p hm hconn =>
    cases p with
    | setConnected =>
      cases hconn
      exact ⟨fun ht => ⟨ht, rfl⟩, List.Subset.refl _, fun _ => rfl, (by rintro ⟨⟩)⟩
    | give | clearConnecting | startTimer =>
      cases hconn
      exact mqttAnswer_of_same rfl rfl rfl rfl (by rw [hm]; rfl) rfl
    | putSubscribe | putWait =>
      simp only [connackStep] at hconn
      split at hconn <;> cases hconn
      all_goals exact mqttAnswer_of_same rfl rfl rfl rfl (by rw [hm]; rfl) rfl
  | disc c rev a p hm hdisc =>
    cases p with
    | stopTimer | purge | abort | leave =>
      cases hdisc
      exact mqttAnswer_of_same rfl rfl rfl rfl (by rw [hm]; rfl) rfl
    | check =>
      simp only [mqttDisc] at hdisc
      split at hdisc <;> cases hdisc
      all_goals exact mqttAnswer_of_same rfl rfl rfl rfl (by rw [hm]; rfl) rfl
    | connect q => cases hdisc

theorem step_acks {s s' : State} {a : Act} (h : step s a = some s') : s.acks ⊆ s'.acks := by
  cases a with
  | gcloud env =>
    rw [(gcloudStep_frame h).acks]
    exact List.Subset.refl _
  | mqtt env => exact (mqttStep_answer h).acks
  | start n c | app n env | timer | timeout t =>
    rw [(outside_frame rfl h).acks]
    exact List.Subset.refl _

/-- A call that has its answer keeps it, and `connected` stays up or is about to be set. -/
theorem pledged_step {s s' : State} {a : Act} {n call : ℕ} (h : step s a = some s')
    (hsafe : callSafe s a) (hans : Answered s n) (hp : Pledged call s) : Pledged call s' := by
  refine ⟨step_acks h hp.acked, ?_⟩
  cases a with
  | mqtt env => exact Or.inl ((mqttStep_answer h).up hp.up)
  | start n c | app n env | timer | timeout t =>
    have hframe := outside_frame rfl h
    rw [hframe.connected, hframe.mqtt]
    exact hp.up
  | gcloud env =>
    have heffect := gcloudStep_effect h
    have hconn : s'.connected = s.connected := by
      refine heffect.connected.resolve_right fun hg => ?_
      have hn := hsafe n
      simp only [callSafeAt, hg, Bool.not_eq_true', decide_eq_false_iff_not] at hn
      exact hn hans
    rw [hconn]
    rcases heffect.mqtt with hm | ⟨_, hgone, _⟩ | ⟨⟨c, b, hg⟩, _⟩
    · rw [hm]
      exact hp.up
    · refine Or.inl (hp.up.resolve_right ?_)
      rcases hgone with hm | hm <;> simp [hm, MqttPc.given]
    · exact Or.inl (by simpa [callSafeAt, hg, hans] using hsafe n)

/-- gcloud_connect is where it was, has just been called, or has taken a step. -/
theorem connect_of_step {s s' : State} {a : Act} {n call : ℕ} {p' : ConnPc}
    (h : step s a = some s') (hpc : s'.app n = .connect call p') :
    s.app n = .connect call p' ∨ p' = .put ∨
      ∃ env p, a = .app n env ∧ s.app n = .connect call p ∧
        connStep (.app n) (some call) env p s.kernel = some (p', s'.kernel) := by
  by_cases hstart : ∃ c, a = .start n c
  · obtain ⟨c, rfl⟩ := hstart
    simp only [step, apiStart] at h
    split at h <;> cases h
    simp only [Function.update_self] at hpc
    cases c with
    | connect =>
      cases hpc
      exact Or.inr (Or.inl rfl)
    | disconnect | publish m | publishState m => cases hpc
  by_cases happ : ∃ env, a = .app n env
  · obtain ⟨env, rfl⟩ := happ
    simp only [step, appStep] at h
    split at h
    · cases h
    · cases h
      simp at hpc
    · rename_i call' p _ hpc'
      split at h <;> rename_i hconn <;> cases h
      simp only [Function.update_self, AppPc.connect.injEq] at hpc
      obtain ⟨rfl, rfl⟩ := hpc
      exact Or.inr (Or.inr ⟨env, p, rfl, hpc', hconn⟩)
    · cases h
      simp only [Function.update_self] at hpc
      split at hpc <;> cases hpc
    · split at h <;> cases h <;> simp at hpc
    · split at h <;> cases h
      simp at hpc
  · refine Or.inl ?_
    rw [← app_of_other (fun c hc => hstart ⟨c, hc⟩) (fun env he => happ ⟨env, he⟩) h]
    exact hpc

theorem connect_of_awaiting {pc : AppPc} {call : ℕ} (h : pc.awaiting = some call) :
    ∃ p, pc = .connect call p ∧ p ≠ .put := by
  cases pc with
  | connect call' p =>
    cases p with
    | putWait =>
      cases h
      exact ⟨_, rfl, (by rintro ⟨⟩)⟩
    | take err | takeWait err =>
      simp only [AppPc.awaiting] at h
      split at h <;> cases h
      exact ⟨_, rfl, (by rintro ⟨⟩)⟩
    | put | ret err => cases h
  | idle | check e | put e | putWait e => cases h

/-- A call that awaits a token did so before, or has just queued its CONNECT. -/
theorem awaiting_of_step {s s' : State} {a : Act} {n call : ℕ} (h : step s a = some s')
    (hawait : (s'.app n).awaiting = some call) :
    (s.app n).awaiting = some call ∨ ∃ env, a = .app n env ∧ s.app n = .connect call .put := by
  obtain ⟨p', hpc', hput⟩ := connect_of_awaiting hawait
  rw [hpc'] at hawait
  rcases connect_of_step h hpc' with hsame | hp | ⟨env, p, rfl, hpc, hconn⟩
  · rw [hsame]
    exact Or.inl hawait
  · exact absurd hp hput
  · rw [hpc]
    obtain ⟨rfl, _⟩ | ⟨rfl, _⟩ | ⟨err, rfl, ⟨rfl, _⟩ | ⟨rfl, _⟩⟩ | ⟨err, rfl, _, rfl, _⟩ :=
      connStep_cases hconn
    · exact Or.inr ⟨env, rfl, rfl⟩
    · exact Or.inl rfl
    · cases hawait
    · exact Or.inl hawait
    · cases hawait

/-- Everything a step can do to the semaphore. -/
inductive SemEffect (s : State) : Act → State → Prop
  | keeps {a : Act} {s' : State} (hk : SemKeeps s.kernel s'.kernel) : SemEffect s a s'
  | give (env : Env) (rev : Revents) (hm : s.mqtt = .connack rev .give) :
      SemEffect s (.mqtt env)
        { s with kernel := s.kernel.give, mqtt := .connack rev .setConnected }
  | wait (env : Env) (n call : ℕ) (err : ℤ) (hpc : s.app n = .connect call (.take err))
      {s' : State} (hpc' : s'.app n = .connect call (.takeWait err))
      (htokens : s'.kernel.gcConnectedSem.tokens = [])
      (hwaiters : s'.kernel.gcConnectedSem.waiters =
        enqueue env.pos (.app n) s.kernel.gcConnectedSem.waiters) : SemEffect s (.app n env) s'
  | timeout (t : Tid) {s' : State}
      (htokens : s'.kernel.gcConnectedSem.tokens = s.kernel.gcConnectedSem.tokens)
      (hwaiters : s'.kernel.gcConnectedSem.waiters =
        s.kernel.gcConnectedSem.waiters.filter (· ≠ t)) : SemEffect s (.timeout t) s'

theorem appStep_sem {n : ℕ} {env : Env} {s s' : State} (h : appStep n env s = some s') :
    SemEffect s (.app n env) s' := by
  unfold appStep at h
  split at h
  · cases h
  · cases h
    exact .keeps (.of_eq rfl)
  · rename_i call p _ hpc
    split at h <;> rename_i hconn <;> cases h
    obtain ⟨_, _, hsem⟩ | ⟨_, _, rfl⟩ | ⟨err, rfl, ⟨_, _, hsem⟩ | ⟨rfl, htokens, hwaiters⟩⟩ |
      ⟨err, _, _, _, rfl⟩ := connStep_cases hconn
    · exact .keeps (.of_eq hsem)
    · exact .keeps (.of_eq rfl)
    · exact .keeps hsem
    · exact .wait env n call err hpc (Function.update_self _ _ _) htokens hwaiters
    · exact .keeps (.of_eq rfl)
  · cases h
    exact .keeps (.of_eq rfl)
  · rename_i e _
    have hsem := put_sem s.kernel env.pos (.app n) e
    split at h <;> rename_i heq <;> cases h <;> rw [heq] at hsem <;> exact .keeps (.of_eq hsem)
  · split at h <;> cases h
    exact .keeps (.of_eq rfl)

theorem mqttStep_sem {env : Env} {s s' : State} (h : mqttStep env s = some s') :
    SemEffect s (.mqtt env) s' := by
  cases mqttStep_effect h with
  | calm hcalm _ _ => exact .keeps (.of_eq (by rw [hcalm.kernel]))
  | exit hcalm _ _ _ => exact .keeps (.of_eq (by rw [hcalm.kernel]))
  | lose c rev _ _ _ | accept rev _ _ _ _ => exact .keeps (.of_eq rfl)
  | connack rev p hm hconn =>
    cases p with
    | give =>
      cases hconn
      exact .give env rev hm
    | setConnected | clearConnecting | startTimer =>
      cases hconn
      exact .keeps (.of_eq rfl)
    | putSubscribe =>
      have hsem := put_sem s.kernel env.pos .mqtt .subscribe
      simp only [connackStep] at hconn
      split at hconn <;> rename_i heq <;> cases hconn <;> rw [heq] at hsem
      all_goals exact .keeps (.of_eq hsem)
    | putWait =>
      simp only [connackStep] at hconn
      split at hconn <;> cases hconn
      exact .keeps (.of_eq rfl)
  | disc c rev a p _ hdisc =>
    cases p with
    | stopTimer | purge | leave =>
      cases hdisc
      exact .keeps (.of_eq rfl)
    | abort =>
      cases hdisc
      exact .keeps (drop_sem _)
    | check =>
      simp only [mqttDisc] at hdisc
      split at hdisc <;> cases hdisc <;> exact .keeps (.of_eq rfl)
    | connect q => cases hdisc

theorem step_sem {s s' : State} {a : Act} (h : step s a = some s') : SemEffect s a s' := by
  cases a with
  | start n c =>
    simp only [step, apiStart] at h
    split at h <;> cases h
    exact .keeps (.of_eq rfl)
  | app n env => exact appStep_sem h
  | gcloud env => exact .keeps (gcloudStep_effect h).sem
  | mqtt env => exact mqttStep_sem h
  | timer =>
    simp only [step] at h
    split at h <;> cases h
    exact .keeps (.of_eq (putNoWait_sem _ _))
  | timeout t =>
    simp only [step, Option.map_eq_some_iff] at h
    obtain ⟨k, hk, rfl⟩ := h
    unfold Kernel.timeout at hk
    split at hk
    · cases hk
      exact .keeps (.of_eq rfl)
    · split at hk <;> cases hk
      exact .timeout t rfl rfl

/-- A thread that stops waiting has been given a token, or its wait has run out. -/
theorem woken_of_step {s s' : State} {a : Act} {n : ℕ} (h : step s a = some s')
    (hin : .app n ∈ s.kernel.gcConnectedSem.waiters)
    (hout : .app n ∉ s'.kernel.gcConnectedSem.waiters) :
    a = .timeout (.app n) ∨ ∃ env rev, a = .mqtt env ∧ s.mqtt = .connack rev .give ∧
      s'.acks = s.acks ∧ s'.mqtt = .connack rev .setConnected := by
  cases step_sem h with
  | keeps hk => exact absurd ((hk.waiters n).mpr hin) hout
  | give env rev hm => exact Or.inr ⟨env, rev, rfl, hm, rfl, rfl⟩
  | wait env m call err _ _ _ hwaiters =>
    rw [hwaiters, mem_enqueue] at hout
    exact absurd (Or.inr hin) hout
  | timeout t _ hwaiters =>
    rw [hwaiters] at hout
    by_cases ht : .app n = t
    · exact Or.inl (by rw [ht])
    · exact absurd (List.mem_filter.mpr ⟨hin, decide_eq_true ht⟩) hout

/-- A thread that waits has waited before, or has just found no token. -/
theorem waits_of_step {s s' : State} {a : Act} {n : ℕ} (h : step s a = some s')
    (hin : .app n ∈ s'.kernel.gcConnectedSem.waiters) :
    .app n ∈ s.kernel.gcConnectedSem.waiters ∨ ∃ env call err, a = .app n env ∧
      s'.app n = .connect call (.takeWait err) := by
  cases step_sem h with
  | keeps hk => exact Or.inl ((hk.waiters n).mp hin)
  | give env rev hm => exact Or.inl (s.kernel.gcConnectedSem.mem_give_waiters () hin)
  | wait env m call err _ hpc' _ hwaiters =>
    rw [hwaiters, mem_enqueue] at hin
    rcases hin with hself | hold
    · cases hself
      exact Or.inr ⟨env, call, err, rfl, hpc'⟩
    · exact Or.inl hold
  | timeout t _ hwaiters =>
    rw [hwaiters] at hin
    exact Or.inl (List.mem_filter.mp hin).1

/-- Every token is an old one or is given by this step. -/
theorem token_of_step {s s' : State} {a : Act} (h : step s a = some s')
    (ht : s'.kernel.gcConnectedSem.tokens ≠ []) :
    s.kernel.gcConnectedSem.tokens ≠ [] ∨ ∃ env rev, a = .mqtt env ∧
      s.mqtt = .connack rev .give ∧ s'.acks = s.acks ∧ s'.mqtt = .connack rev .setConnected := by
  cases step_sem h with
  | keeps hk => exact Or.inl (hk.tokens ht)
  | give env rev hm => exact Or.inr ⟨env, rev, rfl, hm, rfl, rfl⟩
  | wait env m call err _ _ htokens _ => exact absurd htokens ht
  | timeout t htokens _ =>
    rw [htokens] at ht
    exact Or.inl ht

/-- A return is an old one, or one that this step makes. -/
theorem returns_of_step {s s' : State} {a : Act} {r : Return} (h : step s a = some s')
    (hr : r ∈ s'.returns) :
    r ∈ s.returns ∨ ∃ n env call err, a = .app n env ∧ s.app n = .connect call (.ret err) ∧
      r = ⟨call, err, s.connected⟩ := by
  cases a with
  | start n c =>
    simp only [step, apiStart] at h
    split at h <;> cases h
    exact Or.inl hr
  | app n env =>
    simp only [step, appStep] at h
    split at h
    · cases h
    · rename_i call err hpc
      cases h
      rcases List.mem_cons.mp hr with hnew | hold
      · exact Or.inr ⟨n, env, call, err, rfl, hpc, hnew⟩
      · exact Or.inl hold
    · split at h <;> cases h
      exact Or.inl hr
    · cases h
      exact Or.inl hr
    · split at h <;> cases h <;> exact Or.inl hr
    · split at h <;> cases h
      exact Or.inl hr
  | gcloud env =>
    rw [(gcloudStep_frame h).returns] at hr
    exact Or.inl hr
  | mqtt env =>
    rw [(mqttStep_api h).returns] at hr
    exact Or.inl hr
  | timer =>
    simp only [step] at h
    split at h <;> cases h
    exact Or.inl hr
  | timeout t =>
    simp only [step, Option.map_eq_some_iff] at h
    obtain ⟨k, _, rfl⟩ := h
    exact Or.inl hr

/-- The gcloud thread executes a command that it executed before, or that it has just
taken from the queue. -/
theorem gcloudStep_executes {env : Env} {s s' : State} (hq : QueueInv s)
    (h : gcloudStep env s = some s') (hexec : Executes s') :
    Executes s ∨ s.gcloud = .get ∧ s.kernel.get = some s'.kernel := by
  have hnil := hq.readers_nil_of_step h
  have hplace : ∀ {pc : GcloudPc}, s'.gcloud = pc → pc = .dispatch ∨ pc = .clientInit ∨
      pc.attempting = true ∨ pc = .wait ∧ s'.kernel.msgq.readers = [] := by
    rintro pc rfl
    exact hexec
  cases hg : s.gcloud with
  | get =>
    simp only [gcloudStep, hg] at h
    split at h <;> rename_i hget <;> cases h
    · exact Or.inr ⟨rfl, hget⟩
    · obtain hd | hi | hatt | ⟨_, hreaders⟩ := hplace rfl
      · cases hd
      · cases hi
      · cases hatt
      · have hempty := Kernel.get_none hget
        simp [Kernel.pendRead, MsgQ.pendRead, hempty, hnil, enqueue_nil] at hreaders
  | wait => exact Or.inl (Or.inr (Or.inr (Or.inr ⟨hg, hnil⟩)))
  | dispatch => exact Or.inl (Or.inl hg)
  | clientInit => exact Or.inl (Or.inr (Or.inl hg))
  | setConnecting | create => exact Or.inl (Or.inr (Or.inr (Or.inl (by rw [hg]; rfl))))
  | stopTimer | clearConnected | markConnecting =>
    simp only [gcloudStep, hg, Option.some.injEq] at h
    subst h
    obtain hd | hi | hatt | ⟨hw, _⟩ := hplace rfl
    · cases hd
    · cases hi
    · cases hatt
    · cases hw
  | call c p =>
    simp only [gcloudStep, hg] at h
    cases c with
    | connect => exact Or.inl (Or.inr (Or.inr (Or.inl (by rw [hg]; rfl))))
    | publish m id | subscribe | disconnect =>
      obtain ⟨q, hg', _⟩ | hg' := gcloudCall_place h
      all_goals
        obtain hd | hi | hatt | ⟨hw, _⟩ := hplace hg'
        · cases hd
        · cases hi
        · cases hatt
        · cases hw

/-- Only the purge on the mqtt thread can wake the gcloud thread with an old command. -/
theorem serves_step {P : GcloudEvent → Prop} {s s' : State} {a : Act} (hq : QueueInv s)
    (h : step s a = some s') (hs : Serves P s) (hP : ∀ e, e.isConnect = false → P e)
    (happ : ∀ n env call, a = .app n env → s.app n = .connect call .put →
      P (.connect (some call)))
    (hmod : ∀ env c b, a = .gcloud env → s.gcloud = .call c (.disc b (.connect .put)) →
      P (.connect none))
    (hwake : ∀ env c rev b, a = .mqtt env → s.mqtt = .call c rev (.disc b .purge) →
      s.gcloud = .wait → ∀ e, s.kernel.event = some e → P e) : Serves P s' := by
  by_cases hpurge : purges s a = true
  · obtain ⟨env, c, b, rfl, hg, rfl⟩ | ⟨env, c, rev, b, rfl, hm, rfl⟩ := purge_cases hpurge h
    · refine ⟨MsgQ.all_empty, fun hexec e he => hs.event ?_ e he⟩
      obtain hd | hi | hatt | ⟨hw, _⟩ := hexec
      · cases hd
      · cases hi
      · refine Or.inr (Or.inr (Or.inl ?_))
        rw [hg, attempting_call c _ (.disc b .check)]
        exact hatt
      · cases hw
    · refine ⟨MsgQ.all_empty, fun hexec e he => ?_⟩
      by_cases hw : s.gcloud = .wait
      · exact hwake env c rev b rfl hm hw e he
      · refine hs.event ?_ e he
        obtain hd | hi | hatt | ⟨hw', _⟩ := hexec
        · exact Or.inl hd
        · exact Or.inr (Or.inl hi)
        · exact Or.inr (Or.inr (Or.inl hatt))
        · exact absurd hw' hw
  · have hfeeds := step_feeds h (Bool.eq_false_iff.mpr hpurge) hq hs.queue hP happ hmod
    refine ⟨hfeeds.all, fun hexec e he => ?_⟩
    obtain ⟨hevent, hreaders⟩ | ⟨x, hx, hPx⟩ := hfeeds.event
    · by_cases ha : ∃ env, a = .gcloud env
      · obtain ⟨env, rfl⟩ := ha
        obtain hexec' | ⟨hg, hget⟩ := gcloudStep_executes hq h hexec
        · exact hs.event hexec' e (hevent.symm.trans he)
        · obtain ⟨x, hx, hmem, _⟩ := Kernel.get_cases hget
          rw [hx, Option.some.injEq] at he
          exact he ▸ hs.queue.buf x hmem
      · have hg := gcloud_of_other (fun env he => ha ⟨env, he⟩) h
        refine hs.event ?_ e (hevent.symm.trans he)
        rw [Executes, hg] at hexec
        rcases hexec with hd | hi | hatt | ⟨hw, hnil⟩
        · exact Or.inl hd
        · exact Or.inr (Or.inl hi)
        · exact Or.inr (Or.inr (Or.inl hatt))
        · refine Or.inr (Or.inr (Or.inr ⟨hw, ?_⟩))
          rcases hq.reads with hr | ⟨hr, _⟩
          · exact hr
          · rw [hreaders hr] at hnil
            cases hnil
    · rw [hx, Option.some.injEq] at he
      exact he ▸ hPx

theorem gcloud_session {env : Env} {s s' : State} {call : ℕ} (h : CallInv s) (hown : Own call s)
    (hstep : gcloudStep env s = some s') (ht : s'.client.session = .tcp)
    (hlive : s'.mqtt.phase ≠ .gone ∨ s'.gcloud.attempting = true) :
    s'.client.origin = some call := by
  have heffect := gcloudStep_effect hstep
  rcases heffect.session ht with ⟨hs, horigin⟩ | ⟨hg, horigin⟩
  · rw [horigin]
    refine hown.session hs ?_
    rcases hlive with hphase | hatt
    · rcases heffect.mqtt with hm | ⟨hg, _⟩ | ⟨_, hm⟩
      · rw [hm] at hphase
        exact Or.inl hphase
      · exact Or.inr (by rw [hg]; rfl)
      · rw [hm] at hphase
        exact absurd rfl hphase
    · rcases heffect.attempt hatt with hatt' | ⟨_, hclosed⟩
      · exact Or.inr hatt'
      · rw [hclosed] at ht
        cases ht
  · have hatt : s.gcloud.attempting = true := by rw [hg]; rfl
    obtain ⟨origin, hevent⟩ := h.executes (Or.inr hatt)
    rw [horigin origin hevent]
    exact of_decide_eq_true (hown.serves.event (Or.inr (Or.inr (Or.inl hatt))) _ hevent)

theorem giving_step {s s' : State} {a : Act} {n call : ℕ} (h : step s a = some s')
    (hsafe : callSafe s a) (hawait : (s.app n).awaiting = some call) (hown : Own call s)
    (hg : s'.mqtt.giving = true) : some call ∈ s'.acks := by
  cases a with
  | mqtt env =>
    obtain ⟨⟨rev, hm⟩, hopen, hdrained, hpacket, hacks⟩ := (mqttStep_answer h).giving hg
    have horigin : s.client.origin = some call := by
      cases hsession : s.client.session with
      | closed => exact absurd hsession hopen
      | tcp => exact hown.session hsession (Or.inl (phase_of_mqttStep h))
      | connected =>
        have hn := hsafe n
        simp only [callSafeAt, hm, decide_eq_true_eq] at hn
        exact hn hsession hdrained hpacket call hawait
    rw [hacks, horigin]
    exact List.mem_cons_self
  | gcloud env =>
    rw [(gcloudStep_frame h).acks]
    rcases (gcloudStep_effect h).mqtt with hm | ⟨_, _, hm⟩ | ⟨_, hm⟩
    · exact hown.giving (by rw [← hm]; exact hg)
    · rw [hm] at hg
      cases hg
    · rw [hm] at hg
      cases hg
  | start m c | app m env | timer | timeout t =>
    have hframe := outside_frame rfl h
    rw [hframe.acks]
    exact hown.giving (by rw [← hframe.mqtt]; exact hg)

/-- The token that comes in answers the call. -/
theorem pledged_of_give {s s' : State} {call : ℕ} {rev : Revents} (hown : Own call s)
    (hm : s.mqtt = .connack rev .give) (hacks : s'.acks = s.acks)
    (hm' : s'.mqtt = .connack rev .setConnected) : Pledged call s' := by
  refine ⟨?_, Or.inr (by rw [hm']; rfl)⟩
  rw [hacks]
  exact hown.giving (by rw [hm]; rfl)

theorem belongs_of_quiet (call : ℕ) {e : GcloudEvent} (h : e.isConnect = false) :
    e.belongs call = true := by
  cases e with
  | connect origin => cases h
  | publishState m | publish m | reconnectTimeout | disconnect k | subscribe => rfl

theorem answered_of_returning {s : State} {n call : ℕ} (h : s.app n = .connect call (.ret 0)) :
    Answered s n := Or.inl (by rw [h]; rfl)

theorem answered_of_woken {s : State} {n call : ℕ} (h : s.app n = .connect call (.takeWait 0))
    (hout : .app n ∉ s.kernel.gcConnectedSem.waiters) : Answered s n :=
  Or.inr (Or.inl ⟨by rw [h]; rfl, hout⟩)

theorem answered_of_token {s : State} {n call : ℕ} (h : (s.app n).awaiting = some call)
    (ht : s.kernel.gcConnectedSem.tokens ≠ []) : Answered s n :=
  Or.inr (Or.inr ⟨by rw [h]; rintro ⟨⟩, ht⟩)

theorem own_step {s s' : State} {a : Act} {n call : ℕ} (h : CallInv s) (hsafe : callSafe s a)
    (hstep : step s a = some s') (hawait : (s.app n).awaiting = some call) : Own call s' := by
  have hown := h.own n call hawait
  refine ⟨?_, ?_, giving_step hstep hsafe hawait hown, ?_⟩
  · refine serves_step h.queue hstep hown.serves (fun e => belongs_of_quiet call) ?_ ?_ ?_
    · rintro m env call' rfl hput
      have hn := hsafe n
      by_cases hm : m = n
      · subst hm
        rw [hput] at hawait
        cases hawait
      · simp [callSafeAt, hput, hm, hawait] at hn
    · rintro env c b rfl hg
      have hn := hsafe n
      simp [callSafeAt, hg, hawait] at hn
    · rintro env c rev b rfl hm hw e he
      have hn := hsafe n
      simp only [callSafeAt, hm, decide_eq_true_eq] at hn
      exact hn hw call hawait e he
  · intro ht hlive
    cases a with
    | gcloud env => exact gcloud_session h hown hstep ht hlive
    | mqtt env =>
      obtain ⟨hs, horigin⟩ := (mqttStep_answer hstep).session ht
      rw [horigin]
      exact hown.session hs (Or.inl (phase_of_mqttStep hstep))
    | start m c | app m env | timer | timeout t =>
      have hframe := outside_frame rfl hstep
      rw [hframe.client] at ht ⊢
      rw [hframe.mqtt, hframe.gcloud] at hlive
      exact hown.session ht hlive
  · intro ht
    obtain hold | ⟨_, rev, _, hm, hacks, hm'⟩ := token_of_step hstep ht
    · exact pledged_step hstep hsafe (answered_of_token hawait hold) (hown.token hold)
    · exact pledged_of_give hown hm hacks hm'

/-- A call that queues its CONNECT when it is free to has everything to itself. -/
theorem own_of_free {s s' : State} {n call : ℕ} {env : Env} (h : CallInv s)
    (hpc : s.app n = .connect call .put) (hsafe : callSafe s (.app n env))
    (hstep : step s (.app n env) = some s') : Own call s' := by
  have hfree : Free s := by simpa [callSafeAt, hpc] using hsafe n
  have hframe := outside_frame rfl hstep
  refine ⟨?_, ?_, ?_, ?_⟩
  · have hserves : Serves (fun e => e.belongs call = true) s := by
      refine ⟨⟨fun e he => belongs_of_quiet call (hfree.queue.buf e he),
        fun w hw => belongs_of_quiet call (hfree.queue.writers w hw)⟩, fun hexec e he => ?_⟩
      have hquiet := hfree.executes hexec
      rw [he] at hquiet
      exact belongs_of_quiet call hquiet
    refine serves_step h.queue hstep hserves (fun e => belongs_of_quiet call) ?_
      (fun _ _ _ => (by rintro ⟨⟩)) (fun _ _ _ _ => (by rintro ⟨⟩))
    intro m env' call' ha hput
    cases ha
    rw [hpc] at hput
    cases hput
    exact decide_eq_true rfl
  · intro ht hlive
    rw [hframe.client] at ht
    rw [hframe.mqtt, hframe.gcloud] at hlive
    obtain ⟨hgone, hatt⟩ := hfree.handshake ht
    rcases hlive with hphase | hatt'
    · exact absurd hgone hphase
    · rw [hatt] at hatt'
      cases hatt'
  · intro hg
    rw [hframe.mqtt, hfree.giving] at hg
    cases hg
  · intro ht
    obtain hold | ⟨_, _, ha, _⟩ := token_of_step hstep ht
    · exact absurd hfree.tokens hold
    · cases ha

/-- The gcloud thread comes to client_init by a CONNECT only. -/
theorem gcloudStep_clientInit {env : Env} {s s' : State} (h : gcloudStep env s = some s')
    (hi : s'.gcloud = .clientInit) : ∃ origin, s'.kernel.event = some (.connect origin) := by
  cases hg : s.gcloud with
  | dispatch =>
    simp only [gcloudStep, hg, Option.some.injEq] at h
    subst h
    obtain ⟨hconnect, _⟩ | ⟨_, hd | ⟨_, hd | ⟨m, id, hd⟩ | hd⟩⟩ := dispatch_cases env s
    · obtain ⟨e, hevent, he⟩ := (Option.any_eq_true _ _).mp hconnect
      cases e with
      | connect origin => exact ⟨origin, hevent⟩
      | publishState m | publish m | reconnectTimeout | disconnect k | subscribe => cases he
    all_goals cases hd.symm.trans hi
  | get | wait =>
    simp only [gcloudStep, hg] at h
    split at h <;> cases h <;> cases hi
  | create =>
    obtain ⟨-, rfl⟩ := gcloudStep_create hg h
    cases hi
  | clientInit | stopTimer | clearConnected | markConnecting =>
    simp only [gcloudStep, hg, Option.some.injEq] at h
    subst h
    cases hi
  | setConnecting =>
    simp only [gcloudStep, hg, Option.some.injEq] at h
    subst h
    simp only at hi
    split at hi <;> cases hi
  | call c p =>
    simp only [gcloudStep, hg] at h
    obtain ⟨q, hg', _⟩ | hg' := gcloudCall_place h <;> rw [hg'] at hi
    · cases hi
    · cases c <;> cases hi

theorem executes_step {s s' : State} {a : Act} (h : CallInv s) (hstep : step s a = some s')
    (hplace : s'.gcloud = .clientInit ∨ s'.gcloud.attempting = true) :
    ∃ origin, s'.kernel.event = some (.connect origin) := by
  by_cases ha : ∃ env, a = .gcloud env
  · obtain ⟨env, rfl⟩ := ha
    have hnil := h.queue.readers_nil_of_step hstep
    rcases hplace with hi | hatt
    · exact gcloudStep_clientInit hstep hi
    · have hbefore : s.gcloud = .clientInit ∨ s.gcloud.attempting = true := by
        rcases (gcloudStep_effect hstep).attempt hatt with hatt' | ⟨hi, _⟩
        · exact Or.inr hatt'
        · exact Or.inl hi
      obtain ⟨origin, hevent⟩ := h.executes hbefore
      refine ⟨origin, ?_⟩
      cases step_queue hstep with
      | keeps hk => exact (hk.event hnil).trans hevent
      | get _ hg k _ => cases hatt
      | pend _ hg _ => cases hatt
      | gcloudPurge _ c b _ => exact hevent
  · have hother : ∀ env, a ≠ .gcloud env := fun env he => ha ⟨env, he⟩
    rw [gcloud_of_other hother hstep] at hplace
    have hnil : s.kernel.msgq.readers = [] := by
      refine h.queue.readers_nil fun hw => ?_
      rw [hw] at hplace
      rcases hplace with hi | hatt
      · cases hi
      · cases hatt
    obtain ⟨origin, hevent⟩ := h.executes hplace
    exact ⟨origin, (event_of_other hother hstep hnil).1.trans hevent⟩

theorem woken_step {s s' : State} {a : Act} {n call : ℕ} (h : CallInv s) (hsafe : callSafe s a)
    (hstep : step s a = some s') (hpc' : s'.app n = .connect call (.takeWait 0))
    (hout : .app n ∉ s'.kernel.gcConnectedSem.waiters) : Pledged call s' := by
  obtain hpc | hput | ⟨env, p, rfl, hpc, hconn⟩ := connect_of_step hstep hpc'
  · by_cases hin : .app n ∈ s.kernel.gcConnectedSem.waiters
    · obtain rfl | ⟨_, rev, _, hm, hacks, hm'⟩ := woken_of_step hstep hin hout
      · have hn := hsafe n
        simp [callSafeAt, AppPc.taking, hpc] at hn
      · exact pledged_of_give (h.own n call (by rw [hpc]; rfl)) hm hacks hm'
    · exact pledged_step hstep hsafe (answered_of_woken hpc hin) (h.woken n call hpc hin)
  · cases hput
  · obtain ⟨_, hp | hp, _⟩ | ⟨_, hp, _⟩ | ⟨err, _, ⟨hp, _⟩ | ⟨_, _, hwaiters⟩⟩ |
      ⟨err, _, _, hp, _⟩ :=
      connStep_cases hconn
    · cases hp
    · cases hp
    · cases hp
    · cases hp
    · rw [hwaiters, mem_enqueue] at hout
      exact absurd (Or.inl rfl) hout
    · cases hp

theorem waits_step {s s' : State} {a : Act} {n : ℕ} (h : CallInv s) (hstep : step s a = some s')
    (hin : .app n ∈ s'.kernel.gcConnectedSem.waiters) :
    ∃ call err, s'.app n = .connect call (.takeWait err) := by
  obtain hold | ⟨env, call, err, rfl, hpc'⟩ := waits_of_step hstep hin
  · obtain ⟨call, err, hpc⟩ := h.waits n hold
    refine ⟨call, err, ?_⟩
    rw [← hpc]
    refine app_of_other ?_ ?_ hstep
    · rintro c rfl
      simp [step, apiStart, hpc] at hstep
    · rintro env rfl
      simp [step, appStep, connStep, hpc, hold] at hstep
  · exact ⟨call, err, hpc'⟩

theorem ret_step {s s' : State} {a : Act} {n call : ℕ} (h : CallInv s) (hsafe : callSafe s a)
    (hstep : step s a = some s') (hpc' : s'.app n = .connect call (.ret 0)) : Pledged call s' := by
  obtain hpc | hput | ⟨env, p, rfl, hpc, hconn⟩ := connect_of_step hstep hpc'
  · exact pledged_step hstep hsafe (answered_of_returning hpc) (h.ret n call hpc)
  · cases hput
  · obtain ⟨_, hp | hp, _⟩ | ⟨_, hp, _⟩ | ⟨err, rfl, ⟨hp, htokens, _⟩ | ⟨hp, _⟩⟩ |
      ⟨err, rfl, hout, hp, _⟩ := connStep_cases hconn
    · cases hp
    · cases hp
    · cases hp
    · cases hp
      have hawait : (s.app n).awaiting = some call := by rw [hpc]; rfl
      exact pledged_step hstep hsafe (answered_of_token hawait htokens)
        ((h.own n call hawait).token htokens)
    · cases hp
    · cases hp
      exact pledged_step hstep hsafe (answered_of_woken hpc hout) (h.woken n call hpc hout)

theorem result_step {s s' : State} {a : Act} (h : CallInv s) (hsafe : callSafe s a)
    (hstep : step s a = some s') : ConnectResult s' := by
  intro r hr herr
  obtain hold | ⟨n, env, call, err, rfl, hpc, hnew⟩ := returns_of_step hstep hr
  · obtain ⟨hacked, hup⟩ := h.result r hold herr
    exact ⟨step_acks hstep hacked, hup⟩
  · rw [hnew] at herr ⊢
    change err = 0 at herr
    subst herr
    have hpledged := h.ret n call hpc
    refine ⟨step_acks hstep hpledged.acked, hpledged.up.elim id fun hgiven => ?_⟩
    simpa [callSafeAt, hpc, hgiven] using hsafe n

theorem callInv_step (s : State) (a : Act) (s' : State) (h : CallInv s) (hsafe : callSafe s a)
    (hstep : machine.step s a = some s') : CallInv s' := by
  refine ⟨queueInv_step s a s' h.queue hstep, executes_step h hstep, ?_,
    fun n call => woken_step h hsafe hstep, fun n => waits_step h hstep,
    fun n call => ret_step h hsafe hstep, result_step h hsafe hstep⟩
  intro n call hawait
  obtain hold | ⟨env, rfl, hput⟩ := awaiting_of_step hstep hawait
  · exact own_step h hsafe hstep hold
  · exact own_of_free h hput hsafe hstep

/-- In every run whose steps all meet the condition, a gcloud_connect that returns 0 has
its own CONNACK in, and `connected` is true when it returns. -/
theorem connect_result_of_callSafe {s : State} (h : ReachableUnder machine callSafe s) :
    ConnectResult s := (reachableUnder_invariant callInv_start callInv_step h).result

theorem callSafe_of_first {s : State} {a : Act} (hidle : ∀ n, n ≠ 0 → s.app n = .idle)
    (ha : a.ofFirst = true) (hfirst : callSafeAt s 0 a = true) : callSafe s a := by
  intro n
  by_cases hn : n = 0
  · rw [hn]
    exact hfirst
  have hpc := hidle n hn
  have hnot : ¬ Answered s n := by simp [Answered, hpc, AppPc.returning, AppPc.taking,
    AppPc.awaiting]
  cases a with
  | start m c | timer => rfl
  | timeout t => simp [callSafeAt, hpc, AppPc.taking]
  | app m env =>
    have hm : m ≠ n := by
      rintro rfl
      exact hn (of_decide_eq_true ha)
    simp only [callSafeAt]
    split <;> simp [hm, hpc, AppPc.awaiting]
  | gcloud env =>
    simp only [callSafeAt]
    split <;> simp [hnot, hpc, AppPc.awaiting]
  | mqtt env =>
    simp only [callSafeAt]
    split <;> simp [hpc, AppPc.awaiting]

/-- One gcloud_connect, whose CONNACK is in before it looks for the token. -/
def connectAndReturn : List Act := handshake ++ List.replicate 2 (.app 0 {})

theorem connect_result_after_return :
    ∃ s, (∃ r ∈ s.returns, r.err = 0) ∧ ConnectResult s := by
  obtain ⟨s, hrun, hs⟩ := exists_reachableUnder_of_exec (M := machine)
    (C := fun s a => a.ofFirst = true ∧ callSafeAt s 0 a = true)
    (p := fun s => s.returns.any fun r => r.err = 0) connectAndReturn (by decide)
  have hsafe : ReachableUnder machine callSafe s := by
    refine Path.mono_of_invariant (I := fun t => ∀ n, n ≠ 0 → t.app n = .idle) ?_ ?_ hrun
      fun _ _ => rfl
    · exact fun t a u ht hc hstep n hn => (app_of_ofFirst hc.1 hstep hn).trans (ht n hn)
    · exact fun t a ht hc => callSafe_of_first ht hc.1 hc.2
  exact ⟨s, by simpa using hs, connect_result_of_callSafe hsafe⟩

/-- No CONNACK comes within 100 s, and the result of k_sem_take is not looked at. -/
def connectTimesOut : List Act :=
  [.start 0 .connect, .app 0 {}, .app 0 {}, .timeout (.app 0), .app 0 {}, .app 0 {}]

theorem connect_result_unanswered : ¬ ∀ s, Reachable machine s → ConnectResult s := by
  intro hall
  obtain ⟨s, hreach, hs⟩ := exists_reachable_of_exec (M := machine)
    (p := fun s => s.returns.any fun r => r.err = 0 && s.acks.isEmpty) connectTimesOut (by decide)
  obtain ⟨r, hr, hbad⟩ := List.any_eq_true.mp hs
  simp only [Bool.and_eq_true, decide_eq_true_eq, List.isEmpty_iff] at hbad
  have hacked := (hall s hreach r hr hbad.1).1
  rw [hbad.2] at hacked
  cases hacked

end NcsProjects.Gcloud
