import NcsProjects.GcloudConnectResult
import NcsProjects.GcloudQueueCalls
import NcsProjects.GcloudSessions

/-!
The subscription of a session. The handler of an accepted CONNACK queues a SUBSCRIBE
command, and gcloud_thread calls mqtt_subscribe when it dispatches the command while
`connected`. A log beside the run speaks of the last session that came up: whether the
handler of its CONNACK has finished, and whether mqtt_subscribe has been called on it.
As long as the session is up, the command is not lost on the way: a purge belongs to
the loss of a session, and `connected` is cleared only to end the session.
-/
namespace NcsProjects.Gcloud

open MessageQueues TransitionRuns

/-- The last step of the handler of an accepted CONNACK. -/
def finishesConnack (s : State) : Act → Bool
  | .mqtt env =>
    match s.mqtt with
    | .connack _ .putSubscribe => (s.kernel.put env.pos .mqtt .subscribe).1
    | .connack _ .putWait => true
    | _ => false
  | _ => false

/-- The step is the body of mqtt_subscribe, called on a session that is up. -/
def subscribes (s : State) : Act → Bool
  | .gcloud _ => s.gcloud = .call .subscribe .body && s.client.session = .connected
  | _ => false

/-- What happened to the last session that came up. -/
structure SessionLog where
  finished : Bool
  subscribed : Bool

def SessionLog.start : SessionLog := ⟨false, false⟩

def noteSession (s : State) (a : Act) (h : SessionLog) : SessionLog :=
  if accepts s a then SessionLog.start
  else ⟨h.finished || finishesConnack s a, h.subscribed || subscribes s a⟩

def sessionMachine : Machine (State × SessionLog) Act :=
  machine.recorded noteSession SessionLog.start

/-- A thread that waits in k_msgq_put is not woken by its timeout. -/
def putsLast (s : State) : Act → Bool
  | .timeout t => t ∉ s.kernel.msgq.writers.map Prod.fst
  | _ => true

/-- The handler of the CONNACK is behind the write of `connected`. -/
def MqttPc.marked : MqttPc → Bool
  | .connack _ .give | .connack _ .setConnected => false
  | .connack _ _ => true
  | _ => false

/-- The subscription is done, under way, or still to be dispatched. -/
inductive Owed (t : State × SessionLog) : Prop
  | subscribed (h : t.2.subscribed = true)
  | queued (h : .subscribe ∈ t.1.kernel.msgq.buf)
  | dequeued (hevent : t.1.kernel.event = some .subscribe)
      (hg : t.1.gcloud = .dispatch ∨ t.1.gcloud = .wait ∧ t.1.kernel.msgq.readers = [])
  | calling (p : CallPc) (hp : p = .lock ∨ p = .lockWait ∨ p = .body)
      (hg : t.1.gcloud = .call .subscribe p)

structure SubscribeInv (t : State × SessionLog) : Prop where
  flagged : t.1.client.session = .connected → t.1.mqtt.marked = true ∨ t.2.finished = true →
    t.1.connected = true ∨ t.1.gcloud.phase = .closing
  waits : t.1.client.session = .connected → ∀ rev, t.1.mqtt = .connack rev .putWait →
    Owed t ∨ (.mqtt, .subscribe) ∈ t.1.kernel.msgq.writers
  finished : t.1.client.session = .connected → t.2.finished = true → Owed t

theorem subscribeInv_init : SubscribeInv sessionMachine.init :=
  ⟨(by rintro ⟨⟩), (by rintro ⟨⟩), (by rintro ⟨⟩)⟩

theorem noteSession_of_not {s : State} {a : Act} {h : SessionLog} (hacc : accepts s a = false) :
    noteSession s a h = ⟨h.finished || finishesConnack s a, h.subscribed || subscribes s a⟩ := by
  simp [noteSession, hacc]

/-- With the session that comes up the log starts again, and the handler of its CONNACK. -/
theorem mqtt_of_accepts {s s' : State} {a : Act} (h : step s a = some s')
    (hacc : accepts s a = true) : ∃ rev, s'.mqtt = .connack rev .give := by
  obtain ⟨rev, _, rfl⟩ := accepts_cases h hacc
  exact ⟨rev, rfl⟩

theorem return_marked (c : MqttCall) (rev : Revents) (ok : Bool) :
    (c.return rev ok).marked = false := by
  cases c with
  | ping | release => rfl
  | live | input =>
    simp only [MqttCall.return, endLoop]
    repeat' split
    all_goals rfl
  | ack len | read off want =>
    simp only [MqttCall.return]
    split <;> rfl

theorem inputBody_marked {rev : Revents} {packet : Packet} {s s' : State}
    (h : inputBody rev packet s = some s') : s'.mqtt.marked = false := by
  cases packet with
  | connack accepted => cases accepted <;> cases h; rfl
  | publish qos1 len =>
    cases qos1 with
    | true =>
      cases h
      rfl
    | false =>
      cases h
      exact return_marked (.ack len) rev true
  | pubrec | other =>
    cases h
    rfl
  | lost => cases h

theorem mqttBody_marked {c : MqttCall} {rev : Revents} {env : Env} {s s' : State}
    (h : mqttBody c rev env s = some s') : s'.mqtt.marked = false := by
  cases c with
  | live =>
    simp only [mqttBody] at h
    split at h <;> cases h <;> rfl
  | input =>
    simp only [mqttBody] at h
    split at h
    · cases h
      rfl
    · exact inputBody_marked h
  | ping | ack len | release =>
    simp only [mqttBody] at h
    split at h
    · cases h
      rfl
    · split at h <;> cases h
      rfl
  | read off want =>
    simp only [mqttBody] at h
    split at h
    · cases h
      rfl
    · split at h
      · split at h <;> cases h <;> rfl
      · cases h

/-- Behind the write of `connected` the handler of the CONNACK gets by its own steps. -/
theorem connack_of_marked {env : Env} {s s' : State} (h : mqttStep env s = some s')
    (hmark : s'.mqtt.marked = true) :
    ∃ rev p, s.mqtt = .connack rev p ∧ connackStep env rev p s = some s' := by
  cases hm : s.mqtt with
  | absent | dead | overrun => simp [mqttStep, hm] at h
  | poll =>
    simp only [mqttStep, hm, Option.some.injEq] at h
    subst h
    dsimp only at hmark
    split at hmark <;> cases hmark
  | connack rev p =>
    simp only [mqttStep, hm] at h
    exact ⟨rev, p, rfl, h⟩
  | call c rev p =>
    simp only [mqttStep, hm] at h
    cases p with
    | lock | lockWait | relock ok | relockWait ok =>
      simp only [mqttCall] at h
      split at h <;> cases h <;> cases hmark
    | unlock ok =>
      cases h
      rw [return_marked] at hmark
      cases hmark
    | body =>
      obtain hbody | ⟨_, rfl⟩ := mqttCall_body_cases h
      · rw [mqttBody_marked hbody] at hmark
        cases hmark
      · cases hmark
    | disc a q =>
      cases q with
      | stopTimer | purge | abort | leave =>
        cases h
        cases hmark
      | check =>
        simp only [mqttCall, mqttDisc] at h
        split at h <;> cases h <;> cases hmark
      | connect q => cases h

theorem marked_of_mqttStep {env : Env} {s s' : State} (h : mqttStep env s = some s')
    (hmark : s'.mqtt.marked = true) : s.mqtt.marked = true ∨ s'.connected = true := by
  obtain ⟨rev, p, hm, hconn⟩ := connack_of_marked h hmark
  rw [hm]
  cases p with
  | give =>
    cases hconn
    cases hmark
  | setConnected =>
    cases hconn
    exact Or.inr rfl
  | clearConnecting | startTimer | putSubscribe | putWait => exact Or.inl rfl

/-- The mqtt thread comes to the wait of its put by the put. -/
theorem putWait_of_mqttStep {env : Env} {s s' : State} {rev : Revents}
    (h : mqttStep env s = some s') (hm' : s'.mqtt = .connack rev .putWait) :
    s.kernel.put env.pos .mqtt .subscribe = (false, s'.kernel) := by
  obtain ⟨rev', p, _, hconn⟩ := connack_of_marked h (by rw [hm']; rfl)
  cases p with
  | give | setConnected | clearConnecting | startTimer =>
    cases hconn
    cases hm'
  | putSubscribe =>
    simp only [connackStep] at hconn
    split at hconn <;> rename_i hput <;> cases hconn
    · cases hm'
    · exact hput
  | putWait =>
    simp only [connackStep] at hconn
    split at hconn <;> cases hconn
    cases hm'

/-- Once it is closing, the gcloud thread ends the session in the body of mqtt_disconnect. -/
theorem gcloudStep_closing {env : Env} {s s' : State} (h : gcloudStep env s = some s')
    (hup : s.client.session = .connected) (hclosing : s.gcloud.phase = .closing) :
    s'.client.session = .closed ∨ s'.gcloud.phase = .closing := by
  cases hg : s.gcloud with
  | markConnecting =>
    simp only [gcloudStep, hg, Option.some.injEq] at h
    subst h
    exact Or.inr rfl
  | call c p =>
    cases c with
    | disconnect =>
      simp only [gcloudStep, hg] at h
      cases p with
      | lock | lockWait =>
        simp only [gcloudCall] at h
        split at h <;> cases h <;> exact Or.inr rfl
      | body =>
        simp only [gcloudCall, gcloudBody, hup] at h
        cases h
        exact Or.inl rfl
      | disc a q =>
        rw [hg] at hclosing
        cases q with
        | connect r => cases r <;> cases hclosing
        | stopTimer | purge | check | abort | leave => cases hclosing
      | relock ok | relockWait ok | unlock ok =>
        rw [hg] at hclosing
        cases hclosing
    | connect | publish m id | subscribe =>
      rw [hg] at hclosing
      cases hclosing
  | get | wait | dispatch | clientInit | setConnecting | create | stopTimer | clearConnected =>
    rw [hg] at hclosing
    cases hclosing

/-- `connected` goes out on the way into mqtt_disconnect only. -/
theorem flag_of_gcloudStep {env : Env} {s s' : State} (h : gcloudStep env s = some s')
    (hup : s.client.session = .connected) (hup' : s'.client.session = .connected)
    (hflag : s.connected = true ∨ s.gcloud.phase = .closing) :
    s'.connected = true ∨ s'.gcloud.phase = .closing := by
  rcases hflag with hc | hclosing
  · rcases (gcloudStep_effect h).connected with hsame | hg
    · exact Or.inl (hsame.trans hc)
    · simp only [gcloudStep, hg, Option.some.injEq] at h
      subst h
      exact Or.inr rfl
  · rcases gcloudStep_closing h hup hclosing with hclosed | hclosing'
    · rw [hclosed] at hup'
      cases hup'
    · exact Or.inr hclosing'

/-- What the step lemmas below know of a step that keeps a session up. -/
structure KeptUp (t : State × SessionLog) (a : Act) (t' : State × SessionLog) : Prop where
  step : step t.1 a = some t'.1
  up : t.1.client.session = .connected
  up' : t'.1.client.session = .connected
  log : t'.2 = ⟨t.2.finished || finishesConnack t.1 a, t.2.subscribed || subscribes t.1 a⟩
  queue : QueueInv t.1
  loss : LossInv t.1

variable {t t' : State × SessionLog} {a : Act}

theorem KeptUp.not_purges (h : KeptUp t a t') : purges t.1 a = false := by
  by_contra hp
  have hp : purges t.1 a = true := by simpa using hp
  refine h.loss.down ?_ h.up
  rcases purge_cases hp h.step with ⟨_, c, b, _, hg, _⟩ | ⟨_, c, rev, b, _, hm, _⟩
  · exact Or.inl (by simp [hg, GcloudPc.handler])
  · exact Or.inr (by simp [hm, MqttPc.handler])

theorem marked_of_finishes {s : State} {env : Env} (h : finishesConnack s (.mqtt env) = true) :
    s.mqtt.marked = true := by
  simp only [finishesConnack] at h
  split at h
  · rename_i hm
    rw [hm]
    rfl
  · rename_i hm
    rw [hm]
    rfl
  · cases h

theorem flagged_step (h : KeptUp t a t') (hinv : SubscribeInv t)
    (hmark : t'.1.mqtt.marked = true ∨ t'.2.finished = true) :
    t'.1.connected = true ∨ t'.1.gcloud.phase = .closing := by
  have hfinished : finishesConnack t.1 a = false → t'.2.finished = true →
      t.2.finished = true := by
    intro hnot hfin
    rw [h.log] at hfin
    simpa [hnot] using hfin
  cases a with
  | start n c | app n env | timer | timeout u =>
    have hf := outside_frame rfl h.step
    rw [hf.connected, hf.gcloud]
    rw [hf.mqtt] at hmark
    exact hinv.flagged h.up (hmark.imp_right (hfinished rfl))
  | gcloud env =>
    refine flag_of_gcloudStep h.step h.up h.up' (hinv.flagged h.up ?_)
    refine hmark.imp ?_ (hfinished rfl)
    intro hm
    rcases gcloudStep_mqtt h.step with hsame | hpoll | hdead
    · exact hsame ▸ hm
    · rw [hpoll] at hm
      cases hm
    · rw [hdead] at hm
      cases hm
  | mqtt env =>
    have hstep : mqttStep env t.1 = some t'.1 := h.step
    rw [mqttStep_gcloud hstep]
    rcases mqttStep_connected hstep with hsame | ⟨_, hset⟩
    · rcases hmark with hm | hfin
      · rcases marked_of_mqttStep hstep hm with hold | hset
        · rw [hsame]
          exact hinv.flagged h.up (Or.inl hold)
        · exact Or.inl hset
      · rw [hsame]
        refine hinv.flagged h.up ?_
        by_cases hends : finishesConnack t.1 (.mqtt env) = true
        · exact Or.inl (marked_of_finishes hends)
        · exact Or.inr (hfinished (by simpa using hends) hfin)
    · exact Or.inl hset

/-- A command stays in the queue until k_msgq_get takes it out, if it is not purged. -/
theorem queued_of_step {s s' : State} {a : Act} {e : GcloudEvent} (h : step s a = some s')
    (hpurge : purges s a = false) (he : e ∈ s.kernel.msgq.buf) :
    e ∈ s'.kernel.msgq.buf ∨ s'.kernel.event = some e ∧ s'.gcloud = .dispatch := by
  cases step_queue h with
  | keeps hk => exact Or.inl (hk.buf he)
  | get _ _ k hk =>
    obtain ⟨m, hevent, _, hrest, _⟩ := Kernel.get_cases hk
    rcases hrest e he with rfl | hmem
    · exact Or.inr ⟨hevent, rfl⟩
    · exact Or.inl hmem
  | pend _ _ hk =>
    rw [Kernel.get_none hk] at he
    cases he
  | gcloudPurge env c b hg => simp [purges, hg] at hpurge
  | mqttPurge env c rev b hm => simp [purges, hm] at hpurge

theorem KeptUp.owed_of_subscribed (h : KeptUp t a t') (hdone : t.2.subscribed = true) :
    Owed t' := by
  apply Owed.subscribed
  rw [h.log]
  simp [hdone]

theorem KeptUp.owed_of_queued (h : KeptUp t a t') (hmem : .subscribe ∈ t.1.kernel.msgq.buf) :
    Owed t' := by
  rcases queued_of_step h.step h.not_purges hmem with hqueued | ⟨hevent, hg⟩
  · exact .queued hqueued
  · exact .dequeued hevent (Or.inl hg)

/-- Dispatched while `connected`, the SUBSCRIBE command becomes a call of mqtt_subscribe,
and the body of the call meets a session that is up. -/
theorem owed_gcloud {env : Env} (h : KeptUp t (.gcloud env) t')
    (hflag : t.1.connected = true ∨ t.1.gcloud.phase = .closing) (howed : Owed t) : Owed t' := by
  have hstep : gcloudStep env t.1 = some t'.1 := h.step
  cases howed with
  | subscribed hdone => exact h.owed_of_subscribed hdone
  | queued hmem => exact h.owed_of_queued hmem
  | dequeued hevent hg =>
    rcases hg with hg | ⟨hg, hnil⟩
    · simp only [gcloudStep, hg, Option.some.injEq] at hstep
      have hc : t.1.connected = true := by
        refine hflag.resolve_right ?_
        rw [hg]
        rintro ⟨⟩
      apply Owed.calling .lock (Or.inl rfl)
      rw [← hstep]
      simp [dispatch, hevent, hc]
    · simp only [gcloudStep, hg, hnil, List.not_mem_nil, if_false, Option.some.injEq] at hstep
      apply Owed.dequeued
      · rw [← hstep]
        exact hevent
      · rw [← hstep]
        exact Or.inl rfl
  | calling p hp hg =>
    simp only [gcloudStep, hg] at hstep
    rcases hp with rfl | rfl | rfl
    · simp only [gcloudCall] at hstep
      split at hstep <;> simp only [Option.some.injEq] at hstep
      · refine .calling .body (Or.inr (Or.inr rfl)) ?_
        rw [← hstep]
      · refine .calling .lockWait (Or.inr (Or.inl rfl)) ?_
        rw [← hstep]
    · simp only [gcloudCall] at hstep
      split at hstep <;> simp only [Option.some.injEq, reduceCtorEq] at hstep
      refine .calling .body (Or.inr (Or.inr rfl)) ?_
      rw [← hstep]
    · apply Owed.subscribed
      rw [h.log]
      simp [subscribes, hg, h.up]

/-- Any other thread leaves the way of the SUBSCRIBE command to the gcloud thread. -/
theorem owed_step (h : KeptUp t a t')
    (hflag : t.1.connected = true ∨ t.1.gcloud.phase = .closing) (howed : Owed t) : Owed t' := by
  by_cases ha : ∃ env, a = .gcloud env
  · obtain ⟨env, rfl⟩ := ha
    exact owed_gcloud h hflag howed
  · have hother : ∀ env, a ≠ .gcloud env := fun env he => ha ⟨env, he⟩
    have hg' := gcloud_of_other hother h.step
    cases howed with
    | subscribed hdone => exact h.owed_of_subscribed hdone
    | queued hmem => exact h.owed_of_queued hmem
    | dequeued hevent hg =>
      have hnil : t.1.kernel.msgq.readers = [] := by
        rcases hg with hg | ⟨_, hnil⟩
        · apply h.queue.readers_nil
          rw [hg]
          rintro ⟨⟩
        · exact hnil
      obtain ⟨hevent', hnil'⟩ := event_of_other hother h.step hnil
      apply Owed.dequeued (hevent'.trans hevent)
      rw [hg']
      exact hg.imp_right fun hg => ⟨hg.1, hnil'⟩
    | calling p hp hg => exact .calling p hp (hg'.trans hg)

/-- While the put of the CONNACK's handler waits, its command is owed or waits with it. -/
theorem putWait_step (h : KeptUp t a t') (hinv : SubscribeInv t) (hlast : putsLast t.1 a = true)
    {rev : Revents} (hm' : t'.1.mqtt = .connack rev .putWait) :
    Owed t' ∨ (.mqtt, .subscribe) ∈ t'.1.kernel.msgq.writers := by
  by_cases ha : ∃ env, a = .mqtt env
  · obtain ⟨env, rfl⟩ := ha
    have hput := putWait_of_mqttStep h.step hm'
    exact Or.inr (Kernel.mem_put_writers hput)
  · have hother : ∀ env, a ≠ .mqtt env := fun env he => ha ⟨env, he⟩
    have hm : t.1.mqtt = .connack rev .putWait := by
      rcases mqtt_of_other hother h.step with hsame | hpoll | hdead
      · rw [← hsame, hm']
      · rw [hm'] at hpoll
        cases hpoll
      · rw [hm'] at hdead
        cases hdead
    rcases hinv.waits h.up rev hm with howed | hw
    · exact Or.inl (owed_step h (hinv.flagged h.up (Or.inl (by rw [hm]; rfl))) howed)
    · have hcancel : queueCall t.1 a ≠ .cancel .mqtt := by
        intro hcall
        rcases cancels_of_step h.step hcall with ⟨rfl, hmem⟩ | ⟨_, hdead⟩
        · simp only [putsLast, decide_eq_true_eq] at hlast
          exact hlast hmem
        · rw [hm'] at hdead
          cases hdead
      have hpurge : queueCall t.1 a ≠ .purge := by
        intro hcall
        have hp := queueCall_purge hcall
        rw [h.not_purges] at hp
        cases hp
      rw [(step_follows h.step).msgq]
      rcases QueueCall.exec_writers hw hpurge hcancel with hwaits | hmem
      · exact Or.inr hwaits
      · refine Or.inl (.queued ?_)
        rw [(step_follows h.step).msgq]
        exact hmem

/-- The handler of the CONNACK leaves the SUBSCRIBE command in the queue, or in the hands
of the gcloud thread. -/
theorem finishes_step {env : Env} (h : KeptUp t (.mqtt env) t') (hinv : SubscribeInv t)
    (hends : finishesConnack t.1 (.mqtt env) = true) : Owed t' := by
  have hstep : mqttStep env t.1 = some t'.1 := h.step
  have hg := mqttStep_gcloud hstep
  have hmark := marked_of_finishes hends
  simp only [finishesConnack] at hends
  split at hends
  · rename_i rev hm
    simp only [mqttStep, hm, connackStep] at hstep
    split at hstep <;> rename_i hput
    · rename_i k
      have hk : t'.1.kernel = k := (congrArg State.kernel (Option.some.inj hstep)).symm
      rcases Kernel.put_cases hput with hmem | ⟨hevent, r, hreaders⟩
      · exact .queued (hk ▸ hmem)
      · rcases h.queue.reads with hnil | ⟨hone, hwait⟩
        · rw [hnil] at hreaders
          cases hreaders
        · rw [hone] at hreaders
          refine .dequeued (hk ▸ hevent) (Or.inr ⟨hg.trans hwait, ?_⟩)
          rw [hk]
          exact (List.cons.inj hreaders).2.symm
    · rw [hput] at hends
      cases hends
  · rename_i rev hm
    simp only [mqttStep, hm, connackStep] at hstep
    split at hstep
    · rename_i hdone
      rcases hinv.waits h.up rev hm with howed | hw
      · exact owed_step h (hinv.flagged h.up (Or.inl hmark)) howed
      · exact absurd (List.mem_map_of_mem hw) hdone
    · cases hstep
  · cases hends

theorem finished_step (h : KeptUp t a t') (hinv : SubscribeInv t) (hfin : t'.2.finished = true) :
    Owed t' := by
  rw [h.log, Bool.or_eq_true] at hfin
  rcases hfin with hold | hends
  · exact owed_step h (hinv.flagged h.up (Or.inr hold)) (hinv.finished h.up hold)
  · cases a with
    | mqtt env => exact finishes_step h hinv hends
    | start n c | app n env | gcloud env | timer | timeout u => cases hends

/-- With the session that comes up, all that the invariant speaks of is still to come. -/
theorem subscribeInv_accepts {s s' : State} {h : SessionLog} (hs : step s a = some s')
    (hacc : accepts s a = true) : SubscribeInv (s', noteSession s a h) := by
  obtain ⟨rev, hm⟩ := mqtt_of_accepts hs hacc
  have hlog : noteSession s a h = SessionLog.start := by simp [noteSession, hacc]
  rw [hlog]
  refine ⟨?_, ?_, ?_⟩
  · rintro _ (hmark | hfin)
    · rw [hm] at hmark
      cases hmark
    · cases hfin
  · intro _ rev' hm'
    rw [hm] at hm'
    cases hm'
  · rintro _ ⟨⟩

theorem subscribeInv_step (hq : QueueInv t.1) (hloss : LossInv t.1) (hinv : SubscribeInv t)
    (hlast : putsLast t.1 a = true) (hstep : sessionMachine.step t a = some t') :
    SubscribeInv t' := by
  obtain ⟨hs, hnote⟩ := Machine.recorded_step hstep
  change step t.1 a = some t'.1 at hs
  by_cases hacc : accepts t.1 a = true
  · obtain ⟨s', h'⟩ := t'
    cases hnote
    exact subscribeInv_accepts hs hacc
  · have hacc : accepts t.1 a = false := by simpa using hacc
    have hkept : t'.1.client.session = .connected → KeptUp t a t' := by
      intro hup'
      have hup := (session_of_step hs hup').resolve_right (by simp [hacc])
      exact ⟨hs, hup, hup', hnote.trans (noteSession_of_not hacc), hq, hloss⟩
    exact ⟨fun hup hmark => flagged_step (hkept hup) hinv hmark,
      fun hup _ hm => putWait_step (hkept hup) hinv hlast hm,
      fun hup hfin => finished_step (hkept hup) hinv hfin⟩

/-- What holds of the threads in every run holds beside the log. -/
theorem facts_of_session {t : State × SessionLog} (h : Reachable sessionMachine t) :
    QueueInv t.1 ∧ LossInv t.1 := by
  refine reachable_invariant (I := fun t => QueueInv t.1 ∧ LossInv t.1)
    ⟨queueInv_start, lossInv_start⟩ ?_ h
  intro t a t' hfacts hstep
  obtain ⟨hs, _⟩ := Machine.recorded_step hstep
  exact ⟨queueInv_step _ _ _ hfacts.1 hs, lossInv_step _ _ _ hfacts.2 hs⟩

theorem subscribeInv_of_putsLast
    (h : ReachableUnder sessionMachine (fun t a => putsLast t.1 a = true) t) : SubscribeInv t := by
  refine TransitionRuns.Path.preserves_of_reachable (fun _ => facts_of_session) ?_
    (reachable_init _) h subscribeInv_init
  intro t a t' hfacts hinv hlast hstep
  exact subscribeInv_step hfacts.1 hfacts.2 hinv hlast hstep

/-- In every run without a timeout of a put: while the queue is empty and the gcloud thread
waits for a command, a session that is up and whose CONNACK has been handled has had its
call of mqtt_subscribe. -/
theorem subscribed_of_putsLast {t : State × SessionLog}
    (h : ReachableUnder sessionMachine (fun t a => putsLast t.1 a = true) t)
    (hempty : t.1.kernel.msgq.buf = []) (hwaits : .gcloud ∈ t.1.kernel.msgq.readers)
    (hup : t.1.client.session = .connected) (hfin : t.2.finished = true) :
    t.2.subscribed = true := by
  have hq := (facts_of_session (ReachableUnder.reachable h)).1
  have hg : t.1.gcloud = .wait := by
    rcases hq.reads with hnil | ⟨_, hg⟩
    · rw [hnil] at hwaits
      cases hwaits
    · exact hg
  cases (subscribeInv_of_putsLast h).finished hup hfin with
  | subscribed hdone => exact hdone
  | queued hmem =>
    rw [hempty] at hmem
    cases hmem
  | dequeued _ hout =>
    rcases hout with hd | ⟨_, hnil⟩
    · rw [hg] at hd
      cases hd
    · rw [hnil] at hwaits
      cases hwaits
  | calling p _ hc =>
    rw [hg] at hc
    cases hc

/-- After the first handshake gcloud_thread subscribes and waits for the next command. -/
theorem subscribed_of_handshake : ∃ t : State × SessionLog,
    t.1.client.session = .connected ∧ t.2.finished = true ∧ t.2.subscribed = true := by
  obtain ⟨t, hrun, ht⟩ := exists_reachableUnder_of_exec (M := sessionMachine)
    (C := fun t a => putsLast t.1 a = true)
    (p := fun t => decide (t.1.kernel.msgq.buf = [] ∧ .gcloud ∈ t.1.kernel.msgq.readers ∧
      t.1.client.session = .connected ∧ t.2.finished = true))
    (handshake ++ List.replicate 6 (.gcloud {})) (by decide)
  obtain ⟨hempty, hwaits, hup, hfin⟩ := of_decide_eq_true ht
  exact ⟨t, hup, hfin, subscribed_of_putsLast hrun hempty hwaits hup hfin⟩

end NcsProjects.Gcloud
