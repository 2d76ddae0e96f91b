import NcsProjects.GcloudLocking

/-!
The mutex that an abort leaves behind. k_thread_abort takes the mqtt thread out of the
queue of the client's mutex and leaves it the locks that it holds, so a thread that is
aborted inside a library call keeps the gcloud thread out of the library for ever. As
long as only a thread without locks is aborted, the owner of the mutex is running, and
whoever waits for it gets it.
-/
namespace NcsProjects.Gcloud

open RecursiveMutexes PublishPayload TransitionRuns

/-- The owner of the mutex is a thread that lives, and what the mqtt thread holds it is
going to give back. -/
structure MutexLives (s : State) : Prop where
  owner : ∀ t, s.client.mutex.level t ≠ 0 → t = .gcloud ∨ t = .mqtt ∧ s.mqtt.alive = true
  returned : s.client.mutex.level .mqtt ≤ s.mqtt.share

/-- The gcloud thread is blocked in mqtt_publish, mqtt_subscribe or mqtt_disconnect, or
on its way back from the handler. -/
def AwaitsMutex (s : State) : Prop :=
  s.gcloud.waits = true ∧ s.client.mutex.heldBy .gcloud = false

/-- Where a thread is aborted, it holds no lock: the mqtt thread does not abort itself in
a failing mqtt_ping, and the gcloud thread aborts it only outside of its library calls. -/
def abortSafe (s : State) : Act → Bool
  | .mqtt _ =>
    match s.mqtt with
    | .call .ping _ (.disc _ .abort) => false
    | _ => true
  | .gcloud _ =>
    match s.gcloud with
    | .call _ (.disc _ .abort) => s.mqtt.share = 0
    | _ => true
  | _ => true

def Act.isMqtt : Act → Bool
  | .mqtt _ => true
  | _ => false

def Act.isGcloud : Act → Bool
  | .gcloud _ => true
  | _ => false

/-- The steps that mqtt_ping still makes until mqtt_live gives up its lock. -/
def CallPc.pingRest : CallPc → ℕ
  | .lock => 11
  | .lockWait => 10
  | .body => 9
  | .disc _ .stopTimer => 8
  | .disc _ .purge => 7
  | .disc _ .check => 6
  | .disc _ _ => 5
  | .relock _ => 4
  | .relockWait _ => 3
  | .unlock _ => 2

/-- A bound on the steps of the mqtt thread until it has given up all of its locks. -/
def MqttPc.rest : MqttPc → ℕ
  | .call .ping _ p => p.pingRest
  | .call _ _ .lockWait => 13
  | .call _ _ .body => 12
  | .call _ _ (.relockWait _) => 2
  | .call _ _ (.unlock _) => 1
  | _ => 0

/-- The wait for the mutex ends: the mqtt thread can run, and when it has made its
steps, in whatever order with the steps of the other threads and within the condition,
the gcloud thread has the mutex. Nothing is said of an mqtt thread that has written
beyond payload_buf. -/
structure GetsMutex (s : State) : Prop where
  runs : s.mqtt ≠ .overrun → ∀ env, (mqttStep env s).isSome = true
  gets : ∀ actions t, exec (restrict machine fun s a => abortSafe s a = true) s actions = some t →
    actions.all (fun a => !a.isGcloud) = true → s.mqtt.rest ≤ actions.countP Act.isMqtt →
    t.client.mutex.heldBy .gcloud = true ∨ t.mqtt = .overrun

theorem waits_locks {pc : MqttPc} (h : pc.waits = true) : pc.locks = 0 := by
  cases pc with
  | absent | dead | overrun | poll => cases h
  | connack rev p => cases h
  | call c rev p =>
    cases c with
    | ping => cases h
    | live | input | ack len | read off want | release =>
      cases p with
      | lockWait | relockWait ok => rfl
      | lock | body | disc a q | relock ok | unlock ok => cases h

theorem share_of_queued {pc : MqttPc} (h : pc.queued = true) : pc.share ≠ 0 := by
  cases pc with
  | absent | dead | overrun | poll => cases h
  | connack rev p => cases h
  | call c rev p =>
    cases p with
    | lockWait | relockWait ok => cases c <;> exact Nat.succ_ne_zero _
    | lock | body | disc a q | relock ok | unlock ok => cases h

theorem alive_of_share {pc : MqttPc} (h : pc.share ≠ 0) : pc.alive = true := by
  cases pc with
  | absent | dead => exact absurd rfl h
  | overrun | poll => rfl
  | connack rev p => cases p <;> rfl
  | call c rev p =>
    cases p with
    | disc a q => cases q <;> rfl
    | lock | lockWait | body | relock ok | relockWait ok | unlock ok => rfl

/-- What a step of the mqtt thread makes of its share. -/
theorem share_of_waits {pc : MqttPc} {w : Bool} (h : pc.waits = w) :
    pc.share = if w then 1 else pc.locks := by
  unfold MqttPc.share
  cases w with
  | true => simp [h, waits_locks h]
  | false => simp [h]

structure ShareInv (s : State) : Prop where
  gcloud : s.client.mutex.Stands .gcloud s.gcloud.waits s.gcloud.locks
  level : s.client.mutex.level .mqtt ≤ s.mqtt.share
  queued : .mqtt ∈ s.client.mutex.waiters → s.mqtt.queued = true
  others : ∀ t, t ≠ .gcloud → t ≠ .mqtt → s.client.mutex.Stands t false 0
  handler : ∀ c rev a p, s.mqtt ≠ .call c rev (.disc a (.connect p))

theorem shareInv_start : ShareInv State.start :=
  ⟨⟨List.not_mem_nil, rfl⟩, Nat.le_refl _, (by rintro ⟨⟩),
    fun _ _ _ => ⟨List.not_mem_nil, rfl⟩, (by rintro c rev a p ⟨⟩)⟩

/-- A lock or unlock of another thread, which at most hands the mutex over. -/
theorem ShareInv.mqtt_of_other {s : State} {m : Mutex Tid} (h : ShareInv s)
    (hother : ∀ w l, s.client.mutex.Stands .mqtt w l → m.Stands .mqtt w l) :
    m.level .mqtt ≤ s.mqtt.share ∧ (.mqtt ∈ m.waiters → s.mqtt.queued = true) := by
  by_cases hmem : .mqtt ∈ s.client.mutex.waiters
  · have hqueued := h.queued hmem
    have hshare := share_of_queued hqueued
    refine ⟨?_, fun _ => hqueued⟩
    rcases hother true 0 (Or.inl hmem) with hin | hone
    · rw [Mutex.level_of_waiting hin]
      omega
    · omega
  · obtain ⟨hout, hlevel⟩ := hother false _ (Mutex.stands_of_not_mem hmem)
    refine ⟨?_, fun hin => absurd hin hout⟩
    rw [hlevel]
    exact h.level

/-- The owner of the mutex other than the gcloud thread is the mqtt thread. -/
theorem ShareInv.mutexLives {s : State} (h : ShareInv s) : MutexLives s := by
  refine ⟨?_, h.level⟩
  intro t ht
  by_cases hg : t = .gcloud
  · exact Or.inl hg
  · by_cases hm : t = .mqtt
    · subst hm
      have hlevel := h.level
      exact Or.inr ⟨rfl, alive_of_share (by omega)⟩
    · exact absurd (h.others t hg hm).2 ht

/-- A step of the gcloud thread that leaves the mqtt thread alone. -/
theorem ShareInv.gcloudMoves {s s' : State} (h : ShareInv s) (hl : GcloudLocking s s')
    (hmqtt : s'.mqtt = s.mqtt)
    (hother : ∀ u w l, u ≠ .gcloud → s.client.mutex.Stands u w l → s'.client.mutex.Stands u w l) :
    ShareInv s' := by
  obtain ⟨hlevel, hqueued⟩ := h.mqtt_of_other fun w l => hother .mqtt w l (by decide)
  refine ⟨hl.self h.gcloud, ?_, ?_, fun t hg hm => hother _ _ _ hg (h.others t hg hm), ?_⟩
  · rw [hmqtt]
    exact hlevel
  · rw [hmqtt]
    exact hqueued
  · rw [hmqtt]
    exact h.handler

/-- The mqtt thread is aborted outside of the library. -/
theorem ShareInv.drop {s s' : State} (h : ShareInv s) (hl : GcloudLocking s s')
    (hmutex : s'.client.mutex = s.client.mutex.cancel .mqtt) (hzero : s.mqtt.share = 0)
    (hm : s'.mqtt = .dead) : ShareInv s' := by
  have hlevel : s.client.mutex.level .mqtt = 0 := by
    have hle := h.level
    omega
  refine ⟨hl.self h.gcloud, ?_, ?_, ?_, ?_⟩
  · rw [hmutex]
    exact Nat.le_trans (Nat.le_of_eq hlevel) (Nat.zero_le _)
  · intro hin
    rw [hmutex] at hin
    simp [Mutex.cancel] at hin
  · intro t hg hm
    rw [hmutex]
    exact (h.others t hg hm).cancel_other hm
  · intro c rev a p
    rw [hm]
    rintro ⟨⟩

theorem gone_holds_nothing {pc : MqttPc} (h : pc = .absent ∨ pc = .dead) :
    pc.share = 0 ∧ pc.queued = false := by
  rcases h with rfl | rfl <;> exact ⟨rfl, rfl⟩

theorem shareInv_gcloud {env : Env} {s s' : State} (h : ShareInv s)
    (hsafe : abortSafe s (.gcloud env) = true) (hstep : gcloudStep env s = some s') :
    ShareInv s' := by
  have hl := gcloudStep_locking hstep
  have hl' := hl
  cases hl with
  | same hmqtt hmutex _ _ => exact h.gcloudMoves hl' hmqtt fun _ _ _ _ hst => by rwa [hmutex]
  | granted hmqtt hmutex _ _ _ => exact h.gcloudMoves hl' hmqtt fun _ _ _ _ hst => by rwa [hmutex]
  | lock pos hmqtt hmutex _ _ _ _ =>
    refine h.gcloudMoves hl' hmqtt fun _ _ _ hu hst => ?_
    rw [hmutex]
    exact hst.lock_other hu
  | unlock hmqtt hmutex _ _ =>
    refine h.gcloudMoves hl' hmqtt fun _ _ _ hu hst => ?_
    rw [hmutex]
    exact hst.unlock_other hu
  | reset _ _ hmqtt hmutex =>
    -- client_init makes the mutex anew, whoever owns it.
    refine ⟨hl'.self h.gcloud, ?_, ?_, ?_, ?_⟩
    · rw [hmutex]
      exact Nat.zero_le _
    · intro hin
      rw [hmutex] at hin
      cases hin
    · intro t _ _
      rw [hmutex]
      exact ⟨List.not_mem_nil, rfl⟩
    · rw [hmqtt]
      exact h.handler
  | abort c a hg =>
    have hzero : s.mqtt.share = 0 := by simpa [abortSafe, hg] using hsafe
    exact h.drop hl' rfl hzero rfl
  | create hg hgone =>
    obtain ⟨hzero, hqueued⟩ := gone_holds_nothing hgone
    refine ⟨hl'.self h.gcloud, ?_, ?_, h.others, (by rintro c rev a p ⟨⟩)⟩
    · have hlevel := h.level
      rw [hzero] at hlevel
      exact Nat.le_trans hlevel (Nat.zero_le _)
    · intro hin
      have hq := h.queued hin
      rw [hqueued] at hq
      cases hq

/-- The handler on the mqtt thread never comes to gcloud_connect. -/
theorem mqttStep_handler {env : Env} {s s' : State} (h : mqttStep env s = some s') :
    ∀ c rev a p, s'.mqtt ≠ .call c rev (.disc a (.connect p)) := by
  intro c rev a p hm'
  cases mqttStep_effect h with
  | calm hcalm _ _ =>
    have hnone := hcalm.handler
    rw [hm'] at hnone
    cases hnone
  | exit _ _ _ hdead =>
    rw [hm'] at hdead
    cases hdead
  | lose c rev _ _ _ | accept rev _ _ _ _ => cases hm'
  | connack rev q _ hconn =>
    cases q with
    | give | setConnected | clearConnecting | startTimer =>
      cases hconn
      cases hm'
    | putSubscribe | putWait =>
      simp only [connackStep] at hconn
      split at hconn <;> cases hconn <;> cases hm'
  | disc c rev b q _ hdisc =>
    cases q with
    | stopTimer | purge | abort | leave =>
      cases hdisc
      cases hm'
    | check =>
      simp only [mqttDisc] at hdisc
      split at hdisc <;> cases hdisc <;> cases hm'
    | connect r => cases hdisc

theorem shareInv_mqtt {env : Env} {s s' : State} (h : ShareInv s)
    (hsafe : abortSafe s (.mqtt env) = true) (hstep : mqttStep env s = some s') :
    ShareInv s' := by
  have hl := mqttStep_locking hstep
  have hg := mqttStep_gcloud hstep
  have hgcloud : s'.client.mutex.Stands .gcloud s'.gcloud.waits s'.gcloud.locks := by
    rw [hg]
    exact hl.other (by decide) h.gcloud
  suffices hself : s'.client.mutex.level .mqtt ≤ s'.mqtt.share ∧
      (.mqtt ∈ s'.client.mutex.waiters → s'.mqtt.queued = true) from
    ⟨hgcloud, hself.1, hself.2, fun t htg htm => hl.other htm (h.others t htg htm),
      mqttStep_handler hstep⟩
  have hlevel := h.level
  have hout : s.mqtt.queued = false → .mqtt ∉ s.client.mutex.waiters := by
    intro hno hin
    rw [h.queued hin] at hno
    cases hno
  cases hl with
  | same hmutex hqueued hwaits hlocks =>
    have hshare : s'.mqtt.share = s.mqtt.share := by simp [MqttPc.share, hwaits, hlocks]
    rw [hmutex, hshare]
    exact ⟨hlevel, fun hin => absurd hin (hout hqueued)⟩
  | lock pos hmutex hqueued hwaits hgranted hwaiting =>
    have hst := Mutex.stands_of_not_mem (hout hqueued)
    obtain ⟨hyes, hno⟩ := hst.lock_self pos
    rw [hmutex]
    cases hlock : (s.client.mutex.lock pos .mqtt).1 with
    | true =>
      obtain ⟨hout', hlevel'⟩ := hyes hlock
      obtain ⟨hw, hlocks⟩ := hgranted hlock
      refine ⟨?_, fun hin => absurd hin hout'⟩
      rw [share_of_waits hwaits] at hlevel
      rw [share_of_waits hw, hlevel', hlocks]
      simpa using hlevel
    | false =>
      obtain ⟨hqueued', hshare, _⟩ := hwaiting hlock
      refine ⟨?_, fun _ => hqueued'⟩
      rcases hno hlock with hin | hone
      · rw [Mutex.level_of_waiting hin]
        exact Nat.zero_le _
      · omega
  | granted hmutex hheld hwaits' hlocks =>
    have hpos : s.client.mutex.level .mqtt ≠ 0 := by
      simp only [Mutex.heldBy, decide_eq_true_eq] at hheld
      omega
    rw [hmutex]
    refine ⟨?_, fun hin => absurd hin (Mutex.not_waiting_of_level hpos)⟩
    rw [share_of_waits hwaits']
    cases hw : s.mqtt.waits with
    | true =>
      rw [share_of_waits hw] at hlevel
      rw [hw] at hlocks
      simpa [show s'.mqtt.locks = 1 from hlocks] using hlevel
    | false =>
      rw [share_of_waits hw] at hlevel
      rw [hw] at hlocks
      simpa [show s'.mqtt.locks = s.mqtt.locks from hlocks] using hlevel
  | unlock hmutex hqueued hwaits hwaits' hlocks =>
    have hnot := hout hqueued
    rw [share_of_waits hwaits, hlocks] at hlevel
    rw [hmutex, share_of_waits hwaits']
    cases hl : s.client.mutex.level .mqtt with
    | zero =>
      have hst : s.client.mutex.Stands .mqtt false 0 := ⟨hnot, hl⟩
      obtain ⟨hout', hlevel'⟩ := hst.unlock_idle
      rw [hlevel']
      exact ⟨Nat.zero_le _, fun hin => absurd hin hout'⟩
    | succ n =>
      have hst : s.client.mutex.Stands .mqtt false (n + 1) := ⟨hnot, hl⟩
      obtain ⟨hout', hlevel'⟩ := hst.unlock_self
      rw [hlevel']
      refine ⟨?_, fun hin => absurd hin hout'⟩
      have hle : n + 1 ≤ s'.mqtt.locks + 1 := by simpa [hl] using hlevel
      simpa using hle
  | abort c rev a hm =>
    have hzero : s.mqtt.share = 0 := by
      rw [hm]
      cases c with
      | ping => simp [abortSafe, hm] at hsafe
      | live | input | ack len | read off want | release => rfl
    constructor
    · change s.client.mutex.level .mqtt ≤ _
      omega
    · intro hin
      simp [State.abortMqtt, Mutex.cancel] at hin

theorem shareInv_step (s : State) (a : Act) (s' : State) (h : ShareInv s)
    (hsafe : abortSafe s a = true) (hstep : step s a = some s') : ShareInv s' := by
  cases a with
  | gcloud env => exact shareInv_gcloud h hsafe hstep
  | mqtt env => exact shareInv_mqtt h hsafe hstep
  | start n c | app n env | timer | timeout t =>
    have hf := outside_frame rfl hstep
    refine ⟨?_, ?_, ?_, ?_, ?_⟩
    · rw [hf.client, hf.gcloud]
      exact h.gcloud
    · rw [hf.client, hf.mqtt]
      exact h.level
    · rw [hf.client, hf.mqtt]
      exact h.queued
    · rw [hf.client]
      exact h.others
    · rw [hf.mqtt]
      exact h.handler

/-- The gcloud thread waits only behind the mqtt thread. -/
theorem ShareInv.mqtt_holds {s : State} (h : ShareInv s) (hwaits : AwaitsMutex s) :
    s.client.mutex.level .mqtt ≠ 0 := by
  have hstands := h.gcloud
  rw [hwaits.1] at hstands
  obtain ⟨v, hne, hlevel⟩ := hstands.blocked hwaits.2
  by_cases hv : v = .mqtt
  · rwa [← hv]
  · exact absurd (h.others v hne hv).2 hlevel

/-- The mqtt thread that holds the mutex is never stuck itself. -/
theorem mqttStep_of_held {env : Env} {s : State} (h : ShareInv s)
    (hlevel : s.client.mutex.level .mqtt ≠ 0) (hrun : s.mqtt ≠ .overrun) :
    (mqttStep env s).isSome = true := by
  have hshare : s.mqtt.share ≠ 0 := by
    have hle := h.level
    omega
  have hheld : s.client.mutex.heldBy .mqtt = true := by
    simp only [Mutex.heldBy, decide_eq_true_eq]
    omega
  cases hm : s.mqtt with
  | overrun => exact absurd hm hrun
  | absent | dead | poll =>
    rw [hm] at hshare
    exact absurd rfl hshare
  | connack rev p =>
    rw [hm] at hshare
    exact absurd rfl hshare
  | call c rev p =>
    simp only [mqttStep, hm]
    cases p with
    | lock =>
      rw [mqttCall_lock]
      rfl
    | relock ok =>
      rw [mqttCall_relock]
      rfl
    | lockWait | relockWait ok => simp [mqttCall, hheld]
    | body =>
      simp only [mqttCall]
      split <;> rfl
    | unlock ok => rfl
    | disc a q =>
      cases q with
      | stopTimer | purge | abort | leave => rfl
      | check =>
        simp only [mqttCall, mqttDisc]
        split <;> rfl
      | connect r => exact absurd hm (h.handler c rev a r)

theorem rest_of_share {pc : MqttPc} (hshare : pc.share ≠ 0) (hrest : pc.rest = 0) :
    pc = .overrun := by
  cases pc with
  | overrun => rfl
  | absent | dead | poll => exact absurd rfl hshare
  | connack rev p => exact absurd rfl hshare
  | call c rev p =>
    cases c with
    | ping =>
      cases p with
      | disc a q => cases q <;> cases hrest
      | lock | lockWait | body | relock ok | relockWait ok | unlock ok => cases hrest
    | live | input | ack len | read off want | release =>
      cases p with
      | lock | disc a q | relock ok => exact absurd rfl hshare
      | lockWait | body | relockWait ok | unlock ok => cases hrest

/-- The body of a call comes to its end, leaves the mutex for the handler, or is that of
mqtt_live and calls mqtt_ping. -/
theorem mqttBody_rest {c : MqttCall} {rev : Revents} {env : Env} {s s' : State}
    (hm : s.mqtt = .call c rev .body) (h : mqttBody c rev env s = some s') :
    s'.mqtt.share = 0 ∨ s'.mqtt.rest < s.mqtt.rest := by
  rw [hm]
  cases c with
  | live =>
    simp only [mqttBody] at h
    split at h <;> cases h <;> exact Or.inr (by simp [MqttPc.rest, CallPc.pingRest])
  | input =>
    simp only [mqttBody] at h
    split at h
    · cases h
      exact Or.inr (by simp [MqttPc.rest])
    · cases hp : env.packet with
      | connack accepted =>
        rw [hp] at h
        cases accepted with
        | true =>
          cases h
          exact Or.inl rfl
        | false => cases h
      | publish qos1 len =>
        rw [hp] at h
        cases qos1 with
        | true =>
          cases h
          exact Or.inl rfl
        | false =>
          simp only [inputBody, MqttCall.return] at h
          split at h <;> cases h <;> exact Or.inl rfl
      | pubrec =>
        rw [hp] at h
        cases h
        exact Or.inl rfl
      | other =>
        rw [hp] at h
        cases h
        exact Or.inr (by simp [MqttPc.rest])
      | lost =>
        rw [hp] at h
        cases h
  | ping | ack len | release =>
    simp only [mqttBody] at h
    split at h
    · cases h
      exact Or.inr (by simp [MqttPc.rest, CallPc.pingRest])
    · split at h <;> cases h
      exact Or.inr (by simp [MqttPc.rest, CallPc.pingRest])
  | read off want =>
    simp only [mqttBody] at h
    split at h
    · cases h
      exact Or.inr (by simp [MqttPc.rest])
    · split at h
      · split at h <;> cases h <;> exact Or.inr (by simp [MqttPc.rest])
      · cases h

/-- Inside a library call every step of the mqtt thread brings it nearer to the end. -/
theorem mqttStep_rest {env : Env} {s s' : State} (hsafe : abortSafe s (.mqtt env) = true)
    (hshare : s.mqtt.share ≠ 0) (h : mqttStep env s = some s') :
    s'.mqtt.share = 0 ∨ s'.mqtt.rest < s.mqtt.rest := by
  cases hm : s.mqtt with
  | absent | dead | overrun => simp [mqttStep, hm] at h
  | poll | connack rev p =>
    rw [hm] at hshare
    exact absurd rfl hshare
  | call c rev p =>
    simp only [mqttStep, hm] at h
    cases p with
    | lock =>
      cases c with
      | ping =>
        rw [mqttCall_lock] at h
        cases h
        refine Or.inr ?_
        dsimp only
        split <;> simp [MqttPc.rest, CallPc.pingRest]
      | live | input | ack len | read off want | release =>
        rw [hm] at hshare
        exact absurd rfl hshare
    | relock ok =>
      cases c with
      | ping =>
        rw [mqttCall_relock] at h
        cases h
        refine Or.inr ?_
        dsimp only
        split <;> simp [MqttPc.rest, CallPc.pingRest]
      | live | input | ack len | read off want | release =>
        rw [hm] at hshare
        exact absurd rfl hshare
    | lockWait | relockWait ok =>
      simp only [mqttCall] at h
      split at h <;> cases h
      cases c <;> exact Or.inr (by simp [MqttPc.rest, CallPc.pingRest])
    | body =>
      obtain hbody | ⟨_, rfl⟩ := mqttCall_body_cases h
      · rw [← hm]
        exact mqttBody_rest hm hbody
      · cases c with
        | ping => exact Or.inr (by simp [MqttPc.rest, CallPc.pingRest])
        | live | input | ack len | read off want | release => exact Or.inl rfl
    | unlock ok =>
      cases h
      obtain ⟨hwaits, hlocks⟩ := return_locks c rev ok
      cases c with
      | ping => exact Or.inr (by simp [MqttCall.return, MqttPc.rest, CallPc.pingRest])
      | live | input | ack len | read off want | release =>
        have hzero := Nat.succ.inj hlocks
        exact Or.inl ((share_of_waits hwaits).trans hzero.symm)
    | disc a q =>
      cases c with
      | ping =>
        cases q with
        | stopTimer | purge | leave =>
          cases h
          exact Or.inr (by simp [MqttPc.rest, CallPc.pingRest])
        | check =>
          simp only [mqttCall, mqttDisc] at h
          split at h <;> cases h <;> exact Or.inr (by simp [MqttPc.rest, CallPc.pingRest])
        | abort => simp [abortSafe, hm] at hsafe
        | connect r => cases h
      | live | input | ack len | read off want | release =>
        rw [hm] at hshare
        exact absurd rfl hshare

/-- A mutex that the waiting gcloud thread has been given stays with it. -/
theorem held_of_mqtt {env : Env} {s s' : State} (h : ShareInv s) (hwaits : s.gcloud.waits = true)
    (hheld : s.client.mutex.heldBy .gcloud = true) (hstep : mqttStep env s = some s') :
    s'.client.mutex.heldBy .gcloud = true := by
  have hst := h.gcloud
  rw [hwaits] at hst
  have hlevel := ((mqttStep_locking hstep).other (by decide) (hst.granted hheld)).2
  simp [Mutex.heldBy, hlevel]

theorem gets_of_shareInv (actions : List Act) {s t : State} (h : ShareInv s)
    (hwaits : s.gcloud.waits = true)
    (hexec : exec (restrict machine fun s a => abortSafe s a = true) s actions = some t)
    (hothers : actions.all (fun a => !a.isGcloud) = true)
    (hrest : s.client.mutex.heldBy .gcloud = true ∨ s.mqtt.rest ≤ actions.countP Act.isMqtt) :
    t.client.mutex.heldBy .gcloud = true ∨ t.mqtt = .overrun := by
  induction actions generalizing s with
  | nil =>
    have hst : s = t := Option.some.inj hexec
    subst t
    by_cases hheld : s.client.mutex.heldBy .gcloud = true
    · exact Or.inl hheld
    · have hlevel := h.mqtt_holds ⟨hwaits, by simpa using hheld⟩
      have hle := h.level
      have hzero : s.mqtt.rest = 0 := by simpa using hrest.resolve_left hheld
      exact Or.inr (rest_of_share (by omega) hzero)
  | cons a rest ih =>
    obtain ⟨u, hu, hlater⟩ := Option.bind_eq_some_iff.mp hexec
    obtain ⟨hsafe, hstep⟩ : abortSafe s a = true ∧ step s a = some u := step_of_restrict hu
    have hinv := shareInv_step s a u h hsafe hstep
    obtain ⟨ha, hothers⟩ : a.isGcloud = false ∧ rest.all (fun a => !a.isGcloud) = true := by
      simpa using hothers
    cases a with
    | gcloud env => cases ha
    | mqtt env =>
      have hwaits' : u.gcloud.waits = true := by rwa [mqttStep_gcloud hstep]
      refine ih hinv hwaits' hlater hothers ?_
      by_cases hheld : s.client.mutex.heldBy .gcloud = true
      · exact Or.inl (held_of_mqtt h hwaits hheld hstep)
      · by_cases hheld' : u.client.mutex.heldBy .gcloud = true
        · exact Or.inl hheld'
        · have hlevel := h.mqtt_holds ⟨hwaits, by simpa using hheld⟩
          have hle := h.level
          have hlevel' := hinv.mqtt_holds ⟨hwaits', by simpa using hheld'⟩
          have hle' := hinv.level
          have hcount := hrest.resolve_left hheld
          rw [List.countP_cons_of_pos rfl] at hcount
          rcases mqttStep_rest hsafe (by omega) hstep with hzero | hless
          · omega
          · exact Or.inr (by omega)
    | start n c | app n env | timer | timeout t =>
      have hf := outside_frame rfl hstep
      refine ih hinv (by rw [hf.gcloud]; exact hwaits) hlater hothers ?_
      rw [hf.client, hf.mqtt]
      simpa [Act.isMqtt] using hrest

/-- In every run whose aborts all meet a thread without locks, the owner of the mutex
lives, and a wait of the gcloud thread for the mutex ends. -/
theorem mutex_lives_of_abortSafe {s : State}
    (hrun : ReachableUnder machine (fun s a => abortSafe s a = true) s) :
    MutexLives s ∧ (AwaitsMutex s → GetsMutex s) := by
  have h : ShareInv s := reachableUnder_invariant shareInv_start shareInv_step hrun
  refine ⟨h.mutexLives, fun hwaits => ⟨fun hrun env => ?_, ?_⟩⟩
  · exact mqttStep_of_held h (h.mqtt_holds hwaits) hrun
  · intro actions t hexec hothers hrest
    exact gets_of_shareInv actions h hwaits.1 hexec hothers (Or.inr hrest)

/-- The subscription behind the CONNACK while the mqtt thread is in mqtt_live. -/
def subscribesDuringLive : List Act :=
  handshake ++ List.replicate 2 (.mqtt {}) ++ List.replicate 3 (.gcloud {})

theorem mutex_lives_during_live :
    ∃ s, AwaitsMutex s ∧ s.client.mutex.level .mqtt = 1 ∧ MutexLives s ∧ GetsMutex s := by
  obtain ⟨s, hrun, hs⟩ := exists_reachableUnder_of_exec (M := machine)
    (C := fun s a => abortSafe s a = true)
    (p := fun s => s.gcloud.waits && !s.client.mutex.heldBy .gcloud &&
      s.client.mutex.level .mqtt == 1) subscribesDuringLive (by decide)
  simp only [Bool.and_eq_true, Bool.not_eq_true', beq_iff_eq] at hs
  obtain ⟨hlives, hgets⟩ := mutex_lives_of_abortSafe hrun
  exact ⟨s, hs.1, hs.2, hlives, hgets hs.1⟩

/-- Behind a mutex that an ended thread owns the gcloud thread waits for ever. -/
theorem awaits_of_gone {s t : State} (hpath : TransitionRuns.Path machine Anything s t)
    (hwaits : AwaitsMutex s) (hgone : s.mqtt.phase = .gone) :
    AwaitsMutex t ∧ t.mqtt.phase = .gone := by
  refine TransitionRuns.Path.preserves (I := fun s => AwaitsMutex s ∧ s.mqtt.phase = .gone)
    ?_ hpath ⟨hwaits, hgone⟩
  rintro s a u ⟨hwaits, hgone⟩ _ hstep
  have hstep : step s a = some u := hstep
  cases a with
  | start n c | app n env | timer | timeout t =>
    have hf := outside_frame rfl hstep
    unfold AwaitsMutex
    rw [hf.gcloud, hf.client, hf.mqtt]
    exact ⟨hwaits, hgone⟩
  | mqtt env => exact absurd hgone (phase_of_mqttStep hstep)
  | gcloud env =>
    obtain ⟨hw, hheld⟩ := hwaits
    have hstep : gcloudStep env s = some u := hstep
    cases hg : s.gcloud with
    | get | wait | dispatch | clientInit | setConnecting | create | stopTimer | clearConnected
    | markConnecting =>
      rw [hg] at hw
      cases hw
    | call c p =>
      cases p with
      | lock | body | disc b q | relock ok | unlock ok =>
        rw [hg] at hw
        cases hw
      | lockWait | relockWait ok => simp [gcloudStep, gcloudCall, hg, hheld] at hstep

/-- The keep-alive ping of a connected session fails, and the application publishes. -/
def pingFails : List Act :=
  handshake ++ [.mqtt {}, .mqtt {}, .mqtt { pingDue := true }, .mqtt {}, .mqtt { ok := false }] ++
    List.replicate 4 (.mqtt {}) ++ [.start 1 (.publish ⟨0, 1, .atMostOnce⟩), .app 1 {},
      .app 1 {}] ++
    List.replicate 3 (.gcloud {})

theorem mutex_orphaned : ¬ ∀ s, Reachable machine s → MutexLives s := by
  intro hall
  obtain ⟨s, hreach, hs⟩ := exists_reachable_of_exec (M := machine)
    (p := fun s => s.gcloud.waits && !s.mqtt.alive && s.client.mutex.level .mqtt == 1) pingFails
    (by decide)
  simp only [Bool.and_eq_true, Bool.not_eq_true', beq_iff_eq] at hs
  obtain ⟨⟨_, hdead⟩, hone⟩ := hs
  rcases (hall s hreach).owner .mqtt (by omega) with hg | ⟨_, halive⟩
  · cases hg
  · rw [hdead] at halive
    cases halive

end NcsProjects.Gcloud
