import NcsProjects.GcloudLocking

/-!
Who owns the client's mutex. As long as the mqtt thread does not abort itself and
a CONNECT command is executed only after it has ended, each of the two threads
holds exactly the locks that its place in the library says, and a mutex left with
an aborted thread keeps the gcloud thread in the handler that aborted it.
-/
namespace NcsProjects.Gcloud

open RecursiveMutexes PublishPayload

/-- The mqtt thread is in poll or not running, so it has no part in the mutex. -/
def MqttPc.resting : MqttPc → Bool
  | .absent | .dead | .poll => true
  | _ => false

theorem resting_locks {pc : MqttPc} (h : pc.resting = true) : pc.waits = false ∧ pc.locks = 0 := by
  cases pc with
  | absent | dead | poll => exact ⟨rfl, rfl⟩
  | overrun | call c rev p | connack rev p => cases h

/-- The mqtt thread does not abort itself, and makes no library call from client_init
on until its successor is created. -/
def mutexSafe (s : State) : Act → Bool
  | .mqtt env =>
    match s.mqtt with
    | .poll => !s.gcloud.attempting || env.pollFails
    | .call _ _ (.disc _ .abort) => false
    | _ => !s.gcloud.attempting
  | .gcloud _ => s.gcloud != .clientInit || s.mqtt.resting
  | _ => true

structure MutexInv (s : State) : Prop where
  gcloud : s.client.mutex.Stands .gcloud s.gcloud.waits s.gcloud.locks
  mqtt : s.mqtt.alive = true → s.client.mutex.Stands .mqtt s.mqtt.waits s.mqtt.locks
  gone : s.mqtt.alive = false → .mqtt ∉ s.client.mutex.waiters ∧
    (s.client.mutex.level .mqtt = 0 ∨ s.gcloud.aftermath = true)
  others : ∀ t, t ≠ .gcloud → t ≠ .mqtt → s.client.mutex.Stands t false 0
  attempt : s.gcloud.attempting = true → s.mqtt.resting = true ∧
    s.client.mutex.level .mqtt = 0 ∧ s.gcloud.waits = false

theorem mutexInv_start : MutexInv State.start :=
  ⟨⟨List.not_mem_nil, rfl⟩, (by rintro ⟨⟩), fun _ => ⟨List.not_mem_nil, Or.inl rfl⟩,
    fun _ _ _ => ⟨List.not_mem_nil, rfl⟩, (by rintro ⟨⟩)⟩

/-- While it rests, the mqtt thread is not in the queue of the mutex. -/
theorem MutexInv.not_waiting {s : State} (h : MutexInv s) (hrest : s.mqtt.resting = true) :
    .mqtt ∉ s.client.mutex.waiters := by
  cases hm : s.mqtt with
  | absent | dead => exact (h.gone (by rw [hm]; rfl)).1
  | poll =>
    have hstands := h.mqtt (by rw [hm]; rfl)
    rw [hm] at hstands
    exact hstands.1
  | overrun | call c rev p | connack rev p => simp [hm, MqttPc.resting] at hrest

/-- While a CONNECT command is executed nobody holds the mutex before its call. -/
theorem MutexInv.free_of_attempting {s : State} (h : MutexInv s)
    (hatt : s.gcloud.attempting = true) (hl : s.gcloud.locks = 0) :
    ∀ t, s.client.mutex.level t = 0 := by
  obtain ⟨_, hzero, hwaits⟩ := h.attempt hatt
  intro t
  by_cases hg : t = .gcloud
  · have hst := h.gcloud
    rw [hwaits, hl] at hst
    rw [hg]
    exact hst.2
  · by_cases hm : t = .mqtt
    · rw [hm]
      exact hzero
    · exact (h.others t hg hm).2

/-- A step of the gcloud thread that leaves what the others have of the mutex. -/
theorem MutexInv.gcloudMoves {env : Env} {s s' : State} (h : MutexInv s)
    (hstep : gcloudStep env s = some s') (hg : s.gcloud ≠ .clientInit) (hmqtt : s'.mqtt = s.mqtt)
    (hother : ∀ u w l, u ≠ .gcloud → s.client.mutex.Stands u w l → s'.client.mutex.Stands u w l)
    (hwaits : s.gcloud.attempting = true → s'.gcloud.waits = false) : MutexInv s' := by
  have hself := (gcloudStep_locking hstep).self h.gcloud
  have hatt : s'.gcloud.attempting = true → s.gcloud.attempting = true :=
    fun ha => (gcloudStep_attempting hstep ha).resolve_left hg
  have hlevel : s.client.mutex.level .mqtt = 0 → .mqtt ∉ s.client.mutex.waiters →
      s'.client.mutex.Stands .mqtt false 0 :=
    fun hzero hout => hother _ _ _ (by decide) ⟨hout, hzero⟩
  refine ⟨hself, ?_, ?_, ?_, ?_⟩
  · intro halive
    rw [hmqtt] at halive ⊢
    exact hother _ _ _ (by decide) (h.mqtt halive)
  · intro hgone
    rw [hmqtt] at hgone
    obtain ⟨hout, hzero | hafter⟩ := h.gone hgone
    · obtain ⟨hout', hzero'⟩ := hlevel hzero hout
      exact ⟨hout', Or.inl hzero'⟩
    · obtain ⟨hout', _⟩ := hother .mqtt false _ (by decide) ⟨hout, rfl⟩
      refine ⟨hout', ?_⟩
      rcases gcloudStep_aftermath hstep hafter with hafter' | ⟨hw, hl⟩
      · exact Or.inr hafter'
      · rw [hw, hl] at hself
        have hne : s'.client.mutex.level .gcloud ≠ 0 := by
          rw [hself.2]
          decide
        exact Or.inl (Mutex.level_eq_zero_of_ne hne (by decide))
  · exact fun t ht hm => hother _ _ _ ht (h.others t ht hm)
  · intro ha
    obtain ⟨hrest, hzero, _⟩ := h.attempt (hatt ha)
    have hzero' := (hlevel hzero (h.not_waiting hrest)).2
    exact ⟨by rw [hmqtt]; exact hrest, hzero', hwaits (hatt ha)⟩

theorem mutexInv_gcloud {env : Env} {s s' : State} (h : MutexInv s)
    (hsafe : mutexSafe s (.gcloud env) = true) (hstep : gcloudStep env s = some s') :
    MutexInv s' := by
  have hl := gcloudStep_locking hstep
  by_cases hg : s.gcloud = .clientInit
  · have hrest : s.mqtt.resting = true := by simpa [mutexSafe, hg] using hsafe
    obtain ⟨hwaits, hlocks⟩ := resting_locks hrest
    simp only [gcloudStep, hg, Option.some.injEq] at hstep
    subst hstep
    refine ⟨⟨List.not_mem_nil, rfl⟩, ?_, fun _ => ⟨List.not_mem_nil, Or.inl rfl⟩,
      fun _ _ _ => ⟨List.not_mem_nil, rfl⟩, fun _ => ⟨hrest, rfl, rfl⟩⟩
    intro _
    change Mutex.Stands Mutex.free Tid.mqtt s.mqtt.waits s.mqtt.locks
    rw [hwaits, hlocks]
    exact ⟨List.not_mem_nil, rfl⟩
  · cases hl with
    | same hmqtt hmutex hwaits _ =>
      refine h.gcloudMoves hstep hg hmqtt (fun _ _ _ _ hst => by rwa [hmutex]) fun ha => ?_
      rw [hwaits]
      exact (h.attempt ha).2.2
    | lock pos hmqtt hmutex _ hlocks hgranted _ =>
      refine h.gcloudMoves hstep hg hmqtt (fun _ _ _ hu hst => ?_) fun ha => ?_
      · rw [hmutex]
        exact hst.lock_other hu
      · exact (hgranted (Mutex.lock_of_free pos (h.free_of_attempting ha hlocks))).1
    | granted hmqtt hmutex _ _ hto =>
      exact h.gcloudMoves hstep hg hmqtt (fun _ _ _ _ hst => by rwa [hmutex]) fun _ => hto.1
    | unlock hmqtt hmutex _ hto =>
      refine h.gcloudMoves hstep hg hmqtt (fun _ _ _ hu hst => ?_) fun _ => hto.1
      rw [hmutex]
      exact hst.unlock_other hu
    | reset hinit _ _ _ => exact absurd hinit hg
    | abort c a hg' =>
      have hself := h.gcloud
      rw [hg'] at hself
      refine ⟨hself.cancel_other (by decide), (by rintro ⟨⟩), fun _ => ⟨?_, Or.inr rfl⟩, ?_, ?_⟩
      · simp [State.abortMqtt, Mutex.cancel]
      · exact fun t ht hm => (h.others t ht hm).cancel_other hm
      · intro ha
        have hatt : s.gcloud.attempting = true := by
          rw [hg', attempting_call c _ (.disc a (.connect .put))]
          exact ha
        exact ⟨rfl, (h.attempt hatt).2.1, rfl⟩
    | create hg' =>
      have hself := h.gcloud
      rw [hg'] at hself
      obtain ⟨hrest, hzero, _⟩ := h.attempt (by rw [hg']; rfl)
      exact ⟨hself, fun _ => ⟨h.not_waiting hrest, hzero⟩, (by rintro ⟨⟩), h.others,
        (by rintro ⟨⟩)⟩

theorem not_attempting_of_safe {env : Env} {s : State} (hpoll : s.mqtt ≠ .poll)
    (hsafe : mutexSafe s (.mqtt env) = true) : s.gcloud.attempting = false := by
  simp only [mutexSafe] at hsafe
  split at hsafe
  · rename_i hm
    exact absurd hm hpoll
  · cases hsafe
  · simpa using hsafe

theorem mutexInv_mqtt {env : Env} {s s' : State} (h : MutexInv s)
    (hsafe : mutexSafe s (.mqtt env) = true) (hstep : mqttStep env s = some s') : MutexInv s' := by
  have halive : s.mqtt.alive = true := by simpa [MqttPc.alive] using phase_of_mqttStep hstep
  have hl := mqttStep_locking hstep
  have hg := mqttStep_gcloud hstep
  have hnot : ∀ c rev a, s.mqtt ≠ .call c rev (.disc a .abort) := by
    intro c rev a hm
    simp [mutexSafe, hm] at hsafe
  have hself := hl.self hnot (h.mqtt halive)
  -- The thread leaves its function in poll, or when a call has returned.
  have hdead : s'.mqtt.alive = false → s'.client.mutex.Stands .mqtt false 0 := by
    intro hgone
    have hend := mqttStep_gone hstep (by simpa [MqttPc.alive] using hgone)
    rwa [hend] at hself
  refine ⟨?_, fun _ => hself, ?_, ?_, ?_⟩
  · rw [hg]
    exact hl.other (by decide) h.gcloud
  · intro hgone
    obtain ⟨hout, hzero⟩ := hdead hgone
    exact ⟨hout, Or.inl hzero⟩
  · exact fun t ht hm => hl.other hm (h.others t ht hm)
  · intro hatt
    rw [hg] at hatt ⊢
    have hpoll : s.mqtt = .poll := by
      by_contra hpoll
      have hquiet := not_attempting_of_safe hpoll hsafe
      rw [hatt] at hquiet
      cases hquiet
    have hend : s'.mqtt = .dead := by
      have hfails : env.pollFails = true := by simpa [mutexSafe, hpoll, hatt] using hsafe
      simp only [mqttStep, hpoll, hfails, if_true, Option.some.injEq] at hstep
      rw [← hstep]
    obtain ⟨_, hzero⟩ := hdead (by rw [hend]; rfl)
    exact ⟨by rw [hend]; rfl, hzero, (h.attempt hatt).2.2⟩

theorem mutexInv_step {s s' : State} {a : Act} (h : MutexInv s) (hsafe : mutexSafe s a = true)
    (hstep : step s a = some s') : MutexInv s' := by
  cases a with
  | gcloud env => exact mutexInv_gcloud h hsafe hstep
  | mqtt env => exact mutexInv_mqtt h hsafe hstep
  | start n c | app n env | timer | timeout t =>
    have hf := outside_frame rfl hstep
    refine ⟨?_, ?_, ?_, ?_, ?_⟩
    · rw [hf.client, hf.gcloud]
      exact h.gcloud
    · rw [hf.client, hf.mqtt]
      exact h.mqtt
    · rw [hf.client, hf.mqtt, hf.gcloud]
      exact h.gone
    · rw [hf.client]
      exact h.others
    · rw [hf.client, hf.mqtt, hf.gcloud]
      exact h.attempt

/-- The gcloud thread waits for the mutex only behind the mqtt thread, or behind the
lock that an aborted mqtt thread has left. -/
theorem MutexInv.mqtt_holds {s : State} (h : MutexInv s) (hwaits : s.gcloud.waits = true)
    (hheld : s.client.mutex.heldBy .gcloud = false) : s.client.mutex.level .mqtt ≠ 0 := by
  have hstands := h.gcloud
  rw [hwaits] at hstands
  obtain ⟨v, hne, hlevel⟩ := hstands.blocked hheld
  by_cases hv : v = .mqtt
  · rwa [← hv]
  · exact absurd (h.others v hne hv).2 hlevel

end NcsProjects.Gcloud
