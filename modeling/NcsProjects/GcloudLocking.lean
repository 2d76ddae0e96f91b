import NcsProjects.GcloudEffects

/-!
What a step does to the client's mutex, said once. The two threads that call the
library lock, wait, take the mutex over and unlock it; client_init makes it anew; and
an abort takes the mqtt thread out of its queue. The place of a thread says how many
locks it is going to give back.
-/
namespace NcsProjects.Gcloud

open RecursiveMutexes PublishPayload

def MqttPc.alive (pc : MqttPc) : Bool := pc.phase ≠ .gone

def GcloudPc.waits : GcloudPc → Bool
  | .call _ .lockWait | .call _ (.relockWait _) => true
  | _ => false

def GcloudPc.locks : GcloudPc → ℕ
  | .call _ .body | .call _ (.unlock _) => 1
  | _ => 0

/-- mqtt_ping is called with the mutex held, so it never waits for it. -/
def MqttPc.waits : MqttPc → Bool
  | .call .ping _ _ => false
  | .call _ _ .lockWait | .call _ _ (.relockWait _) => true
  | _ => false

def MqttPc.locks : MqttPc → ℕ
  | .call .ping _ .lock | .call .ping _ (.disc _ _) | .call .ping _ (.relock _) => 1
  | .call .ping _ _ => 2
  | .call _ _ .body | .call _ _ (.unlock _) | .overrun => 1
  | _ => 0

/-- The thread is in the queue of the mutex, or has just been taken out of it. -/
def MqttPc.queued : MqttPc → Bool
  | .call _ _ .lockWait | .call _ _ (.relockWait _) => true
  | _ => false

/-- The locks that the thread gives back on its way on, with the one it waits for. -/
def MqttPc.share (pc : MqttPc) : ℕ := pc.locks + if pc.waits then 1 else 0

/-- The gcloud thread executes a CONNECT command, behind client_init. -/
def GcloudPc.attempting : GcloudPc → Bool
  | .setConnecting | .call .connect _ | .create => true
  | _ => false

/-- The gcloud thread has aborted the mqtt thread in the handler and is not back yet. -/
def GcloudPc.aftermath : GcloudPc → Bool
  | .call _ (.disc _ (.connect _)) | .call _ (.disc _ .leave) => true
  | .call _ (.relock _) | .call _ (.relockWait _) => true
  | _ => false

/-- Everything that a step of the gcloud thread can do to the mutex. -/
inductive GcloudLocking (s : State) : State → Prop
  | same {s' : State} (hmqtt : s'.mqtt = s.mqtt) (hmutex : s'.client.mutex = s.client.mutex)
      (hwaits : s'.gcloud.waits = s.gcloud.waits) (hlocks : s'.gcloud.locks = s.gcloud.locks) :
      GcloudLocking s s'
  | lock (pos : ℕ) {s' : State} (hmqtt : s'.mqtt = s.mqtt)
      (hmutex : s'.client.mutex = (s.client.mutex.lock pos .gcloud).2)
      (hwaits : s.gcloud.waits = false) (hlocks : s.gcloud.locks = 0)
      (hgranted : (s.client.mutex.lock pos .gcloud).1 = true →
        s'.gcloud.waits = false ∧ s'.gcloud.locks = 1)
      (hwaiting : (s.client.mutex.lock pos .gcloud).1 = false → s'.gcloud.waits = true) :
      GcloudLocking s s'
  | granted {s' : State} (hmqtt : s'.mqtt = s.mqtt) (hmutex : s'.client.mutex = s.client.mutex)
      (hheld : s.client.mutex.heldBy .gcloud = true) (hwaits : s.gcloud.waits = true)
      (hto : s'.gcloud.waits = false ∧ s'.gcloud.locks = 1) : GcloudLocking s s'
  | unlock {s' : State} (hmqtt : s'.mqtt = s.mqtt)
      (hmutex : s'.client.mutex = s.client.mutex.unlock .gcloud)
      (hfrom : s.gcloud.waits = false ∧ s.gcloud.locks = 1)
      (hto : s'.gcloud.waits = false ∧ s'.gcloud.locks = 0) : GcloudLocking s s'
  | reset {s' : State} (hg : s.gcloud = .clientInit) (hg' : s'.gcloud = .setConnecting)
      (hmqtt : s'.mqtt = s.mqtt) (hmutex : s'.client.mutex = Mutex.free) : GcloudLocking s s'
  | abort (c : GcloudCall) (a : Activation) (hg : s.gcloud = .call c (.disc a .abort)) :
      GcloudLocking s { s.abortMqtt with gcloud := .call c (.disc a (.connect .put)) }
  | create (hg : s.gcloud = .create) (hgone : s.mqtt = .absent ∨ s.mqtt = .dead) :
      GcloudLocking s { s with mqtt := .poll, gcloud := .get }

/-- A lock by the gcloud thread, as one equation. -/
theorem gcloudCall_lock (c : GcloudCall) (env : Env) (s : State) :
    gcloudCall c env .lock s = some { s with
      client := (s.client.lock env.pos .gcloud).2
      gcloud :=
        if (s.client.lock env.pos .gcloud).1 then .call c .body else .call c .lockWait } := by
  simp only [gcloudCall]
  split <;> rename_i hlock <;> simp [hlock]

theorem gcloudCall_relock (c : GcloudCall) (env : Env) (ok : Bool) (s : State) :
    gcloudCall c env (.relock ok) s = some { s with
      client := (s.client.lock env.pos .gcloud).2
      gcloud := if (s.client.lock env.pos .gcloud).1 then .call c (.unlock ok)
        else .call c (.relockWait ok) } := by
  simp only [gcloudCall]
  split <;> rename_i hlock <;> simp [hlock]

/-- The call locks, or waits for the mutex. -/
theorem GcloudLocking.of_lock {s : State} {granted waiting : GcloudPc} (pos : ℕ)
    (hwaits : s.gcloud.waits = false) (hlocks : s.gcloud.locks = 0)
    (hg : granted.waits = false ∧ granted.locks = 1) (hw : waiting.waits = true) :
    GcloudLocking s { s with
      client := (s.client.lock pos .gcloud).2
      gcloud := if (s.client.lock pos .gcloud).1 then granted else waiting } := by
  refine .lock pos rfl rfl hwaits hlocks (fun hyes => ?_) (fun hno => ?_)
  · change (s.client.lock pos .gcloud).1 = true at hyes
    simpa only [hyes, if_true] using hg
  · change (s.client.lock pos .gcloud).1 = false at hno
    simpa only [hno, Bool.false_eq_true, if_false] using hw

theorem gcloudBody_mutex {c : GcloudCall} {env : Env} {cl cl' : Client}
    {event : Option GcloudEvent} {ok : Bool} (h : gcloudBody c env cl event = some (ok, cl')) :
    cl'.mutex = cl.mutex := by
  cases c with
  | connect =>
    simp only [gcloudBody] at h
    split at h <;> cases h <;> rfl
  | publish m id =>
    simp only [gcloudBody] at h
    split at h
    · cases h; rfl
    · split at h
      · cases h; rfl
      · split at h <;> cases h
        rfl
  | subscribe =>
    simp only [gcloudBody] at h
    split at h
    · cases h; rfl
    · split at h
      · cases h; rfl
      · split at h <;> cases h
        rfl
  | disconnect =>
    simp only [gcloudBody] at h
    split at h <;> cases h
    rfl

theorem gcloudCall_locking {c : GcloudCall} {env : Env} {p : CallPc} {s s' : State}
    (hg : s.gcloud = .call c p) (h : gcloudCall c env p s = some s') : GcloudLocking s s' := by
  cases p with
  | lock =>
    rw [gcloudCall_lock] at h
    cases h
    exact .of_lock env.pos (by rw [hg]; rfl) (by rw [hg]; rfl) ⟨rfl, rfl⟩ rfl
  | relock ok =>
    rw [gcloudCall_relock] at h
    cases h
    exact .of_lock env.pos (by rw [hg]; rfl) (by rw [hg]; rfl) ⟨rfl, rfl⟩ rfl
  | lockWait | relockWait ok =>
    simp only [gcloudCall] at h
    split at h
    · rename_i hheld
      cases h
      exact .granted rfl rfl hheld (by rw [hg]; rfl) ⟨rfl, rfl⟩
    · cases h
  | body =>
    simp only [gcloudCall] at h
    split at h
    · rename_i ok cl hbody
      cases h
      exact .same rfl (gcloudBody_mutex hbody) (by rw [hg]; rfl) (by rw [hg]; rfl)
    · cases h
      exact .unlock rfl rfl (by rw [hg]; exact ⟨rfl, rfl⟩) ⟨rfl, rfl⟩
  | unlock ok =>
    cases h
    refine .unlock rfl rfl (by rw [hg]; exact ⟨rfl, rfl⟩) ?_
    cases c <;> exact ⟨rfl, rfl⟩
  | disc a q =>
    cases q with
    | stopTimer | purge | leave =>
      cases h
      exact .same rfl rfl (by rw [hg]; rfl) (by rw [hg]; rfl)
    | check =>
      simp only [gcloudCall, gcloudDisc] at h
      split at h <;> cases h <;> exact .same rfl rfl (by rw [hg]; rfl) (by rw [hg]; rfl)
    | abort =>
      cases h
      exact .abort c a hg
    | connect r =>
      obtain ⟨_, rfl⟩ | ⟨_, _, _, rfl⟩ := gcloudDisc_connect_cases h <;>
        exact .same rfl rfl (by rw [hg]; rfl) (by rw [hg]; rfl)

theorem dispatch_quiet (env : Env) (s : State) :
    (dispatch env s).waits = false ∧ (dispatch env s).locks = 0 ∧
      (dispatch env s).attempting = false := by
  unfold dispatch
  split
  · exact ⟨rfl, rfl, rfl⟩
  all_goals
    first
    | exact ⟨rfl, rfl, rfl⟩
    | split <;> exact ⟨rfl, rfl, rfl⟩

theorem gcloudStep_locking {env : Env} {s s' : State} (h : gcloudStep env s = some s') :
    GcloudLocking s s' := by
  cases hg : s.gcloud with
  | get | wait =>
    simp only [gcloudStep, hg] at h
    split at h <;> cases h
    all_goals exact .same rfl rfl (by rw [hg]; rfl) (by rw [hg]; rfl)
  | dispatch =>
    simp only [gcloudStep, hg, Option.some.injEq] at h
    subst h
    obtain ⟨hw, hl, _⟩ := dispatch_quiet env s
    exact .same rfl rfl (hw.trans (by rw [hg]; rfl)) (hl.trans (by rw [hg]; rfl))
  | clientInit =>
    simp only [gcloudStep, hg, Option.some.injEq] at h
    subst h
    exact .reset hg rfl rfl rfl
  | setConnecting =>
    simp only [gcloudStep, hg, Option.some.injEq] at h
    subst h
    refine .same rfl rfl ?_ ?_
    · rw [hg]
      change (if s.client.configured then GcloudPc.call .connect .lock else .create).waits = false
      split <;> rfl
    · rw [hg]
      change (if s.client.configured then GcloudPc.call .connect .lock else .create).locks = 0
      split <;> rfl
  | create =>
    obtain ⟨hgone, rfl⟩ := gcloudStep_create hg h
    exact .create hg hgone
  | stopTimer | clearConnected | markConnecting =>
    simp only [gcloudStep, hg, Option.some.injEq] at h
    subst h
    exact .same rfl rfl (by rw [hg]; rfl) (by rw [hg]; rfl)
  | call c p =>
    simp only [gcloudStep, hg] at h
    exact gcloudCall_locking hg h

theorem attempting_call (c : GcloudCall) (p q : CallPc) :
    (GcloudPc.call c p).attempting = (GcloudPc.call c q).attempting := by
  cases c <;> rfl

/-- The execution of a CONNECT command starts behind client_init only. -/
theorem gcloudStep_attempting {env : Env} {s s' : State} (h : gcloudStep env s = some s')
    (hatt : s'.gcloud.attempting = true) :
    s.gcloud = .clientInit ∨ s.gcloud.attempting = true := by
  cases hg : s.gcloud with
  | get | wait =>
    simp only [gcloudStep, hg] at h
    split at h <;> cases h <;> cases hatt
  | dispatch =>
    simp only [gcloudStep, hg, Option.some.injEq] at h
    subst h
    have hquiet := (dispatch_quiet env s).2.2
    rw [hatt] at hquiet
    cases hquiet
  | clientInit => exact Or.inl rfl
  | setConnecting | create => exact Or.inr rfl
  | stopTimer | clearConnected | markConnecting =>
    simp only [gcloudStep, hg, Option.some.injEq] at h
    subst h
    cases hatt
  | call c p =>
    refine Or.inr ?_
    simp only [gcloudStep, hg] at h
    rcases gcloudCall_place h with ⟨q, hg', _⟩ | hg'
    · rw [attempting_call c p q, ← hg']
      exact hatt
    · rw [hg'] at hatt
      cases c with
      | connect => rfl
      | publish m id | subscribe | disconnect => cases hatt

/-- The thread is back from the handler when it has the mutex again. -/
theorem gcloudStep_aftermath {env : Env} {s s' : State} (h : gcloudStep env s = some s')
    (hafter : s.gcloud.aftermath = true) :
    s'.gcloud.aftermath = true ∨ s'.gcloud.waits = false ∧ s'.gcloud.locks = 1 := by
  cases hg : s.gcloud with
  | get | wait | dispatch | clientInit | setConnecting | create | stopTimer | clearConnected
  | markConnecting =>
    rw [hg] at hafter
    cases hafter
  | call c p =>
    simp only [gcloudStep, hg] at h
    rw [hg] at hafter
    cases p with
    | lock | lockWait | body | unlock ok => cases hafter
    | relock ok | relockWait ok =>
      simp only [gcloudCall] at h
      split at h <;> cases h
      all_goals first | exact Or.inl rfl | exact Or.inr ⟨rfl, rfl⟩
    | disc a q =>
      cases q with
      | stopTimer | purge | check | abort => cases hafter
      | connect r =>
        obtain ⟨_, rfl⟩ | ⟨_, _, _, rfl⟩ := gcloudDisc_connect_cases h <;> exact Or.inl rfl
      | leave =>
        cases h
        exact Or.inl rfl

/-- Where the gcloud thread stands it stands after each of its steps. -/
theorem GcloudLocking.self {s s' : State} (h : GcloudLocking s s')
    (hst : s.client.mutex.Stands .gcloud s.gcloud.waits s.gcloud.locks) :
    s'.client.mutex.Stands .gcloud s'.gcloud.waits s'.gcloud.locks := by
  cases h with
  | same _ hmutex hwaits hlocks => rwa [hmutex, hwaits, hlocks]
  | lock pos _ hmutex hwaits hlocks hgranted hwaiting =>
    rw [hwaits, hlocks] at hst
    obtain ⟨hyes, hno⟩ := hst.lock_self pos
    rw [hmutex]
    cases hlock : (s.client.mutex.lock pos .gcloud).1 with
    | true =>
      rw [(hgranted hlock).1, (hgranted hlock).2]
      exact hyes hlock
    | false =>
      rw [hwaiting hlock]
      exact hno hlock
  | granted _ hmutex hheld hwaits hto =>
    rw [hwaits] at hst
    rw [hmutex, hto.1, hto.2]
    exact hst.granted hheld
  | unlock _ hmutex hfrom hto =>
    rw [hfrom.1, hfrom.2] at hst
    rw [hmutex, hto.1, hto.2]
    exact hst.unlock_self
  | reset _ hg' _ hmutex =>
    rw [hmutex, hg']
    exact ⟨List.not_mem_nil, rfl⟩
  | abort c a hg =>
    rw [hg] at hst
    exact hst.cancel_other (by decide)
  | create hg =>
    rw [hg] at hst
    exact hst

/-- Everything that a step of the mqtt thread can do to the mutex. -/
inductive MqttLocking (s : State) : State → Prop
  | same {s' : State} (hmutex : s'.client.mutex = s.client.mutex)
      (hqueued : s.mqtt.queued = false) (hwaits : s'.mqtt.waits = s.mqtt.waits)
      (hlocks : s'.mqtt.locks = s.mqtt.locks) : MqttLocking s s'
  | lock (pos : ℕ) {s' : State} (hmutex : s'.client.mutex = (s.client.mutex.lock pos .mqtt).2)
      (hqueued : s.mqtt.queued = false) (hwaits : s.mqtt.waits = false)
      (hgranted : (s.client.mutex.lock pos .mqtt).1 = true →
        s'.mqtt.waits = false ∧ s'.mqtt.locks = s.mqtt.locks + 1)
      (hwaiting : (s.client.mutex.lock pos .mqtt).1 = false → s'.mqtt.queued = true ∧
        s'.mqtt.share = s.mqtt.share + 1 ∧ (s.mqtt.locks = 0 → s'.mqtt.waits = true)) :
      MqttLocking s s'
  | granted {s' : State} (hmutex : s'.client.mutex = s.client.mutex)
      (hheld : s.client.mutex.heldBy .mqtt = true) (hwaits' : s'.mqtt.waits = false)
      (hlocks : if s.mqtt.waits then s'.mqtt.locks = 1 else s'.mqtt.locks = s.mqtt.locks) :
      MqttLocking s s'
  | unlock {s' : State} (hmutex : s'.client.mutex = s.client.mutex.unlock .mqtt)
      (hqueued : s.mqtt.queued = false) (hwaits : s.mqtt.waits = false)
      (hwaits' : s'.mqtt.waits = false) (hlocks : s.mqtt.locks = s'.mqtt.locks + 1) :
      MqttLocking s s'
  | abort (c : MqttCall) (rev : Revents) (a : Activation)
      (hm : s.mqtt = .call c rev (.disc a .abort)) : MqttLocking s s.abortMqtt

theorem MqttLocking.other {s s' : State} {u : Tid} {w : Bool} {l : ℕ} (h : MqttLocking s s')
    (hu : u ≠ .mqtt) (hst : s.client.mutex.Stands u w l) : s'.client.mutex.Stands u w l := by
  cases h with
  | same hmutex _ _ _ => rwa [hmutex]
  | lock pos hmutex _ _ _ _ =>
    rw [hmutex]
    exact hst.lock_other hu
  | granted hmutex _ _ _ => rwa [hmutex]
  | unlock hmutex _ _ _ _ =>
    rw [hmutex]
    exact hst.unlock_other hu
  | abort c rev a hm => exact hst.cancel_other hu

theorem MqttLocking.self {s s' : State} (h : MqttLocking s s')
    (hnot : ∀ c rev a, s.mqtt ≠ .call c rev (.disc a .abort))
    (hst : s.client.mutex.Stands .mqtt s.mqtt.waits s.mqtt.locks) :
    s'.client.mutex.Stands .mqtt s'.mqtt.waits s'.mqtt.locks := by
  cases h with
  | same hmutex _ hwaits hlocks => rwa [hmutex, hwaits, hlocks]
  | lock pos hmutex _ hwaits hgranted hwaiting =>
    rw [hwaits] at hst
    obtain ⟨hyes, hno⟩ := hst.lock_self pos
    rw [hmutex]
    cases hlock : (s.client.mutex.lock pos .mqtt).1 with
    | true =>
      rw [(hgranted hlock).1, (hgranted hlock).2]
      exact hyes hlock
    | false =>
      have hzero : s.mqtt.locks = 0 := by
        by_contra hne
        have hlevel : s.client.mutex.level .mqtt ≠ 0 := by
          rw [hst.2]
          exact hne
        rw [Mutex.lock_of_held pos hlevel] at hlock
        cases hlock
      rw [(hwaiting hlock).2.2 hzero]
      exact hno hlock
  | granted hmutex hheld hwaits' hlocks =>
    rw [hmutex, hwaits']
    cases hw : s.mqtt.waits with
    | true =>
      rw [hw, if_pos rfl] at hlocks
      rw [hw] at hst
      rw [hlocks]
      exact hst.granted hheld
    | false =>
      rw [hw, if_neg Bool.false_ne_true] at hlocks
      rw [hw] at hst
      rwa [hlocks]
  | unlock hmutex _ hwaits hwaits' hlocks =>
    rw [hwaits, hlocks] at hst
    rw [hmutex, hwaits']
    exact hst.unlock_self
  | abort c rev a hm => exact absurd hm (hnot c rev a)

theorem mqttCall_lock (c : MqttCall) (rev : Revents) (env : Env) (s : State) :
    mqttCall c rev env .lock s = some { s with
      client := (s.client.lock env.pos .mqtt).2
      mqtt := .call c rev (if (s.client.lock env.pos .mqtt).1 then .body else .lockWait) } := by
  simp only [mqttCall]
  split <;> rename_i hlock <;> simp [hlock]

theorem mqttCall_relock (c : MqttCall) (rev : Revents) (env : Env) (ok : Bool) (s : State) :
    mqttCall c rev env (.relock ok) s = some { s with
      client := (s.client.lock env.pos .mqtt).2
      mqtt := .call c rev (if (s.client.lock env.pos .mqtt).1 then .unlock ok
        else .relockWait ok) } := by
  simp only [mqttCall]
  split <;> rename_i hlock <;> simp [hlock]

/-- A call of the mqtt thread locks; mqtt_ping does so a second time. -/
theorem MqttLocking.of_lock {s : State} {c : MqttCall} {rev : Revents} {granted waiting : CallPc}
    (pos : ℕ) (hqueued : s.mqtt.queued = false) (hwaits : s.mqtt.waits = false)
    (hg : (MqttPc.call c rev granted).waits = false ∧
      (MqttPc.call c rev granted).locks = s.mqtt.locks + 1)
    (hw : (MqttPc.call c rev waiting).queued = true ∧
      (MqttPc.call c rev waiting).share = s.mqtt.share + 1 ∧
      (s.mqtt.locks = 0 → (MqttPc.call c rev waiting).waits = true)) :
    MqttLocking s { s with
      client := (s.client.lock pos .mqtt).2
      mqtt := .call c rev (if (s.client.lock pos .mqtt).1 then granted else waiting) } := by
  refine .lock pos rfl hqueued hwaits (fun hyes => ?_) (fun hno => ?_)
  · change (s.client.lock pos .mqtt).1 = true at hyes
    simpa only [hyes, if_true] using hg
  · change (s.client.lock pos .mqtt).1 = false at hno
    simpa only [hno, Bool.false_eq_true, if_false] using hw

theorem inputBody_locking {rev : Revents} {packet : Packet} {s s' : State}
    (hm : s.mqtt = .call .input rev .body) (h : inputBody rev packet s = some s') :
    MqttLocking s s' := by
  have hq : s.mqtt.queued = false := by rw [hm]; rfl
  have hw : s.mqtt.waits = false := by rw [hm]; rfl
  have hl : s.mqtt.locks = 1 := by rw [hm]; rfl
  cases packet with
  | connack accepted =>
    cases accepted with
    | true =>
      cases h
      exact .unlock rfl hq hw rfl hl
    | false => cases h
  | publish qos1 len =>
    cases qos1 with
    | true =>
      cases h
      exact .unlock rfl hq hw rfl hl
    | false =>
      simp only [inputBody, MqttCall.return] at h
      split at h <;> cases h <;> exact .unlock rfl hq hw rfl hl
  | pubrec =>
    cases h
    exact .unlock rfl hq hw rfl hl
  | other =>
    cases h
    exact .same rfl hq hw.symm hl.symm
  | lost => cases h

theorem mqttBody_locking {c : MqttCall} {rev : Revents} {env : Env} {s s' : State}
    (hm : s.mqtt = .call c rev .body) (h : mqttBody c rev env s = some s') :
    MqttLocking s s' := by
  cases c with
  | live =>
    simp only [mqttBody] at h
    split at h <;> cases h <;> exact .same rfl (by rw [hm]; rfl) (by rw [hm]; rfl) (by rw [hm]; rfl)
  | input =>
    simp only [mqttBody] at h
    split at h
    · cases h
      exact .same rfl (by rw [hm]; rfl) (by rw [hm]; rfl) (by rw [hm]; rfl)
    · exact inputBody_locking hm h
  | ping | ack len | release =>
    simp only [mqttBody] at h
    split at h
    · cases h
      exact .same rfl (by rw [hm]; rfl) (by rw [hm]; rfl) (by rw [hm]; rfl)
    · split at h <;> cases h
      exact .same rfl (by rw [hm]; rfl) (by rw [hm]; rfl) (by rw [hm]; rfl)
  | read off want =>
    simp only [mqttBody] at h
    split at h
    · cases h
      exact .same rfl (by rw [hm]; rfl) (by rw [hm]; rfl) (by rw [hm]; rfl)
    · split at h
      · split at h <;> cases h <;> exact .same rfl (by rw [hm]; rfl) (by rw [hm]; rfl)
          (by rw [hm]; rfl)
      · cases h

/-- The call that returns gives up its lock; mqtt_ping leaves the one of mqtt_live. -/
theorem return_locks (c : MqttCall) (rev : Revents) (ok : Bool) :
    (c.return rev ok).waits = false ∧
      (MqttPc.call c rev (.unlock ok)).locks = (c.return rev ok).locks + 1 := by
  cases c with
  | ping | release => exact ⟨rfl, rfl⟩
  | live =>
    simp only [MqttCall.return, endLoop]
    split
    · split
      · exact ⟨rfl, rfl⟩
      · split <;> exact ⟨rfl, rfl⟩
    · exact ⟨rfl, rfl⟩
  | input =>
    simp only [MqttCall.return, endLoop]
    split
    · split <;> exact ⟨rfl, rfl⟩
    · exact ⟨rfl, rfl⟩
  | ack len | read off want =>
    simp only [MqttCall.return]
    split <;> exact ⟨rfl, rfl⟩

theorem mqttDisc_locking {c : MqttCall} {rev : Revents} {a : Activation} {p : DiscPc}
    {s s' : State} (hm : s.mqtt = .call c rev (.disc a p))
    (h : mqttDisc c rev a p s = some s') : MqttLocking s s' := by
  -- The handler runs with one level of the mutex given up, so it changes nothing.
  have hplace : ∀ q, (MqttPc.call c rev (.disc a q)).waits = s.mqtt.waits ∧
      (MqttPc.call c rev (.disc a q)).locks = s.mqtt.locks := by
    intro q
    rw [hm]
    cases c <;> exact ⟨rfl, rfl⟩
  cases p with
  | stopTimer | purge =>
    cases h
    exact .same rfl (by rw [hm]; rfl) (hplace _).1 (hplace _).2
  | check =>
    simp only [mqttDisc] at h
    split at h <;> cases h <;> exact .same rfl (by rw [hm]; rfl) (hplace _).1 (hplace _).2
  | abort =>
    cases h
    exact .abort c rev a hm
  | connect p => cases h
  | leave =>
    cases h
    refine .same rfl (by rw [hm]; rfl) ?_ ?_
    · rw [hm]
      cases c <;> rfl
    · rw [hm]
      cases c <;> rfl

theorem mqttCall_locking {c : MqttCall} {rev : Revents} {env : Env} {p : CallPc} {s s' : State}
    (hm : s.mqtt = .call c rev p) (h : mqttCall c rev env p s = some s') : MqttLocking s s' := by
  cases p with
  | lock =>
    rw [mqttCall_lock] at h
    cases h
    refine .of_lock env.pos (by rw [hm]; rfl) ?_ ?_ ?_
    all_goals rw [hm]
    all_goals cases c <;> simp [MqttPc.waits, MqttPc.locks, MqttPc.queued, MqttPc.share]
  | relock ok =>
    rw [mqttCall_relock] at h
    cases h
    refine .of_lock env.pos (by rw [hm]; rfl) ?_ ?_ ?_
    all_goals rw [hm]
    all_goals cases c <;> simp [MqttPc.waits, MqttPc.locks, MqttPc.queued, MqttPc.share]
  | lockWait | relockWait ok =>
    simp only [mqttCall] at h
    split at h
    · rename_i hheld
      cases h
      refine .granted rfl hheld ?_ ?_
      · cases c <;> rfl
      · rw [hm]
        cases c <;> rfl
    · cases h
  | body =>
    obtain hbody | ⟨_, rfl⟩ := mqttCall_body_cases h
    · exact mqttBody_locking hm hbody
    · refine .unlock rfl (by rw [hm]; rfl) ?_ ?_ ?_
      · rw [hm]
        cases c <;> rfl
      · cases c <;> rfl
      · rw [hm]
        cases c <;> rfl
  | disc a p => exact mqttDisc_locking hm h
  | unlock ok =>
    cases h
    obtain ⟨hwaits, hlocks⟩ := return_locks c rev ok
    refine .unlock rfl (by rw [hm]; rfl) ?_ hwaits (by rw [hm]; exact hlocks)
    rw [hm]
    cases c <;> rfl

theorem mqttStep_locking {env : Env} {s s' : State} (h : mqttStep env s = some s') :
    MqttLocking s s' := by
  cases hm : s.mqtt with
  | absent | dead | overrun => simp [mqttStep, hm] at h
  | poll =>
    simp only [mqttStep, hm, Option.some.injEq] at h
    subst h
    refine .same rfl (by rw [hm]; rfl) ?_ ?_ <;> rw [hm] <;> dsimp only <;> split <;> rfl
  | call c rev p =>
    simp only [mqttStep, hm] at h
    exact mqttCall_locking hm h
  | connack rev p =>
    simp only [mqttStep, hm] at h
    cases p with
    | give | setConnected | clearConnecting | startTimer =>
      cases h
      exact .same rfl (by rw [hm]; rfl) (by rw [hm]; rfl) (by rw [hm]; rfl)
    | putSubscribe | putWait =>
      simp only [connackStep] at h
      split at h <;> cases h <;> exact .same rfl (by rw [hm]; rfl) (by rw [hm]; rfl)
        (by rw [hm]; rfl)

end NcsProjects.Gcloud
