import NcsProjects.GcloudThreads

/-!
What a step can do, said once. Steps outside the gcloud and the mqtt thread touch
the kernel objects only. A step of the mqtt thread is calm, leaves the thread
function, loses the session, accepts a CONNACK, or is a step of one of the two
long branches of the event handler.
-/
namespace NcsProjects.Gcloud

open MessageQueues PublishPayload TransitionRuns

/-- The call of a step of gcloud_connect. -/
def connCall (self : Tid) (origin : Option ℕ) (env : Env) : ConnPc → KernelCall
  | .put => .put env.pos self (.connect origin)
  | .take _ => .take env.pos self
  | .putWait | .takeWait _ | .ret _ => .none

theorem connStep_kernel {self : Tid} {origin : Option ℕ} {env : Env} {p p' : ConnPc}
    {k k' : Kernel} (h : connStep self origin env p k = some (p', k')) :
    k' = (connCall self origin env p).exec k := by
  cases p with
  | put | take err =>
    simp only [connStep] at h
    split at h <;> rename_i heq <;> cases h <;> simp only [connCall, KernelCall.exec, heq]
  | putWait | takeWait err =>
    simp only [connStep] at h
    split at h <;> cases h
    rfl
  | ret err => cases h

theorem connStep_connects_le {self : Tid} {origin : Option ℕ} {env : Env} {p p' : ConnPc}
    {k k' : Kernel} (h : connStep self origin env p k = some (p', k')) :
    k.connects ≤ k'.connects := by
  rw [connStep_kernel h]
  exact (connCall self origin env p).connects_le k

/-- With room in the queue the put of gcloud_connect is accepted at once. -/
theorem connStep_put_of_room {self : Tid} {origin : Option ℕ} {env : Env} {p' : ConnPc}
    {k k' : Kernel} (hroom : k.msgq.buf.length < nMessages)
    (h : connStep self origin env .put k = some (p', k')) :
    p' = .take 0 ∧ k.put env.pos self (.connect origin) = (true, k') := by
  have hacc := Kernel.put_of_room env.pos self (.connect origin) hroom
  simp only [connStep] at h
  split at h <;> rename_i heq <;> cases h
  · exact ⟨rfl, heq⟩
  · rw [heq] at hacc
    cases hacc

/-- The put of gcloud_connect is its first step only. -/
theorem connStep_ne_put {self : Tid} {origin : Option ℕ} {env : Env} {p p' : ConnPc}
    {k k' : Kernel} (h : connStep self origin env p k = some (p', k')) : p' ≠ .put := by
  cases p with
  | ret err => cases h
  | put | putWait | take err | takeWait err =>
    simp only [connStep] at h
    split at h <;> cases h <;> rintro ⟨⟩

/-- gcloud_connect in the handler is over, or it takes its next step. -/
theorem gcloudDisc_connect_cases {c : GcloudCall} {env : Env} {a : Activation} {p : ConnPc}
    {s s' : State} (h : gcloudDisc c env a (.connect p) s = some s') :
    ((∃ err, p = .ret err) ∧ s' = { s with gcloud := .call c (.disc a .leave) }) ∨
      ∃ p' k, connStep .gcloud none env p s.kernel = some (p', k) ∧
        s' = { s with kernel := k, gcloud := .call c (.disc a (.connect p')) } := by
  cases p with
  | ret err =>
    cases h
    exact Or.inl ⟨⟨err, rfl⟩, rfl⟩
  | put | putWait | take err | takeWait err =>
    simp only [gcloudDisc] at h
    split at h <;> rename_i hconn
    · cases h
    · cases h
      exact Or.inr ⟨_, _, hconn, rfl⟩

/-- A library call of the gcloud thread goes on or returns. -/
theorem gcloudCall_place {c : GcloudCall} {env : Env} {p : CallPc} {s s' : State}
    (h : gcloudCall c env p s = some s') :
    (∃ q, s'.gcloud = .call c q ∧ q ≠ .lock) ∨ s'.gcloud = c.return := by
  cases p with
  | lock | lockWait | body | relock ok | relockWait ok =>
    simp only [gcloudCall] at h
    split at h <;> cases h <;> exact Or.inl ⟨_, rfl, by rintro ⟨⟩⟩
  | unlock ok =>
    cases h
    exact Or.inr rfl
  | disc a q =>
    left
    cases q with
    | stopTimer | purge | abort | leave =>
      cases h
      exact ⟨_, rfl, by rintro ⟨⟩⟩
    | check =>
      simp only [gcloudCall, gcloudDisc] at h
      split at h <;> cases h <;> exact ⟨_, rfl, by rintro ⟨⟩⟩
    | connect r =>
      obtain ⟨_, rfl⟩ | ⟨_, _, _, rfl⟩ := gcloudDisc_connect_cases h <;>
        exact ⟨_, rfl, by rintro ⟨⟩⟩

/-- A CONNECT is executed always, any other command only while `connected`. -/
theorem dispatch_cases (env : Env) (s : State) :
    s.kernel.event.any GcloudEvent.isConnect = true ∧ dispatch env s = .clientInit ∨
      s.kernel.event.any GcloudEvent.isConnect = false ∧ (dispatch env s = .get ∨
        s.connected = true ∧ (dispatch env s = .stopTimer ∨
          (∃ m id, dispatch env s = .call (.publish m id) .lock) ∨
          dispatch env s = .call .subscribe .lock)) := by
  unfold dispatch
  split
  · rename_i hevent
    exact Or.inl ⟨by rw [hevent]; rfl, rfl⟩
  all_goals
    rename_i hevent
    refine Or.inr ⟨by rw [hevent]; rfl, ?_⟩
    first
    | exact Or.inl rfl
    | split
      · rename_i hc
        refine Or.inr ⟨hc, ?_⟩
        first
        | exact Or.inl rfl
        | exact Or.inr (Or.inl ⟨_, _, rfl⟩)
        | exact Or.inr (Or.inr rfl)
      · exact Or.inl rfl

/-- The call of mqtt_publish takes its identifier from the uptime of its step. -/
theorem dispatch_publish {env : Env} {s : State} {m : Message} {id : BitVec 16} {p : CallPc}
    (h : dispatch env s = .call (.publish m id) p) : id = env.uptime.setWidth 16 ∧ p = .lock ∧
      s.connected = true ∧
        (s.kernel.event = some (.publish m) ∨ s.kernel.event = some (.publishState m)) := by
  unfold dispatch at h
  split at h
  · cases h
  · rename_i hevent
    split at h <;> cases h
    exact ⟨rfl, rfl, ‹_›, Or.inr hevent⟩
  · rename_i hevent
    split at h <;> cases h
    exact ⟨rfl, rfl, ‹_›, Or.inl hevent⟩
  all_goals
    first
    | cases h
    | split at h <;> cases h

theorem dispatch_subscribe {env : Env} {s : State} {p : CallPc}
    (h : dispatch env s = .call .subscribe p) :
    s.connected = true ∧ s.kernel.event = some .subscribe := by
  unfold dispatch at h
  split at h
  case h_6 hevent =>
    split at h
    · exact ⟨‹_›, hevent⟩
    · cases h
  all_goals
    first
    | cases h
    | split at h <;> cases h

@[simp] theorem gcloudReturn_handler (c : GcloudCall) : c.return.handler = none := by
  cases c <;> rfl

@[simp] theorem dispatch_handler (env : Env) (s : State) : (dispatch env s).handler = none := by
  unfold dispatch
  split
  · rfl
  · split <;> rfl
  · split <;> rfl
  · split <;> rfl
  · split <;> rfl
  · split <;> rfl
  · rfl

/-- The mqtt thread is created where there is none. -/
theorem gcloudStep_create {env : Env} {s s' : State} (hg : s.gcloud = .create)
    (h : gcloudStep env s = some s') : (s.mqtt = .absent ∨ s.mqtt = .dead) ∧
      s' = { s with mqtt := .poll, gcloud := .get } := by
  simp only [gcloudStep, hg] at h
  split at h
  · cases h
    exact ⟨by assumption, rfl⟩
  · cases h

/-- The gcloud thread comes to gcloud_connect in the handler by the abort before it. -/
theorem gcloudStep_connecting {env : Env} {s s' : State} {a : Activation} {p : ConnPc}
    (h : gcloudStep env s = some s') (hp : s'.gcloud.handler = some (a, .connect p)) :
    s.gcloud.handler = some (a, .abort) ∧ p = .put ∧ s'.mqtt = .dead ∨
      s'.mqtt = s.mqtt ∧ ∃ q, s.gcloud.handler = some (a, .connect q) ∧
        connStep .gcloud none env q s.kernel = some (p, s'.kernel) := by
  cases hg : s.gcloud with
  | get | wait =>
    simp only [gcloudStep, hg] at h
    split at h <;> cases h <;> cases hp
  | dispatch =>
    simp only [gcloudStep, hg, Option.some.injEq] at h
    subst h
    simp at hp
  | setConnecting =>
    simp only [gcloudStep, hg, Option.some.injEq] at h
    subst h
    dsimp only at hp
    split at hp <;> cases hp
  | create =>
    obtain ⟨-, rfl⟩ := gcloudStep_create hg h
    cases hp
  | clientInit | stopTimer | clearConnected | markConnecting =>
    simp only [gcloudStep, hg, Option.some.injEq] at h
    subst h
    cases hp
  | call c q =>
    simp only [gcloudStep, hg] at h
    cases q with
    | lock | lockWait | body | relock ok | relockWait ok =>
      simp only [gcloudCall] at h
      split at h <;> cases h <;> cases hp
    | unlock ok =>
      cases h
      simp at hp
    | disc b r =>
      cases r with
      | stopTimer | purge | leave =>
        cases h
        cases hp
      | check =>
        simp only [gcloudCall, gcloudDisc] at h
        split at h <;> cases h <;> cases hp
      | abort =>
        cases h
        cases hp
        exact Or.inl ⟨rfl, rfl, rfl⟩
      | connect q =>
        obtain ⟨_, rfl⟩ | ⟨q', k, hk, rfl⟩ := gcloudDisc_connect_cases h
        · cases hp
        · cases hp
          exact Or.inr ⟨rfl, q, rfl, hk⟩

/-- What a step outside the gcloud and the mqtt thread leaves alone. -/
structure OutsideFrame (s s' : State) : Prop where
  client : s'.client = s.client
  connected : s'.connected = s.connected
  connecting : s'.connecting = s.connecting
  timer : s'.timer = s.timer
  gcloud : s'.gcloud = s.gcloud
  mqtt : s'.mqtt = s.mqtt
  acks : s'.acks = s.acks
  connacks : s'.connacks = s.connacks
  departures : s'.departures = s.departures
  connects : s.kernel.connects ≤ s'.kernel.connects

theorem appStep_frame {n : ℕ} {env : Env} {s s' : State} (h : appStep n env s = some s') :
    OutsideFrame s s' := by
  unfold appStep at h
  split at h
  · cases h
  · cases h
    exact ⟨rfl, rfl, rfl, rfl, rfl, rfl, rfl, rfl, rfl, Nat.le_refl _⟩
  · split at h
    · cases h
    · rename_i hconn
      cases h
      exact ⟨rfl, rfl, rfl, rfl, rfl, rfl, rfl, rfl, rfl, connStep_connects_le hconn⟩
  · cases h
    exact ⟨rfl, rfl, rfl, rfl, rfl, rfl, rfl, rfl, rfl, Nat.le_refl _⟩
  · rename_i e _
    have hle := s.kernel.put_connects_le env.pos (.app n) e
    split at h <;> rename_i heq <;> cases h
    all_goals
      rw [heq] at hle
      exact ⟨rfl, rfl, rfl, rfl, rfl, rfl, rfl, rfl, rfl, hle⟩
  · split at h <;> cases h
    exact ⟨rfl, rfl, rfl, rfl, rfl, rfl, rfl, rfl, rfl, Nat.le_refl _⟩

/-- A step that neither the gcloud nor the mqtt thread takes. -/
def Act.outside : Act → Bool
  | .gcloud _ | .mqtt _ => false
  | _ => true

theorem outside_frame {s s' : State} {a : Act} (ha : a.outside = true)
    (h : step s a = some s') : OutsideFrame s s' := by
  cases a with
  | start n c =>
    simp only [step, apiStart] at h
    split at h <;> cases h
    exact ⟨rfl, rfl, rfl, rfl, rfl, rfl, rfl, rfl, rfl, Nat.le_refl _⟩
  | app n env => exact appStep_frame h
  | timer =>
    simp only [step] at h
    split at h <;> cases h
    exact ⟨rfl, rfl, rfl, rfl, rfl, rfl, rfl, rfl, rfl, s.kernel.putNoWait_connects_le _⟩
  | timeout t =>
    simp only [step, Option.map_eq_some_iff] at h
    obtain ⟨k, hk, rfl⟩ := h
    exact ⟨rfl, rfl, rfl, rfl, rfl, rfl, rfl, rfl, rfl,
      Nat.le_of_eq (Kernel.timeout_connects hk).symm⟩
  | gcloud env | mqtt env => cases ha

/-- Where the mqtt thread stands as far as the flags are concerned: not running; in the
handler of a loss before the flags are tested; between an accepted CONNACK and the
write of `connected`, of `connecting`, and the start of the timer; or elsewhere. -/
inductive MqttPhase
  | gone
  | lost
  | accepting
  | marking
  | arming
  | serving
  deriving DecidableEq

def MqttPc.phase : MqttPc → MqttPhase
  | .absent | .dead => .gone
  | .connack _ .give | .connack _ .setConnected => .accepting
  | .connack _ .clearConnecting => .marking
  | .connack _ .startTimer => .arming
  | .call _ _ (.disc _ .leave) => .serving
  | .call _ _ (.disc _ _) => .lost
  | _ => .serving

/-- The step takes the thread out of mqtt_thread_func. -/
def MqttPc.exits (env : Env) : MqttPc → Bool
  | .poll => env.pollFails
  | .call c rev (.unlock ok) => c.return rev ok = .dead
  | _ => false

/-- The step is calm: the mutex, the outstanding payload and the place of the mqtt
thread aside, nothing changes. -/
structure Calm (s s' : State) : Prop where
  kernel : s'.kernel = s.kernel
  session : s'.client.session = s.client.session
  closed_drained : (s.client.session = .closed → s.client.remaining = 0) →
    s'.client.session = .closed → s'.client.remaining = 0
  configured : s'.client.configured = s.client.configured
  origin : s'.client.origin = s.client.origin
  connected : s'.connected = s.connected
  connecting : s'.connecting = s.connecting
  timer : s'.timer = s.timer
  gcloud : s'.gcloud = s.gcloud
  app : s'.app = s.app
  calls : s'.calls = s.calls
  acks : s'.acks = s.acks
  connacks : s'.connacks = s.connacks
  returns : s'.returns = s.returns
  departures : s'.departures = s.departures
  handler : s'.mqtt.handler = none

/-- Everything a step of the mqtt thread can do. -/
inductive MqttEffect (env : Env) (s : State) : State → Prop
  | calm {s' : State} (hcalm : Calm s s') (hs : s.mqtt.phase = .serving)
      (hs' : s'.mqtt.phase = .serving) : MqttEffect env s s'
  | exit {s' : State} (hcalm : Calm s s') (hs : s.mqtt.phase = .serving)
      (hexit : s.mqtt.exits env = true) (hs' : s'.mqtt = .dead) : MqttEffect env s s'
  | lose (c : MqttCall) (rev : Revents) (hm : s.mqtt = .call c rev .body)
      (hbody : mqttBody c rev env s = none)
      (hopen : s.client.session ≠ .closed ∨ s.client.remaining ≠ 0) :
      MqttEffect env s { s with
        client := s.client.disconnect .mqtt
        mqtt := .call c rev (.disc s.activation .stopTimer) }
  | accept (rev : Revents) (hm : s.mqtt = .call .input rev .body)
      (hopen : s.client.session ≠ .closed) (hdrained : s.client.remaining = 0)
      (hpacket : env.packet = .connack true) :
      MqttEffect env s { s with
        client := { s.client.unlock .mqtt with session := .connected }
        acks := s.client.origin :: s.acks
        mqtt := .connack rev .give }
  | connack (rev : Revents) (p : ConnackPc) {s' : State} (hm : s.mqtt = .connack rev p)
      (hstep : connackStep env rev p s = some s') : MqttEffect env s s'
  | disc (c : MqttCall) (rev : Revents) (a : Activation) (p : DiscPc) {s' : State}
      (hm : s.mqtt = .call c rev (.disc a p)) (hstep : mqttDisc c rev a p s = some s') :
      MqttEffect env s s'

/-- A move of the mqtt thread that at most takes or gives up the mutex. -/
theorem calm_of_mutex (s : State) (m : RecursiveMutexes.Mutex Tid) {pc : MqttPc}
    (hpc : pc.handler = none) :
    Calm s { s with client := { s.client with mutex := m }, mqtt := pc } :=
  ⟨rfl, rfl, fun h => h, rfl, rfl, rfl, rfl, rfl, rfl, rfl, rfl, rfl, rfl, rfl, rfl, hpc⟩

/-- A move that sets the outstanding payload of a session that is open. -/
theorem calm_of_payload (s : State) (m : RecursiveMutexes.Mutex Tid) (n : ℕ) {pc : MqttPc}
    (hopen : s.client.session = .closed → s.client.remaining = 0 → n = 0)
    (hpc : pc.handler = none) :
    Calm s { s with client := { s.client with mutex := m, remaining := n }, mqtt := pc } :=
  ⟨rfl, rfl, fun h hc => hopen hc (h hc), rfl, rfl, rfl, rfl, rfl, rfl, rfl, rfl, rfl, rfl, rfl,
    rfl, hpc⟩

theorem endLoop_cases (rev : Revents) :
    (endLoop rev).handler = none ∧ ((endLoop rev).phase = .serving ∨ endLoop rev = .dead) := by
  unfold endLoop
  split
  · exact ⟨rfl, Or.inr rfl⟩
  · exact ⟨rfl, Or.inl rfl⟩

/-- The body of a call keeps the session, or loses it and goes on to the handler. -/
theorem mqttCall_body_cases {c : MqttCall} {rev : Revents} {env : Env} {s s' : State}
    (h : mqttCall c rev env .body s = some s') :
    mqttBody c rev env s = some s' ∨ mqttBody c rev env s = none ∧ s' = { s with
      client := s.client.disconnect .mqtt
      mqtt := .call c rev (.disc s.activation .stopTimer) } := by
  simp only [mqttCall] at h
  cases hbody : mqttBody c rev env s with
  | some s₁ =>
    rw [hbody] at h
    exact Or.inl h
  | none =>
    simp only [hbody, Option.some.injEq] at h
    exact Or.inr ⟨rfl, h.symm⟩

/-- A call that returns leads on in the thread function or out of it. -/
theorem return_cases (c : MqttCall) (rev : Revents) (ok : Bool) :
    (c.return rev ok).handler = none ∧
      ((c.return rev ok).phase = .serving ∨ c.return rev ok = .dead) := by
  cases c with
  | live =>
    cases ok with
    | false => exact ⟨rfl, Or.inr rfl⟩
    | true =>
      simp only [MqttCall.return, if_true]
      split
      · exact ⟨rfl, Or.inl rfl⟩
      · exact endLoop_cases rev
  | input =>
    cases ok with
    | false => exact ⟨rfl, Or.inr rfl⟩
    | true => exact endLoop_cases rev
  | ping | release => exact ⟨rfl, Or.inl rfl⟩
  | ack len =>
    simp only [MqttCall.return]
    split <;> exact ⟨rfl, Or.inl rfl⟩
  | read off want =>
    simp only [MqttCall.return]
    split <;> exact ⟨rfl, Or.inl rfl⟩

theorem inputBody_effect {rev : Revents} {env : Env} {s s' : State}
    (hm : s.mqtt = .call .input rev .body) (hopen : s.client.session ≠ .closed)
    (hdrained : s.client.remaining = 0) (h : inputBody rev env.packet s = some s') :
    MqttEffect env s s' := by
  have hs : s.mqtt.phase = .serving := by rw [hm]; rfl
  cases hp : env.packet with
  | connack accepted =>
    cases accepted with
    | true =>
      rw [hp] at h
      cases h
      exact .accept rev hm hopen hdrained hp
    | false =>
      rw [hp] at h
      cases h
  | publish qos1 len =>
    have hclosed : s.client.session = .closed → s.client.remaining = 0 → len = 0 :=
      fun hc => absurd hc hopen
    rw [hp] at h
    cases qos1 with
    | true =>
      cases h
      exact .calm (calm_of_payload s _ len hclosed rfl) hs rfl
    | false =>
      cases h
      have hret : (MqttCall.return (.ack len) rev true).phase = .serving := by
        simp only [MqttCall.return]
        split <;> rfl
      exact .calm (calm_of_payload s _ len hclosed (return_cases (.ack len) rev true).1) hs hret
  | pubrec | other =>
    rw [hp] at h
    cases h
    exact .calm (calm_of_mutex s _ rfl) hs rfl
  | lost =>
    rw [hp] at h
    cases h

theorem mqttBody_effect {c : MqttCall} {rev : Revents} {env : Env} {s s' : State}
    (hm : s.mqtt = .call c rev .body) (h : mqttBody c rev env s = some s') :
    MqttEffect env s s' := by
  have hs : s.mqtt.phase = .serving := by rw [hm]; rfl
  have hcalm : ∀ pc : MqttPc, pc.handler = none → pc.phase = .serving →
      MqttEffect env s { s with mqtt := pc } :=
    fun pc hpc hph => .calm (calm_of_mutex s s.client.mutex hpc) hs hph
  cases c with
  | live =>
    simp only [mqttBody] at h
    split at h <;> cases h <;> exact hcalm _ rfl rfl
  | input =>
    simp only [mqttBody] at h
    split at h
    · cases h
      exact hcalm _ rfl rfl
    · rename_i hready
      simp only [not_or, Nat.not_lt, Nat.le_zero] at hready
      exact inputBody_effect hm hready.1 hready.2 h
  | ping | ack len | release =>
    simp only [mqttBody] at h
    split at h
    · cases h
      exact hcalm _ rfl rfl
    · split at h <;> cases h
      exact hcalm _ rfl rfl
  | read off want =>
    simp only [mqttBody] at h
    split at h
    · cases h
      exact hcalm _ rfl rfl
    · split at h
      · split at h <;> cases h
        · exact hcalm _ rfl rfl
        · refine .calm (calm_of_payload s _ _ ?_ rfl) hs rfl
          intro _ hzero
          omega
      · cases h

/-- A session is lost only where there was one, or payload of one. -/
theorem open_of_lost {c : MqttCall} {rev : Revents} {env : Env} {s : State}
    (h : mqttBody c rev env s = none) :
    s.client.session ≠ .closed ∨ s.client.remaining ≠ 0 := by
  by_contra hn
  simp only [not_or, not_not] at hn
  obtain ⟨hclosed, hzero⟩ := hn
  cases c with
  | live =>
    simp only [mqttBody] at h
    split at h <;> cases h
  | ping | input | ack len | release => simp [mqttBody, hclosed] at h
  | read off want => simp [mqttBody, hzero] at h

theorem mqttStep_effect {env : Env} {s s' : State} (h : mqttStep env s = some s') :
    MqttEffect env s s' := by
  cases hm : s.mqtt with
  | absent | dead | overrun => simp [mqttStep, hm] at h
  | poll =>
    have hs : s.mqtt.phase = .serving := by rw [hm]; rfl
    simp only [mqttStep, hm] at h
    cases hfail : env.pollFails with
    | true =>
      simp only [hfail, if_true, Option.some.injEq] at h
      subst h
      exact .exit (calm_of_mutex s s.client.mutex rfl) hs (by rw [hm]; exact hfail) rfl
    | false =>
      simp only [hfail, Bool.false_eq_true, if_false, Option.some.injEq] at h
      subst h
      exact .calm (calm_of_mutex s s.client.mutex rfl) hs rfl
  | connack rev p =>
    simp only [mqttStep, hm] at h
    exact .connack rev p hm h
  | call c rev p =>
    simp only [mqttStep, hm] at h
    cases p with
    | lock | relock ok =>
      simp only [mqttCall] at h
      split at h <;> rename_i hlock <;> cases h
      all_goals
        obtain ⟨_, rfl⟩ := Prod.mk.inj hlock
        exact .calm (calm_of_mutex s _ rfl) (by rw [hm]; rfl) rfl
    | lockWait | relockWait ok =>
      simp only [mqttCall] at h
      split at h <;> cases h
      exact .calm (calm_of_mutex s s.client.mutex rfl) (by rw [hm]; rfl) rfl
    | unlock ok =>
      cases h
      obtain ⟨hhandler, hserving | hdead⟩ := return_cases c rev ok
      · exact .calm (calm_of_mutex s _ hhandler) (by rw [hm]; rfl) hserving
      · exact .exit (calm_of_mutex s _ hhandler) (by rw [hm]; rfl)
          (by rw [hm]; exact decide_eq_true hdead) hdead
    | disc a p => exact .disc c rev a p hm h
    | body =>
      obtain hbody | ⟨hbody, rfl⟩ := mqttCall_body_cases h
      · exact mqttBody_effect hm hbody
      · exact .lose c rev hm hbody (open_of_lost hbody)

/-- The record of the application's calls, which only the application threads write. -/
structure ApiFrame (s s' : State) : Prop where
  app : s'.app = s.app
  calls : s'.calls = s.calls
  returns : s'.returns = s.returns

structure GcloudFrame (s s' : State) : Prop extends ApiFrame s s' where
  acks : s'.acks = s.acks
  connacks : s'.connacks = s.connacks

/-- What a library call leaves alone, the handler of a loss inside it included. -/
structure CallFrame (s s' : State) : Prop extends GcloudFrame s s' where
  connected : s'.connected = s.connected
  connecting : s'.connecting = s.connecting
  timer : s'.timer = s.timer ∨ s'.timer = false

/-- What the handler of a loss leaves alone, whichever thread runs it. -/
structure DiscFrame (s s' : State) : Prop extends CallFrame s s' where
  session : s'.client.session = s.client.session

/-- On the gcloud thread the handler moves the mqtt thread only to abort it. -/
theorem gcloudDisc_frame {c : GcloudCall} {env : Env} {a : Activation} {p : DiscPc}
    {s s' : State} (h : gcloudDisc c env a p s = some s') :
    DiscFrame s s' ∧ (s'.mqtt = s.mqtt ∨ s'.mqtt = .dead) := by
  cases p with
  | stopTimer =>
    cases h
    exact ⟨⟨⟨⟨⟨rfl, rfl, rfl⟩, rfl, rfl⟩, rfl, rfl, Or.inr rfl⟩, rfl⟩, Or.inl rfl⟩
  | abort =>
    cases h
    exact ⟨⟨⟨⟨⟨rfl, rfl, rfl⟩, rfl, rfl⟩, rfl, rfl, Or.inl rfl⟩, rfl⟩, Or.inr rfl⟩
  | purge | leave =>
    cases h
    exact ⟨⟨⟨⟨⟨rfl, rfl, rfl⟩, rfl, rfl⟩, rfl, rfl, Or.inl rfl⟩, rfl⟩, Or.inl rfl⟩
  | check =>
    simp only [gcloudDisc] at h
    split at h <;> cases h
    all_goals exact ⟨⟨⟨⟨⟨rfl, rfl, rfl⟩, rfl, rfl⟩, rfl, rfl, Or.inl rfl⟩, rfl⟩, Or.inl rfl⟩
  | connect r =>
    obtain ⟨_, rfl⟩ | ⟨_, _, _, rfl⟩ := gcloudDisc_connect_cases h
    all_goals exact ⟨⟨⟨⟨⟨rfl, rfl, rfl⟩, rfl, rfl⟩, rfl, rfl, Or.inl rfl⟩, rfl⟩, Or.inl rfl⟩

theorem gcloudCall_frame {c : GcloudCall} {env : Env} {p : CallPc} {s s' : State}
    (h : gcloudCall c env p s = some s') :
    CallFrame s s' ∧ (s'.mqtt = s.mqtt ∨ s'.mqtt = .dead) := by
  cases p with
  | lock | lockWait | body | relock ok | relockWait ok =>
    simp only [gcloudCall] at h
    split at h <;> cases h
    all_goals exact ⟨⟨⟨⟨rfl, rfl, rfl⟩, rfl, rfl⟩, rfl, rfl, Or.inl rfl⟩, Or.inl rfl⟩
  | unlock ok =>
    cases h
    exact ⟨⟨⟨⟨rfl, rfl, rfl⟩, rfl, rfl⟩, rfl, rfl, Or.inl rfl⟩, Or.inl rfl⟩
  | disc a q => exact (gcloudDisc_frame h).imp_left DiscFrame.toCallFrame

/-- On the mqtt thread the handler does not move the gcloud thread. -/
theorem mqttDisc_frame {c : MqttCall} {rev : Revents} {a : Activation} {p : DiscPc}
    {s s' : State} (h : mqttDisc c rev a p s = some s') :
    DiscFrame s s' ∧ s'.gcloud = s.gcloud := by
  cases p with
  | stopTimer =>
    cases h
    exact ⟨⟨⟨⟨⟨rfl, rfl, rfl⟩, rfl, rfl⟩, rfl, rfl, Or.inr rfl⟩, rfl⟩, rfl⟩
  | purge | abort | leave =>
    cases h
    exact ⟨⟨⟨⟨⟨rfl, rfl, rfl⟩, rfl, rfl⟩, rfl, rfl, Or.inl rfl⟩, rfl⟩, rfl⟩
  | check =>
    simp only [mqttDisc] at h
    split at h <;> cases h
    all_goals exact ⟨⟨⟨⟨⟨rfl, rfl, rfl⟩, rfl, rfl⟩, rfl, rfl, Or.inl rfl⟩, rfl⟩, rfl⟩
  | connect q => cases h

/-- What the handler of an accepted CONNACK leaves alone. -/
structure ConnackFrame (s s' : State) : Prop extends ApiFrame s s' where
  client : s'.client = s.client
  acks : s'.acks = s.acks
  gcloud : s'.gcloud = s.gcloud

theorem connackStep_frame {env : Env} {rev : Revents} {p : ConnackPc} {s s' : State}
    (h : connackStep env rev p s = some s') : ConnackFrame s s' := by
  cases p with
  | give | setConnected | clearConnecting | startTimer =>
    cases h
    exact ⟨⟨rfl, rfl, rfl⟩, rfl, rfl, rfl⟩
  | putSubscribe | putWait =>
    simp only [connackStep] at h
    split at h <;> cases h <;> exact ⟨⟨rfl, rfl, rfl⟩, rfl, rfl, rfl⟩

theorem gcloudStep_frame {env : Env} {s s' : State} (h : gcloudStep env s = some s') :
    GcloudFrame s s' := by
  cases hg : s.gcloud with
  | get | wait =>
    simp only [gcloudStep, hg] at h
    split at h <;> cases h <;> exact ⟨⟨rfl, rfl, rfl⟩, rfl, rfl⟩
  | create =>
    obtain ⟨-, rfl⟩ := gcloudStep_create hg h
    exact ⟨⟨rfl, rfl, rfl⟩, rfl, rfl⟩
  | dispatch | clientInit | setConnecting | stopTimer | clearConnected | markConnecting =>
    simp only [gcloudStep, hg, Option.some.injEq] at h
    subst h
    exact ⟨⟨rfl, rfl, rfl⟩, rfl, rfl⟩
  | call c p =>
    simp only [gcloudStep, hg] at h
    exact (gcloudCall_frame h).1.toGcloudFrame

theorem mqttStep_api {env : Env} {s s' : State} (h : mqttStep env s = some s') :
    ApiFrame s s' := by
  cases mqttStep_effect h with
  | calm hcalm _ _ => exact ⟨hcalm.app, hcalm.calls, hcalm.returns⟩
  | exit hcalm _ _ _ => exact ⟨hcalm.app, hcalm.calls, hcalm.returns⟩
  | lose c rev _ _ _ | accept rev _ _ _ _ => exact ⟨rfl, rfl, rfl⟩
  | connack rev p _ hconn => exact (connackStep_frame hconn).toApiFrame
  | disc c rev a p _ hdisc => exact (mqttDisc_frame hdisc).1.toApiFrame

/-- An application thread is moved by its own steps only. -/
theorem app_of_other {s s' : State} {a : Act} {n : ℕ} (hstart : ∀ c, a ≠ .start n c)
    (happ : ∀ env, a ≠ .app n env) (h : step s a = some s') : s'.app n = s.app n := by
  cases a with
  | start m c =>
    have hn : n ≠ m := by
      rintro rfl
      exact hstart c rfl
    simp only [step, apiStart] at h
    split at h <;> cases h
    exact Function.update_of_ne hn _ _
  | app m env =>
    have hn : n ≠ m := by
      rintro rfl
      exact happ env rfl
    simp only [step, appStep] at h
    split at h
    · cases h
    · cases h
      exact Function.update_of_ne hn _ _
    · split at h <;> cases h
      exact Function.update_of_ne hn _ _
    · cases h
      exact Function.update_of_ne hn _ _
    · split at h <;> cases h <;> exact Function.update_of_ne hn _ _
    · split at h <;> cases h
      exact Function.update_of_ne hn _ _
  | gcloud env => rw [(gcloudStep_frame h).app]
  | mqtt env => rw [(mqttStep_api h).app]
  | timer =>
    simp only [step] at h
    split at h <;> cases h
    rfl
  | timeout t =>
    simp only [step, Option.map_eq_some_iff] at h
    obtain ⟨k, _, rfl⟩ := h
    rfl

/-- Of the application threads only the first one acts. -/
def Act.ofFirst : Act → Bool
  | .start n _ | .app n _ => n = 0
  | _ => true

theorem app_of_ofFirst {s s' : State} {a : Act} (ha : a.ofFirst = true)
    (h : step s a = some s') {n : ℕ} (hn : n ≠ 0) : s'.app n = s.app n := by
  refine app_of_other ?_ ?_ h
  · rintro c rfl
    exact hn (of_decide_eq_true ha)
  · rintro env rfl
    exact hn (of_decide_eq_true ha)

/-- In a run of the first application thread the others stay outside the API. -/
theorem idle_of_path {C : State → Act → Prop} {s t : State}
    (hC : ∀ u a, C u a → a.ofFirst = true) (hrun : Path machine C s t)
    (hs : ∀ n, n ≠ 0 → s.app n = .idle) : ∀ n, n ≠ 0 → t.app n = .idle :=
  Path.preserves (I := fun u => ∀ n, n ≠ 0 → u.app n = .idle)
    (fun _ _ _ hu hc hstep _ hn => (app_of_ofFirst (hC _ _ hc) hstep hn).trans (hu _ hn)) hrun hs

theorem idle_of_ofFirst {C : State → Act → Prop} {s : State}
    (hC : ∀ t a, C t a → a.ofFirst = true) (hrun : ReachableUnder machine C s) :
    ∀ n, n ≠ 0 → s.app n = .idle := idle_of_path hC hrun fun _ _ => rfl

theorem mqttStep_gcloud {env : Env} {s s' : State} (h : mqttStep env s = some s') :
    s'.gcloud = s.gcloud := by
  cases mqttStep_effect h with
  | calm hcalm _ _ => exact hcalm.gcloud
  | exit hcalm _ _ _ => exact hcalm.gcloud
  | lose c rev _ _ _ | accept rev _ _ _ _ => rfl
  | connack rev p _ hconn => exact (connackStep_frame hconn).gcloud
  | disc c rev a p _ hdisc => exact (mqttDisc_frame hdisc).2

theorem phase_of_mqttStep {env : Env} {s s' : State} (h : mqttStep env s = some s') :
    s.mqtt.phase ≠ .gone := by
  cases hm : s.mqtt with
  | absent | dead | overrun => simp [mqttStep, hm] at h
  | poll => rintro ⟨⟩
  | connack rev p => cases p <;> rintro ⟨⟩
  | call c rev p =>
    cases p with
    | disc a q => cases q <;> rintro ⟨⟩
    | lock | lockWait | body | relock ok | relockWait ok | unlock ok => rintro ⟨⟩

/-- The mqtt thread comes to its end, and never back to where it was not created. -/
theorem mqttStep_gone {env : Env} {s s' : State} (h : mqttStep env s = some s')
    (hgone : s'.mqtt.phase = .gone) : s'.mqtt = .dead := by
  cases mqttStep_effect h with
  | calm _ _ hs' =>
    rw [hs'] at hgone
    cases hgone
  | exit _ _ _ hdead => exact hdead
  | lose c rev _ _ _ | accept rev _ _ _ _ => cases hgone
  | connack rev p _ hconn =>
    cases p with
    | give | setConnected | clearConnecting | startTimer =>
      cases hconn
      cases hgone
    | putSubscribe | putWait =>
      simp only [connackStep] at hconn
      split at hconn <;> cases hconn <;> cases hgone
  | disc c rev a p _ hdisc =>
    cases p with
    | stopTimer | purge | leave =>
      cases hdisc
      cases hgone
    | abort =>
      cases hdisc
      rfl
    | check =>
      simp only [mqttDisc] at hdisc
      split at hdisc <;> cases hdisc <;> cases hgone
    | connect q => cases hdisc

end NcsProjects.Gcloud
