import NcsProjects.GcloudEffects

/-!
What a step does to the session of the client and to the reconnect timer, said once. A
session comes up when the mqtt thread accepts a CONNACK and in no other way, and the
timer is started in the handler of that CONNACK. While a thread is in the handler of a
loss no session is up.
-/
namespace NcsProjects.Gcloud

open TransitionRuns

/-- The step is the mqtt_input that accepts a CONNACK. -/
def accepts (s : State) : Act → Bool
  | .mqtt env =>
    match s.mqtt with
    | .call .input _ .body => s.client.session != .closed && s.client.remaining == 0 &&
        env.packet == .connack true
    | _ => false
  | _ => false

/-- The step is the k_timer_start in the handler of the CONNACK. -/
def startsTimer (s : State) : Act → Bool
  | .mqtt _ =>
    match s.mqtt with
    | .connack _ .startTimer => true
    | _ => false
  | _ => false

/-- The step calls the handler of MQTT_EVT_DISCONNECT. -/
def delivers (s : State) : Act → Bool
  | .gcloud env =>
    match s.gcloud with
    | .call c .body => (gcloudBody c env s.client s.kernel.event).isNone
    | _ => false
  | .mqtt env =>
    match s.mqtt with
    | .call c rev .body => (mqttBody c rev env s).isNone
    | _ => false
  | _ => false

/-- The handler has not purged the queue yet. -/
def DiscPc.unpurged : DiscPc → Bool
  | .stopTimer | .purge => true
  | _ => false

/-- Only mqtt_connect starts a handshake. -/
theorem gcloudBody_session {c : GcloudCall} {env : Env} {cl cl' : Client}
    {event : Option GcloudEvent} {ok : Bool} (h : gcloudBody c env cl event = some (ok, cl')) :
    cl'.session = cl.session ∨ cl'.session = .closed ∨ c = .connect ∧ cl'.session = .tcp := by
  cases c with
  | connect =>
    simp only [gcloudBody] at h
    split at h <;> cases h
    · exact Or.inr (Or.inr ⟨rfl, rfl⟩)
    · exact Or.inr (Or.inl rfl)
  | publish m id | subscribe =>
    simp only [gcloudBody] at h
    split at h
    · cases h
      exact Or.inl rfl
    · split at h
      · cases h
        exact Or.inl rfl
      · split at h <;> cases h
        exact Or.inl rfl
  | disconnect =>
    simp only [gcloudBody] at h
    split at h <;> cases h
    exact Or.inl rfl

theorem gcloudCall_session {c : GcloudCall} {env : Env} {p : CallPc} {s s' : State}
    (h : gcloudCall c env p s = some s') :
    s'.client.session = s.client.session ∨ s'.client.session = .closed ∨
      c = .connect ∧ s'.client.session = .tcp := by
  cases p with
  | lock | relock ok =>
    simp only [gcloudCall] at h
    split at h <;> rename_i hlock <;> cases h
    all_goals
      obtain ⟨_, rfl⟩ := Prod.mk.inj hlock
      exact Or.inl rfl
  | lockWait | relockWait ok =>
    simp only [gcloudCall] at h
    split at h <;> cases h
    exact Or.inl rfl
  | unlock ok =>
    cases h
    exact Or.inl rfl
  | body =>
    simp only [gcloudCall] at h
    split at h
    · rename_i ok cl hbody
      cases h
      exact gcloudBody_session hbody
    · cases h
      exact Or.inr (Or.inl rfl)
  | disc a q => exact Or.inl (gcloudDisc_frame h).1.session

/-- The gcloud thread is in mqtt_connect, or about to create the thread for its session. -/
def GcloudPc.dialing : GcloudPc → Bool
  | .call .connect _ | .create => true
  | _ => false

theorem gcloudStep_session {env : Env} {s s' : State} (h : gcloudStep env s = some s') :
    s'.client.session = s.client.session ∨ s'.client.session = .closed ∨
      s'.client.session = .tcp ∧ s'.gcloud.dialing = true := by
  cases hg : s.gcloud with
  | get | wait =>
    simp only [gcloudStep, hg] at h
    split at h <;> cases h <;> exact Or.inl rfl
  | clientInit =>
    simp only [gcloudStep, hg, Option.some.injEq] at h
    subst h
    exact Or.inr (Or.inl rfl)
  | create =>
    obtain ⟨-, rfl⟩ := gcloudStep_create hg h
    exact Or.inl rfl
  | dispatch | setConnecting | stopTimer | clearConnected | markConnecting =>
    simp only [gcloudStep, hg, Option.some.injEq] at h
    subst h
    exact Or.inl rfl
  | call c p =>
    simp only [gcloudStep, hg] at h
    rcases gcloudCall_session h with hsame | hclosed | ⟨rfl, htcp⟩
    · exact Or.inl hsame
    · exact Or.inr (Or.inl hclosed)
    · refine Or.inr (Or.inr ⟨htcp, ?_⟩)
      rcases gcloudCall_place h with ⟨q, hq, _⟩ | hret
      · rw [hq]
        rfl
      · rw [hret]
        rfl

theorem mqttStep_session {env : Env} {s s' : State} (h : mqttStep env s = some s') :
    s'.client.session = s.client.session ∨ s'.client.session = .closed ∨
      accepts s (.mqtt env) = true := by
  cases mqttStep_effect h with
  | calm hcalm _ _ => exact Or.inl hcalm.session
  | exit hcalm _ _ _ => exact Or.inl hcalm.session
  | lose c rev _ _ _ => exact Or.inr (Or.inl rfl)
  | accept rev hm hopen hdrained hpacket =>
    exact Or.inr (Or.inr (by simp [accepts, hm, hopen, hdrained, hpacket]))
  | connack rev p _ hconn =>
    rw [(connackStep_frame hconn).client]
    exact Or.inl rfl
  | disc c rev a p _ hdisc => exact Or.inl (mqttDisc_frame hdisc).1.session

/-- A session that is up has been up, or comes up with an accepted CONNACK. -/
theorem session_of_step {s s' : State} {a : Act} (h : step s a = some s')
    (hup : s'.client.session = .connected) :
    s.client.session = .connected ∨ accepts s a = true := by
  cases a with
  | gcloud env =>
    rcases gcloudStep_session h with hsame | hclosed | ⟨htcp, _⟩
    · exact Or.inl (hsame ▸ hup)
    · rw [hclosed] at hup
      cases hup
    · rw [htcp] at hup
      cases hup
  | mqtt env =>
    rcases mqttStep_session h with hsame | hclosed | hacc
    · exact Or.inl (hsame ▸ hup)
    · rw [hclosed] at hup
      cases hup
    · exact Or.inr hacc
  | start n c | app n env | timer | timeout t =>
    rw [(outside_frame rfl h).client] at hup
    exact Or.inl hup

/-- The step that accepts a CONNACK opens the session and hands over to the handler. -/
theorem accepts_cases {s s' : State} {a : Act} (h : step s a = some s')
    (hacc : accepts s a = true) : ∃ rev, s.mqtt = .call .input rev .body ∧ s' = { s with
      client := { s.client.unlock .mqtt with session := .connected }
      acks := s.client.origin :: s.acks
      mqtt := .connack rev .give } := by
  cases a with
  | start n c | app n env | gcloud env | timer | timeout t => cases hacc
  | mqtt env =>
    simp only [accepts] at hacc
    split at hacc
    · rename_i rev hm
      simp only [Bool.and_eq_true, bne_iff_ne, ne_eq, beq_iff_eq] at hacc
      obtain ⟨⟨hopen, hdrained⟩, hpacket⟩ := hacc
      simp only [step, mqttStep, hm, mqttCall, mqttBody, hopen, hdrained, hpacket, inputBody,
        Nat.lt_irrefl, or_self, if_false, Option.some.injEq] at h
      exact ⟨rev, hm, h.symm⟩
    · cases hacc

theorem gcloudStep_timer {env : Env} {s s' : State} (h : gcloudStep env s = some s') :
    s'.timer = s.timer ∨ s'.timer = false := by
  cases hg : s.gcloud with
  | get | wait =>
    simp only [gcloudStep, hg] at h
    split at h <;> cases h <;> exact Or.inl rfl
  | stopTimer =>
    simp only [gcloudStep, hg, Option.some.injEq] at h
    subst h
    exact Or.inr rfl
  | create =>
    obtain ⟨-, rfl⟩ := gcloudStep_create hg h
    exact Or.inl rfl
  | clientInit | dispatch | setConnecting | clearConnected | markConnecting =>
    simp only [gcloudStep, hg, Option.some.injEq] at h
    subst h
    exact Or.inl rfl
  | call c p =>
    simp only [gcloudStep, hg] at h
    exact (gcloudCall_frame h).1.timer

theorem mqttStep_timer {env : Env} {s s' : State} (h : mqttStep env s = some s') :
    s'.timer = s.timer ∨ s'.timer = false ∨ startsTimer s (.mqtt env) = true := by
  cases mqttStep_effect h with
  | calm hcalm _ _ => exact Or.inl hcalm.timer
  | exit hcalm _ _ _ => exact Or.inl hcalm.timer
  | lose c rev _ _ _ | accept rev _ _ _ _ => exact Or.inl rfl
  | connack rev p hm hconn =>
    cases p with
    | startTimer => exact Or.inr (Or.inr (by simp [startsTimer, hm]))
    | give | setConnected | clearConnecting =>
      cases hconn
      exact Or.inl rfl
    | putSubscribe | putWait =>
      simp only [connackStep] at hconn
      split at hconn <;> cases hconn <;> exact Or.inl rfl
  | disc c rev a p _ hdisc => exact (mqttDisc_frame hdisc).1.timer.imp_right Or.inl

/-- A timer that runs has been running, or is started in the handler of a CONNACK. -/
theorem timer_of_step {s s' : State} {a : Act} (h : step s a = some s') (hrun : s'.timer = true) :
    s.timer = true ∨ startsTimer s a = true := by
  cases a with
  | gcloud env =>
    rcases gcloudStep_timer h with hsame | hoff
    · exact Or.inl (hsame ▸ hrun)
    · rw [hoff] at hrun
      cases hrun
  | mqtt env =>
    rcases mqttStep_timer h with hsame | hoff | hstart
    · exact Or.inl (hsame ▸ hrun)
    · rw [hoff] at hrun
      cases hrun
    · exact Or.inr hstart
  | start n c | app n env | timer | timeout t =>
    rw [(outside_frame rfl h).timer] at hrun
    exact Or.inl hrun

/-- The mqtt thread writes `connected` in the handler of an accepted CONNACK only. -/
theorem mqttStep_connected {env : Env} {s s' : State} (h : mqttStep env s = some s') :
    s'.connected = s.connected ∨ s.mqtt.phase = .accepting ∧ s'.connected = true := by
  cases mqttStep_effect h with
  | calm hcalm _ _ => exact Or.inl hcalm.connected
  | exit hcalm _ _ _ => exact Or.inl hcalm.connected
  | lose c rev _ _ _ | accept rev _ _ _ _ => exact Or.inl rfl
  | connack rev p hm hconn =>
    cases p with
    | setConnected =>
      cases hconn
      exact Or.inr ⟨by rw [hm]; rfl, rfl⟩
    | give | clearConnecting | startTimer =>
      cases hconn
      exact Or.inl rfl
    | putSubscribe | putWait =>
      simp only [connackStep] at hconn
      split at hconn <;> cases hconn <;> exact Or.inl rfl
  | disc c rev a p _ hdisc => exact Or.inl (mqttDisc_frame hdisc).1.connected

/-- The handler of an accepted CONNACK starts when the session comes up. -/
theorem mqttStep_accepting {env : Env} {s s' : State} (h : mqttStep env s = some s')
    (hphase : s'.mqtt.phase = .accepting) :
    s.mqtt.phase = .accepting ∨ accepts s (.mqtt env) = true := by
  cases mqttStep_effect h with
  | calm _ _ hs' =>
    rw [hs'] at hphase
    cases hphase
  | exit _ _ _ hdead =>
    rw [hdead] at hphase
    cases hphase
  | lose c rev _ _ _ => cases hphase
  | accept rev hm hopen hdrained hpacket =>
    exact Or.inr (by simp [accepts, hm, hopen, hdrained, hpacket])
  | connack rev p hm hconn =>
    cases p with
    | give => exact Or.inl (by rw [hm]; rfl)
    | setConnected | clearConnecting | startTimer =>
      cases hconn
      cases hphase
    | putSubscribe | putWait =>
      simp only [connackStep] at hconn
      split at hconn <;> cases hconn <;> cases hphase
  | disc c rev a p _ hdisc =>
    cases p with
    | stopTimer | purge | abort | leave =>
      cases hdisc
      cases hphase
    | check =>
      simp only [mqttDisc] at hdisc
      split at hdisc <;> cases hdisc <;> cases hphase
    | connect q => cases hdisc

/-- The gcloud thread is in the handler of a loss by the delivery of the event, or it was
there before. -/
theorem gcloudStep_handling {env : Env} {s s' : State} {x : Activation × DiscPc}
    (h : gcloudStep env s = some s') (hin : s'.gcloud.handler = some x) :
    delivers s (.gcloud env) = true ∧ s'.client.session = .closed ∨
      ∃ y, s.gcloud.handler = some y ∧ (x.2.unpurged = true → y.2.unpurged = true) ∧
        s'.client.session = s.client.session := by
  have hout : s'.gcloud.handler ≠ none := by
    rw [hin]
    rintro ⟨⟩
  cases hg : s.gcloud with
  | get | wait =>
    simp only [gcloudStep, hg] at h
    split at h <;> cases h <;> exact absurd rfl hout
  | dispatch =>
    simp only [gcloudStep, hg, Option.some.injEq] at h
    subst h
    exact absurd (dispatch_handler env s) hout
  | setConnecting =>
    simp only [gcloudStep, hg, Option.some.injEq] at h
    subst h
    refine absurd ?_ hout
    dsimp only
    split <;> rfl
  | create =>
    obtain ⟨-, rfl⟩ := gcloudStep_create hg h
    exact absurd rfl hout
  | clientInit | stopTimer | clearConnected | markConnecting =>
    simp only [gcloudStep, hg, Option.some.injEq] at h
    subst h
    exact absurd rfl hout
  | call c p =>
    simp only [gcloudStep, hg] at h
    cases p with
    | lock | lockWait | relock ok | relockWait ok =>
      simp only [gcloudCall] at h
      split at h <;> cases h <;> exact absurd rfl hout
    | unlock ok =>
      cases h
      exact absurd (gcloudReturn_handler c) hout
    | body =>
      simp only [gcloudCall] at h
      split at h <;> rename_i hbody <;> cases h
      · exact absurd rfl hout
      · exact Or.inl ⟨by simp [delivers, hg, hbody], rfl⟩
    | disc a p =>
      refine Or.inr ⟨(a, p), rfl, ?_⟩
      cases p with
      | stopTimer =>
        cases h
        exact ⟨fun _ => rfl, rfl⟩
      | purge | abort =>
        cases h
        cases hin
        exact ⟨(by rintro ⟨⟩), rfl⟩
      | check =>
        simp only [gcloudCall, gcloudDisc] at h
        split at h <;> cases h <;> cases hin <;> exact ⟨(by rintro ⟨⟩), rfl⟩
      | leave =>
        cases h
        exact absurd rfl hout
      | connect r =>
        obtain ⟨_, rfl⟩ | ⟨_, _, _, rfl⟩ := gcloudDisc_connect_cases h <;> cases hin <;>
          exact ⟨(by rintro ⟨⟩), rfl⟩

theorem mqttStep_handling {env : Env} {s s' : State} {x : Activation × DiscPc}
    (h : mqttStep env s = some s') (hin : s'.mqtt.handler = some x) :
    delivers s (.mqtt env) = true ∧ s'.client.session = .closed ∨
      ∃ y, s.mqtt.handler = some y ∧ (x.2.unpurged = true → y.2.unpurged = true) ∧
        s'.client.session = s.client.session := by
  have hout : s'.mqtt.handler ≠ none := by
    rw [hin]
    rintro ⟨⟩
  cases mqttStep_effect h with
  | calm hcalm _ _ => exact absurd hcalm.handler hout
  | exit hcalm _ _ _ => exact absurd hcalm.handler hout
  | lose c rev hm hbody _ => exact Or.inl ⟨by simp [delivers, hm, hbody], rfl⟩
  | accept rev _ _ _ _ => exact absurd rfl hout
  | connack rev p _ hconn =>
    cases p with
    | give | setConnected | clearConnecting | startTimer =>
      cases hconn
      exact absurd rfl hout
    | putSubscribe | putWait =>
      simp only [connackStep] at hconn
      split at hconn <;> cases hconn <;> exact absurd rfl hout
  | disc c rev a p hm hdisc =>
    refine Or.inr ⟨(a, p), by rw [hm]; rfl, ?_⟩
    cases p with
    | stopTimer =>
      cases hdisc
      exact ⟨fun _ => rfl, rfl⟩
    | purge =>
      cases hdisc
      cases hin
      exact ⟨(by rintro ⟨⟩), rfl⟩
    | check =>
      simp only [mqttDisc] at hdisc
      split at hdisc <;> cases hdisc <;> cases hin <;> exact ⟨(by rintro ⟨⟩), rfl⟩
    | abort | leave =>
      cases hdisc
      exact absurd rfl hout
    | connect q => cases hdisc

/-- The mqtt thread is moved by the gcloud thread only when it is aborted. -/
theorem gcloudStep_mqtt {env : Env} {s s' : State} (h : gcloudStep env s = some s') :
    s'.mqtt = s.mqtt ∨ s'.mqtt = .poll ∨ s'.mqtt = .dead := by
  cases hg : s.gcloud with
  | get | wait =>
    simp only [gcloudStep, hg] at h
    split at h <;> cases h <;> exact Or.inl rfl
  | create =>
    obtain ⟨-, rfl⟩ := gcloudStep_create hg h
    exact Or.inr (Or.inl rfl)
  | dispatch | clientInit | setConnecting | stopTimer | clearConnected | markConnecting =>
    simp only [gcloudStep, hg, Option.some.injEq] at h
    subst h
    exact Or.inl rfl
  | call c p =>
    simp only [gcloudStep, hg] at h
    exact (gcloudCall_frame h).2.imp_right Or.inr

/-- The other threads move the mqtt thread only to abort it. -/
theorem mqtt_of_other {s s' : State} {a : Act} (ha : ∀ env, a ≠ .mqtt env)
    (h : step s a = some s') :
    s'.mqtt = s.mqtt ∨ s'.mqtt = .poll ∨ s'.mqtt = .dead := by
  cases a with
  | mqtt env => exact absurd rfl (ha env)
  | gcloud env => exact gcloudStep_mqtt h
  | start n c | app n env | timer | timeout u => exact Or.inl (outside_frame rfl h).mqtt

/-- A thread in the handler of a loss has no session before it: the gcloud thread opens
none meanwhile, and the mqtt thread at most sees the gcloud thread dial the next. -/
structure LossInv (s : State) : Prop where
  gcloud : s.gcloud.handler ≠ none → s.client.session = .closed
  mqtt : s.mqtt.handler ≠ none →
    s.client.session = .closed ∨ s.client.session = .tcp ∧ s.gcloud.dialing = true

theorem lossInv_start : LossInv State.start := ⟨fun _ => rfl, fun _ => Or.inl rfl⟩

/-- While it dials, the gcloud thread goes on, or starts the mqtt thread anew. -/
theorem gcloudStep_dialing {env : Env} {s s' : State} (h : gcloudStep env s = some s')
    (hdial : s.gcloud.dialing = true) : s'.gcloud.dialing = true ∨ s'.mqtt = .poll := by
  cases hg : s.gcloud with
  | create =>
    obtain ⟨-, rfl⟩ := gcloudStep_create hg h
    exact Or.inr rfl
  | call c p =>
    cases c with
    | connect =>
      simp only [gcloudStep, hg] at h
      refine Or.inl ?_
      rcases gcloudCall_place h with ⟨q, hq, _⟩ | hret
      · rw [hq]
        rfl
      · rw [hret]
        rfl
    | publish m id | subscribe | disconnect =>
      rw [hg] at hdial
      cases hdial
  | get | wait | dispatch | clientInit | setConnecting | stopTimer | clearConnected
  | markConnecting =>
    rw [hg] at hdial
    cases hdial

theorem lossInv_gcloud {env : Env} {s s' : State} (h : LossInv s)
    (hstep : gcloudStep env s = some s') : LossInv s' := by
  constructor
  · intro hin
    obtain ⟨x, hx⟩ := Option.ne_none_iff_exists'.mp hin
    rcases gcloudStep_handling hstep hx with ⟨_, hclosed⟩ | ⟨y, hy, _, hsame⟩
    · exact hclosed
    · rw [hsame]
      apply h.gcloud
      rw [hy]
      rintro ⟨⟩
  · intro hin
    have hsame : s'.mqtt = s.mqtt := by
      rcases gcloudStep_mqtt hstep with hsame | hpoll | hdead
      · exact hsame
      · exact absurd (by rw [hpoll]; rfl) hin
      · exact absurd (by rw [hdead]; rfl) hin
    rcases gcloudStep_session hstep with hsession | hclosed | htcp
    · rw [hsession]
      rw [hsame] at hin
      refine (h.mqtt hin).imp_right ?_
      rintro ⟨htcp, hdial⟩
      refine ⟨htcp, (gcloudStep_dialing hstep hdial).resolve_right ?_⟩
      intro hpoll
      rw [← hsame, hpoll] at hin
      exact hin rfl
    · exact Or.inl hclosed
    · exact Or.inr htcp

theorem lossInv_mqtt {env : Env} {s s' : State} (h : LossInv s)
    (hstep : mqttStep env s = some s') : LossInv s' := by
  have hg := mqttStep_gcloud hstep
  constructor
  · intro hin
    rw [hg] at hin
    have hclosed := h.gcloud hin
    rcases mqttStep_session hstep with hsame | hclosed' | hacc
    · exact hsame.trans hclosed
    · exact hclosed'
    · simp only [accepts, hclosed] at hacc
      split at hacc <;> cases hacc
  · intro hin
    obtain ⟨x, hx⟩ := Option.ne_none_iff_exists'.mp hin
    rcases mqttStep_handling hstep hx with ⟨_, hclosed⟩ | ⟨y, hy, _, hsame⟩
    · exact Or.inl hclosed
    · rw [hsame, hg]
      apply h.mqtt
      rw [hy]
      rintro ⟨⟩

theorem lossInv_step (s : State) (a : Act) (s' : State) (h : LossInv s)
    (hstep : machine.step s a = some s') : LossInv s' := by
  change step s a = some s' at hstep
  cases a with
  | gcloud env => exact lossInv_gcloud h hstep
  | mqtt env => exact lossInv_mqtt h hstep
  | start n c | app n env | timer | timeout t =>
    have hf := outside_frame rfl hstep
    refine ⟨?_, ?_⟩
    · rw [hf.gcloud, hf.client]
      exact h.gcloud
    · rw [hf.mqtt, hf.gcloud, hf.client]
      exact h.mqtt

/-- No session is up while a thread is in the handler of a loss. -/
theorem LossInv.down {s : State} (h : LossInv s)
    (hin : s.gcloud.handler ≠ none ∨ s.mqtt.handler ≠ none) :
    s.client.session ≠ .connected := by
  intro hup
  rcases hin with hin | hin
  · rw [h.gcloud hin] at hup
    cases hup
  · rcases h.mqtt hin with hclosed | ⟨htcp, _⟩
    · rw [hclosed] at hup
      cases hup
    · rw [htcp] at hup
      cases hup

end NcsProjects.Gcloud
