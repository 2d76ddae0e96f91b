import NcsProjects.GcloudFlags

/-!
What becomes of a DISCONNECT command. It is honoured if nothing is under way when it
leaves gcloud_msgq that could still set `connected` or queue a CONNECT: the gcloud
thread then disconnects an established session or finds nothing to do, and the
module stays down until the application connects again.
-/
namespace NcsProjects.Gcloud

open MessageQueues PublishPayload TransitionRuns

def GcloudEvent.isDisconnect : GcloudEvent → Bool
  | .disconnect _ => true
  | _ => false

/-- The DISCONNECT of call `k`, once accepted, is no longer in gcloud_msgq: taken or
purged, or handed to the waiting gcloud thread at once. -/
inductive Leaves (k : ℕ) (s s' : State) : Prop
  | left (hin : .disconnect k ∈ s.kernel.msgq.buf) (hout : .disconnect k ∉ s'.kernel.msgq.buf)
  | handed (n : ℕ) (hput : s.app n = .put (.disconnect k)) (hdone : s'.app n = .idle)
      (hout : .disconnect k ∉ s'.kernel.msgq.buf)

/-- From the state `s` in which the command has left to the state `t`, the request is
honoured: at a blocking point `connected` is false, no CONNACK has set it, and no
CONNECT has been queued. -/
structure Honoured (s t : State) : Prop where
  down : Blocked t → t.connected = false
  connacks : t.connacks = s.connacks
  connects : t.kernel.connects = s.kernel.connects

/-- Nothing but the queue can still set `connected`: no gcloud_connect is about to
queue its CONNECT, none is in execution, no handshake is in flight, and no accepted
CONNACK waits to be recorded. -/
structure Settled (s : State) : Prop where
  callers : ∀ n call, s.app n ≠ .connect call .put
  attempt : s.gcloud ≠ .clientInit ∧ s.gcloud.attempting = false
  handshake : s.client.session = .tcp → s.mqtt.phase = .gone
  accepting : s.mqtt.phase ≠ .accepting

/-- The module is settled in the state in which the DISCONNECT leaves the queue. If the
gcloud thread takes it, no CONNECT is behind it. If the gcloud thread purges it, both
flags are down and its last command was no CONNECT. If the mqtt thread purges it,
`connected` is false, the session is lost, no other handler runs, and the gcloud
thread does not wait with a CONNECT as its last command. -/
def DisconnectSafe (s : State) (a : Act) : Prop :=
  Settled s ∧ match a with
  | .gcloud _ =>
    match s.gcloud with
    | .get => s.kernel.msgq.All fun e => e.isConnect = false
    | _ => s.connected = false ∧ s.connecting = false ∧
        s.kernel.event.any GcloudEvent.isConnect = false
  | .mqtt _ => s.connected = false ∧ s.client.session = .closed ∧ s.client.remaining = 0 ∧
      s.gcloud.handler = none ∧
      (s.kernel.event.any GcloudEvent.isConnect = true → s.gcloud = .get)
  | _ => True

/-- The application does not call gcloud_connect, and the broker does not send another
CONNACK on an accepted session. -/
def quietAfter (s : State) : Act → Bool
  | .start _ .connect => false
  | .mqtt env =>
    match s.mqtt with
    | .call .input _ .body =>
      s.client.session != .connected || s.client.remaining != 0 || env.packet != .connack true
    | _ => true
  | _ => true

/-- The gcloud thread is about to clear `connected` for a DISCONNECT. -/
def Parting (s : State) : Prop :=
  match s.gcloud with
  | .wait => s.kernel.msgq.readers = [] ∧ s.kernel.event.any GcloudEvent.isDisconnect = true
  | .dispatch | .stopTimer | .clearConnected =>
    s.kernel.event.any GcloudEvent.isDisconnect = true
  | _ => False

/-- The gcloud thread is not on the way to a handler that would reconnect. -/
def Harmless (s : State) : Prop :=
  match s.gcloud with
  | .stopTimer | .clearConnected | .markConnecting =>
    s.client.session ≠ .connected ∨ s.kernel.event.any GcloudEvent.isDisconnect = true
  | .call c .lock | .call c .lockWait | .call c .body =>
    s.client.session ≠ .connected ∨ c = .disconnect ∧ s.connecting = false
  | .call _ (.disc _ .stopTimer) | .call _ (.disc _ .purge) | .call _ (.disc _ .check) =>
    s.connecting = false
  | .call _ (.disc _ .abort) | .call _ (.disc _ (.connect .put)) => False
  | _ => True

/-- A CONNECT that is the last command of the gcloud thread is not dispatched again:
the mqtt thread has no purge to come that would wake it. -/
structure Asleep (s : State) : Prop where
  gcloud : s.gcloud = .get ∨ s.gcloud = .wait ∧ s.kernel.msgq.readers = [.gcloud]
  closed : s.client.session = .closed
  drained : s.client.remaining = 0
  purged : ∀ c rev a p, s.mqtt = .call c rev (.disc a p) → p ≠ .stopTimer ∧ p ≠ .purge

/-- The module after a DISCONNECT. -/
structure Parted (s : State) : Prop extends Settled s where
  queue : s.kernel.msgq.All fun e => e.isConnect = false
  event : s.kernel.event.any GcloudEvent.isConnect = true → Asleep s
  flag : s.connected = true → Parting s
  harmless : Harmless s

theorem Parted.not_connected {s : State} (h : Parted s) (hp : ¬ Parting s) :
    s.connected = false := by
  by_contra hc
  exact hp (h.flag (by simpa using hc))

/-- A blocked gcloud thread is not about to clear the flag, so the flag is down. -/
theorem Parted.down {s : State} (h : Parted s) (hb : Blocked s) : s.connected = false := by
  refine h.not_connected fun hp => ?_
  have hg := hb.1
  unfold Parting at hp
  cases hpc : s.gcloud with
  | wait =>
    rw [hpc] at hp
    simp [gcloudBlocked, hpc, hp.1] at hg
  | dispatch | stopTimer | clearConnected => simp [gcloudBlocked, hpc] at hg
  | get | clientInit | setConnecting | create | markConnecting | call c p =>
    rw [hpc] at hp
    exact hp

/-- What a step of another thread may do behind the back of the gcloud thread. -/
structure OtherStep (s s' : State) : Prop where
  gcloud : s'.gcloud = s.gcloud
  event : s.kernel.msgq.readers = [] →
    s'.kernel.event = s.kernel.event ∧ s'.kernel.msgq.readers = []
  connected : s'.connected = true → s.connected = true
  connecting : s'.connecting = true → s.connecting = true
  session : s'.client.session = .connected → s.client.session = .connected

theorem Parting.other {s s' : State} (h : Parting s) (hq : QueueInv s) (ho : OtherStep s s') :
    Parting s' := by
  unfold Parting at h ⊢
  rw [ho.gcloud]
  cases hg : s.gcloud with
  | wait =>
    rw [hg] at h
    obtain ⟨hevent, hnil⟩ := ho.event h.1
    exact ⟨hnil, by rw [hevent]; exact h.2⟩
  | dispatch | stopTimer | clearConnected =>
    rw [hg] at h
    rw [(ho.event (hq.readers_nil (by rw [hg]; rintro ⟨⟩))).1]
    exact h
  | get | clientInit | setConnecting | create | markConnecting | call c p =>
    rw [hg] at h
    exact h

theorem Harmless.other {s s' : State} (h : Harmless s) (hq : QueueInv s) (ho : OtherStep s s') :
    Harmless s' := by
  have hcing : s.connecting = false → s'.connecting = false := by
    intro hf
    by_contra hc
    rw [ho.connecting (by simpa using hc)] at hf
    cases hf
  unfold Harmless at h ⊢
  rw [ho.gcloud]
  cases hg : s.gcloud with
  | stopTimer | clearConnected | markConnecting =>
    rw [hg] at h
    rw [(ho.event (hq.readers_nil (by rw [hg]; rintro ⟨⟩))).1]
    exact h.imp (fun hs hs' => hs (ho.session hs')) id
  | get | wait | dispatch | clientInit | setConnecting | create => trivial
  | call c p =>
    rw [hg] at h
    cases p with
    | lock | lockWait | body =>
      exact h.imp (fun hs hs' => hs (ho.session hs')) fun hd => ⟨hd.1, hcing hd.2⟩
    | relock ok | relockWait ok | unlock ok => trivial
    | disc a q =>
      cases q with
      | stopTimer | purge | check => exact hcing h
      | abort => exact h
      | leave => trivial
      | connect r =>
        cases r with
        | put => exact h
        | putWait | take err | takeWait err | ret err => trivial

/-- A step behind the back of the gcloud thread keeps the module parted. -/
theorem Parted.other {s s' : State} (h : Parted s) (hq : QueueInv s) (hs : Settled s')
    (ho : OtherStep s s')
    (hf : Kernel.Feeds (fun e => e.isConnect = false) s.kernel s'.kernel)
    (hasleep : Asleep s → (s.kernel.msgq.readers = [.gcloud] →
      s'.kernel.msgq.readers = [.gcloud]) → Asleep s') : Parted s' := by
  refine ⟨hs, hf.all, ?_, fun hc => (h.flag (ho.connected hc)).other hq ho, h.harmless.other hq ho⟩
  intro hevent
  rcases hf.event with ⟨hsame, hreading⟩ | ⟨e, hnew, he⟩
  · rw [hsame] at hevent
    exact hasleep (h.event hevent) hreading
  · simp [hnew, he] at hevent

theorem Settled.callers_of_app {s s' : State} (h : Settled s) (happ : s'.app = s.app) :
    ∀ n call, s'.app n ≠ .connect call .put := by
  rw [happ]
  exact h.callers

/-- Only a call of gcloud_connect brings a thread to its put. -/
theorem callers_outside {s s' : State} {a : Act} (h : ∀ n call, s.app n ≠ .connect call .put)
    (hquiet : quietAfter s a = true) (hstep : step s a = some s') :
    ∀ n call, s'.app n ≠ .connect call .put := by
  intro n call
  by_cases hstart : ∃ c, a = .start n c
  · obtain ⟨c, rfl⟩ := hstart
    simp only [step, apiStart] at hstep
    split at hstep <;> cases hstep
    cases c with
    | connect => cases hquiet
    | disconnect | publish m | publishState m => simp
  by_cases happ : ∃ env, a = .app n env
  · obtain ⟨env, rfl⟩ := happ
    simp only [step, appStep] at hstep
    split at hstep
    · cases hstep
    · cases hstep
      simp
    · split at hstep
      · cases hstep
      · rename_i hconn
        cases hstep
        intro heq
        simp only [Function.update_self, AppPc.connect.injEq] at heq
        exact connStep_ne_put hconn heq.2
    · cases hstep
      simp only [Function.update_self]
      split <;> rintro ⟨⟩
    · split at hstep <;> cases hstep <;> simp
    · split at hstep <;> cases hstep
      simp
  · rw [app_of_other (fun c hc => hstart ⟨c, hc⟩) (fun env he => happ ⟨env, he⟩) hstep]
    exact h n call

theorem parted_outside {s s' : State} {a : Act} (h : Parted s) (hq : QueueInv s)
    (ha : a.outside = true) (hquiet : quietAfter s a = true) (hstep : step s a = some s') :
    Parted s' := by
  have hframe := outside_frame ha hstep
  have hother : ∀ env, a ≠ .gcloud env := by
    rintro env rfl
    cases ha
  have hpurge : purges s a = false := by
    cases a with
    | gcloud env | mqtt env => cases ha
    | start n c | app n env | timer | timeout t => rfl
  have hf := step_feeds (P := fun e => e.isConnect = false) hstep hpurge hq h.queue (fun _ he => he)
    (fun n _ call _ hput => absurd hput (h.callers n call))
    (fun env _ _ hg _ => absurd hg (hother env))
  refine h.other hq ⟨callers_outside h.callers hquiet hstep, ?_, ?_, ?_⟩
    ⟨hframe.gcloud, event_of_other hother hstep, fun hc => hframe.connected.symm.trans hc,
      fun hc => hframe.connecting.symm.trans hc, by rw [hframe.client]; exact id⟩ hf ?_
  · rw [hframe.gcloud]
    exact h.attempt
  · rw [hframe.client, hframe.mqtt]
    exact h.handshake
  · rw [hframe.mqtt]
    exact h.accepting
  · intro hz hreading
    refine ⟨?_, by rw [hframe.client]; exact hz.closed, by rw [hframe.client]; exact hz.drained, ?_⟩
    · rw [hframe.gcloud]
      exact hz.gcloud.imp id fun hw => ⟨hw.1, hreading hw.2⟩
    · rw [hframe.mqtt]
      exact hz.purged

/-- A step of the mqtt thread other than its purge. -/
theorem Parted.of_mqttStep {env : Env} {s s' : State} (h : Parted s) (hq : QueueInv s)
    (hstep : mqttStep env s = some s') (hpurge : purges s (.mqtt env) = false)
    (halive : s.mqtt.phase ≠ .gone) (hacc : s'.mqtt.phase ≠ .accepting)
    (hsession : s'.client.session = s.client.session ∨ s'.client.session = .closed)
    (hconnected : s'.connected = true → s.connected = true)
    (hconnecting : s'.connecting = true → s.connecting = true)
    (hasleep : Asleep s → s'.client.session = .closed ∧ s'.client.remaining = 0 ∧
      ∀ c rev a p, s'.mqtt = .call c rev (.disc a p) → p ≠ .stopTimer ∧ p ≠ .purge) :
    Parted s' := by
  have hgcloud := mqttStep_gcloud hstep
  have hsame : ∀ q : SessionState, q ≠ .closed → s'.client.session = q → s.client.session = q := by
    intro q hne hs
    rcases hsession with heq | hcl
    · exact heq.symm.trans hs
    · exact absurd (hs.symm.trans hcl) hne
  have hsettled : Settled s' := by
    refine ⟨h.callers_of_app (mqttStep_api hstep).app, by rw [hgcloud]; exact h.attempt, ?_, hacc⟩
    intro ht
    exact absurd (h.handshake (hsame _ (by rintro ⟨⟩) ht)) halive
  have hfeeds := step_feeds (a := .mqtt env) (P := fun e => e.isConnect = false) hstep hpurge hq
    h.queue (fun _ he => he) (fun _ _ _ => (by rintro ⟨⟩)) (fun _ _ _ => (by rintro ⟨⟩))
  refine h.other hq hsettled ⟨hgcloud,
    event_of_other (a := .mqtt env) (fun _ => (by rintro ⟨⟩)) hstep, hconnected,
    hconnecting, hsame _ (by rintro ⟨⟩)⟩ hfeeds fun hz hreading => ?_
  obtain ⟨hclosed, hdrained, hpurged⟩ := hasleep hz
  refine ⟨?_, hclosed, hdrained, hpurged⟩
  rw [hgcloud]
  exact hz.gcloud.imp id fun hw => ⟨hw.1, hreading hw.2⟩

theorem purges_of_serving {s : State} {env : Env} (hs : s.mqtt.phase = .serving) :
    purges s (.mqtt env) = false := by
  simp only [purges]
  split
  · rename_i hm
    rw [hm] at hs
    cases hs
  · rfl

theorem Parted.calm {env : Env} {s s' : State} (h : Parted s) (hq : QueueInv s)
    (hstep : mqttStep env s = some s') (hcalm : Calm s s') (hs : s.mqtt.phase = .serving)
    (hs' : s'.mqtt.phase ≠ .accepting) : Parted s' := by
  refine h.of_mqttStep hq hstep (purges_of_serving hs) (by rw [hs]; rintro ⟨⟩) hs'
    (Or.inl hcalm.session)
    (fun hc => hcalm.connected.symm.trans hc) (fun hc => hcalm.connecting.symm.trans hc)
      fun hz => ?_
  have hclosed := hcalm.session.trans hz.closed
  refine ⟨hclosed, hcalm.closed_drained (fun _ => hz.drained) hclosed, ?_⟩
  intro c rev a p hm
  have hhandler := hcalm.handler
  rw [hm] at hhandler
  cases hhandler

theorem parted_connack {env : Env} {rev : Revents} {p : ConnackPc} {s s' : State} (h : Parted s)
    (hq : QueueInv s) (hm : s.mqtt = .connack rev p) (hstep : mqttStep env s = some s')
    (hconn : connackStep env rev p s = some s') : Parted s' := by
  have hgo : s'.mqtt.phase ≠ .accepting → s'.client = s.client → s'.mqtt.handler = none →
      (s'.connected = true → s.connected = true) →
      (s'.connecting = true → s.connecting = true) → Parted s' := by
    intro hacc hcl hhandler hconnected hconnecting
    refine h.of_mqttStep hq hstep (by simp [purges, hm]) (by rw [hm]; cases p <;> rintro ⟨⟩) hacc
      (Or.inl (by rw [hcl])) hconnected hconnecting fun hz => ?_
    refine ⟨by rw [hcl]; exact hz.closed, by rw [hcl]; exact hz.drained, ?_⟩
    intro c rev' a q hm'
    rw [hm'] at hhandler
    cases hhandler
  cases p with
  | give | setConnected => exact absurd (by rw [hm]; rfl) h.accepting
  | clearConnecting =>
    cases hconn
    exact hgo (by rintro ⟨⟩) rfl rfl id (by rintro ⟨⟩)
  | startTimer =>
    cases hconn
    exact hgo (by rintro ⟨⟩) rfl rfl id id
  | putSubscribe | putWait =>
    simp only [connackStep] at hconn
    split at hconn <;> cases hconn <;> exact hgo (by rintro ⟨⟩) rfl rfl id id

theorem parted_disc {env : Env} {c : MqttCall} {rev : Revents} {a : Activation} {p : DiscPc}
    {s s' : State} (h : Parted s) (hq : QueueInv s) (hm : s.mqtt = .call c rev (.disc a p))
    (hstep : mqttStep env s = some s') (hdisc : mqttDisc c rev a p s = some s') : Parted s' := by
  have hgo : p ≠ .purge → s'.mqtt.phase ≠ .accepting → s'.client.session = s.client.session →
      s'.client.remaining = s.client.remaining → s'.connected = s.connected →
      s'.connecting = s.connecting →
      (p ≠ .stopTimer → ∀ d rev' b q, s'.mqtt = .call d rev' (.disc b q) →
        q ≠ .stopTimer ∧ q ≠ .purge) → Parted s' := by
    intro hpurge hacc hsession hremaining hconnected hconnecting hpurged
    have hno : purges s (.mqtt env) = false := by
      simp only [purges, hm]
      cases p with
      | purge => exact absurd rfl hpurge
      | stopTimer | check | abort | connect q | leave => rfl
    refine h.of_mqttStep hq hstep hno (by rw [hm]; cases p <;> rintro ⟨⟩) hacc (Or.inl hsession)
      (fun hc => hconnected.symm.trans hc) (fun hc => hconnecting.symm.trans hc) fun hz => ?_
    exact ⟨hsession.trans hz.closed, hremaining.trans hz.drained,
      hpurged (hz.purged c rev a p hm).1⟩
  cases p with
  | stopTimer =>
    cases hdisc
    exact hgo (by rintro ⟨⟩) (by rintro ⟨⟩) rfl rfl rfl rfl fun hne => absurd rfl hne
  | purge =>
    have hsafe := event_of_other (a := .mqtt env) (fun _ => (by rintro ⟨⟩)) hstep
    cases hdisc
    have ho : OtherStep s { s with
        kernel := s.kernel.purge, mqtt := .call c rev (.disc a .check) } :=
      ⟨rfl, hsafe, id, id, id⟩
    refine ⟨⟨h.callers, h.attempt, ?_, (by rintro ⟨⟩)⟩, MsgQ.all_empty, ?_,
      fun hc => (h.flag hc).other hq ho, h.harmless.other hq ho⟩
    · intro ht
      have hgone := h.handshake ht
      rw [hm] at hgone
      cases hgone
    · intro hconn
      exact absurd rfl ((h.event hconn).purged c rev a _ hm).2
  | check =>
    simp only [mqttDisc] at hdisc
    split at hdisc <;> cases hdisc
    all_goals
      refine hgo (by rintro ⟨⟩) (by rintro ⟨⟩) rfl rfl rfl rfl fun _ => ?_
      rintro d rev' b q ⟨⟩
      exact ⟨(by rintro ⟨⟩), (by rintro ⟨⟩)⟩
  | abort | leave =>
    cases hdisc
    exact hgo (by rintro ⟨⟩) (by rintro ⟨⟩) rfl rfl rfl rfl fun _ => (by rintro _ _ _ _ ⟨⟩)
  | connect q => cases hdisc

/-- What the mqtt thread still does leaves the module parted: a first CONNACK finds no
handshake, and a second one does not come. -/
theorem parted_mqtt {env : Env} {s s' : State} (h : Parted s) (hq : QueueInv s)
    (hquiet : quietAfter s (.mqtt env) = true) (hstep : mqttStep env s = some s') :
    Parted s' := by
  cases mqttStep_effect hstep with
  | calm hcalm hs hs' => exact h.calm hq hstep hcalm hs (by rw [hs']; rintro ⟨⟩)
  | exit hcalm hs _ hs' => exact h.calm hq hstep hcalm hs (by rw [hs']; rintro ⟨⟩)
  | lose c rev hm _ hopen =>
    refine h.of_mqttStep hq hstep (by simp [purges, hm]) (by rw [hm]; rintro ⟨⟩) (by rintro ⟨⟩)
      (Or.inr rfl) id id
      fun hz => ?_
    rcases hopen with hs | hr
    · exact absurd hz.closed hs
    · exact absurd hz.drained hr
  | accept rev hm hopen hdrained hpacket =>
    exfalso
    cases hs : s.client.session with
    | closed => exact hopen hs
    | tcp =>
      have hgone := h.handshake hs
      rw [hm] at hgone
      cases hgone
    | connected => simp [quietAfter, hm, hs, hdrained, hpacket] at hquiet
  | connack rev p hm hconn => exact parted_connack h hq hm hstep hconn
  | disc c rev a p hm hdisc => exact parted_disc h hq hm hstep hdisc

/-- A step of the gcloud thread, which has just been awake. -/
theorem Parted.of_gcloudStep {s s' : State} (h : Parted s) (happ : s'.app = s.app)
    (hattempt : s'.gcloud ≠ .clientInit ∧ s'.gcloud.attempting = false)
    (hsession : s'.client.session = .tcp → s.client.session = .tcp) (hm : s'.mqtt = s.mqtt)
    (hqueue : s'.kernel.msgq.All fun e => e.isConnect = false)
    (hevent : s'.kernel.event.any GcloudEvent.isConnect = true → Asleep s')
    (hflag : s'.connected = true → Parting s') (hharmless : Harmless s') : Parted s' :=
  ⟨⟨h.callers_of_app happ, hattempt, fun ht => by rw [hm]; exact h.handshake (hsession ht),
    by rw [hm]; exact h.accepting⟩, hqueue, hevent, hflag, hharmless⟩

/-- A call that is not part of a CONNECT stays so. -/
theorem Parted.attempt_call {s : State} {c : GcloudCall} {p : CallPc} (h : Parted s)
    (hg : s.gcloud = .call c p) (q : CallPc) :
    (GcloudPc.call c q) ≠ .clientInit ∧ (GcloudPc.call c q).attempting = false := by
  have hs := h.attempt.2
  rw [hg, attempting_call c p q] at hs
  exact ⟨(by rintro ⟨⟩), hs⟩

/-- A call of the gcloud thread goes on, or returns to its loop. -/
theorem parted_call {s : State} {c : Client} {d : List Departure} {pc : GcloudPc}
    (h : Parted s) (hc' : c.session = .tcp → s.client.session = .tcp)
    (hevent : s.kernel.event.any GcloudEvent.isConnect = false) (hdown : s.connected = false)
    (hattempt : pc ≠ .clientInit ∧ pc.attempting = false)
    (hharmless : Harmless { s with client := c, departures := d, gcloud := pc }) :
    Parted { s with client := c, departures := d, gcloud := pc } := by
  refine h.of_gcloudStep rfl hattempt hc' rfl h.queue ?_ ?_ hharmless
  · intro hc
    rw [hevent] at hc
    cases hc
  · intro hc
    rw [hdown] at hc
    cases hc

theorem parted_gcloudDisc {c : GcloudCall} {env : Env} {a : Activation} {p : DiscPc}
    {s s' : State} (h : Parted s) (hq : QueueInv s) (hg : s.gcloud = .call c (.disc a p))
    (hevent : s.kernel.event.any GcloudEvent.isConnect = false) (hdown : s.connected = false)
    (hstep : gcloudDisc c env a p s = some s') : Parted s' := by
  have hatt := h.attempt_call hg
  have hhere := h.harmless
  simp only [Harmless, hg] at hhere
  have hlift : ∀ k : Kernel, ∀ t : Bool, ∀ q : DiscPc,
      k.msgq.All (fun e => e.isConnect = false) → k.event = s.kernel.event →
      Harmless { s with kernel := k, timer := t, gcloud := .call c (.disc a q) } →
      Parted { s with kernel := k, timer := t, gcloud := .call c (.disc a q) } := by
    intro k t q hk hke hh
    refine h.of_gcloudStep rfl (hatt _) id rfl hk ?_ ?_ hh
    · intro hc
      change k.event.any _ = true at hc
      rw [hke, hevent] at hc
      cases hc
    · intro hc
      rw [hdown] at hc
      cases hc
  cases p with
  | stopTimer =>
    cases hstep
    exact hlift s.kernel false .purge h.queue rfl hhere
  | purge =>
    cases hstep
    exact hlift s.kernel.purge s.timer .check MsgQ.all_empty rfl hhere
  | check =>
    have hcing : s.connecting = false := hhere
    simp only [gcloudDisc] at hstep
    split at hstep
    · rename_i hup
      simp [hdown, hcing] at hup
    · cases hstep
      exact hlift s.kernel s.timer .leave h.queue rfl trivial
  | abort => exact hhere.elim
  | connect p =>
    obtain ⟨_, rfl⟩ | ⟨p', k, hconn, rfl⟩ := gcloudDisc_connect_cases hstep
    · exact hlift s.kernel s.timer .leave h.queue rfl trivial
    · have hput : p ≠ .put := by
        rintro rfl
        exact hhere
      have hfeeds := connStep_feeds (P := fun e => e.isConnect = false) hconn h.queue
        fun hp => absurd hp hput
      have hsame := (connStep_keeps hconn).event (hq.readers_nil (by rw [hg]; rintro ⟨⟩))
      refine hlift k s.timer (.connect p') hfeeds.all hsame ?_
      have hput' := connStep_ne_put hconn
      cases p' with
      | put => exact absurd rfl hput'
      | putWait | take err | takeWait err | ret err => trivial
  | leave =>
    cases hstep
    exact parted_call (s := s) h id hevent hdown (hatt _) trivial

/-- The body of a library call: an open session is lost only to mqtt_disconnect, and
with both flags down. -/
theorem parted_body {c : GcloudCall} {env : Env} {s s' : State} (h : Parted s)
    (hg : s.gcloud = .call c .body)
    (hevent : s.kernel.event.any GcloudEvent.isConnect = false) (hdown : s.connected = false)
    (hstep : gcloudCall c env .body s = some s') : Parted s' := by
  have hatt := h.attempt_call hg
  have hhere : s.client.session ≠ .connected ∨ c = .disconnect ∧ s.connecting = false := by
    have hh := h.harmless
    simp only [Harmless, hg] at hh
    exact hh
  by_cases hopen : s.client.session = .connected
  · obtain ⟨rfl, hcing⟩ := hhere.resolve_left fun hn => hn hopen
    simp only [gcloudCall, gcloudBody, hopen, ne_eq, not_true_eq_false, if_false,
      Option.some.injEq] at hstep
    subst hstep
    exact parted_call (d := s.departures) h (by rintro ⟨⟩) hevent hdown (hatt _) hcing
  · have hbody : c ≠ .connect → gcloudBody c env s.client s.kernel.event =
        some (false, s.client) := by
      intro hc
      cases c with
      | connect => exact absurd rfl hc
      | publish m id | subscribe | disconnect => simp [gcloudBody, hopen]
    have hc : c ≠ .connect := by
      rintro rfl
      cases (hatt .body).2
    simp only [gcloudCall, hbody hc, Option.some.injEq] at hstep
    subst hstep
    exact parted_call (d := s.departures) h id hevent hdown (hatt _) trivial

theorem parted_gcloudCall {c : GcloudCall} {env : Env} {p : CallPc} {s s' : State}
    (h : Parted s) (hq : QueueInv s) (hg : s.gcloud = .call c p)
    (hstep : gcloudCall c env p s = some s') : Parted s' := by
  have hevent : s.kernel.event.any GcloudEvent.isConnect = false := by
    by_contra hc
    have hz := (h.event (by simpa using hc)).gcloud
    rw [hg] at hz
    rcases hz with hz | ⟨hz, _⟩ <;> cases hz
  have hdown := h.not_connected (by simp [Parting, hg])
  have hatt := h.attempt_call hg
  have hhere := h.harmless
  simp only [Harmless, hg] at hhere
  cases p with
  | lock =>
    simp only [gcloudCall] at hstep
    split at hstep <;> rename_i hlock <;> cases hstep
    all_goals
      obtain ⟨_, rfl⟩ := Prod.mk.inj hlock
      exact parted_call (d := s.departures) h id hevent hdown (hatt _) hhere
  | lockWait =>
    simp only [gcloudCall] at hstep
    split at hstep <;> cases hstep
    exact parted_call (c := s.client) (d := s.departures) h id hevent hdown (hatt _) hhere
  | body => exact parted_body h hg hevent hdown hstep
  | disc a q => exact parted_gcloudDisc h hq hg hevent hdown hstep
  | relock ok =>
    simp only [gcloudCall] at hstep
    split at hstep <;> rename_i hlock <;> cases hstep
    all_goals
      obtain ⟨_, rfl⟩ := Prod.mk.inj hlock
      exact parted_call (d := s.departures) h id hevent hdown (hatt _) trivial
  | relockWait ok =>
    simp only [gcloudCall] at hstep
    split at hstep <;> cases hstep
    exact parted_call (c := s.client) (d := s.departures) h id hevent hdown (hatt _) trivial
  | unlock ok =>
    cases hstep
    refine parted_call (d := s.departures) h id hevent hdown ?_ ?_
    · cases c with
      | connect => cases (hatt .body).2
      | publish m id | subscribe | disconnect => exact ⟨(by rintro ⟨⟩), rfl⟩
    · cases c with
      | connect => cases (hatt .body).2
      | publish m id | subscribe | disconnect => trivial

theorem exists_disconnect {event : Option GcloudEvent}
    (h : event.any GcloudEvent.isDisconnect = true) : ∃ k, event = some (.disconnect k) := by
  obtain ⟨e, rfl, he⟩ := (Option.any_eq_true _ _).mp h
  cases e with
  | disconnect k => exact ⟨k, rfl⟩
  | connect o | publishState m | publish m | reconnectTimeout | subscribe => cases he

theorem parted_gcloud {env : Env} {s s' : State} (h : Parted s) (hq : QueueInv s)
    (hstep : gcloudStep env s = some s') : Parted s' := by
  have hawake : s.gcloud ≠ .get → s.kernel.event.any GcloudEvent.isConnect = false := by
    intro hget
    by_contra hc
    rcases (h.event (by simpa using hc)).gcloud with hz | ⟨_, hz⟩
    · exact hget hz
    · rw [hq.readers_nil_of_step hstep] at hz
      cases hz
  cases hg : s.gcloud with
  | get =>
    have hdown := h.not_connected (by simp [Parting, hg])
    have hfeeds := step_feeds (a := .gcloud env) (P := fun e => e.isConnect = false) hstep
      (by simp [purges, hg]) hq h.queue (fun _ he => he) (fun _ _ _ => (by rintro ⟨⟩))
        (by simp [hg])
    simp only [gcloudStep, hg] at hstep
    split at hstep <;> rename_i hget <;> cases hstep
    · obtain ⟨e, hnew, hin, _, _⟩ := Kernel.get_cases hget
      refine h.of_gcloudStep rfl ⟨(by rintro ⟨⟩), rfl⟩ id rfl hfeeds.all ?_ (by simp [hdown])
        trivial
      intro hc
      simp [hnew, h.queue.buf e hin] at hc
    · have hnil := hq.readers_nil (by rw [hg]; rintro ⟨⟩)
      have hempty := Kernel.get_none hget
      refine h.of_gcloudStep rfl ⟨(by rintro ⟨⟩), rfl⟩ id rfl hfeeds.all ?_ (by simp [hdown])
        trivial
      intro hc
      have hz := h.event hc
      refine ⟨Or.inr ⟨rfl, ?_⟩, hz.closed, hz.drained, hz.purged⟩
      simp [Kernel.pendRead, MsgQ.pendRead, hempty, hnil, Semaphores.enqueue_nil]
  | wait =>
    have hevent := hawake (by rw [hg]; rintro ⟨⟩)
    simp only [gcloudStep, hg] at hstep
    split at hstep <;> cases hstep
    refine h.of_gcloudStep rfl ⟨(by rintro ⟨⟩), rfl⟩ id rfl h.queue (by simp [hevent]) ?_ trivial
    intro hc
    have hp := h.flag hc
    simp only [Parting, hg] at hp
    exact hp.2
  | dispatch =>
    have hevent := hawake (by rw [hg]; rintro ⟨⟩)
    simp only [gcloudStep, hg, Option.some.injEq] at hstep
    subst hstep
    by_cases hc : s.connected = true
    · have hp := h.flag hc
      simp only [Parting, hg] at hp
      have hd : dispatch env s = .stopTimer := by
        obtain ⟨k, he⟩ := exists_disconnect hp
        simp [dispatch, he, hc]
      rw [hd]
      exact h.of_gcloudStep rfl ⟨(by rintro ⟨⟩), rfl⟩ id rfl h.queue (by simp [hevent])
        (fun _ => hp) (Or.inr hp)
    · have hd : dispatch env s = .get := by
        rcases dispatch_cases env s with ⟨hconn, _⟩ | ⟨_, hd | ⟨hup, _⟩⟩
        · rw [hevent] at hconn
          cases hconn
        · exact hd
        · exact absurd hup hc
      rw [hd]
      exact h.of_gcloudStep rfl ⟨(by rintro ⟨⟩), rfl⟩ id rfl h.queue (by simp [hevent])
        (fun hup => absurd hup hc)
        trivial
  | clientInit => exact absurd hg h.attempt.1
  | setConnecting | create =>
    have hatt := h.attempt.2
    rw [hg] at hatt
    cases hatt
  | stopTimer =>
    have hevent := hawake (by rw [hg]; rintro ⟨⟩)
    have hhere := h.harmless
    simp only [Harmless, hg] at hhere
    simp only [gcloudStep, hg, Option.some.injEq] at hstep
    subst hstep
    refine h.of_gcloudStep rfl ⟨(by rintro ⟨⟩), rfl⟩ id rfl h.queue (by simp [hevent]) ?_ hhere
    intro hc
    have hp := h.flag hc
    simp only [Parting, hg] at hp
    exact hp
  | clearConnected =>
    have hevent := hawake (by rw [hg]; rintro ⟨⟩)
    have hhere := h.harmless
    simp only [Harmless, hg] at hhere
    simp only [gcloudStep, hg, Option.some.injEq] at hstep
    subst hstep
    exact h.of_gcloudStep rfl ⟨(by rintro ⟨⟩), rfl⟩ id rfl h.queue (by simp [hevent])
      (by rintro ⟨⟩) hhere
  | markConnecting =>
    have hevent := hawake (by rw [hg]; rintro ⟨⟩)
    have hdown := h.not_connected (by simp [Parting, hg])
    have hhere := h.harmless
    simp only [Harmless, hg] at hhere
    simp only [gcloudStep, hg, Option.some.injEq] at hstep
    subst hstep
    refine h.of_gcloudStep rfl ⟨(by rintro ⟨⟩), rfl⟩ id rfl h.queue (by simp [hevent])
      (by simp [hdown]) ?_
    refine hhere.imp id fun hd => ⟨rfl, ?_⟩
    obtain ⟨k, he⟩ := exists_disconnect hd
    simp [he]
  | call c p =>
    simp only [gcloudStep, hg] at hstep
    exact parted_gcloudCall h hq hg hstep

/-- A parted module neither records a CONNACK nor queues a CONNECT. -/
theorem Parted.counts {s s' : State} {a : Act} (h : Parted s) (hq : QueueInv s)
    (hstep : step s a = some s') :
    s'.connacks = s.connacks ∧ s'.kernel.connects = s.kernel.connects := by
  constructor
  · cases a with
    | gcloud env => exact (gcloudStep_frame hstep).connacks
    | start n c | app n env | timer | timeout t => exact (outside_frame rfl hstep).connacks
    | mqtt env =>
      cases mqttStep_effect hstep with
      | calm hcalm _ _ => exact hcalm.connacks
      | exit hcalm _ _ _ => exact hcalm.connacks
      | lose c rev _ _ _ | accept rev _ _ _ _ => rfl
      | connack rev p hm hconn =>
        cases p with
        | give | clearConnecting | startTimer =>
          cases hconn
          rfl
        | setConnected => exact absurd (by rw [hm]; rfl) h.accepting
        | putSubscribe | putWait =>
          simp only [connackStep] at hconn
          split at hconn <;> cases hconn <;> rfl
      | disc c rev b p _ hdisc => exact (mqttDisc_frame hdisc).1.connacks
  · by_cases hp : purges s a = true
    · rw [kernel_of_purges hp hstep]
      rfl
    · refine (step_feeds (P := fun e => e.isConnect = false) hstep (by simpa using hp) hq h.queue
        (fun _ he => he) (fun n _ call _ hput => absurd hput (h.callers n call)) ?_).connects
        fun _ he => he
      intro env c b _ hg
      have hh := h.harmless
      simp only [Harmless, hg] at hh

theorem parted_step {s s' : State} {a : Act} (h : Parted s) (hq : QueueInv s)
    (hquiet : quietAfter s a = true) (hstep : step s a = some s') : Parted s' := by
  cases a with
  | gcloud env => exact parted_gcloud h hq hstep
  | mqtt env => exact parted_mqtt h hq hquiet hstep
  | start n c | app n env | timer | timeout t => exact parted_outside h hq rfl hquiet hstep

/-- The gcloud thread takes the DISCONNECT, or purges it in a handler that finds both
flags down, or the mqtt thread purges it. -/
theorem parted_of_left {k : ℕ} {s s' : State} {a : Act}
    (hstep : step s a = some s') (hin : .disconnect k ∈ s.kernel.msgq.buf)
    (hout : .disconnect k ∉ s'.kernel.msgq.buf) (hsafe : DisconnectSafe s a) : Parted s' := by
  obtain ⟨hsettled, hrest⟩ := hsafe
  cases step_queue hstep with
  | keeps hk => exact absurd (hk.buf hin) hout
  | pend env _ _ => exact absurd (by simpa [Kernel.pendRead] using hin) hout
  | get env hg k' hk =>
    simp only [hg] at hrest
    obtain ⟨e, hnew, _, hothers, _⟩ := Kernel.get_cases hk
    have he : e = .disconnect k := (hothers _ hin).elim Eq.symm fun h => absurd h hout
    have hdisc : k'.event.any GcloudEvent.isDisconnect = true := by simp [hnew, he,
      GcloudEvent.isDisconnect]
    refine ⟨⟨hsettled.callers, ⟨(by rintro ⟨⟩), rfl⟩, hsettled.handshake, hsettled.accepting⟩,
      (Kernel.get_feeds hrest hk).all, ?_, fun _ => hdisc, trivial⟩
    intro hconn
    simp [hnew, he, GcloudEvent.isConnect] at hconn
  | gcloudPurge env c b hg =>
    simp only [hg] at hrest
    obtain ⟨hdown, hcing, hevent⟩ := hrest
    refine ⟨⟨hsettled.callers, ⟨(by rintro ⟨⟩), ?_⟩, hsettled.handshake, hsettled.accepting⟩,
      MsgQ.all_empty, ?_, ?_, hcing⟩
    · rw [attempting_call c _ (.disc b .purge), ← hg]
      exact hsettled.attempt.2
    · intro hconn
      exact absurd (hevent.symm.trans hconn) (by rintro ⟨⟩)
    · intro hc
      exact absurd (hdown.symm.trans hc) (by rintro ⟨⟩)
  | mqttPurge env c rev b hm =>
    obtain ⟨hdown, hclosed, hdrained, hhandler, hevent⟩ := hrest
    have hopen : s.client.session ≠ .connected := by
      rw [hclosed]
      rintro ⟨⟩
    refine ⟨⟨hsettled.callers, hsettled.attempt, ?_, (by rintro ⟨⟩)⟩, MsgQ.all_empty, ?_, ?_, ?_⟩
    · intro ht
      cases hclosed.symm.trans ht
    · intro hconn
      refine ⟨Or.inl (hevent hconn), hclosed, hdrained, ?_⟩
      rintro c' rev' b' p' ⟨⟩
      exact ⟨(by rintro ⟨⟩), (by rintro ⟨⟩)⟩
    · intro hc
      exact absurd (hdown.symm.trans hc) (by rintro ⟨⟩)
    · unfold Harmless
      cases hg : s.gcloud with
      | stopTimer | clearConnected | markConnecting => exact Or.inl hopen
      | get | wait | dispatch | clientInit | setConnecting | create => trivial
      | call d p =>
        cases p with
        | lock | lockWait | body => exact Or.inl hopen
        | relock ok | relockWait ok | unlock ok => trivial
        | disc b' q =>
          rw [hg] at hhandler
          cases hhandler

/-- A DISCONNECT handed to the waiting gcloud thread finds the queue empty. -/
theorem parted_of_handed {k n : ℕ} {s s' : State} {a : Act} (hq : QueueInv s)
    (hstep : step s a = some s') (hput : s.app n = .put (.disconnect k))
    (hdone : s'.app n = .idle) (hout : .disconnect k ∉ s'.kernel.msgq.buf)
    (hsettled : Settled s) : Parted s' := by
  by_cases happ : ∃ env, a = .app n env
  · obtain ⟨env, rfl⟩ := happ
    simp only [step, appStep, hput] at hstep
    split at hstep <;> rename_i k' heq <;> cases hstep
    · rcases Kernel.put_cases heq with hin | ⟨hnew, r, hreaders⟩
      · exact absurd hin hout
      · have hreading : s.kernel.msgq.readers ≠ [] := by
          rw [hreaders]
          rintro ⟨⟩
        obtain ⟨hone, hg⟩ := hq.reads.resolve_left hreading
        have hall := MsgQ.all_of_reading (P := fun e : GcloudEvent => e.isConnect = false)
          (by decide) hreading
        have hfeeds := Kernel.put_feeds env.pos (.app n) hall
          (show (GcloudEvent.disconnect k).isConnect = false from rfl)
        rw [heq] at hfeeds
        have hnil : k'.msgq.readers = [] := by
          rw [hone] at hreaders
          exact (List.cons.inj hreaders).2.symm
        have hdisc : k'.event.any GcloudEvent.isDisconnect = true := by simp [hnew,
          GcloudEvent.isDisconnect]
        refine ⟨⟨?_, hsettled.attempt, hsettled.handshake, hsettled.accepting⟩, hfeeds.all, ?_, ?_,
          ?_⟩
        · intro m call
          by_cases hm : m = n
          · subst hm
            simp
          · simpa [Function.update_of_ne hm] using hsettled.callers m call
        · intro hconn
          simp [hnew, GcloudEvent.isConnect] at hconn
        · intro _
          simp only [Parting, hg]
          exact ⟨hnil, hdisc⟩
        · simp only [Harmless, hg]
    · simp at hdone
  · exfalso
    have hstart : ∀ c, a ≠ .start n c := by
      rintro c rfl
      simp [step, apiStart, hput] at hstep
    rw [app_of_other hstart (fun env he => happ ⟨env, he⟩) hstep, hput] at hdone
    cases hdone

/-- In every run in which a DISCONNECT leaves gcloud_msgq under the condition, with
neither a gcloud_connect nor a second CONNACK behind it, the request is honoured. -/
theorem disconnect_honoured {k : ℕ} {s s₁ s₂ : State} {a : Act} (hreach : Reachable machine s)
    (hstep : machine.step s a = some s₁) (hleave : Leaves k s s₁) (hsafe : DisconnectSafe s a)
    (hlater : Path machine (fun t b => quietAfter t b = true) s₁ s₂) : Honoured s₁ s₂ := by
  have hq : QueueInv s := reachable_invariant queueInv_start queueInv_step hreach
  have hq₁ := queueInv_step s a s₁ hq hstep
  have hparted : Parted s₁ := by
    cases hleave with
    | left hin hout => exact parted_of_left hstep hin hout hsafe
    | handed n hput hdone hout => exact parted_of_handed hq hstep hput hdone hout hsafe.1
  have hend : (QueueInv s₂ ∧ Parted s₂) ∧ s₂.connacks = s₁.connacks ∧
      s₂.kernel.connects = s₁.kernel.connects := by
    refine Path.preserves (I := fun t => (QueueInv t ∧ Parted t) ∧ t.connacks = s₁.connacks ∧
      t.kernel.connects = s₁.kernel.connects) ?_ hlater ⟨⟨hq₁, hparted⟩, rfl, rfl⟩
    rintro t b u ⟨⟨hqt, hp⟩, hacks, hconnects⟩ hquiet hst
    obtain ⟨hacks', hconnects'⟩ := hp.counts hqt hst
    exact ⟨⟨queueInv_step t b u hqt hst, parted_step hp hqt hquiet hst⟩, hacks'.trans hacks,
      hconnects'.trans hconnects⟩
  exact ⟨hend.1.2.down, hend.2.1, hend.2.2⟩

/-- The DISCONNECT of the second API call is handed to the gcloud thread that waits with
an established session. -/
theorem disconnect_honoured_when_connected :
    ∃ s t, s.connected = true ∧ Blocked t ∧ Honoured s t := by
  obtain ⟨s, s₁, s₂, hrun, hstep, hlater, hs⟩ := exists_split_run (M := machine)
    (C := fun _ a => a.ofFirst = true)
    (D := fun t b => quietAfter t b = true ∧ b.ofFirst = true)
    (p := fun s t u => s.app 0 = .put (.disconnect 1) && t.app 0 = .idle &&
      !(t.kernel.msgq.buf.contains (.disconnect 1)) && s.client.session = .connected &&
      s.gcloud = .wait && s.mqtt = .poll && t.connected && gcloudBlocked u && mqttBlocked u &&
      appBlocked u 0)
    (connectAndIdle ++ [.start 0 .disconnect]) (.app 0 {}) (List.replicate 14 (.gcloud {}))
    (by decide)
  simp only [Bool.and_eq_true, decide_eq_true_eq, Bool.not_eq_true', List.contains_eq_mem,
    decide_eq_false_iff_not] at hs
  obtain ⟨⟨⟨⟨⟨⟨⟨⟨⟨hput, hdone⟩, hout⟩, hopen⟩, hg⟩, hm⟩, hup⟩, hgb⟩, hmb⟩, hab⟩ := hs
  have hidle := idle_of_ofFirst (fun _ _ h => h) hrun
  have hidle₁ : ∀ n, n ≠ 0 → s₁.app n = .idle := fun n hn =>
    (app_of_ofFirst (a := .app 0 {}) rfl hstep hn).trans (hidle n hn)
  have hb := blocked_of_first (idle_of_path (fun _ _ h => h.2) hlater hidle₁) hgb hmb hab
  have hsettled : Settled s := by
    refine ⟨?_, by rw [hg]; exact ⟨(by rintro ⟨⟩), rfl⟩, by rw [hopen]; rintro ⟨⟩,
      by rw [hm]; rintro ⟨⟩⟩
    intro n call
    by_cases hn : n = 0
    · rw [hn, hput]
      rintro ⟨⟩
    · rw [hidle n hn]
      rintro ⟨⟩
  exact ⟨s₁, s₂, hup, hb, disconnect_honoured hrun.reachable hstep (.handed 0 hput hdone hout)
    ⟨hsettled, trivial⟩ (hlater.mono fun _ _ h => h.1)⟩

/-- gcloud_connect gives up on a slow broker after 100 s, and the application calls
gcloud_disconnect. -/
def connectGivenUp : List Act :=
  [.start 0 .connect, .app 0 {}] ++ List.replicate 8 (.gcloud {}) ++
    [.app 0 {}, .timeout (.app 0), .app 0 {}, .app 0 {}, .start 0 .disconnect, .app 0 {}]

/-- The gcloud thread drops the command, and the CONNACK arrives. -/
def lateConnack : List Act :=
  [.gcloud {}] ++ List.replicate 5 (.mqtt {}) ++ [.mqtt { packet := .connack true }] ++
    List.replicate 7 (.mqtt {}) ++ List.replicate 6 (.gcloud {})

theorem disconnect_not_honoured :
    ¬ ∀ k s s₁ s₂ a, Reachable machine s → machine.step s a = some s₁ → Leaves k s s₁ →
      Path machine (fun _ b => ∀ n, b ≠ .start n .connect) s₁ s₂ → Blocked s₂ →
      s₂.connected = false := by
  intro hall
  obtain ⟨s, s₁, s₂, hrun, hstep, hlater, hs⟩ := exists_split_run (M := machine)
    (C := fun _ a => a.ofFirst = true)
    (D := fun t b => quietAfter t b = true ∧ b.ofFirst = true)
    (p := fun s t u => s.kernel.msgq.buf.contains (.disconnect 1) &&
      !(t.kernel.msgq.buf.contains (.disconnect 1)) && gcloudBlocked u && mqttBlocked u &&
      appBlocked u 0 && u.connected)
    connectGivenUp (.gcloud {}) lateConnack (by decide)
  simp only [Bool.and_eq_true, Bool.not_eq_true', List.contains_eq_mem, decide_eq_true_eq,
    decide_eq_false_iff_not] at hs
  obtain ⟨⟨⟨⟨⟨hin, hout⟩, hgb⟩, hmb⟩, hab⟩, hup⟩ := hs
  have hidle := idle_of_ofFirst (fun _ _ h => h) hrun
  have hidle₁ : ∀ n, n ≠ 0 → s₁.app n = .idle := fun n hn =>
    (app_of_ofFirst (a := .gcloud {}) rfl hstep hn).trans (hidle n hn)
  have hb := blocked_of_first (idle_of_path (fun _ _ h => h.2) hlater hidle₁) hgb hmb hab
  have hdown := hall 1 s s₁ s₂ (.gcloud {}) hrun.reachable hstep (.left hin hout)
    (hlater.mono fun t b h n hb => by
      rw [hb] at h
      cases h.1) hb
  rw [hup] at hdown
  cases hdown

end NcsProjects.Gcloud
