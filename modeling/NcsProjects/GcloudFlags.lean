import NcsProjects.GcloudMutex
import NcsProjects.GcloudCommands

/-!
The flags `connected` and `connecting` against the session they describe. Each flag
is justified by where the two threads stand: a handshake, a command in execution
or a handler that has not tested the flags yet. At a blocking point of all threads
only the session, the mqtt thread and the queue are left to justify it.
-/
namespace NcsProjects.Gcloud

open MessageQueues PublishPayload RecursiveMutexes TransitionRuns

/-- The gcloud thread waits in k_msgq_get, for the mutex, or in gcloud_connect. -/
def gcloudBlocked (s : State) : Bool :=
  match s.gcloud with
  | .wait => .gcloud ∈ s.kernel.msgq.readers
  | .call _ .lockWait | .call _ (.relockWait _) => !s.client.mutex.heldBy .gcloud
  | .call _ (.disc _ (.connect .putWait)) => !decide (s.kernel.putDone .gcloud)
  | .call _ (.disc _ (.connect (.takeWait _))) => .gcloud ∈ s.kernel.gcConnectedSem.waiters
  | _ => false

/-- The mqtt thread has ended, or waits in poll, for the mutex, or for room in the queue. -/
def mqttBlocked (s : State) : Bool :=
  match s.mqtt with
  | .absent | .dead | .poll => true
  | .call _ _ .lockWait | .call _ _ (.relockWait _) => !s.client.mutex.heldBy .mqtt
  | .connack _ .putWait => !decide (s.kernel.putDone .mqtt)
  | _ => false

/-- The application thread is outside the API, or waits inside it. -/
def appBlocked (s : State) (n : ℕ) : Bool :=
  match s.app n with
  | .idle => true
  | .connect _ .putWait | .putWait _ => !decide (s.kernel.putDone (.app n))
  | .connect _ (.takeWait _) => .app n ∈ s.kernel.gcConnectedSem.waiters
  | _ => false

/-- Every thread is at a blocking point. -/
def Blocked (s : State) : Prop :=
  gcloudBlocked s = true ∧ mqttBlocked s = true ∧ ∀ n, appBlocked s n = true

def Kernel.holdsConnect (k : Kernel) : Bool := k.msgq.buf.any GcloudEvent.isConnect

/-- The flags describe the session: `connected` is an accepted session that a running
thread serves under the running timer, `connecting` is a queued CONNECT command or a
handshake that a running thread can complete, and they exclude each other. -/
structure FlagsDescribe (s : State) : Prop where
  connected : s.connected = true ↔
    s.client.session = .connected ∧ s.mqtt.alive = true ∧ s.timer = true
  connecting : s.connecting = true →
    s.kernel.holdsConnect = true ∨ s.client.session = .tcp ∧ s.mqtt.alive = true
  exclusive : ¬ (s.connected = true ∧ s.connecting = true)

/-- Where the gcloud thread stands as far as the flags are concerned: about to clear
`connected`; behind that and before the body of mqtt_disconnect; in the handler
before it has queued its CONNECT; on the way out of mqtt_disconnect; in the execution
of CONNECT behind client_init; or elsewhere. -/
inductive GcloudPhase
  | stopping
  | clearing
  | closing
  | handling
  | leaving
  | attempting
  | serving
  deriving DecidableEq

def GcloudPc.phase : GcloudPc → GcloudPhase
  | .stopTimer => .stopping
  | .clearConnected => .clearing
  | .markConnecting => .closing
  | .setConnecting | .create | .call .connect _ => .attempting
  | .call .disconnect .lock | .call .disconnect .lockWait | .call .disconnect .body => .closing
  | .call .disconnect (.disc _ (.connect .put)) => .handling
  | .call .disconnect (.disc _ (.connect _)) | .call .disconnect (.disc _ .leave) => .leaving
  | .call .disconnect (.disc _ _) => .handling
  | .call .disconnect _ => .leaving
  | _ => .serving

/-- A call that has lost the session. -/
def CallPc.late : CallPc → Bool
  | .disc _ _ | .relock _ | .relockWait _ => true
  | _ => false

/-- The mqtt thread may leave its loop: no flag is up, or the gcloud thread is in the
execution of a CONNECT, a DISCONNECT or a RECONNECT_TIMEOUT. -/
def mayExit (s : State) : Bool :=
  !(s.connected || s.connecting) || s.gcloud.phase != .serving

/-- client_init and mqtt_connect succeed, with `connected` false, and the mqtt thread
makes no library call from client_init on until its successor is created; mqtt_publish
and mqtt_subscribe do not lose the session; RECONNECT_TIMEOUT sets `connecting` with
the session open; the handler finds room in the queue on the gcloud thread, and does
not abort the mqtt thread out of itself; the mqtt thread leaves its loop when it may;
and `connected` is set with the session open and not about to be closed. -/
def flagsSafe (s : State) : Act → Bool
  | .gcloud env =>
    match s.gcloud with
    | .clientInit => env.ok && !s.connected && s.mqtt.resting
    | .markConnecting =>
      (match s.kernel.event with
        | some (.disconnect _) => true
        | _ => false) || s.client.session = .connected
    | .call .connect .body => env.ok
    | .call .disconnect .body => true
    | .call c .body => (gcloudBody c env s.client s.kernel.event).isSome
    | .call _ (.disc _ (.connect .put)) => s.kernel.msgq.buf.length < nMessages
    | _ => true
  | .mqtt env => mutexSafe s (.mqtt env) &&
    (!s.mqtt.exits env || mayExit s) &&
    match s.mqtt with
    | .connack _ .setConnected => s.client.session = .connected && s.gcloud.phase != .closing
    | _ => true
  | _ => true

/-- A CONNECT command is in the queue or in the hands of the gcloud thread, and no
mqtt thread runs that could complete a handshake before. -/
structure Pending (s : State) : Prop where
  gone : s.mqtt.phase = .gone
  down : s.connected = false
  held : s.kernel.holdsConnect = true ∨
    s.gcloud = .dispatch ∧ s.kernel.event.any GcloudEvent.isConnect = true ∨
    s.gcloud = .clientInit

/-- What justifies `connecting`. -/
inductive Rising (s : State) : Prop
  | lost (h : s.mqtt.phase = .lost)
  | accepting (h : s.mqtt.phase = .accepting)
  | marking (h : s.mqtt.phase = .marking)
  | handshake (h : s.client.session = .tcp) (halive : s.mqtt.phase ≠ .gone)
  | attempting (h : s.gcloud.phase = .attempting)
  | closing (h : s.gcloud.phase = .closing) (hopen : s.client.session = .connected)
  | handling (h : s.gcloud.phase = .handling)
  | pending (h : Pending s)

/-- What justifies `connected`. -/
inductive Up (s : State) : Prop
  | lost (h : s.mqtt.phase = .lost)
  | served (hopen : s.client.session = .connected)
      (halive : s.mqtt.phase ≠ .gone ∨ s.gcloud.phase = .stopping ∨ s.gcloud.phase = .clearing)
      (htimer : s.timer = true ∨ s.mqtt.phase = .marking ∨ s.mqtt.phase = .arming ∨
        s.gcloud.phase = .clearing)

/-- The stages of the execution of CONNECT. -/
def AttemptStage (s : State) : Prop :=
  match s.gcloud with
  | .setConnecting => s.client.configured = true
  | .call .connect (.unlock _) | .create => s.client.session = .tcp
  | _ => True

structure FlagInv (s : State) : Prop where
  up : s.connected = true → Up s
  opened : s.client.session = .connected →
    s.connected = true ∨ s.mqtt.phase = .accepting ∨ s.gcloud.phase = .closing
  both : s.connected = true → s.connecting = true →
    s.mqtt.phase = .marking ∨ s.mqtt.phase = .lost
  rising : s.connecting = true → Rising s
  clears : s.gcloud.phase = .stopping ∨ s.gcloud.phase = .clearing → s.connected = true
  down : s.gcloud.phase = .closing ∨ s.gcloud.phase = .handling ∨ s.gcloud.phase = .leaving ∨
    s.gcloud.phase = .attempting → s.connected = false
  lost : s.mqtt.phase = .lost → s.client.session = .closed
  closing : s.gcloud.phase = .closing → s.client.session ≠ .tcp
  closed : s.gcloud.phase = .handling ∨ s.gcloud.phase = .leaving → s.client.session = .closed
  late : ∀ c p, s.gcloud = .call c p → p.late = true → c = .disconnect
  aborted : ∀ c a p, s.gcloud = .call c (.disc a (.connect p)) → s.mqtt.phase = .gone
  stage : AttemptStage s
  reads : s.gcloud ≠ .wait → s.kernel.msgq.readers = []
  readers : ∀ t ∈ s.kernel.msgq.readers, t = .gcloud

theorem flagInv_start : FlagInv State.start :=
  ⟨(by rintro ⟨⟩), (by rintro ⟨⟩), (by rintro ⟨⟩), (by rintro ⟨⟩), by decide, by decide,
    (by rintro ⟨⟩), by decide, by decide, (by rintro _ _ ⟨⟩), (by rintro _ _ _ ⟨⟩),
    trivial, fun _ => rfl, (by rintro _ ⟨⟩)⟩

/-- Unless a loss is in hand, `connected` stands for an open session. -/
theorem FlagInv.session_connected {s : State} (h : FlagInv s) (hlost : s.mqtt.phase ≠ .lost)
    (hc : s.connected = true) : s.client.session = .connected := by
  cases h.up hc with
  | lost hl => exact absurd hl hlost
  | served hopen _ _ => exact hopen

/-- Before the writes of an accepted CONNACK, `connected` has its timer running, or the
gcloud thread on its way to clear the flag. -/
theorem FlagInv.timer_or_clearing {s : State} (h : FlagInv s) (hlost : s.mqtt.phase ≠ .lost)
    (hmark : s.mqtt.phase ≠ .marking) (harm : s.mqtt.phase ≠ .arming)
    (hc : s.connected = true) : s.timer = true ∨ s.gcloud.phase = .clearing := by
  cases h.up hc with
  | lost hl => exact absurd hl hlost
  | served _ _ htimer =>
    rcases htimer with ht | hm | ha | hg
    · exact Or.inl ht
    · exact absurd hm hmark
    · exact absurd ha harm
    · exact Or.inr hg

/-- `connected` on a session that is open, with the thread to look after it. -/
theorem Up.of_running {s : State} (hopen : s.client.session = .connected)
    (halive : s.mqtt.phase ≠ .gone ∨ s.gcloud.phase = .stopping ∨ s.gcloud.phase = .clearing)
    (htimer : s.timer = true ∨ s.gcloud.phase = .clearing) : Up s := by
  refine .served hopen halive ?_
  rcases htimer with ht | hg
  · exact Or.inl ht
  · exact Or.inr (Or.inr (Or.inr hg))

/-- Both flags are up between two writes of an accepted CONNACK and in the handler of a
loss, and nowhere else. -/
theorem FlagInv.not_both {s : State} (h : FlagInv s) (hlost : s.mqtt.phase ≠ .lost)
    (hmark : s.mqtt.phase ≠ .marking) (hc : s.connected = true) (hcing : s.connecting = true) :
    False := by
  rcases h.both hc hcing with hm | hl
  · exact hmark hm
  · exact hlost hl

/-- With both flags up an event of the mqtt thread is in hand, whatever the gcloud thread
does next. -/
theorem FlagInv.rising_of_both {s s' : State} (h : FlagInv s) (hmqtt : s'.mqtt = s.mqtt)
    (hc : s.connected = true) (hcing : s.connecting = true) : Rising s' := by
  rcases h.both hc hcing with hm | hl
  · exact .marking (by rw [hmqtt]; exact hm)
  · exact .lost (by rw [hmqtt]; exact hl)

/-- An open session that no CONNACK in hand accounts for. -/
theorem FlagInv.opened_unless {s : State} (h : FlagInv s) (hacc : s.mqtt.phase ≠ .accepting)
    (hopen : s.client.session = .connected) : s.connected = true ∨ s.gcloud.phase = .closing := by
  rcases h.opened hopen with hc | ha | hg
  · exact Or.inl hc
  · exact absurd ha hacc
  · exact Or.inr hg

theorem Kernel.holdsConnect_iff {k : Kernel} :
    k.holdsConnect = true ↔ ∃ e ∈ k.msgq.buf, e.isConnect = true := List.any_eq_true

theorem Kernel.Keeps.holdsConnect {k k' : Kernel} (h : k.Keeps k') (hk : k.holdsConnect = true) :
    k'.holdsConnect = true := by
  obtain ⟨e, he, hconn⟩ := Kernel.holdsConnect_iff.mp hk
  exact Kernel.holdsConnect_iff.mpr ⟨e, h.buf he, hconn⟩

theorem Kernel.Keeps.readers_nil {k k' : Kernel} (h : k.Keeps k') (hk : k.msgq.readers = []) :
    k'.msgq.readers = [] := List.sublist_nil.mp (hk ▸ h.readers)

/-- A step outside the two threads only adds to the queue. -/
theorem flagInv_outside {s s' : State} {a : Act} (h : FlagInv s) (ha : a.outside = true)
    (hstep : step s a = some s') : FlagInv s' := by
  have hf := outside_frame ha hstep
  have hk := outside_keeps ha hstep
  have hpending : Pending s → Pending s' := by
    rintro ⟨hgone, hdown, hheld⟩
    refine ⟨by rw [hf.mqtt]; exact hgone, by rw [hf.connected]; exact hdown, ?_⟩
    rw [hf.gcloud]
    rcases hheld with hheld | ⟨hg, hevent⟩ | hg
    · exact Or.inl (hk.holdsConnect hheld)
    · have hnone := h.reads (by rw [hg]; rintro ⟨⟩)
      exact Or.inr (Or.inl ⟨hg, by rw [hk.event hnone]; exact hevent⟩)
    · exact Or.inr (Or.inr hg)
  have hstage : AttemptStage s' := by
    have hs := h.stage
    unfold AttemptStage at hs ⊢
    rwa [hf.gcloud, hf.client]
  refine ⟨?_, ?_, ?_, ?_, ?_, ?_, ?_, ?_, ?_, ?_, ?_, hstage, ?_, ?_⟩
  · intro hc
    rw [hf.connected] at hc
    cases h.up hc with
    | lost hl => exact .lost (by rw [hf.mqtt]; exact hl)
    | served hopen halive htimer =>
      exact .served (by rw [hf.client]; exact hopen) (by rw [hf.mqtt, hf.gcloud]; exact halive)
        (by rw [hf.timer, hf.mqtt, hf.gcloud]; exact htimer)
  · rw [hf.client, hf.connected, hf.mqtt, hf.gcloud]
    exact h.opened
  · rw [hf.connected, hf.connecting, hf.mqtt]
    exact h.both
  · intro hc
    rw [hf.connecting] at hc
    cases h.rising hc with
    | lost hl => exact .lost (by rw [hf.mqtt]; exact hl)
    | accepting hl => exact .accepting (by rw [hf.mqtt]; exact hl)
    | marking hl => exact .marking (by rw [hf.mqtt]; exact hl)
    | handshake hs halive =>
      exact .handshake (by rw [hf.client]; exact hs) (by rw [hf.mqtt]; exact halive)
    | attempting hg => exact .attempting (by rw [hf.gcloud]; exact hg)
    | closing hg hopen =>
      exact .closing (by rw [hf.gcloud]; exact hg) (by rw [hf.client]; exact hopen)
    | handling hg => exact .handling (by rw [hf.gcloud]; exact hg)
    | pending hp => exact .pending (hpending hp)
  · rw [hf.gcloud, hf.connected]
    exact h.clears
  · rw [hf.gcloud, hf.connected]
    exact h.down
  · rw [hf.mqtt, hf.client]
    exact h.lost
  · rw [hf.gcloud, hf.client]
    exact h.closing
  · rw [hf.gcloud, hf.client]
    exact h.closed
  · rw [hf.gcloud]
    exact h.late
  · rw [hf.gcloud, hf.mqtt]
    exact h.aborted
  · rw [hf.gcloud]
    exact fun hne => hk.readers_nil (h.reads hne)
  · exact fun t ht => h.readers t (hk.readers.subset ht)

/-- What a step of the mqtt thread that meets the condition has to say for itself. -/
structure MqttFlags (s s' : State) : Prop where
  alive : s.mqtt.phase ≠ .gone
  gcloud : s'.gcloud = s.gcloud
  readers : s'.kernel.msgq.readers.Sublist s.kernel.msgq.readers
  stage : AttemptStage s'
  rises : s.connected = true → s'.connected = true
  raises : s'.connected = true → s.connected = true ∨ s.client.session = .connected ∧
    s.gcloud.phase ≠ .closing ∧ s.gcloud.phase ≠ .attempting
  tcp : s'.client.session = .tcp → s.client.session = .tcp
  shut : s.client.session = .closed → s'.client.session = .closed
  up : s'.connected = true → Up s'
  opened : s'.client.session = .connected →
    s'.connected = true ∨ s'.mqtt.phase = .accepting ∨ s'.gcloud.phase = .closing
  both : s'.connected = true → s'.connecting = true →
    s'.mqtt.phase = .marking ∨ s'.mqtt.phase = .lost
  rising : s'.connecting = true → Rising s'
  lost : s'.mqtt.phase = .lost → s'.client.session = .closed

theorem FlagInv.mqttFlags {s s' : State} (h : FlagInv s) (hmf : MqttFlags s s') : FlagInv s' := by
  refine ⟨hmf.up, hmf.opened, hmf.both, hmf.rising, ?_, ?_, hmf.lost, ?_, ?_, ?_, ?_, hmf.stage, ?_,
    ?_⟩
  · rw [hmf.gcloud]
    exact fun hg => hmf.rises (h.clears hg)
  · rw [hmf.gcloud]
    intro hg
    by_contra hc
    simp only [Bool.not_eq_false] at hc
    rcases hmf.raises hc with hc | ⟨hopen, hclosing, hattempting⟩
    · rw [h.down hg] at hc
      cases hc
    · rcases hg with hg | hg | hg | hg
      · exact hclosing hg
      · rw [h.closed (Or.inl hg)] at hopen
        cases hopen
      · rw [h.closed (Or.inr hg)] at hopen
        cases hopen
      · exact hattempting hg
  · rw [hmf.gcloud]
    exact fun hg htcp => h.closing hg (hmf.tcp htcp)
  · rw [hmf.gcloud]
    exact fun hg => hmf.shut (h.closed hg)
  · rw [hmf.gcloud]
    exact h.late
  · rw [hmf.gcloud]
    exact fun c a p hg => absurd (h.aborted c a p hg) hmf.alive
  · rw [hmf.gcloud]
    exact fun hne => List.sublist_nil.mp (h.reads hne ▸ hmf.readers)
  · exact fun t ht => h.readers t (hmf.readers.subset ht)

/-- With the mqtt thread running and no event in its hands, `connecting` rests on a
handshake or on the gcloud thread. -/
theorem Rising.of_serving {s : State} (h : Rising s)
    (hs : s.mqtt.phase = .serving ∨ s.mqtt.phase = .arming) :
    s.client.session = .tcp ∨ s.gcloud.phase = .attempting ∨
      s.gcloud.phase = .closing ∧ s.client.session = .connected ∨ s.gcloud.phase = .handling := by
  cases h with
  | lost h | accepting h | marking h => rcases hs with hs | hs <;> rw [hs] at h <;> cases h
  | handshake h _ => exact Or.inl h
  | attempting h => exact Or.inr (Or.inl h)
  | closing h hopen => exact Or.inr (Or.inr (Or.inl ⟨h, hopen⟩))
  | handling h => exact Or.inr (Or.inr (Or.inr h))
  | pending h => rcases hs with hs | hs <;> rw [h.gone] at hs <;> cases hs

/-- The mqtt thread goes on, with the session, the flags and the gcloud thread as they are. -/
theorem rising_of_serving {s s' : State} (h : Rising s)
    (hs : s.mqtt.phase = .serving ∨ s.mqtt.phase = .arming) (hs' : s'.mqtt.phase ≠ .gone)
    (hsession : s'.client.session = s.client.session) (hg : s'.gcloud = s.gcloud) : Rising s' := by
  rcases h.of_serving hs with ht | ha | ⟨hc, hopen⟩ | hh
  · exact .handshake (hsession.trans ht) hs'
  · exact .attempting (by rw [hg]; exact ha)
  · exact .closing (by rw [hg]; exact hc) (hsession.trans hopen)
  · exact .handling (by rw [hg]; exact hh)

theorem attemptStage_of_same {s s' : State} (h : AttemptStage s) (hg : s'.gcloud = s.gcloud)
    (hsession : s'.client.session = s.client.session)
    (hconf : s'.client.configured = s.client.configured) : AttemptStage s' := by
  unfold AttemptStage at h ⊢
  rwa [hg, hsession, hconf]

/-- Outside the execution of CONNECT there is no stage to keep. -/
theorem attemptStage_of_not_attempting {s : State} (h : s.gcloud.attempting = false) :
    AttemptStage s := by
  unfold AttemptStage
  split
  · rename_i hg
    rw [hg] at h
    cases h
  · rename_i hg
    rw [hg] at h
    cases h
  · rename_i hg
    rw [hg] at h
    cases h
  · trivial

theorem attempting_iff_phase (pc : GcloudPc) : pc.attempting = true ↔ pc.phase = .attempting := by
  cases pc with
  | get | wait | dispatch | clientInit | stopTimer | clearConnected | markConnecting =>
    exact ⟨(by rintro ⟨⟩), (by rintro ⟨⟩)⟩
  | setConnecting | create => exact ⟨fun _ => rfl, fun _ => rfl⟩
  | call c p =>
    cases c with
    | connect => exact ⟨fun _ => rfl, fun _ => rfl⟩
    | publish m id | subscribe => exact ⟨(by rintro ⟨⟩), (by rintro ⟨⟩)⟩
    | disconnect =>
      refine ⟨(by rintro ⟨⟩), ?_⟩
      cases p with
      | disc a q =>
        cases q with
        | connect r => cases r <;> rintro ⟨⟩
        | stopTimer | purge | check | abort | leave => rintro ⟨⟩
      | lock | lockWait | body | relock ok | relockWait ok | unlock ok => rintro ⟨⟩

/-- The flags, the session and the gcloud thread stay as they are. -/
structure SameFlags (s s' : State) : Prop where
  keeps : s.kernel.Keeps s'.kernel
  session : s'.client.session = s.client.session
  configured : s'.client.configured = s.client.configured
  connected : s'.connected = s.connected
  connecting : s'.connecting = s.connecting
  timer : s'.timer = s.timer
  gcloud : s'.gcloud = s.gcloud

theorem Calm.sameFlags {s s' : State} (h : Calm s s') : SameFlags s s' :=
  ⟨by rw [h.kernel]; exact Kernel.Keeps.refl _, h.session, h.configured, h.connected, h.connecting,
    h.timer, h.gcloud⟩

theorem mqttFlags_serving {s s' : State} (h : FlagInv s) (hcalm : SameFlags s s')
    (hs : s.mqtt.phase = .serving) (hs' : s'.mqtt.phase = .serving) : MqttFlags s s' := by
  refine ⟨by rw [hs]; rintro ⟨⟩, hcalm.gcloud, hcalm.keeps.readers,
    attemptStage_of_same h.stage hcalm.gcloud hcalm.session hcalm.configured,
    fun hc => hcalm.connected.trans hc, fun hc => Or.inl (hcalm.connected.symm.trans hc),
    fun ht => hcalm.session.symm.trans ht, fun hc => hcalm.session.trans hc, ?_, ?_, ?_, ?_, ?_⟩
  · intro hc
    rw [hcalm.connected] at hc
    have hopen := h.session_connected (by rw [hs]; rintro ⟨⟩) hc
    refine .of_running (hcalm.session.trans hopen) (Or.inl (by rw [hs']; rintro ⟨⟩)) ?_
    rw [hcalm.timer, hcalm.gcloud]
    exact h.timer_or_clearing (by rw [hs]; rintro ⟨⟩) (by rw [hs]; rintro ⟨⟩)
      (by rw [hs]; rintro ⟨⟩) hc
  · intro hopen
    have hopened := h.opened (hcalm.session.symm.trans hopen)
    rw [hs] at hopened
    rw [hcalm.connected, hs', hcalm.gcloud]
    exact hopened
  · exact fun hc hcing => absurd (hcalm.connecting.symm.trans hcing)
      (h.not_both (by rw [hs]; rintro ⟨⟩) (by rw [hs]; rintro ⟨⟩) (hcalm.connected.symm.trans hc))
  · intro hcing
    exact rising_of_serving (h.rising (hcalm.connecting.symm.trans hcing)) (Or.inl hs)
      (by rw [hs']; rintro ⟨⟩) hcalm.session hcalm.gcloud
  · rw [hs']
    rintro ⟨⟩

/-- The mqtt thread leaves its loop with no flag up, or while the gcloud thread is in
the execution of a command that looks after the flags. -/
theorem mqttFlags_exit {s s' : State} (h : FlagInv s) (hcalm : Calm s s')
    (hs : s.mqtt.phase = .serving) (hs' : s'.mqtt = .dead) (hmay : mayExit s = true) :
    MqttFlags s s' := by
  have hphase : s'.mqtt.phase = .gone := by rw [hs']; rfl
  have hnotlost : s.mqtt.phase ≠ .lost := by rw [hs]; rintro ⟨⟩
  have hnotmarking : s.mqtt.phase ≠ .marking := by rw [hs]; rintro ⟨⟩
  have hbusy : s.connected = true ∨ s.connecting = true → s.gcloud.phase ≠ .serving := by
    intro hup
    have hflags : (s.connected || s.connecting) = true := by simpa using hup
    simpa [mayExit, hflags] using hmay
  refine ⟨by rw [hs]; rintro ⟨⟩, hcalm.gcloud, hcalm.sameFlags.keeps.readers,
    attemptStage_of_same h.stage hcalm.gcloud hcalm.session hcalm.configured,
    fun hc => hcalm.connected.trans hc, fun hc => Or.inl (hcalm.connected.symm.trans hc),
    fun ht => hcalm.session.symm.trans ht, fun hc => hcalm.session.trans hc, ?_, ?_, ?_, ?_, ?_⟩
  · intro hc
    rw [hcalm.connected] at hc
    have hclears : s.gcloud.phase = .stopping ∨ s.gcloud.phase = .clearing := by
      have hne := hbusy (Or.inl hc)
      have hdown := h.down
      rw [hc] at hdown
      cases hg : s.gcloud.phase <;> simp [hg] at hne hdown ⊢
    have hopen := h.session_connected hnotlost hc
    refine .of_running (hcalm.session.trans hopen) (Or.inr (by rw [hcalm.gcloud]; exact hclears)) ?_
    rw [hcalm.timer, hcalm.gcloud]
    exact h.timer_or_clearing hnotlost hnotmarking (by rw [hs]; rintro ⟨⟩) hc
  · intro hopen
    rw [hcalm.connected, hcalm.gcloud]
    rcases h.opened_unless (by rw [hs]; rintro ⟨⟩) (hcalm.session.symm.trans hopen) with hc | hg
    · exact Or.inl hc
    · exact Or.inr (Or.inr hg)
  · exact fun hc hcing => absurd (hcalm.connecting.symm.trans hcing)
      (h.not_both hnotlost hnotmarking (hcalm.connected.symm.trans hc))
  · intro hcing
    rw [hcalm.connecting] at hcing
    rcases (h.rising hcing).of_serving (Or.inl hs) with ht | ha | ⟨hc, hopen⟩ | hh
    · -- A handshake in flight leaves the gcloud thread nothing to do.
      have hne := hbusy (Or.inr hcing)
      cases hg : s.gcloud.phase with
      | stopping | clearing =>
        exact absurd hcing (h.not_both hnotlost hnotmarking (h.clears (by simp [hg])))
      | closing => exact absurd ht (h.closing hg)
      | handling | leaving =>
        have hclosed := h.closed (by simp [hg])
        rw [hclosed] at ht
        cases ht
      | attempting => exact .attempting (by rw [hcalm.gcloud]; exact hg)
      | serving => exact absurd hg hne
    · exact .attempting (by rw [hcalm.gcloud]; exact ha)
    · exact .closing (by rw [hcalm.gcloud]; exact hc) (hcalm.session.trans hopen)
    · exact .handling (by rw [hcalm.gcloud]; exact hh)
  · rw [hphase]
    rintro ⟨⟩

/-- A loss on the mqtt thread: from here on its handler answers for the flags. -/
theorem mqttFlags_lose {s : State} {c : MqttCall} {rev : Revents}
    (hatt : s.gcloud.attempting = false) (hm : s.mqtt = .call c rev .body) :
    MqttFlags s { s with
      client := s.client.disconnect .mqtt
      mqtt := .call c rev (.disc s.activation .stopTimer) } :=
  ⟨by rw [hm]; rintro ⟨⟩, rfl, List.Sublist.refl _, attemptStage_of_not_attempting hatt, id,
    Or.inl, (by rintro ⟨⟩),
    fun _ => rfl,
    fun _ => .lost rfl, (by rintro ⟨⟩), fun _ _ => Or.inr rfl, fun _ => .lost rfl, fun _ => rfl⟩

theorem mqttFlags_accept {s : State} {rev : Revents} (h : FlagInv s)
    (hatt : s.gcloud.attempting = false) (hm : s.mqtt = .call .input rev .body)
    (hopen : s.client.session ≠ .closed) :
    MqttFlags s { s with
      client := { s.client.unlock .mqtt with session := .connected }
      acks := s.client.origin :: s.acks
      mqtt := .connack rev .give } := by
  have hs : s.mqtt.phase = .serving := by rw [hm]; rfl
  have hnotlost : s.mqtt.phase ≠ .lost := by rw [hs]; rintro ⟨⟩
  have hnotmarking : s.mqtt.phase ≠ .marking := by rw [hs]; rintro ⟨⟩
  refine ⟨by rw [hm]; rintro ⟨⟩, rfl, List.Sublist.refl _, attemptStage_of_not_attempting hatt, id,
    Or.inl, (by rintro ⟨⟩),
    fun hc => absurd hc hopen, ?_, fun _ => Or.inr (Or.inl rfl), ?_, fun _ => .accepting rfl,
    (by rintro ⟨⟩)⟩
  · exact fun hc => .of_running rfl (Or.inl (by rintro ⟨⟩))
      (h.timer_or_clearing hnotlost hnotmarking (by rw [hs]; rintro ⟨⟩) hc)
  · exact fun hc hcing => absurd hcing (h.not_both hnotlost hnotmarking hc)

/-- The writes of the handler of an accepted CONNACK, one after the other. -/
theorem mqttFlags_connack {s s' : State} {env : Env} {rev : Revents} {p : ConnackPc}
    (h : FlagInv s) (hatt : s.gcloud.attempting = false) (hm : s.mqtt = .connack rev p)
    (hsafe : flagsSafe s (.mqtt env) = true) (hstep : connackStep env rev p s = some s') :
    MqttFlags s s' := by
  cases p with
  | give =>
    have hs : s.mqtt.phase = .accepting := by rw [hm]; rfl
    have hnotlost : s.mqtt.phase ≠ .lost := by rw [hs]; rintro ⟨⟩
    have hnotmarking : s.mqtt.phase ≠ .marking := by rw [hs]; rintro ⟨⟩
    cases hstep
    refine ⟨by rw [hm]; rintro ⟨⟩, rfl, List.Sublist.refl _, attemptStage_of_not_attempting hatt,
      id, Or.inl, id, id, ?_,
      fun _ => Or.inr (Or.inl rfl), ?_, fun _ => .accepting rfl, (by rintro ⟨⟩)⟩
    · exact fun hc => .of_running (h.session_connected hnotlost hc) (Or.inl (by rintro ⟨⟩))
        (h.timer_or_clearing hnotlost hnotmarking (by rw [hs]; rintro ⟨⟩) hc)
    · exact fun hc hcing => absurd hcing (h.not_both hnotlost hnotmarking hc)
  | setConnected =>
    have hwrite : s.client.session = .connected ∧ s.gcloud.phase ≠ .closing := by
      simp only [flagsSafe, hm, Bool.and_eq_true, decide_eq_true_eq, bne_iff_ne] at hsafe
      exact hsafe.2
    cases hstep
    refine ⟨by rw [hm]; rintro ⟨⟩, rfl, List.Sublist.refl _, attemptStage_of_not_attempting hatt,
      fun _ => rfl,
      fun _ => Or.inr ⟨hwrite.1, hwrite.2, ?_⟩, id, id,
      fun _ => .served hwrite.1 (Or.inl (by rintro ⟨⟩)) (Or.inr (Or.inl rfl)), fun _ => Or.inl rfl,
      fun _ _ => Or.inl rfl, fun _ => .marking rfl, (by rintro ⟨⟩)⟩
    intro hphase
    rw [(attempting_iff_phase _).mpr hphase] at hatt
    cases hatt
  | clearConnecting =>
    have hs : s.mqtt.phase = .marking := by rw [hm]; rfl
    cases hstep
    refine ⟨by rw [hm]; rintro ⟨⟩, rfl, List.Sublist.refl _, attemptStage_of_not_attempting hatt,
      id, Or.inl, id, id, ?_, ?_,
      (by rintro _ ⟨⟩), (by rintro ⟨⟩), (by rintro ⟨⟩)⟩
    · exact fun hc => .served (h.session_connected (by rw [hs]; rintro ⟨⟩) hc)
        (Or.inl (by rintro ⟨⟩)) (Or.inr (Or.inr (Or.inl rfl)))
    · intro hopen
      rcases h.opened_unless (by rw [hs]; rintro ⟨⟩) hopen with hc | hg
      · exact Or.inl hc
      · exact Or.inr (Or.inr hg)
  | startTimer =>
    have hs : s.mqtt.phase = .arming := by rw [hm]; rfl
    have hnotlost : s.mqtt.phase ≠ .lost := by rw [hs]; rintro ⟨⟩
    cases hstep
    refine ⟨by rw [hm]; rintro ⟨⟩, rfl, List.Sublist.refl _, attemptStage_of_not_attempting hatt,
      id, Or.inl, id, id, ?_, ?_,
      ?_, fun hcing => rising_of_serving (h.rising hcing) (Or.inr hs) (by rintro ⟨⟩) rfl rfl,
      (by rintro ⟨⟩)⟩
    · exact fun hc => .of_running (h.session_connected hnotlost hc) (Or.inl (by rintro ⟨⟩))
        (Or.inl rfl)
    · intro hopen
      rcases h.opened_unless (by rw [hs]; rintro ⟨⟩) hopen with hc | hg
      · exact Or.inl hc
      · exact Or.inr (Or.inr hg)
    · exact fun hc hcing => absurd hcing (h.not_both hnotlost (by rw [hs]; rintro ⟨⟩) hc)
  | putSubscribe =>
    have hkeeps := s.kernel.put_keeps env.pos .mqtt .subscribe
    simp only [connackStep] at hstep
    split at hstep <;> rename_i heq <;> cases hstep
    all_goals
      rw [heq] at hkeeps
      exact mqttFlags_serving h ⟨hkeeps, rfl, rfl, rfl, rfl, rfl, rfl⟩ (by rw [hm]; rfl) rfl
  | putWait =>
    simp only [connackStep] at hstep
    split at hstep <;> cases hstep
    exact mqttFlags_serving h ⟨Kernel.Keeps.refl _, rfl, rfl, rfl, rfl, rfl, rfl⟩ (by rw [hm]; rfl)
      rfl

/-- The handler of a loss on the mqtt thread closes with no flag up, or ends the thread. -/
theorem mqttFlags_disc {s s' : State} {env : Env} {c : MqttCall} {rev : Revents} {a : Activation}
    {p : DiscPc} (h : FlagInv s) (hatt : s.gcloud.attempting = false)
    (hm : s.mqtt = .call c rev (.disc a p)) (hsafe : flagsSafe s (.mqtt env) = true)
    (hstep : mqttDisc c rev a p s = some s') : MqttFlags s s' := by
  have hstill : ∀ k : Kernel, ∀ t : Bool, ∀ q : DiscPc,
    k.msgq.readers.Sublist s.kernel.msgq.readers →
      s.mqtt.phase = .lost → (MqttPc.call c rev (.disc a q)).phase = .lost →
      MqttFlags s { s with kernel := k, timer := t, mqtt := .call c rev (.disc a q) } := by
    intro k t q hk hs hq
    exact ⟨by rw [hs]; rintro ⟨⟩, rfl, hk, attemptStage_of_not_attempting hatt, id, Or.inl, id, id,
      fun _ => .lost hq,
      fun hopen => absurd (h.lost hs) (by rw [hopen]; rintro ⟨⟩), fun _ _ => Or.inr hq,
      fun _ => .lost hq, fun _ => h.lost hs⟩
  cases p with
  | stopTimer =>
    cases hstep
    exact hstill s.kernel false _ (List.Sublist.refl _) (by rw [hm]; rfl) rfl
  | purge =>
    cases hstep
    exact hstill s.kernel.purge s.timer _ (List.nil_sublist _) (by rw [hm]; rfl) rfl
  | check =>
    have hs : s.mqtt.phase = .lost := by rw [hm]; rfl
    simp only [mqttDisc] at hstep
    split at hstep
    · cases hstep
      exact hstill s.kernel s.timer _ (List.Sublist.refl _) hs rfl
    · rename_i hdown
      simp only [Bool.or_eq_true, not_or, Bool.not_eq_true] at hdown
      cases hstep
      exact ⟨by rw [hm]; rintro ⟨⟩, rfl, List.Sublist.refl _, attemptStage_of_not_attempting hatt,
        id, Or.inl, id, id,
        by simp [hdown.1], fun hopen => absurd (h.lost hs) (by rw [hopen]; rintro ⟨⟩),
        by simp [hdown.1], by simp [hdown.2], (by rintro ⟨⟩)⟩
  | abort => simp [flagsSafe, mutexSafe, hm] at hsafe
  | connect p => cases hstep
  | leave =>
    cases hstep
    exact mqttFlags_serving h ⟨Kernel.Keeps.refl _, rfl, rfl, rfl, rfl, rfl, rfl⟩ (by rw [hm]; rfl)
      rfl

theorem flagInv_mqtt {env : Env} {s s' : State} (h : FlagInv s)
    (hsafe : flagsSafe s (.mqtt env) = true) (hstep : mqttStep env s = some s') : FlagInv s' := by
  have hparts := hsafe
  simp only [flagsSafe, Bool.and_eq_true] at hparts
  obtain ⟨⟨hmutex, hexits⟩, _⟩ := hparts
  have hcall : ∀ c rev p, s.mqtt = .call c rev p → s.gcloud.attempting = false :=
    fun c rev p hm => not_attempting_of_safe (by rw [hm]; rintro ⟨⟩) hmutex
  cases mqttStep_effect hstep with
  | calm hcalm hs hs' => exact h.mqttFlags (mqttFlags_serving h hcalm.sameFlags hs hs')
  | exit hcalm hs hexit hs' =>
    refine h.mqttFlags (mqttFlags_exit h hcalm hs hs' ?_)
    simpa [hexit] using hexits
  | lose c rev hm _ _ => exact h.mqttFlags (mqttFlags_lose (hcall _ _ _ hm) hm)
  | accept rev hm hopen _ _ => exact h.mqttFlags (mqttFlags_accept h (hcall _ _ _ hm) hm hopen)
  | connack rev p hm hconn =>
    have hatt := not_attempting_of_safe (by rw [hm]; rintro ⟨⟩) hmutex
    exact h.mqttFlags (mqttFlags_connack h hatt hm hsafe hconn)
  | disc c rev a p hm hdisc => exact h.mqttFlags (mqttFlags_disc h (hcall _ _ _ hm) hm hsafe hdisc)

/-- What a step of the gcloud thread inside one phase leaves alone. -/
structure GcloudSame (s s' : State) : Prop where
  mqtt : s'.mqtt = s.mqtt
  phase : s'.gcloud.phase = s.gcloud.phase
  session : s'.client.session = s.client.session
  connected : s'.connected = s.connected
  connecting : s'.connecting = s.connecting
  timer : s'.timer = s.timer
  pending : Pending s → Pending s'
  late : ∀ c p, s'.gcloud = .call c p → p.late = true → c = .disconnect
  aborted : ∀ c a p, s'.gcloud = .call c (.disc a (.connect p)) → s.mqtt.phase = .gone
  stage : AttemptStage s'
  reads : s'.gcloud ≠ .wait → s'.kernel.msgq.readers = []
  readers : ∀ t ∈ s'.kernel.msgq.readers, t = .gcloud

theorem FlagInv.gcloudSame {s s' : State} (h : FlagInv s) (hgs : GcloudSame s s') : FlagInv s' := by
  refine ⟨?_, ?_, ?_, ?_, ?_, ?_, ?_, ?_, ?_, hgs.late, ?_, hgs.stage, hgs.reads, hgs.readers⟩
  · intro hc
    rw [hgs.connected] at hc
    cases h.up hc with
    | lost hl => exact .lost (by rw [hgs.mqtt]; exact hl)
    | served hopen halive htimer =>
      exact .served (hgs.session.trans hopen) (by rw [hgs.mqtt, hgs.phase]; exact halive)
        (by rw [hgs.timer, hgs.mqtt, hgs.phase]; exact htimer)
  · rw [hgs.session, hgs.connected, hgs.mqtt, hgs.phase]
    exact h.opened
  · rw [hgs.connected, hgs.connecting, hgs.mqtt]
    exact h.both
  · intro hc
    rw [hgs.connecting] at hc
    cases h.rising hc with
    | lost hl => exact .lost (by rw [hgs.mqtt]; exact hl)
    | accepting hl => exact .accepting (by rw [hgs.mqtt]; exact hl)
    | marking hl => exact .marking (by rw [hgs.mqtt]; exact hl)
    | handshake hs halive =>
      exact .handshake (hgs.session.trans hs) (by rw [hgs.mqtt]; exact halive)
    | attempting hg => exact .attempting (hgs.phase.trans hg)
    | closing hg hopen => exact .closing (hgs.phase.trans hg) (hgs.session.trans hopen)
    | handling hg => exact .handling (hgs.phase.trans hg)
    | pending hp => exact .pending (hgs.pending hp)
  · rw [hgs.phase, hgs.connected]
    exact h.clears
  · rw [hgs.phase, hgs.connected]
    exact h.down
  · rw [hgs.mqtt, hgs.session]
    exact h.lost
  · rw [hgs.phase, hgs.session]
    exact h.closing
  · rw [hgs.phase, hgs.session]
    exact h.closed
  · rw [hgs.mqtt]
    exact hgs.aborted

/-- A step of the gcloud thread that leaves `connected` down. -/
structure GcloudDown (s' : State) : Prop where
  down : s'.connected = false
  phase : s'.gcloud.phase ≠ .stopping ∧ s'.gcloud.phase ≠ .clearing
  opened : s'.client.session = .connected →
    s'.mqtt.phase = .accepting ∨ s'.gcloud.phase = .closing
  rising : s'.connecting = true → Rising s'
  lost : s'.mqtt.phase = .lost → s'.client.session = .closed
  closing : s'.gcloud.phase = .closing → s'.client.session ≠ .tcp
  closed : s'.gcloud.phase = .handling ∨ s'.gcloud.phase = .leaving → s'.client.session = .closed
  late : ∀ c p, s'.gcloud = .call c p → p.late = true → c = .disconnect
  aborted : ∀ c a p, s'.gcloud = .call c (.disc a (.connect p)) → s'.mqtt.phase = .gone
  stage : AttemptStage s'
  readers : s'.kernel.msgq.readers = []

theorem GcloudDown.flagInv {s' : State} (h : GcloudDown s') : FlagInv s' := by
  refine ⟨?_, fun hopen => Or.inr (h.opened hopen), ?_, h.rising, ?_, fun _ => h.down, h.lost,
    h.closing, h.closed, h.late, h.aborted, h.stage, fun _ => h.readers, ?_⟩
  · simp [h.down]
  · simp [h.down]
  · rintro (hg | hg)
    · exact absurd hg h.phase.1
    · exact absurd hg h.phase.2
  · simp [h.readers]

theorem Pending.keeps {s s' : State} (h : Pending s) (hg : s.gcloud ≠ .dispatch)
    (hg' : s.gcloud ≠ .clientInit) (hk : s.kernel.Keeps s'.kernel) (hm : s'.mqtt = s.mqtt)
    (hc : s'.connected = s.connected) : Pending s' := by
  refine ⟨by rw [hm]; exact h.gone, hc.trans h.down, ?_⟩
  rcases h.held with hheld | ⟨hdispatch, _⟩ | hinit
  · exact Or.inl (hk.holdsConnect hheld)
  · exact absurd hdispatch hg
  · exact absurd hinit hg'

theorem FlagInv.readers_nil {s s' : State} (h : FlagInv s) (hg : s.gcloud ≠ .wait)
    (hk : s.kernel.Keeps s'.kernel) : s'.kernel.msgq.readers = [] := hk.readers_nil (h.reads hg)

/-- Within one phase, a call that at most takes or gives up the mutex. -/
theorem flagInv_sameCall {s : State} {c : GcloudCall} {p : CallPc} {m : Mutex Tid} {pc : GcloudPc}
    (h : FlagInv s) (hg : s.gcloud = .call c p) (hphase : pc.phase = s.gcloud.phase)
    (hlate : ∀ d q, pc = .call d q → q.late = false)
    (hstage : AttemptStage { s with client := { s.client with mutex := m }, gcloud := pc }) :
    FlagInv { s with client := { s.client with mutex := m }, gcloud := pc } := by
  have hnil := h.reads (by rw [hg]; rintro ⟨⟩)
  refine h.gcloudSame ⟨rfl, hphase, rfl, rfl, rfl, rfl, ?_, ?_, ?_, hstage, fun _ => hnil, ?_⟩
  · exact fun hp => hp.keeps (by rw [hg]; rintro ⟨⟩) (by rw [hg]; rintro ⟨⟩) (Kernel.Keeps.refl _)
      rfl rfl
  · intro d q hpc hq
    rw [hlate d q hpc] at hq
    cases hq
  · intro d a q hpc
    have hfalse := hlate d _ hpc
    cases hfalse
  · exact h.readers

/-- On the way out of mqtt_disconnect the session is closed, and `connecting` rests on
the events of the mqtt thread or on a queued CONNECT. -/
theorem Rising.of_leaving {s s' : State} (h : Rising s) (hphase : s.gcloud.phase = .leaving)
    (hclosed : s.client.session = .closed) (hpending : Pending s → Pending s')
    (hm : s'.mqtt = s.mqtt) : Rising s' := by
  cases h with
  | lost h => exact .lost (by rw [hm]; exact h)
  | accepting h => exact .accepting (by rw [hm]; exact h)
  | marking h => exact .marking (by rw [hm]; exact h)
  | handshake h _ =>
    rw [hclosed] at h
    cases h
  | attempting h | closing h _ | handling h =>
    rw [hphase] at h
    cases h
  | pending h => exact .pending (hpending h)

/-- A step of the gcloud thread on the way out of mqtt_disconnect. -/
theorem flagInv_leaving {s : State} {k : Kernel} {cl : Client} {deps : List Departure}
    {pc : GcloudPc} (h : FlagInv s) (hphase : s.gcloud.phase = .leaving)
    (hk : s.kernel.Keeps k) (hcl : cl.session = s.client.session)
    (hpc : pc.phase = .leaving ∨ pc.phase = .serving)
    (hlate : ∀ c p, pc = .call c p → p.late = true → c = .disconnect)
    (habort : ∀ c a p, pc = .call c (.disc a (.connect p)) → s.mqtt.phase = .gone) :
    FlagInv { s with kernel := k, client := cl, departures := deps, gcloud := pc } := by
  have hclosed := h.closed (Or.inr hphase)
  have hne : ∀ q : GcloudPhase, q ≠ .leaving → q ≠ .serving → pc.phase ≠ q := by
    rintro q hl hs rfl
    rcases hpc with hq | hq
    · exact hl hq
    · exact hs hq
  have hwait : s.gcloud ≠ .wait := by
    intro hg
    rw [hg] at hphase
    cases hphase
  refine GcloudDown.flagInv ⟨h.down (Or.inr (Or.inr (Or.inl hphase))),
    ⟨hne _ (by rintro ⟨⟩) (by rintro ⟨⟩), hne _ (by rintro ⟨⟩) (by rintro ⟨⟩)⟩, ?_, ?_,
    fun _ => hcl.trans hclosed, ?_,
    fun _ => hcl.trans hclosed, hlate, habort, ?_, hk.readers_nil (h.reads hwait)⟩
  · intro hopen
    have hnot := (hcl.symm.trans hopen).symm.trans hclosed
    cases hnot
  · intro hcing
    refine (h.rising hcing).of_leaving hphase hclosed (fun hp => ?_) rfl
    refine hp.keeps ?_ ?_ hk rfl rfl
    · intro hg
      rw [hg] at hphase
      cases hphase
    · intro hg
      rw [hg] at hphase
      cases hphase
  · exact fun hg => absurd hg (hne _ (by rintro ⟨⟩) (by rintro ⟨⟩))
  · refine attemptStage_of_not_attempting ?_
    by_contra hatt
    simp only [Bool.not_eq_false] at hatt
    exact hne .attempting (by rintro ⟨⟩) (by rintro ⟨⟩) ((attempting_iff_phase pc).mp hatt)

/-- A step of the handler before its CONNECT is queued. -/
theorem flagInv_handling {s : State} {k : Kernel} {t : Bool} {a : Activation} {q : DiscPc}
    (h : FlagInv s) (hphase : s.gcloud.phase = .handling) (hk : k.msgq.readers = [])
    (hq : (GcloudPc.call .disconnect (.disc a q)).phase = .handling)
    (hconn : ∀ p, q ≠ .connect p) :
    FlagInv { s with kernel := k, timer := t, gcloud := .call .disconnect (.disc a q) } := by
  have hclosed := h.closed (Or.inl hphase)
  refine GcloudDown.flagInv ⟨h.down (Or.inr (Or.inl hphase)), ⟨?_, ?_⟩, ?_, fun _ => .handling hq,
    fun _ => hclosed, ?_, fun _ => hclosed, ?_, ?_, trivial, hk⟩
  · rw [hq]; rintro ⟨⟩
  · rw [hq]; rintro ⟨⟩
  · intro hopen
    have hnot := hopen.symm.trans hclosed
    cases hnot
  · intro hg
    rw [hq] at hg
    cases hg
  · rintro c p ⟨⟩ _
    rfl
  · rintro c b p ⟨⟩
    exact absurd rfl (hconn p)

theorem flagInv_gcloudDisc {s s' : State} {env : Env} {a : Activation} {p : DiscPc}
    (h : FlagInv s) (hg : s.gcloud = .call .disconnect (.disc a p))
    (hsafe : flagsSafe s (.gcloud env) = true)
    (hstep : gcloudDisc .disconnect env a p s = some s') : FlagInv s' := by
  have hnil := h.reads (by rw [hg]; rintro ⟨⟩)
  cases p with
  | stopTimer =>
    cases hstep
    exact flagInv_handling h (by rw [hg]; rfl) hnil rfl (by rintro _ ⟨⟩)
  | purge =>
    cases hstep
    exact flagInv_handling h (by rw [hg]; rfl) rfl rfl (by rintro _ ⟨⟩)
  | check =>
    simp only [gcloudDisc] at hstep
    split at hstep
    · cases hstep
      exact flagInv_handling h (by rw [hg]; rfl) hnil rfl (by rintro _ ⟨⟩)
    · rename_i hdown
      simp only [Bool.or_eq_true, not_or, Bool.not_eq_true] at hdown
      have hclosed := h.closed (Or.inl (by rw [hg]; rfl))
      cases hstep
      refine GcloudDown.flagInv ⟨hdown.1, ⟨(by rintro ⟨⟩), (by rintro ⟨⟩)⟩, fun hopen => ?_,
        by simp [hdown.2],
        fun _ => hclosed, (by rintro ⟨⟩), fun _ => hclosed, ?_, (by rintro _ _ _ ⟨⟩), trivial, hnil⟩
      · have hnot := hopen.symm.trans hclosed
        cases hnot
      · rintro c p ⟨⟩ _
        rfl
  | abort =>
    have hclosed := h.closed (Or.inl (by rw [hg]; rfl))
    cases hstep
    refine GcloudDown.flagInv ⟨h.down (Or.inr (Or.inl (by rw [hg]; rfl))),
      ⟨(by rintro ⟨⟩), (by rintro ⟨⟩)⟩,
      fun hopen => ?_, fun _ => .handling rfl, (by rintro ⟨⟩), (by rintro ⟨⟩), fun _ => hclosed,
      ?_, fun _ _ _ _ => rfl,
      trivial, (s.kernel.drop_keeps .mqtt).readers_nil hnil⟩
    · have hnot := hopen.symm.trans hclosed
      cases hnot
    · rintro c p ⟨⟩ _
      rfl
  | connect p =>
    have hgone := h.aborted _ _ _ hg
    obtain ⟨⟨err, rfl⟩, rfl⟩ | ⟨p', k, hconn, rfl⟩ := gcloudDisc_connect_cases hstep
    · refine flagInv_leaving h (by rw [hg]; rfl) (Kernel.Keeps.refl _) rfl (Or.inl rfl) ?_
        (by rintro _ _ _ ⟨⟩)
      rintro c p ⟨⟩ _
      rfl
    · have hk := connStep_keeps hconn
      have hlate : ∀ c q, GcloudPc.call .disconnect (.disc a (.connect p')) = .call c q →
          q.late = true → c = .disconnect := by
        rintro c q ⟨⟩ _
        rfl
      cases p with
      | put =>
        -- With room in the queue and nobody reading, the CONNECT is stored at once.
        have hroom : s.kernel.msgq.buf.length < nMessages := by simpa [flagsSafe, hg] using hsafe
        have hmem := Kernel.mem_put_of_room env.pos .gcloud (.connect none) hroom hnil
        have hclosed := h.closed (Or.inl (by rw [hg]; rfl))
        have hdown := h.down (Or.inr (Or.inl (by rw [hg]; rfl)))
        obtain ⟨rfl, heq⟩ := connStep_put_of_room hroom hconn
        rw [heq] at hmem
        have hheld : k.holdsConnect = true := Kernel.holdsConnect_iff.mpr ⟨_, hmem, rfl⟩
        refine GcloudDown.flagInv ⟨hdown, ⟨(by rintro ⟨⟩), (by rintro ⟨⟩)⟩, fun hopen => ?_,
          fun _ => .pending ⟨hgone, hdown, Or.inl hheld⟩, fun _ => hclosed, (by rintro ⟨⟩),
          fun _ => hclosed, hlate, fun _ _ _ _ => hgone, trivial, hk.readers_nil hnil⟩
        have hnot := hopen.symm.trans hclosed
        cases hnot
      | putWait | take err | takeWait err =>
        refine flagInv_leaving h (by rw [hg]; rfl) hk rfl (Or.inl ?_) hlate (fun _ _ _ _ => hgone)
        simp only [connStep] at hconn
        split at hconn <;> cases hconn <;> rfl
      | ret err => cases hconn
  | leave =>
    cases hstep
    refine flagInv_leaving (s := s) h (by rw [hg]; rfl) (Kernel.Keeps.refl _) rfl (Or.inl rfl) ?_
      (by rintro _ _ _ ⟨⟩)
    rintro c p ⟨⟩ _
    rfl

theorem resting_phase {pc : MqttPc} (h : pc.resting = true) :
    pc.phase = .gone ∨ pc.phase = .serving := by
  cases pc with
  | absent | dead => exact Or.inl rfl
  | poll => exact Or.inr rfl
  | overrun | call c rev p | connack rev p => cases h

/-- mqtt_connect opens a connection; the mqtt thread has no part in it. -/
theorem flagInv_connectBody {s s' : State} {env : Env} (h : FlagInv s) (hmx : MutexInv s)
    (hg : s.gcloud = .call .connect .body) (hok : env.ok = true)
    (hstep : gcloudCall .connect env .body s = some s') : FlagInv s' := by
  have hrest := (hmx.attempt (by rw [hg]; rfl)).1
  have hnil := h.reads (by rw [hg]; rintro ⟨⟩)
  simp only [gcloudCall, gcloudBody, hok, if_true, Option.some.injEq] at hstep
  subst hstep
  refine GcloudDown.flagInv ⟨h.down (Or.inr (Or.inr (Or.inr (by rw [hg]; rfl)))),
    ⟨(by rintro ⟨⟩), (by rintro ⟨⟩)⟩,
    (by rintro ⟨⟩), fun _ => .attempting rfl, ?_, (by rintro ⟨⟩),
    (by rintro (hp | hp) <;> cases hp), ?_, (by rintro _ _ _ ⟨⟩),
    rfl, hnil⟩
  · intro hl
    rcases resting_phase hrest with hp | hp
    · cases hp.symm.trans hl
    · cases hp.symm.trans hl
  · rintro c p ⟨⟩ hlate
    cases hlate

/-- mqtt_disconnect: an open session is closed and its handler takes over. -/
theorem flagInv_disconnectBody {s s' : State} {env : Env} (h : FlagInv s)
    (hg : s.gcloud = .call .disconnect .body)
    (hstep : gcloudCall .disconnect env .body s = some s') : FlagInv s' := by
  have hphase : s.gcloud.phase = .closing := by rw [hg]; rfl
  have hdown := h.down (Or.inl hphase)
  have hnil := h.reads (by rw [hg]; rintro ⟨⟩)
  by_cases hopen : s.client.session = .connected
  · simp only [gcloudCall, gcloudBody, hopen, ne_eq, not_true_eq_false, if_false,
      Option.some.injEq] at hstep
    subst hstep
    refine GcloudDown.flagInv ⟨hdown, ⟨(by rintro ⟨⟩), (by rintro ⟨⟩)⟩, (by rintro ⟨⟩),
      fun _ => .handling rfl, fun _ => rfl,
      (by rintro ⟨⟩), fun _ => rfl, ?_, ?_, trivial, hnil⟩
    · rintro c p ⟨⟩ _
      rfl
    · rintro c a p hpc
      cases hpc
  · have hclosed : s.client.session = .closed := by
      cases hs : s.client.session with
      | closed => rfl
      | tcp => exact absurd hs (h.closing hphase)
      | connected => exact absurd hs hopen
    simp only [gcloudCall, gcloudBody, ne_eq, hopen, not_false_eq_true, if_true,
      Option.some.injEq] at hstep
    subst hstep
    refine GcloudDown.flagInv ⟨hdown, ⟨(by rintro ⟨⟩), (by rintro ⟨⟩)⟩, fun ho => absurd ho hopen,
      ?_,
      fun _ => hclosed, (by rintro ⟨⟩), fun _ => hclosed, ?_, (by rintro _ _ _ ⟨⟩), trivial, hnil⟩
    · intro hcing
      cases h.rising hcing with
      | lost hl => exact .lost hl
      | accepting hl => exact .accepting hl
      | marking hl => exact .marking hl
      | handshake ht _ => exact absurd ht (h.closing hphase)
      | attempting hp | handling hp =>
        rw [hphase] at hp
        cases hp
      | closing _ ho => exact absurd ho hopen
      | pending hp =>
        exact .pending (hp.keeps (by rw [hg]; rintro ⟨⟩) (by rw [hg]; rintro ⟨⟩)
          (Kernel.Keeps.refl _) rfl rfl)
    · rintro c p ⟨⟩ hlate
      cases hlate

theorem flagInv_gcloudCall {c : GcloudCall} {env : Env} {p : CallPc} {s s' : State}
    (h : FlagInv s) (hmx : MutexInv s) (hg : s.gcloud = .call c p)
    (hsafe : flagsSafe s (.gcloud env) = true) (hstep : gcloudCall c env p s = some s') :
    FlagInv s' := by
  have hearly : ∀ x : CallPc, x.late = false → ∀ d q, GcloudPc.call c x = .call d q →
      q.late = false := by
    rintro x hx d q ⟨⟩
    exact hx
  cases p with
  | lock =>
    simp only [gcloudCall] at hstep
    split at hstep <;> rename_i hlock <;> cases hstep
    all_goals
      obtain ⟨_, rfl⟩ := Prod.mk.inj hlock
      refine flagInv_sameCall h hg ?_ (hearly _ rfl) ?_
      · rw [hg]
        cases c <;> rfl
      · cases c <;> trivial
  | lockWait =>
    simp only [gcloudCall] at hstep
    split at hstep <;> cases hstep
    refine flagInv_sameCall (m := s.client.mutex) h hg ?_ (hearly _ rfl) ?_
    · rw [hg]
      cases c <;> rfl
    · cases c <;> trivial
  | body =>
    cases c with
    | connect => exact flagInv_connectBody h hmx hg (by simpa [flagsSafe, hg] using hsafe) hstep
    | disconnect => exact flagInv_disconnectBody h hg hstep
    | publish m id | subscribe =>
      simp only [flagsSafe, hg] at hsafe
      simp only [gcloudCall] at hstep
      split at hstep
      · rename_i ok cl hbody
        cases hstep
        have hcl : cl = s.client := by
          simp only [gcloudBody] at hbody
          split at hbody
          · cases hbody; rfl
          · split at hbody
            · cases hbody; rfl
            · split at hbody <;> cases hbody
              rfl
        rw [hcl]
        exact flagInv_sameCall (m := s.client.mutex) h hg (by rw [hg]; rfl) (hearly _ rfl) trivial
      · rename_i hbody
        rw [hbody] at hsafe
        cases hsafe
  | disc a p =>
    obtain rfl := h.late c _ hg rfl
    exact flagInv_gcloudDisc h hg hsafe hstep
  | relock ok =>
    obtain rfl := h.late c _ hg rfl
    simp only [gcloudCall] at hstep
    split at hstep <;> rename_i hlock <;> cases hstep
    all_goals
      obtain ⟨_, rfl⟩ := Prod.mk.inj hlock
      refine flagInv_leaving h (by rw [hg]; rfl) (Kernel.Keeps.refl _) rfl (Or.inl rfl) ?_
        (by rintro _ _ _ ⟨⟩)
      rintro c p ⟨⟩ _
      rfl
  | relockWait ok =>
    obtain rfl := h.late c _ hg rfl
    simp only [gcloudCall] at hstep
    split at hstep <;> cases hstep
    refine flagInv_leaving h (by rw [hg]; rfl) (Kernel.Keeps.refl _) rfl (Or.inl rfl) ?_
      (by rintro _ _ _ ⟨⟩)
    rintro c p ⟨⟩ _
    rfl
  | unlock ok =>
    cases hstep
    cases c with
    | connect =>
      have hstage := h.stage
      simp only [AttemptStage, hg] at hstage
      exact flagInv_sameCall h hg (by rw [hg]; rfl) (by rintro _ _ ⟨⟩) hstage
    | disconnect =>
      exact flagInv_leaving h (by rw [hg]; rfl) (Kernel.Keeps.refl _) rfl (Or.inr rfl)
        (by rintro _ _ ⟨⟩) (by rintro _ _ _ ⟨⟩)
    | publish m id | subscribe =>
      exact flagInv_sameCall h hg (by rw [hg]; rfl) (by rintro _ _ ⟨⟩) trivial

theorem flagInv_dispatch {env : Env} {s : State} (h : FlagInv s) (hg : s.gcloud = .dispatch) :
    FlagInv { s with gcloud := dispatch env s } := by
  have hphase : s.gcloud.phase = .serving := by rw [hg]; rfl
  have hnil := h.reads (by rw [hg]; rintro ⟨⟩)
  have hup : s.connected = true → ¬ Pending s := by
    intro hc hp
    rw [hp.down] at hc
    cases hc
  have hserving : ∀ pc : GcloudPc, pc.phase = .serving → (∀ c q, pc = .call c q → q.late = false) →
      (Pending s → Pending { s with gcloud := pc }) → FlagInv { s with gcloud := pc } := by
    intro pc hpc hlate hpend
    refine h.gcloudSame ⟨rfl, hpc.trans hphase.symm, rfl, rfl, rfl, rfl, hpend, ?_, ?_, ?_,
      fun _ => hnil, h.readers⟩
    · intro c q hq hl
      rw [hlate c q hq] at hl
      cases hl
    · intro c a q hq
      cases hlate c _ hq
    · refine attemptStage_of_not_attempting ?_
      by_contra hatt
      simp only [Bool.not_eq_false] at hatt
      cases hpc.symm.trans ((attempting_iff_phase pc).mp hatt)
  obtain ⟨_, hd⟩ | ⟨hevent, hd | ⟨hc, hd | ⟨m, id, hd⟩ | hd⟩⟩ := dispatch_cases env s
  · rw [hd]
    exact hserving _ rfl (by rintro _ _ ⟨⟩) fun hp => ⟨hp.gone, hp.down, Or.inr (Or.inr rfl)⟩
  · rw [hd]
    refine hserving _ rfl (by rintro _ _ ⟨⟩) fun hp => ⟨hp.gone, hp.down, ?_⟩
    rcases hp.held with hheld | ⟨_, hconn⟩ | hinit
    · exact Or.inl hheld
    · rw [hevent] at hconn
      cases hconn
    · rw [hg] at hinit
      cases hinit
  · rw [hd]
    refine ⟨?_, ?_, h.both, ?_, fun _ => hc, (by rintro (hp | hp | hp | hp) <;> cases hp), h.lost,
      (by rintro ⟨⟩),
      (by rintro (hp | hp) <;> cases hp), (by rintro _ _ ⟨⟩), (by rintro _ _ _ ⟨⟩), trivial,
      fun _ => hnil, h.readers⟩
    · intro _
      cases h.up hc with
      | lost hl => exact .lost hl
      | served hopen halive htimer =>
        refine .served hopen (Or.inr (Or.inl rfl)) ?_
        rcases htimer with ht | hm | hm | hgc
        · exact Or.inl ht
        · exact Or.inr (Or.inl hm)
        · exact Or.inr (Or.inr (Or.inl hm))
        · rw [hphase] at hgc
          cases hgc
    · exact fun _ => Or.inl hc
    · exact fun hcing => h.rising_of_both rfl hc hcing
  · rw [hd]
    refine hserving _ rfl ?_ fun hp => absurd hp (hup hc)
    rintro c q ⟨⟩
    rfl
  · rw [hd]
    refine hserving _ rfl ?_ fun hp => absurd hp (hup hc)
    rintro c q ⟨⟩
    rfl

/-- The commands DISCONNECT and RECONNECT_TIMEOUT, up to mqtt_disconnect. -/
theorem flagInv_stopping {env : Env} {s s' : State} (h : FlagInv s)
    (hg : s.gcloud = .stopTimer ∨ s.gcloud = .clearConnected ∨ s.gcloud = .markConnecting)
    (hsafe : flagsSafe s (.gcloud env) = true) (hstep : gcloudStep env s = some s') :
    FlagInv s' := by
  have hnil : s.kernel.msgq.readers = [] := by
    refine h.reads ?_
    rcases hg with hg | hg | hg <;> rw [hg] <;> rintro ⟨⟩
  rcases hg with hg | hg | hg
  · have hc := h.clears (Or.inl (by rw [hg]; rfl))
    simp only [gcloudStep, hg, Option.some.injEq] at hstep
    subst hstep
    refine ⟨?_, fun _ => Or.inl hc, h.both, ?_, fun _ => hc,
      (by rintro (hp | hp | hp | hp) <;> cases hp), h.lost, (by rintro ⟨⟩),
      (by rintro (hp | hp) <;> cases hp), (by rintro _ _ ⟨⟩), (by rintro _ _ _ ⟨⟩), trivial,
      fun _ => hnil, h.readers⟩
    · intro _
      cases h.up hc with
      | lost hl => exact .lost hl
      | served hopen _ _ =>
        exact .served hopen (Or.inr (Or.inr rfl)) (Or.inr (Or.inr (Or.inr rfl)))
    · exact fun hcing => h.rising_of_both rfl hc hcing
  · have hc := h.clears (Or.inr (by rw [hg]; rfl))
    simp only [gcloudStep, hg, Option.some.injEq] at hstep
    subst hstep
    refine GcloudDown.flagInv ⟨rfl, ⟨(by rintro ⟨⟩), (by rintro ⟨⟩)⟩, fun _ => Or.inr rfl, ?_,
      h.lost, ?_, (by rintro (hp | hp) <;> cases hp),
      (by rintro _ _ ⟨⟩), (by rintro _ _ _ ⟨⟩), trivial, hnil⟩
    · exact fun hcing => h.rising_of_both rfl hc hcing
    · intro _ htcp
      cases h.up hc with
      | lost hl => cases (h.lost hl).symm.trans htcp
      | served hopen _ _ => cases hopen.symm.trans htcp
  · have hphase : s.gcloud.phase = .closing := by rw [hg]; rfl
    simp only [gcloudStep, hg, Option.some.injEq] at hstep
    subst hstep
    refine GcloudDown.flagInv ⟨h.down (Or.inl hphase), ⟨(by rintro ⟨⟩), (by rintro ⟨⟩)⟩,
      fun _ => Or.inr rfl, ?_, h.lost,
      fun _ => h.closing hphase, (by rintro (hp | hp) <;> cases hp), ?_, (by rintro _ _ _ ⟨⟩),
      trivial, hnil⟩
    · intro hcing
      refine .closing rfl ?_
      simp only [flagsSafe, hg, Bool.or_eq_true, decide_eq_true_eq] at hsafe
      rcases hsafe with hdisc | hopen
      · exfalso
        dsimp only at hcing
        split at hcing <;> rename_i hevent
        · cases hcing
        · split at hdisc <;> rename_i hevent'
          · exact hevent _ hevent'
          · cases hdisc
      · exact hopen
    · rintro c p ⟨⟩ hlate
      cases hlate

/-- The execution of CONNECT outside mqtt_connect. -/
theorem flagInv_attempting {env : Env} {s s' : State} (h : FlagInv s)
    (hg : s.gcloud = .clientInit ∨ s.gcloud = .setConnecting ∨ s.gcloud = .create)
    (hsafe : flagsSafe s (.gcloud env) = true) (hstep : gcloudStep env s = some s') :
    FlagInv s' := by
  have hnil : s.kernel.msgq.readers = [] := by
    refine h.reads ?_
    rcases hg with hg | hg | hg <;> rw [hg] <;> rintro ⟨⟩
  rcases hg with hg | hg | hg
  · simp only [flagsSafe, hg, Bool.and_eq_true, Bool.not_eq_true'] at hsafe
    obtain ⟨⟨hok, hdown⟩, _⟩ := hsafe
    simp only [gcloudStep, hg, Option.some.injEq] at hstep
    subst hstep
    exact GcloudDown.flagInv ⟨hdown, ⟨(by rintro ⟨⟩), (by rintro ⟨⟩)⟩, (by rintro ⟨⟩),
      fun _ => .attempting rfl, fun _ => rfl,
      (by rintro ⟨⟩), fun _ => rfl, (by rintro _ _ ⟨⟩), (by rintro _ _ _ ⟨⟩), hok, hnil⟩
  · have hphase : s.gcloud.phase = .attempting := by rw [hg]; rfl
    have hdown := h.down (Or.inr (Or.inr (Or.inr hphase)))
    have hstage := h.stage
    simp only [AttemptStage, hg] at hstage
    simp only [gcloudStep, hg, hstage, if_true, Option.some.injEq] at hstep
    subst hstep
    refine GcloudDown.flagInv ⟨hdown, ⟨(by rintro ⟨⟩), (by rintro ⟨⟩)⟩, ?_,
      fun _ => .attempting rfl, h.lost, (by rintro ⟨⟩),
      (by rintro (hp | hp) <;> cases hp), ?_, (by rintro _ _ _ ⟨⟩), trivial, hnil⟩
    · intro hopen
      rcases h.opened hopen with hc | ha | hcl
      · rw [hdown] at hc
        cases hc
      · exact Or.inl ha
      · rw [hphase] at hcl
        cases hcl
    · rintro c p ⟨⟩ hlate
      cases hlate
  · have hphase : s.gcloud.phase = .attempting := by rw [hg]; rfl
    have hstage := h.stage
    simp only [AttemptStage, hg] at hstage
    obtain ⟨-, rfl⟩ := gcloudStep_create hg hstep
    refine GcloudDown.flagInv ⟨h.down (Or.inr (Or.inr (Or.inr hphase))),
      ⟨(by rintro ⟨⟩), (by rintro ⟨⟩)⟩, ?_,
      fun _ => .handshake hstage (by rintro ⟨⟩), (by rintro ⟨⟩), (by rintro ⟨⟩),
      (by rintro (hp | hp) <;> cases hp), (by rintro _ _ ⟨⟩), (by rintro _ _ _ ⟨⟩), trivial,
      hnil⟩
    intro hopen
    cases hopen.symm.trans hstage

theorem flagInv_gcloud {env : Env} {s s' : State} (h : FlagInv s) (hmx : MutexInv s)
    (hsafe : flagsSafe s (.gcloud env) = true) (hstep : gcloudStep env s = some s') :
    FlagInv s' := by
  cases hg : s.gcloud with
  | get =>
    have hnil := h.reads (by rw [hg]; rintro ⟨⟩)
    simp only [gcloudStep, hg] at hstep
    split at hstep <;> rename_i hget <;> cases hstep
    · -- The message that leaves the queue is now in the hands of the thread.
      obtain ⟨e, hevent, _, hrest, hnil'⟩ := Kernel.get_cases hget
      refine h.gcloudSame ⟨rfl, by rw [hg]; rfl, rfl, rfl, rfl, rfl, ?_, (by rintro _ _ ⟨⟩),
        (by rintro _ _ _ ⟨⟩), trivial,
        fun _ => hnil', by simp [hnil']⟩
      intro hp
      refine ⟨hp.gone, hp.down, ?_⟩
      rcases hp.held with hheld | ⟨hd, _⟩ | hinit
      · obtain ⟨x, hx, hconn⟩ := Kernel.holdsConnect_iff.mp hheld
        rcases hrest x hx with rfl | hin
        · exact Or.inr (Or.inl ⟨rfl, by simp [hevent, hconn]⟩)
        · exact Or.inl (Kernel.holdsConnect_iff.mpr ⟨x, hin, hconn⟩)
      · rw [hg] at hd
        cases hd
      · rw [hg] at hinit
        cases hinit
    · have hempty := Kernel.get_none hget
      refine h.gcloudSame ⟨rfl, by rw [hg]; rfl, rfl, rfl, rfl, rfl, ?_, (by rintro _ _ ⟨⟩),
        (by rintro _ _ _ ⟨⟩), trivial,
        fun hne => absurd rfl hne, ?_⟩
      · intro hp
        rcases hp.held with hheld | ⟨hd, _⟩ | hinit
        · simp [Kernel.holdsConnect, hempty] at hheld
        · rw [hg] at hd
          cases hd
        · rw [hg] at hinit
          cases hinit
      · intro t ht
        rcases MsgQ.mem_pendRead_readers ht with rfl | hold
        · rfl
        · rw [hnil] at hold
          cases hold
  | wait =>
    simp only [gcloudStep, hg] at hstep
    split at hstep <;> rename_i hread <;> cases hstep
    have hnil : s.kernel.msgq.readers = [] := by
      refine List.eq_nil_iff_forall_not_mem.mpr fun t ht => hread ?_
      rwa [← h.readers t ht]
    refine h.gcloudSame ⟨rfl, by rw [hg]; rfl, rfl, rfl, rfl, rfl, ?_, (by rintro _ _ ⟨⟩),
      (by rintro _ _ _ ⟨⟩), trivial,
      fun _ => hnil, h.readers⟩
    intro hp
    refine ⟨hp.gone, hp.down, ?_⟩
    rcases hp.held with hheld | ⟨hd, _⟩ | hinit
    · exact Or.inl hheld
    · rw [hg] at hd
      cases hd
    · rw [hg] at hinit
      cases hinit
  | dispatch =>
    simp only [gcloudStep, hg, Option.some.injEq] at hstep
    subst hstep
    exact flagInv_dispatch h hg
  | clientInit => exact flagInv_attempting h (Or.inl hg) hsafe hstep
  | setConnecting => exact flagInv_attempting h (Or.inr (Or.inl hg)) hsafe hstep
  | create => exact flagInv_attempting h (Or.inr (Or.inr hg)) hsafe hstep
  | stopTimer => exact flagInv_stopping h (Or.inl hg) hsafe hstep
  | clearConnected => exact flagInv_stopping h (Or.inr (Or.inl hg)) hsafe hstep
  | markConnecting => exact flagInv_stopping h (Or.inr (Or.inr hg)) hsafe hstep
  | call c p =>
    simp only [gcloudStep, hg] at hstep
    exact flagInv_gcloudCall h hmx hg hsafe hstep

/-- The condition includes what the ownership of the mutex rests on. -/
theorem mutexSafe_of_flagsSafe {s : State} {a : Act} (h : flagsSafe s a = true) :
    mutexSafe s a = true := by
  cases a with
  | gcloud env =>
    simp only [mutexSafe, Bool.or_eq_true, bne_iff_ne]
    by_cases hg : s.gcloud = .clientInit
    · simp only [flagsSafe, hg, Bool.and_eq_true] at h
      exact Or.inr h.2
    · exact Or.inl hg
  | mqtt env =>
    simp only [flagsSafe, Bool.and_eq_true] at h
    exact h.1.1
  | start n c | app n env | timer | timeout t => rfl

structure SessionInv (s : State) : Prop where
  mutex : MutexInv s
  flags : FlagInv s

theorem sessionInv_step (s : State) (a : Act) (s' : State) (h : SessionInv s)
    (hsafe : flagsSafe s a = true) (hstep : machine.step s a = some s') : SessionInv s' := by
  change step s a = some s' at hstep
  refine ⟨mutexInv_step h.mutex (mutexSafe_of_flagsSafe hsafe) hstep, ?_⟩
  cases a with
  | gcloud env => exact flagInv_gcloud h.flags h.mutex hsafe hstep
  | mqtt env => exact flagInv_mqtt h.flags hsafe hstep
  | start n c | app n env | timer | timeout t => exact flagInv_outside h.flags rfl hstep

/-- A blocked mqtt thread holds no lock, so it does not keep the gcloud thread from
a call that it has not entered yet. -/
theorem not_blocked_at_lock {s : State} {c : GcloudCall} (h : MutexInv s)
    (hg : s.gcloud = .call c .lockWait) (hgb : gcloudBlocked s = true)
    (hmb : mqttBlocked s = true) : False := by
  have hheld : s.client.mutex.heldBy .gcloud = false := by simpa [gcloudBlocked, hg] using hgb
  have hlevel := h.mqtt_holds (by rw [hg]; rfl) hheld
  have hfree : s.mqtt.alive = true → s.mqtt.waits = false → s.mqtt.locks = 0 → False := by
    intro halive hwaits hlocks
    have hstands := h.mqtt halive
    rw [hwaits, hlocks] at hstands
    exact hlevel hstands.2
  cases hm : s.mqtt with
  | absent | dead =>
    rcases (h.gone (by rw [hm]; rfl)).2 with hzero | hafter
    · exact hlevel hzero
    · rw [hg] at hafter
      cases hafter
  | overrun => simp [mqttBlocked, hm] at hmb
  | poll => exact hfree (by rw [hm]; rfl) (by rw [hm]; rfl) (by rw [hm]; rfl)
  | connack rev p =>
    cases p with
    | putWait => exact hfree (by rw [hm]; rfl) (by rw [hm]; rfl) (by rw [hm]; rfl)
    | give | setConnected | clearConnecting | startTimer | putSubscribe =>
      simp [mqttBlocked, hm] at hmb
  | call d rev p =>
    have hnot : s.client.mutex.heldBy .mqtt = false := by
      cases p with
      | lockWait | relockWait ok => simpa [mqttBlocked, hm] using hmb
      | lock | body | disc a q | relock ok | unlock ok => simp [mqttBlocked, hm] at hmb
    simp only [Mutex.heldBy, decide_eq_false_iff_not] at hnot
    omega

/-- A blocked mqtt thread has no event in its hands. -/
theorem phase_of_blocked {s : State} (hmb : mqttBlocked s = true) :
    s.mqtt.phase = .gone ∨ s.mqtt.phase = .serving := by
  cases hm : s.mqtt with
  | absent | dead => exact Or.inl rfl
  | overrun | poll => exact Or.inr rfl
  | connack rev p =>
    cases p with
    | putWait => exact Or.inr rfl
    | give | setConnected | clearConnecting | startTimer | putSubscribe =>
      simp [mqttBlocked, hm] at hmb
  | call d rev p =>
    cases p with
    | lockWait | relockWait ok => exact Or.inr rfl
    | lock | body | disc a q | relock ok | unlock ok => simp [mqttBlocked, hm] at hmb

/-- A blocked gcloud thread is not in the middle of a command, the way out of
mqtt_disconnect apart. -/
theorem gcloudPhase_of_blocked {s : State} (h : SessionInv s) (hgb : gcloudBlocked s = true)
    (hmb : mqttBlocked s = true) :
    (s.gcloud.phase = .leaving ∨ s.gcloud.phase = .serving) ∧ s.gcloud ≠ .dispatch ∧
      s.gcloud ≠ .clientInit := by
  cases hg : s.gcloud with
  | wait => exact ⟨Or.inr rfl, (by rintro ⟨⟩), (by rintro ⟨⟩)⟩
  | get | dispatch | clientInit | setConnecting | create | stopTimer | clearConnected
  | markConnecting => simp [gcloudBlocked, hg] at hgb
  | call c p =>
    refine ⟨?_, (by rintro ⟨⟩), (by rintro ⟨⟩)⟩
    cases p with
    | lock | body | relock ok | unlock ok => simp [gcloudBlocked, hg] at hgb
    | lockWait => exact (not_blocked_at_lock h.mutex hg hgb hmb).elim
    | relockWait ok =>
      obtain rfl := h.flags.late c _ hg rfl
      exact Or.inl rfl
    | disc a q =>
      obtain rfl := h.flags.late c _ hg rfl
      cases q with
      | stopTimer | purge | check | abort | leave => simp [gcloudBlocked, hg] at hgb
      | connect r =>
        cases r with
        | putWait | takeWait err => exact Or.inl rfl
        | put | take err | ret err => simp [gcloudBlocked, hg] at hgb

theorem SessionInv.flagsDescribe {s : State} (h : SessionInv s) (hb : Blocked s) :
    FlagsDescribe s := by
  obtain ⟨hgb, hmb, _⟩ := hb
  have hm := phase_of_blocked hmb
  obtain ⟨hg, hdispatch, hinit⟩ := gcloudPhase_of_blocked h hgb hmb
  have hquiet : ∀ q : MqttPhase, q ≠ .gone → q ≠ .serving → s.mqtt.phase ≠ q := by
    rintro q hgone hserv rfl
    rcases hm with hq | hq
    · exact hgone hq
    · exact hserv hq
  have hidle : ∀ q : GcloudPhase, q ≠ .leaving → q ≠ .serving → s.gcloud.phase ≠ q := by
    rintro q hl hs rfl
    rcases hg with hq | hq
    · exact hl hq
    · exact hs hq
  refine ⟨⟨?_, ?_⟩, ?_, ?_⟩
  · intro hc
    cases h.flags.up hc with
    | lost hl => exact absurd hl (hquiet _ (by rintro ⟨⟩) (by rintro ⟨⟩))
    | served hopen halive htimer =>
      refine ⟨hopen, ?_, ?_⟩
      · rcases halive with ha | hgs | hgc
        · exact decide_eq_true ha
        · exact absurd hgs (hidle _ (by rintro ⟨⟩) (by rintro ⟨⟩))
        · exact absurd hgc (hidle _ (by rintro ⟨⟩) (by rintro ⟨⟩))
      · rcases htimer with ht | hmm | hma | hgc
        · exact ht
        · exact absurd hmm (hquiet _ (by rintro ⟨⟩) (by rintro ⟨⟩))
        · exact absurd hma (hquiet _ (by rintro ⟨⟩) (by rintro ⟨⟩))
        · exact absurd hgc (hidle _ (by rintro ⟨⟩) (by rintro ⟨⟩))
  · rintro ⟨hopen, _, _⟩
    rcases h.flags.opened hopen with hc | ha | hcl
    · exact hc
    · exact absurd ha (hquiet _ (by rintro ⟨⟩) (by rintro ⟨⟩))
    · exact absurd hcl (hidle _ (by rintro ⟨⟩) (by rintro ⟨⟩))
  · intro hcing
    cases h.flags.rising hcing with
    | lost hl | accepting hl | marking hl =>
      exact absurd hl (hquiet _ (by rintro ⟨⟩) (by rintro ⟨⟩))
    | handshake ht halive => exact Or.inr ⟨ht, decide_eq_true halive⟩
    | attempting hp | handling hp => exact absurd hp (hidle _ (by rintro ⟨⟩) (by rintro ⟨⟩))
    | closing hp _ => exact absurd hp (hidle _ (by rintro ⟨⟩) (by rintro ⟨⟩))
    | pending hp =>
      rcases hp.held with hheld | ⟨hd, _⟩ | hi
      · exact Or.inl hheld
      · exact absurd hd hdispatch
      · exact absurd hi hinit
  · rintro ⟨hc, hcing⟩
    rcases h.flags.both hc hcing with hmm | hl
    · exact absurd hmm (hquiet _ (by rintro ⟨⟩) (by rintro ⟨⟩))
    · exact absurd hl (hquiet _ (by rintro ⟨⟩) (by rintro ⟨⟩))

/-- In every run whose steps all meet the condition, the flags describe the session in
every state in which all threads are at a blocking point. -/
theorem flags_describe_of_flagsSafe {s : State}
    (hrun : ReachableUnder machine (fun s a => flagsSafe s a = true) s) :
    Blocked s → FlagsDescribe s :=
  (reachableUnder_invariant ⟨mutexInv_start, flagInv_start⟩ sessionInv_step hrun).flagsDescribe

theorem blocked_of_first {s : State} (hidle : ∀ n, n ≠ 0 → s.app n = .idle)
    (hg : gcloudBlocked s = true) (hm : mqttBlocked s = true) (ha : appBlocked s 0 = true) :
    Blocked s := by
  refine ⟨hg, hm, fun n => ?_⟩
  by_cases hn : n = 0
  · rw [hn]
    exact ha
  · simp [appBlocked, hidle n hn]

/-- Connect, return to the application, and subscribe. -/
def connectAndIdle : List Act :=
  handshake ++ List.replicate 2 (.app 0 {}) ++ List.replicate 6 (.gcloud {})

theorem flags_describe_after_connect :
    ∃ s, Blocked s ∧ s.connected = true ∧ FlagsDescribe s := by
  obtain ⟨s, hrun, hs⟩ := exists_reachableUnder_of_exec (M := machine)
    (C := fun s a => flagsSafe s a = true ∧ a.ofFirst = true)
    (p := fun s => gcloudBlocked s && mqttBlocked s && appBlocked s 0 && s.connected)
    connectAndIdle (by decide)
  simp only [Bool.and_eq_true] at hs
  obtain ⟨⟨⟨hg, hm⟩, ha⟩, hc⟩ := hs
  have hb := blocked_of_first (idle_of_ofFirst (fun _ _ h => h.2) hrun) hg hm ha
  exact ⟨s, hb, hc, flags_describe_of_flagsSafe (hrun.mono fun _ _ h => h.1) hb⟩

/-- The connection is lost on the mqtt thread, which aborts itself in the handler. -/
def lossAndIdle : List Act :=
  handshake ++ List.replicate 2 (.app 0 {}) ++ List.replicate 5 (.mqtt {}) ++
    [.mqtt { packet := .lost }] ++ List.replicate 4 (.mqtt {}) ++ [.gcloud {}]

theorem flags_do_not_describe : ¬ ∀ s, Reachable machine s → Blocked s → FlagsDescribe s := by
  intro hall
  obtain ⟨s, hrun, hs⟩ := exists_reachableUnder_of_exec (M := machine)
    (C := fun _ a => a.ofFirst = true)
    (p := fun s => gcloudBlocked s && mqttBlocked s && appBlocked s 0 && s.connected &&
      !s.mqtt.alive) lossAndIdle (by decide)
  simp only [Bool.and_eq_true, Bool.not_eq_true'] at hs
  obtain ⟨⟨⟨⟨hg, hm⟩, ha⟩, hc⟩, hdead⟩ := hs
  have hb := blocked_of_first (idle_of_ofFirst (fun _ _ h => h) hrun) hg hm ha
  have halive := ((hall s hrun.reachable hb).connected.mp hc).2.1
  rw [hdead] at halive
  cases halive

end NcsProjects.Gcloud
