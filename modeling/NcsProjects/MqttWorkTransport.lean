import NcsProjects.MqttWorkFlightMode
import NcsProjects.MqttWorkWait

/-!
What main does with a session that goes away. app_connected is written by the work queue
alone, while a lost connection, a refused packet or mqtt_disconnect in the handler closes
the transport on the main thread, so the flag may speak of a dead session. And three
errors of one session make main leave its loop for good, where the next app_connect
waits for a CONNACK that nobody reads.
-/
namespace NcsProjects.MqttWork

open Semaphores TransitionRuns
open PublishPayload (SessionState)

/-- The step of the main thread closes the transport. -/
def MainPc.closes (env : Env) (c : Client) : MainPc → Bool
  | .live _ => env.pingDue && c.session = .connected && !(c.socket && env.ok)
  | .input _ => c.session ≠ .closed && c.remaining = 0 && (!c.socket || env.packet = .lost)
  | .read _ want _ => want ≠ 0 && c.remaining ≠ 0 && !(c.socket && (env.again || env.ok))
  | .disconnect _ _ | .leave => c.session = .connected
  | .handled _ decoded => !decoded
  | _ => false

/-- The step of the main thread takes one of the breaks: poll fails, mqtt_live reports an
error, or the socket shows POLLERR. -/
def MainPc.leaves (env : Env) (c : Client) : MainPc → Bool
  | .poll => env.pollFails
  | .live _ => env.pingDue && !(c.session = .connected && c.socket && env.ok)
  | .tail rev => rev.pollerr
  | _ => false

/-- app_connect has opened the transport and not set app_connected yet. -/
def WorkPc.opening : WorkPc → Bool
  | .fdsInit _ | .setConnected _ => true
  | _ => false

/-- A call of mqtt_evt_handler is under way, on the main thread or, for the event of a
session that ends there, on the work queue. -/
def State.handling (s : State) : Bool :=
  (match s.main with
    | .connack _ _ | .puback _ _ | .read _ _ _ | .disconnect _ _ | .handled _ _ | .lost _ => true
    | _ => false) ||
  match s.work with
    | .publishLost _ | .abortLost | .disconnectLost _ => true
    | _ => false

/-- app_connected stands for an open transport; main enters poll with one. -/
structure FlagTrue (s : State) : Prop where
  quiet : s.handling = false → s.appConnected = true → s.client.socket = true
  polls : s.main = .check → s.appConnected = true → s.client.socket = true

/-- From mqtt_connect on, until app_disconnect clears the flag, the main thread does not
close the transport, and mqtt_publish does not lose it. -/
def transportKept (s : State) : Act → Bool
  | .main env => !(s.appConnected || s.work.opening) || !s.main.closes env s.client
  | .work env =>
    match s.work, dataPublish env s.client with
    | .publish _, .failed => false
    | _, _ => true
  | _ => true

structure TransportInv (s : State) : Prop where
  detached : s.work.detached = true → s.appConnected = false
  opened : (s.appConnected || s.work.opening) = true → s.client.socket = true

theorem transportInv_start : TransportInv State.start := ⟨fun _ => rfl, (by rintro ⟨⟩)⟩

/-- The steps that close the transport are the ones listed. -/
theorem socket_main {env : Env} {s s' : State} (h : mainStep env s = some s')
    (hcloses : s.main.closes env s.client = false) : s'.client.socket = s.client.socket := by
  cases hm : s.main with
  | check | poll | recheck rev | lost after | tail rev =>
    simp only [mainStep, hm, Option.some.injEq] at h
    subst h
    rfl
  | live rev =>
    simp only [hm, MainPc.closes] at hcloses
    simp only [mainStep, hm] at h
    split at h
    · cases h
      rfl
    · rename_i hdue
      split at h
      · cases h
        rfl
      · rename_i hsession
        have hsession : s.client.session = .connected := not_not.mp hsession
        have hok : (s.client.socket && env.ok) = true := by
          simpa [hdue, hsession] using hcloses
        simp only [hok, if_true, Option.some.injEq] at h
        subst h
        rfl
  | input rev =>
    simp only [hm, MainPc.closes] at hcloses
    simp only [mainStep, hm] at h
    split at h <;> rename_i hready <;> cases h
    · rfl
    · simp only [not_or, Nat.not_lt, Nat.le_zero] at hready
      have hup : s.client.socket = true ∧ env.packet ≠ .lost := by
        simpa [hready.1, hready.2] using hcloses
      rw [hup.1]
      cases hp : env.packet with
      | lost => exact absurd hp hup.2
      | _ => exact hup.1
  | connack rev k =>
    simp only [mainStep, hm, Option.some.injEq] at h
    subst h
    show (s.giveConnect k).client.socket = s.client.socket
    unfold State.giveConnect
    split <;> rfl
  | puback rev p =>
    simp only [mainStep, hm, Option.some.injEq] at h
    subst h
    show (s.givePuback p).client.socket = s.client.socket
    unfold State.givePuback
    split <;> rfl
  | read rev want decoded =>
    simp only [hm, MainPc.closes] at hcloses
    simp only [mainStep, hm] at h
    split at h
    · cases h
      rfl
    · rename_i hwant
      split at h
      · cases h
        rfl
      · rename_i hremaining
        split at h
        · split at h <;> cases h <;> rfl
        · rename_i hagain
          split at h
          · cases h
            rfl
          · rename_i hok
            simp_all
  | disconnect rev decoded | leave =>
    have hsession : s.client.session ≠ .connected := by
      simpa [hm, MainPc.closes] using hcloses
    simp only [mainStep, hm, hsession, ne_eq, not_false_eq_true, if_true, Option.some.injEq] at h
    subst h
    rfl
  | handled rev decoded =>
    have hdecoded : decoded = true := by simpa [hm, MainPc.closes] using hcloses
    simp only [mainStep, hm, hdecoded, if_true, Option.some.injEq] at h
    subst h
    rfl
  | done => simp [mainStep, hm] at h

theorem opening_main {env : Env} {s s' : State} (h : mainStep env s = some s') :
    s'.work.opening = s.work.opening := work_of_main _ (fun _ _ => rfl) (fun _ _ => rfl) h

/-- The work queue closes the transport when the flag is clear, or by losing a PUBLISH. -/
theorem opened_work {env : Env} {s s' : State} (h : workStep env s = some s')
    (hsafe : transportKept s (.work env) = true) (hs : TransportInv s) :
    (s'.appConnected || s'.work.opening) = true → s'.client.socket = true := by
  have hdown (hw : s.work.detached = true) (hup : s'.appConnected = s.appConnected)
      (hopening : s'.work.opening = false) :
      (s'.appConnected || s'.work.opening) = true → s'.client.socket = true := by
    rw [hup, hs.detached hw, hopening]
    rintro ⟨⟩
  cases hw : s.work with
  | waitConnect item | waitPuback item => simp [workStep, hw] at h
  | mqttConnect item =>
    simp only [workStep, hw, Option.some.injEq] at h
    cases hok : env.ok with
    | true =>
      rw [hok] at h
      subst h
      exact fun _ => rfl
    | false =>
      rw [hok] at h
      subst h
      exact hdown (by rw [hw]; rfl) rfl rfl
  | fdsInit item =>
    simp only [workStep, hw, Option.some.injEq] at h
    subst h
    exact fun _ => hs.opened (by rw [hw]; exact Bool.or_true _)
  | setConnected item =>
    simp only [workStep, hw, Option.some.injEq] at h
    subst h
    exact fun _ => hs.opened (by rw [hw]; exact Bool.or_true _)
  | publish item =>
    simp only [workStep, hw] at h
    cases hp : dataPublish env s.client with
    | failed => simp [transportKept, hw, hp] at hsafe
    | refused | accepted =>
      rw [hp] at h
      cases h
      simpa [hw, WorkPc.opening] using hs.opened
  | takeConnect item | takePuback item =>
    simp only [workStep, hw] at h
    split at h <;> cases h <;> simpa [hw, WorkPc.opening] using hs.opened
  | publishLost item =>
    simp only [workStep, hw, Option.some.injEq] at h
    subst h
    simpa [hw, WorkPc.opening, Client.reset] using hs.opened
  | pubackTaken p =>
    simp only [workStep, hw, Option.some.injEq] at h
    subst h
    simpa [hw, WorkPc.opening] using hs.opened
  | connectTaken item connack =>
    cases connack with
    | none =>
      simp only [workStep, hw, Option.some.injEq] at h
      subst h
      rintro ⟨⟩
    | some k =>
      simp only [workStep, hw, Option.some.injEq] at h
      subst h
      simpa [hw, WorkPc.opening] using hs.opened
  | appDisconnect =>
    simp only [workStep, hw, Option.some.injEq] at h
    subst h
    cases hup : s.appConnected with
    | true => exact fun _ => hs.opened (by rw [hup]; rfl)
    | false => simp [WorkPc.opening]
  | clearConnected =>
    simp only [workStep, hw, Option.some.injEq] at h
    subst h
    rintro ⟨⟩
  | idle | abort | mqttDisconnect =>
    simp only [workStep, hw] at h
    split at h <;> cases h <;> exact hdown (by rw [hw]; rfl) rfl rfl
  | abortLost | offline =>
    simp only [workStep, hw, Option.some.injEq] at h
    subst h
    exact hdown (by rw [hw]; rfl) rfl rfl
  | lteConnect item | disconnectLost ok =>
    simp only [workStep, hw, Option.some.injEq] at h
    subst h
    apply hdown (by rw [hw]; rfl) rfl
    dsimp only
    split <;> rfl

theorem transportInv_step (s : State) (a : Act) (s' : State) (hs : TransportInv s)
    (hsafe : transportKept s a = true) (hstep : machine.step s a = some s') :
    TransportInv s' := by
  have hdetached := detached_step hstep hs.detached
  change step s a = some s' at hstep
  cases a with
  | submit item =>
    cases hstep
    refine ⟨hdetached, ?_⟩
    unfold submitStep
    split <;> exact hs.opened
  | work env => exact ⟨hdetached, opened_work hstep hsafe hs⟩
  | main env =>
    refine ⟨hdetached, ?_⟩
    rw [(mainStep_effect hstep).1.appConnected, opening_main hstep]
    intro hup
    have hcloses : s.main.closes env s.client = false := by
      simpa [transportKept, hup] using hsafe
    rw [socket_main hstep hcloses]
    exact hs.opened hup
  | timeout =>
    simp only [step, timeoutStep] at hstep
    split at hstep <;> rename_i hw <;> cases hstep
    all_goals
      refine ⟨hdetached, ?_⟩
      simpa [hw, WorkPc.opening] using hs.opened

/-- In every run whose steps all meet the condition, app_connected stands for an open
transport. -/
theorem flagTrue_of_transportKept {s : State}
    (hrun : ReachableUnder machine (fun s a => transportKept s a = true) s) : FlagTrue s := by
  have hinv := reachableUnder_invariant transportInv_start transportInv_step hrun
  have hopen : s.appConnected = true → s.client.socket = true := by
    intro hup
    exact hinv.opened (by rw [hup]; rfl)
  exact ⟨fun _ => hopen, fun _ => hopen⟩

/-- A work item connects and is acknowledged. -/
theorem flagTrue_after_connack :
    ∃ s, s.appConnected = true ∧ s.handling = false ∧ FlagTrue s := by
  obtain ⟨s, hrun, hs⟩ := exists_reachableUnder_of_exec (M := machine)
    (C := fun s a => transportKept s a = true)
    (p := fun s => s.appConnected && !s.handling)
    (connectItem .alarm ++ [.main {}]) (by decide)
  simp only [Bool.and_eq_true, Bool.not_eq_true'] at hs
  exact ⟨s, hs.1, hs.2, flagTrue_of_transportKept hrun⟩

/-- The broker drops the session, and the handler of MQTT_EVT_DISCONNECT only logs it. -/
def dropSession : List Act :=
  connectItem .alarm ++ List.replicate 6 (.main {}) ++ [.main { packet := .lost }, .main {}]

theorem flag_of_dead_session : ¬ ∀ s, Reachable machine s → FlagTrue s := by
  intro hall
  obtain ⟨s, hreach, hs⟩ := exists_reachable_of_exec (M := machine)
    (p := fun s => s.appConnected && !s.handling && !s.client.socket) dropSession (by decide)
  simp only [Bool.and_eq_true, Bool.not_eq_true'] at hs
  have hopen := (hall s hreach).quiet hs.1.2 hs.1.1
  rw [hs.2] at hopen
  cases hopen

/-- The work queue is in app_connect. -/
def WorkPc.connecting : WorkPc → Bool
  | .lteConnect _ | .mqttConnect _ | .fdsInit _ | .setConnected _ | .takeConnect _
  | .waitConnect _ => true
  | _ => false

/-- Whoever calls app_connect finds main in its loop. -/
def ConnackServed (s : State) : Prop := s.work.connecting = true → s.main.inLoop = true

/-- The main thread takes no break. -/
def mainStays (s : State) : Act → Bool
  | .main env => !s.main.leaves env s.client
  | _ => true

/-- Without a break the next place is in the loop. -/
theorem inLoop_main {env : Env} {s s' : State} (h : mainStep env s = some s')
    (hstays : s.main.leaves env s.client = false) (hs : s.main.inLoop = true) :
    s'.main.inLoop = true := by
  cases hm : s.main with
  | check | recheck rev =>
    simp only [mainStep, hm, Option.some.injEq] at h
    subst h
    dsimp only
    split <;> rfl
  | poll =>
    have hok : env.pollFails = false := by simpa [hm, MainPc.leaves] using hstays
    simp only [mainStep, hm, hok, Option.some.injEq] at h
    subst h
    rfl
  | live rev =>
    simp only [mainStep, hm] at h
    cases hdue : env.pingDue with
    | false =>
      simp only [hdue, if_true, Option.some.injEq] at h
      subst h
      exact behindLive_inLoop rev
    | true =>
      have hok : (s.client.session = .connected ∧ s.client.socket = true) ∧ env.ok = true := by
        simpa [hm, MainPc.leaves, hdue] using hstays
      simp only [hdue, hok.1.1, hok.1.2, hok.2, Bool.true_eq_false, ne_eq, not_true_eq_false,
        if_false, Bool.and_self, if_true, Option.some.injEq] at h
      subst h
      exact behindLive_inLoop rev
  | input rev =>
    simp only [mainStep, hm] at h
    split at h <;> cases h
    · rfl
    · generalize (if s.client.socket then env.packet else Packet.lost) = packet
      cases packet with
      | publish len decoded =>
        simp only [mqttInput]
        split <;> rfl
      | _ => rfl
  | connack rev k | puback rev p =>
    simp only [mainStep, hm, Option.some.injEq] at h
    subst h
    rfl
  | read rev want decoded =>
    simp only [mainStep, hm] at h
    repeat' split at h
    all_goals
      cases h
      first
        | exact hs
        | rfl
  | disconnect rev decoded | handled rev decoded =>
    simp only [mainStep, hm] at h
    split at h <;> cases h <;> rfl
  | lost after =>
    simp only [mainStep, hm, Option.some.injEq] at h
    subst h
    cases after with
    | final => simp [hm, MainPc.inLoop] at hs
    | _ => rfl
  | tail rev =>
    have hok : rev.pollerr = false := by simpa [hm, MainPc.leaves] using hstays
    simp only [mainStep, hm, hok, Option.some.injEq] at h
    subst h
    rfl
  | leave | done => simp [hm, MainPc.inLoop] at hs

/-- The work queue does not move the main thread. -/
theorem main_of_work {env : Env} {s s' : State} (h : workStep env s = some s') :
    s'.main = s.main := by
  cases hw : s.work with
  | waitConnect item | waitPuback item => simp [workStep, hw] at h
  | idle | takeConnect item | publish item | takePuback item | abort | mqttDisconnect =>
    simp only [workStep, hw] at h
    split at h <;> cases h <;> rfl
  | connectTaken item connack =>
    cases connack <;> simp only [workStep, hw, Option.some.injEq] at h <;> subst h <;> rfl
  | _ =>
    simp only [workStep, hw, Option.some.injEq] at h
    subst h
    rfl

theorem inLoop_step (s : State) (a : Act) (s' : State) (hs : s.main.inLoop = true)
    (hstays : mainStays s a = true) (hstep : machine.step s a = some s') :
    s'.main.inLoop = true := by
  change step s a = some s' at hstep
  cases a with
  | submit item =>
    cases hstep
    unfold submitStep
    split <;> exact hs
  | work env =>
    rw [main_of_work hstep]
    exact hs
  | main env =>
    have hleaves : s.main.leaves env s.client = false := by simpa [mainStays] using hstays
    exact inLoop_main hstep hleaves hs
  | timeout =>
    simp only [step, timeoutStep] at hstep
    split at hstep <;> cases hstep <;> exact hs

/-- In every run in which the main thread takes no break, each app_connect finds it in its
loop. -/
theorem connackServed_of_mainStays {s : State}
    (hrun : ReachableUnder machine (fun s a => mainStays s a = true) s) : ConnackServed s := by
  intro _
  exact reachableUnder_invariant (I := fun s => s.main.inLoop = true) rfl inLoop_step hrun

/-- The alarm is published and acknowledged, and the session is closed. -/
def alarmSession : List Act :=
  connectItem .alarm ++ [.work { cycles := 1 }, .work {}] ++ List.replicate 6 (.main {}) ++
    [.main { packet := .puback 1 }] ++ List.replicate 7 (.main {}) ++ List.replicate 6 (.work {})

/-- The second alarm waits for its CONNACK and finds main in its loop. -/
theorem connackServed_at_second_alarm :
    ∃ s, s.attempts = 2 ∧ s.work.connecting = true ∧ ConnackServed s := by
  obtain ⟨s, hrun, hs⟩ := exists_reachableUnder_of_exec (M := machine)
    (C := fun s a => mainStays s a = true)
    (p := fun s => s.attempts = 2 && s.work.connecting)
    (alarmSession ++ [.submit .alarm] ++ List.replicate 6 (.work {})) (by decide)
  simp only [Bool.and_eq_true, decide_eq_true_eq] at hs
  exact ⟨s, hs.1, hs.2, connackServed_of_mainStays hrun⟩

/-- poll fails in the session of one alarm, and the next alarm calls app_connect. -/
def pollFailsOnce : List Act :=
  connectItem .alarm ++ [.work {}, .work {}] ++ List.replicate 3 (.main {}) ++
    [.main { pollFails := true }] ++ List.replicate 2 (.main {}) ++ [.timeout] ++
    List.replicate 4 (.work {}) ++ [.submit .alarm, .work {}]

theorem connack_not_served : ¬ ∀ s, Reachable machine s → ConnackServed s := by
  intro hall
  obtain ⟨s, hreach, hs⟩ := exists_reachable_of_exec (M := machine)
    (p := fun s => s.work.connecting && !s.main.inLoop) pollFailsOnce (by decide)
  simp only [Bool.and_eq_true, Bool.not_eq_true'] at hs
  have hloop := hall s hreach hs.1
  rw [hs.2] at hloop
  cases hloop

end NcsProjects.MqttWork
