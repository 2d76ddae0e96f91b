import NcsProjects.MqttWorkEffects

/-!
Flight mode between uploads. The state of the link is recorded beside the machine: a
successful lte_lc_connect puts it up, lte_lc_offline takes it down. Every exit of a
work item goes through app_disconnect, and that returns early when mqtt_disconnect
fails: because the session is gone already, or because the DISCONNECT cannot be sent.
-/
namespace NcsProjects.MqttWork

open Semaphores TransitionRuns

/-- The step of the work queue on the link of the modem. -/
def noteLink (s : State) (a : Act) (link : Bool) : Bool :=
  match a, s.work with
  | .work env, .lteConnect _ => link || env.ok
  | .work _, .offline => false
  | _, _ => link

/-- The machine with the link, which is down when main enters its loop. -/
def linked : Machine (State × Bool) Act := machine.recorded noteLink false

/-- No work item is running: the link is down and app_connected is false. -/
def InFlightMode (s : State × Bool) : Prop :=
  s.1.work = .idle → s.2 = false ∧ s.1.appConnected = false

/-- mqtt_disconnect, where app_disconnect calls it, finds its session and sends the
DISCONNECT. -/
def disconnectSucceeds (s : State) : Act → Bool
  | .work _ =>
    match s.work with
    | .mqttDisconnect => s.client.session = .connected
    | .disconnectLost ok => ok
    | _ => true
  | _ => true

/-- Places of the work queue at which app_connected is not set. -/
def WorkPc.detached : WorkPc → Bool
  | .takeConnect _ | .waitConnect _ | .connectTaken _ _ | .publish _ | .publishLost _
  | .takePuback _ | .waitPuback _ | .pubackTaken _ | .appDisconnect | .clearConnected => false
  | _ => true

/-- Places between a successful lte_lc_connect and the end of app_disconnect. -/
def WorkPc.online : WorkPc → Bool
  | .idle | .lteConnect _ => false
  | _ => true

/-- The main thread moves the work queue only out of a wait. -/
theorem work_of_main {α : Type*} (f : WorkPc → α)
    (hconnack : ∀ item k, f (.connectTaken item (some k)) = f (.waitConnect item))
    (hpuback : ∀ item p, f (.pubackTaken (some p)) = f (.waitPuback item))
    {env : Env} {s s' : State} (h : mainStep env s = some s') : f s'.work = f s.work := by
  cases (mainStep_effect h).2 with
  | keeps hsem => rw [hsem.work]
  | connack rev k hm =>
    show f (s.giveConnect k).work = f s.work
    unfold State.giveConnect
    split
    · show f (s.work.connectHanded k) = f s.work
      cases hw : s.work with
      | waitConnect item => exact hconnack item k
      | _ => rfl
    · rfl
  | puback rev p hm =>
    show f (s.givePuback p).work = f s.work
    unfold State.givePuback
    split
    · show f (s.work.pubackHanded p) = f s.work
      cases hw : s.work with
      | waitPuback item => exact hpuback item p
      | _ => rfl
    · rfl

theorem detached_main {env : Env} {s s' : State} (h : mainStep env s = some s') :
    s'.work.detached = s.work.detached :=
  work_of_main _ (fun _ _ => rfl) (fun _ _ => rfl) h

theorem online_main {env : Env} {s s' : State} (h : mainStep env s = some s') :
    s'.work.online = s.work.online := work_of_main _ (fun _ _ => rfl) (fun _ _ => rfl) h

/-- The flag is what the place of the work queue says. -/
theorem detached_work {env : Env} {s s' : State} (h : workStep env s = some s')
    (hs : s.work.detached = true → s.appConnected = false) :
    s'.work.detached = true → s'.appConnected = false := by
  cases hw : s.work with
  | waitConnect item | waitPuback item => simp [workStep, hw] at h
  | idle | abort | mqttDisconnect =>
    have hdown : s.appConnected = false := hs (by rw [hw]; rfl)
    simp only [workStep, hw] at h
    split at h <;> cases h <;> exact fun _ => hdown
  | lteConnect item | mqttConnect item | fdsInit item | abortLost | disconnectLost ok | offline =>
    have hdown : s.appConnected = false := hs (by rw [hw]; rfl)
    simp only [workStep, hw, Option.some.injEq] at h
    subst h
    exact fun _ => hdown
  | takeConnect item | publish item | takePuback item =>
    simp only [workStep, hw] at h
    split at h <;> cases h <;> rintro ⟨⟩
  | setConnected item | publishLost item | pubackTaken p =>
    simp only [workStep, hw, Option.some.injEq] at h
    subst h
    rintro ⟨⟩
  | connectTaken item connack =>
    cases connack <;> simp only [workStep, hw, Option.some.injEq] at h <;> subst h <;> rintro ⟨⟩
  | clearConnected =>
    simp only [workStep, hw, Option.some.injEq] at h
    subst h
    exact fun _ => rfl
  | appDisconnect =>
    simp only [workStep, hw, Option.some.injEq] at h
    subst h
    cases hup : s.appConnected with
    | true => simp [WorkPc.detached]
    | false => exact fun _ => rfl

theorem detached_step {s s' : State} {a : Act} (h : machine.step s a = some s')
    (hs : s.work.detached = true → s.appConnected = false) :
    s'.work.detached = true → s'.appConnected = false := by
  change step s a = some s' at h
  cases a with
  | submit item =>
    cases h
    unfold submitStep
    split <;> exact hs
  | work env => exact detached_work h hs
  | main env =>
    rw [detached_main h, (mainStep_effect h).1.appConnected]
    exact hs
  | timeout =>
    simp only [step, timeoutStep] at h
    split at h <;> cases h <;> rintro ⟨⟩

structure LinkInv (s : State × Bool) : Prop where
  detached : s.1.work.detached = true → s.1.appConnected = false
  online : s.1.work.online = true → s.2 = true
  flight : s.1.work = .idle → s.2 = false

theorem linkInv_start : LinkInv linked.init := ⟨fun _ => rfl, (by rintro ⟨⟩), fun _ => rfl⟩

/-- The link is up from the connection on. -/
theorem online_work {env : Env} {s s' : State} {link : Bool} (h : workStep env s = some s')
    (hs : s.work.online = true → link = true) :
    s'.work.online = true → noteLink s (.work env) link = true := by
  cases hw : s.work with
  | idle =>
    simp only [workStep, hw] at h
    split at h <;> cases h
    rintro ⟨⟩
  | lteConnect item =>
    simp only [workStep, hw, Option.some.injEq] at h
    subst h
    cases hok : env.ok with
    | true => simp [noteLink, hw, hok]
    | false => simp [WorkPc.online]
  | offline =>
    simp only [workStep, hw, Option.some.injEq] at h
    subst h
    rintro ⟨⟩
  | _ =>
    intro _
    simpa [noteLink, hw] using hs (by rw [hw]; rfl)

/-- A work item ends in lte_lc_offline where mqtt_disconnect does not fail. -/
theorem flight_work {env : Env} {s s' : State} {link : Bool} (h : workStep env s = some s')
    (hsafe : disconnectSucceeds s (.work env) = true) (hidle : s'.work = .idle) :
    noteLink s (.work env) link = false := by
  cases hw : s.work with
  | offline => simp [noteLink, hw]
  | mqttDisconnect =>
    have hsession : s.client.session = .connected := by
      simpa [disconnectSucceeds, hw] using hsafe
    simp only [workStep, hw, hsession, ne_eq, not_true_eq_false, if_false,
      Option.some.injEq] at h
    subst h
    cases hidle
  | disconnectLost ok =>
    have hok : ok = true := by simpa [disconnectSucceeds, hw] using hsafe
    simp only [workStep, hw, hok, if_true, Option.some.injEq] at h
    subst h
    cases hidle
  | waitConnect item | waitPuback item => simp [workStep, hw] at h
  | idle | takeConnect item | publish item | takePuback item | abort =>
    simp only [workStep, hw] at h
    split at h <;> cases h <;> cases hidle
  | connectTaken item connack =>
    cases connack <;> simp only [workStep, hw, Option.some.injEq] at h <;> subst h <;> cases hidle
  | fdsInit item | setConnected item | publishLost item | pubackTaken p | abortLost
  | clearConnected =>
    simp only [workStep, hw, Option.some.injEq] at h
    subst h
    cases hidle
  | lteConnect item | mqttConnect item | appDisconnect =>
    simp only [workStep, hw, Option.some.injEq] at h
    subst h
    dsimp only at hidle
    split at hidle <;> cases hidle

theorem linkInv_step (s : State × Bool) (a : Act) (s' : State × Bool) (hs : LinkInv s)
    (hsafe : disconnectSucceeds s.1 a = true) (hstep : linked.step s a = some s') :
    LinkInv s' := by
  obtain ⟨h, hnote⟩ := Machine.recorded_step hstep
  obtain ⟨t, link⟩ := s'
  dsimp only at h hnote
  subst hnote
  have hdetached := detached_step h hs.detached
  change step s.1 a = some t at h
  cases a with
  | submit item =>
    cases h
    refine ⟨hdetached, ?_, ?_⟩
    · show (submitStep item s.1).work.online = true → s.2 = true
      unfold submitStep
      split <;> exact hs.online
    · show (submitStep item s.1).work = .idle → s.2 = false
      unfold submitStep
      split <;> exact hs.flight
  | work env => exact ⟨hdetached, online_work h hs.online, flight_work h hsafe⟩
  | main env =>
    refine ⟨hdetached, ?_, ?_⟩
    · rw [online_main h]
      exact hs.online
    · have hsame : (decide (t.work = .idle)) = decide (s.1.work = .idle) :=
        work_of_main (fun w => decide (w = .idle)) (fun _ _ => rfl) (fun _ _ => rfl) h
      intro hidle
      rw [hidle] at hsame
      exact hs.flight (of_decide_eq_true hsame.symm)
  | timeout =>
    simp only [step, timeoutStep] at h
    split at h <;> rename_i hw <;> cases h
    all_goals
      refine ⟨hdetached, ?_, (by rintro ⟨⟩)⟩
      intro _
      exact hs.online (by rw [hw]; rfl)

/-- A step that misses the condition ends a work item with the link up. -/
theorem link_left_up (s : State × Bool) (a : Act) (s' : State × Bool) (hs : LinkInv s)
    (hfails : ¬ disconnectSucceeds s.1 a = true) (hstep : linked.step s a = some s') :
    ¬ InFlightMode s' := by
  obtain ⟨h, hnote⟩ := Machine.recorded_step hstep
  cases a with
  | submit item | main env | timeout => exact absurd rfl hfails
  | work env =>
    change workStep env s.1 = some s'.1 at h
    have hleft : s'.1.work = .idle ∧ s'.2 = true := by
      cases hw : s.1.work with
      | mqttDisconnect =>
        have hlink : s.2 = true := hs.online (by rw [hw]; rfl)
        have hsession : s.1.client.session ≠ .connected := by
          simpa [disconnectSucceeds, hw] using hfails
        simp only [workStep, hw, hsession, ne_eq, not_false_eq_true, if_true,
          Option.some.injEq] at h
        rw [← h]
        exact ⟨rfl, by simpa [noteLink, hw, hlink] using hnote⟩
      | disconnectLost ok =>
        have hlink : s.2 = true := hs.online (by rw [hw]; rfl)
        have hok : ok = false := by simpa [disconnectSucceeds, hw] using hfails
        simp only [workStep, hw, hok, Bool.false_eq_true, if_false, Option.some.injEq] at h
        rw [← h]
        exact ⟨rfl, by simpa [noteLink, hw, hlink] using hnote⟩
      | _ => simp [disconnectSucceeds, hw] at hfails
    intro hflight
    have hdown := (hflight hleft.1).1
    rw [hleft.2] at hdown
    cases hdown

/-- A work item returns in flight mode, in every state of a run, exactly when each
mqtt_disconnect of app_disconnect succeeds. -/
theorem inFlightMode_iff (actions : List Act) :
    Throughout linked InFlightMode linked.init actions ↔
      EachStep linked (fun s a => disconnectSucceeds s.1 a = true) linked.init actions := by
  apply throughout_iff_eachStep (I := LinkInv)
  · intro s hs hidle
    exact ⟨hs.flight hidle, hs.detached (by rw [hidle]; rfl)⟩
  · exact linkInv_step
  · exact link_left_up
  · exact linkInv_start

/-- The alarm is acknowledged, and then the broker drops the session before
app_disconnect gets to it. -/
def dropAfterPuback : List Act :=
  connectItem .alarm ++ [.work {}, .work {}] ++ List.replicate 6 (.main {}) ++
    [.main { packet := .puback 1 }] ++ List.replicate 7 (.main {}) ++
    [.main { packet := .lost }, .main {}] ++ List.replicate 4 (.work {})

theorem link_up_after_drop : ¬ ∀ s, Reachable linked s → InFlightMode s := by
  intro hall
  obtain ⟨s, hreach, hs⟩ := exists_reachable_of_exec (M := linked)
    (p := fun s => s.1.work = .idle && s.2) dropAfterPuback (by decide)
  simp only [Bool.and_eq_true, decide_eq_true_eq] at hs
  have hdown := (hall s hreach hs.1).1
  rw [hs.2] at hdown
  cases hdown

end NcsProjects.MqttWork
