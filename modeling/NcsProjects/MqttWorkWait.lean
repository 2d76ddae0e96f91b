import NcsProjects.MqttWorkEffects

/-!
The endless wait of publish_samples. A PUBACK can end it as long as the PUBLISH was
really sent, its session is open, and the main thread polls. Nothing in
publish_samples sees to any of the three: the result of data_publish is dropped, and
the main thread may lose the session or leave its loop at any time.
-/
namespace NcsProjects.MqttWork

open Semaphores TransitionRuns
open PublishPayload (SessionState)

/-- The main thread is in its loop. -/
def MainPc.inLoop : MainPc → Bool
  | .leave | .done | .lost .final => false
  | _ => true

/-- A PUBACK can still end the wait: the PUBLISH is outstanding, its session is open,
and the main thread polls the socket in its loop. -/
structure Releasable (s : State) : Prop where
  published : s.published.isSome = true
  unacked : s.acked = false
  session : s.client.session = .connected
  socket : s.client.socket = true
  polls : s.appConnected = true
  inLoop : s.main.inLoop = true

/-- publish_samples waits for its PUBACK, or is about to and will find no token. -/
def State.waitsUnanswered (s : State) : Bool :=
  match s.work with
  | .takePuback .periodic => s.pubackOk.tokens.isEmpty
  | .waitPuback .periodic => true
  | _ => false

/-- The step of the main thread closes or resets the session, or leaves the loop. -/
def MainPc.breaks (env : Env) (c : Client) : MainPc → Bool
  | .poll => env.pollFails
  | .live _ => env.pingDue && !(c.session = .connected && c.socket && env.ok)
  | .input _ => c.session ≠ .closed && c.remaining = 0 && (!c.socket || env.packet = .lost)
  | .read _ want _ => want ≠ 0 && c.remaining ≠ 0 && !(c.socket && (env.again || env.ok))
  | .disconnect _ _ => c.session = .connected
  | .handled _ decoded => !decoded
  | .tail rev => rev.pollerr
  | .lost _ | .leave => true
  | _ => false

/-- In publish_samples mqtt_publish accepts the PUBLISH while the main thread is in its
loop, or a token is there to end the wait; and as long as publish_samples waits
without one, the main thread neither loses the session nor leaves the loop. -/
def waitSafe (s : State) : Act → Bool
  | .work env =>
    match s.work with
    | .publish .periodic =>
      match dataPublish env s.client with
      | .accepted => s.main.inLoop || !s.pubackOk.tokens.isEmpty
      | .refused => !s.pubackOk.tokens.isEmpty
      | .failed => true
    | .publishLost .periodic => !s.pubackOk.tokens.isEmpty
    | _ => true
  | .main env => !s.waitsUnanswered || !s.main.breaks env s.client
  | _ => true

/-- The work queue has set app_connected and not cleared it. -/
def WorkPc.attached : WorkPc → Bool
  | .takeConnect _ | .waitConnect _ | .connectTaken _ _ | .publish _ | .publishLost _
  | .takePuback _ | .waitPuback _ => true
  | _ => false

structure WaitInv (s : State) : Prop where
  waiters : WaitersInv s
  attached : s.work.attached = true → s.appConnected = true
  releasable : s.waitsUnanswered = true → Releasable s

theorem waitInv_start : WaitInv State.start := ⟨waitersInv_start, (by rintro ⟨⟩), (by rintro ⟨⟩)⟩

theorem behindLive_inLoop (rev : Revents) : (behindLive rev).inLoop = true := by
  unfold behindLive
  split <;> rfl

/-- What the invariant asks of the client and of the main thread. -/
structure Serving (s : State) : Prop where
  session : s.client.session = .connected
  socket : s.client.socket = true
  inLoop : s.main.inLoop = true

/-- A step of the main thread that breaks nothing leaves the session open and stays in
the loop. -/
theorem serving_step {env : Env} {s s' : State} (h : mainStep env s = some s')
    (hsafe : s.main.breaks env s.client = false) (hs : Serving s) : Serving s' := by
  obtain ⟨hsession, hsocket, hloop⟩ := hs
  cases hm : s.main with
  | check | recheck rev =>
    simp only [mainStep, hm, Option.some.injEq] at h
    subst h
    refine ⟨hsession, hsocket, ?_⟩
    dsimp only
    split <;> rfl
  | poll =>
    simp only [hm, MainPc.breaks] at hsafe
    simp only [mainStep, hm, hsafe, Option.some.injEq] at h
    subst h
    exact ⟨hsession, hsocket, rfl⟩
  | live rev =>
    simp only [hm, MainPc.breaks] at hsafe
    simp only [mainStep, hm] at h
    split at h
    · cases h
      exact ⟨hsession, hsocket, behindLive_inLoop rev⟩
    · rename_i hdue
      have hok : env.ok = true := by simpa [hdue, hsession, hsocket] using hsafe
      simp only [hsession, hsocket, hok, ne_eq, not_true_eq_false, if_false, Bool.and_self,
        if_true, Option.some.injEq] at h
      subst h
      exact ⟨hsession, hsocket, behindLive_inLoop rev⟩
  | input rev =>
    simp only [hm, MainPc.breaks] at hsafe
    simp only [mainStep, hm] at h
    split at h <;> rename_i hready <;> cases h
    · exact ⟨hsession, hsocket, rfl⟩
    · simp only [not_or, Nat.not_lt, Nat.le_zero] at hready
      have hpacket : env.packet ≠ .lost := by simpa [hsession, hsocket, hready.2] using hsafe
      cases hp : env.packet with
      | connack => exact ⟨rfl, hsocket, rfl⟩
      | puback id | other | rejected => exact ⟨hsession, hsocket, rfl⟩
      | publish len decoded =>
        refine ⟨hsession, hsocket, ?_⟩
        simp only [mqttInput]
        split <;> rfl
      | lost => exact absurd hp hpacket
  | connack rev k =>
    simp only [mainStep, hm, Option.some.injEq] at h
    subst h
    refine ⟨?_, ?_, rfl⟩ <;> simp only [State.giveConnect] <;> split <;> assumption
  | puback rev p =>
    simp only [mainStep, hm, Option.some.injEq] at h
    subst h
    refine ⟨?_, ?_, rfl⟩ <;> simp only [State.givePuback] <;> split <;> assumption
  | read rev want decoded =>
    simp only [hm, MainPc.breaks] at hsafe
    simp only [mainStep, hm] at h
    split at h
    · cases h
      exact ⟨hsession, hsocket, rfl⟩
    · rename_i hwant
      split at h
      · cases h
        exact ⟨hsession, hsocket, rfl⟩
      · rename_i hremaining
        split at h
        · split at h <;> cases h
          · exact ⟨hsession, hsocket, rfl⟩
          · exact ⟨hsession, hsocket, hloop⟩
        · rename_i hagain
          split at h
          · cases h
            exact ⟨hsession, hsocket, rfl⟩
          · rename_i hok
            simp_all
  | disconnect rev decoded =>
    simp [hm, MainPc.breaks, hsession] at hsafe
  | handled rev decoded =>
    have hdecoded : decoded = true := by simpa [hm, MainPc.breaks] using hsafe
    simp only [mainStep, hm, hdecoded, if_true, Option.some.injEq] at h
    subst h
    exact ⟨hsession, hsocket, rfl⟩
  | tail rev =>
    simp only [hm, MainPc.breaks] at hsafe
    simp only [mainStep, hm, hsafe, Option.some.injEq] at h
    subst h
    exact ⟨hsession, hsocket, rfl⟩
  | lost after | leave => simp [hm, MainPc.breaks] at hsafe
  | done => simp [mainStep, hm] at h

theorem Releasable.serving {s : State} (h : Releasable s) : Serving s :=
  ⟨h.session, h.socket, h.inLoop⟩

/-- A PUBACK that is given ends the wait. -/
theorem answered_of_puback {s : State} {p : Puback} {pc : MainPc} (h : WaitersInv s) :
    ({ s.givePuback p with main := pc } : State).waitsUnanswered = false := by
  obtain ⟨item, sem, _, _, _, heq⟩ | ⟨sem, hb, _, htokens, heq⟩ := givePuback_cases h p
  · rw [heq]
    rfl
  · rw [heq]
    simp only [State.waitsUnanswered]
    split
    · rw [htokens]
      split
      · rfl
      · rename_i hne
        exact List.isEmpty_eq_false_iff.mpr hne
    · rename_i hw
      rw [hw] at hb
      cases hb
    · rfl

theorem releasable_main {env : Env} {s s' : State} (h : WaitInv s)
    (hsafe : waitSafe s (.main env) = true) (hstep : mainStep env s = some s')
    (hwaits : s'.waitsUnanswered = true) : Releasable s' := by
  obtain ⟨hframe, heffect⟩ := mainStep_effect hstep
  have hkept : s.waitsUnanswered = true ∧ s'.acked = s.acked := by
    cases heffect with
    | keeps hsem =>
      refine ⟨?_, hsem.acked⟩
      simpa only [State.waitsUnanswered, hsem.work, hsem.pubackOk] using hwaits
    | connack rev k hm =>
      obtain ⟨item, sem, _, _, _, heq⟩ | ⟨sem, _, _, _, heq⟩ := giveConnect_cases h.waiters k
      · rw [heq] at hwaits
        cases hwaits
      · rw [heq] at hwaits ⊢
        exact ⟨hwaits, rfl⟩
    | puback rev p hm =>
      rw [answered_of_puback h.waiters] at hwaits
      cases hwaits
  obtain ⟨hunanswered, hacked⟩ := hkept
  have hr := h.releasable hunanswered
  have hbreaks : s.main.breaks env s.client = false := by
    simpa [waitSafe, hunanswered] using hsafe
  obtain ⟨hsession, hsocket, hloop⟩ := serving_step hstep hbreaks hr.serving
  exact ⟨hframe.published ▸ hr.published, hacked.trans hr.unacked, hsession, hsocket,
    hframe.appConnected.trans hr.polls, hloop⟩

theorem dataPublish_accepted {env : Env} {c : Client} (h : dataPublish env c = .accepted) :
    c.session = .connected ∧ c.socket = true := by
  unfold dataPublish at h
  split at h
  · cases h
  · rename_i hsession
    split at h
    · cases h
    · split at h
      · rename_i hok
        exact ⟨not_not.mp hsession, (Bool.and_eq_true_iff.mp hok).1⟩
      · cases h

theorem releasable_work {env : Env} {s s' : State} (h : WaitInv s)
    (hsafe : waitSafe s (.work env) = true) (hstep : workStep env s = some s')
    (hwaits : s'.waitsUnanswered = true) : Releasable s' := by
  cases hw : s.work with
  | publish item =>
    have hup : s.appConnected = true := h.attached (by rw [hw]; rfl)
    cases hp : dataPublish env s.client with
    | failed =>
      simp only [workStep, hw, hp, Option.some.injEq] at hstep
      subst hstep
      cases hwaits
    | refused =>
      simp only [workStep, hw, hp, Option.some.injEq] at hstep
      subst hstep
      cases item with
      | alarm => cases hwaits
      | periodic =>
        simp only [State.waitsUnanswered] at hwaits
        simp [waitSafe, hw, hp, hwaits] at hsafe
    | accepted =>
      simp only [workStep, hw, hp, Option.some.injEq] at hstep
      subst hstep
      cases item with
      | alarm => cases hwaits
      | periodic =>
        simp only [State.waitsUnanswered] at hwaits
        obtain ⟨hsession, hsocket⟩ := dataPublish_accepted hp
        have hloop : s.main.inLoop = true := by simpa [waitSafe, hw, hp, hwaits] using hsafe
        exact ⟨rfl, rfl, hsession, hsocket, hup, hloop⟩
  | publishLost item =>
    simp only [workStep, hw, Option.some.injEq] at hstep
    subst hstep
    cases item with
    | alarm => cases hwaits
    | periodic =>
      simp only [State.waitsUnanswered] at hwaits
      simp [waitSafe, hw, hwaits] at hsafe
  | takePuback item =>
    have hidle := h.waiters.pubackOk
    rw [hw] at hidle
    simp only [workStep, hw] at hstep
    obtain ⟨p, sem, htake, _⟩ | ⟨sem, htake, hempty, _⟩ := hidle.take_cases 0
    · rw [htake] at hstep
      cases hstep
      cases hwaits
    · rw [htake] at hstep
      cases hstep
      cases item with
      | alarm => cases hwaits
      | periodic =>
        have hr := h.releasable (by simp [State.waitsUnanswered, hw, hempty])
        exact ⟨hr.published, hr.unacked, hr.session, hr.socket, hr.polls, hr.inLoop⟩
  | waitConnect item | waitPuback item => simp [workStep, hw] at hstep
  | connectTaken item connack =>
    cases connack with
    | none | some k =>
      simp only [workStep, hw, Option.some.injEq] at hstep
      subst hstep
      cases hwaits
  | takeConnect item =>
    have hidle := h.waiters.connectOk
    rw [hw] at hidle
    simp only [workStep, hw] at hstep
    obtain ⟨k, sem, htake, _⟩ | ⟨sem, htake, _⟩ := hidle.take_cases 0
    all_goals
      rw [htake] at hstep
      cases hstep
      cases hwaits
  | idle | abort | mqttDisconnect =>
    simp only [workStep, hw] at hstep
    split at hstep <;> cases hstep <;> cases hwaits
  | fdsInit item | setConnected item | pubackTaken p | abortLost | clearConnected | offline =>
    simp only [workStep, hw, Option.some.injEq] at hstep
    subst hstep
    cases hwaits
  | lteConnect item | mqttConnect item | appDisconnect | disconnectLost ok =>
    simp only [workStep, hw, Option.some.injEq] at hstep
    subst hstep
    simp only [State.waitsUnanswered] at hwaits
    split at hwaits
    · rename_i heq
      split at heq <;> cases heq
    · rename_i heq
      split at heq <;> cases heq
    · cases hwaits

/-- Only the work queue writes app_connected. -/
theorem attached_work {env : Env} {s s' : State} (hstep : workStep env s = some s')
    (h : s.work.attached = true → s.appConnected = true) :
    s'.work.attached = true → s'.appConnected = true := by
  cases hw : s.work with
  | setConnected item =>
    simp only [workStep, hw, Option.some.injEq] at hstep
    subst hstep
    exact fun _ => rfl
  | takeConnect item | publish item | takePuback item =>
    have hup : s.appConnected = true := h (by rw [hw]; rfl)
    simp only [workStep, hw] at hstep
    split at hstep <;> cases hstep <;> exact fun _ => hup
  | connectTaken item connack =>
    have hup : s.appConnected = true := h (by rw [hw]; rfl)
    cases connack with
    | none =>
      simp only [workStep, hw, Option.some.injEq] at hstep
      subst hstep
      rintro ⟨⟩
    | some k =>
      simp only [workStep, hw, Option.some.injEq] at hstep
      subst hstep
      exact fun _ => hup
  | publishLost item =>
    have hup : s.appConnected = true := h (by rw [hw]; rfl)
    simp only [workStep, hw, Option.some.injEq] at hstep
    subst hstep
    exact fun _ => hup
  | waitConnect item | waitPuback item => simp [workStep, hw] at hstep
  | idle | abort | mqttDisconnect =>
    simp only [workStep, hw] at hstep
    split at hstep <;> cases hstep <;> rintro ⟨⟩
  | fdsInit item | pubackTaken p | abortLost | clearConnected | offline =>
    simp only [workStep, hw, Option.some.injEq] at hstep
    subst hstep
    rintro ⟨⟩
  | lteConnect item | mqttConnect item | appDisconnect | disconnectLost ok =>
    simp only [workStep, hw, Option.some.injEq] at hstep
    subst hstep
    dsimp only
    split <;> rintro ⟨⟩

theorem attached_main {env : Env} {s s' : State} (hw : WaitersInv s)
    (hstep : mainStep env s = some s') (h : s.work.attached = true → s.appConnected = true) :
    s'.work.attached = true → s'.appConnected = true := by
  obtain ⟨hframe, heffect⟩ := mainStep_effect hstep
  rw [hframe.appConnected]
  cases heffect with
  | keeps hsem =>
    rw [hsem.work]
    exact h
  | connack rev k hm =>
    obtain ⟨item, sem, hpc, _, _, heq⟩ | ⟨sem, _, _, _, heq⟩ := giveConnect_cases hw k
    · exact fun _ => h (by rw [hpc]; rfl)
    · rw [heq]
      exact h
  | puback rev p hm =>
    obtain ⟨item, sem, _, _, _, heq⟩ | ⟨sem, _, _, _, heq⟩ := givePuback_cases hw p
    · rw [heq]
      rintro ⟨⟩
    · rw [heq]
      exact h

theorem waitInv_step (s : State) (a : Act) (s' : State) (h : WaitInv s)
    (hsafe : waitSafe s a = true) (hstep : machine.step s a = some s') : WaitInv s' := by
  have hwaiters := waitersInv_step s a s' h.waiters hstep
  change step s a = some s' at hstep
  cases a with
  | submit item =>
    cases hstep
    refine ⟨hwaiters, ?_, ?_⟩ <;> unfold submitStep <;> split
    · exact h.attached
    · exact h.attached
    · exact h.releasable
    · intro hwaits
      have hr := h.releasable hwaits
      exact ⟨hr.published, hr.unacked, hr.session, hr.socket, hr.polls, hr.inLoop⟩
  | work env =>
    exact ⟨hwaiters, attached_work hstep h.attached, releasable_work h hsafe hstep⟩
  | main env =>
    exact ⟨hwaiters, attached_main h.waiters hstep h.attached, releasable_main h hsafe hstep⟩
  | timeout =>
    simp only [step, timeoutStep] at hstep
    split at hstep <;> rename_i hw <;> cases hstep
    · exact ⟨hwaiters, fun _ => h.attached (by rw [hw]; rfl), (by rintro ⟨⟩)⟩
    · exact ⟨hwaiters, (by rintro ⟨⟩), (by rintro ⟨⟩)⟩

/-- In every run whose steps all meet the condition, a PUBACK can still end the endless
wait of publish_samples. -/
theorem releasable_of_waitSafe {s : State}
    (hrun : ReachableUnder machine (fun s a => waitSafe s a = true) s)
    (hw : s.work = .waitPuback .periodic) :
    Releasable s :=
  (reachableUnder_invariant waitInv_start waitInv_step hrun).releasable
    (by rw [State.waitsUnanswered, hw])

/-- The periodic item connects and publishes, and waits for the PUBACK. -/
def publishAndWait (cycles : BitVec 32) : List Act :=
  connectItem .periodic ++ [.work { cycles := cycles }, .work {}]

theorem releasable_after_publish :
    ∃ s, s.work = .waitPuback .periodic ∧ Releasable s := by
  obtain ⟨s, hrun, hs⟩ := exists_reachableUnder_of_exec (M := machine)
    (C := fun s a => waitSafe s a = true)
    (p := fun s => s.work = .waitPuback .periodic) (publishAndWait 1) (by decide)
  have hw := of_decide_eq_true hs
  exact ⟨s, hw, releasable_of_waitSafe hrun hw⟩

/-- The lower half of the cycle counter is zero, so mqtt_publish refuses the message. -/
theorem wait_not_releasable :
    ¬ ∀ s, Reachable machine s → s.work = .waitPuback .periodic → Releasable s := by
  intro hall
  obtain ⟨s, hreach, hs⟩ := exists_reachable_of_exec (M := machine)
    (p := fun s => s.work = .waitPuback .periodic && s.published.isNone)
    (publishAndWait 0x10000) (by decide)
  simp only [Bool.and_eq_true, decide_eq_true_eq] at hs
  have hsent := (hall s hreach hs.1).published
  simp [Option.isNone_iff_eq_none.mp hs.2] at hsent

end NcsProjects.MqttWork
