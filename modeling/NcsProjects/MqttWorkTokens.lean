import NcsProjects.MqttWorkEffects

/-!
Which acknowledgement a take of the work queue gets. Both semaphores are binary and
never reset, so a token that is given when nobody awaits it stays for the next take.
The takes are matched as long as every give comes to a work queue that awaits this
very acknowledgement.
-/
namespace NcsProjects.MqttWork

open Semaphores TransitionRuns

/-- A take of mqtt_connect_ok has returned for the CONNACK of the mqtt_connect in the same
app_connect, and a take of mqtt_puback_ok for a PUBACK that came on the session of the
same work item with the packet id that it published. -/
structure AcksFresh (s : State) : Prop where
  connack : ∀ item k, s.work = .connectTaken item (some k) → k = s.attempts
  puback : ∀ p, s.work = .pubackTaken (some p) →
    p.attempt = s.attempts ∧ s.published = some p.id

/-- app_connect has called mqtt_connect and has not got its CONNACK. -/
def WorkPc.awaitsConnack : WorkPc → Bool
  | .fdsInit _ | .setConnected _ | .takeConnect _ | .waitConnect _ => true
  | _ => false

/-- The work item has published and has not got its PUBACK. -/
def WorkPc.awaitsPuback : WorkPc → Bool
  | .takePuback _ | .waitPuback _ => true
  | _ => false

/-- Every give that is not lost comes to a work queue that awaits this acknowledgement:
the CONNACK of the current mqtt_connect, or a PUBACK with the packet id just published. -/
def ackSafe (s : State) : Act → Bool
  | .main _ =>
    match s.main with
    | .connack _ k => !s.connectOk.tokens.isEmpty || (k = s.attempts && s.work.awaitsConnack)
    | .puback _ p => !s.pubackOk.tokens.isEmpty || (s.answers p && s.work.awaitsPuback)
    | _ => true
  | _ => true

/-- Every token is one that the work queue will take next. -/
structure TokenInv (s : State) : Prop where
  waiters : WaitersInv s
  connectOk : ∀ k ∈ s.connectOk.tokens, k = s.attempts ∧ s.work.awaitsConnack = true
  pubackOk : ∀ p ∈ s.pubackOk.tokens, s.answers p = true ∧ s.work.awaitsPuback = true
  fresh : AcksFresh s

theorem tokenInv_start : TokenInv State.start := by
  refine ⟨waitersInv_start, ?_, ?_, ?_, ?_⟩
  · intro k hk
    cases hk
  · intro p hp
    cases hp
  · intro item k hw
    cases hw
  · intro p hw
    cases hw

theorem answers_iff {s : State} {p : Puback} :
    s.answers p = true ↔ p.attempt = s.attempts ∧ s.published = some p.id := by
  simp [State.answers]

/-- A place of the work queue at which no take has returned with a token. -/
def WorkPc.untaken : WorkPc → Bool
  | .connectTaken _ (some _) | .pubackTaken (some _) => false
  | _ => true

theorem acksFresh_of_untaken {s : State} (h : s.work.untaken = true) : AcksFresh s := by
  constructor
  · intro item k hw
    rw [hw] at h
    cases h
  · intro p hw
    rw [hw] at h
    cases h

theorem TokenInv.no_connack {s : State} (h : TokenInv s) (hw : s.work.awaitsConnack = false) :
    s.connectOk.tokens = [] := by
  refine List.eq_nil_iff_forall_not_mem.mpr fun k hk => ?_
  rw [(h.connectOk k hk).2] at hw
  cases hw

theorem TokenInv.no_puback {s : State} (h : TokenInv s) (hw : s.work.awaitsPuback = false) :
    s.pubackOk.tokens = [] := by
  refine List.eq_nil_iff_forall_not_mem.mpr fun p hp => ?_
  rw [(h.pubackOk p hp).2] at hw
  cases hw

/-- Without tokens there is nothing that could be stale. -/
theorem tokenInv_of_empty {s : State} (hwaiters : WaitersInv s) (hconnect : s.connectOk.tokens = [])
    (hpuback : s.pubackOk.tokens = []) (hfresh : AcksFresh s) : TokenInv s := by
  refine ⟨hwaiters, ?_, ?_, hfresh⟩
  · intro k hk
    rw [hconnect] at hk
    cases hk
  · intro p hp
    rw [hpuback] at hp
    cases hp

/-- A step of the work queue while it awaits nothing. -/
theorem tokenInv_of_quiet {s s' : State} (h : TokenInv s) (hwaiters : WaitersInv s')
    (hC : s.work.awaitsConnack = false) (hP : s.work.awaitsPuback = false)
    (hconnect : s'.connectOk = s.connectOk) (hpuback : s'.pubackOk = s.pubackOk)
    (huntaken : s'.work.untaken = true) : TokenInv s' :=
  tokenInv_of_empty hwaiters (by rw [hconnect]; exact h.no_connack hC)
    (by rw [hpuback]; exact h.no_puback hP) (acksFresh_of_untaken huntaken)

theorem tokenInv_work {env : Env} {s s' : State} (h : TokenInv s)
    (hstep : workStep env s = some s') : TokenInv s' := by
  have hwaiters : WaitersInv s' := waitersInv_work h.waiters hstep
  cases hw : s.work with
  | fdsInit item | setConnected item =>
    simp only [workStep, hw, Option.some.injEq] at hstep
    subst hstep
    refine ⟨hwaiters, fun k hk => ⟨(h.connectOk k hk).1, rfl⟩, ?_, acksFresh_of_untaken rfl⟩
    intro p hp
    rw [h.no_puback (by rw [hw]; rfl)] at hp
    cases hp
  | takeConnect item =>
    have hidle := h.waiters.connectOk
    have hpuback := h.no_puback (by rw [hw]; rfl)
    rw [hw] at hidle
    simp only [workStep, hw] at hstep
    obtain ⟨k, sem, htake, htokens, hempty, _⟩ | ⟨sem, htake, _, hempty, _⟩ := hidle.take_cases 0
    · rw [htake] at hstep
      cases hstep
      refine tokenInv_of_empty hwaiters hempty hpuback ⟨?_, (by rintro _ ⟨⟩)⟩
      intro item' k' hk
      cases hk
      exact (h.connectOk k (by rw [htokens]; exact List.mem_cons_self)).1
    · rw [htake] at hstep
      cases hstep
      exact tokenInv_of_empty hwaiters hempty hpuback (acksFresh_of_untaken rfl)
  | takePuback item =>
    have hidle := h.waiters.pubackOk
    have hconnect := h.no_connack (by rw [hw]; rfl)
    rw [hw] at hidle
    simp only [workStep, hw] at hstep
    obtain ⟨p, sem, htake, htokens, hempty, _⟩ | ⟨sem, htake, _, hempty, _⟩ := hidle.take_cases 0
    · rw [htake] at hstep
      cases hstep
      refine tokenInv_of_empty hwaiters hconnect hempty ⟨(by rintro _ _ ⟨⟩), ?_⟩
      intro p' hp
      cases hp
      exact answers_iff.mp (h.pubackOk p (by rw [htokens]; exact List.mem_cons_self)).1
    · rw [htake] at hstep
      cases hstep
      exact tokenInv_of_empty hwaiters hconnect hempty (acksFresh_of_untaken rfl)
  | waitConnect item | waitPuback item => simp [workStep, hw] at hstep
  | connectTaken item connack =>
    cases connack with
    | none | some k =>
      simp only [workStep, hw, Option.some.injEq] at hstep
      subst hstep
      exact tokenInv_of_quiet h hwaiters (by rw [hw]; rfl) (by rw [hw]; rfl) rfl rfl rfl
  | idle | publish item | abort | mqttDisconnect =>
    simp only [workStep, hw] at hstep
    split at hstep <;> cases hstep
    all_goals exact tokenInv_of_quiet h hwaiters (by rw [hw]; rfl) (by rw [hw]; rfl) rfl rfl rfl
  | publishLost item | pubackTaken p | abortLost | clearConnected | offline =>
    simp only [workStep, hw, Option.some.injEq] at hstep
    subst hstep
    exact tokenInv_of_quiet h hwaiters (by rw [hw]; rfl) (by rw [hw]; rfl) rfl rfl rfl
  | lteConnect item | mqttConnect item | appDisconnect | disconnectLost ok =>
    simp only [workStep, hw, Option.some.injEq] at hstep
    subst hstep
    refine tokenInv_of_quiet h hwaiters (by rw [hw]; rfl) (by rw [hw]; rfl) rfl rfl ?_
    dsimp only
    split <;> rfl

theorem tokenInv_connack {s : State} {rev : Revents} {k : ℕ} (h : TokenInv s)
    (hwaiters : WaitersInv { s.giveConnect k with main := .handled rev true })
    (hsafe : s.connectOk.tokens = [] → k = s.attempts ∧ s.work.awaitsConnack = true) :
    TokenInv { s.giveConnect k with main := .handled rev true } := by
  obtain ⟨item, sem, hw, hempty, _, heq⟩ | ⟨sem, _, _, htokens, heq⟩ :=
    giveConnect_cases h.waiters k
  · have hnone : s.connectOk.tokens = [] := by
      have hwaits := h.waiters.connectOk
      rw [hw] at hwaits
      exact hwaits.no_token
    have hpuback := h.no_puback (by rw [hw]; rfl)
    rw [heq] at hwaiters ⊢
    refine tokenInv_of_empty hwaiters hempty hpuback ⟨?_, (by rintro _ ⟨⟩)⟩
    intro item' k' hk
    cases hk
    exact (hsafe hnone).1
  · rw [heq] at hwaiters ⊢
    refine ⟨hwaiters, ?_, h.pubackOk, h.fresh.connack, h.fresh.puback⟩
    intro k' hk
    dsimp only at hk ⊢
    rw [htokens] at hk
    split at hk
    · rename_i hnone
      rw [List.mem_singleton.mp hk]
      exact hsafe hnone
    · exact h.connectOk k' hk

theorem tokenInv_puback {s : State} {rev : Revents} {p : Puback} (h : TokenInv s)
    (hwaiters : WaitersInv { s.givePuback p with main := .handled rev true })
    (hsafe : s.pubackOk.tokens = [] → s.answers p = true ∧ s.work.awaitsPuback = true) :
    TokenInv { s.givePuback p with main := .handled rev true } := by
  obtain ⟨item, sem, hw, hempty, _, heq⟩ | ⟨sem, _, _, htokens, heq⟩ := givePuback_cases h.waiters p
  · have hnone : s.pubackOk.tokens = [] := by
      have hwaits := h.waiters.pubackOk
      rw [hw] at hwaits
      exact hwaits.no_token
    have hconnect := h.no_connack (by rw [hw]; rfl)
    rw [heq] at hwaiters ⊢
    refine tokenInv_of_empty hwaiters hconnect hempty ⟨(by rintro _ _ ⟨⟩), ?_⟩
    intro p' hp
    cases hp
    exact answers_iff.mp (hsafe hnone).1
  · rw [heq] at hwaiters ⊢
    refine ⟨hwaiters, h.connectOk, ?_, h.fresh.connack, h.fresh.puback⟩
    intro p' hp
    dsimp only at hp ⊢
    rw [htokens] at hp
    split at hp
    · rename_i hnone
      rw [List.mem_singleton.mp hp]
      exact hsafe hnone
    · exact h.pubackOk p' hp

theorem tokenInv_step (s : State) (a : Act) (s' : State) (h : TokenInv s)
    (hsafe : ackSafe s a = true) (hstep : machine.step s a = some s') : TokenInv s' := by
  have hwaiters := waitersInv_step s a s' h.waiters hstep
  change step s a = some s' at hstep
  cases a with
  | submit item =>
    cases hstep
    unfold submitStep at hwaiters ⊢
    split
    · exact h
    · rename_i hpending
      rw [if_neg hpending] at hwaiters
      exact ⟨hwaiters, h.connectOk, h.pubackOk, h.fresh.connack, h.fresh.puback⟩
  | work env => exact tokenInv_work h hstep
  | main env =>
    obtain ⟨hframe, heffect⟩ := mainStep_effect hstep
    cases heffect with
    | keeps hsem =>
      refine ⟨hwaiters, ?_, ?_, ?_, ?_⟩
      · rw [hsem.connectOk, hsem.work, hframe.attempts]
        exact h.connectOk
      · simp only [hsem.pubackOk, hsem.work, State.answers, hframe.attempts, hframe.published]
        exact h.pubackOk
      · rw [hsem.work, hframe.attempts]
        exact h.fresh.connack
      · rw [hsem.work, hframe.attempts, hframe.published]
        exact h.fresh.puback
    | connack rev k hm =>
      refine tokenInv_connack h hwaiters fun hnone => ?_
      simpa [ackSafe, hm, hnone] using hsafe
    | puback rev p hm =>
      refine tokenInv_puback h hwaiters fun hnone => ?_
      simpa [ackSafe, hm, hnone] using hsafe
  | timeout =>
    obtain ⟨hconnect, hpuback⟩ := h.waiters
    simp only [step, timeoutStep] at hstep
    split at hstep <;> rename_i hw <;> cases hstep
    · rw [hw] at hconnect
      exact tokenInv_of_empty hwaiters hconnect.cancel_waiting.1 (h.no_puback (by rw [hw]; rfl))
        (acksFresh_of_untaken rfl)
    · rw [hw] at hpuback
      exact tokenInv_of_empty hwaiters (h.no_connack (by rw [hw]; rfl)) hpuback.cancel_waiting.1
        (acksFresh_of_untaken rfl)

/-- In every run whose steps all meet the condition, each take of the work queue gets the
acknowledgement of its own mqtt_connect or of its own PUBLISH. -/
theorem acksFresh_of_ackSafe {s : State}
    (hrun : ReachableUnder machine (fun s a => ackSafe s a = true) s) : AcksFresh s :=
  (reachableUnder_invariant tokenInv_start tokenInv_step hrun).fresh

/-- The alarm item connects and publishes, and its PUBACK arrives. -/
def publishAndTake : List Act :=
  connectItem .alarm ++ [.work {}, .work {}] ++ List.replicate 6 (.main {}) ++
    [.main { packet := .puback 1 }, .main {}]

theorem acksFresh_after_puback :
    ∃ s, (∃ p, s.work = .pubackTaken (some p)) ∧ AcksFresh s := by
  obtain ⟨s, hrun, hs⟩ := exists_reachableUnder_of_exec (M := machine)
    (C := fun s a => ackSafe s a = true)
    (p := fun s => s.work = .pubackTaken (some ⟨1, 1⟩)) publishAndTake (by decide)
  exact ⟨s, ⟨_, of_decide_eq_true hs⟩, acksFresh_of_ackSafe hrun⟩

/-- The wait for the CONNACK runs out between its arrival and the give; the next work
item takes the token. -/
def lateGive : List Act :=
  [.submit .alarm] ++ List.replicate 6 (.work {}) ++ List.replicate 4 (.main {}) ++
    [.main { packet := .connack }, .timeout, .main {}] ++ List.replicate 5 (.work {}) ++
    [.submit .alarm] ++ List.replicate 6 (.work {})

theorem stale_connack_taken : ¬ ∀ s, Reachable machine s → AcksFresh s := by
  intro hall
  obtain ⟨s, hreach, hs⟩ := exists_reachable_of_exec (M := machine)
    (p := fun s => s.work = .connectTaken .alarm (some 1) && s.attempts = 2) lateGive (by decide)
  simp only [Bool.and_eq_true, decide_eq_true_eq] at hs
  have hfresh := (hall s hreach).connack .alarm 1 hs.1
  rw [hs.2] at hfresh
  cases hfresh

end NcsProjects.MqttWork
