import NcsProjects.MqttWorkThreads

/-!
What a step of mqtt_work can do, said once. The main thread touches the semaphores
and the work queue by its two gives only, and the work queue is the only thread that
waits in them.
-/
namespace NcsProjects.MqttWork

open Semaphores TransitionRuns

/-- What no step of the main thread writes. -/
structure MainFrame (s s' : State) : Prop where
  appConnected : s'.appConnected = s.appConnected
  attempts : s'.attempts = s.attempts
  published : s'.published = s.published

/-- What only a give writes. -/
structure SemFrame (s s' : State) : Prop where
  connectOk : s'.connectOk = s.connectOk
  pubackOk : s'.pubackOk = s.pubackOk
  work : s'.work = s.work
  acked : s'.acked = s.acked

/-- Everything a step of the main thread can do to the semaphores and the work queue. -/
inductive MainEffect (s : State) : State → Prop
  | keeps {s' : State} (h : SemFrame s s') : MainEffect s s'
  | connack (rev : Revents) (k : ℕ) (hm : s.main = .connack rev k) :
      MainEffect s { s.giveConnect k with main := .handled rev true }
  | puback (rev : Revents) (p : Puback) (hm : s.main = .puback rev p) :
      MainEffect s { s.givePuback p with main := .handled rev true }

theorem giveConnect_frame (s : State) (k : ℕ) : MainFrame s (s.giveConnect k) := by
  unfold State.giveConnect
  split <;> exact ⟨rfl, rfl, rfl⟩

theorem givePuback_frame (s : State) (p : Puback) : MainFrame s (s.givePuback p) := by
  unfold State.givePuback
  split <;> exact ⟨rfl, rfl, rfl⟩

theorem mqttInput_frame (rev : Revents) (packet : Packet) (s : State) :
    MainFrame s (mqttInput rev packet s) ∧ SemFrame s (mqttInput rev packet s) := by
  cases packet <;> exact ⟨⟨rfl, rfl, rfl⟩, rfl, rfl, rfl, rfl⟩

theorem mainStep_effect {env : Env} {s s' : State} (h : mainStep env s = some s') :
    MainFrame s s' ∧ MainEffect s s' := by
  have hquiet : ∀ (c : Client) (pc : MainPc), MainFrame s { s with client := c, main := pc } ∧
      MainEffect s { s with client := c, main := pc } :=
    fun c pc => ⟨⟨rfl, rfl, rfl⟩, .keeps ⟨rfl, rfl, rfl, rfl⟩⟩
  cases hm : s.main with
  | check | poll | recheck rev | tail rev | lost after =>
    simp only [mainStep, hm, Option.some.injEq] at h
    subst h
    exact hquiet _ _
  | live rev | disconnect rev decoded | handled rev decoded | leave | read rev want decoded =>
    simp only [mainStep, hm] at h
    repeat' split at h
    all_goals
      cases h
      exact hquiet _ _
  | input rev =>
    simp only [mainStep, hm] at h
    split at h <;> cases h
    · exact hquiet _ _
    · obtain ⟨hframe, hsem⟩ := mqttInput_frame rev (if s.client.socket then env.packet else .lost) s
      exact ⟨hframe, .keeps hsem⟩
  | connack rev k =>
    simp only [mainStep, hm, Option.some.injEq] at h
    subst h
    exact ⟨⟨(giveConnect_frame s k).appConnected, (giveConnect_frame s k).attempts,
      (giveConnect_frame s k).published⟩, .connack rev k hm⟩
  | puback rev p =>
    simp only [mainStep, hm, Option.some.injEq] at h
    subst h
    exact ⟨⟨(givePuback_frame s p).appConnected, (givePuback_frame s p).attempts,
      (givePuback_frame s p).published⟩, .puback rev p hm⟩
  | done => simp [mainStep, hm] at h

def WorkPc.waitsConnect : WorkPc → Bool
  | .waitConnect _ => true
  | _ => false

def WorkPc.waitsPuback : WorkPc → Bool
  | .waitPuback _ => true
  | _ => false

/-- The work queue waits in a semaphore exactly where it stands in the wait. -/
structure WaitersInv (s : State) : Prop where
  connectOk : s.connectOk.Waits () s.work.waitsConnect
  pubackOk : s.pubackOk.Waits () s.work.waitsPuback

theorem waitersInv_start : WaitersInv State.start := ⟨rfl, rfl⟩

/-- A CONNACK ends the wait of the work queue, or leaves a token. -/
theorem giveConnect_cases {s : State} (h : WaitersInv s) (k : ℕ) :
    (∃ item sem, s.work = .waitConnect item ∧ sem.tokens = [] ∧ sem.Waits () false ∧
      s.giveConnect k = { s with connectOk := sem, work := .connectTaken item (some k) }) ∨
    ∃ sem, s.work.waitsConnect = false ∧ sem.Waits () false ∧
      sem.tokens = (if s.connectOk.tokens = [] then [k] else s.connectOk.tokens) ∧
      s.giveConnect k = { s with connectOk := sem } := by
  have hwaits := h.connectOk
  cases hb : s.work.waitsConnect with
  | true =>
    rw [hb] at hwaits
    obtain ⟨sem, hgive, htokens, hidle⟩ := hwaits.give_waiting k
    cases hw : s.work with
    | waitConnect item =>
      refine Or.inl ⟨item, sem, rfl, htokens, hidle, ?_⟩
      simp only [State.giveConnect, hgive, hw, WorkPc.connectHanded]
    | _ => simp [hw, WorkPc.waitsConnect] at hb
  | false =>
    rw [hb] at hwaits
    obtain ⟨sem, hgive, hidle, htokens⟩ := hwaits.give_idle k
    exact Or.inr ⟨sem, rfl, hidle, htokens, by simp only [State.giveConnect, hgive]⟩

/-- A PUBACK does the same, whatever its packet id is. -/
theorem givePuback_cases {s : State} (h : WaitersInv s) (p : Puback) :
    (∃ item sem, s.work = .waitPuback item ∧ sem.tokens = [] ∧ sem.Waits () false ∧
      s.givePuback p = { s with
        pubackOk := sem
        work := .pubackTaken (some p)
        acked := s.acked || s.answers p }) ∨
    ∃ sem, s.work.waitsPuback = false ∧ sem.Waits () false ∧
      sem.tokens = (if s.pubackOk.tokens = [] then [p] else s.pubackOk.tokens) ∧
      s.givePuback p = { s with pubackOk := sem, acked := s.acked || s.answers p } := by
  have hwaits := h.pubackOk
  cases hb : s.work.waitsPuback with
  | true =>
    rw [hb] at hwaits
    obtain ⟨sem, hgive, htokens, hidle⟩ := hwaits.give_waiting p
    cases hw : s.work with
    | waitPuback item =>
      refine Or.inl ⟨item, sem, rfl, htokens, hidle, ?_⟩
      simp only [State.givePuback, hgive, hw, WorkPc.pubackHanded]
    | _ => simp [hw, WorkPc.waitsPuback] at hb
  | false =>
    rw [hb] at hwaits
    obtain ⟨sem, hgive, hidle, htokens⟩ := hwaits.give_idle p
    exact Or.inr ⟨sem, rfl, hidle, htokens, by simp only [State.givePuback, hgive]⟩

theorem waitersInv_work {env : Env} {s s' : State} (h : WaitersInv s)
    (hstep : workStep env s = some s') : WaitersInv s' := by
  obtain ⟨hconnect, hpuback⟩ := h
  cases hw : s.work with
  | takeConnect item =>
    rw [hw] at hconnect hpuback
    simp only [workStep, hw] at hstep
    obtain ⟨g, sem, htake, _, _, hwaits⟩ | ⟨sem, htake, _, _, hwaits⟩ := hconnect.take_cases 0
    all_goals
      rw [htake] at hstep
      cases hstep
      exact ⟨hwaits, hpuback⟩
  | takePuback item =>
    rw [hw] at hconnect hpuback
    simp only [workStep, hw] at hstep
    obtain ⟨g, sem, htake, _, _, hwaits⟩ | ⟨sem, htake, _, _, hwaits⟩ := hpuback.take_cases 0
    all_goals
      rw [htake] at hstep
      cases hstep
      exact ⟨hconnect, hwaits⟩
  | waitConnect item | waitPuback item => simp [workStep, hw] at hstep
  | fdsInit item | setConnected item | pubackTaken p | abortLost | clearConnected | offline
  | publishLost item =>
    rw [hw] at hconnect hpuback
    simp only [workStep, hw, Option.some.injEq] at hstep
    subst hstep
    exact ⟨hconnect, hpuback⟩
  | connectTaken item connack =>
    rw [hw] at hconnect hpuback
    cases connack with
    | none | some k =>
      simp only [workStep, hw, Option.some.injEq] at hstep
      subst hstep
      exact ⟨hconnect, hpuback⟩
  | idle | publish item | abort | mqttDisconnect =>
    rw [hw] at hconnect hpuback
    simp only [workStep, hw] at hstep
    split at hstep <;> cases hstep <;> exact ⟨hconnect, hpuback⟩
  | lteConnect item | mqttConnect item | appDisconnect | disconnectLost ok =>
    rw [hw] at hconnect hpuback
    simp only [workStep, hw, Option.some.injEq] at hstep
    subst hstep
    refine ⟨?_, ?_⟩ <;> dsimp only <;> split <;> assumption

theorem waitersInv_step (s : State) (a : Act) (s' : State) (h : WaitersInv s)
    (hstep : machine.step s a = some s') : WaitersInv s' := by
  change step s a = some s' at hstep
  cases a with
  | submit item =>
    cases hstep
    unfold submitStep
    split <;> exact ⟨h.connectOk, h.pubackOk⟩
  | work env => exact waitersInv_work h hstep
  | main env =>
    cases (mainStep_effect hstep).2 with
    | keeps hsem =>
      refine ⟨?_, ?_⟩
      · rw [hsem.connectOk, hsem.work]
        exact h.connectOk
      · rw [hsem.pubackOk, hsem.work]
        exact h.pubackOk
    | connack rev k hm =>
      have hpuback := h.pubackOk
      obtain ⟨item, sem, hw, _, hidle, heq⟩ | ⟨sem, hb, hidle, _, heq⟩ := giveConnect_cases h k
      · rw [hw] at hpuback
        rw [heq]
        exact ⟨hidle, hpuback⟩
      · rw [heq]
        exact ⟨by rw [hb]; exact hidle, hpuback⟩
    | puback rev p hm =>
      have hconnect := h.connectOk
      obtain ⟨item, sem, hw, _, hidle, heq⟩ | ⟨sem, hb, hidle, _, heq⟩ := givePuback_cases h p
      · rw [hw] at hconnect
        rw [heq]
        exact ⟨hconnect, hidle⟩
      · rw [heq]
        exact ⟨hconnect, by rw [hb]; exact hidle⟩
  | timeout =>
    obtain ⟨hconnect, hpuback⟩ := h
    simp only [step, timeoutStep] at hstep
    split at hstep <;> rename_i hw <;> cases hstep
    · rw [hw] at hconnect hpuback
      exact ⟨hconnect.cancel_waiting.2, hpuback⟩
    · rw [hw] at hconnect hpuback
      exact ⟨hconnect, hpuback.cancel_waiting.2⟩

end NcsProjects.MqttWork
