import NcsProjects.GcloudEffects

/-!
Recovery after a lost connection. The handler of MQTT_EVT_DISCONNECT queues a
CONNECT command only when it runs on the gcloud thread: on the mqtt thread it
aborts itself before it gets there. On the gcloud thread the command is queued
if the flags still ask for it at the check and the queue has room behind the
purge.
-/
namespace NcsProjects.Gcloud

open MessageQueues TransitionRuns

/-- Every handler that was entered while connected || connecting has been left with
a CONNECT command accepted in between. -/
def Recovered (s : State) : Prop := ∀ d ∈ s.departures, d.live = true → d.accepted = true

/-- The handler has not tested the flags yet. -/
def DiscPc.untested : DiscPc → Bool
  | .stopTimer | .purge | .check => true
  | _ => false

/-- The loss is not found on the mqtt thread while connected || connecting; the
mqtt thread does not clear the last flag under an untested handler of the gcloud
thread; and the queue has room when that handler reconnects. -/
def recoverySafe (s : State) : Act → Bool
  | .mqtt env =>
    match s.mqtt with
    | .call c rev .body => (mqttBody c rev env s).isSome || !(s.connected || s.connecting)
    | .connack _ .clearConnecting => s.connected || !s.gcloud.handler.any fun h => h.2.untested
    | _ => true
  | .gcloud _ =>
    match s.gcloud with
    | .call _ (.disc a (.connect .put)) => !a.live || s.kernel.msgq.buf.length < nMessages
    | _ => true
  | _ => true

/-- What a handler entered while connected || connecting still owes at each point. -/
def Owes (a : Activation) (connects : ℕ) (live : Bool) : DiscPc → Prop
  | .stopTimer | .purge | .check => live = true ∧ a.since ≤ connects
  | .abort | .connect .put => a.since ≤ connects
  | .connect .putWait => False
  | .connect _ | .leave => a.since < connects

structure RecoveryInv (s : State) : Prop where
  recovered : Recovered s
  gcloud : ∀ a p, s.gcloud.handler = some (a, p) → a.live = true →
    Owes a s.kernel.connects (s.connected || s.connecting) p
  mqtt : ∀ a p, s.mqtt.handler = some (a, p) → a.live = false

theorem recoveryInv_start : RecoveryInv State.start :=
  ⟨fun _ hd => absurd hd List.not_mem_nil, (by rintro _ _ ⟨⟩), (by rintro _ _ ⟨⟩)⟩

/-- More CONNECT commands and flags that stay up only help. -/
theorem Owes.mono {a : Activation} {n m : ℕ} {live live' : Bool} {p : DiscPc}
    (h : Owes a n live p) (hle : n ≤ m) (hlive : p.untested = true → live = true → live' = true) :
    Owes a m live' p := by
  cases p with
  | stopTimer | purge | check => exact ⟨hlive rfl h.1, Nat.le_trans h.2 hle⟩
  | abort => exact Nat.le_trans h hle
  | connect p =>
    cases p with
    | put => exact Nat.le_trans h hle
    | putWait => exact h
    | take err | takeWait err | ret err => exact Nat.lt_of_lt_of_le h hle
  | leave => exact Nat.lt_of_lt_of_le h hle

/-- A step that leaves the handler of the gcloud thread where it is, or is outside it. -/
theorem RecoveryInv.frame {s s' : State} (h : RecoveryInv s) (hdep : Recovered s')
    (hle : s.kernel.connects ≤ s'.kernel.connects)
    (hgcloud : s'.gcloud.handler = s.gcloud.handler ∨ s'.gcloud.handler = none)
    (hmqtt : ∀ a p, s'.mqtt.handler = some (a, p) → a.live = false)
    (hlive : ∀ a p, s.gcloud.handler = some (a, p) → p.untested = true →
      (s.connected || s.connecting) = true → (s'.connected || s'.connecting) = true) :
    RecoveryInv s' := by
  refine ⟨hdep, ?_, hmqtt⟩
  intro a p hp ha
  rcases hgcloud with heq | hnone
  · rw [heq] at hp
    exact (h.gcloud a p hp ha).mono hle (hlive a p hp)
  · simp [hnone] at hp

theorem recoveryInv_outside {s s' : State} {a : Act} (h : RecoveryInv s)
    (ha : a.outside = true) (hstep : step s a = some s') : RecoveryInv s' := by
  have hf := outside_frame ha hstep
  refine h.frame ?_ hf.connects (Or.inl (by rw [hf.gcloud])) ?_ ?_
  · unfold Recovered
    rw [hf.departures]
    exact h.recovered
  · rw [hf.mqtt]
    exact h.mqtt
  · intro _ _ _ _ hlive
    rw [hf.connected, hf.connecting]
    exact hlive

/-- The end of a handler that was not entered live, or has its CONNECT accepted. -/
theorem recovered_depart {s : State} {a : Activation} (h : Recovered s)
    (ha : a.live = true → a.since < s.kernel.connects) : Recovered (s.depart a) := by
  intro d hd hlive
  rcases List.mem_cons.mp hd with rfl | hold
  · simpa using ha hlive
  · exact h d hold hlive

/-- An abort of the mqtt thread ends no handler that was entered live. -/
theorem RecoveryInv.abortMqtt {s : State} (h : RecoveryInv s) : Recovered s.abortMqtt := by
  unfold Recovered State.abortMqtt
  cases hm : s.mqtt.handler with
  | none => exact h.recovered
  | some hp =>
    obtain ⟨a, p⟩ := hp
    have ha := h.mqtt a p hm
    exact recovered_depart h.recovered (fun hlive => by simp [ha] at hlive)

/-- The handler on the mqtt thread, never entered live, owes nothing. -/
theorem recoveryInv_mqttDisc {c : MqttCall} {rev : Revents} {a : Activation} {p : DiscPc}
    {s s' : State} (h : RecoveryInv s) (hm : s.mqtt = .call c rev (.disc a p))
    (hstep : mqttDisc c rev a p s = some s') : RecoveryInv s' := by
  have ha : a.live = false := h.mqtt a p (by rw [hm]; rfl)
  have hsame : ∀ a' p' q, (MqttPc.call c rev (.disc a q)).handler = some (a', p') →
      a'.live = false := by
    intro a' p' q hq
    cases hq
    exact ha
  have hdep : Recovered (s.depart a) :=
    recovered_depart h.recovered (fun hlive => by simp [ha] at hlive)
  cases p with
  | stopTimer | purge =>
    cases hstep
    exact h.frame h.recovered (Nat.le_refl _) (Or.inl rfl) (fun a' p' => hsame a' p' _)
      (fun _ _ _ _ => id)
  | check =>
    simp only [mqttDisc] at hstep
    split at hstep <;> cases hstep
    all_goals
      exact h.frame h.recovered (Nat.le_refl _) (Or.inl rfl) (fun a' p' => hsame a' p' _)
        (fun _ _ _ _ => id)
  | abort =>
    cases hstep
    exact h.frame h.abortMqtt (Nat.le_refl _) (Or.inl rfl) (by rintro _ _ ⟨⟩) (fun _ _ _ _ => id)
  | connect p => cases hstep
  | leave =>
    cases hstep
    exact h.frame hdep (Nat.le_refl _) (Or.inl rfl) (by rintro _ _ ⟨⟩) (fun _ _ _ _ => id)

/-- The handler of an accepted CONNACK raises a flag, and clears the other one only
where the gcloud thread no longer looks. -/
theorem recoveryInv_connack {env : Env} {rev : Revents} {p : ConnackPc} {s s' : State}
    (h : RecoveryInv s) (hm : s.mqtt = .connack rev p) (hsafe : recoverySafe s (.mqtt env) = true)
    (hstep : connackStep env rev p s = some s') : RecoveryInv s' := by
  cases p with
  | give | startTimer =>
    cases hstep
    exact h.frame h.recovered (Nat.le_refl _) (Or.inl rfl) (by rintro _ _ ⟨⟩) (fun _ _ _ _ => id)
  | setConnected =>
    cases hstep
    exact h.frame h.recovered (Nat.le_refl _) (Or.inl rfl) (by rintro _ _ ⟨⟩) (fun _ _ _ _ _ => rfl)
  | clearConnecting =>
    cases hstep
    refine h.frame h.recovered (Nat.le_refl _) (Or.inl rfl) (by rintro _ _ ⟨⟩) ?_
    intro a p hp huntested _
    simp only [recoverySafe, hm, hp, Option.any_some, huntested, Bool.not_true,
      Bool.or_false] at hsafe
    simp [hsafe]
  | putSubscribe =>
    have hle := s.kernel.put_connects_le env.pos .mqtt .subscribe
    simp only [connackStep] at hstep
    split at hstep <;> rename_i heq <;> cases hstep
    all_goals
      rw [heq] at hle
      exact h.frame h.recovered hle (Or.inl rfl) (by rintro _ _ ⟨⟩) (fun _ _ _ _ => id)
  | putWait =>
    simp only [connackStep] at hstep
    split at hstep <;> cases hstep
    exact h.frame h.recovered (Nat.le_refl _) (Or.inl rfl) (by rintro _ _ ⟨⟩) (fun _ _ _ _ => id)

/-- A calm step of the mqtt thread. -/
theorem RecoveryInv.calm {s s' : State} (h : RecoveryInv s) (hcalm : Calm s s') :
    RecoveryInv s' := by
  refine h.frame ?_ (Nat.le_of_eq (by rw [hcalm.kernel])) (Or.inl (by rw [hcalm.gcloud])) ?_ ?_
  · unfold Recovered
    rw [hcalm.departures]
    exact h.recovered
  · intro a p hp
    simp [hcalm.handler] at hp
  · intro _ _ _ _ hlive
    rw [hcalm.connected, hcalm.connecting]
    exact hlive

theorem recoveryInv_mqtt {env : Env} {s s' : State} (h : RecoveryInv s)
    (hsafe : recoverySafe s (.mqtt env) = true) (hstep : mqttStep env s = some s') :
    RecoveryInv s' := by
  cases mqttStep_effect hstep with
  | calm hcalm _ _ => exact h.calm hcalm
  | exit hcalm _ _ _ => exact h.calm hcalm
  | lose c rev hm hbody _ =>
    have hdown : (s.connected || s.connecting) = false := by
      simpa [recoverySafe, hm, hbody] using hsafe
    refine h.frame h.recovered (Nat.le_refl _) (Or.inl rfl) ?_ (fun _ _ _ _ => id)
    intro a p hp
    cases hp
    exact hdown
  | accept rev _ _ _ _ =>
    exact h.frame h.recovered (Nat.le_refl _) (Or.inl rfl) (by rintro _ _ ⟨⟩) (fun _ _ _ _ => id)
  | connack rev p hm hconn => exact recoveryInv_connack h hm hsafe hconn
  | disc c rev a p hm hdisc => exact recoveryInv_mqttDisc h hm hdisc

/-- gcloud_connect in the handler: with room in the queue its put is accepted at once. -/
theorem owes_connStep {env : Env} {a : Activation} {p p' : ConnPc} {k k' : Kernel} {live : Bool}
    (h : Owes a k.connects live (.connect p))
    (hroom : p = .put → k.msgq.buf.length < nMessages)
    (hstep : connStep .gcloud none env p k = some (p', k')) :
    Owes a k'.connects live (.connect p') := by
  have hle := connStep_connects_le hstep
  cases p with
  | put =>
    obtain ⟨rfl, heq⟩ := connStep_put_of_room (hroom rfl) hstep
    have hcount := Kernel.put_connect_accepted heq
    have hsince : a.since ≤ k.connects := h
    show a.since < k'.connects
    omega
  | putWait => exact absurd h id
  | take err =>
    simp only [connStep] at hstep
    split at hstep <;> cases hstep <;> exact Nat.lt_of_lt_of_le h hle
  | takeWait err =>
    simp only [connStep] at hstep
    split at hstep <;> cases hstep
    exact h
  | ret err => cases hstep

theorem recoveryInv_gcloudDisc {c : GcloudCall} {env : Env} {a : Activation} {p : DiscPc}
    {s s' : State} (h : RecoveryInv s) (hg : s.gcloud = .call c (.disc a p))
    (hsafe : recoverySafe s (.gcloud env) = true) (hstep : gcloudDisc c env a p s = some s') :
    RecoveryInv s' := by
  have howes : a.live = true → Owes a s.kernel.connects (s.connected || s.connecting) p :=
    h.gcloud a p (by rw [hg]; rfl)
  cases p with
  | stopTimer | purge =>
    cases hstep
    refine ⟨h.recovered, ?_, h.mqtt⟩
    intro a' p' hp ha
    cases hp
    exact howes ha
  | check =>
    simp only [gcloudDisc] at hstep
    split at hstep
    · cases hstep
      refine ⟨h.recovered, ?_, h.mqtt⟩
      intro a' p' hp ha
      cases hp
      exact (howes ha).2
    · rename_i hdown
      cases hstep
      refine ⟨h.recovered, ?_, h.mqtt⟩
      intro a' p' hp ha
      cases hp
      exact absurd (howes ha).1 hdown
  | abort =>
    cases hstep
    refine ⟨h.abortMqtt, ?_, (by rintro _ _ ⟨⟩)⟩
    intro a' p' hp ha
    cases hp
    exact howes ha
  | connect p =>
    obtain ⟨⟨err, rfl⟩, rfl⟩ | ⟨p₁, k, hk, rfl⟩ := gcloudDisc_connect_cases hstep
    · refine ⟨h.recovered, ?_, h.mqtt⟩
      intro a' p' hp ha
      cases hp
      exact howes ha
    · refine ⟨h.recovered, ?_, h.mqtt⟩
      intro a' p' hp ha
      cases hp
      refine owes_connStep (howes ha) ?_ hk
      rintro rfl
      simpa [recoverySafe, hg, ha] using hsafe
  | leave =>
    cases hstep
    exact ⟨recovered_depart h.recovered howes, (by rintro _ _ ⟨⟩), h.mqtt⟩

theorem recoveryInv_gcloud {env : Env} {s s' : State} (h : RecoveryInv s)
    (hsafe : recoverySafe s (.gcloud env) = true) (hstep : gcloudStep env s = some s') :
    RecoveryInv s' := by
  have houtside : ∀ t : State, Recovered t → t.gcloud.handler = none →
      (∀ a p, t.mqtt.handler = some (a, p) → a.live = false) → RecoveryInv t := by
    intro t hdep hnone hmqtt
    refine ⟨hdep, ?_, hmqtt⟩
    intro a p hp
    simp [hnone] at hp
  cases hg : s.gcloud with
  | get =>
    simp only [gcloudStep, hg] at hstep
    split at hstep <;> cases hstep <;> exact houtside _ h.recovered rfl h.mqtt
  | wait =>
    simp only [gcloudStep, hg] at hstep
    split at hstep <;> cases hstep
    exact houtside _ h.recovered rfl h.mqtt
  | dispatch =>
    simp only [gcloudStep, hg, Option.some.injEq] at hstep
    subst hstep
    exact houtside _ h.recovered (dispatch_handler env s) h.mqtt
  | setConnecting =>
    simp only [gcloudStep, hg, Option.some.injEq] at hstep
    subst hstep
    refine houtside _ h.recovered ?_ h.mqtt
    split <;> rfl
  | create =>
    obtain ⟨-, rfl⟩ := gcloudStep_create hg hstep
    exact houtside _ h.recovered rfl (by rintro _ _ ⟨⟩)
  | clientInit | stopTimer | clearConnected | markConnecting =>
    simp only [gcloudStep, hg, Option.some.injEq] at hstep
    subst hstep
    exact houtside _ h.recovered rfl h.mqtt
  | call c p =>
    simp only [gcloudStep, hg] at hstep
    cases p with
    | lock | relock ok =>
      simp only [gcloudCall] at hstep
      split at hstep <;> cases hstep <;> exact houtside _ h.recovered rfl h.mqtt
    | lockWait | relockWait ok =>
      simp only [gcloudCall] at hstep
      split at hstep <;> cases hstep
      exact houtside _ h.recovered rfl h.mqtt
    | unlock ok =>
      cases hstep
      exact houtside _ h.recovered (gcloudReturn_handler c) h.mqtt
    | disc a p => exact recoveryInv_gcloudDisc h hg hsafe hstep
    | body =>
      simp only [gcloudCall] at hstep
      split at hstep <;> cases hstep
      · exact houtside _ h.recovered rfl h.mqtt
      · refine ⟨h.recovered, ?_, h.mqtt⟩
        intro a p hp ha
        cases hp
        exact ⟨ha, Nat.le_refl _⟩

theorem recoveryInv_step (s : State) (a : Act) (s' : State) (h : RecoveryInv s)
    (hsafe : recoverySafe s a = true) (hstep : machine.step s a = some s') : RecoveryInv s' := by
  change step s a = some s' at hstep
  cases a with
  | gcloud env => exact recoveryInv_gcloud h hsafe hstep
  | mqtt env => exact recoveryInv_mqtt h hsafe hstep
  | start n c | app n env | timer | timeout t => exact recoveryInv_outside h rfl hstep

/-- In every run whose steps are all safe for recovery, every handler entered while
connected || connecting leaves behind an accepted CONNECT command. -/
theorem recovered_of_recoverySafe {s : State}
    (hrun : ReachableUnder machine (fun s a => recoverySafe s a = true) s) : Recovered s :=
  (reachableUnder_invariant recoveryInv_start recoveryInv_step hrun).recovered

/-- The session ends with a RECONNECT_TIMEOUT, on the gcloud thread. -/
def timedReconnect : List Act :=
  handshake ++ List.replicate 5 (.gcloud {}) ++ [.timer] ++ List.replicate 15 (.gcloud {})

theorem recovered_after_timeout :
    ∃ s, (∃ d ∈ s.departures, d.live = true) ∧ Recovered s := by
  obtain ⟨s, hrun, hs⟩ := exists_reachableUnder_of_exec (M := machine)
    (C := fun s a => recoverySafe s a = true)
    (p := fun s => s.departures.any fun d => d.live) timedReconnect (by decide)
  exact ⟨s, by simpa using hs, recovered_of_recoverySafe hrun⟩

/-- The session ends with a loss that mqtt_input finds, on the mqtt thread. -/
def lossOnMqttThread : List Act :=
  handshake ++ List.replicate 5 (.mqtt {}) ++ [.mqtt { packet := .lost }] ++
    List.replicate 4 (.mqtt {})

theorem loss_not_recovered : ¬ ∀ s, Reachable machine s → Recovered s := by
  intro hall
  obtain ⟨s, hreach, hs⟩ := exists_reachable_of_exec (M := machine)
    (p := fun s => s.departures.any fun d => d.live && !d.accepted) lossOnMqttThread (by decide)
  obtain ⟨d, hd, hbad⟩ := List.any_eq_true.mp hs
  simp only [Bool.and_eq_true, Bool.not_eq_true'] at hbad
  have hacc := hall s hreach d hd hbad.1
  rw [hacc] at hbad
  cases hbad.2

end NcsProjects.Gcloud
