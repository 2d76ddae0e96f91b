import NcsProjects.GcloudKernelMoves

/-!
The way of a command through gcloud_msgq. Only k_msgq_get of the gcloud thread and
the purge in the handler of a loss take commands out; every other step at most adds
one, and hands it over only to a gcloud thread that waits for it.
-/
namespace NcsProjects.Gcloud

open MessageQueues TransitionRuns

theorem connStep_keeps {self : Tid} {origin : Option ℕ} {env : Env} {p p' : ConnPc}
    {k k' : Kernel} (h : connStep self origin env p k = some (p', k')) : k.Keeps k' := by
  rw [connStep_kernel h]
  cases p with
  | put => exact k.put_keeps env.pos self (.connect origin)
  | take err => exact k.take_keeps env.pos self
  | putWait | takeWait err | ret err => exact Kernel.Keeps.refl k

/-- Everything a step can do to the queue. -/
inductive QueueEffect (s : State) : Act → State → Prop
  | keeps {a : Act} {s' : State} (hk : s.kernel.Keeps s'.kernel) : QueueEffect s a s'
  | get (env : Env) (hg : s.gcloud = .get) (k : Kernel) (hk : s.kernel.get = some k) :
      QueueEffect s (.gcloud env) { s with kernel := k, gcloud := .dispatch }
  | pend (env : Env) (hg : s.gcloud = .get) (hk : s.kernel.get = none) :
      QueueEffect s (.gcloud env) { s with kernel := s.kernel.pendRead env.pos, gcloud := .wait }
  | gcloudPurge (env : Env) (c : GcloudCall) (a : Activation)
      (hg : s.gcloud = .call c (.disc a .purge)) :
      QueueEffect s (.gcloud env)
        { s with kernel := s.kernel.purge, gcloud := .call c (.disc a .check) }
  | mqttPurge (env : Env) (c : MqttCall) (rev : Revents) (a : Activation)
      (hm : s.mqtt = .call c rev (.disc a .purge)) :
      QueueEffect s (.mqtt env)
        { s with kernel := s.kernel.purge, mqtt := .call c rev (.disc a .check) }

/-- All calls but k_msgq_get of the gcloud thread and the purge keep the commands. -/
theorem KernelMove.keeps {s : State} {a : Act} {k : Kernel} (h : KernelMove s a k)
    (hget : s.gcloud = .get → ∀ env, a ≠ .gcloud env) (hpurge : purges s a = false) :
    s.kernel.Keeps k := by
  cases h with
  | same => exact Kernel.Keeps.refl _
  | connect pos self e _ | put pos self e _ => exact s.kernel.put_keeps pos self e
  | timer => exact s.kernel.putNoWait_keeps _
  | get env hg _ _ | pend env hg _ => exact absurd rfl (hget hg env)
  | purge hp =>
    rw [hpurge] at hp
    cases hp
  | take pos self => exact s.kernel.take_keeps pos self
  | give => exact ⟨List.Subset.refl _, List.Sublist.refl _, fun _ => rfl⟩
  | timeout t _ hk => exact Kernel.timeout_keeps hk
  | drop => exact s.kernel.drop_keeps .mqtt

theorem outside_keeps {s s' : State} {a : Act} (ha : a.outside = true)
    (h : step s a = some s') : s.kernel.Keeps s'.kernel := by
  refine (step_move h).keeps ?_ ?_
  · rintro _ env rfl
    cases ha
  · cases a with
    | gcloud env | mqtt env => cases ha
    | start n c | app n env | timer | timeout t => rfl

theorem step_queue {s s' : State} {a : Act} (h : step s a = some s') : QueueEffect s a s' := by
  by_cases hget : s.gcloud = .get ∧ ∃ env, a = .gcloud env
  · obtain ⟨hg, env, rfl⟩ := hget
    simp only [step, gcloudStep, hg] at h
    split at h <;> rename_i hk <;> cases h
    · exact .get env hg _ hk
    · exact .pend env hg hk
  · cases hpurge : purges s a with
    | false =>
      exact .keeps ((step_move h).keeps (fun hg env ha => hget ⟨hg, env, ha⟩) hpurge)
    | true =>
      obtain ⟨env, c, b, rfl, hg, rfl⟩ | ⟨env, c, rev, b, rfl, hm, rfl⟩ := purge_cases hpurge h
      · exact .gcloudPurge env c b hg
      · exact .mqttPurge env c rev b hm

/-- Nobody but the gcloud thread waits for a command, and a command of an API call other
than gcloud_connect is no CONNECT. -/
structure QueueInv (s : State) : Prop where
  reads : s.kernel.msgq.readers = [] ∨
    s.kernel.msgq.readers = [.gcloud] ∧ s.gcloud = .wait
  apps : ∀ n e, s.app n = .check e ∨ s.app n = .put e ∨ s.app n = .putWait e →
    e.isConnect = false

theorem queueInv_start : QueueInv State.start :=
  ⟨Or.inl rfl, by rintro n e (h | h | h) <;> cases h⟩

theorem QueueInv.readers_nil {s : State} (h : QueueInv s) (hg : s.gcloud ≠ .wait) :
    s.kernel.msgq.readers = [] := h.reads.resolve_right fun hr => hg hr.2

/-- The gcloud thread steps only while it is not waiting for a command. -/
theorem QueueInv.readers_nil_of_step {s s' : State} {env : Env} (h : QueueInv s)
    (hstep : gcloudStep env s = some s') : s.kernel.msgq.readers = [] := by
  by_cases hg : s.gcloud = .wait
  · rcases h.reads with hnil | ⟨hr, _⟩
    · exact hnil
    · simp [gcloudStep, hg, hr] at hstep
  · exact h.readers_nil hg

/-- What a step can do to the place of an application thread outside gcloud_connect. -/
theorem apps_step {s s' : State} {a : Act} (h : step s a = some s')
    (happs : ∀ n e, s.app n = .check e ∨ s.app n = .put e ∨ s.app n = .putWait e →
      e.isConnect = false) :
    ∀ n e, s'.app n = .check e ∨ s'.app n = .put e ∨ s'.app n = .putWait e →
      e.isConnect = false := by
  have hupdate : ∀ m pc, (∀ e, pc = .check e ∨ pc = .put e ∨ pc = .putWait e →
    e.isConnect = false) →
      ∀ n e, Function.update s.app m pc n = .check e ∨ Function.update s.app m pc n = .put e ∨
        Function.update s.app m pc n = .putWait e → e.isConnect = false := by
    intro m pc hpc n e he
    by_cases hn : n = m
    · subst hn
      rw [Function.update_self] at he
      exact hpc e he
    · rw [Function.update_of_ne hn] at he
      exact happs n e he
  have hquiet : ∀ pc : AppPc, (∀ e, pc ≠ .check e ∧ pc ≠ .put e ∧ pc ≠ .putWait e) →
      ∀ e, pc = .check e ∨ pc = .put e ∨ pc = .putWait e → e.isConnect = false := by
    rintro pc hpc e (hc | hp | hw)
    · exact absurd hc (hpc e).1
    · exact absurd hp (hpc e).2.1
    · exact absurd hw (hpc e).2.2
  cases a with
  | start m c =>
    simp only [step, apiStart] at h
    split at h <;> cases h
    refine hupdate m _ ?_
    intro e he
    cases c with
    | connect => rcases he with he | he | he <;> cases he
    | disconnect | publish msg | publishState msg =>
      rcases he with he | he | he <;> cases he
      rfl
  | app m env =>
    simp only [step, appStep] at h
    split at h
    · cases h
    · cases h
      exact hupdate m _ (hquiet _ fun _ => ⟨(by rintro ⟨⟩), (by rintro ⟨⟩), (by rintro ⟨⟩)⟩)
    · split at h <;> cases h
      exact hupdate m _ (hquiet _ fun _ => ⟨(by rintro ⟨⟩), (by rintro ⟨⟩), (by rintro ⟨⟩)⟩)
    · rename_i e' hcheck
      cases h
      refine hupdate m _ ?_
      intro e he
      split at he
      · rcases he with he | he | he <;> cases he
        exact happs m _ (Or.inl hcheck)
      · rcases he with he | he | he <;> cases he
    · rename_i e' hput
      split at h <;> cases h
      · exact hupdate m _ (hquiet _ fun _ => ⟨(by rintro ⟨⟩), (by rintro ⟨⟩), (by rintro ⟨⟩)⟩)
      · refine hupdate m _ ?_
        intro e he
        rcases he with he | he | he <;> cases he
        exact happs m _ (Or.inr (Or.inl hput))
    · split at h <;> cases h
      exact hupdate m _ (hquiet _ fun _ => ⟨(by rintro ⟨⟩), (by rintro ⟨⟩), (by rintro ⟨⟩)⟩)
  | gcloud env =>
    rw [(gcloudStep_frame h).app]
    exact happs
  | mqtt env =>
    rw [(mqttStep_api h).app]
    exact happs
  | timer =>
    simp only [step] at h
    split at h <;> cases h
    exact happs
  | timeout t =>
    simp only [step, Option.map_eq_some_iff] at h
    obtain ⟨k, _, rfl⟩ := h
    exact happs

/-- Without a waiting reader a step of another thread leaves the gcloud thread, its
variable `event` and the absence of a reader alone. -/
theorem event_of_other {s s' : State} {a : Act} (ha : ∀ env, a ≠ .gcloud env)
    (h : step s a = some s') (hnil : s.kernel.msgq.readers = []) :
    s'.kernel.event = s.kernel.event ∧ s'.kernel.msgq.readers = [] := by
  cases step_queue h with
  | keeps hk => exact ⟨hk.event hnil, List.sublist_nil.mp (hnil ▸ hk.readers)⟩
  | get env _ k _ => exact absurd rfl (ha env)
  | pend env _ _ => exact absurd rfl (ha env)
  | gcloudPurge env c b _ => exact absurd rfl (ha env)
  | mqttPurge env c rev b _ => exact ⟨rfl, rfl⟩

theorem gcloud_of_other {s s' : State} {a : Act} (ha : ∀ env, a ≠ .gcloud env)
    (h : step s a = some s') : s'.gcloud = s.gcloud := by
  cases a with
  | gcloud env => exact absurd rfl (ha env)
  | mqtt env => exact mqttStep_gcloud h
  | start n c | app n env | timer | timeout t => exact (outside_frame rfl h).gcloud

theorem queueInv_step (s : State) (a : Act) (s' : State) (h : QueueInv s)
    (hstep : machine.step s a = some s') : QueueInv s' := by
  change step s a = some s' at hstep
  refine ⟨?_, apps_step hstep h.apps⟩
  by_cases ha : ∃ env, a = .gcloud env
  · obtain ⟨env, rfl⟩ := ha
    have hnil := h.readers_nil_of_step hstep
    cases step_queue hstep with
    | keeps hk => exact Or.inl (List.sublist_nil.mp (hnil ▸ hk.readers))
    | get _ _ k hk =>
      obtain ⟨_, _, _, _, hreaders⟩ := Kernel.get_cases hk
      exact Or.inl hreaders
    | pend _ _ hk =>
      have hempty := Kernel.get_none hk
      refine Or.inr ⟨?_, rfl⟩
      simp [Kernel.pendRead, MsgQ.pendRead, hempty, hnil, Semaphores.enqueue_nil]
    | gcloudPurge _ c b _ => exact Or.inl rfl
  · have hother : ∀ env, a ≠ .gcloud env := fun env he => ha ⟨env, he⟩
    rw [gcloud_of_other hother hstep]
    rcases h.reads with hnil | ⟨hr, hg⟩
    · exact Or.inl (event_of_other hother hstep hnil).2
    · cases step_queue hstep with
      | keeps hk =>
        have hsub := hk.readers
        rw [hr] at hsub
        rcases List.sublist_singleton.mp hsub with hnil | hone
        · exact Or.inl hnil
        · exact Or.inr ⟨hone, hg⟩
      | get env _ k _ | pend env _ _ | gcloudPurge env c b _ => exact absurd rfl (hother env)
      | mqttPurge env c rev b _ => exact Or.inl rfl

theorem connStep_feeds {P : GcloudEvent → Prop} {self : Tid} {origin : Option ℕ} {env : Env}
    {p p' : ConnPc} {k k' : Kernel} (h : connStep self origin env p k = some (p', k'))
    (hall : k.msgq.All P) (hput : p = .put → P (.connect origin)) : Kernel.Feeds P k k' := by
  rw [connStep_kernel h]
  cases p with
  | put => exact Kernel.put_feeds env.pos self hall (hput rfl)
  | take err => exact Kernel.take_feeds env.pos self hall
  | putWait | takeWait err | ret err => exact Kernel.Feeds.refl hall

/-- Every command that a step puts into the queue is one with the property `P`, as soon
as those of gcloud_connect are. -/
theorem step_feeds {P : GcloudEvent → Prop} {s s' : State} {a : Act} (h : step s a = some s')
    (hpurge : purges s a = false) (hq : QueueInv s) (hall : s.kernel.msgq.All P)
    (hP : ∀ e, e.isConnect = false → P e)
    (happ : ∀ n env call, a = .app n env → s.app n = .connect call .put →
      P (.connect (some call)))
    (hmod : ∀ env c b, a = .gcloud env → s.gcloud = .call c (.disc b (.connect .put)) →
      P (.connect none)) : Kernel.Feeds P s.kernel s'.kernel := by
  have hconnect : ∀ e, connectPut s a = some e → P e := by
    intro e he
    cases a with
    | app n env =>
      simp only [connectPut] at he
      split at he <;> cases he
      rename_i call hpc
      exact happ n env call rfl hpc
    | gcloud env =>
      simp only [connectPut] at he
      split at he <;> cases he
      rename_i c b hg
      exact hmod env c b rfl hg
    | start n c | mqtt env | timer | timeout t => cases he
  have hmove := step_move h
  generalize s'.kernel = k at hmove
  cases hmove with
  | same => exact Kernel.Feeds.refl hall
  | connect pos self e he => exact Kernel.put_feeds pos self hall (hconnect e he)
  | put pos self e he =>
    have hquiet : e.isConnect = false := by
      rcases he with he | ⟨n, hpc⟩
      · exact he
      · exact hq.apps n e (Or.inr (Or.inl hpc))
    exact Kernel.put_feeds pos self hall (hP e hquiet)
  | timer => exact Kernel.putNoWait_feeds hall (hP _ rfl)
  | get env hg _ hk => exact Kernel.get_feeds hall hk
  | pend env hg hk =>
    exact Kernel.pendRead_feeds env.pos hall (hq.readers_nil (by rw [hg]; rintro ⟨⟩))
  | purge hp =>
    rw [hpurge] at hp
    cases hp
  | take pos self => exact Kernel.take_feeds pos self hall
  | give env => exact Kernel.give_feeds hall
  | timeout t _ hk => exact Kernel.timeout_feeds hall hk
  | drop => exact Kernel.drop_feeds hall

end NcsProjects.Gcloud
