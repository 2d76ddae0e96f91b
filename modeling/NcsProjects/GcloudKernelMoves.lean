import NcsProjects.GcloudEffects

/-!
The kernel calls that a step makes, said once. A step makes at most one call on the
command queue or on the semaphore of gcloud_connect, which can be read off the state
before it, and only three places put a CONNECT command or take something out of the
queue.
-/
namespace NcsProjects.Gcloud

open Semaphores MessageQueues TransitionRuns

/-- The CONNECT command that the step gives to k_msgq_put. -/
def connectPut (s : State) : Act → Option GcloudEvent
  | .app n _ =>
    match s.app n with
    | .connect call .put => some (.connect (some call))
    | _ => none
  | .gcloud _ =>
    match s.gcloud with
    | .call _ (.disc _ (.connect .put)) => some (.connect none)
    | _ => none
  | _ => none

/-- The step is the purge in the handler of a loss. -/
def purges (s : State) : Act → Bool
  | .gcloud _ =>
    match s.gcloud with
    | .call _ (.disc _ .purge) => true
    | _ => false
  | .mqtt _ =>
    match s.mqtt with
    | .call _ _ (.disc _ .purge) => true
    | _ => false
  | _ => false

/-- The call of a step. -/
def kernelCall (s : State) : Act → KernelCall
  | .start _ _ => .none
  | .app n env =>
    match s.app n with
    | .connect call p => connCall (.app n) (some call) env p
    | .put e => .put env.pos (.app n) e
    | _ => .none
  | .gcloud env =>
    match s.gcloud with
    | .get => .get env.pos
    | .call _ (.disc _ .purge) => .purge
    | .call _ (.disc _ .abort) => .drop .mqtt
    | .call _ (.disc _ (.connect p)) => connCall .gcloud none env p
    | _ => .none
  | .mqtt env =>
    match s.mqtt with
    | .connack _ .give => .give
    | .connack _ .putSubscribe => .put env.pos .mqtt .subscribe
    | .call _ _ (.disc _ .purge) => .purge
    | .call _ _ (.disc _ .abort) => .drop .mqtt
    | _ => .none
  | .timer => .putNoWait .reconnectTimeout
  | .timeout t => .timeout t

theorem appStep_kernel {n : ℕ} {env : Env} {s s' : State} (h : appStep n env s = some s') :
    s'.kernel = (kernelCall s (.app n env)).exec s.kernel := by
  unfold appStep at h
  split at h
  · cases h
  · rename_i hpc
    cases h
    simp only [kernelCall, hpc]
    rfl
  · rename_i call p _ hpc
    split at h
    · cases h
    · rename_i hconn
      cases h
      simp only [kernelCall, hpc]
      exact connStep_kernel hconn
  · rename_i hpc
    cases h
    simp only [kernelCall, hpc]
    rfl
  · rename_i e hpc
    simp only [kernelCall, hpc]
    split at h <;> rename_i heq <;> cases h <;> simp only [KernelCall.exec, heq]
  · rename_i hpc
    simp only [kernelCall, hpc]
    split at h <;> cases h
    rfl

theorem gcloudStep_kernel {env : Env} {s s' : State} (h : gcloudStep env s = some s') :
    s'.kernel = (kernelCall s (.gcloud env)).exec s.kernel := by
  cases hg : s.gcloud with
  | get =>
    simp only [gcloudStep, hg] at h
    simp only [kernelCall, hg, KernelCall.exec]
    split at h <;> rename_i hget <;> cases h <;> simp only [hget, Option.getD]
  | wait =>
    simp only [gcloudStep, hg] at h
    simp only [kernelCall, hg]
    split at h <;> cases h
    rfl
  | create =>
    obtain ⟨-, rfl⟩ := gcloudStep_create hg h
    simp only [kernelCall, hg]
    rfl
  | dispatch | clientInit | setConnecting | stopTimer | clearConnected | markConnecting =>
    simp only [gcloudStep, hg, Option.some.injEq] at h
    subst h
    simp only [kernelCall, hg]
    rfl
  | call c p =>
    simp only [gcloudStep, hg] at h
    simp only [kernelCall, hg]
    cases p with
    | lock | lockWait | body | relock ok | relockWait ok =>
      simp only [gcloudCall] at h
      split at h <;> cases h <;> rfl
    | unlock ok =>
      cases h
      rfl
    | disc a q =>
      cases q with
      | purge | stopTimer | leave | abort =>
        cases h
        rfl
      | check =>
        simp only [gcloudCall, gcloudDisc] at h
        split at h <;> cases h <;> rfl
      | connect r =>
        obtain ⟨⟨err, rfl⟩, rfl⟩ | ⟨_, _, hconn, rfl⟩ := gcloudDisc_connect_cases h
        · rfl
        · exact connStep_kernel hconn

theorem mqttStep_kernel {env : Env} {s s' : State} (h : mqttStep env s = some s') :
    s'.kernel = (kernelCall s (.mqtt env)).exec s.kernel := by
  have hnone : kernelCall s (.mqtt env) = .none → s'.kernel = s.kernel →
      s'.kernel = (kernelCall s (.mqtt env)).exec s.kernel := by
    intro hcall hk
    rw [hcall, hk]
    rfl
  cases hm : s.mqtt with
  | absent | dead | overrun => simp [mqttStep, hm] at h
  | poll =>
    simp only [mqttStep, hm, Option.some.injEq] at h
    subst h
    exact hnone (by simp [kernelCall, hm]) rfl
  | connack rev p =>
    simp only [mqttStep, hm] at h
    simp only [kernelCall, hm]
    cases p with
    | give | setConnected | clearConnecting | startTimer =>
      cases h
      rfl
    | putSubscribe =>
      simp only [connackStep] at h
      split at h <;> rename_i heq <;> cases h <;> simp only [KernelCall.exec, heq]
    | putWait =>
      simp only [connackStep] at h
      split at h <;> cases h
      rfl
  | call c rev p =>
    cases p with
    | disc b q =>
      simp only [mqttStep, hm, mqttCall] at h
      simp only [kernelCall, hm]
      cases q with
      | purge | stopTimer | leave | abort =>
        cases h
        rfl
      | check =>
        simp only [mqttDisc] at h
        split at h <;> cases h <;> rfl
      | connect q => cases h
    | lock | lockWait | body | relock ok | relockWait ok | unlock ok =>
      refine hnone (by simp [kernelCall, hm]) ?_
      cases mqttStep_effect h with
      | calm hcalm _ _ => exact hcalm.kernel
      | exit hcalm _ _ _ => exact hcalm.kernel
      | lose c rev _ _ _ | accept rev _ _ _ _ => rfl
      | connack rev p hm' _ | disc c rev b p hm' _ =>
        rw [hm] at hm'
        cases hm'

/-- Every step makes its call on the kernel objects, and nothing else happens to them. -/
theorem step_kernel {s s' : State} {a : Act} (h : step s a = some s') :
    s'.kernel = (kernelCall s a).exec s.kernel := by
  cases a with
  | start n c =>
    simp only [step, apiStart] at h
    split at h <;> cases h
    rfl
  | app n env => exact appStep_kernel h
  | gcloud env => exact gcloudStep_kernel h
  | mqtt env => exact mqttStep_kernel h
  | timer =>
    simp only [step] at h
    split at h <;> cases h
    rfl
  | timeout t =>
    simp only [step, Option.map_eq_some_iff] at h
    obtain ⟨k, hk, rfl⟩ := h
    simp only [kernelCall, KernelCall.exec, hk, Option.getD]

/-- Everything that a step can do to the kernel objects. -/
inductive KernelMove (s : State) : Act → Kernel → Prop
  | same {a : Act} : KernelMove s a s.kernel
  | connect {a : Act} (pos : ℕ) (self : Tid) (e : GcloudEvent) (h : connectPut s a = some e) :
      KernelMove s a (s.kernel.put pos self e).2
  | put {a : Act} (pos : ℕ) (self : Tid) (e : GcloudEvent)
      (h : e.isConnect = false ∨ ∃ n, s.app n = .put e) :
      KernelMove s a (s.kernel.put pos self e).2
  | timer : KernelMove s .timer (s.kernel.putNoWait .reconnectTimeout)
  | get (env : Env) (hg : s.gcloud = .get) (k : Kernel) (h : s.kernel.get = some k) :
      KernelMove s (.gcloud env) k
  | pend (env : Env) (hg : s.gcloud = .get) (h : s.kernel.get = none) :
      KernelMove s (.gcloud env) (s.kernel.pendRead env.pos)
  | purge {a : Act} (h : purges s a = true) : KernelMove s a s.kernel.purge
  | take {a : Act} (pos : ℕ) (self : Tid) : KernelMove s a (s.kernel.take pos self).2
  | give (env : Env) : KernelMove s (.mqtt env) s.kernel.give
  | timeout (t : Tid) (k : Kernel) (h : s.kernel.timeout t = some k) :
      KernelMove s (.timeout t) k
  | drop {a : Act} : KernelMove s a (s.kernel.drop .mqtt)

/-- A call of gcloud_connect is one on the semaphore, or its put. -/
theorem connCall_move {s : State} {a : Act} {self : Tid} {origin : Option ℕ} {env : Env}
    {p : ConnPc} (hput : p = .put → connectPut s a = some (.connect origin)) :
    KernelMove s a ((connCall self origin env p).exec s.kernel) := by
  cases p with
  | put => exact .connect env.pos self _ (hput rfl)
  | take err => exact .take env.pos self
  | putWait | takeWait err | ret err => exact .same

theorem step_move {s s' : State} {a : Act} (h : step s a = some s') :
    KernelMove s a s'.kernel := by
  rw [step_kernel h]
  cases a with
  | start n c => exact .same
  | app n env =>
    simp only [kernelCall]
    split
    · rename_i call p hpc
      apply connCall_move
      rintro rfl
      simp only [connectPut, hpc]
    · rename_i e hpc
      exact .put env.pos (.app n) e (Or.inr ⟨n, hpc⟩)
    · exact .same
  | gcloud env =>
    simp only [kernelCall]
    split
    · rename_i hg
      simp only [KernelCall.exec]
      cases hget : s.kernel.get with
      | none => exact .pend env hg hget
      | some k => exact .get env hg k hget
    · rename_i hg
      exact .purge (by simp only [purges, hg])
    · exact .drop
    · rename_i hg
      apply connCall_move
      rintro rfl
      simp only [connectPut, hg]
    · exact .same
  | mqtt env =>
    simp only [kernelCall]
    split
    · exact .give env
    · exact .put env.pos .mqtt .subscribe (Or.inl rfl)
    · rename_i hm
      exact .purge (by simp only [purges, hm])
    · exact .drop
    · exact .same
  | timer => exact .timer
  | timeout t =>
    simp only [step, Option.map_eq_some_iff] at h
    obtain ⟨k, hk, _⟩ := h
    simp only [kernelCall, KernelCall.exec, hk, Option.getD]
    exact .timeout t k hk

/-- The two purges. -/
theorem purge_cases {s s' : State} {a : Act} (hp : purges s a = true) (h : step s a = some s') :
    (∃ env c b, a = .gcloud env ∧ s.gcloud = .call c (.disc b .purge) ∧
      s' = { s with kernel := s.kernel.purge, gcloud := .call c (.disc b .check) }) ∨
    ∃ env c rev b, a = .mqtt env ∧ s.mqtt = .call c rev (.disc b .purge) ∧
      s' = { s with kernel := s.kernel.purge, mqtt := .call c rev (.disc b .check) } := by
  cases a with
  | gcloud env =>
    simp only [purges] at hp
    split at hp
    · rename_i c b hg
      simp only [step, gcloudStep, hg] at h
      cases h
      exact Or.inl ⟨env, c, b, rfl, hg, rfl⟩
    · cases hp
  | mqtt env =>
    simp only [purges] at hp
    split at hp
    · rename_i c rev b hm
      simp only [step, mqttStep, hm] at h
      cases h
      exact Or.inr ⟨env, c, rev, b, rfl, hm, rfl⟩
    · cases hp
  | start n c | app n env | timer | timeout t => cases hp

theorem kernel_of_purges {s s' : State} {a : Act} (hp : purges s a = true)
    (h : step s a = some s') : s'.kernel = s.kernel.purge := by
  rcases purge_cases hp h with ⟨_, _, _, _, _, rfl⟩ | ⟨_, _, _, _, _, _, rfl⟩
  · rfl
  · rfl

end NcsProjects.Gcloud
