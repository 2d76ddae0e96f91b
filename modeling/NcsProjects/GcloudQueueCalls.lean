import NcsProjects.GcloudKernelMoves
import NcsProjects.QueueCalls

/-!
The call that each step makes on gcloud_msgq, as a value computed from the state before
the step. The queue and the variable `event` of gcloud_thread follow these calls.
-/
namespace NcsProjects.Gcloud

open MessageQueues TransitionRuns

/-- What a call on the kernel objects is for the queue. A timeout of the semaphore and the
calls on it leave the queue alone. -/
def KernelCall.onQueue (k : Kernel) : KernelCall → QueueCall Tid GcloudEvent
  | .put pos self e => .put pos self e
  | .putNoWait e => .putNoWait e
  | .get pos => .get pos .gcloud
  | .purge => .purge
  | .drop t => .cancel t
  | .timeout t => if t ∈ k.msgq.writers.map Prod.fst then .cancel t else .quiet
  | .none | .take _ _ | .give => .quiet

def queueCall (s : State) (a : Act) : QueueCall Tid GcloudEvent :=
  (kernelCall s a).onQueue s.kernel

namespace Kernel

/-- The kernel objects have seen the call on the queue. -/
structure Follows (k : Kernel) (c : QueueCall Tid GcloudEvent) (k' : Kernel) : Prop where
  msgq : k'.msgq = (c.exec k.msgq).1
  event : k'.event = (c.exec k.msgq).2.or k.event

theorem Follows.quiet {k k' : Kernel} (hq : k'.msgq = k.msgq) (he : k'.event = k.event) :
    k.Follows .quiet k' := ⟨hq, he⟩

theorem put_follows (k : Kernel) (pos : ℕ) (self : Tid) (e : GcloudEvent) :
    k.Follows (.put pos self e) (k.put pos self e).2 := by
  unfold put
  split <;> rename_i hput
  · exact ⟨by simp [QueueCall.exec, hput], by simp [QueueCall.exec, hput]⟩
  · exact ⟨by simp [QueueCall.exec, hput], by simp [QueueCall.exec, hput]⟩
  · exact ⟨by simp [QueueCall.exec, hput], by simp [QueueCall.exec, hput]⟩

theorem putNoWait_follows (k : Kernel) (e : GcloudEvent) :
    k.Follows (.putNoWait e) (k.putNoWait e) := by
  unfold putNoWait
  split <;> rename_i hput
  · exact ⟨by simp [QueueCall.exec, hput], by simp [QueueCall.exec, hput]⟩
  · exact ⟨by simp [QueueCall.exec, hput], by simp [QueueCall.exec, hput]⟩
  · exact ⟨by simp [QueueCall.exec, hput], by simp [QueueCall.exec, hput]⟩

theorem get_follows (k : Kernel) (pos : ℕ) :
    k.Follows (.get pos .gcloud) (k.get.getD (k.pendRead pos)) := by
  unfold get
  split <;> rename_i hget
  · exact ⟨by simp [QueueCall.exec, hget, pendRead], by simp [QueueCall.exec, hget, pendRead]⟩
  · exact ⟨by simp [QueueCall.exec, hget], by simp [QueueCall.exec, hget]⟩
  · exact ⟨by simp [QueueCall.exec, hget], by simp [QueueCall.exec, hget]⟩

/-- A get that finds a command delivers it. -/
theorem get_isSome (k : Kernel) (pos : ℕ) :
    k.get.isSome = (QueueCall.exec k.msgq (.get pos .gcloud)).2.isSome := by
  unfold get
  split <;> rename_i hget
  · simp [QueueCall.exec, hget]
  · simp [QueueCall.exec, hget]
  · simp [QueueCall.exec, hget]

theorem purge_follows (k : Kernel) : k.Follows .purge k.purge := ⟨rfl, rfl⟩

theorem drop_follows (k : Kernel) (t : Tid) : k.Follows (.cancel t) (k.drop t) := ⟨rfl, rfl⟩

theorem take_follows (k : Kernel) (pos : ℕ) (self : Tid) :
    k.Follows .quiet (k.take pos self).2 := by
  unfold take
  split <;> exact Follows.quiet rfl rfl

theorem timeout_follows (k : Kernel) (t : Tid) :
    k.Follows (if t ∈ k.msgq.writers.map Prod.fst then .cancel t else .quiet)
      ((k.timeout t).getD k) := by
  unfold timeout
  by_cases hmem : t ∈ k.msgq.writers.map Prod.fst
  · rw [if_pos hmem, if_pos hmem]
    exact ⟨rfl, rfl⟩
  · rw [if_neg hmem, if_neg hmem]
    split <;> exact Follows.quiet rfl rfl

end Kernel

theorem KernelCall.exec_follows (c : KernelCall) (k : Kernel) :
    k.Follows (c.onQueue k) (c.exec k) := by
  cases c with
  | none | give => exact Kernel.Follows.quiet rfl rfl
  | put pos self e => exact k.put_follows pos self e
  | putNoWait e => exact k.putNoWait_follows e
  | get pos => exact k.get_follows pos
  | purge => exact k.purge_follows
  | take pos self => exact k.take_follows pos self
  | timeout t => exact k.timeout_follows t
  | drop t => exact k.drop_follows t

/-- Every step makes the call on the queue that it announces. -/
theorem step_follows {s s' : State} {a : Act} (h : step s a = some s') :
    s.kernel.Follows (queueCall s a) s'.kernel := by
  rw [step_kernel h]
  exact (kernelCall s a).exec_follows s.kernel

theorem connCall_cancel {self : Tid} {origin : Option ℕ} {env : Env} {p : ConnPc} {k : Kernel}
    {u : Tid} : (connCall self origin env p).onQueue k ≠ .cancel u := by
  cases p <;> rintro ⟨⟩

/-- A thread is taken out of the wait queue by its timeout, or when it is aborted. -/
theorem cancels_of_step {s s' : State} {a : Act} {u : Tid} (h : step s a = some s')
    (hcall : queueCall s a = .cancel u) :
    a = .timeout u ∧ u ∈ s.kernel.msgq.writers.map Prod.fst ∨
      u = .mqtt ∧ s'.mqtt = .dead := by
  cases a with
  | start n c | timer => cases hcall
  | app n env =>
    simp only [queueCall, kernelCall] at hcall
    split at hcall
    · exact absurd hcall connCall_cancel
    · cases hcall
    · cases hcall
  | gcloud env =>
    simp only [queueCall, kernelCall] at hcall
    split at hcall
    · cases hcall
    · cases hcall
    · rename_i hg
      simp only [step, gcloudStep, hg] at h
      cases h
      cases hcall
      exact Or.inr ⟨rfl, rfl⟩
    · exact absurd hcall connCall_cancel
    · cases hcall
  | mqtt env =>
    simp only [queueCall, kernelCall] at hcall
    split at hcall
    · cases hcall
    · cases hcall
    · cases hcall
    · rename_i hm
      simp only [step, mqttStep, hm] at h
      cases h
      cases hcall
      exact Or.inr ⟨rfl, rfl⟩
    · cases hcall
  | timeout v =>
    simp only [queueCall, kernelCall, KernelCall.onQueue] at hcall
    split at hcall <;> cases hcall
    exact Or.inl ⟨rfl, ‹_›⟩

theorem queueCall_purge {s : State} {a : Act} (h : queueCall s a = .purge) : purges s a = true := by
  cases a with
  | start n c | timer => cases h
  | app n env =>
    simp only [queueCall, kernelCall] at h
    split at h
    · rename_i p _
      cases p <;> cases h
    · cases h
    · cases h
  | gcloud env =>
    simp only [queueCall, kernelCall] at h
    split at h
    · cases h
    · rename_i hg
      simp only [purges, hg]
    · cases h
    · rename_i p _
      cases p <;> cases h
    · cases h
  | mqtt env =>
    simp only [queueCall, kernelCall] at h
    split at h
    · cases h
    · cases h
    · rename_i hm
      simp only [purges, hm]
    · cases h
    · cases h
  | timeout v =>
    simp only [queueCall, kernelCall, KernelCall.onQueue] at h
    split at h <;> cases h

/-- gcloud_thread, which reads, waits for a command. -/
theorem queueCall_waits (s : State) (a : Act) : queueCall s a ≠ .getNoWait := by
  unfold queueCall
  cases kernelCall s a with
  | timeout t =>
    simp only [KernelCall.onQueue]
    split <;> rintro ⟨⟩
  | put pos self e | putNoWait e | get pos | purge | drop t | none | take pos t | give =>
    rintro ⟨⟩

/-- Only the gcloud thread reads. -/
theorem queueCall_get {s : State} {a : Act} {pos : ℕ} {self : Tid}
    (h : queueCall s a = .get pos self) : (∃ env, a = .gcloud env) ∧ s.gcloud = .get := by
  cases a with
  | start n c | timer => cases h
  | app n env =>
    simp only [queueCall, kernelCall] at h
    split at h
    · rename_i p _
      cases p <;> cases h
    · cases h
    · cases h
  | gcloud env =>
    simp only [queueCall, kernelCall] at h
    split at h
    · rename_i hg
      exact ⟨⟨env, rfl⟩, hg⟩
    · cases h
    · cases h
    · rename_i p _
      cases p <;> cases h
    · cases h
  | mqtt env =>
    simp only [queueCall, kernelCall] at h
    split at h <;> cases h
  | timeout v =>
    simp only [queueCall, kernelCall, KernelCall.onQueue] at h
    split at h <;> cases h

/-- What is delivered to the gcloud thread out of a queue of marked commands is what the
kernel delivers, with its mark. -/
theorem marked_exec {N : Type*} {s : State} {a : Act} {mark : GcloudEvent → GcloudEvent × N}
    {queue : MsgQ Tid (GcloudEvent × N) nMessages} (hmark : ∀ e, (mark e).1 = e)
    (hqueue : queue.map Prod.fst = s.kernel.msgq) :
    (queueCall s a).exec s.kernel.msgq =
      ((((queueCall s a).map mark).exec queue).1.map Prod.fst,
        (((queueCall s a).map mark).exec queue).2.map Prod.fst) := by
  have hexec := QueueCall.exec_map Prod.fst ((queueCall s a).map mark) queue
  rwa [QueueCall.map_map_of_inverse hmark, hqueue] at hexec

/-- A queue of marked commands follows the queue of the kernel. -/
theorem marked_follows {N : Type*} {s s' : State} {a : Act} {mark : GcloudEvent → GcloudEvent × N}
    {queue : MsgQ Tid (GcloudEvent × N) nMessages} {event : Option (GcloudEvent × N)}
    (h : step s a = some s') (hmark : ∀ e, (mark e).1 = e)
    (hqueue : queue.map Prod.fst = s.kernel.msgq) (hevent : event.map Prod.fst = s.kernel.event) :
    (((queueCall s a).map mark).exec queue).1.map Prod.fst = s'.kernel.msgq ∧
      ((((queueCall s a).map mark).exec queue).2.or event).map Prod.fst = s'.kernel.event := by
  have hf := step_follows h
  have hexec := marked_exec (a := a) hmark hqueue
  constructor
  · rw [hf.msgq, hexec]
  · rw [hf.event, hexec, ← hevent]
    exact Option.map_or

end NcsProjects.Gcloud
