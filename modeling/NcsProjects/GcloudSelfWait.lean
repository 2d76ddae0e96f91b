import NcsProjects.GcloudCommands

/-!
The only reader of gcloud_msgq in gcloud_connect. The handler of a loss that runs on the
gcloud thread calls gcloud_connect there, which queues a CONNECT and waits for the
CONNACK. Nobody else reads the queue, so the thread does not come back from a wait
before its timeout: it gets through only with room in the queue and a token of an
earlier CONNACK.
-/
namespace NcsProjects.Gcloud

open Semaphores MessageQueues TransitionRuns

/-- The gcloud thread is blocked in gcloud_connect and is itself the one to go on: for
room in its queue, or for a CONNACK whose CONNECT is still queued. -/
inductive WaitsForItself (s : State) : Prop
  | put (a : Activation) (hg : s.gcloud.handler = some (a, .connect .putWait))
      (hwaits : ¬ s.kernel.putDone .gcloud)
  | take (a : Activation) (err : ℤ) (hg : s.gcloud.handler = some (a, .connect (.takeWait err)))
      (hwaits : .gcloud ∈ s.kernel.gcConnectedSem.waiters)
      (hconnect : .connect none ∈ s.kernel.msgq.buf)

/-- gcloud_connect on the gcloud thread finds room for its command, and a token that an
earlier CONNACK has left. -/
def selfServed (s : State) : Act → Bool
  | .gcloud _ =>
    match s.gcloud.handler with
    | some (_, .connect .put) => s.kernel.msgq.buf.length < nMessages
    | some (_, .connect (.take _)) => 0 < s.kernel.gcConnectedSem.count
    | _ => true
  | _ => true

/-- While gcloud_connect is under way on the gcloud thread, the mqtt thread is gone, and
from the put on the CONNECT is in the queue. -/
structure ConsumerInv (s : State) : Prop where
  queue : QueueInv s
  gone : ∀ a p, s.gcloud.handler = some (a, .connect p) → s.mqtt.phase = .gone
  awake : ∀ a, s.gcloud.handler ≠ some (a, .connect .putWait) ∧
    ∀ err, s.gcloud.handler ≠ some (a, .connect (.takeWait err))
  queued : ∀ a err, s.gcloud.handler = some (a, .connect (.take err)) →
    .connect none ∈ s.kernel.msgq.buf

theorem consumerInv_start : ConsumerInv State.start :=
  ⟨queueInv_start, (by rintro a p ⟨⟩), fun _ => ⟨(by rintro ⟨⟩), (by rintro err ⟨⟩)⟩,
    (by rintro a err ⟨⟩)⟩

theorem ConsumerInv.not_waits {s : State} (h : ConsumerInv s) : ¬ WaitsForItself s := by
  rintro (⟨a, hg, _⟩ | ⟨a, err, hg, _, _⟩)
  · exact (h.awake a).1 hg
  · exact (h.awake a).2 err hg

theorem not_wait_of_handler {pc : GcloudPc} {x : Activation × DiscPc} (h : pc.handler = some x) :
    pc ≠ .wait := by
  rintro rfl
  cases h

theorem consumerInv_gcloud {env : Env} {s s' : State} (h : ConsumerInv s)
    (hserved : selfServed s (.gcloud env) = true) (hstep : gcloudStep env s = some s') :
    ConsumerInv s' := by
  refine ⟨queueInv_step s (.gcloud env) s' h.queue hstep, ?_, ?_, ?_⟩
  · intro a p hp
    rcases gcloudStep_connecting hstep hp with ⟨_, _, hdead⟩ | ⟨hm, q, hq, _⟩
    · rw [hdead]
      rfl
    · rw [hm]
      exact h.gone a q hq
  · intro a
    constructor
    · intro hp
      rcases gcloudStep_connecting hstep hp with ⟨_, hput, _⟩ | ⟨_, q, hq, hconn⟩
      · cases hput
      · cases q with
        | put =>
          have hroom : s.kernel.msgq.buf.length < nMessages := by
            simpa [selfServed, hq] using hserved
          obtain ⟨htake, _⟩ := connStep_put_of_room hroom hconn
          cases htake
        | putWait => exact (h.awake a).1 hq
        | take err | takeWait err =>
          simp only [connStep] at hconn
          split at hconn <;> cases hconn
        | ret err => cases hconn
    · intro err hp
      rcases gcloudStep_connecting hstep hp with ⟨_, hput, _⟩ | ⟨_, q, hq, hconn⟩
      · cases hput
      · cases q with
        | take err' =>
          have htoken : 0 < s.kernel.gcConnectedSem.count := by
            simpa [selfServed, hq] using hserved
          obtain ⟨g, rest, htokens⟩ := List.exists_cons_of_length_pos htoken
          obtain ⟨sem, htake, _⟩ := s.kernel.gcConnectedSem.take_of_token env.pos .gcloud htokens
          simp [connStep, Kernel.take, htake] at hconn
        | takeWait err' => exact (h.awake a).2 err' hq
        | put | putWait =>
          simp only [connStep] at hconn
          split at hconn <;> cases hconn
        | ret err' => cases hconn
  · intro a err hp
    rcases gcloudStep_connecting hstep hp with ⟨_, hput, _⟩ | ⟨_, q, hq, hconn⟩
    · cases hput
    · cases q with
      | put =>
        have hreaders := h.queue.readers_nil (not_wait_of_handler hq)
        simp only [connStep] at hconn
        split at hconn <;> rename_i heq <;> cases hconn
        rcases Kernel.put_cases heq with hmem | ⟨_, r, hr⟩
        · exact hmem
        · rw [hreaders] at hr
          cases hr
      | putWait => exact absurd hq (h.awake a).1
      | take err' | takeWait err' =>
        simp only [connStep] at hconn
        split at hconn <;> cases hconn
      | ret err' => cases hconn

theorem consumerInv_step (s : State) (a : Act) (s' : State) (h : ConsumerInv s)
    (hserved : selfServed s a = true) (hstep : step s a = some s') : ConsumerInv s' := by
  have hqueue := queueInv_step s a s' h.queue hstep
  cases a with
  | gcloud env => exact consumerInv_gcloud h hserved hstep
  | mqtt env =>
    have hg := mqttStep_gcloud hstep
    have hnone : ∀ a p, s'.gcloud.handler ≠ some (a, .connect p) := by
      intro a p hp
      rw [hg] at hp
      exact phase_of_mqttStep hstep (h.gone a p hp)
    exact ⟨hqueue, fun a p hp => absurd hp (hnone a p),
      fun a => ⟨hnone a _, fun _ => hnone a _⟩, fun a err hp => absurd hp (hnone a _)⟩
  | start n c | app n env | timer | timeout t =>
    have hf := outside_frame rfl hstep
    have hbuf := (outside_keeps rfl hstep).buf
    refine ⟨hqueue, ?_, ?_, ?_⟩
    · rw [hf.gcloud, hf.mqtt]
      exact h.gone
    · rw [hf.gcloud]
      exact h.awake
    · rw [hf.gcloud]
      exact fun a err hp => hbuf (h.queued a err hp)

theorem call_of_handler {pc : GcloudPc} {a : Activation} {p : DiscPc}
    (h : pc.handler = some (a, p)) : ∃ c, pc = .call c (.disc a p) := by
  cases pc with
  | get | wait | dispatch | clientInit | setConnecting | create | stopTimer | clearConnected
  | markConnecting => cases h
  | call c q =>
    cases q with
    | disc b r =>
      cases h
      exact ⟨c, rfl⟩
    | lock | lockWait | body | relock ok | relockWait ok | unlock ok => cases h

/-- Without room the put waits, and without a token the take does. -/
theorem waits_of_not_served (s : State) (a : Act) (s' : State) (h : ConsumerInv s)
    (hserved : ¬ selfServed s a = true) (hstep : step s a = some s') : WaitsForItself s' := by
  cases a with
  | start n c | app n env | mqtt env | timer | timeout t => exact absurd rfl hserved
  | gcloud env =>
    simp only [selfServed] at hserved
    split at hserved
    · rename_i b hp
      obtain ⟨c, hg⟩ := call_of_handler hp
      have hroom : ¬ s.kernel.msgq.buf.length < nMessages := by simpa using hserved
      have hfull := MsgQ.put_of_no_room (m := GcloudEvent.connect none) hroom
      simp only [step, gcloudStep, hg, gcloudCall, gcloudDisc, connStep, Kernel.put, hfull,
        Option.some.injEq] at hstep
      subst hstep
      refine .put b rfl ?_
      have hmem : (Tid.gcloud, GcloudEvent.connect none) ∈
          (s.kernel.msgq.pendWrite env.pos .gcloud (.connect none)).writers :=
        MsgQ.mem_pendWrite hroom
      exact fun hdone => hdone (List.mem_map.mpr ⟨_, hmem, rfl⟩)
    · rename_i b err hp
      obtain ⟨c, hg⟩ := call_of_handler hp
      have hcount : ¬ 0 < s.kernel.gcConnectedSem.count := by simpa using hserved
      have hnil := List.eq_nil_of_length_eq_zero (Nat.eq_zero_of_not_pos hcount)
      obtain ⟨sem, htake, _, hwaiters⟩ :=
        s.kernel.gcConnectedSem.take_of_empty env.pos .gcloud hnil
      simp only [step, gcloudStep, hg, gcloudCall, gcloudDisc, connStep, Kernel.take, htake,
        Option.some.injEq] at hstep
      subst hstep
      refine .take b err rfl ?_ (h.queued b err hp)
      change .gcloud ∈ sem.waiters
      simp [hwaiters]
    · exact absurd rfl hserved

/-- The gcloud thread never waits for itself in a run if and only if each gcloud_connect
that it makes in the run finds room for its command and a token. -/
theorem never_waits_for_itself_iff (actions : List Act) :
    Throughout machine (fun s => ¬ WaitsForItself s) machine.init actions ↔
      EachStep machine (fun s a => selfServed s a = true) machine.init actions :=
  throughout_iff_eachStep (fun _ h => h.not_waits) consumerInv_step
    (fun s a t h hserved hstep => not_not_intro (waits_of_not_served s a t h hserved hstep))
    actions consumerInv_start

/-- The reconnect timer fires in a session that the application has waited for. -/
def reconnectTimesOut : List Act :=
  handshake ++ List.replicate 2 (.app 0 {}) ++ List.replicate 5 (.gcloud {}) ++ [.timer] ++
    List.replicate 13 (.gcloud {})

theorem waits_for_itself : ¬ ∀ s, Reachable machine s → ¬ WaitsForItself s := by
  intro hall
  obtain ⟨s, hreach, hs⟩ := exists_reachable_of_exec (M := machine)
    (p := fun s => s.gcloud.handler.any (fun h => h.2 == .connect (.takeWait 0)) &&
      s.kernel.gcConnectedSem.waiters == [.gcloud] && s.kernel.msgq.buf == [.connect none])
    reconnectTimesOut (by decide)
  simp only [Bool.and_eq_true, beq_iff_eq, Option.any_eq_true] at hs
  obtain ⟨⟨⟨⟨a, p⟩, hhandler, rfl⟩, hwaiters⟩, hbuf⟩ := hs
  exact hall s hreach (.take a 0 hhandler (by simp [hwaiters]) (by simp [hbuf]))

end NcsProjects.Gcloud
