import NcsProjects.GcloudMutex
import NcsProjects.GcloudCommands
import NcsProjects.GcloudSessions

/-!
One mqtt thread and one socket at a time. The CONNECT branch looks at neither: it
clears the client and comes to k_thread_create whatever there is. The previous thread
has ended and its socket is closed if every CONNECT command is queued while both are
so and no other CONNECT is under way, and if the handler of a loss does not wake the
gcloud thread with an old CONNECT.
-/
namespace NcsProjects.Gcloud

open Semaphores MessageQueues PublishPayload TransitionRuns

/-- What client_init and k_thread_create rely on. -/
structure SoleSession (s : State) : Prop where
  clientInit : s.gcloud = .clientInit → s.mqtt.phase = .gone ∧ s.client.session = .closed
  create : s.gcloud = .create → s.mqtt.phase = .gone

/-- The gcloud thread has a CONNECT in its hands. -/
def HasConnect (s : State) : Prop :=
  s.gcloud = .clientInit ∨ s.gcloud.attempting = true ∨
    (s.gcloud = .dispatch ∨ s.gcloud = .wait ∧ s.kernel.msgq.readers = []) ∧
      s.kernel.event.any GcloudEvent.isConnect = true

instance (s : State) : Decidable (HasConnect s) :=
  inferInstanceAs (Decidable (_ ∨ _ ∨ (_ ∨ _ ∧ _) ∧ _))

/-- The CONNECT commands that are queued or wait to be. -/
def Kernel.load (k : Kernel) : ℕ := k.msgq.pending.countP GcloudEvent.isConnect

def GcloudEvent.weight (e : GcloudEvent) : ℕ := if e.isConnect then 1 else 0

/-- The CONNECT commands under way. -/
def State.underway (s : State) : ℕ := s.kernel.load + if HasConnect s then 1 else 0

/-- There is no session, no mqtt thread and no CONNECT under way. -/
structure Vacant (s : State) : Prop where
  none : s.underway = 0
  gone : s.mqtt.phase = .gone
  closed : s.client.session = .closed

instance (s : State) : Decidable (Vacant s) :=
  decidable_of_iff (s.underway = 0 ∧ s.mqtt.phase = .gone ∧ s.client.session = .closed)
    ⟨fun h => ⟨h.1, h.2.1, h.2.2⟩, fun h => ⟨h.none, h.gone, h.closed⟩⟩

/-- A CONNECT is put only into a vacant module, and the purge on the mqtt thread does
not wake the gcloud thread with the CONNECT that it executed last. -/
def vacantPut (s : State) (a : Act) : Prop :=
  (connectPut s a ≠ none → Vacant s) ∧
    (purges s a = true → s.gcloud = .wait → s.kernel.event.any GcloudEvent.isConnect = false)

instance (s : State) (a : Act) : Decidable (vacantPut s a) :=
  inferInstanceAs (Decidable (_ ∧ _))

/-- A call on the queue by another thread: a message that is put comes in, goes to the
waiting gcloud thread, or waits. -/
structure Fed (n : ℕ) (k k' : Kernel) : Prop where
  load : k'.load ≤ k.load + n
  event : k'.event = k.event ∧ (k.msgq.readers = [.gcloud] → k'.msgq.readers = [.gcloud]) ∨
    k.msgq.readers ≠ [] ∧ ∃ e, k'.event = some e ∧ k'.load + e.weight ≤ k.load + n

section Fed

variable {k k' : Kernel}

theorem Fed.refl (k : Kernel) : Fed 0 k k := ⟨Nat.le_refl _, Or.inl ⟨rfl, id⟩⟩

theorem load_cons_perm {q q' : MsgQ Tid GcloudEvent nMessages} {e : GcloudEvent}
    (h : q'.pending.Perm (e :: q.pending)) :
    q'.pending.countP GcloudEvent.isConnect =
      q.pending.countP GcloudEvent.isConnect + e.weight := by
  rw [h.countP_eq, List.countP_cons]
  rfl

theorem handed_fed {e : GcloudEvent} {r : Tid} {q : MsgQ Tid GcloudEvent nMessages}
    (hput : k.msgq.put e = .handed r q) (m : ℕ) :
    Fed e.weight k { k with msgq := q, event := some e, connects := m } := by
  have hload : q.pending = k.msgq.pending := MsgQ.pending_of_handed hput
  obtain ⟨_, hreaders, _⟩ := MsgQ.put_of_handed hput
  refine ⟨?_, Or.inr ⟨by rw [hreaders]; simp, e, rfl, ?_⟩⟩
  all_goals simp only [Kernel.load, hload]
  all_goals omega

theorem stored_fed {e : GcloudEvent} {q : MsgQ Tid GcloudEvent nMessages}
    (hput : k.msgq.put e = .stored q) (m : ℕ) :
    Fed e.weight k { k with msgq := q, connects := m } := by
  have hload := load_cons_perm (MsgQ.pending_of_stored hput)
  obtain ⟨_, _, hnone, _⟩ := MsgQ.put_of_stored hput
  refine ⟨Nat.le_of_eq hload, Or.inl ⟨rfl, ?_⟩⟩
  intro hr
  rw [hnone] at hr
  cases hr

theorem put_fed (k : Kernel) (pos : ℕ) (self : Tid) (e : GcloudEvent) :
    Fed e.weight k (k.put pos self e).2 := by
  unfold Kernel.put
  split
  · rename_i hput
    exact handed_fed hput _
  · rename_i hput
    exact stored_fed hput _
  · refine ⟨?_, Or.inl ⟨rfl, by simp⟩⟩
    simp only [Kernel.load]
    rcases MsgQ.pending_of_pendWrite (q := k.msgq) pos self e with hperm | heq
    · exact Nat.le_of_eq (load_cons_perm hperm)
    · rw [heq]
      omega

theorem putNoWait_fed (k : Kernel) : Fed 0 k (k.putNoWait .reconnectTimeout) := by
  unfold Kernel.putNoWait
  split
  · rename_i hput
    exact handed_fed hput _
  · rename_i hput
    exact stored_fed hput _
  · exact Fed.refl k

theorem cancel_load (k : Kernel) (t : Tid) :
    (k.msgq.cancel t).pending.countP GcloudEvent.isConnect ≤ k.load :=
  (MsgQ.pending_cancel t).countP_le

theorem timeout_fed {t : Tid} (h : k.timeout t = some k') : Fed 0 k k' := by
  unfold Kernel.timeout at h
  split at h
  · rename_i hmem
    cases h
    refine ⟨cancel_load k t, Or.inl ⟨rfl, fun hr => ?_⟩⟩
    rw [MsgQ.writers_nil_of_reading (by decide) (by rw [hr]; rintro ⟨⟩)] at hmem
    cases hmem
  · split at h <;> cases h
    exact ⟨Nat.le_refl _, Or.inl ⟨rfl, id⟩⟩

theorem drop_fed (k : Kernel) : Fed 0 k (k.drop .mqtt) := by
  refine ⟨cancel_load k .mqtt, Or.inl ⟨rfl, fun hr => ?_⟩⟩
  simp [Kernel.drop, MsgQ.cancel, hr]

theorem take_fed (k : Kernel) (pos : ℕ) (self : Tid) : Fed 0 k (k.take pos self).2 := by
  unfold Kernel.take
  split <;> exact ⟨Nat.le_refl _, Or.inl ⟨rfl, id⟩⟩

end Fed

/-- All calls but k_msgq_get of the gcloud thread and the purge. -/
theorem KernelMove.fed {s : State} {a : Act} {k : Kernel} (h : KernelMove s a k) (hq : QueueInv s)
    (hget : s.gcloud = .get → ∀ env, a ≠ .gcloud env) (hpurge : purges s a = false) :
    Fed (if connectPut s a = none then 0 else 1) s.kernel k := by
  have hmono : ∀ {n : ℕ} {k : Kernel}, Fed 0 s.kernel k → Fed n s.kernel k := by
    rintro n k ⟨hload, hevent⟩
    refine ⟨by omega, hevent.imp_right ?_⟩
    rintro ⟨hr, e, he, hle⟩
    exact ⟨hr, e, he, by omega⟩
  cases h with
  | same => exact hmono (Fed.refl _)
  | connect pos self e he =>
    have hweight : e.weight ≤ 1 := by
      unfold GcloudEvent.weight
      split <;> omega
    obtain ⟨hload, hevent⟩ := put_fed s.kernel pos self e
    rw [if_neg (by simp [he])]
    refine ⟨by omega, hevent.imp_right ?_⟩
    rintro ⟨hr, x, hx, hle⟩
    exact ⟨hr, x, hx, by omega⟩
  | put pos self e he =>
    have hquiet : e.isConnect = false := by
      rcases he with he | ⟨n, hpc⟩
      · exact he
      · exact hq.apps n e (Or.inr (Or.inl hpc))
    have hfed := put_fed s.kernel pos self e
    rw [show e.weight = 0 by simp [GcloudEvent.weight, hquiet]] at hfed
    exact hmono hfed
  | timer => exact hmono (putNoWait_fed _)
  | get env hg _ _ | pend env hg _ => exact absurd rfl (hget hg env)
  | purge hp =>
    rw [hpurge] at hp
    cases hp
  | take pos self => exact hmono (take_fed _ pos self)
  | give => exact hmono ⟨Nat.le_refl _, Or.inl ⟨rfl, id⟩⟩
  | timeout t _ hk => exact hmono (timeout_fed hk)
  | drop => exact hmono (drop_fed _)

structure SoleInv (s : State) : Prop where
  queue : QueueInv s
  one : s.underway ≤ 1
  gone : 0 < s.underway → s.mqtt.phase = .gone
  closed : 0 < s.underway → s.gcloud.attempting = false → s.client.session = .closed

theorem underway_pos {s : State} (h : HasConnect s) : 0 < s.underway := by
  unfold State.underway
  rw [if_pos h]
  omega

theorem SoleInv.soleSession {s : State} (h : SoleInv s) : SoleSession s := by
  constructor
  · intro hg
    have hpos : 0 < s.underway := underway_pos (Or.inl hg)
    exact ⟨h.gone hpos, h.closed hpos (by rw [hg]; rfl)⟩
  · intro hg
    exact h.gone (underway_pos (Or.inr (Or.inl (by rw [hg]; rfl))))

theorem soleInv_start : SoleInv State.start := by
  have hzero : State.start.underway = 0 := by decide
  refine ⟨queueInv_start, by omega, ?_, ?_⟩
  all_goals
    intro hpos
    omega

/-- What a step keeps as long as it brings no CONNECT in. -/
theorem SoleInv.keeps {s s' : State} (h : SoleInv s) (hq : QueueInv s')
    (hle : s'.underway ≤ s.underway)
    (hgone : s.mqtt.phase = .gone → s'.mqtt.phase = .gone)
    (hclosed : s'.gcloud.attempting = false → 0 < s'.underway →
      s.gcloud.attempting = false ∧ (s.client.session = .closed → s'.client.session = .closed)) :
    SoleInv s' := by
  have hone := h.one
  refine ⟨hq, by omega, ?_, ?_⟩
  · intro hpos
    exact hgone (h.gone (by omega))
  · intro hpos hatt
    obtain ⟨hatt', hkeep⟩ := hclosed hatt hpos
    exact hkeep (h.closed (by omega) hatt')

/-- A put into a vacant module brings the only CONNECT. -/
theorem SoleInv.of_vacant {s s' : State} (hv : Vacant s) (hq : QueueInv s')
    (hle : s'.underway ≤ s.underway + 1) (hm : s'.mqtt = s.mqtt) (hc : s'.client = s.client) :
    SoleInv s' := by
  have hnone := hv.none
  refine ⟨hq, by omega, fun _ => ?_, fun _ _ => ?_⟩
  · rw [hm]
    exact hv.gone
  · rw [hc]
    exact hv.closed

/-- A step of another thread wakes the gcloud thread with a CONNECT only if it hands
one over. -/
theorem underway_of_other {s s' : State} {a : Act} (hq : QueueInv s) (hsafe : vacantPut s a)
    (ha : ∀ env, a ≠ .gcloud env) (h : step s a = some s') :
    s'.underway ≤ s.underway + if connectPut s a = none then 0 else 1 := by
  have hg := gcloud_of_other ha h
  have hmove := step_move h
  unfold State.underway
  cases hpurge : purges s a with
  | true =>
    cases a with
    | gcloud env => exact absurd rfl (ha env)
    | mqtt env =>
      have hold := hsafe.2 hpurge
      simp only [purges] at hpurge
      split at hpurge
      · rename_i c rev b hm
        simp only [step, mqttStep, hm, mqttCall, mqttDisc, Option.some.injEq] at h
        subst h
        have hload : s.kernel.purge.load = 0 := rfl
        rw [hload]
        split
        · rename_i hhas
          have hhas' : HasConnect s := by
            rcases hhas with hi | hatt | ⟨hd | ⟨hw, _⟩, hevent⟩
            · exact Or.inl hi
            · exact Or.inr (Or.inl hatt)
            · exact Or.inr (Or.inr ⟨Or.inl hd, hevent⟩)
            · have hquiet := hold hw
              change s.kernel.event.any GcloudEvent.isConnect = true at hevent
              rw [hquiet] at hevent
              cases hevent
          rw [if_pos hhas']
          omega
        · omega
      · cases hpurge
    | start n c | app n env | timer | timeout t => cases hpurge
  | false =>
    obtain ⟨hload, ⟨hevent, hread⟩ | ⟨hread, e, he, hle⟩⟩ :=
      hmove.fed hq (fun _ env => ha env) hpurge
    · have himp : HasConnect s' → HasConnect s := by
        unfold HasConnect
        rw [hg, hevent]
        rintro (hi | hatt | ⟨hd | ⟨hw, hnil⟩, hconnect⟩)
        · exact Or.inl hi
        · exact Or.inr (Or.inl hatt)
        · exact Or.inr (Or.inr ⟨Or.inl hd, hconnect⟩)
        · refine Or.inr (Or.inr ⟨Or.inr ⟨hw, ?_⟩, hconnect⟩)
          rcases hq.reads with hr | ⟨hr, _⟩
          · exact hr
          · rw [hread hr] at hnil
            cases hnil
      by_cases hhas : HasConnect s'
      · rw [if_pos hhas, if_pos (himp hhas)]
        omega
      · rw [if_neg hhas]
        omega
    · have hwait : s.gcloud = .wait := (hq.reads.resolve_left hread).2
      by_cases hhas : HasConnect s'
      · have hweight : e.weight = 1 := by
          rcases hhas with hi | hatt | ⟨_, hconnect⟩
          · rw [hg, hwait] at hi
            cases hi
          · rw [hg, hwait] at hatt
            cases hatt
          · rw [he] at hconnect
            exact if_pos hconnect
        rw [if_pos hhas]
        omega
      · rw [if_neg hhas]
        omega

theorem soleInv_other {s s' : State} {a : Act} (h : SoleInv s) (hsafe : vacantPut s a)
    (ha : ∀ env, a ≠ .gcloud env) (hstep : step s a = some s') : SoleInv s' := by
  have hq := queueInv_step s a s' h.queue hstep
  have hg := gcloud_of_other ha hstep
  have hle := underway_of_other h.queue hsafe ha hstep
  cases hout : a.outside with
  | true =>
    have hf := outside_frame hout hstep
    by_cases hput : connectPut s a = none
    · rw [if_pos hput] at hle
      refine h.keeps hq (by omega) (fun hgone => by rwa [hf.mqtt]) ?_
      intro hatt _
      rw [hg] at hatt
      exact ⟨hatt, fun hc => by rwa [hf.client]⟩
    · rw [if_neg hput] at hle
      exact .of_vacant (hsafe.1 hput) hq hle hf.mqtt hf.client
  | false =>
    cases a with
    | gcloud env => exact absurd rfl (ha env)
    | mqtt env =>
      have halive := phase_of_mqttStep hstep
      have hnone : connectPut s (.mqtt env) = none := rfl
      rw [if_pos hnone] at hle
      refine h.keeps hq (by omega) (fun hgone => absurd hgone halive) ?_
      intro _ hpos
      exact absurd (h.gone (by omega)) halive
    | start n c | app n env | timer | timeout t => cases hout

/-- A step of the gcloud thread that does not touch the queue. -/
theorem underway_of_kernel {s s' : State} (hk : s'.kernel = s.kernel)
    (himp : HasConnect s' → HasConnect s) : s'.underway ≤ s.underway := by
  unfold State.underway
  rw [hk]
  apply Nat.add_le_add_left
  by_cases hhas : HasConnect s'
  · simp [hhas, himp hhas]
  · simp [hhas]

/-- Where the gcloud thread has no CONNECT, whatever `event` holds. -/
def GcloudPc.unloaded : GcloudPc → Bool
  | .get | .stopTimer | .clearConnected | .markConnecting => true
  | .call .connect _ => false
  | .call _ _ => true
  | _ => false

theorem not_hasConnect {s : State} (h : s.gcloud.unloaded = true) : ¬ HasConnect s := by
  rintro (hi | hatt | ⟨hd | ⟨hw, _⟩, _⟩)
  · rw [hi] at h
    cases h
  · cases hg : s.gcloud with
    | call c p =>
      rw [hg] at h hatt
      cases c with
      | connect => cases h
      | publish m id | subscribe | disconnect => cases hatt
    | setConnecting | create =>
      rw [hg] at h
      cases h
    | get | wait | dispatch | clientInit | stopTimer | clearConnected | markConnecting =>
      rw [hg] at hatt
      cases hatt
  · rw [hd] at h
    cases h
  · rw [hw] at h
    cases h

theorem unloaded_not_attempting {pc : GcloudPc} (h : pc.unloaded = true) :
    pc.attempting = false := by
  cases pc with
  | call c p =>
    cases c with
    | connect => cases h
    | publish m id | subscribe | disconnect => rfl
  | setConnecting | create => cases h
  | get | wait | dispatch | clientInit | stopTimer | clearConnected | markConnecting => rfl

/-- A library call of the gcloud thread other than mqtt_connect opens no session. -/
theorem gcloudCall_closed {c : GcloudCall} {env : Env} {p : CallPc} {s s' : State}
    (hc : c ≠ .connect) (h : gcloudCall c env p s = some s')
    (hclosed : s.client.session = .closed) : s'.client.session = .closed := by
  rcases gcloudCall_session h with hsame | hclosed' | ⟨hconnect, _⟩
  · exact hsame.trans hclosed
  · exact hclosed'
  · exact absurd hconnect hc

/-- The gcloud thread in a library call starts no thread. -/
theorem gcloudCall_gone {c : GcloudCall} {env : Env} {p : CallPc} {s s' : State}
    (h : gcloudCall c env p s = some s') (hgone : s.mqtt.phase = .gone) :
    s'.mqtt.phase = .gone := by
  rcases (gcloudCall_frame h).2 with hsame | hdead
  · rw [hsame]
    exact hgone
  · rw [hdead]
    rfl

/-- What the gcloud thread adds to the queue. -/
theorem load_of_gcloud {s s' : State} {env : Env} (hq : QueueInv s) (hg : s.gcloud ≠ .get)
    (h : gcloudStep env s = some s') :
    s'.kernel.load ≤ s.kernel.load + if connectPut s (.gcloud env) = none then 0 else 1 := by
  have hstep : step s (.gcloud env) = some s' := h
  cases hpurge : purges s (.gcloud env) with
  | false => exact ((step_move hstep).fed hq (fun hget => absurd hget hg) hpurge).load
  | true =>
    rw [kernel_of_purges hpurge hstep]
    exact Nat.zero_le _

theorem underway_of_unloaded {s : State} (hs : s.gcloud.unloaded = true) :
    s.underway = s.kernel.load := by
  unfold State.underway
  rw [if_neg (not_hasConnect hs), Nat.add_zero]

theorem underway_of_hasConnect {s : State} (hs : HasConnect s) :
    s.underway = s.kernel.load + 1 := by
  unfold State.underway
  rw [if_pos hs]

theorem load_of_get {k k' : Kernel} (h : k.get = some k') :
    ∃ e, k'.event = some e ∧ k.load = k'.load + e.weight := by
  unfold Kernel.get at h
  split at h
  · cases h
  · rename_i e q hget
    cases h
    exact ⟨e, rfl, load_cons_perm (MsgQ.pending_of_get hget)⟩
  · rename_i e t m q hget
    cases h
    exact ⟨e, rfl, load_cons_perm (MsgQ.pending_of_get hget)⟩

/-- The gcloud thread takes a command, or waits for one. -/
theorem underway_of_get {s s' : State} {env : Env} (hq : QueueInv s) (hg : s.gcloud = .get)
    (h : gcloudStep env s = some s') : s'.underway ≤ s.underway := by
  have hnot : ¬ HasConnect s := not_hasConnect (by rw [hg]; rfl)
  have hnil := hq.readers_nil (by rw [hg]; rintro ⟨⟩)
  unfold State.underway
  rw [if_neg hnot]
  simp only [gcloudStep, hg] at h
  split at h
  · rename_i k hget
    cases h
    obtain ⟨e, he, hload⟩ := load_of_get hget
    change k.load + _ ≤ _
    split
    · rename_i hhas
      have hconnect : e.weight = 1 := by
        rcases hhas with hi | hatt | ⟨_, hconnect⟩
        · cases hi
        · cases hatt
        · simp only [he] at hconnect
          exact if_pos hconnect
      omega
    · omega
  · rename_i hget
    cases h
    have hempty := Kernel.get_none hget
    have hwaits : ¬ HasConnect
        { s with kernel := s.kernel.pendRead env.pos, gcloud := .wait } := by
      rintro (hi | hatt | ⟨hd | ⟨_, hreaders⟩, _⟩)
      · cases hi
      · cases hatt
      · cases hd
      · simp [Kernel.pendRead, MsgQ.pendRead, hempty, hnil, enqueue_nil] at hreaders
    rw [if_neg hwaits]
    simp [Kernel.load, Kernel.pendRead]

/-- In mqtt_connect the gcloud thread still has its CONNECT in hand. -/
theorem soleInv_connect {s s' : State} {env : Env} {p : CallPc} (h : SoleInv s)
    (hq : QueueInv s') (hsafe : vacantPut s (.gcloud env)) (hg : s.gcloud = .call .connect p)
    (hcall : gcloudCall .connect env p s = some s')
    (hle : s'.kernel.load ≤
      s.kernel.load + if connectPut s (.gcloud env) = none then 0 else 1) : SoleInv s' := by
  have hatt : s.gcloud.attempting = true := by rw [hg]; rfl
  have hhas : HasConnect s := Or.inr (Or.inl hatt)
  have hput : connectPut s (.gcloud env) = none := by
    by_contra hput
    have hnone := (hsafe.1 hput).none
    rw [underway_of_hasConnect hhas] at hnone
    omega
  have hatt' : s'.gcloud.attempting = true := by
    rcases gcloudCall_place hcall with ⟨q, hg', _⟩ | hg' <;> rw [hg'] <;> rfl
  rw [if_pos hput] at hle
  refine h.keeps hq ?_ (gcloudCall_gone hcall) fun hno => ?_
  · rw [underway_of_hasConnect hhas, underway_of_hasConnect (Or.inr (Or.inl hatt'))]
    omega
  · rw [hatt'] at hno
    cases hno

theorem unloaded_of_call {c : GcloudCall} (hc : c ≠ .connect) (q : CallPc) :
    (GcloudPc.call c q).unloaded = true ∧ c.return.unloaded = true := by
  cases c with
  | connect => exact absurd rfl hc
  | publish m id | subscribe | disconnect => exact ⟨rfl, rfl⟩

/-- In any other call it has none, and adds one at most in the handler of a loss. -/
theorem soleInv_call {s s' : State} {env : Env} {c : GcloudCall} {p : CallPc} (h : SoleInv s)
    (hq : QueueInv s') (hsafe : vacantPut s (.gcloud env)) (hg : s.gcloud = .call c p)
    (hc : c ≠ .connect) (hcall : gcloudCall c env p s = some s')
    (hle : s'.kernel.load ≤
      s.kernel.load + if connectPut s (.gcloud env) = none then 0 else 1) : SoleInv s' := by
  have hload : s.kernel.load ≤ s.underway := by
    unfold State.underway
    omega
  have hfree : s.gcloud.unloaded = true := by
    rw [hg]
    exact (unloaded_of_call hc p).1
  have hfree' : s'.gcloud.unloaded = true := by
    rcases gcloudCall_place hcall with ⟨q, hg', _⟩ | hg' <;> rw [hg']
    · exact (unloaded_of_call hc q).1
    · exact (unloaded_of_call hc p).2
  by_cases hput : connectPut s (.gcloud env) = none
  · rw [if_pos hput] at hle
    refine h.keeps hq ?_ (gcloudCall_gone hcall)
      fun _ _ => ⟨unloaded_not_attempting hfree, gcloudCall_closed hc hcall⟩
    rw [underway_of_unloaded hfree']
    omega
  · rw [if_neg hput] at hle
    have hplace : ∃ b, p = .disc b (.connect .put) := by
      simp only [connectPut, hg] at hput
      split at hput
      · rename_i heq
        cases heq
        exact ⟨_, rfl⟩
      · exact absurd rfl hput
    obtain ⟨b, rfl⟩ := hplace
    have hsame : s'.mqtt = s.mqtt ∧ s'.client = s.client := by
      have hdisc : gcloudDisc c env b (.connect .put) s = some s' := hcall
      obtain ⟨_, rfl⟩ | ⟨_, _, _, rfl⟩ := gcloudDisc_connect_cases hdisc <;> exact ⟨rfl, rfl⟩
    refine .of_vacant (hsafe.1 hput) hq ?_ hsame.1 hsame.2
    rw [underway_of_unloaded hfree']
    omega

theorem soleInv_gcloud {s s' : State} {env : Env} (h : SoleInv s)
    (hsafe : vacantPut s (.gcloud env)) (hstep : gcloudStep env s = some s') : SoleInv s' := by
  have hq := queueInv_step s (.gcloud env) s' h.queue hstep
  have hnil := h.queue.readers_nil_of_step hstep
  have hload : s.kernel.load ≤ s.underway := by
    unfold State.underway
    omega
  cases hg : s.gcloud with
  | get =>
    have hle := underway_of_get h.queue hg hstep
    simp only [gcloudStep, hg] at hstep
    split at hstep <;> cases hstep
    all_goals exact h.keeps hq hle id fun _ _ => ⟨by rw [hg]; rfl, id⟩
  | wait =>
    simp only [gcloudStep, hg] at hstep
    split at hstep <;> cases hstep
    refine h.keeps hq (underway_of_kernel rfl ?_) id fun _ _ => ⟨by rw [hg]; rfl, id⟩
    rintro (hi | hatt | ⟨_, hconnect⟩)
    · cases hi
    · cases hatt
    · exact Or.inr (Or.inr ⟨Or.inr ⟨hg, hnil⟩, hconnect⟩)
  | dispatch =>
    simp only [gcloudStep, hg, Option.some.injEq] at hstep
    subst hstep
    refine h.keeps hq (underway_of_kernel rfl ?_) id fun _ _ => ⟨by rw [hg]; rfl, id⟩
    intro hhas
    obtain ⟨hconnect, _⟩ | ⟨_, hplace⟩ := dispatch_cases env s
    · exact Or.inr (Or.inr ⟨Or.inl hg, hconnect⟩)
    · refine absurd hhas (not_hasConnect ?_)
      change (dispatch env s).unloaded = true
      rcases hplace with hd | ⟨_, hd | ⟨m, id, hd⟩ | hd⟩ <;> rw [hd] <;> rfl
  | clientInit =>
    simp only [gcloudStep, hg, Option.some.injEq] at hstep
    subst hstep
    exact h.keeps hq (underway_of_kernel rfl fun _ => Or.inl hg) id fun hatt _ => by cases hatt
  | setConnecting =>
    simp only [gcloudStep, hg, Option.some.injEq] at hstep
    subst hstep
    have hatt : s.gcloud.attempting = true := by rw [hg]; rfl
    refine h.keeps hq (underway_of_kernel rfl fun _ => Or.inr (Or.inl hatt)) id fun hatt' _ => ?_
    simp only at hatt'
    split at hatt' <;> cases hatt'
  | create =>
    have hle := load_of_gcloud h.queue (by rw [hg]; rintro ⟨⟩) hstep
    have hhas : HasConnect s := Or.inr (Or.inl (by rw [hg]; rfl))
    have hone := h.one
    rw [if_pos (by simp [connectPut, hg])] at hle
    rw [underway_of_hasConnect hhas] at hone
    have hget : s'.gcloud = .get := by
      obtain ⟨-, rfl⟩ := gcloudStep_create hg hstep
      rfl
    have hzero := underway_of_unloaded (s := s') (by rw [hget]; rfl)
    refine ⟨hq, by omega, fun hpos => ?_, fun hpos => ?_⟩
    all_goals omega
  | stopTimer | clearConnected | markConnecting =>
    have hle := load_of_gcloud h.queue (by rw [hg]; rintro ⟨⟩) hstep
    rw [if_pos (by simp [connectPut, hg])] at hle
    simp only [gcloudStep, hg, Option.some.injEq] at hstep
    subst hstep
    refine h.keeps hq ?_ id fun _ _ => ⟨by rw [hg]; rfl, id⟩
    rw [underway_of_unloaded rfl]
    omega
  | call c p =>
    have hle := load_of_gcloud h.queue (by rw [hg]; rintro ⟨⟩) hstep
    have hcall : gcloudCall c env p s = some s' := by simpa only [gcloudStep, hg] using hstep
    by_cases hc : c = .connect
    · subst hc
      exact soleInv_connect h hq hsafe hg hcall hle
    · exact soleInv_call h hq hsafe hg hc hcall hle

theorem soleInv_step (s : State) (a : Act) (s' : State) (h : SoleInv s) (hsafe : vacantPut s a)
    (hstep : machine.step s a = some s') : SoleInv s' := by
  by_cases ha : ∃ env, a = .gcloud env
  · obtain ⟨env, rfl⟩ := ha
    exact soleInv_gcloud h hsafe hstep
  · exact soleInv_other h hsafe (fun env he => ha ⟨env, he⟩) hstep

/-- In every run whose CONNECT commands are queued into a vacant module only, the gcloud
thread clears the client and creates the mqtt thread over nothing that lives. -/
theorem sole_session_of_vacantPut {s : State} (hrun : ReachableUnder machine vacantPut s) :
    SoleSession s :=
  (reachableUnder_invariant soleInv_start soleInv_step hrun).soleSession

/-- The reconnect timer ends a session, and the gcloud thread reconnects. -/
def reconnects : List Act :=
  handshake ++ List.replicate 2 (.app 0 {}) ++ List.replicate 5 (.gcloud {}) ++ [.timer] ++
    List.replicate 13 (.gcloud {}) ++ [.timeout .gcloud] ++ List.replicate 7 (.gcloud {})

theorem sole_session_at_reconnect :
    ∃ s, s.gcloud = .clientInit ∧ s.connacks = 1 ∧ SoleSession s := by
  obtain ⟨s, hrun, hs⟩ := exists_reachableUnder_of_exec (M := machine) (C := vacantPut)
    (p := fun s => s.gcloud == .clientInit && s.connacks == 1) reconnects (by decide)
  simp only [Bool.and_eq_true, beq_iff_eq] at hs
  exact ⟨s, hs.1, hs.2, sole_session_of_vacantPut hrun⟩

/-- A second gcloud_connect while the first session is up. -/
def connectsTwice : List Act :=
  handshake ++ [.start 1 .connect, .app 1 {}] ++ List.replicate 7 (.gcloud {})

theorem session_overwritten : ¬ ∀ s, Reachable machine s → SoleSession s := by
  intro hall
  obtain ⟨s, hreach, hs⟩ := exists_reachable_of_exec (M := machine)
    (p := fun s => s.gcloud == .clientInit && s.client.session == .connected) connectsTwice
    (by decide)
  simp only [Bool.and_eq_true, beq_iff_eq] at hs
  have hclosed := ((hall s hreach).clientInit hs.1).2
  rw [hs.2] at hclosed
  cases hclosed

end NcsProjects.Gcloud
