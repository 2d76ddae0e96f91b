import NcsProjects.GcloudQueueCalls

/-!
The payload of a publish. A command carries the pointer that the caller passed, and the
bytes are read when gcloud_thread calls mqtt_publish. Beside the run stand the memory,
which the callers write at any time, and marks: the bytes that a buffer held when its
call was made, carried along with the command through the queue. A log keeps for each
call of mqtt_publish the marked bytes and the bytes that the pointer leads to.
-/
namespace NcsProjects.Gcloud

open MessageQueues PublishPayload TransitionRuns

/-- The `size` bytes at `data`. -/
def bytesAt (mem : ℕ → Byte) (m : Message) : List Byte :=
  (List.range m.size).map fun i => mem (m.data + i)

def GcloudEvent.message : GcloudEvent → Option Message
  | .publish m | .publishState m => some m
  | .connect _ | .reconnectTimeout | .disconnect _ | .subscribe => none

/-- A command and the bytes at `data` when its API call was made. -/
abbrev Marked := GcloudEvent × List Byte

/-- A call of mqtt_publish. -/
structure HandOver where
  called : List Byte
  passed : List Byte

structure Payloads where
  mem : ℕ → Byte
  /-- The bytes that thread `n` called gcloud_publish or gcloud_publish_state with. -/
  called : ℕ → List Byte
  queue : MsgQ Tid Marked nMessages
  event : Option Marked
  /-- The command in `event` has not been dispatched yet. -/
  fresh : Bool
  /-- The memory when the command in `event` was first dispatched. -/
  first : ℕ → Byte
  handed : List HandOver

def Payloads.start : Payloads := ⟨fun _ => 0, fun _ => [], MsgQ.empty, none, false, fun _ => 0, []⟩

/-- The marked bytes of the command in `event`. -/
def Payloads.marked (h : Payloads) : List Byte := (h.event.map Prod.snd).getD []

/-- A write of the application to its memory, or a step of the threads. -/
inductive MemAct
  | write (addr : ℕ) (byte : Byte)
  | act (a : Act)

def mark (a : Act) (h : Payloads) (e : GcloudEvent) : Marked :=
  match a with
  | .app n _ => (e, h.called n)
  | _ => (e, [])

def dispatches (s : State) : Act → Bool
  | .gcloud _ => s.gcloud = .dispatch
  | _ => false

/-- The message that the step calls mqtt_publish with. -/
def handsOver (s : State) : Act → Option Message
  | .gcloud env =>
    if s.gcloud = .dispatch then
      match dispatch env s with
      | .call (.publish m _) _ => some m
      | _ => none
    else none
  | _ => none

def notePayloads (s : State) (a : Act) (h : Payloads) : Payloads where
  mem := h.mem
  called := match a with
    | .start n (.publish m) | .start n (.publishState m) =>
      Function.update h.called n (bytesAt h.mem m)
    | _ => h.called
  queue := (((queueCall s a).map (mark a h)).exec h.queue).1
  event := (((queueCall s a).map (mark a h)).exec h.queue).2.or h.event
  fresh := (((queueCall s a).map (mark a h)).exec h.queue).2.isSome || h.fresh && !dispatches s a
  first := if h.fresh && dispatches s a then h.mem else h.first
  handed := match handsOver s a with
    | some m => ⟨h.marked, bytesAt h.mem m⟩ :: h.handed
    | none => h.handed

def memStep (t : State × Payloads) : MemAct → Option (State × Payloads)
  | .write addr byte => some (t.1, { t.2 with mem := Function.update t.2.mem addr byte })
  | .act a => (step t.1 a).map fun s => (s, notePayloads t.1 a t.2)

def memMachine : Machine (State × Payloads) MemAct := ⟨(State.start, Payloads.start), memStep⟩

/-- The message is in a call of the API that has not put its command yet, in the queue or
waiting for room there, or dequeued and not dispatched. -/
def Awaits (t : State × Payloads) (m : Message) : Prop :=
  (∃ n e, (t.1.app n = .check e ∨ t.1.app n = .put e) ∧ e.message = some m) ∨
    (∃ e ∈ t.1.kernel.msgq.pending, e.message = some m) ∨
      (t.2.fresh = true ∧ ∃ e ∈ t.1.kernel.event, e.message = some m)

/-- The application leaves the buffers of its publishes alone until mqtt_publish is called
with them. When a publish is dispatched again, since a purge woke gcloud_thread in
k_msgq_get, what was written to its buffer since the first time has left every byte as it
was then. -/
def leavesAlone (t : State × Payloads) : MemAct → Prop
  | .write addr byte =>
    ∀ m, Awaits t m → m.data ≤ addr → addr < m.data + m.size → byte = t.2.mem addr
  | .act a => ∀ m ∈ handsOver t.1 a, t.2.fresh = false →
    ∀ i < m.size, t.2.mem (m.data + i) = t.2.first (m.data + i)

/-- The buffer of the command still holds the marked bytes. -/
def Intact (mem : ℕ → Byte) (x : Marked) : Prop := ∀ m ∈ x.1.message, bytesAt mem m = x.2

/-- The marked queue is the queue of the kernel. -/
structure MarksInv (t : State × Payloads) : Prop where
  queue : t.2.queue.map Prod.fst = t.1.kernel.msgq
  event : t.2.event.map Prod.fst = t.1.kernel.event

structure PayloadInv (t : State × Payloads) : Prop where
  queue : t.2.queue.All (Intact t.2.mem)
  event : t.2.fresh = true → ∀ x ∈ t.2.event, Intact t.2.mem x
  first : t.2.fresh = false → ∀ x ∈ t.2.event, Intact t.2.first x
  apps : ∀ n e, t.1.app n = .check e ∨ t.1.app n = .put e → Intact t.2.mem (e, t.2.called n)
  handed : ∀ x ∈ t.2.handed, x.passed = x.called

theorem memStep_act {t t' : State × Payloads} {a : Act} (h : memStep t (.act a) = some t') :
    step t.1 a = some t'.1 ∧ t'.2 = notePayloads t.1 a t.2 := by
  obtain ⟨s, hs, rfl⟩ := Option.map_eq_some_iff.mp h
  exact ⟨hs, rfl⟩

theorem mark_fst (a : Act) (h : Payloads) (e : GcloudEvent) : (mark a h e).1 = e := by
  unfold mark
  split <;> rfl

theorem marksInv_step (t : State × Payloads) (a : MemAct) (t' : State × Payloads) (h : MarksInv t)
    (hstep : memStep t a = some t') : MarksInv t' := by
  cases a with
  | write addr byte =>
    cases hstep
    exact ⟨h.queue, h.event⟩
  | act a =>
    obtain ⟨hs, hnote⟩ := memStep_act hstep
    obtain ⟨hqueue, hevent⟩ := marked_follows hs (mark_fst a t.2) h.queue h.event
    constructor
    · rw [hnote]
      exact hqueue
    · rw [hnote]
      exact hevent

/-- A write that changes no byte of the buffer. -/
theorem bytesAt_update {mem : ℕ → Byte} {addr : ℕ} {byte : Byte} {m : Message}
    (h : m.data ≤ addr → addr < m.data + m.size → byte = mem addr) :
    bytesAt (Function.update mem addr byte) m = bytesAt mem m := by
  apply List.map_congr_left
  intro i hi
  have hlt : i < m.size := List.mem_range.mp hi
  by_cases hat : m.data + i = addr
  · subst hat
    rw [Function.update_self]
    exact h (Nat.le_add_right _ _) (Nat.add_lt_add_left hlt _)
  · exact Function.update_of_ne hat _ _

theorem intact_update {mem : ℕ → Byte} {addr : ℕ} {byte : Byte} {x : Marked} (hx : Intact mem x)
    (h : ∀ m ∈ x.1.message, m.data ≤ addr → addr < m.data + m.size → byte = mem addr) :
    Intact (Function.update mem addr byte) x := by
  intro m hm
  rw [bytesAt_update (h m hm)]
  exact hx m hm

theorem payloadInv_write {t : State × Payloads} {addr : ℕ} {byte : Byte} (h : PayloadInv t)
    (hmarks : MarksInv t) (hleaves : leavesAlone t (.write addr byte)) :
    PayloadInv (t.1, { t.2 with mem := Function.update t.2.mem addr byte }) := by
  have hpending : ∀ x : Marked, x.1 ∈ t.1.kernel.msgq.pending → Intact t.2.mem x →
      Intact (Function.update t.2.mem addr byte) x := by
    intro x hin hx
    refine intact_update hx fun m hm => hleaves m ?_
    exact Or.inr (Or.inl ⟨x.1, hin, hm⟩)
  constructor
  · constructor
    · intro x hx
      refine hpending x ?_ (h.queue.buf x hx)
      rw [← hmarks.queue]
      exact List.mem_append_left _ (List.mem_map_of_mem hx)
    · intro w hw
      refine hpending w.2 ?_ (h.queue.writers w hw)
      rw [← hmarks.queue]
      refine List.mem_append_right _ ?_
      simp only [MsgQ.map, List.map_map]
      exact List.mem_map_of_mem (f := Prod.snd ∘ fun v : Tid × Marked => (v.1, v.2.1)) hw
  · intro hfresh x hx
    refine intact_update (h.event hfresh x hx) fun m hm => hleaves m ?_
    refine Or.inr (Or.inr ⟨hfresh, x.1, ?_, hm⟩)
    rw [← hmarks.event]
    exact Option.mem_map_of_mem Prod.fst hx
  · exact h.first
  · intro n e he
    refine intact_update (h.apps n e he) fun m hm => hleaves m ?_
    exact Or.inl ⟨n, e, he, hm⟩
  · exact h.handed

/-- An application thread gets to a put from the check of its own call only. -/
theorem appStep_place {n : ℕ} {env : Env} {s s' : State} (h : appStep n env s = some s') :
    ∃ pc, s'.app = Function.update s.app n pc ∧
      ∀ e, pc = .check e ∨ pc = .put e → s.app n = .check e := by
  unfold appStep at h
  split at h
  · cases h
  · cases h
    refine ⟨_, rfl, ?_⟩
    rintro e (he | he) <;> cases he
  · split at h <;> cases h
    refine ⟨_, rfl, ?_⟩
    rintro e (he | he) <;> cases he
  · rename_i e' hcheck
    cases h
    refine ⟨_, rfl, ?_⟩
    rintro e (he | he)
    · split at he <;> cases he
    · split at he <;> cases he
      exact hcheck
  · split at h <;> cases h
    · refine ⟨_, rfl, ?_⟩
      rintro e (he | he) <;> cases he
    · refine ⟨_, rfl, ?_⟩
      rintro e (he | he) <;> cases he
  · split at h <;> cases h
    refine ⟨_, rfl, ?_⟩
    rintro e (he | he) <;> cases he

/-- A command comes to the put of its API call by the call itself. -/
theorem stands_of_step {s s' : State} {a : Act} (h : step s a = some s') {n : ℕ} {e : GcloudEvent}
    (he : s'.app n = .check e ∨ s'.app n = .put e) :
    ((s.app n = .check e ∨ s.app n = .put e) ∧ ∀ c, a ≠ .start n c) ∨
      (∃ m, a = .start n (.publish m) ∧ e = .publish m ∨
        a = .start n (.publishState m) ∧ e = .publishState m) ∨ e.message = none := by
  have hkeep : s'.app n = s.app n → (∀ c, a ≠ .start n c) →
      (s.app n = .check e ∨ s.app n = .put e) ∧ ∀ c, a ≠ .start n c := by
    intro hsame ha
    rw [hsame] at he
    exact ⟨he, ha⟩
  cases a with
  | start k c =>
    simp only [step, apiStart] at h
    split at h <;> cases h
    by_cases hn : n = k
    · subst hn
      simp only [Function.update_self] at he
      cases c with
      | connect => rcases he with he | he <;> cases he
      | disconnect =>
        rcases he with he | he <;> cases he
        exact Or.inr (Or.inr rfl)
      | publish m =>
        rcases he with he | he <;> cases he
        exact Or.inr (Or.inl ⟨m, Or.inl ⟨rfl, rfl⟩⟩)
      | publishState m =>
        rcases he with he | he <;> cases he
        exact Or.inr (Or.inl ⟨m, Or.inr ⟨rfl, rfl⟩⟩)
    · refine Or.inl (hkeep (Function.update_of_ne hn _ _) ?_)
      rintro c' ⟨⟩
      exact hn rfl
  | app k env =>
    obtain ⟨pc, happ, hpc⟩ := appStep_place h
    by_cases hn : n = k
    · subst hn
      rw [happ, Function.update_self] at he
      exact Or.inl ⟨Or.inl (hpc e he), by rintro c ⟨⟩⟩
    · refine Or.inl (hkeep ?_ (by rintro c ⟨⟩))
      rw [happ]
      exact Function.update_of_ne hn _ _
  | gcloud env => exact Or.inl (hkeep (by rw [(gcloudStep_frame h).app]) (by rintro c ⟨⟩))
  | mqtt env => exact Or.inl (hkeep (by rw [(mqttStep_api h).app]) (by rintro c ⟨⟩))
  | timer =>
    simp only [step] at h
    split at h <;> cases h
    exact Or.inl (hkeep rfl (by rintro c ⟨⟩))
  | timeout u =>
    simp only [step, Option.map_eq_some_iff] at h
    obtain ⟨k, _, rfl⟩ := h
    exact Or.inl (hkeep rfl (by rintro c ⟨⟩))

/-- The mark of a thread changes with a call of this thread only. -/
theorem called_of_other {s : State} {a : Act} {h : Payloads} {n : ℕ} (ha : ∀ c, a ≠ .start n c) :
    (notePayloads s a h).called n = h.called n := by
  cases a with
  | start k c =>
    have hne : n ≠ k := by
      rintro rfl
      exact ha c rfl
    cases c with
    | connect | disconnect => rfl
    | publish m | publishState m => exact Function.update_of_ne hne _ _
  | app k env | gcloud env | mqtt env | timer | timeout u => rfl

theorem called_of_publish {s : State} {a : Act} {h : Payloads} {n : ℕ} {m : Message}
    (ha : a = .start n (.publish m) ∨ a = .start n (.publishState m)) :
    (notePayloads s a h).called n = bytesAt h.mem m := by
  rcases ha with rfl | rfl
  · exact Function.update_self n _ _
  · exact Function.update_self n _ _

theorem apps_intact {t t' : State × Payloads} {a : Act} (h : PayloadInv t)
    (hs : step t.1 a = some t'.1) (hnote : t'.2 = notePayloads t.1 a t.2) :
    ∀ n e, t'.1.app n = .check e ∨ t'.1.app n = .put e →
      Intact t'.2.mem (e, t'.2.called n) := by
  intro n e he
  rw [hnote]
  rcases stands_of_step hs he with ⟨hold, hother⟩ | ⟨m, ⟨hcall, rfl⟩ | ⟨hcall, rfl⟩⟩ | hnone
  · rw [called_of_other hother]
    exact h.apps n e hold
  · rintro m' ⟨⟩
    exact (called_of_publish (s := t.1) (h := t.2) (Or.inl hcall)).symm
  · rintro m' ⟨⟩
    exact (called_of_publish (s := t.1) (h := t.2) (Or.inr hcall)).symm
  · intro m hm
    simp [hnone] at hm

theorem connCall_message {self : Tid} {origin : Option ℕ} {env : Env} {p : ConnPc} {k : Kernel}
    {e : GcloudEvent} (h : e ∈ ((connCall self origin env p).onQueue k).message) :
    e.message = none := by
  cases p with
  | put =>
    cases h
    rfl
  | putWait | take err | takeWait err | ret err => cases h

/-- A command that is put into the queue is one of an API call, or carries no payload. -/
theorem queueCall_message {s : State} {a : Act} {e : GcloudEvent}
    (h : e ∈ (queueCall s a).message) :
    e.message = none ∨ ∃ n env, a = .app n env ∧ s.app n = .put e := by
  cases a with
  | start n c => cases h
  | app n env =>
    simp only [queueCall, kernelCall] at h
    split at h
    · exact Or.inl (connCall_message h)
    · rename_i hpc
      cases h
      exact Or.inr ⟨n, env, rfl, hpc⟩
    · cases h
  | gcloud env =>
    simp only [queueCall, kernelCall] at h
    split at h
    · cases h
    · cases h
    · cases h
    · exact Or.inl (connCall_message h)
    · cases h
  | mqtt env =>
    simp only [queueCall, kernelCall] at h
    split at h
    · cases h
    · cases h
      exact Or.inl rfl
    · cases h
    · cases h
    · cases h
  | timer =>
    cases h
    exact Or.inl rfl
  | timeout u =>
    simp only [queueCall, kernelCall, KernelCall.onQueue] at h
    split at h <;> cases h

theorem intact_of_call {t : State × Payloads} {a : Act} (h : PayloadInv t) :
    ∀ x ∈ ((queueCall t.1 a).map (mark a t.2)).message, Intact t.2.mem x := by
  intro x hx
  rw [QueueCall.message_map] at hx
  obtain ⟨e, he, rfl⟩ := Option.map_eq_some_iff.mp hx
  rcases queueCall_message he with hnone | ⟨n, env, rfl, hpc⟩
  · intro m hm
    rw [mark_fst, hnone] at hm
    cases hm
  · exact h.apps n e (Or.inr hpc)

/-- What gcloud_thread calls mqtt_publish with is the message in `event`. -/
theorem handsOver_cases {s : State} {a : Act} {m : Message} (h : handsOver s a = some m) :
    ∃ e, s.kernel.event = some e ∧ e.message = some m := by
  cases a with
  | gcloud env =>
    simp only [handsOver] at h
    split at h
    · split at h <;> cases h
      rename_i hcall
      obtain ⟨_, _, _, hevent | hevent⟩ := dispatch_publish hcall
      · exact ⟨_, hevent, rfl⟩
      · exact ⟨_, hevent, rfl⟩
    · cases h
  | start n c | app n env | mqtt env | timer | timeout u => cases h

theorem handed_step {t t' : State × Payloads} {a : Act} (h : PayloadInv t) (hmarks : MarksInv t)
    (hleaves : leavesAlone t (.act a)) (hnote : t'.2 = notePayloads t.1 a t.2) :
    ∀ x ∈ t'.2.handed, x.passed = x.called := by
  rw [hnote]
  intro x hx
  simp only [notePayloads] at hx
  split at hx
  · rename_i m hm
    rcases List.mem_cons.mp hx with rfl | hx
    · cases hfresh : t.2.fresh with
      | false =>
        obtain ⟨e, hevent, hmessage⟩ := handsOver_cases hm
        rw [← hmarks.event] at hevent
        obtain ⟨y, hy, rfl⟩ := Option.map_eq_some_iff.mp hevent
        have hbytes := h.first hfresh y hy m hmessage
        have hsame : bytesAt t.2.mem m = bytesAt t.2.first m := by
          apply List.map_congr_left
          intro i hi
          exact hleaves m hm hfresh i (List.mem_range.mp hi)
        simpa [Payloads.marked, hy, hsame] using hbytes
      | true =>
        obtain ⟨e, hevent, hmessage⟩ := handsOver_cases hm
        rw [← hmarks.event] at hevent
        obtain ⟨y, hy, rfl⟩ := Option.map_eq_some_iff.mp hevent
        have hbytes := h.event hfresh y hy m hmessage
        simpa [Payloads.marked, hy] using hbytes
    · exact h.handed x hx
  · exact h.handed x hx

theorem payloadInv_act {t t' : State × Payloads} {a : Act} (h : PayloadInv t) (hmarks : MarksInv t)
    (hleaves : leavesAlone t (.act a)) (hstep : memStep t (.act a) = some t') : PayloadInv t' := by
  obtain ⟨hs, hnote⟩ := memStep_act hstep
  obtain ⟨hqueue, hdelivered⟩ := QueueCall.exec_all h.queue (intact_of_call (a := a) h)
  refine ⟨?_, ?_, ?_, apps_intact h hs hnote, handed_step h hmarks hleaves hnote⟩
  · rw [hnote]
    exact hqueue
  · rw [hnote]
    intro hfresh x hx
    simp only [notePayloads] at hfresh hx
    cases hout : (((queueCall t.1 a).map (mark a t.2)).exec t.2.queue).2 with
    | some y =>
      rw [hout] at hx
      cases hx
      exact hdelivered x hout
    | none =>
      simp only [hout, Option.isSome_none, Bool.false_or, Bool.and_eq_true] at hfresh
      rw [hout, Option.none_or] at hx
      exact h.event hfresh.1 x hx
  · rw [hnote]
    intro hfresh x hx
    simp only [notePayloads] at hfresh hx ⊢
    rw [Bool.or_eq_false_iff, Option.isSome_eq_false_iff, Option.isNone_iff_eq_none] at hfresh
    rw [hfresh.1, Option.none_or] at hx
    cases hold : t.2.fresh with
    | false => exact h.first hold x hx
    | true =>
      have hdispatches : dispatches t.1 a = true := by simpa [hold] using hfresh.2
      rw [hdispatches]
      exact h.event hold x hx

theorem marksInv_init : MarksInv memMachine.init := ⟨rfl, rfl⟩

theorem payloadInv_init : PayloadInv memMachine.init := by
  constructor
  · exact MsgQ.all_empty
  · intro hfresh
    cases hfresh
  · rintro hfresh x ⟨⟩
  · rintro n e (he | he) <;> cases he
  · intro x hx
    cases hx

/-- The marked queue stays the queue of the kernel, in every run. -/
theorem marks_of_reachable {t : State × Payloads} (h : Reachable memMachine t) : MarksInv t :=
  reachable_invariant (M := memMachine) marksInv_init marksInv_step h

/-- In every run that leaves the buffers alone, mqtt_publish is called with the bytes that
the API was called with. -/
theorem payload_of_leavesAlone {t : State × Payloads}
    (h : ReachableUnder memMachine leavesAlone t) : ∀ x ∈ t.2.handed, x.passed = x.called := by
  have hinv : PayloadInv t := by
    refine TransitionRuns.Path.preserves_of_reachable (fun _ => marks_of_reachable) ?_
      (reachable_init _) h
      payloadInv_init
    intro t a t' hmarks hold hleaves hstep
    cases a with
    | write addr byte =>
      cases hstep
      exact payloadInv_write hold hmarks hleaves
    | act a => exact payloadInv_act hold hmarks hleaves hstep
  exact hinv.handed

/-- The session is up and subscribed, and a gcloud_publish of the byte at address 0 has
returned 0. -/
def publishReturns : List Act :=
  handshake ++ List.replicate 5 (.gcloud {}) ++
    [.start 1 (.publish ⟨0, 1, .atLeastOnce⟩), .app 1 {}, .app 1 {}]

/-- Steps of the threads only, with no write between them. -/
def threadsOnly (t : State × Payloads) : MemAct → Prop
  | .write _ _ => False
  | .act a => leavesAlone t (.act a)

instance (t : State × Payloads) (a : MemAct) : Decidable (threadsOnly t a) :=
  match a with
  | .write _ _ => inferInstanceAs (Decidable False)
  | .act a => inferInstanceAs (Decidable (∀ m ∈ handsOver t.1 a, t.2.fresh = false →
      ∀ i < m.size, t.2.mem (m.data + i) = t.2.first (m.data + i)))

/-- The caller has stored a byte at address 0. -/
def storedByte : State × Payloads :=
  (State.start, { Payloads.start with mem := Function.update (fun _ => 0) 0 7 })

/-- The caller stores a byte, publishes it, and writes nothing more. -/
theorem payload_of_byte : ∃ t : State × Payloads, t.2.handed.map HandOver.passed = [[7]] ∧
    ∀ x ∈ t.2.handed, x.passed = x.called := by
  have hstored : ReachableUnder memMachine leavesAlone storedByte := by
    refine TransitionRuns.Path.single (a := .write 0 7) ?_ rfl
    rintro m (⟨n, e, he, _⟩ | ⟨e, he, _⟩ | ⟨hfresh, _⟩)
    · rcases he with he | he <;> cases he
    · cases he
    · cases hfresh
  obtain ⟨t, hpath, ht⟩ := exists_path_of_exec (M := memMachine) (C := threadsOnly)
    (p := fun t => t.2.handed.map HandOver.passed == [[7]]) (s := storedByte)
    (publishReturns.map .act ++ [.act (.gcloud {}), .act (.gcloud {})]) (by decide)
  have hleaves : ∀ t a, threadsOnly t a → leavesAlone t a := by
    intro t a h
    cases a with
    | write addr byte => exact absurd h id
    | act a => exact h
  exact ⟨t, eq_of_beq ht, payload_of_leavesAlone (TransitionRuns.Path.trans hstored
    (TransitionRuns.Path.mono hleaves hpath))⟩

theorem payload_overwritten : ¬ ∀ t, Reachable memMachine t →
    ∀ x ∈ t.2.handed, x.passed = x.called := by
  intro hall
  obtain ⟨t, hrun, ht⟩ := exists_reachable_of_exec (M := memMachine)
    (p := fun t => t.2.handed.any fun x => x.passed != x.called)
    (publishReturns.map .act ++ [.write 0 7, .act (.gcloud {}), .act (.gcloud {})]) (by decide)
  simp only [List.any_eq_true, bne_iff_ne] at ht
  obtain ⟨x, hx, hne⟩ := ht
  exact hne (hall t hrun x hx)

end NcsProjects.Gcloud
