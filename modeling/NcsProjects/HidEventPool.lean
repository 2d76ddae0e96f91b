import NcsProjects.HidEffects

/-!
Where the 255 blocks of the event pool are. Every step moves blocks between the
free list, evt_fifo and the hands of a caller, so each block stands in one place
once. The retry of a failed allocation is the exception: app_evt_alloc drops what
it gets there and returns NULL, and its caller writes through that pointer.
-/
namespace NcsProjects.HidLocker

open Semaphores TransitionRuns

/-- The block that app_evt_alloc or app_evt_get has returned and that is not put or
freed yet. -/
def ProducerPc.held : ProducerPc → List Block
  | .flushFree b | .fill b | .put b => [b]
  | _ => []

def MainPc.held : MainPc → List Block
  | .takeUsb b _ | .waitUsb b _ | .write b _ | .free b => [b]
  | .clear b p => b :: p.held
  | _ => []

def State.held (s : State) : List Block := s.main.held ++ (s.btn0.held ++ s.ble.held)

/-- Each block is free, linked in evt_fifo or held by a caller, in one place once. -/
def Partitioned (s : State) : Prop :=
  ∀ b, s.free.count b + s.evtFifo.count b + s.held.count b = 1

/-- The step is not a retry of app_evt_alloc that gets a block. -/
def retryFails (s : State) (a : Act) : Bool := !(s.actor a == .realloc && !s.free.isEmpty)

@[simp] theorem held_wakeEvt (pc : MainPc) : pc.wakeEvt.held = pc.held := by
  cases pc <;> rfl

@[simp] theorem held_wakeUsb (pc : MainPc) : pc.wakeUsb.held = pc.held := by
  cases pc <;> rfl

@[simp] theorem held_producing (b : Block) (p : ProducerPc) :
    (MainPc.producing b p).held = b :: p.held := by
  cases p <;> rfl

@[simp] theorem held_written (b : Block) (e : Evt) : (MainPc.written b e).held = [b] := by
  cases e <;> rfl

@[simp] theorem giveEvt_faulted (s : State) : (giveEvt s).faulted = s.faulted := by
  unfold giveEvt
  split <;> rfl

@[simp] theorem giveEvt_free (s : State) : (giveEvt s).free = s.free := by
  unfold giveEvt
  split <;> rfl

theorem ProducerFrame.main_held {s s' : State} (hf : ProducerFrame s s') :
    s'.main.held = s.main.held := by
  rcases hf.main with hm | hm <;> rw [hm]
  exact held_wakeEvt _

theorem UsbFrame.main_held {s s' : State} (hf : UsbFrame s s') :
    s'.main.held = s.main.held := by
  rcases hf.main with hm | hm <;> rw [hm]
  exact held_wakeUsb _

/-- A producer moves blocks, unless its retry gets one. -/
theorem producerStep_count {evt : Evt} {pick : Block} {p p' : ProducerPc} {s s' : State}
    (h : producerStep evt pick p s = some (p', s')) (hretry : p = .realloc → s.free = [])
    (b : Block) :
    s'.free.count b + s'.evtFifo.count b + p'.held.count b =
      s.free.count b + s.evtFifo.count b + p.held.count b := by
  cases p with
  | idle => cases h
  | alloc =>
    simp only [producerStep] at h
    split at h
    · cases h
      rfl
    · split at h
      · rename_i hmem
        cases h
        have hsplit := (List.perm_cons_erase hmem).count_eq b
        simp only [ProducerPc.held, List.count_cons, List.count_nil] at hsplit ⊢
        omega
      · cases h
  | flushGet =>
    simp only [producerStep] at h
    split at h
    · cases h
      rfl
    · rename_i c rest hfifo
      cases h
      simp only [ProducerPc.held, hfifo, List.count_cons, List.count_nil]
      omega
  | flushFree c =>
    cases h
    simp only [ProducerPc.held, List.count_cons, List.count_nil]
    omega
  | realloc =>
    simp only [producerStep, if_pos (hretry rfl)] at h
    cases h
    rfl
  | put c =>
    cases h
    simp only [ProducerPc.held, List.count_append, List.count_nil]
    omega
  | give =>
    cases h
    simp [ProducerPc.held]
  | deref | fill c =>
    cases h
    rfl

/-- The retry that gets a block leaves it nowhere. -/
theorem producerStep_leak {evt : Evt} {pick : Block} {p' : ProducerPc} {s s' : State}
    (h : producerStep evt pick .realloc s = some (p', s')) (hfree : s.free ≠ []) :
    p' = .deref ∧ s'.evtFifo = s.evtFifo ∧ ProducerFrame s s' ∧
      s'.free.count pick + 1 = s.free.count pick := by
  have hframe := producerStep_frame h
  simp only [producerStep, if_neg hfree] at h
  split at h
  · rename_i hmem
    cases h
    refine ⟨rfl, rfl, hframe, ?_⟩
    have hsplit := (List.perm_cons_erase hmem).count_eq pick
    simp only [List.count_cons_self] at hsplit
    exact hsplit.symm
  · cases h

theorem partitioned_start : Partitioned State.start := by
  intro b
  have hfree := List.count_eq_one_of_mem (List.nodup_finRange fifoElemCount) (List.mem_finRange b)
  simp only [State.start, State.held, MainPc.held, ProducerPc.held, List.append_nil,
    List.count_nil, hfree]

theorem partitioned_main {s s' : State} {ok : Bool} (h : Partitioned s)
    (heff : MainEffect s ok s') : Partitioned s' := by
  intro c
  have hc := h c
  cases heff with
  | takeEvt hm _ | waitEvt hm _ | drained hm _ | takeUsb hm _ | waitUsb hm _ =>
    simpa only [State.held, hm, MainPc.held] using hc
  | get hm hfifo =>
    simp only [State.held, hm, hfifo, MainPc.held, List.count_append, List.count_cons,
      List.count_nil] at hc ⊢
    omega
  | write hm =>
    simp only [State.held, hm, MainPc.held] at hc
    simpa only [State.held, held_written, written_free, written_evtFifo, written_btn0,
      written_ble] using hc
  | free hm =>
    simp only [State.held, hm, MainPc.held, List.count_append, List.count_cons,
      List.count_nil] at hc ⊢
    omega

theorem partitioned_step (s : State) (a : Act) (s' : State) (h : Partitioned s)
    (hretry : retryFails s a = true) (hstep : machine.step s a = some s') : Partitioned s' := by
  have hempty : s.actor a = .realloc → s.free = [] := by
    intro ha
    simpa [retryFails, ha] using hretry
  obtain ⟨_, heff⟩ := step_effect hstep
  cases heff with
  | press hp | notify hp _ =>
    intro c
    have hc := h c
    simpa only [State.held, hp, ProducerPc.held] using hc
  | btn0 hp =>
    intro c
    have hc := h c
    have hmoved := producerStep_count hp hempty c
    have hf := producerStep_frame hp
    simp only [State.held, List.count_append, hf.main_held, hf.ble] at hc ⊢
    omega
  | ble hp =>
    intro c
    have hc := h c
    have hmoved := producerStep_count hp hempty c
    have hf := producerStep_frame hp
    simp only [State.held, List.count_append, hf.main_held, hf.btn0] at hc ⊢
    omega
  | clear hm hp =>
    intro c
    have hc := h c
    have hmoved := producerStep_count hp (fun hpc => hempty (by simp [State.actor, hm, hpc,
      MainPc.producer])) c
    have hf := producerStep_frame hp
    simp only [State.held, hm, MainPc.held, List.count_append, List.count_cons] at hc
    simp only [State.held, held_producing, List.count_append, List.count_cons, hf.btn0, hf.ble]
    omega
  | main heff => exact partitioned_main h heff
  | inReady _ =>
    intro c
    have hc := h c
    have hf := giveUsb_frame { s with inFlight := s.inFlight - 1 }
    simpa only [State.held, hf.free, hf.evtFifo, hf.main_held, hf.btn0, hf.ble] using hc

/-- A block that a retry gets is neither free nor linked nor held. -/
theorem retry_loses_block (s : State) (a : Act) (s' : State) (h : Partitioned s)
    (hbad : ¬ retryFails s a = true) (hstep : machine.step s a = some s') :
    ¬ Partitioned s' := by
  obtain ⟨hactor, hfree⟩ : s.actor a = .realloc ∧ s.free ≠ [] := by
    simpa [retryFails] using hbad
  obtain ⟨_, heff⟩ := step_effect hstep
  intro h'
  cases heff with
  | press | notify | inReady => cases hactor
  | btn0 hp =>
    rename_i pick p s₁
    change s.btn0 = .realloc at hactor
    rw [hactor] at hp
    obtain ⟨hpc, hfifo, hf, hcount⟩ := producerStep_leak hp hfree
    have hold := h pick
    have hnew := h' pick
    simp only [State.held, hactor, hpc, hfifo, hf.main_held, hf.ble, List.count_append,
      ProducerPc.held, List.count_nil] at hold hnew
    omega
  | ble hp =>
    rename_i pick p s₁
    change s.ble = .realloc at hactor
    rw [hactor] at hp
    obtain ⟨hpc, hfifo, hf, hcount⟩ := producerStep_leak hp hfree
    have hold := h pick
    have hnew := h' pick
    simp only [State.held, hactor, hpc, hfifo, hf.main_held, hf.btn0, List.count_append,
      ProducerPc.held, List.count_nil] at hold hnew
    omega
  | clear hm hp =>
    rename_i ok pick b p p' s₁
    change s.main.producer = .realloc at hactor
    rw [hm] at hactor
    change p = .realloc at hactor
    rw [hactor] at hp hm
    obtain ⟨hpc, hfifo, hf, hcount⟩ := producerStep_leak hp hfree
    have hold := h pick
    have hnew := h' pick
    simp only [State.held, hm, MainPc.held, ProducerPc.held, List.count_append] at hold
    simp only [State.held, hpc, hfifo, hf.btn0, hf.ble, held_producing, ProducerPc.held,
      List.count_append] at hnew
    omega
  | main heff =>
    change s.main.producer = .realloc at hactor
    rw [heff.producer_idle] at hactor
    cases hactor

/-- Along every run each block stands in one place once, in all states, exactly when
no retry of app_evt_alloc gets a block. -/
theorem blocks_partitioned_iff (actions : List Act) :
    Throughout machine Partitioned machine.init actions ↔
      EachStep machine (fun s a => retryFails s a = true) machine.init actions :=
  throughout_iff_eachStep (fun _ h => h) partitioned_step retry_loses_block actions
    partitioned_start

/-- A press from the interrupt to the give. -/
def pressFrom (b : Block) : List Act := [.btn0Press, .btn0 b, .btn0 b, .btn0 b, .btn0 b]

/-- The host does not read the reports, and the button is up. -/
structure Stalled (s : State) : Prop where
  live : s.faulted = false
  btn0 : s.btn0 = .idle
  main : s.main.waitsUsb = true

/-- A press in a stall takes one block and leaves it in evt_fifo. -/
theorem exists_pressed {s : State} (hreach : Reachable machine s) (hs : Stalled s) {b : Block}
    {rest : List Block} (hfree : s.free = b :: rest) :
    ∃ s', Reachable machine s' ∧ Stalled s' ∧ s'.free = rest ∧ s'.evtFifo ≠ [] := by
  let full : State := { s with
    free := rest, eventType := Function.update s.eventType b .gpioButton0,
    evtFifo := s.evtFifo ++ [b], btn0 := .give }
  have hexec : exec machine s (pressFrom b) = some { giveEvt full with btn0 := .idle } := by
    simp [exec, pressFrom, machine, step, producerStep, hs.live, hs.btn0, hfree, full]
  have hf := giveEvt_frame full
  have hwaits : (giveEvt full).main.waitsUsb = true := by
    rcases hf.main with hm | hm <;> rw [hm]
    · exact hs.main
    · exact (waitsUsb_wakeEvt _).trans hs.main
  refine ⟨_, hreach.exec _ hexec, ⟨?_, rfl, hwaits⟩, ?_, ?_⟩
  · exact (giveEvt_faulted full).trans hs.live
  · exact giveEvt_free full
  · simp [full]

/-- Presses in a stall take the whole pool. -/
theorem exists_exhausted (rest : List Block) {s : State} (hreach : Reachable machine s)
    (hs : Stalled s) (hfree : s.free = rest) (hfifo : s.evtFifo ≠ []) :
    ∃ s', Reachable machine s' ∧ Stalled s' ∧ s'.free = [] ∧ s'.evtFifo ≠ [] := by
  induction rest generalizing s with
  | nil => exact ⟨s, hreach, hs, hfree, hfifo⟩
  | cons b rest ih =>
    obtain ⟨s', hreach', hs', hfree', hfifo'⟩ := exists_pressed hreach hs hfree
    exact ih hreach' hs' hfree' hfifo'

/-- The flush of a failed allocation frees the whole FIFO before the retry. -/
theorem exists_flushed (fifo : List Block) {s : State} (hreach : Reachable machine s)
    (hlive : s.faulted = false) (hpc : s.btn0 = .flushGet) (hfifo : s.evtFifo = fifo)
    (hsome : s.free ≠ [] ∨ fifo ≠ []) :
    ∃ s', Reachable machine s' ∧ s'.faulted = false ∧ s'.btn0 = .realloc ∧ s'.free ≠ [] := by
  induction fifo generalizing s with
  | nil =>
    have hstep : machine.step s (.btn0 0) = some { s with btn0 := .realloc } := by
      simp [machine, step, producerStep, hlive, hpc, hfifo]
    refine ⟨_, hreach.step hstep, hlive, rfl, ?_⟩
    rcases hsome with hfree | hne
    · exact hfree
    · exact absurd rfl hne
  | cons b rest ih =>
    have hexec : exec machine s [.btn0 0, .btn0 0] =
        some { s with free := b :: s.free, evtFifo := rest, btn0 := .flushGet } := by
      simp [exec, machine, step, producerStep, hlive, hpc, hfifo]
    exact ih (hreach.exec _ hexec) hlive rfl rfl (Or.inl (by simp))

/-- A press whose completed report the host does not read, and one more press. -/
def stallRun : List Act :=
  pressFrom 0 ++ List.replicate 11 (.main true 1) ++ pressFrom 2

/-- A press in a stall comes to a retry that finds a block. -/
theorem exists_retry :
    ∃ s, Reachable machine s ∧ s.faulted = false ∧ s.btn0 = .realloc ∧ s.free ≠ [] := by
  obtain ⟨s, hreach, hs⟩ := exists_reachable_of_exec (M := machine)
    (p := fun s => !s.faulted && s.btn0 == .idle && s.main.waitsUsb && !s.evtFifo.isEmpty)
    stallRun (by decide)
  simp only [Bool.and_eq_true, beq_iff_eq, Bool.not_eq_true', List.isEmpty_eq_false_iff] at hs
  obtain ⟨t, hreach', ht, hfree, hfifo⟩ :=
    exists_exhausted s.free hreach ⟨hs.1.1.1, hs.1.1.2, hs.1.2⟩ rfl hs.2
  have hexec : exec machine t [.btn0Press, .btn0 0] = some { t with btn0 := .flushGet } := by
    simp [exec, machine, step, producerStep, ht.live, ht.btn0, hfree]
  exact exists_flushed t.evtFifo (hreach'.exec _ hexec) ht.live rfl rfl
    (Or.inr hfifo)

theorem block_lost : ¬ ∀ s, Reachable machine s → Partitioned s := by
  intro hall
  obtain ⟨s, hreach, hlive, hpc, hfree⟩ := exists_retry
  obtain ⟨b, rest, hb⟩ := List.exists_cons_of_ne_nil hfree
  have hstep : machine.step s (.btn0 b) = some { s with free := rest, btn0 := .deref } := by
    simp [machine, step, producerStep, hlive, hpc, hb]
  have hbad : ¬ retryFails s (.btn0 b) = true := by simp [retryFails, State.actor, hpc, hfree]
  exact retry_loses_block s _ _ (hall s hreach) hbad hstep (hall _ (hreach.step hstep))

/-- The pointer that a producer is about to write through or to put, NULL being none. -/
def ProducerPc.pointer : ProducerPc → Option (Option Block)
  | .deref => some none
  | .fill b | .put b => some (some b)
  | _ => none

/-- Every pointer that a producer uses is a block that it has been given: it is neither
free nor linked. -/
def PointersValid (s : State) : Prop :=
  ∀ p ∈ [s.btn0, s.ble, s.main.producer], ∀ x, p.pointer = some x →
    ∃ b, x = some b ∧ b ∉ s.free ∧ b ∉ s.evtFifo

/-- The step is not an allocation that meets an empty pool. -/
def allocFinds (s : State) (a : Act) : Bool := !exhausted s (s.actor a)

structure PoolInv (s : State) : Prop where
  blocks : Partitioned s
  flows : Flows s

theorem held_of_pointer {p : ProducerPc} {x : Option Block} (hx : p.pointer = some x)
    (hflow : p.flushing = false) : ∃ b, x = some b ∧ p.held = [b] := by
  cases p with
  | fill b | put b =>
    cases hx
    exact ⟨b, rfl, rfl⟩
  | deref => cases hflow
  | idle | alloc | flushGet | flushFree b | realloc | give => cases hx

theorem Partitioned.of_held {s : State} (h : Partitioned s) {b : Block}
    (hb : 0 < s.held.count b) : b ∉ s.free ∧ b ∉ s.evtFifo := by
  have hone := h b
  constructor
  · apply List.count_eq_zero.mp
    omega
  · apply List.count_eq_zero.mp
    omega

theorem held_count_le {s : State} {p : ProducerPc} (hp : p ∈ [s.btn0, s.ble, s.main.producer])
    (b : Block) : p.held.count b ≤ s.held.count b := by
  have hmain : s.main.producer.held.count b ≤ s.main.held.count b := by
    cases s.main <;> simp [MainPc.producer, MainPc.held, ProducerPc.held, List.count_cons]
  simp only [State.held, List.count_append]
  simp only [List.mem_cons, List.not_mem_nil, or_false] at hp
  rcases hp with rfl | rfl | rfl
  all_goals omega

theorem PoolInv.pointersValid {s : State} (h : PoolInv s) : PointersValid s := by
  intro p hp x hx
  have hflow : p.flushing = false := h.flows.all p hp
  obtain ⟨b, rfl, hheld⟩ := held_of_pointer hx hflow
  have hle := held_count_le hp b
  rw [hheld, List.count_cons_self] at hle
  exact ⟨b, rfl, h.blocks.of_held (by omega)⟩

theorem poolInv_start : PoolInv State.start := ⟨partitioned_start, rfl, rfl, rfl⟩

theorem poolInv_step (s : State) (a : Act) (s' : State) (h : PoolInv s)
    (halloc : allocFinds s a = true) (hstep : machine.step s a = some s') : PoolInv s' := by
  have hpool : exhausted s (s.actor a) = false := by simpa [allocFinds] using halloc
  refine ⟨partitioned_step s a s' h.blocks ?_ hstep, h.flows.step hpool hstep⟩
  have hactor := h.flows.actor a
  cases hp : s.actor a with
  | realloc =>
    rw [hp] at hactor
    cases hactor
  | _ => simp [retryFails, hp]

/-- While every allocation finds a free block, the producers write through and put only
the blocks that they were given. -/
theorem pointers_valid_of_allocFinds {s : State}
    (hrun : ReachableUnder machine (fun s a => allocFinds s a = true) s) : PointersValid s :=
  (reachableUnder_invariant poolInv_start poolInv_step hrun).pointersValid

theorem pointers_valid_after_press :
    ∃ s, s.btn0.pointer = some (some 3) ∧ PointersValid s := by
  obtain ⟨s, hrun, hs⟩ := exists_reachableUnder_of_exec (M := machine)
    (C := fun s a => allocFinds s a = true) (p := fun s => s.btn0.pointer == some (some 3))
    [.btn0Press, .btn0 3, .btn0 3] (by decide)
  exact ⟨s, beq_iff_eq.mp hs, pointers_valid_of_allocFinds hrun⟩

theorem null_written : ¬ ∀ s, Reachable machine s → PointersValid s := by
  intro hall
  obtain ⟨s, hreach, hlive, hpc, hfree⟩ := exists_retry
  obtain ⟨b, rest, hb⟩ := List.exists_cons_of_ne_nil hfree
  have hstep : machine.step s (.btn0 b) = some { s with free := rest, btn0 := .deref } := by
    simp [machine, step, producerStep, hlive, hpc, hb]
  obtain ⟨c, hc, _⟩ := hall _ (hreach.step hstep) .deref List.mem_cons_self none rfl
  cases hc

end NcsProjects.HidLocker
