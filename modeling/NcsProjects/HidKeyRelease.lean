import NcsProjects.HidEffects

/-!
Every lock report is followed by the event that releases the keys. While the last
accepted report is the lock report, something is still on its way: main has not
put the release event yet, or an event waits in the FIFO, or main is at the
endpoint with one. Two steps can break this: an allocation from an empty pool,
which flushes the FIFO, and a refused release report with nothing behind it.
-/
namespace NcsProjects.HidLocker

open Semaphores TransitionRuns

/-- Main sleeps with nothing to do and some report went out: it is the release. -/
def KeysReleased (s : State) : Prop :=
  s.main = .waitEvt → s.evtFifo = [] → s.accepted ≠ [] → s.accepted.head? = some clearRep

def MainPc.writesClear : MainPc → Bool
  | .write _ .hidKbdClear => true
  | _ => false

/-- No allocation meets an exhausted pool, and no release report is refused while
the keys are down and the FIFO holds no further event. -/
def releaseSafe (s : State) : Act → Bool
  | .btn0 _ => !exhausted s s.btn0
  | .ble _ => !exhausted s s.ble
  | .main ok _ =>
    !exhausted s s.main.producer &&
      !(s.main.writesClear && !ok && s.evtFifo.isEmpty && s.accepted.head? == some lockRep)
  | _ => true

/-- Main is on its way to put or to write a further report. -/
def MainPc.releasing : MainPc → Bool
  | .takeUsb _ _ | .waitUsb _ _ | .write _ _ => true
  | .clear _ .alloc | .clear _ (.fill _) | .clear _ (.put _) => true
  | _ => false

structure ReleaseInv (s : State) : Prop where
  btn0_flows : s.btn0.flushing = false
  ble_flows : s.ble.flushing = false
  main_flows : s.main.producer.flushing = false
  known : s.accepted.head? = none ∨ s.accepted.head? = some lockRep ∨
    s.accepted.head? = some clearRep
  pending : s.accepted.head? = some lockRep → s.evtFifo ≠ [] ∨ s.main.releasing = true

theorem ReleaseInv.keysReleased {s : State} (h : ReleaseInv s) : KeysReleased s := by
  intro hmain hfifo hne
  rcases h.known with hnone | hlock | hclear
  · exact absurd (List.head?_eq_none_iff.mp hnone) hne
  · rcases h.pending hlock with hq | hr
    · exact absurd hfifo hq
    · simp [hmain, MainPc.releasing] at hr
  · exact hclear

theorem releaseInv_start : ReleaseInv State.start :=
  ⟨rfl, rfl, rfl, Or.inl rfl, (by rintro ⟨⟩)⟩

/-- A step of a producer that finds a block never flushes, and only adds to the FIFO. -/
theorem producerStep_flows {evt : Evt} {pick : Block} {p p' : ProducerPc} {s s' : State}
    (h : producerStep evt pick p s = some (p', s')) (hflow : p.flushing = false)
    (hpool : exhausted s p = false) :
    p'.flushing = false ∧ (s.evtFifo ≠ [] → s'.evtFifo ≠ []) ∧
      (∀ b, (MainPc.clear b p).releasing = true →
        s'.evtFifo ≠ [] ∨ (MainPc.clear b p').releasing = true) := by
  cases p with
  | alloc =>
    have hfree : s.free ≠ [] := by simpa [exhausted] using hpool
    simp only [producerStep, if_neg hfree] at h
    split at h
    · cases h
      exact ⟨rfl, id, fun _ _ => Or.inr rfl⟩
    · cases h
  | fill b =>
    cases h
    exact ⟨rfl, id, fun _ _ => Or.inr rfl⟩
  | put b =>
    cases h
    exact ⟨rfl, by simp, fun _ _ => Or.inl (by simp)⟩
  | give =>
    cases h
    exact ⟨rfl, by simp, (by rintro _ ⟨⟩)⟩
  | idle => cases h
  | flushGet | flushFree b | realloc | deref => cases hflow

@[simp] theorem releasing_wakeEvt (pc : MainPc) : pc.wakeEvt.releasing = pc.releasing := by
  cases pc <;> rfl

theorem ProducerFrame.releasing_eq {s s' : State} (hf : ProducerFrame s s') :
    s'.main.releasing = s.main.releasing := by
  rcases hf.main with hm | hm <;> rw [hm]
  exact releasing_wakeEvt _

/-- A producer other than main keeps the invariant, whatever becomes of its own place. -/
theorem ReleaseInv.producer {evt : Evt} {pick : Block} {p p' : ProducerPc} {s s' : State}
    (h : ReleaseInv s) (hp : producerStep evt pick p s = some (p', s'))
    (hflow : p.flushing = false) (hpool : exhausted s p = false) :
    ReleaseInv s' ∧ p'.flushing = false := by
  have hf := producerStep_frame hp
  obtain ⟨hflow', hfifo, _⟩ := producerStep_flows hp hflow hpool
  refine ⟨⟨?_, ?_, ?_, ?_, ?_⟩, hflow'⟩
  · rw [hf.btn0]
    exact h.btn0_flows
  · rw [hf.ble]
    exact h.ble_flows
  · rw [hf.producer_eq]
    exact h.main_flows
  · rw [hf.accepted]
    exact h.known
  · intro hlock
    rw [hf.accepted] at hlock
    rw [hf.releasing_eq]
    exact (h.pending hlock).imp_left hfifo

/-- Main putting its release event loses neither the event nor what waits before it. -/
theorem ReleaseInv.put_pending {evt : Evt} {pick b : Block} {p p' : ProducerPc} {s s' : State}
    (h : ReleaseInv s) (hp : producerStep evt pick p s = some (p', s')) (hm : s.main = .clear b p)
    (hflow : p.flushing = false) (hpool : exhausted s p = false)
    (hlock : s'.accepted.head? = some lockRep) :
    s'.evtFifo ≠ [] ∨ (MainPc.clear b p').releasing = true := by
  obtain ⟨_, hfifo, hput⟩ := producerStep_flows hp hflow hpool
  rw [(producerStep_frame hp).accepted] at hlock
  rcases h.pending hlock with hq | hrel
  · exact Or.inl (hfifo hq)
  · rw [hm] at hrel
    exact hput b hrel

/-- Main moves without touching the FIFO, the reports or the other threads. -/
theorem ReleaseInv.main {s s' : State} (h : ReleaseInv s) (hbtn0 : s'.btn0 = s.btn0)
    (hble : s'.ble = s.ble) (hacc : s'.accepted = s.accepted)
    (hflow : s'.main.producer.flushing = false)
    (hpend : s.accepted.head? = some lockRep → s'.evtFifo ≠ [] ∨ s'.main.releasing = true) :
    ReleaseInv s' := by
  refine ⟨?_, ?_, hflow, ?_, ?_⟩
  · rw [hbtn0]
    exact h.btn0_flows
  · rw [hble]
    exact h.ble_flows
  · rw [hacc]
    exact h.known
  · rw [hacc]
    exact hpend

theorem ReleaseInv.giveUsb_inFlight {s : State} (h : ReleaseInv s) :
    ReleaseInv (giveUsb { s with inFlight := s.inFlight - 1 }) := by
  have hrel : s.main.releasing = true → s.main.wakeUsb.releasing = true := by
    cases s.main <;> exact id
  have hprod : s.main.wakeUsb.producer = s.main.producer := by
    cases s.main <;> rfl
  unfold giveUsb
  split
  · exact h.main rfl rfl rfl (by rw [hprod]; exact h.main_flows)
      fun hlock => (h.pending hlock).imp_right hrel
  · exact h.main rfl rfl rfl h.main_flows h.pending

/-- A report that the endpoint takes is the head of the reports; a release report that it
refuses leaves an event behind. -/
theorem ReleaseInv.write {s : State} {ok : Bool} {pick b : Block} {e : Evt} (h : ReleaseInv s)
    (hsafe : releaseSafe s (.main ok pick) = true) (hm : s.main = .write b e) :
    ReleaseInv { s.written ok e with main := .written b e } := by
  cases e with
  | gpioButton0 | bleBtn =>
    cases ok with
    | false => exact h.main rfl rfl rfl rfl fun _ => Or.inr rfl
    | true => exact ⟨h.btn0_flows, h.ble_flows, rfl, Or.inr (Or.inl rfl), fun _ => Or.inr rfl⟩
  | hidKbdClear =>
    cases ok with
    | false =>
      refine h.main rfl rfl rfl rfl fun hlock => Or.inl ?_
      simpa [releaseSafe, hm, MainPc.producer, MainPc.writesClear, exhausted, hlock] using hsafe
    | true =>
      refine ⟨h.btn0_flows, h.ble_flows, rfl, Or.inr (Or.inr rfl), ?_⟩
      intro hlock
      have hne : clearRep ≠ lockRep := by decide
      exact absurd (Option.some.inj hlock) hne

theorem MainEffect.releaseInv {s s' : State} {ok : Bool} {pick : Block}
    (heff : MainEffect s ok s') (h : ReleaseInv s)
    (hsafe : releaseSafe s (.main ok pick) = true) : ReleaseInv s' := by
  have hpend := h.pending
  cases heff with
  | takeEvt hm _ | waitEvt hm _ | drained hm _ | free hm =>
    simp only [hm, MainPc.releasing, Bool.false_eq_true, or_false] at hpend
    exact h.main rfl rfl rfl rfl fun hlock => Or.inl (hpend hlock)
  | get _ _ | takeUsb _ _ | waitUsb _ _ => exact h.main rfl rfl rfl rfl fun _ => Or.inr rfl
  | write hm => exact h.write hsafe hm

/-- Main inside clear_kbd_report goes on to its put. -/
theorem ReleaseInv.clear {s s₁ : State} {ok : Bool} {pick b : Block} {p p' : ProducerPc}
    (h : ReleaseInv s) (hsafe : releaseSafe s (.main ok pick) = true) (hm : s.main = .clear b p)
    (hp : producerStep .hidKbdClear pick p s = some (p', s₁)) :
    ReleaseInv { s₁ with main := .producing b p' } := by
  have hflow : p.flushing = false := by simpa [hm, MainPc.producer] using h.main_flows
  have hpool : exhausted s p = false := by
    have hboth := hsafe
    simp only [releaseSafe, hm, MainPc.producer, Bool.and_eq_true, Bool.not_eq_true'] at hboth
    exact hboth.1
  obtain ⟨h₁, hflow₁⟩ := h.producer hp hflow hpool
  have hput := h.put_pending hp hm hflow hpool
  refine h₁.main rfl rfl rfl ?_ ?_
  · rw [producer_producing]
    exact hflow₁
  · rw [(producerStep_frame hp).accepted] at hput ⊢
    intro hlock
    refine (hput hlock).imp_right ?_
    cases p' <;> exact id

theorem releaseInv_step (s : State) (a : Act) (s' : State) (h : ReleaseInv s)
    (hsafe : releaseSafe s a = true) (hstep : machine.step s a = some s') : ReleaseInv s' := by
  cases (step_effect hstep).2 with
  | press _ => exact ⟨rfl, h.ble_flows, h.main_flows, h.known, h.pending⟩
  | notify _ _ => exact ⟨h.btn0_flows, rfl, h.main_flows, h.known, h.pending⟩
  | btn0 hp =>
    have hpool : exhausted s s.btn0 = false := by simpa [releaseSafe] using hsafe
    obtain ⟨h₁, hflow⟩ := h.producer hp h.btn0_flows hpool
    exact ⟨hflow, h₁.ble_flows, h₁.main_flows, h₁.known, h₁.pending⟩
  | ble hp =>
    have hpool : exhausted s s.ble = false := by simpa [releaseSafe] using hsafe
    obtain ⟨h₁, hflow⟩ := h.producer hp h.ble_flows hpool
    exact ⟨h₁.btn0_flows, hflow, h₁.main_flows, h₁.known, h₁.pending⟩
  | clear hm hp => exact h.clear hsafe hm hp
  | main heff => exact heff.releaseInv h hsafe
  | inReady _ => exact h.giveUsb_inFlight

/-- In every run whose allocations find a free block and whose release reports are
not refused with nothing behind them, no key stays pressed. -/
theorem keys_released_of_releaseSafe {s : State}
    (hrun : ReachableUnder machine (fun s a => releaseSafe s a = true) s) : KeysReleased s :=
  (reachableUnder_invariant releaseInv_start releaseInv_step hrun).keysReleased

/-- A press of the button up to main asleep, with both reports accepted or with the
release report refused. -/
def onePress (ok : Bool) : List Act :=
  [.btn0Press, .btn0 0, .btn0 0, .btn0 0, .btn0 0,
    .main true 0, .main true 0, .main true 0, .main true 0,
    .main true 1, .main true 1, .main true 1, .main true 1, .main true 1, .inReady,
    .main true 1, .main true 1, .main ok 1, .main true 1,
    .main true 1, .main true 1, .main true 1, .main true 1]

theorem keys_released_after_press :
    ∃ s, s.main = .waitEvt ∧ s.evtFifo = [] ∧ s.accepted ≠ [] ∧ KeysReleased s := by
  obtain ⟨s, hrun, hs⟩ := exists_reachableUnder_of_exec (M := machine)
    (C := fun s a => releaseSafe s a = true)
    (p := fun s => s.main == .waitEvt && s.evtFifo.isEmpty && !s.accepted.isEmpty)
    (onePress true) (by decide)
  simp only [Bool.and_eq_true, beq_iff_eq, List.isEmpty_iff, Bool.not_eq_true',
    List.isEmpty_eq_false_iff] at hs
  exact ⟨s, hs.1.1, hs.1.2, hs.2, keys_released_of_releaseSafe hrun⟩

theorem key_stays_pressed : ¬ ∀ s, Reachable machine s → KeysReleased s := by
  intro hall
  obtain ⟨s, hreach, hs⟩ := exists_reachable_of_exec (M := machine)
    (p := fun s => s.main == .waitEvt && s.evtFifo.isEmpty && s.accepted == [lockRep])
    (onePress false) (by decide)
  simp only [Bool.and_eq_true, beq_iff_eq, List.isEmpty_iff] at hs
  have hclear := hall s hreach hs.1.1 hs.1.2 (by simp [hs.2])
  rw [hs.2] at hclear
  have hne : lockRep ≠ clearRep := by decide
  exact hne (Option.some.inj hclear)

end NcsProjects.HidLocker
