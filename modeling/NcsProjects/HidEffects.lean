import NcsProjects.HidLocker

/-!
What a step of the lock token can do, said once. A step is one of a producer, or
one of main on its own, or it comes from outside: a press, a notification, a
completed transfer. Main in the middle of clear_kbd_report is a producer too.
-/
namespace NcsProjects.HidLocker

open Semaphores TransitionRuns

/-- Main is inside clear_kbd_report. -/
def MainPc.producing (b : Block) : ProducerPc → MainPc
  | .idle => .free b
  | p => .clear b p

/-- Where main goes from a write. -/
def MainPc.written (b : Block) : Evt → MainPc
  | .gpioButton0 => .clear b .alloc
  | .bleBtn => .clear b .alloc
  | .hidKbdClear => .free b

/-- The endpoint takes the report, or refuses it and main goes on all the same. -/
def State.written (s : State) (ok : Bool) (e : Evt) : State :=
  if ok then { s with inFlight := s.inFlight + 1, accepted := reportOf e :: s.accepted } else s

@[simp] theorem written_free (s : State) (ok : Bool) (e : Evt) :
    (s.written ok e).free = s.free := by
  cases ok <;> rfl

@[simp] theorem written_evtFifo (s : State) (ok : Bool) (e : Evt) :
    (s.written ok e).evtFifo = s.evtFifo := by
  cases ok <;> rfl

@[simp] theorem written_eventType (s : State) (ok : Bool) (e : Evt) :
    (s.written ok e).eventType = s.eventType := by
  cases ok <;> rfl

@[simp] theorem written_evtSem (s : State) (ok : Bool) (e : Evt) :
    (s.written ok e).evtSem = s.evtSem := by
  cases ok <;> rfl

@[simp] theorem written_btn0 (s : State) (ok : Bool) (e : Evt) :
    (s.written ok e).btn0 = s.btn0 := by
  cases ok <;> rfl

@[simp] theorem written_ble (s : State) (ok : Bool) (e : Evt) :
    (s.written ok e).ble = s.ble := by
  cases ok <;> rfl

/-- Everything that a step of main can do on its own. -/
inductive MainEffect (s : State) (ok : Bool) : State → Prop
  | takeEvt {sem : Sem Unit Unit 1} (hm : s.main = .takeEvt)
      (htake : s.evtSem.take 0 () = (some (), sem)) :
      MainEffect s ok { s with evtSem := sem, main := .get }
  | waitEvt {sem : Sem Unit Unit 1} (hm : s.main = .takeEvt)
      (htake : s.evtSem.take 0 () = (none, sem)) :
      MainEffect s ok { s with evtSem := sem, main := .waitEvt }
  | drained (hm : s.main = .get) (hfifo : s.evtFifo = []) :
      MainEffect s ok { s with main := .takeEvt }
  | get {b : Block} {rest : List Block} (hm : s.main = .get) (hfifo : s.evtFifo = b :: rest) :
      MainEffect s ok { s with evtFifo := rest, main := .takeUsb b (s.eventType b) }
  | takeUsb {b : Block} {e : Evt} {sem : Sem Unit Unit 1} (hm : s.main = .takeUsb b e)
      (htake : s.usbSem.take 0 () = (some (), sem)) :
      MainEffect s ok { s with usbSem := sem, main := .write b e }
  | waitUsb {b : Block} {e : Evt} {sem : Sem Unit Unit 1} (hm : s.main = .takeUsb b e)
      (htake : s.usbSem.take 0 () = (none, sem)) :
      MainEffect s ok { s with usbSem := sem, main := .waitUsb b e }
  | write {b : Block} {e : Evt} (hm : s.main = .write b e) :
      MainEffect s ok { s.written ok e with main := .written b e }
  | free {b : Block} (hm : s.main = .free b) :
      MainEffect s ok { s with free := b :: s.free, main := .get }

/-- Everything that a step can do. -/
inductive Effect (s : State) : Act → State → Prop
  | press (hp : s.btn0 = .idle) : Effect s .btn0Press { s with btn0 := .alloc }
  | notify {value : BitVec 8} (hp : s.ble = .idle) (hpos : 0 < value.toInt) :
      Effect s (.bleNotify value) { s with ble := .alloc }
  | btn0 {pick : Block} {p : ProducerPc} {s₁ : State}
      (hp : producerStep .gpioButton0 pick s.btn0 s = some (p, s₁)) :
      Effect s (.btn0 pick) { s₁ with btn0 := p }
  | ble {pick : Block} {p : ProducerPc} {s₁ : State}
      (hp : producerStep .bleBtn pick s.ble s = some (p, s₁)) :
      Effect s (.ble pick) { s₁ with ble := p }
  | clear {ok : Bool} {pick b : Block} {p p' : ProducerPc} {s₁ : State} (hm : s.main = .clear b p)
      (hp : producerStep .hidKbdClear pick p s = some (p', s₁)) :
      Effect s (.main ok pick) { s₁ with main := .producing b p' }
  | main {ok : Bool} {pick : Block} {s' : State} (h : MainEffect s ok s') :
      Effect s (.main ok pick) s'
  | inReady (hfl : s.inFlight ≠ 0) :
      Effect s .inReady (giveUsb { s with inFlight := s.inFlight - 1 })

/-- What a completed transfer writes: the endpoint's semaphore, and where main stands. -/
structure UsbFrame (s s' : State) : Prop where
  free : s'.free = s.free
  eventType : s'.eventType = s.eventType
  evtFifo : s'.evtFifo = s.evtFifo
  evtSem : s'.evtSem = s.evtSem
  btn0 : s'.btn0 = s.btn0
  ble : s'.ble = s.ble
  main : s'.main = s.main ∨ s'.main = s.main.wakeUsb

theorem giveUsb_frame (s : State) : UsbFrame s (giveUsb s) := by
  unfold giveUsb
  split
  · exact ⟨rfl, rfl, rfl, rfl, rfl, rfl, Or.inr rfl⟩
  · exact ⟨rfl, rfl, rfl, rfl, rfl, rfl, Or.inl rfl⟩

theorem mainStep_effect {ok : Bool} {pick : Block} {s s' : State}
    (h : mainStep ok pick s = some s') : Effect s (.main ok pick) s' := by
  cases hm : s.main with
  | takeEvt =>
    simp only [mainStep, hm] at h
    split at h
    · rename_i sem htake
      cases h
      exact .main (.takeEvt hm htake)
    · rename_i sem htake
      cases h
      exact .main (.waitEvt hm htake)
  | get =>
    simp only [mainStep, hm] at h
    split at h
    · rename_i hfifo
      cases h
      exact .main (.drained hm hfifo)
    · rename_i b rest hfifo
      cases h
      exact .main (.get hm hfifo)
  | takeUsb b e =>
    simp only [mainStep, hm] at h
    split at h
    · rename_i sem htake
      cases h
      exact .main (.takeUsb hm htake)
    · rename_i sem htake
      cases h
      exact .main (.waitUsb hm htake)
  | write b e =>
    have heq : s' = { s.written ok e with main := .written b e } := by
      cases ok <;> cases e <;> simp only [mainStep, hm] at h <;> cases h <;> rfl
    rw [heq]
    exact .main (.write hm)
  | clear b p =>
    simp only [mainStep, hm] at h
    split at h
    · cases h
    · rename_i s₁ hp
      cases h
      exact .clear hm hp
    · rename_i p' s₁ hne hp
      cases h
      have hprod : MainPc.producing b p' = .clear b p' := by
        cases p' with
        | idle => exact absurd rfl hne
        | _ => rfl
      rw [← hprod]
      exact .clear hm hp
  | free b =>
    simp only [mainStep, hm, Option.some.injEq] at h
    subst h
    exact .main (.free hm)
  | waitEvt | waitUsb b e => simp [mainStep, hm] at h

/-- A step is taken only before a fault, and does one of these things. -/
theorem step_effect {s s' : State} {a : Act} (h : step s a = some s') :
    s.faulted = false ∧ Effect s a s' := by
  unfold step at h
  split at h
  · cases h
  · rename_i hlive
    refine ⟨by simpa using hlive, ?_⟩
    cases a with
    | btn0Press =>
      simp only at h
      split at h
      · rename_i hp
        cases h
        exact .press hp
      · cases h
    | bleNotify value =>
      simp only at h
      split at h
      · rename_i hp
        cases h
        exact .notify hp.1 hp.2
      · cases h
    | btn0 pick =>
      simp only at h
      split at h
      · cases h
      · rename_i p s₁ hp
        cases h
        exact .btn0 hp
    | ble pick =>
      simp only at h
      split at h
      · cases h
      · rename_i p s₁ hp
        cases h
        exact .ble hp
    | main ok pick => exact mainStep_effect h
    | inReady =>
      simp only at h
      split at h
      · cases h
      · rename_i hfl
        cases h
        exact .inReady hfl

/-- An allocation at this point finds the pool empty. -/
def exhausted (s : State) (p : ProducerPc) : Bool := p == .alloc && s.free.isEmpty

def MainPc.waitsUsb : MainPc → Bool
  | .waitUsb _ _ => true
  | _ => false

@[simp] theorem waitsUsb_wakeEvt (pc : MainPc) : pc.wakeEvt.waitsUsb = pc.waitsUsb := by
  cases pc <;> rfl

def MainPc.producer : MainPc → ProducerPc
  | .clear _ p => p
  | _ => .idle

/-- Main on its own is not inside clear_kbd_report. -/
theorem MainEffect.producer_idle {s s' : State} {ok : Bool} (h : MainEffect s ok s') :
    s.main.producer = .idle := by
  cases h with
  | takeEvt hm _ | waitEvt hm _ | drained hm _ | get hm _ | takeUsb hm _ | waitUsb hm _
  | write hm | free hm =>
    rw [hm]
    rfl

/-- Where the producer stands that an action moves. -/
def State.actor (s : State) : Act → ProducerPc
  | .btn0 _ => s.btn0
  | .ble _ => s.ble
  | .main _ _ => s.main.producer
  | _ => .idle

/-- No thread is on the way from a failed allocation. -/
structure Flows (s : State) : Prop where
  btn0 : s.btn0.flushing = false
  ble : s.ble.flushing = false
  main : s.main.producer.flushing = false

theorem Flows.all {s : State} (h : Flows s) (p : ProducerPc)
    (hp : p ∈ [s.btn0, s.ble, s.main.producer]) : p.flushing = false := by
  simp only [List.mem_cons, List.not_mem_nil, or_false] at hp
  rcases hp with rfl | rfl | rfl
  · exact h.btn0
  · exact h.ble
  · exact h.main

theorem Flows.actor {s : State} (h : Flows s) (a : Act) : (s.actor a).flushing = false := by
  cases a with
  | btn0 => exact h.btn0
  | ble => exact h.ble
  | main => exact h.main
  | btn0Press | bleNotify | inReady => rfl

/-- A producer that finds a block goes on to its put. -/
theorem producerStep_flushing {evt : Evt} {pick : Block} {p p' : ProducerPc} {s s' : State}
    (h : producerStep evt pick p s = some (p', s')) (hflow : p.flushing = false)
    (hpool : exhausted s p = false) : p'.flushing = false := by
  cases p with
  | alloc =>
    have hfree : s.free ≠ [] := by simpa [exhausted] using hpool
    simp only [producerStep, if_neg hfree] at h
    split at h
    · cases h
      rfl
    · cases h
  | fill b | put b | give =>
    cases h
    rfl
  | idle => cases h
  | flushGet | flushFree b | realloc | deref => cases hflow

@[simp] theorem producer_wakeEvt (pc : MainPc) : pc.wakeEvt.producer = pc.producer := by
  cases pc <;> rfl

@[simp] theorem producer_wakeUsb (pc : MainPc) : pc.wakeUsb.producer = pc.producer := by
  cases pc <;> rfl

theorem producer_producing {b : Block} {p : ProducerPc} :
    (MainPc.producing b p).producer = p := by
  cases p <;> rfl

theorem ProducerFrame.producer_eq {s s' : State} (hf : ProducerFrame s s') :
    s'.main.producer = s.main.producer := by
  rcases hf.main with hm | hm <;> rw [hm]
  exact producer_wakeEvt _

theorem Flows.step {s s' : State} {a : Act} (h : Flows s)
    (hpool : exhausted s (s.actor a) = false) (hstep : step s a = some s') : Flows s' := by
  have hactor := h.actor a
  obtain ⟨_, heff⟩ := step_effect hstep
  cases heff with
  | press => exact ⟨rfl, h.ble, h.main⟩
  | notify => exact ⟨h.btn0, rfl, h.main⟩
  | btn0 hp =>
    have hf := producerStep_frame hp
    refine ⟨producerStep_flushing hp hactor hpool, ?_, ?_⟩
    · rw [hf.ble]
      exact h.ble
    · rw [hf.producer_eq]
      exact h.main
  | ble hp =>
    have hf := producerStep_frame hp
    refine ⟨?_, producerStep_flushing hp hactor hpool, ?_⟩
    · rw [hf.btn0]
      exact h.btn0
    · rw [hf.producer_eq]
      exact h.main
  | clear hm hp =>
    have hf := producerStep_frame hp
    simp only [State.actor, hm, MainPc.producer] at hactor hpool
    refine ⟨?_, ?_, ?_⟩
    · rw [hf.btn0]
      exact h.btn0
    · rw [hf.ble]
      exact h.ble
    · rw [producer_producing]
      exact producerStep_flushing hp hactor hpool
  | main heff =>
    cases heff with
    | write hm =>
      rename_i b e
      refine ⟨?_, ?_, ?_⟩
      · rw [written_btn0]
        exact h.btn0
      · rw [written_ble]
        exact h.ble
      · cases e <;> rfl
    | takeEvt | waitEvt | drained | get | takeUsb | waitUsb | free =>
      exact ⟨h.btn0, h.ble, rfl⟩
  | inReady =>
    have hf := giveUsb_frame { s with inFlight := s.inFlight - 1 }
    refine ⟨?_, ?_, ?_⟩
    · rw [hf.btn0]
      exact h.btn0
    · rw [hf.ble]
      exact h.ble
    · rcases hf.main with hm | hm <;> rw [hm]
      · exact h.main
      · rw [producer_wakeUsb]
        exact h.main

end NcsProjects.HidLocker
