import Mathlib.Data.Fin.Basic
import Mathlib.Data.List.FinRange
import NcsProjects.Semaphores
import NcsProjects.TransitionRuns

/-!
The event loop of the USB lock token. A button interrupt and a Bluetooth
notification allocate an event from a pool of 255 blocks, put it into evt_fifo
and give evt_sem; main takes the events, writes one keyboard report for each and
follows every lock report by an event that releases the keys. Each step below is
one kernel call or one write to an event, so the actions of a run interleave
main, the two producers and the completion callback of the USB endpoint in
every order.
-/
namespace NcsProjects.HidLocker

open Semaphores TransitionRuns

inductive Evt
  | gpioButton0
  | bleBtn
  | hidKbdClear
  deriving DecidableEq

abbrev fifoElemCount : ℕ := 255

theorem fifoElemCount_ne_zero : fifoElemCount ≠ 0 := by decide

instance : @NeZero ℕ Zero.ofOfNat0 fifoElemCount := ⟨fifoElemCount_ne_zero⟩

abbrev Block := Fin fifoElemCount

abbrev Report := List (BitVec 8)

def hidKbdModifierRightUi : BitVec 8 := 0x80

def hidKeyL : BitVec 8 := 0x0F

def lockRep : Report := [hidKbdModifierRightUi, 0, 0, 0, 0, 0, 0, hidKeyL]

def clearRep : Report := [0, 0, 0, 0, 0, 0, 0, 0]

/-- The report that main writes for an event. -/
def reportOf : Evt → Report
  | .gpioButton0 => lockRep
  | .bleBtn => lockRep
  | .hidKbdClear => clearRep

/-- Where a thread stands that allocates, fills, puts and announces an event. -/
inductive ProducerPc
  | idle
  | alloc
  | flushGet
  | flushFree (b : Block)
  | realloc
  | deref
  | fill (b : Block)
  | put (b : Block)
  | give
  deriving DecidableEq

/-- The pool is empty on the way to this point, and the FIFO gets flushed. -/
def ProducerPc.flushing : ProducerPc → Bool
  | .flushGet | .flushFree _ | .realloc | .deref => true
  | _ => false

inductive MainPc
  | takeEvt
  | waitEvt
  | get
  | takeUsb (b : Block) (e : Evt)
  | waitUsb (b : Block) (e : Evt)
  | write (b : Block) (e : Evt)
  | clear (b : Block) (p : ProducerPc)
  | free (b : Block)
  deriving DecidableEq

structure State where
  free : List Block
  eventType : Block → Evt
  evtFifo : List Block
  evtSem : Sem Unit Unit 1
  usbSem : Sem Unit Unit 1
  inFlight : ℕ
  /-- The reports the USB stack has accepted, the last one first. -/
  accepted : List Report
  main : MainPc
  btn0 : ProducerPc
  ble : ProducerPc
  faulted : Bool

def State.start : State where
  free := List.finRange fifoElemCount
  eventType := fun _ => .gpioButton0
  evtFifo := []
  evtSem := Sem.start [] Sem.empty_fits
  usbSem := Sem.start [()] (by decide)
  inFlight := 0
  accepted := []
  main := .takeEvt
  btn0 := .idle
  ble := .idle
  faulted := false

def MainPc.wakeEvt : MainPc → MainPc
  | .waitEvt => .get
  | pc => pc

def MainPc.wakeUsb : MainPc → MainPc
  | .waitUsb b e => .write b e
  | pc => pc

/-- k_sem_give(&evt_sem) -/
def giveEvt (s : State) : State :=
  match s.evtSem.give () with
  | (some (), sem) => { s with evtSem := sem, main := s.main.wakeEvt }
  | (none, sem) => { s with evtSem := sem }

/-- k_sem_give(&usb_sem) -/
def giveUsb (s : State) : State :=
  match s.usbSem.give () with
  | (some (), sem) => { s with usbSem := sem, main := s.main.wakeUsb }
  | (none, sem) => { s with usbSem := sem }

/-- One step of app_evt_alloc, the write of event_type, app_evt_put and the give.
A failed allocation flushes the FIFO, allocates again and returns NULL whatever
the second result is, so the write of event_type faults. -/
def producerStep (evt : Evt) (pick : Block) (p : ProducerPc) (s : State) :
    Option (ProducerPc × State) :=
  match p with
  | .idle => none
  | .alloc =>
    if s.free = [] then some (.flushGet, s)
    else if pick ∈ s.free then some (.fill pick, { s with free := s.free.erase pick })
    else none
  | .flushGet =>
    match s.evtFifo with
    | [] => some (.realloc, s)
    | b :: rest => some (.flushFree b, { s with evtFifo := rest })
  | .flushFree b => some (.flushGet, { s with free := b :: s.free })
  | .realloc =>
    if s.free = [] then some (.deref, s)
    else if pick ∈ s.free then some (.deref, { s with free := s.free.erase pick })
    else none
  | .deref => some (.deref, { s with faulted := true })
  | .fill b => some (.put b, { s with eventType := Function.update s.eventType b evt })
  | .put b => some (.give, { s with evtFifo := s.evtFifo ++ [b] })
  | .give => some (.idle, giveEvt s)

/-- One step of the loop of main. `ok` is the result of hid_int_ep_write, which
main does not look at; `pick` is the block an allocation gets. -/
def mainStep (ok : Bool) (pick : Block) (s : State) : Option State :=
  match s.main with
  | .takeEvt =>
    match s.evtSem.take 0 () with
    | (some (), sem) => some { s with evtSem := sem, main := .get }
    | (none, sem) => some { s with evtSem := sem, main := .waitEvt }
  | .waitEvt => none
  | .get =>
    match s.evtFifo with
    | [] => some { s with main := .takeEvt }
    | b :: rest => some { s with evtFifo := rest, main := .takeUsb b (s.eventType b) }
  | .takeUsb b e =>
    match s.usbSem.take 0 () with
    | (some (), sem) => some { s with usbSem := sem, main := .write b e }
    | (none, sem) => some { s with usbSem := sem, main := .waitUsb b e }
  | .waitUsb _ _ => none
  | .write b e =>
    let next := match e with
      | .gpioButton0 => MainPc.clear b .alloc
      | .bleBtn => MainPc.clear b .alloc
      | .hidKbdClear => MainPc.free b
    if ok then
      some { s with inFlight := s.inFlight + 1, accepted := reportOf e :: s.accepted, main := next }
    else some { s with main := next }
  | .clear b p =>
    match producerStep .hidKbdClear pick p s with
    | none => none
    | some (.idle, s') => some { s' with main := .free b }
    | some (p', s') => some { s' with main := .clear b p' }
  | .free b => some { s with free := b :: s.free, main := .get }

inductive Act
  | btn0Press
  | bleNotify (value : BitVec 8)
  | btn0 (pick : Block)
  | ble (pick : Block)
  | main (ok : Bool) (pick : Block)
  | inReady

/-- A fault stops the whole system. The endpoint completes only transfers it has
accepted, and calls in_ready_cb once for each. -/
def step (s : State) (a : Act) : Option State :=
  if s.faulted then none
  else match a with
    | .btn0Press => if s.btn0 = .idle then some { s with btn0 := .alloc } else none
    | .bleNotify value =>
      if s.ble = .idle ∧ 0 < value.toInt then some { s with ble := .alloc } else none
    | .btn0 pick =>
      match producerStep .gpioButton0 pick s.btn0 s with
      | none => none
      | some (p, s') => some { s' with btn0 := p }
    | .ble pick =>
      match producerStep .bleBtn pick s.ble s with
      | none => none
      | some (p, s') => some { s' with ble := p }
    | .main ok pick => mainStep ok pick s
    | .inReady =>
      if s.inFlight = 0 then none else some (giveUsb { s with inFlight := s.inFlight - 1 })

def machine : Machine State Act := ⟨State.start, step⟩

/-- What no step of a producer touches: the endpoint, its semaphore and where the
threads stand, except that a give may wake main. -/
structure ProducerFrame (s s' : State) : Prop where
  usbSem : s'.usbSem = s.usbSem
  inFlight : s'.inFlight = s.inFlight
  accepted : s'.accepted = s.accepted
  btn0 : s'.btn0 = s.btn0
  ble : s'.ble = s.ble
  main : s'.main = s.main ∨ s'.main = s.main.wakeEvt

theorem ProducerFrame.rfl (s : State) : ProducerFrame s s :=
  ⟨Eq.refl _, Eq.refl _, Eq.refl _, Eq.refl _, Eq.refl _, Or.inl (Eq.refl _)⟩

/-- Main allocating its release event is not waiting for one. -/
theorem ProducerFrame.main_clear {s s' : State} (hf : ProducerFrame s s') {b : Block}
    {p : ProducerPc} (hm : s.main = .clear b p) : s'.main = .clear b p := by
  rcases hf.main with heq | heq
  · rw [heq, hm]
  · simp [heq, hm, MainPc.wakeEvt]

theorem giveEvt_frame (s : State) : ProducerFrame s (giveEvt s) := by
  unfold giveEvt
  split
  · exact ⟨rfl, rfl, rfl, rfl, rfl, Or.inr rfl⟩
  · exact ⟨rfl, rfl, rfl, rfl, rfl, Or.inl rfl⟩

@[simp] theorem giveEvt_evtFifo (s : State) : (giveEvt s).evtFifo = s.evtFifo := by
  unfold giveEvt
  split <;> rfl

theorem producerStep_frame {evt : Evt} {pick : Block} {p p' : ProducerPc} {s s' : State}
    (h : producerStep evt pick p s = some (p', s')) : ProducerFrame s s' := by
  cases p with
  | idle => cases h
  | alloc =>
    simp only [producerStep] at h
    split at h
    · cases h
      exact ProducerFrame.rfl s
    · split at h
      · cases h
        exact ⟨rfl, rfl, rfl, rfl, rfl, Or.inl rfl⟩
      · cases h
  | flushGet =>
    simp only [producerStep] at h
    split at h
    · cases h
      exact ProducerFrame.rfl s
    · cases h
      exact ⟨rfl, rfl, rfl, rfl, rfl, Or.inl rfl⟩
  | realloc =>
    simp only [producerStep] at h
    split at h
    · cases h
      exact ProducerFrame.rfl s
    · split at h
      · cases h
        exact ⟨rfl, rfl, rfl, rfl, rfl, Or.inl rfl⟩
      · cases h
  | give =>
    cases h
    exact giveEvt_frame s
  | flushFree b | deref | fill b | put b =>
    cases h
    exact ⟨rfl, rfl, rfl, rfl, rfl, Or.inl rfl⟩

end NcsProjects.HidLocker
