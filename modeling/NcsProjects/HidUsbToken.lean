import NcsProjects.HidEffects

/-!
The token of usb_sem. Main takes it before each report and only the completion
callback gives it back, so the token and the transfers in flight add up to one as
long as the endpoint accepts every report. A report that the endpoint refuses
loses the token: no completion follows it.
-/
namespace NcsProjects.HidLocker

open Semaphores TransitionRuns

/-- The instant between the take of usb_sem and its write. -/
def MainPc.writing : MainPc → Bool
  | .write _ _ => true
  | _ => false

/-- The law of the transfer token, in one state. -/
structure TokenConserved (s : State) : Prop where
  conserved : s.main.writing = false → s.usbSem.count + s.inFlight = 1
  waiting_has_transfer : s.main.waitsUsb = true → 0 < s.inFlight
  write_finds_none : s.main.writing = true → s.inFlight = 0

/-- The step is not a call of hid_int_ep_write that fails. -/
def writeAccepted (s : State) : Act → Bool
  | .main ok _ => !s.main.writing || ok
  | _ => true

structure TokenInv (s : State) : Prop where
  balance : s.usbSem.tokens.length + s.inFlight + (if s.main.writing then 1 else 0) = 1
  waiters : s.usbSem.waiters = if s.main.waitsUsb then [()] else []

theorem TokenInv.tokenConserved {s : State} (h : TokenInv s) : TokenConserved s := by
  have hbalance := h.balance
  refine ⟨?_, ?_, ?_⟩
  · intro hw
    simpa [hw, Sem.count] using hbalance
  · intro hw
    have hwaiters : s.usbSem.waiters ≠ [] := by simp [h.waiters, hw]
    have htokens : s.usbSem.tokens = [] := s.usbSem.no_wait hwaiters
    have hwriting : s.main.writing = false := by
      cases hm : s.main <;> simp_all [MainPc.waitsUsb, MainPc.writing]
    simp only [htokens, hwriting, List.length_nil, Bool.false_eq_true, if_false] at hbalance
    omega
  · intro hw
    simp only [hw, if_true] at hbalance
    omega

theorem tokenInv_start : TokenInv State.start := ⟨rfl, rfl⟩

/-- The invariant reads the endpoint, its semaphore and whether main stands at it. -/
theorem TokenInv.congr {s s' : State} (h : TokenInv s) (hsem : s'.usbSem = s.usbSem)
    (hfl : s'.inFlight = s.inFlight) (hwriting : s'.main.writing = s.main.writing)
    (hwaits : s'.main.waitsUsb = s.main.waitsUsb) : TokenInv s' := by
  refine ⟨?_, ?_⟩
  · rw [hsem, hfl, hwriting]
    exact h.balance
  · rw [hsem, hwaits]
    exact h.waiters

@[simp] theorem writing_wakeEvt (pc : MainPc) : pc.wakeEvt.writing = pc.writing := by
  cases pc <;> rfl

theorem ProducerFrame.tokenInv {s s' : State} (hf : ProducerFrame s s') (h : TokenInv s) :
    TokenInv s' := by
  refine h.congr hf.usbSem hf.inFlight ?_ ?_
  · rcases hf.main with hm | hm <;> rw [hm]
    exact writing_wakeEvt _
  · rcases hf.main with hm | hm <;> rw [hm]
    exact waitsUsb_wakeEvt _

/-- A completion returns the token, to main if it waits and to the semaphore otherwise. -/
theorem tokenInv_inReady {s : State} (h : TokenInv s) (hfl : s.inFlight ≠ 0) :
    TokenInv (giveUsb { s with inFlight := s.inFlight - 1 }) := by
  have hbalance := h.balance
  have hnone : s.usbSem.tokens.length = 0 := by omega
  have hwriting : s.main.writing = false := by
    by_contra hw
    simp only [Bool.not_eq_false] at hw
    simp only [hw, if_true] at hbalance
    omega
  simp only [hwriting, Bool.false_eq_true, if_false] at hbalance
  cases hwaits : s.main.waitsUsb with
  | true =>
    have hw : s.usbSem.waiters = [()] := by simp [h.waiters, hwaits]
    obtain ⟨sem, hgive, htokens, hrest⟩ := Sem.give_of_waiting s.usbSem () hw
    obtain ⟨b, e, hm⟩ : ∃ b e, s.main = .waitUsb b e := by
      cases hm : s.main <;> simp_all [MainPc.waitsUsb]
    have hwoken : s.main.wakeUsb = .write b e := by rw [hm]; rfl
    simp only [giveUsb, hgive, hwoken]
    refine ⟨?_, hrest⟩
    simp only [MainPc.writing, if_true, htokens, hnone]
    omega
  | false =>
    have hw : s.usbSem.waiters = [] := by simp [h.waiters, hwaits]
    obtain ⟨sem, hgive, hrest, htokens⟩ := Sem.give_of_idle s.usbSem () hw
    simp only [giveUsb, hgive]
    refine ⟨?_, by simp [hrest, hwaits]⟩
    simp [hwriting, htokens, hnone]
    omega

/-- One step of main keeps the invariant, unless it is a refused write. -/
theorem MainEffect.tokenInv {s s' : State} {ok : Bool} {pick : Block} (heff : MainEffect s ok s')
    (h : TokenInv s) (hok : writeAccepted s (.main ok pick) = true) : TokenInv s' := by
  have hbalance := h.balance
  have hwaiters := h.waiters
  cases heff with
  | takeEvt hm _ | waitEvt hm _ | drained hm _ | get hm _ | free hm =>
    exact h.congr rfl rfl (by rw [hm]; rfl) (by rw [hm]; rfl)
  | takeUsb hm htake =>
    obtain ⟨htokens, hsame⟩ := Sem.take_some htake
    simp only [hm, MainPc.writing, MainPc.waitsUsb, Bool.false_eq_true, if_false, htokens,
      List.length_cons] at hbalance hwaiters
    refine ⟨?_, by simpa [hsame, MainPc.waitsUsb] using hwaiters⟩
    simp only [MainPc.writing, if_true]
    omega
  | waitUsb hm htake =>
    obtain ⟨hempty, htokens, hjoin⟩ := Sem.take_none htake
    simp only [hm, MainPc.writing, MainPc.waitsUsb, Bool.false_eq_true, if_false, hempty,
      List.length_nil] at hbalance hwaiters
    refine ⟨?_, by simp [hjoin, hwaiters, MainPc.waitsUsb, enqueue_nil]⟩
    simp only [MainPc.writing, Bool.false_eq_true, if_false, htokens, List.length_nil]
    omega
  | @write b e hm =>
    have hok : ok = true := by simpa [writeAccepted, hm, MainPc.writing] using hok
    subst hok
    simp only [hm, MainPc.writing, MainPc.waitsUsb, if_true, Bool.false_eq_true,
      if_false] at hbalance hwaiters
    have hplace : (MainPc.written b e).writing = false ∧ (MainPc.written b e).waitsUsb = false := by
      cases e <;> exact ⟨rfl, rfl⟩
    refine ⟨?_, by simpa [hplace.2, State.written] using hwaiters⟩
    simp only [hplace.1, State.written, if_true, Bool.false_eq_true, if_false]
    omega

@[simp] theorem writing_producing (b : Block) (p : ProducerPc) :
    (MainPc.producing b p).writing = false := by
  cases p <;> rfl

@[simp] theorem waitsUsb_producing (b : Block) (p : ProducerPc) :
    (MainPc.producing b p).waitsUsb = false := by
  cases p <;> rfl

theorem tokenInv_step (s : State) (a : Act) (s' : State) (h : TokenInv s)
    (hok : writeAccepted s a = true) (hstep : machine.step s a = some s') : TokenInv s' := by
  cases (step_effect hstep).2 with
  | press _ | notify _ _ => exact h.congr rfl rfl rfl rfl
  | btn0 hp | ble hp => exact ((producerStep_frame hp).tokenInv h).congr rfl rfl rfl rfl
  | clear hm hp =>
    have hm' := (producerStep_frame hp).main_clear hm
    refine ((producerStep_frame hp).tokenInv h).congr rfl rfl ?_ ?_
    · rw [hm', writing_producing]
      rfl
    · rw [hm', waitsUsb_producing]
      rfl
  | main heff => exact heff.tokenInv h hok
  | inReady hfl => exact tokenInv_inReady h hfl

/-- A refused report leaves main past the write with neither token nor transfer. -/
theorem refused_write_loses_token (s : State) (a : Act) (s' : State) (h : TokenInv s)
    (hbad : ¬ writeAccepted s a = true) (hstep : machine.step s a = some s') :
    ¬ TokenConserved s' := by
  cases a with
  | main ok pick =>
    obtain ⟨hw, hok⟩ : s.main.writing = true ∧ ok = false := by
      simpa [writeAccepted] using hbad
    obtain ⟨b, e, hm⟩ : ∃ b e, s.main = .write b e := by
      cases hm : s.main <;> simp_all [MainPc.writing]
    have hbalance := h.balance
    simp only [hw, if_true] at hbalance
    change step s (.main ok pick) = some s' at hstep
    unfold step at hstep
    split at hstep
    · cases hstep
    · simp only [mainStep, hm, hok, Bool.false_eq_true, if_false, Option.some.injEq] at hstep
      subst hstep
      intro hcons
      have hsum := hcons.conserved (by cases e <;> rfl)
      simp only [Sem.count] at hsum
      omega
  | btn0Press | bleNotify _ | btn0 _ | ble _ | inReady => exact absurd rfl hbad

/-- Along every run the token law holds in all states exactly when every
hid_int_ep_write of the run is accepted. -/
theorem usb_token_conserved_iff (actions : List Act) :
    Throughout machine TokenConserved machine.init actions ↔
      EachStep machine (fun s a => writeAccepted s a = true) machine.init actions :=
  throughout_iff_eachStep (fun _ h => h.tokenConserved) tokenInv_step refused_write_loses_token
    actions tokenInv_start

/-- One press; the write of the lock report fails, and main comes to wait for the
completion of a transfer that was never started. -/
def refusedLock : List Act :=
  [.btn0Press, .btn0 0, .btn0 0, .btn0 0, .btn0 0,
    .main true 0, .main true 0, .main true 0, .main false 0,
    .main true 1, .main true 1, .main true 1, .main true 1, .main true 1,
    .main true 1, .main true 1]

theorem usb_token_lost : ¬ ∀ s, Reachable machine s → TokenConserved s := by
  intro hall
  obtain ⟨s, hreach, hs⟩ := exists_reachable_of_exec (M := machine)
    (p := fun s => s.main.waitsUsb && s.inFlight == 0) refusedLock (by decide)
  simp only [Bool.and_eq_true, beq_iff_eq] at hs
  have hpos := (hall s hreach).waiting_has_transfer hs.1
  omega

end NcsProjects.HidLocker
