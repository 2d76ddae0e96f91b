import NcsProjects.HidEventPool

/-!
While no allocation fails, main handles every event that was put, once and in the
order of the puts, and never sleeps on a filled FIFO. evt_sem holds at most one
token, so a token says only that the FIFO may have something: what keeps main from
oversleeping is that it drains the FIFO before it takes again, and that each put is
followed by a give of its own.
-/
namespace NcsProjects.HidLocker

open Semaphores TransitionRuns

/-- What was put into evt_fifo, what main wrote a report for, and what it freed. -/
structure History where
  puts : List (Block × Evt)
  handled : List (Block × Evt)
  freed : List Block

def History.start : History := ⟨[], [], []⟩

/-- The block of a producer that stands before its app_evt_put. -/
def ProducerPc.putting : ProducerPc → List Block
  | .put b => [b]
  | _ => []

def History.put (h : History) (evt : Evt) (p : ProducerPc) : History :=
  { h with puts := h.puts ++ p.putting.map fun b => (b, evt) }

/-- A put counts with the event that its caller means, whatever the block holds. -/
def note (s : State) (a : Act) (h : History) : History :=
  match a with
  | .btn0 _ => h.put .gpioButton0 s.btn0
  | .ble _ => h.put .bleBtn s.ble
  | .main _ _ =>
    match s.main with
    | .clear _ p => h.put .hidKbdClear p
    | .write b e => { h with handled := h.handled ++ [(b, e)] }
    | .free b => { h with freed := h.freed ++ [b] }
    | _ => h
  | _ => h

/-- The event that main has taken and not handled yet. -/
def MainPc.taken : MainPc → List (Block × Evt)
  | .takeUsb b e | .waitUsb b e | .write b e => [(b, e)]
  | _ => []

/-- The block of the event that main has handled and not freed yet. -/
def MainPc.unfreed : MainPc → List Block
  | .clear b _ | .free b => [b]
  | _ => []

/-- The events in evt_fifo. -/
def State.queued (s : State) : List (Block × Evt) := s.evtFifo.map fun b => (b, s.eventType b)

/-- Main sleeps, and no producer stands between its put and its give. -/
def State.Quiet (s : State) : Prop := s.main = .waitEvt ∧ s.btn0 ≠ .give ∧ s.ble ≠ .give

structure DeliveredInOrder (s : State) (h : History) : Prop where
  /-- No lost wake-up. -/
  awake : s.Quiet → s.evtFifo = []
  /-- Each event that was put is handled, in main's hands or in the FIFO, in this order. -/
  order : h.puts = h.handled ++ (s.main.taken ++ s.queued)
  /-- The block of each handled event is freed, in the same order, but for the last one
  while main is still at it. -/
  blocks : h.handled.map Prod.fst = h.freed ++ s.main.unfreed

def MainPc.waitsEvt : MainPc → Bool
  | .waitEvt => true
  | _ => false

/-- Main comes to an app_evt_get before its next take of evt_sem. -/
def MainPc.draining : MainPc → Bool
  | .takeEvt | .waitEvt => false
  | _ => true

/-- What a producer does while the pool holds: it fills its own block, appends it, or
gives. -/
structure FlowStep (evt : Evt) (p p' : ProducerPc) (s s' : State) : Prop where
  evtFifo : s'.evtFifo = s.evtFifo ++ p.putting
  others : ∀ b, b ∉ p.held → s'.eventType b = s.eventType b
  marked : ∀ b, p' = .put b → s'.eventType b = evt
  put_held : ∀ b, p = .put b → s'.eventType b = s.eventType b
  gives : p = .give ∧ s' = giveEvt s ∨
    p ≠ .give ∧ s'.evtSem = s.evtSem ∧ s'.main = s.main ∧ (p.putting ≠ [] → p' = .give)

@[simp] theorem giveEvt_eventType (s : State) : (giveEvt s).eventType = s.eventType := by
  unfold giveEvt
  split <;> rfl

theorem producerStep_flow {evt : Evt} {pick : Block} {p p' : ProducerPc} {s s' : State}
    (h : producerStep evt pick p s = some (p', s')) (hflow : p.flushing = false)
    (hpool : exhausted s p = false) : FlowStep evt p p' s s' := by
  cases p with
  | alloc =>
    have hfree : s.free ≠ [] := by simpa [exhausted] using hpool
    simp only [producerStep, if_neg hfree] at h
    split at h
    · cases h
      constructor <;> simp [ProducerPc.putting]
    · cases h
  | fill b =>
    cases h
    constructor
    case others =>
      intro c hc
      have hne : c ≠ b := by simpa [ProducerPc.held] using hc
      simp [hne]
    all_goals simp [ProducerPc.putting]
  | put b =>
    cases h
    constructor <;> simp [ProducerPc.putting]
  | give =>
    cases h
    constructor <;> simp [ProducerPc.putting]
  | idle => cases h
  | flushGet | flushFree b | realloc | deref => cases hflow

/-- No block is in two hands, or in one and in the FIFO. -/
structure Apart (s : State) : Prop where
  btn0_ble : ∀ b, b ∈ s.btn0.held → b ∉ s.ble.held
  btn0_main : ∀ b, b ∈ s.btn0.held → b ∉ s.main.held
  ble_main : ∀ b, b ∈ s.ble.held → b ∉ s.main.held
  fifo : ∀ b, b ∈ s.evtFifo → b ∉ s.held

theorem Partitioned.apart {s : State} (h : Partitioned s) : Apart s := by
  have hcount : ∀ b, s.free.count b + s.evtFifo.count b +
      (s.main.held.count b + (s.btn0.held.count b + s.ble.held.count b)) = 1 := by
    intro b
    have hb := h b
    simpa only [State.held, List.count_append] using hb
  constructor
  case fifo =>
    intro b hb hheld
    have hone := h b
    have hpos := List.count_pos_iff.mpr hb
    have hpos' := List.count_pos_iff.mpr hheld
    omega
  all_goals
    intro b hb hother
    have hone := hcount b
    have hpos := List.count_pos_iff.mpr hb
    have hpos' := List.count_pos_iff.mpr hother
    omega

structure OrderInv (s : State) (h : History) : Prop where
  pool : PoolInv s
  waits : s.evtSem.Waits () s.main.waitsEvt
  wake : s.evtFifo ≠ [] →
    s.evtSem.tokens ≠ [] ∨ s.btn0 = .give ∨ s.ble = .give ∨ s.main.draining = true
  btn0 : ∀ b, s.btn0 = .put b → s.eventType b = .gpioButton0
  ble : ∀ b, s.ble = .put b → s.eventType b = .bleBtn
  main : ∀ b, s.main.producer = .put b → s.eventType b = .hidKbdClear
  order : h.puts = h.handled ++ (s.main.taken ++ s.queued)
  blocks : h.handled.map Prod.fst = h.freed ++ s.main.unfreed

theorem OrderInv.delivered {s : State} {h : History} (hi : OrderInv s h) :
    DeliveredInOrder s h := by
  refine ⟨?_, hi.order, hi.blocks⟩
  rintro ⟨hm, hbtn0, hble⟩
  by_contra hne
  have hnone : s.evtSem.tokens = [] := by
    apply Sem.Waits.no_token
    have hwaits := hi.waits
    rw [hm] at hwaits
    exact hwaits
  rcases hi.wake hne with ht | hg | hg | hd
  · exact ht hnone
  · exact hbtn0 hg
  · exact hble hg
  · rw [hm] at hd
    cases hd

theorem orderInv_start : OrderInv State.start History.start := by
  constructor
  case pool => exact poolInv_start
  case waits => rfl
  case wake =>
    intro hne
    exact absurd rfl hne
  case btn0 => rintro b ⟨⟩
  case ble => rintro b ⟨⟩
  case main => rintro b ⟨⟩
  case order => rfl
  case blocks => rfl

/-- A give ends the sleep of main or leaves a token. -/
theorem giveEvt_cases {s : State} (h : s.evtSem.Waits () s.main.waitsEvt) :
    (∃ sem, s.main = .waitEvt ∧ sem.Waits () false ∧
      giveEvt s = { s with evtSem := sem, main := .get }) ∨
    ∃ sem, s.main.waitsEvt = false ∧ sem.Waits () false ∧ sem.tokens ≠ [] ∧
      giveEvt s = { s with evtSem := sem } := by
  cases hb : s.main.waitsEvt with
  | true =>
    rw [hb] at h
    obtain ⟨sem, hgive, _, hidle⟩ := h.give_waiting ()
    have hm : s.main = .waitEvt := by
      cases hm : s.main <;> simp_all [MainPc.waitsEvt]
    refine Or.inl ⟨sem, hm, hidle, ?_⟩
    simp only [giveEvt, hgive, hm, MainPc.wakeEvt]
  | false =>
    rw [hb] at h
    obtain ⟨sem, hgive, hidle, htokens⟩ := h.give_idle ()
    refine Or.inr ⟨sem, rfl, hidle, ?_, by simp only [giveEvt, hgive]⟩
    rw [htokens]
    split
    · simp
    · assumption

@[simp] theorem taken_wakeEvt (pc : MainPc) : pc.wakeEvt.taken = pc.taken := by
  cases pc <;> rfl

@[simp] theorem unfreed_wakeEvt (pc : MainPc) : pc.wakeEvt.unfreed = pc.unfreed := by
  cases pc <;> rfl

/-- What a step of a producer leaves of the order and of the wake-up. -/
structure Flowed (evt : Evt) (p p' : ProducerPc) (s s₁ : State) : Prop where
  waits : s₁.evtSem.Waits () s₁.main.waitsEvt
  queued : s₁.queued = s.queued ++ p.putting.map fun b => (b, evt)
  taken : s₁.main.taken = s.main.taken
  unfreed : s₁.main.unfreed = s.main.unfreed
  wake : s₁.evtFifo ≠ [] → s₁.evtSem.tokens ≠ [] ∨ p' = .give ∨ s₁.main.draining = true ∨
    p ≠ .give ∧ (s.btn0 = .give ∨ s.ble = .give)

theorem OrderInv.flowed {s s₁ : State} {h : History} {evt : Evt} {p p' : ProducerPc}
    (hi : OrderInv s h) (hf : ProducerFrame s s₁) (hs : FlowStep evt p p' s s₁)
    (hmark : ∀ b, p = .put b → s.eventType b = evt)
    (hheld : ∀ b, b ∈ s.evtFifo → b ∉ p.held) : Flowed evt p p' s s₁ := by
  have hold : s.evtFifo.map (fun b => (b, s₁.eventType b)) = s.queued := by
    apply List.map_congr_left
    intro b hb
    rw [hs.others b (hheld b hb)]
  have hnew : p.putting.map (fun b => (b, s₁.eventType b)) = p.putting.map fun b => (b, evt) := by
    cases hp : p with
    | put b => simp [ProducerPc.putting, hs.put_held b hp, hmark b hp]
    | _ => rfl
  have hqueued : s₁.queued = s.queued ++ p.putting.map fun b => (b, evt) := by
    simp only [State.queued, hs.evtFifo, List.map_append, hold, hnew]
  have htaken : s₁.main.taken = s.main.taken := by
    rcases hf.main with hm | hm <;> rw [hm]
    exact taken_wakeEvt _
  have hunfreed : s₁.main.unfreed = s.main.unfreed := by
    rcases hf.main with hm | hm <;> rw [hm]
    exact unfreed_wakeEvt _
  rcases hs.gives with ⟨hp, rfl⟩ | ⟨hp, hsem, hmain, hput⟩
  · rcases giveEvt_cases hi.waits with ⟨sem, hm, hidle, heq⟩ | ⟨sem, hm, hidle, ht, heq⟩
    · refine ⟨?_, hqueued, htaken, hunfreed, ?_⟩
      · rw [heq]
        exact hidle
      · intro _
        rw [heq]
        exact Or.inr (Or.inr (Or.inl rfl))
    · refine ⟨?_, hqueued, htaken, hunfreed, ?_⟩
      · rw [heq]
        exact hidle.trans (by rw [hm])
      · intro _
        rw [heq]
        exact Or.inl ht
  · refine ⟨?_, hqueued, htaken, hunfreed, ?_⟩
    · rw [hsem, hmain]
      exact hi.waits
    · intro hne
      rw [hsem, hmain]
      by_cases hputs : p.putting = []
      · have hfifo : s.evtFifo ≠ [] := by simpa [hs.evtFifo, hputs] using hne
        rcases hi.wake hfifo with ht | hg | hg | hd
        · exact Or.inl ht
        · exact Or.inr (Or.inr (Or.inr ⟨hp, Or.inl hg⟩))
        · exact Or.inr (Or.inr (Or.inr ⟨hp, Or.inr hg⟩))
        · exact Or.inr (Or.inr (Or.inl hd))
      · exact Or.inr (Or.inl (hput hputs))

/-- One step of main on its own keeps the invariant. -/
theorem OrderInv.main_effect {s s' : State} {h : History} {ok : Bool} (pick : Block)
    (hi : OrderInv s h) (hpool : PoolInv s') (heff : MainEffect s ok s') :
    OrderInv s' (note s (.main ok pick) h) := by
  have hwaits := hi.waits
  have horder := hi.order
  have hblocks := hi.blocks
  cases heff with
  | takeEvt hm htake =>
    rename_i sem
    rw [hm] at hwaits
    simp only [hm, MainPc.taken, MainPc.unfreed] at horder hblocks
    obtain ⟨g, sem', htake', _, _, hidle⟩ | ⟨sem', htake', _⟩ := hwaits.take_cases 0
    · rw [htake] at htake'
      obtain rfl : sem = sem' := (Prod.mk.inj htake').2
      simp only [note, hm]
      exact ⟨hpool, hidle, fun _ => Or.inr (Or.inr (Or.inr rfl)), hi.btn0, hi.ble,
        by rintro b ⟨⟩, horder, hblocks⟩
    · rw [htake] at htake'
      cases htake'
  | waitEvt hm htake =>
    rename_i sem
    rw [hm] at hwaits
    simp only [hm, MainPc.taken, MainPc.unfreed] at horder hblocks
    obtain ⟨g, sem', htake', _⟩ | ⟨sem', htake', hnone, hnone', hwait⟩ := hwaits.take_cases 0
    · rw [htake] at htake'
      cases htake'
    · rw [htake] at htake'
      obtain rfl : sem = sem' := (Prod.mk.inj htake').2
      simp only [note, hm]
      refine ⟨hpool, hwait, ?_, hi.btn0, hi.ble, by rintro b ⟨⟩, horder, hblocks⟩
      intro hne
      rcases hi.wake hne with ht | hg | hg | hd
      · exact absurd hnone ht
      · exact Or.inr (Or.inl hg)
      · exact Or.inr (Or.inr (Or.inl hg))
      · rw [hm] at hd
        cases hd
  | drained hm hfifo =>
    rw [hm] at hwaits
    simp only [hm, MainPc.taken, MainPc.unfreed] at horder hblocks
    simp only [note, hm]
    exact ⟨hpool, hwaits, fun hne => absurd hfifo hne, hi.btn0, hi.ble, by rintro b ⟨⟩,
      horder, hblocks⟩
  | get hm hfifo =>
    rename_i b rest
    rw [hm] at hwaits
    simp only [hm, MainPc.taken, MainPc.unfreed, State.queued, hfifo, List.map_cons,
      List.nil_append] at horder hblocks
    simp only [note, hm]
    exact ⟨hpool, hwaits, fun _ => Or.inr (Or.inr (Or.inr rfl)), hi.btn0, hi.ble,
      by rintro b ⟨⟩, horder, hblocks⟩
  | takeUsb hm _ | waitUsb hm _ =>
    rw [hm] at hwaits
    simp only [hm, MainPc.taken, MainPc.unfreed] at horder hblocks
    simp only [note, hm]
    exact ⟨hpool, hwaits, fun _ => Or.inr (Or.inr (Or.inr rfl)), hi.btn0, hi.ble,
      by rintro b ⟨⟩, horder, hblocks⟩
  | write hm =>
    rename_i b e
    rw [hm] at hwaits
    simp only [hm, MainPc.taken, MainPc.unfreed] at horder hblocks
    simp only [note, hm]
    have hplace : (MainPc.written b e).waitsEvt = false ∧ (MainPc.written b e).draining = true ∧
        (MainPc.written b e).taken = [] ∧ (MainPc.written b e).unfreed = [b] := by
      cases e <;> exact ⟨rfl, rfl, rfl, rfl⟩
    obtain ⟨hwake, hdrain, htaken, hunfreed⟩ := hplace
    constructor
    case pool => exact hpool
    case waits =>
      rw [hwake, written_evtSem]
      exact hwaits
    case wake => exact fun _ => Or.inr (Or.inr (Or.inr hdrain))
    case btn0 => simpa only [written_btn0, written_eventType] using hi.btn0
    case ble => simpa only [written_ble, written_eventType] using hi.ble
    case main => cases e <;> rintro c ⟨⟩
    case order =>
      simpa only [htaken, State.queued, written_evtFifo, written_eventType, List.append_assoc,
        List.nil_append] using horder
    case blocks => simpa [hunfreed] using hblocks
  | free hm =>
    rw [hm] at hwaits
    simp only [hm, MainPc.taken, MainPc.unfreed] at horder hblocks
    simp only [note, hm]
    refine ⟨hpool, hwaits, fun _ => Or.inr (Or.inr (Or.inr rfl)), hi.btn0, hi.ble,
      by rintro b ⟨⟩, horder, ?_⟩
    simpa [MainPc.unfreed] using hblocks

theorem producer_held {s : State} {b : Block} (hb : b ∈ s.main.producer.held) :
    b ∈ s.main.held := by
  cases hm : s.main with
  | clear c p =>
    rw [hm] at hb
    exact List.mem_cons_of_mem c hb
  | _ => simp [hm, MainPc.producer, ProducerPc.held] at hb

theorem held_of_put {p : ProducerPc} {b : Block} (hp : p = .put b) : b ∈ p.held := by
  rw [hp]
  exact List.mem_singleton.mpr rfl

theorem mem_held_btn0 {s : State} {b : Block} (hb : b ∈ s.btn0.held) : b ∈ s.held :=
  List.mem_append_right _ (List.mem_append_left _ hb)

theorem mem_held_ble {s : State} {b : Block} (hb : b ∈ s.ble.held) : b ∈ s.held :=
  List.mem_append_right _ (List.mem_append_right _ hb)

theorem mem_held_main {s : State} {b : Block} (hb : b ∈ s.main.held) : b ∈ s.held :=
  List.mem_append_left _ hb

/-- A step of a producer other than main adds its put to the history. -/
theorem OrderInv.put_order {s s₁ : State} {h : History} {evt : Evt} {p p' : ProducerPc}
    (hi : OrderInv s h) (hd : Flowed evt p p' s s₁) :
    (h.put evt p).puts = h.handled ++ (s₁.main.taken ++ s₁.queued) := by
  simp only [History.put, hi.order, hd.taken, hd.queued, List.append_assoc]

@[simp] theorem waitsEvt_producing (b : Block) (p : ProducerPc) :
    (MainPc.producing b p).waitsEvt = false := by
  cases p <;> rfl

@[simp] theorem draining_producing (b : Block) (p : ProducerPc) :
    (MainPc.producing b p).draining = true := by
  cases p <;> rfl

@[simp] theorem taken_producing (b : Block) (p : ProducerPc) :
    (MainPc.producing b p).taken = [] := by
  cases p <;> rfl

@[simp] theorem unfreed_producing (b : Block) (p : ProducerPc) :
    (MainPc.producing b p).unfreed = [b] := by
  cases p <;> rfl

/-- What another thread has filled keeps its mark. -/
theorem FlowStep.kept {evt e : Evt} {p p' q q' : ProducerPc} {s s₁ : State}
    (hs : FlowStep evt p p' s s₁) (hsame : q' = q)
    (hmark : ∀ b, q = .put b → s.eventType b = e)
    (hapart : ∀ b, b ∈ q.held → b ∉ p.held) : ∀ b, q' = .put b → s₁.eventType b = e := by
  intro b hb
  have hold : q = .put b := hsame.symm.trans hb
  rw [hs.others b (hapart b (held_of_put hold))]
  exact hmark b hold

theorem OrderInv.btn0_effect {s s₁ : State} {h : History} {pick : Block} {p : ProducerPc}
    (hi : OrderInv s h) (hpool : PoolInv { s₁ with btn0 := p })
    (hflow : s.btn0.flushing = false) (hfinds : exhausted s s.btn0 = false)
    (hp : producerStep .gpioButton0 pick s.btn0 s = some (p, s₁)) :
    OrderInv { s₁ with btn0 := p } (note s (.btn0 pick) h) := by
  have hapart := hi.pool.blocks.apart
  have hf := producerStep_frame hp
  have hs := producerStep_flow hp hflow hfinds
  have hd := hi.flowed hf hs hi.btn0 fun b hb hheld => hapart.fifo b hb (mem_held_btn0 hheld)
  constructor
  case pool => exact hpool
  case waits => exact hd.waits
  case wake =>
    intro hne
    rcases hd.wake hne with ht | hg | hdrain | ⟨hne', hg | hg⟩
    · exact Or.inl ht
    · exact Or.inr (Or.inl hg)
    · exact Or.inr (Or.inr (Or.inr hdrain))
    · exact absurd hg hne'
    · exact Or.inr (Or.inr (Or.inl (hf.ble.trans hg)))
  case btn0 => exact hs.marked
  case ble => exact hs.kept hf.ble hi.ble fun b hb hheld => hapart.btn0_ble b hheld hb
  case main =>
    exact hs.kept hf.producer_eq hi.main
      fun b hb hheld => hapart.btn0_main b hheld (producer_held hb)
  case order =>
    have horder := hi.put_order hd
    exact horder
  case blocks => exact hi.blocks.trans (by rw [hd.unfreed]; rfl)

theorem OrderInv.ble_effect {s s₁ : State} {h : History} {pick : Block} {p : ProducerPc}
    (hi : OrderInv s h) (hpool : PoolInv { s₁ with ble := p })
    (hflow : s.ble.flushing = false) (hfinds : exhausted s s.ble = false)
    (hp : producerStep .bleBtn pick s.ble s = some (p, s₁)) :
    OrderInv { s₁ with ble := p } (note s (.ble pick) h) := by
  have hapart := hi.pool.blocks.apart
  have hf := producerStep_frame hp
  have hs := producerStep_flow hp hflow hfinds
  have hd := hi.flowed hf hs hi.ble fun b hb hheld => hapart.fifo b hb (mem_held_ble hheld)
  constructor
  case pool => exact hpool
  case waits => exact hd.waits
  case wake =>
    intro hne
    rcases hd.wake hne with ht | hg | hdrain | ⟨hne', hg | hg⟩
    · exact Or.inl ht
    · exact Or.inr (Or.inr (Or.inl hg))
    · exact Or.inr (Or.inr (Or.inr hdrain))
    · exact Or.inr (Or.inl (hf.btn0.trans hg))
    · exact absurd hg hne'
  case btn0 => exact hs.kept hf.btn0 hi.btn0 hapart.btn0_ble
  case ble => exact hs.marked
  case main =>
    exact hs.kept hf.producer_eq hi.main
      fun b hb hheld => hapart.ble_main b hheld (producer_held hb)
  case order =>
    have horder := hi.put_order hd
    exact horder
  case blocks => exact hi.blocks.trans (by rw [hd.unfreed]; rfl)

theorem OrderInv.clear_effect {s s₁ : State} {h : History} {pick b : Block} {p p' : ProducerPc}
    (ok : Bool) (hi : OrderInv s h) (hpool : PoolInv { s₁ with main := .producing b p' })
    (hm : s.main = .clear b p) (hflow : p.flushing = false) (hfinds : exhausted s p = false)
    (hp : producerStep .hidKbdClear pick p s = some (p', s₁)) :
    OrderInv { s₁ with main := .producing b p' } (note s (.main ok pick) h) := by
  have hapart := hi.pool.blocks.apart
  have hproducer : s.main.producer = p := by rw [hm]; rfl
  have hf := producerStep_frame hp
  have hs := producerStep_flow hp hflow hfinds
  have hinner : ∀ c, c ∈ p.held → c ∈ s.main.held := by
    intro c hc
    apply producer_held
    rw [hproducer]
    exact hc
  have hd := hi.flowed hf hs (fun c hc => hi.main c (hproducer.trans hc))
    fun c hc hheld => hapart.fifo c hc (mem_held_main (hinner c hheld))
  have hm₁ := hf.main_clear hm
  have hwaits := hd.waits
  have horder := hi.put_order hd
  have hblocks := hi.blocks
  rw [hm₁] at hwaits horder
  rw [hm] at hblocks
  simp only [note, hm]
  constructor
  case pool => exact hpool
  case waits => exact hwaits.trans (by rw [waitsEvt_producing]; rfl)
  case wake => exact fun _ => Or.inr (Or.inr (Or.inr (draining_producing b p')))
  case btn0 =>
    exact hs.kept hf.btn0 hi.btn0 fun c hc hheld => hapart.btn0_main c hc (hinner c hheld)
  case ble =>
    exact hs.kept hf.ble hi.ble fun c hc hheld => hapart.ble_main c hc (hinner c hheld)
  case main =>
    intro c hc
    rw [producer_producing] at hc
    exact hs.marked c hc
  case order =>
    rw [taken_producing]
    exact horder
  case blocks =>
    rw [unfreed_producing]
    exact hblocks

/-- A completed transfer moves main at most out of its wait for the endpoint. -/
theorem OrderInv.inReady_effect {s : State} {h : History} (hi : OrderInv s h)
    (hpool : PoolInv (giveUsb { s with inFlight := s.inFlight - 1 })) :
    OrderInv (giveUsb { s with inFlight := s.inFlight - 1 }) (note s .inReady h) := by
  have hf := giveUsb_frame { s with inFlight := s.inFlight - 1 }
  have hplace : ∀ q, q = s.main ∨ q = s.main.wakeUsb → q.waitsEvt = s.main.waitsEvt ∧
      q.draining = s.main.draining ∧ q.taken = s.main.taken ∧ q.unfreed = s.main.unfreed ∧
      q.producer = s.main.producer := by
    rintro q (rfl | rfl)
    · exact ⟨rfl, rfl, rfl, rfl, rfl⟩
    · cases s.main <;> exact ⟨rfl, rfl, rfl, rfl, rfl⟩
  obtain ⟨hwake, hdrain, htaken, hunfreed, hproducer⟩ := hplace _ hf.main
  constructor
  case pool => exact hpool
  case waits =>
    rw [hf.evtSem, hwake]
    exact hi.waits
  case wake =>
    rw [hf.evtFifo, hf.evtSem, hf.btn0, hf.ble, hdrain]
    exact hi.wake
  case btn0 =>
    rw [hf.btn0, hf.eventType]
    exact hi.btn0
  case ble =>
    rw [hf.ble, hf.eventType]
    exact hi.ble
  case main =>
    rw [hproducer, hf.eventType]
    exact hi.main
  case order =>
    simp only [State.queued, hf.evtFifo, hf.eventType, htaken]
    exact hi.order
  case blocks =>
    rw [hunfreed]
    exact hi.blocks

theorem OrderInv.step (s : State × History) (a : Act) (s' : State × History)
    (hi : OrderInv s.1 s.2) (halloc : allocFinds s.1 a = true)
    (hstep : (machine.recorded note History.start).step s a = some s') :
    OrderInv s'.1 s'.2 := by
  obtain ⟨s, h⟩ := s
  obtain ⟨s', h'⟩ := s'
  obtain ⟨hmove, hnote⟩ := Machine.recorded_step hstep
  simp only at hmove hnote hi halloc
  subst hnote
  have hpool := poolInv_step s a s' hi.pool halloc hmove
  have hfinds : exhausted s (s.actor a) = false := by simpa [allocFinds] using halloc
  have hflows := hi.pool.flows.actor a
  obtain ⟨_, heff⟩ := step_effect hmove
  cases heff with
  | press hp =>
    refine ⟨hpool, hi.waits, ?_, by rintro b ⟨⟩, hi.ble, hi.main, hi.order, hi.blocks⟩
    intro hne
    rcases hi.wake hne with ht | hg | hg
    · exact Or.inl ht
    · rw [hp] at hg
      cases hg
    · exact Or.inr (Or.inr hg)
  | notify hp _ =>
    refine ⟨hpool, hi.waits, ?_, hi.btn0, by rintro b ⟨⟩, hi.main, hi.order, hi.blocks⟩
    intro hne
    rcases hi.wake hne with ht | hg | hg | hd
    · exact Or.inl ht
    · exact Or.inr (Or.inl hg)
    · rw [hp] at hg
      cases hg
    · exact Or.inr (Or.inr (Or.inr hd))
  | btn0 hp => exact hi.btn0_effect hpool hflows hfinds hp
  | ble hp => exact hi.ble_effect hpool hflows hfinds hp
  | clear hm hp =>
    rename_i ok pick b p p' s₁
    simp only [State.actor, hm, MainPc.producer] at hflows hfinds
    exact hi.clear_effect ok hpool hm hflows hfinds hp
  | main heff =>
    rename_i ok pick
    exact hi.main_effect pick hpool heff
  | inReady _ => exact hi.inReady_effect hpool

/-- While every allocation finds a free block, main never sleeps on an announced event,
and what it has handled, frees and still has to do is what was put, in this order. -/
theorem delivered_of_allocFinds {s : State} {h : History}
    (hrun : ReachableUnder (machine.recorded note History.start)
      (fun t a => allocFinds t.1 a = true) (s, h)) : DeliveredInOrder s h :=
  (reachableUnder_invariant (I := fun t => OrderInv t.1 t.2) orderInv_start OrderInv.step
    hrun).delivered

/-- A press up to main asleep, both reports accepted. -/
def deliveredPress : List Act :=
  pressFrom 0 ++ List.replicate 9 (.main true 1) ++ .inReady :: List.replicate 8 (.main true 1)

theorem delivered_after_press :
    ∃ s h, s.main = .waitEvt ∧ h.handled.map Prod.snd = [.gpioButton0, .hidKbdClear] ∧
      DeliveredInOrder s h := by
  obtain ⟨⟨s, h⟩, hrun, hs⟩ := exists_reachableUnder_of_exec
    (M := machine.recorded note History.start) (C := fun t a => allocFinds t.1 a = true)
    (p := fun t => t.1.main == .waitEvt &&
      t.2.handled.map Prod.snd == [.gpioButton0, .hidKbdClear])
    deliveredPress (by decide)
  simp only [Bool.and_eq_true, beq_iff_eq] at hs
  exact ⟨s, h, hs.1, hs.2, delivered_of_allocFinds hrun⟩

/-- The same without the history: an announced event does not wait while main sleeps. -/
theorem evtFifo_empty_of_quiet {s : State}
    (hrun : ReachableUnder machine (fun s a => allocFinds s a = true) s) (hq : s.Quiet) :
    s.evtFifo = [] := by
  obtain ⟨h, hrec⟩ := hrun.recorded note History.start
  have hinv := reachableUnder_invariant (I := fun t => OrderInv t.1 t.2) orderInv_start
    OrderInv.step hrec
  exact hinv.delivered.awake hq

end NcsProjects.HidLocker
