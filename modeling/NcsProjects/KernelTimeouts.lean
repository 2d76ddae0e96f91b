import Mathlib.Algebra.Group.Nat.Defs
import Mathlib.Data.Int.Notation
import NcsProjects.DeltaQueues
import NcsProjects.TransitionRuns

/-!
The timeouts of the kernel, as zephyr.lst has timeout.c compiled. They wait in a list of
distances. The driver announces the ticks that have passed; then the functions of all
timeouts that are due are called, each with the clock at its own tick. The lock is given up
around each call, so timeouts may be added and aborted in between.

Ticks are natural numbers here, where the code has a k_ticks_t of 64 bits, and 32 bits for
what is not announced yet. `ticks_fit` says from which ranges on the two agree.
-/
namespace NcsProjects.KernelTimeouts

open DeltaQueues TransitionRuns

/-- A k_timeout_t: K_FOREVER, some ticks from now on, or a tick since the start. -/
inductive Timeout
  | forever
  | relative (ticks : ℕ)
  | absolute (tick : ℕ)
  deriving DecidableEq

/-- `clock` is what sys_clock_elapsed says: the ticks that are not announced yet. The calls
of t->fn are kept in `fired`, with the tick that the kernel has then. -/
structure State (T : Type*) where
  timeoutList : List (T × ℕ)
  currTick : ℕ
  announceRemaining : ℕ
  announcing : Bool
  clock : ℕ
  fired : List (T × ℕ)

variable {T : Type*} [DecidableEq T]

namespace State

def start : State T := ⟨[], 0, 0, false, 0, []⟩

def elapsed (s : State T) : ℕ := if s.announceRemaining = 0 then s.clock else 0

/-- sys_clock_tick_get -/
def sysClockTickGet (s : State T) : ℕ := s.currTick + s.clock

/-- The dticks that z_add_timeout begins with -/
def dticks (timeout : Timeout) (s : State T) : Option ℕ :=
  match timeout with
  | .forever => none
  | .relative ticks => some (ticks + 1 + s.elapsed)
  | .absolute tick => some (max 1 (tick - s.currTick))

/-- z_add_timeout -/
def zAddTimeout (t : T) (timeout : Timeout) (s : State T) : State T :=
  match s.dticks timeout with
  | none => s
  | some d => { s with timeoutList := insert t d s.timeoutList }

def linked (t : T) (s : State T) : Bool := t ∈ s.timeoutList.map Prod.fst

def einval : ℤ := -22

/-- z_abort_timeout -/
def zAbortTimeout (t : T) (s : State T) : ℤ × State T :=
  if s.linked t then (0, { s with timeoutList := remove t s.timeoutList }) else (einval, s)

/-- A round of the loop of sys_clock_announce -/
def expire (s : State T) : Option (State T) :=
  match s.timeoutList with
  | [] => none
  | (t, dt) :: rest =>
    if dt ≤ s.announceRemaining then
      some { s with
        timeoutList := remove t ((t, 0) :: rest)
        currTick := s.currTick + dt
        announceRemaining := s.announceRemaining - dt
        fired := s.fired ++ [(t, s.currTick + dt)] }
    else none

/-- The end of sys_clock_announce, behind its loop -/
def settle (s : State T) : Option (State T) :=
  let settled := { s with
    currTick := s.currTick + s.announceRemaining
    announceRemaining := 0
    announcing := false }
  match s.timeoutList with
  | [] => some settled
  | (t, dt) :: rest =>
    if dt ≤ s.announceRemaining then none
    else some { settled with timeoutList := (t, dt - s.announceRemaining) :: rest }

end State

/-- Time goes by, the driver announces some of it, sys_clock_announce goes on, or a timeout
is added or aborted. -/
inductive Action (T : Type*)
  | tick (ticks : ℕ)
  | announce (ticks : ℕ)
  | expire
  | settle
  | add (t : T) (timeout : Timeout)
  | abort (t : T)
  deriving DecidableEq

/-- No timeout is added that is in the list. -/
def step (s : State T) : Action T → Option (State T)
  | .tick ticks => some { s with clock := s.clock + ticks }
  | .announce ticks =>
    if s.announcing = false ∧ ticks ≤ s.clock then
      some { s with announceRemaining := ticks, announcing := true, clock := s.clock - ticks }
    else none
  | .expire => if s.announcing then s.expire else none
  | .settle => if s.announcing then s.settle else none
  | .add t timeout => if s.linked t then none else some (s.zAddTimeout t timeout)
  | .abort t => some (s.zAbortTimeout t).2

def machine : Machine (State T) (Action T) := ⟨State.start, step⟩

/-- The timeouts that wait, with their due times -/
def State.pending (s : State T) : List (T × ℕ) := deadlines s.currTick s.timeoutList

def State.due (timeout : Timeout) (s : State T) : Option ℕ :=
  (s.dticks timeout).map (s.currTick + ·)

/-- What a step does to the timeouts that wait. -/
inductive Effect (s s' : State T) : Action T → Prop
  | same {a : Action T} (tick : s'.currTick = s.currTick) (fired : s'.fired = s.fired)
      (pending : s'.pending = s.pending)
      (announcing : s'.announcing = false → s.announcing = false) : Effect s s' a
  | expired {t : T} {due : ℕ} {rest : List (T × ℕ)} (pending : s.pending = (t, due) :: rest)
      (left : s'.pending = rest) (tick : s'.currTick = due) (later : s.currTick ≤ due)
      (fired : s'.fired = s.fired ++ [(t, due)]) (announcing : s'.announcing = true) :
      Effect s s' .expire
  | settled (later : s.currTick ≤ s'.currTick) (fired : s'.fired = s.fired)
      (pending : s'.pending = s.pending) (quiet : ∀ p ∈ s.pending, s'.currTick < p.2) :
      Effect s s' .settle
  | added {t : T} {timeout : Timeout} {due : ℕ} (fresh : t ∉ s.pending.map Prod.fst)
      (at' : s.due timeout = some due) (later : s.currTick < due)
      (tick : s'.currTick = s.currTick) (fired : s'.fired = s.fired)
      (pending : s'.pending = schedule t due s.pending)
      (announcing : s'.announcing = s.announcing) : Effect s s' (.add t timeout)
  | aborted {t : T} (tick : s'.currTick = s.currTick) (fired : s'.fired = s.fired)
      (pending : s'.pending = s.pending.eraseP fun p => p.1 = t)
      (announcing : s'.announcing = s.announcing) : Effect s s' (.abort t)

omit [DecidableEq T] in
theorem pending_names (s : State T) : s.pending.map Prod.fst = s.timeoutList.map Prod.fst :=
  names_deadlines _ _

theorem deadlines_remove_head (t : T) (base : ℕ) (rest : List (T × ℕ)) :
    deadlines base (remove t ((t, 0) :: rest)) = deadlines base rest := by
  rw [deadlines_remove, deadlines, List.eraseP_cons_of_pos (by simp)]
  rfl

omit [DecidableEq T] in
theorem pending_zAddTimeout (t : T) {timeout : Timeout} {due : ℕ} {s : State T}
    (h : s.due timeout = some due) :
    (s.zAddTimeout t timeout).pending = schedule t due s.pending := by
  obtain ⟨d, hd, rfl⟩ := Option.map_eq_some_iff.mp h
  rw [State.zAddTimeout, hd]
  exact deadlines_insert t _ d _

theorem step_effect {s s' : State T} {a : Action T} (h : step s a = some s') : Effect s s' a := by
  cases a with
  | tick ticks =>
    cases h
    exact .same rfl rfl rfl id
  | announce ticks =>
    simp only [step] at h
    split at h
    · cases h
      exact .same rfl rfl rfl (by rintro ⟨⟩)
    · cases h
  | expire =>
    simp only [step] at h
    split at h
    · rename_i hannouncing
      unfold State.expire at h
      split at h
      · cases h
      · rename_i t dt rest hlist
        split at h
        · cases h
          have hpending : s.pending = (t, s.currTick + dt) :: deadlines (s.currTick + dt) rest := by
            rw [State.pending, hlist, deadlines]
          exact .expired hpending (deadlines_remove_head t _ rest) rfl (Nat.le_add_right _ _) rfl
            hannouncing
        · cases h
    · cases h
  | settle =>
    simp only [step] at h
    split at h
    · unfold State.settle at h
      split at h
      · rename_i hlist
        cases h
        refine .settled (Nat.le_add_right _ _) rfl ?_ ?_
        · simp only [State.pending, hlist, deadlines]
        · simp only [State.pending, hlist, deadlines]
          rintro p ⟨⟩
      · rename_i t dt rest hlist
        split at h
        · cases h
        · rename_i hlater
          cases h
          refine .settled (Nat.le_add_right _ _) rfl ?_ ?_
          · simp only [State.pending, hlist]
            exact deadlines_advance (by omega) rest
          · intro p hp
            simp only [State.pending, hlist, deadlines] at hp
            have hdue : s.currTick + dt ≤ p.2 := by
              rcases List.mem_cons.mp hp with rfl | hp
              · exact Nat.le_refl _
              · exact le_deadlines hp
            simp only
            omega
    · cases h
  | add t timeout =>
    simp only [step] at h
    split at h
    · cases h
    · rename_i hfree
      have hfresh : t ∉ s.pending.map Prod.fst := by
        rw [pending_names]
        simpa [State.linked] using hfree
      cases h
      cases hticks : s.dticks timeout with
      | none =>
        have hforever : s.zAddTimeout t timeout = s := by rw [State.zAddTimeout, hticks]
        rw [hforever]
        exact .same rfl rfl rfl id
      | some d =>
        have hpos : 0 < d := by
          cases timeout with
          | forever => cases hticks
          | relative ticks =>
            cases hticks
            omega
          | absolute tick =>
            cases hticks
            exact Nat.lt_of_lt_of_le Nat.one_pos (Nat.le_max_left _ _)
        have hdue : s.due timeout = some (s.currTick + d) := by
          rw [State.due, hticks, Option.map_some]
        have hframe : (s.zAddTimeout t timeout).currTick = s.currTick ∧
            (s.zAddTimeout t timeout).fired = s.fired ∧
            (s.zAddTimeout t timeout).announcing = s.announcing := by
          rw [State.zAddTimeout, hticks]
          exact ⟨rfl, rfl, rfl⟩
        exact .added hfresh hdue (Nat.lt_add_of_pos_right hpos) hframe.1 hframe.2.1
          (pending_zAddTimeout t hdue) hframe.2.2
  | abort t =>
    simp only [step] at h
    cases h
    unfold State.zAbortTimeout
    split
    · exact .aborted rfl rfl (deadlines_remove t _ _) rfl
    · rename_i hfree
      have hfresh : ∀ p ∈ s.pending, ¬ p.1 = t := by
        rintro p hp rfl
        refine hfree ?_
        rw [State.linked, decide_eq_true_eq, ← pending_names]
        exact List.mem_map_of_mem hp
      refine .aborted rfl rfl ?_ rfl
      rw [List.eraseP_of_forall_not (by simpa using hfresh)]

/-- The timeouts of the list are apart, none of them is late, and the calls are in order. -/
structure Timely (s : State T) : Prop where
  apart : (s.pending.map Prod.fst).Nodup
  quiet : s.announcing = false → ∀ p ∈ s.pending, s.currTick < p.2
  past : ∀ p ∈ s.fired, p.2 ≤ s.currTick
  ordered : s.fired.Pairwise fun p q => p.2 ≤ q.2

theorem timely_step {s s' : State T} {a : Action T} (hs : Timely s) (h : step s a = some s') :
    Timely s' := by
  cases step_effect h with
  | same tick fired pending announcing =>
    refine ⟨by rw [pending]; exact hs.apart, ?_, ?_, by rw [fired]; exact hs.ordered⟩
    · rw [pending, tick]
      exact fun hdone => hs.quiet (announcing hdone)
    · rw [fired, tick]
      exact hs.past
  | expired pending left tick later fired announcing =>
    have hapart := hs.apart
    rw [pending, List.map_cons, List.nodup_cons] at hapart
    refine ⟨by rw [left]; exact hapart.2, ?_, ?_, ?_⟩
    · rw [announcing]
      rintro ⟨⟩
    · rw [fired, tick]
      intro p hp
      rcases List.mem_append.mp hp with hold | hnew
      · exact Nat.le_trans (hs.past p hold) later
      · obtain rfl := List.mem_singleton.mp hnew
        exact Nat.le_refl _
    · rw [fired, List.pairwise_append]
      refine ⟨hs.ordered, List.pairwise_singleton _ _, ?_⟩
      intro p hp q hq
      rw [List.mem_singleton.mp hq]
      exact Nat.le_trans (hs.past p hp) later
  | settled later fired pending quiet =>
    refine ⟨by rw [pending]; exact hs.apart, ?_, ?_, by rw [fired]; exact hs.ordered⟩
    · rw [pending]
      exact fun _ => quiet
    · rw [fired]
      exact fun p hp => Nat.le_trans (hs.past p hp) later
  | @added t timeout due fresh at' later tick fired pending announcing =>
    have hperm := schedule_perm t due s.pending
    refine ⟨?_, ?_, ?_, by rw [fired]; exact hs.ordered⟩
    · rw [pending, (hperm.map Prod.fst).nodup_iff, List.map_cons, List.nodup_cons]
      exact ⟨fresh, hs.apart⟩
    · rw [pending, announcing, tick]
      intro hdone p hp
      rcases List.mem_cons.mp (hperm.mem_iff.mp hp) with rfl | hold
      · exact later
      · exact hs.quiet hdone p hold
    · rw [fired, tick]
      exact hs.past
  | @aborted t tick fired pending announcing =>
    have hsub : (s.pending.eraseP fun p => p.1 = t).Sublist s.pending := List.eraseP_sublist
    refine ⟨?_, ?_, ?_, by rw [fired]; exact hs.ordered⟩
    · rw [pending]
      exact hs.apart.sublist (hsub.map Prod.fst)
    · rw [pending, announcing, tick]
      exact fun hdone p hp => hs.quiet hdone p (hsub.subset hp)
    · rw [fired, tick]
      exact hs.past

theorem timely {s : State T} (h : Reachable machine s) : Timely s := by
  refine reachable_invariant (I := Timely) ?_ (fun _ _ _ hs hstep => timely_step hs hstep) h
  refine ⟨List.nodup_nil, ?_, ?_, List.Pairwise.nil⟩
  · rintro _ p ⟨⟩
  · rintro p ⟨⟩

theorem announceRemaining_step {s s' : State T} {a : Action T} (h : step s a = some s')
    (hs : s.announcing = false → s.announceRemaining = 0) :
    s'.announcing = false → s'.announceRemaining = 0 := by
  cases a with
  | tick ticks =>
    cases h
    exact hs
  | announce ticks =>
    simp only [step] at h
    split at h
    · cases h
      rintro ⟨⟩
    · cases h
  | expire =>
    cases step_effect h with
    | same _ _ _ announcing =>
      intro hdone
      rw [step, announcing hdone] at h
      cases h
    | expired _ _ _ _ _ announcing =>
      rw [announcing]
      rintro ⟨⟩
  | settle =>
    simp only [step, State.settle] at h
    split at h
    · split at h
      · cases h
        exact fun _ => rfl
      · split at h
        · cases h
        · cases h
          exact fun _ => rfl
    · cases h
  | add t timeout =>
    simp only [step, State.zAddTimeout] at h
    split at h
    · cases h
    · cases h
      split
      · exact hs
      · exact hs
  | abort t =>
    simp only [step, State.zAbortTimeout] at h
    cases h
    split
    · exact hs
    · exact hs

/-- Outside of an announcement the ticks count from the time that sys_clock_tick_get gives,
and the one that has begun is not counted. -/
theorem due_relative {s : State T} (h : Reachable machine s) (hdone : s.announcing = false)
    (ticks : ℕ) : s.due (.relative ticks) = some (s.sysClockTickGet + ticks + 1) := by
  have hnone : s.announceRemaining = 0 :=
    reachable_invariant (I := fun s : State T => s.announcing = false → s.announceRemaining = 0)
      (fun _ => rfl) (fun _ _ _ hs hstep => announceRemaining_step hstep hs) h hdone
  have helapsed : s.elapsed = s.clock := if_pos hnone
  have hsum : s.currTick + (ticks + 1 + s.clock) = s.currTick + s.clock + ticks + 1 := by omega
  rw [State.due, State.dticks, Option.map_some, helapsed, hsum, State.sysClockTickGet]

/-- The ticks since the start, announced or not -/
def State.passed (s : State T) : ℕ := s.currTick + s.announceRemaining + s.clock

def Timeout.ticks : Timeout → ℕ
  | .forever => 0
  | .relative ticks | .absolute ticks => ticks

/-- The driver announces before 2 ^ 31 ticks have gathered, the kernel runs for less than
2 ^ 62 ticks, and no timeout is asked for beyond them. -/
def inRange (s : State T) : Action T → Prop
  | .tick ticks => s.clock + ticks < 2 ^ 31 ∧ s.passed + ticks < 2 ^ 62
  | .add _ timeout => timeout.ticks < 2 ^ 62
  | .announce _ | .expire | .settle | .abort _ => True

/-- What is not announced fits into an int32_t, and every time into a k_ticks_t. -/
structure TicksFit (s : State T) : Prop where
  settled : s.announcing = false → s.announceRemaining = 0
  clock : s.clock < 2 ^ 31
  remaining : s.announceRemaining < 2 ^ 31
  passed : s.passed < 2 ^ 62
  due : ∀ p ∈ s.pending, p.2 < 2 ^ 63

omit [DecidableEq T] in
theorem TicksFit.dticks {s : State T} {timeout : Timeout} {d : ℕ} (h : TicksFit s)
    (hd : s.dticks timeout = some d) (hrange : timeout.ticks < 2 ^ 62) :
    s.currTick + d < 2 ^ 63 := by
  have hpassed := h.passed
  unfold State.passed at hpassed
  cases timeout with
  | forever => cases hd
  | relative ticks =>
    have helapsed : s.elapsed ≤ s.clock := by
      unfold State.elapsed
      split
      · exact Nat.le_refl _
      · exact Nat.zero_le _
    simp only [Timeout.ticks] at hrange
    simp only [State.dticks, Option.some.injEq] at hd
    omega
  | absolute tick =>
    simp only [Timeout.ticks] at hrange
    simp only [State.dticks, Option.some.injEq] at hd
    omega

/-- No step but a tick makes time pass, and sys_clock_announce only moves it. -/
theorem passed_step {s s' : State T} {a : Action T} (h : step s a = some s')
    (hs : TicksFit s) (hrange : inRange s a) :
    s'.clock < 2 ^ 31 ∧ s'.announceRemaining < 2 ^ 31 ∧ s'.passed < 2 ^ 62 := by
  obtain ⟨hsettled, hclock, hremaining, hpassed, -⟩ := hs
  unfold State.passed at hpassed
  cases a with
  | tick ticks =>
    cases h
    obtain ⟨hgathered, hrun⟩ := hrange
    unfold State.passed at hrun
    refine ⟨hgathered, hremaining, ?_⟩
    simp only [State.passed]
    omega
  | announce ticks =>
    simp only [step] at h
    split at h
    · rename_i hok
      have hzero := hsettled hok.1
      cases h
      simp only [State.passed]
      omega
    · cases h
  | expire =>
    simp only [step, State.expire] at h
    split at h
    · split at h
      · cases h
      · split at h
        · cases h
          simp only [State.passed]
          omega
        · cases h
    · cases h
  | settle =>
    simp only [step, State.settle] at h
    split at h
    · split at h
      · cases h
        simp only [State.passed]
        omega
      · split at h
        · cases h
        · cases h
          simp only [State.passed]
          omega
    · cases h
  | add t timeout =>
    simp only [step, State.zAddTimeout] at h
    split at h
    · cases h
    · cases h
      split
      · exact ⟨hclock, hremaining, hpassed⟩
      · exact ⟨hclock, hremaining, hpassed⟩
  | abort t =>
    simp only [step, State.zAbortTimeout] at h
    cases h
    split
    · exact ⟨hclock, hremaining, hpassed⟩
    · exact ⟨hclock, hremaining, hpassed⟩

theorem ticksFit_step {s s' : State T} {a : Action T} (hs : TicksFit s) (hrange : inRange s a)
    (h : step s a = some s') : TicksFit s' := by
  obtain ⟨hclock, hremaining, hpassed⟩ := passed_step h hs hrange
  refine ⟨announceRemaining_step h hs.settled, hclock, hremaining, hpassed, ?_⟩
  have hdue := hs.due
  cases step_effect h with
  | same tick fired pending announcing =>
    rw [pending]
    exact hdue
  | expired pending left tick later fired announcing =>
    rw [pending] at hdue
    rw [left]
    exact fun p hp => hdue p (List.mem_cons_of_mem _ hp)
  | settled later fired pending quiet =>
    rw [pending]
    exact hdue
  | @added t timeout due fresh at' later tick fired pending announcing =>
    obtain ⟨d, hd, rfl⟩ := Option.map_eq_some_iff.mp at'
    rw [pending]
    intro p hp
    rcases List.mem_cons.mp ((schedule_perm t _ s.pending).mem_iff.mp hp) with rfl | hold
    · exact hs.dticks hd hrange
    · exact hdue p hold
  | aborted tick fired pending announcing =>
    rw [pending]
    exact fun p hp => hdue p (List.eraseP_sublist.subset hp)

/-- Over every run in range, the numbers of the code hold what the natural numbers do: the
ticks that are not announced, the due times, and the distances in timeout_list. -/
theorem ticks_fit {s : State T} (h : ReachableUnder machine inRange s) :
    TicksFit s ∧ ∀ p ∈ s.timeoutList, p.2 < 2 ^ 63 := by
  have hfit : TicksFit s := by
    refine reachableUnder_invariant (I := TicksFit) ?_
      (fun _ _ _ hs hrange hstep => ticksFit_step hs hrange hstep) h
    refine ⟨fun _ => rfl, Nat.two_pow_pos 31, Nat.two_pow_pos 31, Nat.two_pow_pos 62, ?_⟩
    rintro p ⟨⟩
  refine ⟨hfit, fun p hp => ?_⟩
  obtain ⟨due, hmem, hle⟩ := exists_deadline s.currTick hp
  exact Nat.lt_of_le_of_lt hle (hfit.due _ hmem)

/-- The first call of a timeout since some state, if it was called -/
def firstCall (t : T) (calls : List (T × ℕ)) : Option (T × ℕ) := calls.find? fun p => p.1 = t

/-- A timeout waits for its tick, or it was called at this tick. -/
def Kept (t : T) (due : ℕ) (before : List (T × ℕ)) (s : State T) : Prop :=
  ∃ calls, s.fired = before ++ calls ∧
    ((firstCall t calls = some (t, due) ∧ due ≤ s.currTick) ∨
      (firstCall t calls = none ∧ (t, due) ∈ s.pending))

theorem kept_step {t : T} {due : ℕ} {before : List (T × ℕ)} {s s' : State T} {a : Action T}
    (hs : Timely s) (hkept : Kept t due before s) (ha : a ≠ .abort t) (h : step s a = some s') :
    Kept t due before s' := by
  obtain ⟨calls, hcalls, hstate⟩ := hkept
  cases step_effect h with
  | same tick fired pending announcing =>
    rw [← tick, ← pending] at hstate
    exact ⟨calls, fired.trans hcalls, hstate⟩
  | @expired u at' rest pending left tick later fired announcing =>
    refine ⟨calls ++ [(u, at')], by rw [fired, hcalls, List.append_assoc], ?_⟩
    unfold firstCall at hstate ⊢
    rw [List.find?_append, tick, left]
    rcases hstate with ⟨hcalled, hpast⟩ | ⟨hnot, hwaits⟩
    · rw [hcalled]
      exact Or.inl ⟨rfl, Nat.le_trans hpast later⟩
    · rw [hnot, Option.none_or]
      rw [pending] at hwaits
      rcases List.mem_cons.mp hwaits with heq | hrest
      · cases heq
        exact Or.inl ⟨by simp, Nat.le_refl _⟩
      · have hapart := hs.apart
        rw [pending, List.map_cons, List.nodup_cons] at hapart
        have hne : ¬ u = t := by
          rintro rfl
          exact hapart.1 (List.mem_map.mpr ⟨_, hrest, rfl⟩)
        exact Or.inr ⟨by simp [hne], hrest⟩
  | settled later fired pending quiet =>
    rw [← pending] at hstate
    exact ⟨calls, fired.trans hcalls, hstate.imp_left fun h => ⟨h.1, Nat.le_trans h.2 later⟩⟩
  | @added u timeout at' fresh _ later tick fired pending announcing =>
    refine ⟨calls, fired.trans hcalls, ?_⟩
    rw [pending, tick]
    refine hstate.imp_right fun h => ⟨h.1, ?_⟩
    exact (schedule_perm u at' s.pending).mem_iff.mpr (List.mem_cons_of_mem _ h.2)
  | @aborted u tick fired pending announcing =>
    refine ⟨calls, fired.trans hcalls, ?_⟩
    rw [pending, tick]
    refine hstate.imp_right fun h => ⟨h.1, ?_⟩
    have hne : ¬ t = u := by
      rintro rfl
      exact ha rfl
    exact (List.mem_eraseP_of_neg (by simpa using hne)).mpr h.2

/-- A timeout that is added, and not aborted, is called at its tick: not before, and not
later than by the announcement of this tick. All calls are in the order of their ticks. -/
theorem run_fires_on_time {s₀ s₁ s : State T} {t : T} {timeout : Timeout} {due : ℕ}
    (hreach : Reachable machine s₀) (hadd : machine.step s₀ (.add t timeout) = some s₁)
    (hdue : s₀.due timeout = some due)
    (hrun : Path machine (fun _ a => a ≠ .abort t) s₁ s) :
    s.fired.Pairwise (fun p q => p.2 ≤ q.2) ∧ ∃ calls, s.fired = s₁.fired ++ calls ∧
      ((firstCall t calls = some (t, due) ∧ due ≤ s.currTick) ∨
        (firstCall t calls = none ∧ (t, due) ∈ s.pending ∧
          (s.announcing = false → s.currTick < due))) := by
  have hstart : Kept t due s₁.fired s₁ := by
    refine ⟨[], (List.append_nil _).symm, Or.inr ⟨rfl, ?_⟩⟩
    change (if s₀.linked t then none else some (s₀.zAddTimeout t timeout)) = some s₁ at hadd
    split at hadd
    · cases hadd
    · cases hadd
      rw [pending_zAddTimeout t hdue]
      exact (schedule_perm t due s₀.pending).mem_iff.mpr List.mem_cons_self
  have hreach₁ : Reachable machine s₁ := hreach.step hadd
  have hkept : Kept t due s₁.fired s :=
    Path.preserves_of_reachable (I := Kept t due s₁.fired) (J := Timely) (fun _ h => timely h)
      (fun _ _ _ hs hk ha hstep => kept_step hs hk ha hstep) hreach₁ hrun hstart
  have hs : Timely s :=
    timely (TransitionRuns.Path.trans hreach₁ (hrun.mono fun _ _ _ => trivial))
  obtain ⟨calls, hcalls, hstate⟩ := hkept
  refine ⟨hs.ordered, calls, hcalls, hstate.imp_right fun h => ⟨h.1, h.2, ?_⟩⟩
  exact fun hdone => hs.quiet hdone _ h.2

/-- The function of timeout 1 adds timeout 2 while its own announcement goes on. -/
theorem run_fires_on_time_added :
    ∃ s : State ℕ, s.fired = [(0, 2), (1, 4), (2, 7)] ∧ s.currTick = 7 ∧
      s.fired.Pairwise (fun p q => p.2 ≤ q.2) ∧ ∃ calls, s.fired = [(0, 2), (1, 4)] ++ calls ∧
        ((firstCall 2 calls = some (2, 7) ∧ 7 ≤ s.currTick) ∨
          (firstCall 2 calls = none ∧ (2, 7) ∈ s.pending ∧
            (s.announcing = false → s.currTick < 7))) := by
  let before : List (Action ℕ) :=
    [.add 0 (.relative 1), .add 1 (.absolute 4), .tick 6, .announce 6, .expire, .expire]
  let after : List (Action ℕ) := [.settle, .tick 1, .announce 1, .expire, .settle]
  let s₀ : State ℕ := ⟨[], 4, 2, true, 0, [(0, 2), (1, 4)]⟩
  have hreach : Reachable machine s₀ :=
    (reachable_init (machine (T := ℕ))).exec before rfl
  have hrun : Path machine (fun _ a => a ≠ .abort 2) (s₀.zAddTimeout 2 (.relative 2)) _ :=
    path_of_exec_restrict after rfl
  exact ⟨_, rfl, rfl, run_fires_on_time hreach rfl rfl hrun⟩

end NcsProjects.KernelTimeouts
