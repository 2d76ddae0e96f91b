import NcsProjects.GcloudSessions

/-!
The JWT of a session and the timer that is to renew it. The run of the threads is put
under a clock: time passes in delays of any length between the steps, but not beyond
the expiry of the running timer, whose handler is an interrupt. The JWT is made in
client_init and is good for exp_delta_s; the timer is started later, by the CONNACK,
for an interval of the same length.
-/
namespace NcsProjects.Gcloud

open TransitionRuns

/-- CONFIG_SYS_CLOCK_TICKS_PER_SEC -/
def ticksPerSec : ℕ := 32768

/-- jwt.exp_delta_s in make_jwt -/
def expDeltaS : ℕ := 12 * 60 * 60

/-- The time that a JWT is good for. -/
def expDelta : ℕ := expDeltaS * ticksPerSec

/-- GCLOUD_DISCONNECT_INTERVAL, K_HOURS(12) -/
def gcloudDisconnectInterval : ℕ := 12 * 60 * 60 * ticksPerSec

/-- The threads with the clock. `sessions` counts the JWTs, `jwtAt` is when the last one
was made, and `upAt` when the last session came up; `timerFor` is when the JWT was made that
the running timer was started for. -/
structure Timed where
  state : State
  now : ℕ
  sessions : ℕ
  jwtAt : ℕ
  upAt : ℕ
  timerDue : ℕ
  timerFor : ℕ

def Timed.start : Timed := ⟨State.start, 0, 0, 0, 0, 0, 0⟩

inductive TimedAct
  | delay (d : ℕ)
  | act (a : Act)

/-- The step is a client_init whose make_jwt succeeds. -/
def makesJwt (s : State) : Act → Bool
  | .gcloud env => s.gcloud == .clientInit && env.ok
  | _ => false

/-- The step is the CONNACK that opens a session. -/
def opens (s : State) (a : Act) : Bool := accepts s a && s.client.session != .connected

/-- The expiry after the step; the timer is periodic. -/
def Timed.nextDue (t : Timed) (a : Act) : ℕ :=
  match a with
  | .timer => t.timerDue + gcloudDisconnectInterval
  | _ => if startsTimer t.state a then t.now + gcloudDisconnectInterval else t.timerDue

theorem nextDue_of_starts {t : Timed} {a : Act} (h : startsTimer t.state a = true) :
    t.nextDue a = t.now + gcloudDisconnectInterval := by
  cases a with
  | mqtt env => exact if_pos h
  | start n c | app n env | gcloud env | timer | timeout u => cases h

theorem timerDue_le_nextDue {t : Timed} {a : Act} (h : startsTimer t.state a = false) :
    t.timerDue ≤ t.nextDue a := by
  unfold Timed.nextDue
  split
  · exact Nat.le_add_right _ _
  · simp [h]

def Timed.after (t : Timed) (a : Act) (s : State) : Timed where
  state := s
  now := t.now
  sessions := if makesJwt t.state a then t.sessions + 1 else t.sessions
  jwtAt := if makesJwt t.state a then t.now else t.jwtAt
  upAt := if opens t.state a then t.now else t.upAt
  timerDue := t.nextDue a
  timerFor := if startsTimer t.state a then t.jwtAt else t.timerFor

/-- The running timer expires now. -/
def Timed.fires (t : Timed) : Bool := t.state.timer && decide (t.timerDue ≤ t.now)

def timedStep (t : Timed) : TimedAct → Option Timed
  | .delay d =>
    if t.state.timer = true ∧ t.timerDue < t.now + d then none else some { t with now := t.now + d }
  | .act .timer => if t.fires then (step t.state .timer).map (t.after .timer) else none
  | .act a => (step t.state a).map (t.after a)

def timedMachine : Machine Timed TimedAct := ⟨Timed.start, timedStep⟩

/-- An open session is younger than its JWT is good for. -/
def WithinCredential (t : Timed) : Prop :=
  t.state.client.session = .connected → t.now < t.jwtAt + expDelta

/-- The `n`th JWT waits for its CONNACK for at most `handshake n`, and the session that
comes up then is closed, by a loss or a DISCONNECT, at most `lifetime n` later. -/
def keepsTo (handshake lifetime : ℕ → ℕ) (t : Timed) : TimedAct → Prop
  | .delay d => t.state.client.session = .connected → t.now + d ≤ t.upAt + lifetime t.sessions
  | .act a => opens t.state a = true → t.now ≤ t.jwtAt + handshake t.sessions

instance (handshake lifetime : ℕ → ℕ) (t : Timed) :
    (a : TimedAct) → Decidable (keepsTo handshake lifetime t a)
  | .delay d => inferInstanceAs (Decidable (t.state.client.session = .connected →
      t.now + d ≤ t.upAt + lifetime t.sessions))
  | .act a => inferInstanceAs (Decidable (opens t.state a = true →
      t.now ≤ t.jwtAt + handshake t.sessions))

theorem timedStep_act {t t' : Timed} {a : Act} (h : timedStep t (.act a) = some t') :
    ∃ s, step t.state a = some s ∧ t' = t.after a s ∧ (a = .timer → t.fires = true) := by
  cases a with
  | timer =>
    simp only [timedStep] at h
    split at h
    · rename_i hfires
      obtain ⟨s, hs, rfl⟩ := Option.map_eq_some_iff.mp h
      exact ⟨s, hs, rfl, fun _ => hfires⟩
    · cases h
  | start n c | app n env | gcloud env | mqtt env | timeout u =>
    obtain ⟨s, hs, rfl⟩ := Option.map_eq_some_iff.mp h
    exact ⟨s, hs, rfl, by rintro ⟨⟩⟩

theorem timedStep_delay {t t' : Timed} {d : ℕ} (h : timedStep t (.delay d) = some t') :
    t' = { t with now := t.now + d } ∧ (t.state.timer = true → t.now + d ≤ t.timerDue) := by
  simp only [timedStep] at h
  split at h
  · cases h
  · rename_i hlate
    cases h
    refine ⟨rfl, fun hrun => ?_⟩
    by_contra hgt
    exact hlate ⟨hrun, by omega⟩

/-- Under the clock the threads make a run of theirs. -/
theorem reachable_of_timed {t : Timed} (h : Reachable timedMachine t) :
    Reachable machine t.state := by
  refine reachable_invariant (M := timedMachine) (I := fun t => Reachable machine t.state)
    (reachable_init machine) ?_ h
  intro t a t' hs hstep
  have hstep : timedStep t a = some t' := hstep
  cases a with
  | delay d =>
    obtain ⟨rfl, _⟩ := timedStep_delay hstep
    exact hs
  | act a =>
    obtain ⟨s, hs', rfl, _⟩ := timedStep_act hstep
    exact hs.step hs'

theorem closed_of_makesJwt {s s' : State} {a : Act} (h : step s a = some s')
    (hjwt : makesJwt s a = true) : s'.client.session ≠ .connected := by
  cases a with
  | gcloud env =>
    have hg : s.gcloud = .clientInit := by
      simp only [makesJwt, Bool.and_eq_true, beq_iff_eq] at hjwt
      exact hjwt.1
    simp only [step, gcloudStep, hg, Option.some.injEq] at h
    subst h
    rintro ⟨⟩
  | start n c | app n env | mqtt env | timer | timeout t => cases hjwt

/-- The open session came up in time, and is not older than it may get. -/
def KeptTo (handshake lifetime : ℕ → ℕ) (t : Timed) : Prop :=
  t.state.client.session = .connected →
    t.upAt ≤ t.jwtAt + handshake t.sessions ∧ t.now ≤ t.upAt + lifetime t.sessions

theorem keptTo_start (handshake lifetime : ℕ → ℕ) : KeptTo handshake lifetime Timed.start := by
  rintro ⟨⟩

theorem keptTo_step (handshake lifetime : ℕ → ℕ) (t : Timed) (a : TimedAct) (t' : Timed)
    (h : KeptTo handshake lifetime t) (hkeeps : keepsTo handshake lifetime t a)
    (hstep : timedStep t a = some t') : KeptTo handshake lifetime t' := by
  cases a with
  | delay d =>
    obtain ⟨rfl, _⟩ := timedStep_delay hstep
    exact fun hup => ⟨(h hup).1, hkeeps hup⟩
  | act a =>
    obtain ⟨s, hs, rfl, _⟩ := timedStep_act hstep
    intro hup
    have hnew : ¬ makesJwt t.state a = true := fun hjwt => closed_of_makesJwt hs hjwt hup
    have hjwt : (t.after a s).jwtAt = t.jwtAt := if_neg hnew
    have hcount : (t.after a s).sessions = t.sessions := if_neg hnew
    rw [hjwt, hcount]
    cases hopens : opens t.state a with
    | true =>
      have hat : (t.after a s).upAt = t.now := if_pos hopens
      rw [hat]
      exact ⟨hkeeps hopens, Nat.le_add_right t.now _⟩
    | false =>
      have hat : (t.after a s).upAt = t.upAt := if_neg (by simp [hopens])
      have hold : t.state.client.session = .connected := by
        rcases session_of_step hs hup with hold | hacc
        · exact hold
        · simpa [opens, hacc] using hopens
      rw [hat]
      exact h hold

theorem KeptTo.within {handshake lifetime : ℕ → ℕ} {t : Timed}
    (h : KeptTo handshake lifetime t) (hshort : ∀ n, handshake n + lifetime n < expDelta) :
    WithinCredential t := by
  intro hup
  obtain ⟨hopened, hclosed⟩ := h hup
  have hsum := hshort t.sessions
  omega

/-- The running timer expires no earlier than the JWT it was started for. -/
structure TimerInv (t : Timed) : Prop where
  made : t.jwtAt ≤ t.now
  due : t.state.timer = true → t.timerFor + expDelta ≤ t.timerDue

theorem timerInv_start : TimerInv Timed.start := ⟨Nat.le_refl 0, by rintro ⟨⟩⟩

theorem timerInv_step (t : Timed) (a : TimedAct) (t' : Timed) (h : TimerInv t)
    (hstep : timedStep t a = some t') : TimerInv t' := by
  obtain ⟨hmade, hdue⟩ := h
  cases a with
  | delay d =>
    obtain ⟨rfl, _⟩ := timedStep_delay hstep
    exact ⟨Nat.le_add_right_of_le hmade, hdue⟩
  | act a =>
    obtain ⟨s, hs, rfl, _⟩ := timedStep_act hstep
    constructor
    · change (if makesJwt t.state a then t.now else t.jwtAt) ≤ t.now
      split
      · exact Nat.le_refl _
      · exact hmade
    · intro hrun
      change (if startsTimer t.state a then t.jwtAt else t.timerFor) + expDelta ≤ t.nextDue a
      cases hstart : startsTimer t.state a with
      | true =>
        have hequal : expDelta = gcloudDisconnectInterval := rfl
        rw [nextDue_of_starts hstart, if_pos rfl, hequal]
        exact Nat.add_le_add_right hmade _
      | false =>
        have hold := hdue ((timer_of_step hs hrun).resolve_right (by simp [hstart]))
        rw [if_neg Bool.false_ne_true]
        exact Nat.le_trans hold (timerDue_le_nextDue hstart)

/-- Whenever the reconnect timer fires, the JWT that it was started for has expired. -/
theorem expired_of_fires {t : Timed} (h : TimerInv t) (hfires : t.fires = true) :
    t.timerFor + expDelta ≤ t.now := by
  simp only [Timed.fires, Bool.and_eq_true, decide_eq_true_eq] at hfires
  exact Nat.le_trans (h.due hfires.1) hfires.2

/-- A session that comes up at once and stays up for 12 hours. -/
def twelveHours : List TimedAct := Gcloud.handshake.map .act ++ [.delay gcloudDisconnectInterval]

end NcsProjects.Gcloud
