import Mathlib.Data.List.Perm.Basic
import Mathlib.Data.Nat.Notation

/-!
Delta queues. Each entry is stored with its distance to the one in front of it, so that only
the first distance has to change when time goes by. A queue is as good as the list of its
entries with their due times.
-/
namespace NcsProjects.DeltaQueues

variable {T : Type*}

/-- The due times, when the first distance counts from `base`. -/
def deadlines : ℕ → List (T × ℕ) → List (T × ℕ)
  | _, [] => []
  | base, (t, d) :: rest => (t, base + d) :: deadlines (base + d) rest

/-- A new entry goes in front of the first one that is due later. -/
def insert (t : T) : ℕ → List (T × ℕ) → List (T × ℕ)
  | d, [] => [(t, d)]
  | d, (u, e) :: rest =>
    if d < e then (t, d) :: (u, e - d) :: rest else (u, e) :: insert t (d - e) rest

/-- What is removed leaves its distance to the next entry. -/
def remove [DecidableEq T] (t : T) : List (T × ℕ) → List (T × ℕ)
  | [] => []
  | [(u, d)] => if u = t then [] else [(u, d)]
  | (u, d) :: (v, e) :: rest =>
    if u = t then (v, e + d) :: rest else (u, d) :: remove t ((v, e) :: rest)

/-- The same insertion, among due times -/
def schedule (t : T) (due : ℕ) : List (T × ℕ) → List (T × ℕ)
  | [] => [(t, due)]
  | p :: rest => if due < p.2 then (t, due) :: p :: rest else p :: schedule t due rest

theorem schedule_perm (t : T) (due : ℕ) (q : List (T × ℕ)) :
    (schedule t due q).Perm ((t, due) :: q) := by
  induction q with
  | nil => exact List.Perm.refl _
  | cons p rest ih =>
    unfold schedule
    split
    · exact List.Perm.refl _
    · exact (ih.cons p).trans (List.Perm.swap _ _ _)

theorem deadlines_insert (t : T) (base d : ℕ) (q : List (T × ℕ)) :
    deadlines base (insert t d q) = schedule t (base + d) (deadlines base q) := by
  induction q generalizing base d with
  | nil => rfl
  | cons p rest ih =>
    obtain ⟨u, e⟩ := p
    by_cases hlt : d < e
    · have hdue : base + d + (e - d) = base + e := by omega
      simp only [insert, if_pos hlt, deadlines, schedule, hdue, Nat.add_lt_add_iff_left]
    · have hdue : base + e + (d - e) = base + d := by omega
      simp only [insert, if_neg hlt, deadlines, schedule, ih, hdue, Nat.add_lt_add_iff_left]

theorem deadlines_remove [DecidableEq T] (t : T) (base : ℕ) (q : List (T × ℕ)) :
    deadlines base (remove t q) = (deadlines base q).eraseP fun p => p.1 = t := by
  induction q using remove.induct t generalizing base with
  | case1 => rfl
  | case2 d => simp [remove, deadlines]
  | case3 u d hne => simp [remove, deadlines, hne]
  | case4 d v e rest => simp [remove, deadlines, Nat.add_assoc, Nat.add_comm e d]
  | case5 u d v e rest hne ih =>
    have hsplit : deadlines base ((u, d) :: (v, e) :: rest) =
        (u, base + d) :: deadlines (base + d) ((v, e) :: rest) := rfl
    rw [remove, if_neg hne, hsplit, List.eraseP_cons_of_neg (by simpa using hne), ← ih]
    rfl

/-- No distance is longer than the time to the entry. -/
theorem exists_deadline (base : ℕ) {q : List (T × ℕ)} {p : T × ℕ} (hp : p ∈ q) :
    ∃ due, (p.1, due) ∈ deadlines base q ∧ p.2 ≤ due := by
  induction q generalizing base with
  | nil => cases hp
  | cons head rest ih =>
    rcases List.mem_cons.mp hp with rfl | hrest
    · exact ⟨base + p.2, List.mem_cons_self, Nat.le_add_left _ _⟩
    · obtain ⟨due, hmem, hle⟩ := ih (base + head.2) hrest
      exact ⟨due, List.mem_cons_of_mem _ hmem, hle⟩

theorem names_deadlines (base : ℕ) (q : List (T × ℕ)) :
    (deadlines base q).map Prod.fst = q.map Prod.fst := by
  induction q generalizing base with
  | nil => rfl
  | cons p rest ih => exact congrArg (p.1 :: ·) (ih _)

theorem le_deadlines {base : ℕ} {q : List (T × ℕ)} {p : T × ℕ} (hp : p ∈ deadlines base q) :
    base ≤ p.2 := by
  induction q generalizing base with
  | nil => cases hp
  | cons first rest ih =>
    rcases List.mem_cons.mp hp with rfl | hp
    · exact Nat.le_add_right _ _
    · exact Nat.le_trans (Nat.le_add_right _ _) (ih hp)

/-- Time goes by, no further than to the first entry. -/
theorem deadlines_advance {t : T} {base passed d : ℕ} (h : passed ≤ d) (rest : List (T × ℕ)) :
    deadlines (base + passed) ((t, d - passed) :: rest) = deadlines base ((t, d) :: rest) := by
  have hdue : base + passed + (d - passed) = base + d := by omega
  rw [deadlines, deadlines, hdue]

end NcsProjects.DeltaQueues
