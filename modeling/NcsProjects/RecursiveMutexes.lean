import Mathlib.Data.List.Nodup
import NcsProjects.Semaphores

/-!
Recursive mutexes of a preemptive kernel. The owner may lock again and gives the
mutex up only with the last unlock, which hands it to the first waiting thread.
The structure keeps that nobody waits for a free mutex and that each thread waits
once, never for a mutex that it owns. Where a thread stands towards the mutex is
then preserved by every operation of the others.
-/
namespace NcsProjects.RecursiveMutexes

open Semaphores

variable {T : Type*}

structure Mutex (T : Type*) where
  /-- The owner and the number of its locks beyond the first. -/
  owner : Option (T × ℕ)
  waiters : List T
  no_wait : owner = none → waiters = []
  nodup : waiters.Nodup
  owner_runs : ∀ o ∈ owner, o.1 ∉ waiters

namespace Mutex

def free : Mutex T := ⟨none, [], fun _ => rfl, List.nodup_nil, nofun⟩

variable [DecidableEq T]

/-- Lock, or wait until the mutex is handed over. -/
def lock (m : Mutex T) (pos : ℕ) (t : T) : Bool × Mutex T :=
  match ho : m.owner with
  | none => (true, ⟨some (t, 0), [], nofun, List.nodup_nil, fun _ _ => List.not_mem_nil⟩)
  | some (u, n) =>
    if hu : u = t then (true, ⟨some (u, n + 1), m.waiters, nofun, m.nodup, by
      rintro o ⟨⟩
      exact m.owner_runs (u, n) ho⟩)
    else if ht : t ∈ m.waiters then (false, m)
    else (false, ⟨m.owner, enqueue pos t m.waiters, by simp [ho],
      (enqueue_perm pos t m.waiters).nodup_iff.mpr (List.nodup_cons.mpr ⟨ht, m.nodup⟩), by
        intro o hmem
        have heq : o = (u, n) := by
          rw [ho] at hmem
          exact (Option.mem_some_iff.mp hmem).symm
        rw [mem_enqueue, not_or, heq]
        exact ⟨hu, m.owner_runs (u, n) ho⟩⟩)

/-- Give up one lock; a thread that does not own the mutex changes nothing. -/
def unlock (m : Mutex T) (t : T) : Mutex T :=
  match ho : m.owner with
  | none => m
  | some (u, n + 1) =>
    if u = t then ⟨some (u, n), m.waiters, nofun, m.nodup, by
      rintro o ⟨⟩
      exact m.owner_runs (u, n + 1) ho⟩
    else m
  | some (u, 0) =>
    if u = t then
      match hw : m.waiters with
      | [] => free
      | w :: ws => ⟨some (w, 0), ws, nofun, (List.nodup_cons.mp (hw ▸ m.nodup)).2, by
          rintro o ⟨⟩
          exact (List.nodup_cons.mp (hw ▸ m.nodup)).1⟩
    else m

/-- A thread stops waiting because it was aborted. What it owns it keeps. -/
def cancel (m : Mutex T) (t : T) : Mutex T :=
  ⟨m.owner, m.waiters.filter (· ≠ t), fun h => by simp [m.no_wait h], m.nodup.filter _,
    fun o hmem hin => m.owner_runs o hmem (List.mem_of_mem_filter hin)⟩

/-- The number of locks that a thread holds. -/
def level (m : Mutex T) (t : T) : ℕ :=
  match m.owner with
  | some (u, n) => if u = t then n + 1 else 0
  | none => 0

def heldBy (m : Mutex T) (t : T) : Bool := 0 < m.level t

/-- A waiting thread is in the queue, or the mutex has been handed to it; any other
thread holds `l` locks. -/
def Stands (m : Mutex T) (t : T) (waiting : Bool) (l : ℕ) : Prop :=
  if waiting then t ∈ m.waiters ∨ m.level t = 1 else t ∉ m.waiters ∧ m.level t = l

variable {m : Mutex T} {t u : T}

theorem not_waiting_of_level (h : m.level t ≠ 0) : t ∉ m.waiters := by
  unfold level at h
  split at h
  · rename_i v n ho
    split at h
    · rename_i hv
      rw [← hv]
      exact m.owner_runs (v, n) ho
    · exact absurd rfl h
  · exact absurd rfl h

/-- Two threads never hold the mutex at once. -/
theorem level_eq_zero_of_ne (h : m.level t ≠ 0) (hu : u ≠ t) : m.level u = 0 := by
  unfold level at h ⊢
  split at h
  · rename_i v n ho
    split at h
    · rename_i hv
      rw [hv]
      simp [Ne.symm hu]
    · exact absurd rfl h
  · exact absurd rfl h

theorem owner_of_level_zero (h : ∀ t, m.level t = 0) : m.owner = none := by
  cases ho : m.owner with
  | none => rfl
  | some o =>
    have h := h o.1
    simp [level, ho] at h

/-- Towards the mutex every thread is a waiting one or one with some number of locks. -/
theorem stands_of_not_mem (h : t ∉ m.waiters) : m.Stands t false (m.level t) := ⟨h, rfl⟩

theorem level_of_waiting (h : t ∈ m.waiters) : m.level t = 0 := by
  by_contra hne
  exact not_waiting_of_level hne h

/-- The waiting thread that finds itself the owner holds one lock. -/
theorem Stands.granted {l : ℕ} (h : m.Stands t true l) (hheld : m.heldBy t = true) :
    m.Stands t false 1 := by
  simp only [heldBy, decide_eq_true_eq] at hheld
  have hout := not_waiting_of_level (Nat.ne_of_gt hheld)
  exact ⟨hout, h.resolve_left hout⟩

/-- A thread that still waits is behind another owner. -/
theorem Stands.blocked {l : ℕ} (h : m.Stands t true l) (hheld : m.heldBy t = false) :
    ∃ v, v ≠ t ∧ m.level v ≠ 0 := by
  simp only [heldBy, decide_eq_false_iff_not] at hheld
  have hin : t ∈ m.waiters := by
    rcases h with hin | hone
    · exact hin
    · omega
  cases ho : m.owner with
  | none =>
    rw [m.no_wait ho] at hin
    cases hin
  | some o =>
    refine ⟨o.1, ?_, by simp [level, ho]⟩
    rintro rfl
    exact m.owner_runs o ho hin

theorem Stands.lock_self {l : ℕ} (h : m.Stands t false l) (pos : ℕ) :
    ((m.lock pos t).1 = true → (m.lock pos t).2.Stands t false (l + 1)) ∧
      ((m.lock pos t).1 = false → (m.lock pos t).2.Stands t true 0) := by
  obtain ⟨hout, hlevel⟩ := h
  unfold level at hlevel
  unfold lock
  split
  · rename_i ho
    simp only [ho] at hlevel
    refine ⟨fun _ => ⟨List.not_mem_nil, ?_⟩, (by rintro ⟨⟩)⟩
    simp [level, ← hlevel]
  · rename_i v n ho
    simp only [ho] at hlevel
    split
    · rename_i hv
      refine ⟨fun _ => ⟨hout, ?_⟩, (by rintro ⟨⟩)⟩
      simp only [level, if_pos hv] at hlevel ⊢
      omega
    · exact ⟨(by rintro ⟨⟩), fun _ => Or.inl ((mem_enqueue pos t t m.waiters).mpr (Or.inl rfl))⟩

/-- The owner locks again without waiting. -/
theorem lock_of_held (pos : ℕ) (h : m.level t ≠ 0) : (m.lock pos t).1 = true := by
  unfold level at h
  unfold lock
  split
  · rfl
  · rename_i v n ho
    simp only [ho] at h
    split at h
    · rename_i hv
      simp [hv]
    · exact absurd rfl h

theorem lock_of_free (pos : ℕ) (h : ∀ u, m.level u = 0) : (m.lock pos t).1 = true := by
  have ho := owner_of_level_zero h
  unfold lock
  split
  · rfl
  · rename_i v n hsome
    rw [ho] at hsome
    cases hsome

/-- A change of the mutex that leaves one thread's share alone. -/
theorem Stands.congr {m' : Mutex T} {l : ℕ} {w : Bool} (h : m.Stands u w l)
    (hwait : u ∈ m'.waiters ↔ u ∈ m.waiters) (hlevel : m'.level u = m.level u) :
    m'.Stands u w l := by
  unfold Stands at h ⊢
  rwa [hwait, hlevel]

theorem Stands.lock_other {pos l : ℕ} {w : Bool} (h : m.Stands u w l) (hu : u ≠ t) :
    (m.lock pos t).2.Stands u w l := by
  unfold lock
  split
  · rename_i ho
    refine h.congr ?_ ?_
    · simp [m.no_wait ho]
    · simp [level, ho, Ne.symm hu]
  · rename_i v n ho
    split
    · rename_i hv
      refine h.congr Iff.rfl ?_
      simp [level, ho, hv, Ne.symm hu]
    · split
      · exact h
      · refine h.congr ?_ rfl
        rw [mem_enqueue]
        exact or_iff_right hu

theorem Stands.unlock_self {l : ℕ} (h : m.Stands t false (l + 1)) :
    (m.unlock t).Stands t false l := by
  obtain ⟨hout, hlevel⟩ := h
  have howner : m.owner = some (t, l) := by
    unfold level at hlevel
    split at hlevel
    · rename_i v n ho
      split at hlevel
      · rename_i hv
        have hn : n = l := by omega
        rw [ho, hv, hn]
      · cases hlevel
    · cases hlevel
  unfold unlock
  split
  · rename_i ho
    rw [ho] at howner
    cases howner
  · rename_i v n ho
    rw [ho] at howner
    cases howner
    rw [if_pos rfl]
    exact ⟨hout, by simp [level]⟩
  · rename_i v ho
    rw [ho] at howner
    cases howner
    rw [if_pos rfl]
    split
    · exact ⟨List.not_mem_nil, rfl⟩
    · rename_i x ws hw
      rw [hw, List.mem_cons, not_or] at hout
      exact ⟨hout.2, by simp [level, Ne.symm hout.1]⟩

/-- An unlock without a lock changes nothing for the thread. -/
theorem Stands.unlock_idle (h : m.Stands t false 0) : (m.unlock t).Stands t false 0 := by
  obtain ⟨hout, hlevel⟩ := h
  have hne : ∀ v n, m.owner = some (v, n) → v ≠ t := by
    rintro v n ho rfl
    simp [level, ho] at hlevel
  unfold unlock
  split
  · exact ⟨hout, hlevel⟩
  · rename_i v n ho
    rw [if_neg (hne v (n + 1) ho)]
    exact ⟨hout, hlevel⟩
  · rename_i v ho
    rw [if_neg (hne v 0 ho)]
    exact ⟨hout, hlevel⟩

/-- Giving the mutex up hands it to the first waiting thread and leaves the rest alone. -/
theorem Stands.unlock_other {l : ℕ} {w : Bool} (h : m.Stands u w l) (hu : u ≠ t) :
    (m.unlock t).Stands u w l := by
  unfold unlock
  split
  · exact h
  · rename_i v n ho
    split
    · rename_i hv
      refine h.congr Iff.rfl ?_
      simp [level, ho, hv, Ne.symm hu]
    · exact h
  · rename_i v ho
    split
    · rename_i hv
      have hzero : m.level u = 0 := by simp [level, ho, hv, Ne.symm hu]
      split
      · rename_i hw
        refine h.congr (by simp [free, hw]) ?_
        rw [hzero]
        rfl
      · rename_i x ws hw
        by_cases hx : x = u
        · subst hx
          cases w with
          | true => exact Or.inr (by simp [level])
          | false => exact absurd (by simp [hw]) h.1
        · refine h.congr ?_ ?_
          · have hcons : u ∈ m.waiters ↔ u = x ∨ u ∈ ws := by rw [hw, List.mem_cons]
            exact hcons.trans (or_iff_right (Ne.symm hx)) |>.symm
          · rw [hzero]
            simp [level, hx]
    · exact h

theorem Stands.cancel_other {l : ℕ} {w : Bool} (h : m.Stands u w l) (hu : u ≠ t) :
    (m.cancel t).Stands u w l := by
  refine h.congr ?_ rfl
  simp [cancel, hu]

end Mutex

end NcsProjects.RecursiveMutexes
