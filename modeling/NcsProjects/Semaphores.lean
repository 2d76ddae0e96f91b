import Mathlib.Data.List.Basic

/-!
Counting semaphores of a preemptive kernel, with the threads that wait in them.
A give wakes the first waiting thread and only counts when nobody waits; a give
at the limit is lost. Each token carries the value that was given with it, so a
proof can ask where a token came from; the count is the number of tokens. The
structure keeps the two facts every caller relies on: the count stays within
the limit, and no thread waits while a token is available.
-/
namespace NcsProjects.Semaphores

variable {T G : Type*} {limit : ℕ}

/-- A thread enters a wait queue at the position that its priority gives it. -/
def enqueue (pos : ℕ) (t : T) (waiters : List T) : List T :=
  waiters.take pos ++ t :: waiters.drop pos

@[simp] theorem mem_enqueue (pos : ℕ) (t u : T) (waiters : List T) :
    u ∈ enqueue pos t waiters ↔ u = t ∨ u ∈ waiters := by
  constructor
  · intro h
    rcases List.mem_append.mp h with hl | hr
    · exact Or.inr (List.mem_of_mem_take hl)
    · rcases List.mem_cons.mp hr with heq | hd
      · exact Or.inl heq
      · exact Or.inr (List.mem_of_mem_drop hd)
  · rintro (rfl | h)
    · exact List.mem_append_right _ List.mem_cons_self
    · rw [← List.take_append_drop pos waiters] at h
      rcases List.mem_append.mp h with hl | hr
      · exact List.mem_append_left _ hl
      · exact List.mem_append_right _ (List.mem_cons_of_mem _ hr)

theorem enqueue_nil (pos : ℕ) (t : T) : enqueue pos t [] = [t] := by
  simp [enqueue]

theorem enqueue_perm (pos : ℕ) (t : T) (waiters : List T) :
    (enqueue pos t waiters).Perm (t :: waiters) := by
  have h : (enqueue pos t waiters).Perm (t :: (waiters.take pos ++ waiters.drop pos)) :=
    List.perm_middle
  rwa [List.take_append_drop] at h

structure Sem (T G : Type*) (limit : ℕ) where
  tokens : List G
  waiters : List T
  tokens_le : tokens.length ≤ limit
  no_wait : waiters ≠ [] → tokens = []

namespace Sem

theorem no_wait_nil (tokens : List G) : ([] : List T) ≠ [] → tokens = [] :=
  fun hne => absurd rfl hne

/-- A semaphore that starts with the given tokens and no waiting thread. -/
def start (tokens : List G) (h : tokens.length ≤ limit) : Sem T G limit :=
  ⟨tokens, [], h, no_wait_nil tokens⟩

/-- A binary semaphore may start without a token. -/
theorem empty_fits : ([] : List Unit).length ≤ 1 := by decide

def count (s : Sem T G limit) : ℕ := s.tokens.length

/-- Wake the first waiting thread, or add a token unless the limit is reached. -/
def give (s : Sem T G limit) (g : G) : Option T × Sem T G limit :=
  match hw : s.waiters with
  | t :: rest => (some t, ⟨s.tokens, rest, s.tokens_le, fun _ => s.no_wait (by simp [hw])⟩)
  | [] =>
    if h : s.tokens.length < limit then
      (none, ⟨s.tokens ++ [g], [], by simpa using Nat.succ_le_of_lt h, fun hne => absurd rfl hne⟩)
    else (none, s)

/-- Take a token if there is one; otherwise the thread waits. -/
def take (s : Sem T G limit) (pos : ℕ) (t : T) : Option G × Sem T G limit :=
  match ht : s.tokens with
  | g :: rest =>
    (some g, ⟨rest, s.waiters,
      by have := s.tokens_le; simp only [ht, List.length_cons] at this; omega,
      fun hne => absurd (s.no_wait hne) (by simp [ht])⟩)
  | [] => (none, ⟨[], enqueue pos t s.waiters, by simp, fun _ => rfl⟩)

/-- A thread leaves the wait queue without a token: its wait timed out or it was aborted. -/
def cancel [DecidableEq T] (s : Sem T G limit) (t : T) : Sem T G limit :=
  ⟨s.tokens, s.waiters.filter (· ≠ t), s.tokens_le, fun hne => s.no_wait (by
    intro hnil
    simp [hnil] at hne)⟩

@[simp] theorem cancel_waiters [DecidableEq T] (s : Sem T G limit) (t : T) :
    (s.cancel t).waiters = s.waiters.filter (· ≠ t) := rfl

/-- A give with a thread waiting hands the token over and leaves the count. -/
theorem give_of_waiting (s : Sem T G limit) (g : G) {t : T} {rest : List T}
    (hw : s.waiters = t :: rest) :
    ∃ s', s.give g = (some t, s') ∧ s'.tokens = s.tokens ∧ s'.waiters = rest := by
  unfold give
  split
  · rename_i u rest' hu
    rw [hw] at hu
    obtain ⟨rfl, rfl⟩ := List.cons.inj hu
    exact ⟨_, rfl, rfl, rfl⟩
  · rename_i hnil
    rw [hw] at hnil
    cases hnil

/-- A give with nobody waiting adds its token below the limit and is lost at it. -/
theorem give_of_idle (s : Sem T G limit) (g : G) (hw : s.waiters = []) :
    ∃ s', s.give g = (none, s') ∧ s'.waiters = [] ∧
      s'.tokens = if s.tokens.length < limit then s.tokens ++ [g] else s.tokens := by
  unfold give
  split
  · rename_i u rest hu
    rw [hw] at hu
    cases hu
  · split
    · exact ⟨_, rfl, rfl, by simp [*]⟩
    · exact ⟨_, rfl, hw, by simp [*]⟩

theorem take_of_token (s : Sem T G limit) (pos : ℕ) (t : T) {g : G} {rest : List G}
    (ht : s.tokens = g :: rest) :
    ∃ s', s.take pos t = (some g, s') ∧ s'.tokens = rest ∧ s'.waiters = s.waiters := by
  unfold take
  split
  · rename_i g' rest' hg
    rw [ht] at hg
    obtain ⟨rfl, rfl⟩ := List.cons.inj hg
    exact ⟨_, rfl, rfl, rfl⟩
  · rename_i hnil
    rw [ht] at hnil
    cases hnil

theorem take_of_empty (s : Sem T G limit) (pos : ℕ) (t : T) (ht : s.tokens = []) :
    ∃ s', s.take pos t = (none, s') ∧ s'.tokens = [] ∧
      s'.waiters = enqueue pos t s.waiters := by
  unfold take
  split
  · rename_i g rest hg
    rw [ht] at hg
    cases hg
  · exact ⟨_, rfl, rfl, rfl⟩

/-- A take that finds a token, read backwards. -/
theorem take_some {s s' : Sem T G limit} {pos : ℕ} {t : T} {g : G}
    (h : s.take pos t = (some g, s')) : s.tokens = g :: s'.tokens ∧ s'.waiters = s.waiters := by
  cases ht : s.tokens with
  | nil =>
    obtain ⟨sem, htake, _⟩ := s.take_of_empty pos t ht
    rw [h] at htake
    cases htake
  | cons g' rest =>
    obtain ⟨sem, htake, htokens, hwaiters⟩ := s.take_of_token pos t ht
    rw [h] at htake
    cases htake
    exact ⟨by rw [htokens], hwaiters⟩

theorem take_none {s s' : Sem T G limit} {pos : ℕ} {t : T} (h : s.take pos t = (none, s')) :
    s.tokens = [] ∧ s'.tokens = [] ∧ s'.waiters = enqueue pos t s.waiters := by
  cases ht : s.tokens with
  | nil =>
    obtain ⟨sem, htake, htokens, hwaiters⟩ := s.take_of_empty pos t ht
    rw [h] at htake
    cases htake
    exact ⟨rfl, htokens, hwaiters⟩
  | cons g' rest =>
    obtain ⟨sem, htake, _⟩ := s.take_of_token pos t ht
    rw [h] at htake
    cases htake

/-- A give lets nobody in. -/
theorem mem_give_waiters (s : Sem T G limit) (g : G) {t : T} (hm : t ∈ (s.give g).2.waiters) :
    t ∈ s.waiters := by
  cases hw : s.waiters with
  | cons u rest =>
    obtain ⟨s', hgive, _, hwaiters⟩ := give_of_waiting s g hw
    rw [hgive, hwaiters] at hm
    exact List.mem_cons_of_mem u hm
  | nil =>
    obtain ⟨s', hgive, hwaiters, _⟩ := give_of_idle s g hw
    rw [hgive, hwaiters] at hm
    exact hm

/-- Only the thread `t` ever waits; `b` says whether it does. -/
def Waits (s : Sem T G limit) (t : T) (b : Bool) : Prop := s.waiters = if b then [t] else []

section Binary

variable {s : Sem T G 1} {t : T}

theorem Waits.no_token (h : s.Waits t true) : s.tokens = [] := s.no_wait (by rw [h]; simp)

theorem Waits.give_waiting (h : s.Waits t true) (g : G) :
    ∃ s', s.give g = (some t, s') ∧ s'.tokens = [] ∧ s'.Waits t false := by
  obtain ⟨s', hgive, htokens, hwaiters⟩ := give_of_waiting s g h
  exact ⟨s', hgive, htokens.trans h.no_token, hwaiters⟩

/-- A second token is lost. -/
theorem Waits.give_idle (h : s.Waits t false) (g : G) :
    ∃ s', s.give g = (none, s') ∧ s'.Waits t false ∧
      s'.tokens = if s.tokens = [] then [g] else s.tokens := by
  obtain ⟨s', hgive, hwaiters, htokens⟩ := give_of_idle s g h
  refine ⟨s', hgive, hwaiters, ?_⟩
  rw [htokens]
  cases ht : s.tokens with
  | nil => rfl
  | cons x rest => simp

/-- A take gets the only token, or the thread waits. -/
theorem Waits.take_cases (h : s.Waits t false) (pos : ℕ) :
    (∃ g s', s.take pos t = (some g, s') ∧ s.tokens = [g] ∧ s'.tokens = [] ∧ s'.Waits t false) ∨
      ∃ s', s.take pos t = (none, s') ∧ s.tokens = [] ∧ s'.tokens = [] ∧ s'.Waits t true := by
  cases ht : s.tokens with
  | cons g rest =>
    have hrest : rest = [] := by
      have hle := s.tokens_le
      rw [ht] at hle
      exact List.eq_nil_of_length_eq_zero (Nat.le_zero.mp (Nat.le_of_succ_le_succ hle))
    obtain ⟨s', htake, htokens, hwaiters⟩ := take_of_token s pos t ht
    exact Or.inl ⟨g, s', htake, by rw [hrest], htokens.trans hrest, hwaiters.trans h⟩
  | nil =>
    obtain ⟨s', htake, htokens, hwaiters⟩ := take_of_empty s pos t ht
    refine Or.inr ⟨s', htake, rfl, htokens, hwaiters.trans ?_⟩
    rw [show s.waiters = [] from h, enqueue_nil]
    rfl

theorem Waits.cancel_waiting [DecidableEq T] (h : s.Waits t true) :
    (s.cancel t).tokens = [] ∧ (s.cancel t).Waits t false := by
  refine ⟨h.no_token, ?_⟩
  simp [Waits, show s.waiters = [t] from h]

end Binary

end Sem

end NcsProjects.Semaphores
