import Mathlib.Data.Finset.Card

/-!
A heap under a program: each request is answered with a new block or refused, and a
block can be given back once.
-/
namespace NcsProjects.BlockHeaps

/-- The blocks that are in use. A request, of some number and size, is answered with the
contents of a new block or refused. -/
structure Heap (α : Type*) where
  answers : ℕ → ℕ → Option α
  requests : ℕ
  refused : ℕ
  live : Finset ℕ
  below : ∀ b ∈ live, b < requests

variable {α : Type*}

namespace Heap

/-- A block is named by its request. -/
def malloc (size : ℕ) (h : Heap α) : Option (ℕ × α) × Heap α :=
  match h.answers h.requests size with
  | none => (none,
      { h with
        requests := h.requests + 1
        refused := h.refused + 1
        below := fun b hb => Nat.lt_succ_of_lt (h.below b hb) })
  | some contents => (some (h.requests, contents),
      { h with
        requests := h.requests + 1
        live := insert h.requests h.live
        below := by
          intro b hb
          rcases Finset.mem_insert.mp hb with rfl | hold
          · exact Nat.lt_succ_self _
          · exact Nat.lt_succ_of_lt (h.below b hold) })

/-- There is no second free of a block. -/
def free (block : ℕ) (h : Heap α) : Option (Heap α) :=
  if block ∈ h.live then
    some { h with
      live := h.live.erase block
      below := fun b hb => h.below b (Finset.mem_of_mem_erase hb) }
  else none

end Heap

/-- A request is refused, or a new block comes out. -/
theorem malloc_cases (size : ℕ) (h : Heap α) :
    (∃ h', h.malloc size = (none, h') ∧ h'.live = h.live ∧ h.refused < h'.refused) ∨
    (∃ block contents h', h.malloc size = (some (block, contents), h') ∧ block ∉ h.live ∧
      h'.live = insert block h.live ∧ h'.refused = h.refused) := by
  unfold Heap.malloc
  cases h.answers h.requests size with
  | none => exact Or.inl ⟨_, rfl, rfl, Nat.lt_succ_self _⟩
  | some contents =>
    refine Or.inr ⟨_, _, _, rfl, ?_, rfl, rfl⟩
    intro hmem
    exact Nat.lt_irrefl _ (h.below _ hmem)

theorem free_of_mem {block : ℕ} {h : Heap α} (hmem : block ∈ h.live) :
    ∃ h', h.free block = some h' ∧ h'.live = h.live.erase block ∧ h'.refused = h.refused := by
  unfold Heap.free
  rw [if_pos hmem]
  exact ⟨_, rfl, rfl, rfl⟩

/-- An old block is given back for a new one. -/
theorem exchange {base : Finset ℕ} {block new : ℕ} {h : Heap α} (hfresh : block ∉ base)
    (hnew : new ∉ insert block base) (hlive : h.live = insert new (insert block base)) :
    ∃ h', h.free block = some h' ∧ h'.live = insert new base ∧ h'.refused = h.refused := by
  have hmem : block ∈ h.live := by
    rw [hlive]
    exact Finset.mem_insert_of_mem (Finset.mem_insert_self _ _)
  obtain ⟨h', hfree, hafter, hrefused⟩ := free_of_mem hmem
  refine ⟨h', hfree, ?_, hrefused⟩
  have hne : new ≠ block := fun heq => hnew (heq ▸ Finset.mem_insert_self _ _)
  rw [hafter, hlive, Finset.erase_insert_of_ne hne, Finset.erase_insert hfresh]

end NcsProjects.BlockHeaps
