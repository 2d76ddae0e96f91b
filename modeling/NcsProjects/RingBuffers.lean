import Mathlib.Data.Nat.ModEq
import NcsProjects.ByteRegions

/-!
Ring buffers in memory: a row of slots of one size, used in turn. An address moves to
the next slot by adding the size of a slot, and goes back to the first one where that
lands at the end of the row. The items are the slots in use, from the oldest on.
-/
namespace NcsProjects.RingBuffers

open ByteRegions

variable {α : Type*}

structure Ring where
  base : ℕ
  size : ℕ
  cap : ℕ
  cap_pos : 0 < cap

namespace Ring

variable (r : Ring)

def stop : ℕ := r.base + r.cap * r.size

/-- The address of slot `i`, counted on around the ring. -/
def slot (i : ℕ) : ℕ := r.base + i % r.cap * r.size

def next (p : ℕ) : ℕ := if p + r.size = r.stop then r.base else p + r.size

def items (m : Region α) (first used : ℕ) : List (List α) :=
  (List.range used).map fun i => slice m (r.slot (first + i)) r.size

/-- A stretch of memory has no cell of the ring. -/
def Apart (off len : ℕ) : Prop := off + len ≤ r.base ∨ r.stop ≤ off

instance (off len : ℕ) : Decidable (r.Apart off len) := instDecidableOr

@[simp] theorem items_length (m : Region α) (first used : ℕ) :
    (r.items m first used).length = used := by
  simp [items]

@[simp] theorem items_zero (m : Region α) (first : ℕ) : r.items m first 0 = [] := rfl

theorem slot_start : r.slot 0 = r.base := by
  simp [slot]

theorem base_le_slot (i : ℕ) : r.base ≤ r.slot i := Nat.le_add_right _ _

/-- A slot lies within the ring. -/
theorem slot_le_stop (i : ℕ) : r.slot i + r.size ≤ r.stop := by
  have hlt : i % r.cap + 1 ≤ r.cap := Nat.mod_lt i r.cap_pos
  have hmul := Nat.mul_le_mul_right r.size hlt
  rw [Nat.add_mul, Nat.one_mul] at hmul
  unfold slot stop
  omega

/-- The wrap at the end of the row counts on around the ring. -/
theorem next_slot (i : ℕ) : r.next (r.slot i) = r.slot (i + 1) := by
  have hlt : i % r.cap < r.cap := Nat.mod_lt i r.cap_pos
  have hstep : (i % r.cap + 1) * r.size = i % r.cap * r.size + r.size := by
    rw [Nat.add_mul, Nat.one_mul]
  have hmod : (i + 1) % r.cap = (i % r.cap + 1) % r.cap := (Nat.mod_add_mod i r.cap 1).symm
  unfold next slot stop
  by_cases hlast : i % r.cap + 1 = r.cap
  · rw [hlast] at hstep
    rw [hmod, hlast, Nat.mod_self, if_pos (by omega)]
    omega
  · have hnot : i % r.cap + 1 < r.cap := by omega
    rw [hmod, Nat.mod_eq_of_lt hnot, hstep]
    split
    · rename_i hend
      have hmul : (i % r.cap + 2) * r.size ≤ r.cap * r.size :=
        Nat.mul_le_mul_right r.size (by omega)
      rw [Nat.add_mul] at hmul
      have hnone : r.size = 0 := by omega
      simp [hnone]
    · omega

/-- Different slots do not overlap. -/
theorem slot_beside {i j : ℕ} (h : i % r.cap ≠ j % r.cap) :
    r.slot i + r.size ≤ r.slot j ∨ r.slot j + r.size ≤ r.slot i := by
  have hstep (a b : ℕ) (hab : a < b) : a * r.size + r.size ≤ b * r.size := by
    have hmul := Nat.mul_le_mul_right r.size (Nat.succ_le_of_lt hab)
    rwa [Nat.succ_mul] at hmul
  unfold slot
  rcases Nat.lt_or_gt_of_ne h with hij | hji
  · have hle := hstep _ _ hij
    omega
  · have hle := hstep _ _ hji
    omega

/-- The slot behind the last item in use is not in use. -/
theorem mod_ne_of_lt {first i used : ℕ} (hi : i < used) (hused : used < r.cap) :
    (first + i) % r.cap ≠ (first + used) % r.cap := by
  intro h
  have hmod : i ≡ used [MOD r.cap] := Nat.ModEq.add_left_cancel' first h
  have heq : i = used := hmod.eq_of_lt_of_lt (by omega) hused
  omega

theorem items_congr {m m' : Region α} {first used : ℕ}
    (h : ∀ i < used, slice m (r.slot (first + i)) r.size = slice m' (r.slot (first + i)) r.size) :
    r.items m first used = r.items m' first used := by
  unfold items
  apply List.map_congr_left
  intro i hi
  exact h i (List.mem_range.mp hi)

/-- A write outside the ring leaves the items alone. -/
theorem items_write_apart (m : Region α) {off : ℕ} {xs : List α} (first used : ℕ)
    (h : r.Apart off xs.length) : r.items (write m off xs) first used = r.items m first used := by
  apply r.items_congr
  intro i _
  apply slice_write_beside
  have hlow := r.base_le_slot (first + i)
  have hhigh := r.slot_le_stop (first + i)
  rcases h with hbelow | habove
  · exact Or.inr (by omega)
  · exact Or.inl (by omega)

theorem items_snoc (m : Region α) (first used : ℕ) :
    r.items m first (used + 1) =
      r.items m first used ++ [slice m (r.slot (first + used)) r.size] := by
  simp [items, List.range_succ]

theorem items_cons (m : Region α) (first used : ℕ) :
    r.items m first (used + 1) = slice m (r.slot first) r.size :: r.items m (first + 1) used := by
  simp only [items, List.range_succ_eq_map, List.map_cons, List.map_map, Nat.add_zero]
  congr 1
  apply List.map_congr_left
  intro i _
  simp only [Function.comp_apply, Nat.succ_eq_add_one]
  rw [Nat.add_right_comm, Nat.add_assoc]

/-- What is written into the slot behind the last item becomes the last item. -/
theorem items_write_slot (m : Region α) {xs : List α} {first used : ℕ}
    (hsize : xs.length = r.size) (hused : used < r.cap) :
    r.items (write m (r.slot (first + used)) xs) first (used + 1) =
      r.items m first used ++ [xs] := by
  have hold : r.items (write m (r.slot (first + used)) xs) first used = r.items m first used := by
    apply r.items_congr
    intro i hi
    apply slice_write_beside
    rw [hsize]
    exact r.slot_beside (r.mod_ne_of_lt hi hused)
  rw [items_snoc, hold, ← hsize, slice_write]

end Ring

end NcsProjects.RingBuffers
