import Mathlib.Data.Int.Notation
import Mathlib.Data.List.TakeDrop

/-!
Strings in memory: the bytes before a terminator, with whatever lies behind it. strncmp
compares byte by byte, up to its bound or up to the first byte that differs or ends both
strings, and reads nothing behind that byte.
-/
namespace NcsProjects.CStrings

abbrev Byte := BitVec 8

/-- None stands for a read behind the memory of an argument. -/
def strncmp : ℕ → List Byte → List Byte → Option ℤ
  | 0, _, _ => some 0
  | n + 1, a :: s, b :: t =>
    if a ≠ b then some (a.toNat - b.toNat)
    else if a = 0#8 then some 0
    else strncmp n s t
  | _ + 1, _, _ => none

theorem strncmp_head_ne (n : ℕ) {a b : Byte} (h : a ≠ b) (s t : List Byte) :
    ∃ d, strncmp (n + 1) (a :: s) (b :: t) = some d ∧ d ≠ 0 := by
  refine ⟨a.toNat - b.toNat, by simp [strncmp, h], ?_⟩
  intro hzero
  exact h (BitVec.eq_of_toNat_eq (by omega))

theorem strncmp_head_eq (n : ℕ) {a : Byte} (ha : a ≠ 0#8) (s t : List Byte) :
    strncmp (n + 1) (a :: s) (a :: t) = strncmp n s t := by
  simp [strncmp, ha]

/-- Two strings compare equal when they agree up to the bound, terminators included. -/
theorem strncmp_strings (n : ℕ) {s t : List Byte} (hs : 0#8 ∉ s) (ht : 0#8 ∉ t)
    (bs bt : List Byte) : ∃ d, strncmp n (s ++ 0#8 :: bs) (t ++ 0#8 :: bt) = some d ∧
      (d = 0 ↔ (s ++ [0#8]).take n = (t ++ [0#8]).take n) := by
  induction n generalizing s t with
  | zero => exact ⟨0, rfl, by simp⟩
  | succ n ih =>
    cases s with
    | nil =>
      cases t with
      | nil => exact ⟨0, by simp [strncmp], by simp⟩
      | cons b t =>
        have hb : 0#8 ≠ b := fun hb => ht (hb ▸ List.mem_cons_self)
        obtain ⟨d, hd, hne⟩ := strncmp_head_ne n hb bs (t ++ 0#8 :: bt)
        exact ⟨d, hd, by simp [hne, hb]⟩
    | cons a s =>
      have ha : a ≠ 0#8 := fun ha => hs (ha ▸ List.mem_cons_self)
      cases t with
      | nil =>
        obtain ⟨d, hd, hne⟩ := strncmp_head_ne n ha (s ++ 0#8 :: bs) bt
        exact ⟨d, hd, by simp [hne, ha]⟩
      | cons b t =>
        by_cases hab : a = b
        · subst hab
          obtain ⟨d, hd, hiff⟩ := ih (fun h => hs (List.mem_cons_of_mem a h))
            (fun h => ht (List.mem_cons_of_mem a h))
          refine ⟨d, ?_, by simpa using hiff⟩
          rw [List.cons_append, List.cons_append, strncmp_head_eq n ha]
          exact hd
        · obtain ⟨d, hd, hne⟩ := strncmp_head_ne n hab (s ++ 0#8 :: bs) (t ++ 0#8 :: bt)
          exact ⟨d, hd, by simp [hne, hab]⟩

/-- A bound that reaches the terminator of the first string compares the whole strings. -/
theorem strncmp_whole {n : ℕ} {s t : List Byte} (hn : s.length < n) (hs : 0#8 ∉ s)
    (ht : 0#8 ∉ t) (bs bt : List Byte) :
    ∃ d, strncmp n (s ++ 0#8 :: bs) (t ++ 0#8 :: bt) = some d ∧ (d = 0 ↔ s = t) := by
  obtain ⟨d, hd, hiff⟩ := strncmp_strings n hs ht bs bt
  refine ⟨d, hd, hiff.trans ?_⟩
  have hend (l : List Byte) (hl : l.length < n) : (l ++ [0#8]).take n = l ++ [0#8] := by
    apply List.take_of_length_le
    rw [List.length_append]
    exact hl
  have hall := hend s hn
  rw [hall]
  constructor
  · intro h
    by_cases hlong : t.length < n
    · rw [hend t hlong] at h
      exact List.append_cancel_right h
    · have hcut : (t ++ [0#8]).take n = t.take n := List.take_append_of_le_length (by omega)
      rw [hcut] at h
      have hmem : 0#8 ∈ t.take n := by
        rw [← h]
        simp
      exact absurd (List.mem_of_mem_take hmem) ht
  · rintro rfl
    exact hall.symm

end NcsProjects.CStrings
