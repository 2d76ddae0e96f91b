import Mathlib.Data.List.Basic

/-!
Memory from a base address on: one cell for each offset. A write lands at an offset
and leaves every other cell alone, and a slice reads a stretch of cells back. A word
takes four cells of bytes.
-/
namespace NcsProjects.ByteRegions

abbrev Region (α : Type*) := ℕ → α

variable {α : Type*}

def write (m : Region α) (off : ℕ) (xs : List α) : Region α :=
  fun i => if i < off then m i else (xs[i - off]?).getD (m i)

def slice (m : Region α) (off len : ℕ) : List α :=
  (List.range len).map (fun i => m (off + i))

@[simp] theorem slice_length (m : Region α) (off len : ℕ) : (slice m off len).length = len := by
  simp [slice]

@[simp] theorem slice_zero (m : Region α) (off : ℕ) : slice m off 0 = [] := rfl

@[simp] theorem write_nil (m : Region α) (off : ℕ) : write m off [] = m := by
  funext i
  simp [write]

theorem write_before (m : Region α) (off : ℕ) (xs : List α) {i : ℕ} (hi : i < off) :
    write m off xs i = m i := by
  simp [write, hi]

theorem write_after (m : Region α) (off : ℕ) (xs : List α) {i : ℕ}
    (hi : off + xs.length ≤ i) : write m off xs i = m i := by
  have hnone : xs[i - off]? = none := List.getElem?_eq_none (by omega)
  simp [write, hnone]

theorem write_at (m : Region α) (off : ℕ) (xs : List α) {i : ℕ} (hi : i < xs.length) :
    write m off xs (off + i) = xs[i] := by
  have hnot : ¬ off + i < off := by omega
  simp [write, hnot, hi]

theorem slice_add (m : Region α) (off a b : ℕ) :
    slice m off (a + b) = slice m off a ++ slice m (off + a) b := by
  simp [slice, List.range_add, Nat.add_assoc]

theorem slice_congr {m m' : Region α} {off len : ℕ}
    (h : ∀ i, off ≤ i → i < off + len → m i = m' i) : slice m off len = slice m' off len := by
  unfold slice
  apply List.map_congr_left
  intro i hi
  have hlt : i < len := List.mem_range.mp hi
  exact h (off + i) (by omega) (by omega)

/-- What was written is read back. -/
theorem slice_write (m : Region α) (off : ℕ) (xs : List α) :
    slice (write m off xs) off xs.length = xs := by
  apply List.ext_getElem
  · simp
  · intro i h₁ h₂
    have hread := write_at m off xs h₂
    simpa [slice] using hread

/-- A write beside a slice leaves it alone. -/
theorem slice_write_beside (m : Region α) {off : ℕ} (xs : List α) {off' len : ℕ}
    (h : off' + len ≤ off ∨ off + xs.length ≤ off') :
    slice (write m off xs) off' len = slice m off' len := by
  apply slice_congr
  intro i hlow hhigh
  rcases h with hbefore | hbehind
  · exact write_before m off xs (by omega)
  · exact write_after m off xs (by omega)

/-- A write right behind a slice makes the slice longer by what was written. -/
theorem slice_write_append (m : Region α) (off len : ℕ) (xs : List α) :
    slice (write m (off + len) xs) off (len + xs.length) = slice m off len ++ xs := by
  have hold : slice (write m (off + len) xs) off len = slice m off len := by
    apply slice_congr
    intro i _ hi
    exact write_before m (off + len) xs hi
  rw [slice_add, hold, slice_write]

/-- Two writes one behind the other are one write. -/
theorem write_append (m : Region α) (off : ℕ) (xs ys : List α) :
    write (write m off xs) (off + xs.length) ys = write m off (xs ++ ys) := by
  funext i
  by_cases hlow : i < off + xs.length
  · rw [write_before _ _ ys hlow]
    by_cases hbefore : i < off
    · rw [write_before m off xs hbefore, write_before m off (xs ++ ys) hbefore]
    · have hin : i - off < xs.length := by omega
      simp [write, hbefore, List.getElem?_append_left hin]
  · have hbehind : ¬ i < off := by omega
    have hout : xs.length ≤ i - off := by omega
    have hsub : i - (off + xs.length) = i - off - xs.length := by omega
    have hnone : xs[i - off]? = none := List.getElem?_eq_none hout
    simp [write, hlow, hbehind, List.getElem?_append_right hout, hsub, hnone]

/-- What is written over a cell replaces it. -/
theorem write_over (m : Region α) (off : ℕ) (xs ys : List α) (a b : α) :
    write (write m off (xs ++ a :: ys)) (off + xs.length) [b] = write m off (xs ++ b :: ys) := by
  funext i
  by_cases hat : i = off + xs.length
  · subst hat
    have hnot : ¬ off + xs.length < off := by omega
    simp [write, hnot]
  · have hother : write (write m off (xs ++ a :: ys)) (off + xs.length) [b] i =
        write m off (xs ++ a :: ys) i := by
      by_cases hlow : i < off + xs.length
      · exact write_before _ _ [b] hlow
      · exact write_after _ _ [b] (by simp only [List.length_singleton]; omega)
    rw [hother]
    by_cases hbefore : i < off
    · rw [write_before m off _ hbefore, write_before m off _ hbefore]
    · by_cases hin : i - off < xs.length
      · simp [write, hbefore, List.getElem?_append_left hin]
      · have hout : xs.length ≤ i - off := by omega
        obtain ⟨k, hk⟩ : ∃ k, i - off - xs.length = k + 1 := ⟨i - off - xs.length - 1, by omega⟩
        simp [write, hbefore, List.getElem?_append_right hout, hk]

/-- The four bytes of a word, the lowest first; what does not fit is cut off. -/
def wordBytes (n : ℕ) : List (BitVec 8) :=
  [BitVec.ofNat 8 n, BitVec.ofNat 8 (n / 256), BitVec.ofNat 8 (n / 65536),
    BitVec.ofNat 8 (n / 16777216)]

def wordAt (m : Region (BitVec 8)) (off : ℕ) : ℕ :=
  (m off).toNat + 256 * (m (off + 1)).toNat + 65536 * (m (off + 2)).toNat +
    16777216 * (m (off + 3)).toNat

theorem wordAt_write (m : Region (BitVec 8)) (off : ℕ) {n : ℕ} (h : n < 4294967296) :
    wordAt (write m off (wordBytes n)) off = n := by
  have hbehind (i : ℕ) : ¬ off + i < off := by omega
  simp [wordAt, write, wordBytes, hbehind]
  omega

/-- A write in front of a word leaves it alone. -/
theorem wordAt_write_before (m : Region (BitVec 8)) (off : ℕ) (xs : List (BitVec 8)) {pos : ℕ}
    (h : off + xs.length ≤ pos) : wordAt (write m off xs) pos = wordAt m pos := by
  simp only [wordAt, write_after m off xs h, write_after m off xs (Nat.le_add_right_of_le h)]

end NcsProjects.ByteRegions
