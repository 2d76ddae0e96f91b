import Mathlib.Algebra.Group.Nat.Defs
import NcsProjects.CStrings

/-!
Bytes on a wire, and readers for them. A reader takes a value off the front of the
bytes; it reads some bytes as a value when it does so whatever follows them. Numbers
of 16 bits go first byte first, strings with their length in front, and lengths in
groups of seven bits, the low group first and a bit for every group that is not the
last.
-/
namespace NcsProjects.WireFormats

open CStrings

variable {α β : Type*}

abbrev Reader (α : Type*) := List Byte → Option (α × List Byte)

def Reads (read : Reader α) (bytes : List Byte) (a : α) : Prop :=
  ∀ rest, read (bytes ++ rest) = some (a, rest)

namespace Reader

def pure (a : α) : Reader α := fun bytes => some (a, bytes)

def bind (read : Reader α) (next : α → Reader β) : Reader β := fun bytes =>
  (read bytes).bind fun r => next r.1 r.2

def byte : Reader Byte
  | [] => none
  | b :: rest => some (b, rest)

def take (n : ℕ) : Reader (List Byte) := fun bytes =>
  if n ≤ bytes.length then some (bytes.take n, bytes.drop n) else none

/-- The whole of some bytes, read as a value. -/
def whole (read : Reader α) (bytes : List Byte) : Option α :=
  match read bytes with
  | some (a, []) => some a
  | _ => none

/-- Items one after another up to the end of the bytes; `fuel` bounds their number. -/
def many (read : Reader α) : ℕ → List Byte → Option (List α)
  | _, [] => some []
  | 0, _ :: _ => none
  | fuel + 1, b :: bytes =>
    match read (b :: bytes) with
    | some (a, rest) => (many read fuel rest).map (a :: ·)
    | none => none

end Reader

theorem reads_pure (a : α) : Reads (Reader.pure a) [] a := fun _ => rfl

theorem reads_byte (b : Byte) : Reads Reader.byte [b] b := fun _ => rfl

theorem reads_take (bytes : List Byte) : Reads (Reader.take bytes.length) bytes bytes := by
  intro rest
  simp [Reader.take]

/-- Two readers in a row read two stretches in a row. -/
theorem Reads.bind {read : Reader α} {next : α → Reader β} {bs cs : List Byte} {a : α} {b : β}
    (h : Reads read bs a) (h' : Reads (next a) cs b) : Reads (read.bind next) (bs ++ cs) b := by
  intro rest
  rw [List.append_assoc, Reader.bind, h (cs ++ rest)]
  exact h' rest

theorem Reads.whole {read : Reader α} {bytes : List Byte} {a : α} (h : Reads read bytes a) :
    read.whole bytes = some a := by
  have hread := h []
  rw [List.append_nil] at hread
  simp [Reader.whole, hread]

/-- A list of items, none of them of no bytes, is read to its end. -/
theorem many_reads {ι : Type*} {read : Reader α} {enc : ι → List Byte} (val : ι → α)
    (items : List ι) (h : ∀ i ∈ items, Reads read (enc i) (val i))
    (hne : ∀ i ∈ items, enc i ≠ []) {fuel : ℕ} (hfuel : items.length ≤ fuel) :
    read.many fuel (items.flatMap enc) = some (items.map val) := by
  induction items generalizing fuel with
  | nil => cases fuel <;> rfl
  | cons i items ih =>
    cases fuel with
    | zero => cases hfuel
    | succ fuel =>
      have hrest := ih (fun j hj => h j (List.mem_cons_of_mem i hj))
        (fun j hj => hne j (List.mem_cons_of_mem i hj)) (Nat.le_of_succ_le_succ hfuel)
      have hhead := h i List.mem_cons_self (items.flatMap enc)
      rw [List.flatMap_cons]
      cases henc : enc i with
      | nil => exact absurd henc (hne i List.mem_cons_self)
      | cons b bs =>
        rw [henc] at hhead
        simp only [List.cons_append] at hhead ⊢
        simp [Reader.many, hhead, hrest]

/-- Items of at least one byte are at most as many as their bytes. -/
theorem length_le_flatMap {ι : Type*} {enc : ι → List Byte} (items : List ι)
    (hne : ∀ i ∈ items, enc i ≠ []) : items.length ≤ (items.flatMap enc).length := by
  induction items with
  | nil => exact Nat.le_refl 0
  | cons i items ih =>
    have hrest := ih fun j hj => hne j (List.mem_cons_of_mem i hj)
    have hpos := List.length_pos_iff.mpr (hne i List.mem_cons_self)
    rw [List.flatMap_cons, List.length_append, List.length_cons]
    omega

theorem length_le_flatMap_of_mem {ι : Type*} (enc : ι → List Byte) {items : List ι} {i : ι}
    (h : i ∈ items) : (enc i).length ≤ (items.flatMap enc).length := by
  obtain ⟨before, behind, rfl⟩ := List.append_of_mem h
  simp only [List.flatMap_append, List.flatMap_cons, List.length_append]
  omega

/-- A part that may be missing. -/
def Reader.optional (present : Bool) (read : Reader α) : Reader (Option α) :=
  if present then read.bind fun a => Reader.pure (some a) else Reader.pure none

theorem reads_optional {read : Reader α} (enc : α → List Byte) (a : Option α)
    (h : ∀ x ∈ a, Reads read (enc x) x) :
    Reads (Reader.optional a.isSome read) ((a.map enc).getD []) a := by
  cases a with
  | none => exact reads_pure none
  | some x =>
    have hread : Reads (read.bind fun a => Reader.pure (some a)) (enc x ++ []) (some x) :=
      (h x rfl).bind (reads_pure (some x))
    rw [List.append_nil] at hread
    exact hread

/-! Numbers of 16 bits. -/

def uint16Bytes (n : BitVec 16) : List Byte := [(n >>> 8).setWidth 8, n.setWidth 8]

def uint16Of (hi lo : Byte) : BitVec 16 := hi.setWidth 16 <<< 8 ||| lo.setWidth 16

def Reader.uint16 : Reader (BitVec 16)
  | hi :: lo :: rest => some (uint16Of hi lo, rest)
  | _ => none

@[simp] theorem uint16Bytes_length (n : BitVec 16) : (uint16Bytes n).length = 2 := rfl

theorem uint16Of_bytes (n : BitVec 16) :
    uint16Of ((n >>> 8).setWidth 8) (n.setWidth 8) = n := by
  apply BitVec.eq_of_getLsbD_eq
  intro i hi
  simp only [uint16Of, BitVec.getLsbD_or, BitVec.getLsbD_shiftLeft, BitVec.getLsbD_setWidth,
    BitVec.getLsbD_ushiftRight]
  by_cases h : i < 8
  · simp [h, hi]
  · have hback : 8 + (i - 8) = i := by omega
    have hlow : i - 8 < 8 := by omega
    have hless : i - 8 < 16 := by omega
    simp [h, hi, hback, hlow, hless]

theorem reads_uint16 (n : BitVec 16) : Reads Reader.uint16 (uint16Bytes n) n := by
  intro rest
  simp [uint16Bytes, Reader.uint16, uint16Of_bytes]

/-! Strings with their length in front. -/

def stringBytes (s : List Byte) : List Byte := uint16Bytes (BitVec.ofNat 16 s.length) ++ s

def Reader.string : Reader (List Byte) := Reader.uint16.bind fun n => Reader.take n.toNat

@[simp] theorem stringBytes_length (s : List Byte) : (stringBytes s).length = s.length + 2 := by
  simp only [stringBytes, List.length_append, uint16Bytes_length]
  omega

/-- A string is read back when its length fits in front of it. -/
theorem reads_string {s : List Byte} (h : s.length < 2 ^ 16) :
    Reads Reader.string (stringBytes s) s := by
  have hlen : (BitVec.ofNat 16 s.length).toNat = s.length := by
    rw [BitVec.toNat_ofNat, Nat.mod_eq_of_lt h]
  apply (reads_uint16 _).bind
  rw [hlen]
  exact reads_take s

/-! Lengths in groups of seven bits. -/

def lengthBytes (n : ℕ) : List Byte :=
  if n < 128 then [BitVec.ofNat 8 n]
  else BitVec.ofNat 8 (n % 128 + 128) :: lengthBytes (n / 128)
termination_by n
decreasing_by omega

/-- At most `k` groups are read. -/
def Reader.length : ℕ → Reader ℕ
  | 0, _ => none
  | _ + 1, [] => none
  | k + 1, b :: rest =>
    if b.toNat < 128 then some (b.toNat, rest)
    else (Reader.length k rest).map fun r => (b.toNat - 128 + 128 * r.1, r.2)

theorem lengthBytes_length_le {n k : ℕ} (h : n < 128 ^ (k + 1)) :
    (lengthBytes n).length ≤ k + 1 := by
  induction k generalizing n with
  | zero =>
    rw [lengthBytes, if_pos (by simpa using h)]
    simp
  | succ k ih =>
    rw [lengthBytes]
    split
    · simp
    · have hdiv : n / 128 < 128 ^ (k + 1) := by
        rw [Nat.div_lt_iff_lt_mul (by decide)]
        rwa [← Nat.pow_succ]
      have hrest := ih hdiv
      rw [List.length_cons]
      omega

/-- A length with at most `k + 1` groups is read back. -/
theorem reads_length {n k : ℕ} (h : n < 128 ^ (k + 1)) :
    Reads (Reader.length (k + 1)) (lengthBytes n) n := by
  intro rest
  induction k generalizing n with
  | zero =>
    have hlt : n < 128 := by simpa using h
    have hmod : n % 256 = n := Nat.mod_eq_of_lt (by omega)
    rw [lengthBytes, if_pos hlt]
    simp [Reader.length, hmod, hlt]
  | succ k ih =>
    rw [lengthBytes]
    split
    · rename_i hlt
      have hmod : n % 256 = n := Nat.mod_eq_of_lt (by omega)
      simp [Reader.length, hmod, hlt]
    · have hdiv : n / 128 < 128 ^ (k + 1) := by
        rw [Nat.div_lt_iff_lt_mul (by decide)]
        rwa [← Nat.pow_succ]
      have hbyte : (BitVec.ofNat 8 (n % 128 + 128)).toNat = n % 128 + 128 := by
        rw [BitVec.toNat_ofNat, Nat.mod_eq_of_lt (by omega)]
      have hhigh : ¬ n % 128 + 128 < 128 := by omega
      have hsum : n % 128 + 128 * (n / 128) = n := Nat.mod_add_div n 128
      rw [List.cons_append, Reader.length, hbyte, if_neg hhigh, ih hdiv]
      simp [hsum]

end NcsProjects.WireFormats
