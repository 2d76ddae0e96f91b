import Mathlib.Algebra.Group.Nat.Defs
import NcsProjects.BlockHeaps
import NcsProjects.MessageText

/-!
The printbuffer of cJSON, as zephyr.lst has it compiled: ensure lets the buffer grow, with
a request to the heap whenever the text is about to outgrow it. Each request may be refused,
and then the buffer is given back.
-/
namespace NcsProjects.CJsonBuffer

open BlockHeaps ByteRegions MessageText
open JsonText (Byte)

abbrev ByteHeap := Heap (Region Byte)

/-- The printbuffer, and the heap. -/
structure State where
  buffer : Option ℕ
  mem : Region Byte
  length : ℕ
  offset : ℕ
  depth : ℕ
  heap : ByteHeap

def intMax : ℕ := 2 ^ 31 - 1

/-- Bytes written at a position of the buffer; nothing is written behind its end. -/
def State.put (pos : ℕ) (bytes : List Byte) (s : State) : Option State :=
  if pos + bytes.length ≤ s.length then some { s with mem := write s.mem pos bytes } else none

/-- A larger block with the first bytes of the old one. -/
def State.moved (block newsize kept : ℕ) (contents : Region Byte) (heap : ByteHeap) (s : State) :
    State :=
  { s with
    buffer := some block
    mem := write contents 0 (slice s.mem 0 kept)
    length := newsize
    heap := heap }

/-- The buffer is given up. -/
def State.giveUp (block : ℕ) (s : State) : Option State :=
  (s.heap.free block).map fun heap => { s with buffer := none, length := 0, heap := heap }

section

-- Whether the hooks have a reallocate.
variable (reallocs : Bool)

/-- What ensure does when the buffer is too small. -/
def grow (block newsize : ℕ) (s : State) : Option (Option ℕ × State) :=
  match s.heap.malloc newsize with
  | (none, heap) => (State.giveUp block { s with heap := heap }).map fun s => (none, s)
  | (some (newbuffer, contents), heap) =>
    let kept := if reallocs then min s.length newsize else s.offset + 1
    if s.length < kept ∨ newsize < kept then none
    else (heap.free block).map fun heap =>
      (some s.offset, s.moved newbuffer newsize kept contents heap)

/-- The pointer is the offset in the buffer; none of it stands for NULL. -/
def ensure (needed : ℕ) (s : State) : Option (Option ℕ × State) :=
  match s.buffer with
  | none => some (none, s)
  | some block =>
    if 0 < s.length ∧ s.length ≤ s.offset then some (none, s)
    else if intMax < needed then some (none, s)
    else
      let needed := (needed + s.offset + 1) % 2 ^ 32
      if needed ≤ s.length then some (some s.offset, s)
      else if intMax / 2 < needed then
        if needed ≤ intMax then grow reallocs block intMax s else some (none, s)
      else grow reallocs block (needed + 1) s

/-- Part of a print: none of it stands for an access outside of the buffer. -/
abbrev Printer := State → Option (Bool × State)

/-- update_offset -/
def updateOffset (s : State) : Option State :=
  match s.buffer with
  | none => some s
  | some _ =>
    (cString (slice s.mem s.offset (s.length - s.offset))).map fun text =>
      { s with offset := s.offset + text.length }

/-- Room for so many bytes, what is written there, and how far the offset moves on. -/
def place (needed : ℕ) (bytes : State → List Byte) (advance : ℕ) : Printer := fun s =>
  match ensure reallocs needed s with
  | none => none
  | some (none, s) => some (false, s)
  | some (some output, s) =>
    (s.put output (bytes s)).map fun s => (true, { s with offset := s.offset + advance })

/-- strncpy into the rest of the buffer -/
def strncpy (text : List Byte) (s : State) : List Byte :=
  let n := s.length - s.offset
  text.take n ++ List.replicate (n - text.length) 0#8

/-- snprintf of a text into `size` bytes -/
def snprintf (size : ℕ) (text : List Byte) : List Byte :=
  if size = 0 then [] else text.take (size - 1) ++ [0#8]

/-- The parts of a print one after the other, up to the first that fails. -/
def inTurn : List Printer → Printer
  | [], s => some (true, s)
  | f :: parts, s =>
    match f s with
    | none => none
    | some (false, s) => some (false, s)
    | some (true, s) => inTurn parts s

def moveOn : Printer := fun s => (updateOffset s).map fun s => (true, s)

def deeper : Printer := fun s => some (true, { s with depth := s.depth + 1 })
def shallower : Printer := fun s => some (true, { s with depth := s.depth - 1 })
def failed : Printer := fun s => some (false, s)

end

/-! Where a print is. -/

/-- Besides the blocks of `base`, only the buffer is in use. -/
def Owns (base : Finset ℕ) (s : State) : Prop :=
  match s.buffer with
  | none => s.heap.live = base
  | some block => block ∉ base ∧ s.heap.live = insert block base

/-- The buffer holds a text up to its offset, and has room for a terminator. -/
structure Holds (base : Finset ℕ) (depth : ℕ) (text : List Byte) (s : State) : Prop where
  block : ∃ block, s.buffer = some block ∧ block ∉ base ∧ s.heap.live = insert block base
  depth : s.depth = depth
  offset : s.offset = text.length
  text : slice s.mem 0 text.length = text
  room : s.offset < s.length
  bounded : s.length ≤ intMax

/-- A string stands behind the text, and the offset is still in front of it. -/
structure Pending (base : Finset ℕ) (depth : ℕ) (text more : List Byte) (s : State) : Prop where
  holds : Holds base depth text s
  ended : slice s.mem text.length (more.length + 1) = more ++ [0#8]
  within : text.length + (more.length + 1) ≤ s.length

theorem Holds.owns {base : Finset ℕ} {depth : ℕ} {text : List Byte} {s : State}
    (h : Holds base depth text s) : Owns base s := by
  obtain ⟨block, hbuffer, hfresh, hlive⟩ := h.block
  rw [Owns, hbuffer]
  exact ⟨hfresh, hlive⟩

theorem Owns.heap {base : Finset ℕ} {s s' : State} (h : Owns base s)
    (hbuffer : s'.buffer = s.buffer) (hlive : s'.heap.live = s.heap.live) : Owns base s' := by
  unfold Owns at h ⊢
  rw [hbuffer, hlive]
  exact h

section

variable {reallocs : Bool} {base : Finset ℕ} {excuse : Prop} {depth : ℕ} {text : List Byte}

variable (reallocs) in
/-- Growing keeps the text, or the buffer is given up. -/
theorem grow_holds {s : State} (h : Holds base depth text s) {block newsize : ℕ}
    (hbuffer : s.buffer = some block) (hsize : s.offset < newsize) (hmax : newsize ≤ intMax) :
    ∃ r s', grow reallocs block newsize s = some (r, s') ∧
      match r with
      | none => Owns base s' ∧ s.heap.refused < s'.heap.refused
      | some output => output = s.offset ∧ Holds base depth text s' ∧ s'.length = newsize ∧
          s'.heap.refused = s.heap.refused := by
  obtain ⟨block', hbuffer', hfresh, hlive⟩ := h.block
  rw [hbuffer] at hbuffer'
  cases hbuffer'
  have hroom := h.room
  unfold grow
  rcases malloc_cases newsize s.heap with
    ⟨heap, hmalloc, hsame, hrefused⟩ | ⟨new, contents, heap, hmalloc, hnew, hboth, hrefused⟩
  · have hmem : block ∈ heap.live := by
      rw [hsame, hlive]
      exact Finset.mem_insert_self _ _
    obtain ⟨heap', hfree, hafter, hcount⟩ := free_of_mem hmem
    simp only [hmalloc, State.giveUp, hfree, Option.map_some]
    refine ⟨_, _, rfl, ?_, by rw [hcount]; exact hrefused⟩
    change heap'.live = base
    rw [hafter, hsame, hlive, Finset.erase_insert hfresh]
  · rw [hlive] at hnew hboth
    obtain ⟨heap', hfree, hafter, hcount⟩ := exchange hfresh hnew hboth
    generalize hkept : (if reallocs = true then min s.length newsize else s.offset + 1) = kept
    have hlow : s.offset < kept := by
      subst hkept
      split <;> omega
    have hhigh : ¬ (s.length < kept ∨ newsize < kept) := by
      subst hkept
      split <;> omega
    simp only [hmalloc, if_neg hhigh, hfree, Option.map_some]
    refine ⟨_, _, rfl, rfl, ?_, rfl, by rw [State.moved, hcount, hrefused]⟩
    refine ⟨⟨new, rfl, ?_, hafter⟩, h.depth, h.offset, ?_, hsize, hmax⟩
    · exact fun hmem => hnew (Finset.mem_insert_of_mem hmem)
    · have hread := slice_write contents 0 (slice s.mem 0 kept)
      obtain ⟨rest, hrest⟩ : ∃ rest, kept = text.length + rest :=
        ⟨kept - text.length, by rw [← h.offset]; omega⟩
      rw [slice_length, hrest, slice_add, slice_add] at hread
      have hfront := (List.append_inj hread (by rw [slice_length, slice_length])).1
      simp only [State.moved, hrest]
      rw [slice_add, hfront, h.text]

variable (reallocs) in
/-- ensure finds room for so many bytes and a terminator, or nothing is kept. -/
theorem ensure_holds {s : State} (h : Holds base depth text s) {needed : ℕ}
    (hfits : ¬ excuse → text.length + needed + 1 ≤ intMax) :
    ∃ r s', ensure reallocs needed s = some (r, s') ∧ s.heap.refused ≤ s'.heap.refused ∧
      match r with
      | none => Owns base s' ∧ (excuse ∨ s.heap.refused < s'.heap.refused)
      | some output => output = text.length ∧ Holds base depth text s' ∧
          text.length + needed + 1 ≤ s'.length := by
  obtain ⟨block, hbuffer, -, -⟩ := h.block
  have hroom := h.room
  have hbounded := h.bounded
  have hoffset := h.offset
  have hmax : intMax < 2 ^ 31 := by decide
  have hgrow : ∀ {newsize : ℕ}, s.offset + needed + 1 ≤ newsize → newsize ≤ intMax →
      ∃ r s', grow reallocs block newsize s = some (r, s') ∧
        s.heap.refused ≤ s'.heap.refused ∧
        match r with
        | none => Owns base s' ∧ (excuse ∨ s.heap.refused < s'.heap.refused)
        | some output => output = text.length ∧ Holds base depth text s' ∧
            text.length + needed + 1 ≤ s'.length := by
    intro newsize hlow hhigh
    obtain ⟨r, s', hgrow, hresult⟩ := grow_holds reallocs h hbuffer
      (by omega : s.offset < newsize) hhigh
    refine ⟨r, s', hgrow, ?_⟩
    cases r with
    | none => exact ⟨Nat.le_of_lt hresult.2, hresult.1, Or.inr hresult.2⟩
    | some output =>
      obtain ⟨hat, hholds, hlength, hsame⟩ := hresult
      exact ⟨Nat.le_of_eq hsame.symm, by omega, hholds, by omega⟩
  have htoo : ¬ text.length + needed + 1 ≤ intMax → excuse := by
    intro hlong
    by_contra hno
    exact hlong (hfits hno)
  simp only [ensure, hbuffer]
  rw [if_neg (by omega)]
  by_cases hhuge : intMax < needed
  · rw [if_pos hhuge]
    exact ⟨_, _, rfl, Nat.le_refl _, h.owns, Or.inl (htoo (by omega))⟩
  · have hmod : (needed + s.offset + 1) % 2 ^ 32 = needed + s.offset + 1 :=
      Nat.mod_eq_of_lt (by omega)
    rw [if_neg hhuge, hmod]
    by_cases hthere : needed + s.offset + 1 ≤ s.length
    · rw [if_pos hthere]
      exact ⟨_, _, rfl, Nat.le_refl _, hoffset, h, by omega⟩
    · rw [if_neg hthere]
      by_cases hhalf : intMax / 2 < needed + s.offset + 1
      · rw [if_pos hhalf]
        by_cases htop : needed + s.offset + 1 ≤ intMax
        · rw [if_pos htop]
          exact hgrow (by omega) (Nat.le_refl _)
        · rw [if_neg htop]
          exact ⟨_, _, rfl, Nat.le_refl _, h.owns, Or.inl (htoo (by omega))⟩
      · rw [if_neg hhalf]
        exact hgrow (by omega) (by omega)

/-- What a part of a print does, from states of a kind to states of another one: it makes
no access outside of the buffer, and when it fails, nothing but the buffer is in use, and
there is an excuse for it or a request was refused. -/
def Prints (base : Finset ℕ) (excuse : Prop) (P Q : State → Prop) (f : Printer) : Prop :=
  ∀ s, P s → ∃ ok s', f s = some (ok, s') ∧ s.heap.refused ≤ s'.heap.refused ∧
    match ok with
    | false => Owns base s' ∧ (excuse ∨ s.heap.refused < s'.heap.refused)
    | true => Q s'

section

variable {P Q R : State → Prop} {f : Printer} {parts : List Printer}

theorem prints_nothing (h : ∀ s, P s → Q s) : Prints base excuse P Q (inTurn []) :=
  fun s hs => ⟨true, s, rfl, Nat.le_refl _, h s hs⟩

theorem Prints.before (hf : Prints base excuse P R f)
    (hparts : Prints base excuse R Q (inTurn parts)) :
    Prints base excuse P Q (inTurn (f :: parts)) := by
  intro s hs
  obtain ⟨ok, s', hrun, hcount, hresult⟩ := hf s hs
  cases ok with
  | false => exact ⟨false, s', by simp only [inTurn, hrun], hcount, hresult⟩
  | true =>
    obtain ⟨ok, s'', hrest, hcount', hresult'⟩ := hparts s' hresult
    refine ⟨ok, s'', by simp only [inTurn, hrun, hrest], hcount.trans hcount', ?_⟩
    cases ok with
    | true => exact hresult'
    | false => exact ⟨hresult'.1, hresult'.2.imp_right fun hlt => by omega⟩

theorem Prints.weaken (hf : Prints base excuse P R f) (h : ∀ s, R s → Q s) :
    Prints base excuse P Q f := by
  intro s hs
  obtain ⟨ok, s', hrun, hcount, hresult⟩ := hf s hs
  refine ⟨ok, s', hrun, hcount, ?_⟩
  cases ok with
  | false => exact hresult
  | true => exact h s' hresult

theorem prints_failed (hexcuse : excuse) :
    Prints base excuse (Holds base depth text) Q failed :=
  fun s hs => ⟨false, s, rfl, Nat.le_refl _, hs.owns, Or.inl hexcuse⟩

theorem prints_deeper :
    Prints base excuse (Holds base depth text) (Holds base (depth + 1) text) deeper :=
  fun s hs => ⟨true, _, rfl, Nat.le_refl _,
    ⟨hs.block, by rw [← hs.depth], hs.offset, hs.text, hs.room, hs.bounded⟩⟩

end

/-- What is written behind the text leaves the text as it is. -/
theorem put_behind {s : State} (h : Holds base depth text s) {pos : ℕ} (bytes : List Byte)
    (hpos : text.length ≤ pos) (hroom : pos + bytes.length ≤ s.length) :
    ∃ s', s.put pos bytes = some s' ∧ s'.heap = s.heap ∧ s'.length = s.length ∧
      s'.mem = write s.mem pos bytes ∧ Holds base depth text s' := by
  refine ⟨{ s with mem := write s.mem pos bytes }, if_pos hroom, rfl, rfl, rfl,
    ⟨h.block, h.depth, h.offset, ?_, h.room, h.bounded⟩⟩
  have hbefore : 0 + text.length ≤ pos := by omega
  exact (slice_write_beside s.mem bytes (Or.inl hbefore)).trans h.text

/-- The offset moves behind a part of what was written. -/
theorem prints_place {needed : ℕ} (more tail : List Byte)
    (hlen : more.length + tail.length ≤ needed)
    (hfits : ¬ excuse → text.length + needed + 1 ≤ intMax) :
    Prints base excuse (Holds base depth text)
      (fun s => Holds base depth (text ++ more) s ∧
        slice s.mem (text ++ more).length tail.length = tail ∧
        (text ++ more).length + tail.length ≤ s.length)
      (place reallocs needed (fun _ => more ++ tail) more.length) := by
  intro s hs
  obtain ⟨r, s', hensure, hcount, hresult⟩ :=
    ensure_holds reallocs hs hfits
  cases r with
  | none => exact ⟨false, s', by simp only [place, hensure], hcount, hresult⟩
  | some output =>
    obtain ⟨rfl, hholds, hroom⟩ := hresult
    obtain ⟨s'', hput, hheap, hlength, hmem, hkept⟩ :=
      put_behind hholds (more ++ tail) (Nat.le_refl _) (by rw [List.length_append]; omega)
    have hoffset := hkept.offset
    have hback := slice_write s'.mem text.length (more ++ tail)
    rw [List.length_append, slice_add] at hback
    obtain ⟨hfront, hbehind⟩ := List.append_inj hback (slice_length _ _ _)
    refine ⟨true, { s'' with offset := s''.offset + more.length }, ?_, ?_, ?_, ?_, ?_⟩
    · simp only [place, hensure, hput, Option.map_some]
    · simp only [hheap]
      exact hcount
    · refine ⟨hkept.block, hkept.depth, ?_, ?_, ?_, hkept.bounded⟩
      · simp only [List.length_append, hoffset]
      · simp only
        rw [List.length_append, slice_add, hkept.text, Nat.zero_add, hmem, hfront]
      · simp only
        omega
    · simp only
      rw [List.length_append, hmem, hbehind]
    · simp only
      rw [List.length_append]
      omega

theorem prints_mark {needed : ℕ} {more : List Byte} (hlen : more.length ≤ needed)
    (hfits : ¬ excuse → text.length + needed + 1 ≤ intMax) :
    Prints base excuse (Holds base depth text) (Holds base depth (text ++ more))
      (place reallocs needed (fun _ => more) more.length) := by
  have hplace : Prints base excuse (Holds base depth text) _
      (place reallocs needed (fun _ => more ++ []) more.length) :=
    prints_place more [] hlen hfits
  rw [List.append_nil] at hplace
  exact hplace.weaken fun s hs => hs.1

theorem prints_ended {more : List Byte}
    (hfits : ¬ excuse → text.length + more.length + 2 ≤ intMax) :
    Prints base excuse (Holds base depth text) (Pending base depth (text ++ more) [])
      (place reallocs (more.length + 1) (fun _ => more ++ [0#8]) more.length) :=
  (prints_place more [0#8] (Nat.le_refl _) fun hno => by have := hfits hno; omega).weaken
    fun s hs => ⟨hs.1, hs.2.1, hs.2.2⟩

/-- The offset stays in front of a string. -/
theorem prints_string {needed : ℕ} {bytes : State → List Byte} {more : List Byte}
    (hbytes : ∀ s, s.offset = text.length → text.length + needed + 1 ≤ s.length →
      ∃ tail, bytes s = more ++ 0#8 :: tail ∧ text.length + (bytes s).length ≤ s.length)
    (hfits : ¬ excuse → text.length + needed + 1 ≤ intMax) :
    Prints base excuse (Holds base depth text) (Pending base depth text more)
      (place reallocs needed bytes 0) := by
  intro s hs
  obtain ⟨r, s', hensure, hcount, hresult⟩ :=
    ensure_holds reallocs hs hfits
  cases r with
  | none => exact ⟨false, s', by simp only [place, hensure], hcount, hresult⟩
  | some output =>
    obtain ⟨rfl, hholds, hroom⟩ := hresult
    obtain ⟨tail, heq, hwithin⟩ := hbytes s' hholds.offset hroom
    obtain ⟨s'', hput, hheap, hlength, hmem, hkept⟩ :=
      put_behind hholds (bytes s') (Nat.le_refl _) hwithin
    refine ⟨true, s'', ?_, ?_, hkept, ?_, ?_⟩
    · simp only [place, hensure, hput, Option.map_some, Nat.add_zero]
    · rw [hheap]
      exact hcount
    · have hback := slice_write s'.mem text.length (bytes s')
      have hsplit : bytes s' = (more ++ [0#8]) ++ tail := by simp [heq]
      rw [← hmem, hsplit, List.length_append, slice_add] at hback
      have hfront := (List.append_inj hback (slice_length _ _ _)).1
      rwa [List.length_append, List.length_singleton] at hfront
    · rw [heq, List.length_append, List.length_cons] at hwithin
      omega

/-- A string that is copied with its terminator. -/
theorem prints_copy {more : List Byte}
    (hfits : ¬ excuse → text.length + more.length + 2 ≤ intMax) :
    Prints base excuse (Holds base depth text) (Pending base depth text more)
      (place reallocs (more.length + 1) (fun _ => more ++ [0#8]) 0) :=
  prints_string (fun s _ hroom => ⟨[], rfl, by
    rw [List.length_append, List.length_singleton]
    omega⟩) fun hno => by have := hfits hno; omega

theorem prints_strncpy {more : List Byte}
    (hfits : ¬ excuse → text.length + more.length + 2 ≤ intMax) :
    Prints base excuse (Holds base depth text) (Pending base depth text more)
      (place reallocs (more.length + 1) (strncpy more) 0) := by
  refine prints_string (fun s hoffset hroom => ?_) fun hno => by have := hfits hno; omega
  obtain ⟨k, hk⟩ : ∃ k, s.length - s.offset = more.length + (k + 1) :=
    ⟨s.length - s.offset - more.length - 1, by omega⟩
  refine ⟨List.replicate k 0#8, ?_, ?_⟩
  · simp only [strncpy, hk, Nat.add_sub_cancel_left, List.replicate_succ]
    rw [List.take_of_length_le (by omega)]
  · simp only [strncpy, hk, Nat.add_sub_cancel_left, List.length_append, List.length_take,
      List.length_replicate]
    omega

/-- update_offset finds the end of the string. -/
theorem prints_moveOn {more : List Byte} (hstring : 0#8 ∉ more) :
    Prints base excuse (Pending base depth text more) (Pending base depth (text ++ more) [])
      moveOn := by
  intro s hs
  obtain ⟨block, hbuffer, -, -⟩ := hs.holds.block
  obtain ⟨rest, hrest⟩ : ∃ rest, s.length - s.offset = (more.length + 1) + rest := by
    refine ⟨s.length - s.offset - (more.length + 1), ?_⟩
    have hwithin := hs.within
    rw [hs.holds.offset]
    omega
  have hread : cString (slice s.mem s.offset (s.length - s.offset)) = some more := by
    rw [hrest, slice_add, hs.holds.offset, hs.ended, List.append_assoc]
    exact cString_memory ⟨more, hstring⟩ _
  refine ⟨true, { s with offset := s.offset + more.length }, ?_, Nat.le_refl _, ?_⟩
  · simp only [moveOn, updateOffset, hbuffer, hread, Option.map_some]
  · have hwithin := hs.within
    have hoffset := hs.holds.offset
    have hended := hs.ended
    rw [slice_add] at hended
    obtain ⟨hfront, hend⟩ := List.append_inj hended (slice_length _ _ _)
    refine ⟨⟨hs.holds.block, hs.holds.depth, ?_, ?_, ?_, hs.holds.bounded⟩, ?_, ?_⟩
    · simp only [List.length_append, hoffset]
    · simp only
      rw [List.length_append, slice_add, hs.holds.text, Nat.zero_add, hfront]
    · simp only
      omega
    · simp only [List.length_append, List.length_nil, Nat.zero_add, List.nil_append]
      exact hend
    · simp only [List.length_append, List.length_nil]
      omega

/-- A value stands behind the text. The offset may be in it, if what follows is a string. -/
def Value (base : Finset ℕ) (depth : ℕ) (text value : List Byte) (s : State) : Prop :=
  ∃ front back, value = front ++ back ∧ 0#8 ∉ back ∧ Pending base depth (text ++ front) back s

theorem Pending.value {value : List Byte} {s : State} (h : Pending base depth text value s)
    (hstring : 0#8 ∉ value) : Value base depth text value s :=
  ⟨[], value, rfl, hstring, by rwa [List.append_nil]⟩

theorem Pending.value_of_nil {value : List Byte} {s : State}
    (h : Pending base depth (text ++ value) [] s) : Value base depth text value s :=
  ⟨value, [], (List.append_nil _).symm, List.not_mem_nil, h⟩

theorem prints_value_moveOn {value : List Byte} :
    Prints base excuse (Value base depth text value) (Pending base depth (text ++ value) [])
      moveOn := by
  rintro s ⟨front, back, rfl, hstring, hs⟩
  rw [← List.append_assoc]
  exact prints_moveOn hstring s hs

theorem prints_shallower {value : List Byte} :
    Prints base excuse (Pending base (depth + 1) text value) (Pending base depth text value)
      shallower :=
  fun s hs => ⟨true, _, rfl, Nat.le_refl _,
    ⟨hs.holds.block, by rw [hs.holds.depth, Nat.add_sub_cancel], hs.holds.offset, hs.holds.text,
      hs.holds.room, hs.holds.bounded⟩, hs.ended, hs.within⟩

end

end NcsProjects.CJsonBuffer
