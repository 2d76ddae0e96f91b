import NcsProjects.CJsonBuffer

/-!
cJSON_Print, as zephyr.lst has it compiled: print_value renders a tree into a printbuffer.
When a request of it is refused, NULL comes out and nothing is kept; otherwise the caller
gets a block of his own with the text of the tree.
-/
namespace NcsProjects.CJsonPrint

open BlockHeaps ByteRegions CJsonBuffer JsonText MessageText

/-- What a cJSON node is, with its number as it is written, or its valuestring. -/
inductive Kind
  | null
  | false
  | true
  | number (printed : CString)
  | string (valuestring : Option CString)
  | raw (valuestring : Option CString)
  | array
  | object
  | invalid

/-- A cJSON node with its key, its child and its next sibling. -/
inductive Item
  | nil
  | node (kind : Kind) (key : Option CString) (child next : Item)

section

-- Whether the hooks have a reallocate.
variable (reallocs : Bool)

/-- How many characters more a string takes than it has. -/
def escapeCharacters : List Byte → ℕ
  | [] => 0
  | c :: input =>
    (if (escapeLetter c).isSome then 1 else if c < space then 5 else 0) + escapeCharacters input

/-- The characters between the quotes, when some are escaped. -/
def escapeLoop : List Byte → ℕ → State → Option State
  | [], _, s => some s
  | c :: input, output, s =>
    if space ≤ c ∧ c ≠ quote ∧ c ≠ backslash then do
      escapeLoop input (output + 1) (← s.put output [c])
    else do
      let s ← s.put output [backslash]
      match escapeLetter c with
      | some letter => escapeLoop input (output + 2) (← s.put (output + 1) [letter])
      | none =>
        let code := [ascii 'u', ascii '0', ascii '0', hexDigit (c >>> 4), hexDigit (c &&& 0xf#8)]
        escapeLoop input (output + 6)
          (← s.put (output + 1) (snprintf (s.length - (output + 1)) code))

/-- print_string_ptr -/
def printStringPtr : Option CString → Printer
  | none => place reallocs 3 (strncpy [quote, quote]) 0
  | some input => fun s =>
    let outputLength := (input.bytes.length + escapeCharacters input.bytes) % 2 ^ 32
    let needed := (outputLength + 3) % 2 ^ 32
    if escapeCharacters input.bytes = 0 then
      place reallocs needed (fun _ => quote :: input.bytes ++ [quote, 0#8]) 0 s
    else match ensure reallocs needed s with
      | none => none
      | some (none, s) => some (false, s)
      | some (some output, s) => do
        let s ← s.put output [quote]
        let s ← escapeLoop input.bytes (output + 1) s
        let s ← s.put (output + outputLength + 1) [quote]
        let s ← s.put (output + outputLength + 2) [0#8]
        some (true, s)

-- The `format` of the printbuffer.
variable (format : Bool)

/-- print_array, around its elements -/
def printArray (elements : Printer) : Printer :=
  inTurn [place reallocs 1 (fun _ => [ascii '[']) 1, deeper, elements,
    place reallocs 2 (fun _ => [ascii ']', 0#8]) 0, shallower]

/-- What stands between two elements. -/
def elementEnd : Item → List Byte
  | .nil => []
  | .node _ _ _ _ => if format then [comma, space] else [comma]

def printSeparator : Item → Printer
  | .nil => inTurn []
  | next =>
    place reallocs ((elementEnd format next).length + 1) (fun _ => elementEnd format next ++ [0#8])
      (elementEnd format next).length

/-- The indentation of the member of an object -/
def indent : Printer := fun s =>
  if format then place reallocs s.depth (fun _ => List.replicate s.depth tab) s.depth s
  else some (true, s)

/-- What stands behind a member. -/
def memberEnd (next : Item) : List Byte :=
  (match next with
    | .nil => []
    | .node _ _ _ _ => [comma]) ++ if format then [newline] else []

def objectStart : List Byte := if format then [openBrace, newline] else [openBrace]

def colons : List Byte := if format then [colon, tab] else [colon]

/-- print_object, around its members -/
def printObject (members : Printer) : Printer :=
  inTurn [place reallocs ((objectStart format).length + 1) (fun _ => objectStart format)
      (objectStart format).length,
    deeper, members,
    fun s => place reallocs (if format then s.depth + 1 else 2)
      (fun _ => (if format then List.replicate (s.depth - 1) tab else []) ++ [closeBrace, 0#8])
      0 s,
    shallower]

/-- print_number, behind its sprintf; the text takes 25 characters at most. -/
def printNumber (printed : CString) : Printer :=
  if 25 < printed.bytes.length then failed
  else place reallocs (printed.bytes.length + 1) (fun _ => printed.bytes ++ [0#8])
    printed.bytes.length

/-- The cases of print_value. -/
def printKind (kind : Kind) (elements members : Printer) : Printer :=
  match kind with
  | .null => place reallocs 5 (strncpy (text ['n', 'u', 'l', 'l'])) 0
  | .false => place reallocs 6 (strncpy (text ['f', 'a', 'l', 's', 'e'])) 0
  | .true => place reallocs 5 (strncpy (text ['t', 'r', 'u', 'e'])) 0
  | .number printed => printNumber reallocs printed
  | .raw none => failed
  | .raw (some valuestring) =>
    place reallocs (valuestring.bytes.length + 1) (fun _ => valuestring.bytes ++ [0#8]) 0
  | .string valuestring => printStringPtr reallocs valuestring
  | .array => printArray reallocs elements
  | .object => printObject reallocs format members
  | .invalid => failed

mutual

/-- The loop of print_array -/
def printElements : Item → Printer
  | .nil => inTurn []
  | .node kind _ child next =>
    inTurn [printKind reallocs format kind (printElements child) (printMembers child), moveOn,
      printSeparator reallocs format next, printElements next]

/-- The loop of print_object -/
def printMembers : Item → Printer
  | .nil => inTurn []
  | .node kind key child next =>
    inTurn [indent reallocs format, printStringPtr reallocs key, moveOn,
      place reallocs (colons format).length (fun _ => colons format) (colons format).length,
      printKind reallocs format kind (printElements child) (printMembers child), moveOn,
      place reallocs ((memberEnd format next).length + 1)
        (fun _ => memberEnd format next ++ [0#8]) (memberEnd format next).length,
      printMembers next]

end

/-- print_value -/
def printValue : Item → Printer
  | .nil => failed
  | .node kind _ child _ =>
    printKind reallocs format kind (printElements reallocs format child)
      (printMembers reallocs format child)

/-- A block that the caller gets, of `size` bytes. -/
structure Printed where
  block : ℕ
  size : ℕ
  contents : Region Byte

def Printed.memory (p : Printed) : List Byte := slice p.contents 0 p.size

/-- What print does when it cannot go on. -/
def fail (s : State) : Option (Option Printed × ByteHeap) :=
  match s.buffer with
  | none => some (none, s.heap)
  | some block => (s.heap.free block).map fun heap => (none, heap)

def defaultBufferSize : ℕ := 256

/-- print; the result is a block, or NULL. -/
def print (item : Item) (h : ByteHeap) : Option (Option Printed × ByteHeap) :=
  match h.malloc defaultBufferSize with
  | (none, h) => some (none, h)
  | (some (block, contents), h) =>
    match inTurn [printValue reallocs format item, moveOn]
        ⟨some block, contents, defaultBufferSize, 0, 0, h⟩ with
    | none => none
    | some (false, s) => fail s
    | some (true, s) =>
      match s.buffer, s.heap.malloc (s.offset + 1) with
      | none, _ => none
      | some _, (none, heap) => fail { s with heap := heap }
      | some block, (some (printed, contents), heap) =>
        let kept := min s.length (s.offset + 1)
        let copy := write contents 0 (slice s.mem 0 kept)
        (heap.free block).map fun heap =>
          (some ⟨printed, s.offset + 1, if reallocs then copy else write copy s.offset [0#8]⟩,
            heap)

/-- cJSON_Print -/
def cJSONPrint (item : Item) (h : ByteHeap) : Option (Option Printed × ByteHeap) :=
  print reallocs true item h

end

/-! The text of a tree. -/

section

variable (format : Bool)

def objectEnd (depth : ℕ) : List Byte :=
  (if format then List.replicate depth tab else []) ++ [closeBrace]

def keyText : Option CString → List Byte
  | none => [quote, quote]
  | some s => quoted s.bytes

/-- The text of a node at some depth, around that of its children. -/
def renderKind (kind : Kind) (depth : ℕ) (elements members : Option (List Byte)) :
    Option (List Byte) :=
  match kind with
  | .null => some (text ['n', 'u', 'l', 'l'])
  | .false => some (text ['f', 'a', 'l', 's', 'e'])
  | .true => some (text ['t', 'r', 'u', 'e'])
  | .number printed => if 25 < printed.bytes.length then none else some printed.bytes
  | .raw valuestring => valuestring.map CString.bytes
  | .string valuestring => some (keyText valuestring)
  | .array => elements.map fun elements => ascii '[' :: elements ++ [ascii ']']
  | .object => members.map fun members =>
      objectStart format ++ members ++ objectEnd format depth
  | .invalid => none

mutual

/-- The elements from a node on -/
def renderElements : Item → ℕ → Option (List Byte)
  | .nil, _ => some []
  | .node kind _ child next, depth => do
    let value ← renderKind format kind depth (renderElements child (depth + 1))
      (renderMembers child (depth + 1))
    let rest ← renderElements next depth
    some (value ++ elementEnd format next ++ rest)

/-- The members from a node on -/
def renderMembers : Item → ℕ → Option (List Byte)
  | .nil, _ => some []
  | .node kind key child next, depth => do
    let value ← renderKind format kind depth (renderElements child (depth + 1))
      (renderMembers child (depth + 1))
    let rest ← renderMembers next depth
    some ((if format then List.replicate depth tab else []) ++ keyText key ++ colons format ++
      value ++ memberEnd format next ++ rest)

end

/-- None for a tree with a node that has no text. -/
def render : Item → Option (List Byte)
  | .nil => none
  | .node kind _ child _ =>
    renderKind format kind 0 (renderElements format child 1) (renderMembers format child 1)

end

section

variable {reallocs : Bool} {base : Finset ℕ} {excuse : Prop} {depth : ℕ} {text : List Byte}

theorem escape_plain {c : Byte} (h : space ≤ c ∧ c ≠ quote ∧ c ≠ backslash) :
    escapeLetter c = none ∧ escape c = [c] := by
  have hletter : ∀ c : Byte, space ≤ c ∧ c ≠ quote ∧ c ≠ backslash → escapeLetter c = none := by
    decide
  have hlow : ¬ c < space := BitVec.not_lt.mpr h.1
  exact ⟨hletter c h, by simp only [escape, hletter c h, if_neg hlow]⟩

theorem escape_code {c : Byte} (h : ¬ (space ≤ c ∧ c ≠ quote ∧ c ≠ backslash))
    (hletter : escapeLetter c = none) : c < space := by
  have hcontrol : ∀ c : Byte, escapeLetter c = none →
      ¬ (space ≤ c ∧ c ≠ quote ∧ c ≠ backslash) → c < space := by
    decide
  exact hcontrol c hletter h

/-- print_string_ptr counts right. -/
theorem escapeCharacters_eq (input : List Byte) :
    input.length + escapeCharacters input = (input.flatMap escape).length := by
  induction input with
  | nil => rfl
  | cons c input ih =>
    have hone : (escape c).length =
        1 + if (escapeLetter c).isSome then 1 else if c < space then 5 else 0 := by
      cases hletter : escapeLetter c with
      | some letter => simp [escape, hletter]
      | none =>
        by_cases hlow : c < space
        · simp [escape, hletter, hlow]
        · simp [escape, hletter, hlow]
    rw [List.flatMap_cons, List.length_append, ← ih, hone, escapeCharacters, List.length_cons]
    omega

theorem flatMap_escape_plain {input : List Byte} (h : escapeCharacters input = 0) :
    input.flatMap escape = input := by
  induction input with
  | nil => rfl
  | cons c input ih =>
    rw [escapeCharacters] at h
    have hletter : escapeLetter c = none := by
      cases hletter : escapeLetter c with
      | none => rfl
      | some letter =>
        rw [hletter] at h
        simp at h
    have hlow : ¬ c < space := by
      intro hlow
      rw [hletter] at h
      simp [hlow] at h
    rw [List.flatMap_cons, ih (by omega)]
    simp only [escape, hletter, if_neg hlow, List.singleton_append]

/-- One character is written, in two steps when it is escaped. -/
theorem escapeLoop_step {s : State} (h : Holds base depth text s) {c : Byte} {output : ℕ}
    (hpos : text.length ≤ output) (hroom : output + (escape c).length + 1 ≤ s.length)
    (input : List Byte) :
    ∃ s', escapeLoop (c :: input) output s = escapeLoop input (output + (escape c).length) s' ∧
      s'.heap = s.heap ∧ s'.length = s.length ∧ Holds base depth text s' ∧
      (∀ i, i < output → s'.mem i = s.mem i) ∧
      slice s'.mem output (escape c).length = escape c := by
  by_cases hplain : space ≤ c ∧ c ≠ quote ∧ c ≠ backslash
  · obtain ⟨-, hescape⟩ := escape_plain hplain
    rw [hescape, List.length_singleton] at hroom ⊢
    obtain ⟨s', hput, hheap, hlength, hmem, hholds⟩ :=
      put_behind h [c] hpos (by rw [List.length_singleton]; omega)
    refine ⟨s', ?_, hheap, hlength, hholds, ?_, ?_⟩
    · rw [escapeLoop, if_pos hplain, hput]
      rfl
    · intro i hi
      rw [hmem, write_before _ _ _ hi]
    · rw [hmem]
      exact slice_write s.mem output [c]
  · have hnext : ∀ {more : List Byte} {s₁ : State}, s₁.heap = s.heap → s₁.length = s.length →
        s₁.mem = write s.mem output [backslash] → Holds base depth text s₁ →
        escape c = backslash :: more → ∀ tail, output + 1 + (more ++ tail).length ≤ s.length →
        ∃ s', s₁.put (output + 1) (more ++ tail) = some s' ∧ s'.heap = s.heap ∧
          s'.length = s.length ∧ Holds base depth text s' ∧
          (∀ i, i < output → s'.mem i = s.mem i) ∧
          slice s'.mem output (escape c).length = escape c := by
      intro more s₁ hheap₁ hlength₁ hmem₁ h₁ hescape tail hwithin
      obtain ⟨s', hput, hheap, hlength, hmem, hholds⟩ :=
        put_behind h₁ (more ++ tail) (by omega : text.length ≤ output + 1)
          (by rw [hlength₁]; exact hwithin)
      refine ⟨s', hput, hheap.trans hheap₁, hlength.trans hlength₁, hholds, ?_, ?_⟩
      · intro i hi
        rw [hmem, write_before _ _ _ (by omega), hmem₁, write_before _ _ _ hi]
      · have hjoin := write_append s.mem output [backslash] (more ++ tail)
        rw [List.length_singleton] at hjoin
        have hback := slice_write s.mem output ([backslash] ++ (more ++ tail))
        have hsplit : [backslash] ++ (more ++ tail) = escape c ++ tail := by simp [hescape]
        rw [hmem, hmem₁, hjoin]
        rw [hsplit, List.length_append, slice_add] at hback
        rw [hsplit]
        exact (List.append_inj hback (slice_length _ _ _)).1
    obtain ⟨s₁, hput₁, hheap₁, hlength₁, hmem₁, h₁⟩ :=
      put_behind h [backslash] hpos (by rw [List.length_singleton]; omega)
    cases hletter : escapeLetter c with
    | some letter =>
      have hescape : escape c = [backslash, letter] := by simp only [escape, hletter]
      have hlen : (escape c).length = 2 := by rw [hescape]; rfl
      obtain ⟨s', hput, hrest⟩ := hnext hheap₁ hlength₁ hmem₁ h₁ hescape []
        (by simp only [List.append_nil, List.length_singleton]; omega)
      refine ⟨s', ?_, hrest⟩
      rw [List.append_nil] at hput
      rw [escapeLoop, if_neg hplain, hput₁, hlen]
      simp only [Option.bind_eq_bind, Option.bind_some, hletter, hput]
    | none =>
      have hlow := escape_code hplain hletter
      have hescape : escape c = backslash ::
          [ascii 'u', ascii '0', ascii '0', hexDigit (c >>> 4), hexDigit (c &&& 0xf#8)] := by
        simp only [escape, hletter, if_pos hlow]
      have hlen : (escape c).length = 6 := by rw [hescape]; rfl
      obtain ⟨s', hput, hrest⟩ := hnext hheap₁ hlength₁ hmem₁ h₁ hescape [0#8]
        (by simp only [List.length_append, List.length_cons, List.length_nil]; omega)
      refine ⟨s', ?_, hrest⟩
      have hprinted : snprintf (s₁.length - (output + 1))
          [ascii 'u', ascii '0', ascii '0', hexDigit (c >>> 4), hexDigit (c &&& 0xf#8)] =
          [ascii 'u', ascii '0', ascii '0', hexDigit (c >>> 4), hexDigit (c &&& 0xf#8)] ++
            [0#8] := by
        rw [snprintf, if_neg (by omega), List.take_of_length_le]
        simp only [List.length_cons, List.length_nil]
        omega
      rw [escapeLoop, if_neg hplain, hput₁, hlen]
      simp only [Option.bind_eq_bind, Option.bind_some, hletter, hprinted, hput]

theorem escapeLoop_holds (input : List Byte) {s : State} (h : Holds base depth text s)
    {output : ℕ} (hpos : text.length ≤ output)
    (hroom : output + (input.flatMap escape).length + 1 ≤ s.length) :
    ∃ s', escapeLoop input output s = some s' ∧ s'.heap = s.heap ∧ s'.length = s.length ∧
      Holds base depth text s' ∧ (∀ i, i < output → s'.mem i = s.mem i) ∧
      slice s'.mem output (input.flatMap escape).length = input.flatMap escape := by
  induction input generalizing output s with
  | nil => exact ⟨s, rfl, rfl, rfl, h, fun _ _ => rfl, rfl⟩
  | cons c input ih =>
    rw [List.flatMap_cons, List.length_append] at hroom ⊢
    obtain ⟨s₁, hstep, hheap₁, hlength₁, h₁, hbefore₁, hslice₁⟩ :=
      escapeLoop_step h (c := c) hpos (by omega) input
    obtain ⟨s', hloop, hheap, hlength, hholds, hbefore, hslice⟩ :=
      ih h₁ (by omega : text.length ≤ output + (escape c).length) (by omega)
    refine ⟨s', hstep.trans hloop, hheap.trans hheap₁, hlength.trans hlength₁, hholds, ?_, ?_⟩
    · intro i hi
      rw [hbefore i (by omega), hbefore₁ i hi]
    · have hsame : slice s'.mem output (escape c).length = slice s₁.mem output (escape c).length :=
        slice_congr fun i _ hi => hbefore i hi
      rw [slice_add, hsame, hslice₁, hslice]

/-- The length of a printed string does not overflow. -/
def Short (s : CString) : Prop := 6 * s.bytes.length + 3 < 2 ^ 32

theorem flatMap_escape_le (input : List Byte) :
    (input.flatMap escape).length ≤ 6 * input.length := by
  induction input with
  | nil => exact Nat.le_refl _
  | cons c input ih =>
    have hc := escape_length_le c
    rw [List.flatMap_cons, List.length_append, List.length_cons]
    omega

/-- print_string_ptr writes the string in quotes, escaped. -/
theorem prints_stringPtr {input : Option CString} (hshort : ∀ s ∈ input, Short s)
    (hfits : ¬ excuse → text.length + (keyText input).length + 2 ≤ intMax) :
    Prints base excuse (Holds base depth text) (Pending base depth text (keyText input))
      (printStringPtr reallocs input) := by
  cases input with
  | none => exact prints_strncpy hfits
  | some input =>
    have hshort := hshort input rfl
    have hle := flatMap_escape_le input.bytes
    have hcount := escapeCharacters_eq input.bytes
    unfold Short at hshort
    have hlen : (keyText (some input)).length = (input.bytes.flatMap escape).length + 2 := by
      simp [keyText, quoted]
    have hmod : (input.bytes.length + escapeCharacters input.bytes) % 2 ^ 32 =
        (input.bytes.flatMap escape).length := by
      rw [hcount, Nat.mod_eq_of_lt (by omega)]
    have hmod' : ((input.bytes.flatMap escape).length + 3) % 2 ^ 32 =
        (keyText (some input)).length + 1 := by
      rw [hlen, Nat.mod_eq_of_lt (by omega)]
    intro s hs
    simp only [printStringPtr, hmod, hmod']
    by_cases hplain : escapeCharacters input.bytes = 0
    · rw [if_pos hplain]
      have hsame : quote :: input.bytes ++ [quote, 0#8] = keyText (some input) ++ [0#8] := by
        simp [keyText, quoted, flatMap_escape_plain hplain]
      rw [hsame]
      exact prints_copy hfits s hs
    · rw [if_neg hplain]
      have hroom : ¬ excuse →
          text.length + ((keyText (some input)).length + 1) + 1 ≤ intMax := by
        intro hno
        have hlong := hfits hno
        omega
      obtain ⟨r, s₁, hensure, hrefused, hresult⟩ := ensure_holds reallocs hs hroom
      rw [hensure]
      cases r with
      | none => exact ⟨false, s₁, rfl, hrefused, hresult⟩
      | some output =>
        obtain ⟨rfl, h₁, hroom⟩ := hresult
        rw [hlen] at hroom
        obtain ⟨s₂, hput₂, hheap₂, hlength₂, hmem₂, h₂⟩ :=
          put_behind h₁ [quote] (Nat.le_refl _) (by rw [List.length_singleton]; omega)
        obtain ⟨s₃, hloop₃, hheap₃, hlength₃, h₃, hbefore₃, hslice₃⟩ :=
          escapeLoop_holds input.bytes h₂ (Nat.le_succ _) (by omega)
        obtain ⟨s₄, hput₄, hheap₄, hlength₄, hmem₄, h₄⟩ := put_behind h₃ [quote]
          (by omega : text.length ≤ text.length + (input.bytes.flatMap escape).length + 1)
          (by rw [List.length_singleton]; omega)
        obtain ⟨s₅, hput₅, hheap₅, hlength₅, hmem₅, h₅⟩ := put_behind h₄ [0#8]
          (by omega : text.length ≤ text.length + (input.bytes.flatMap escape).length + 2)
          (by rw [List.length_singleton]; omega)
        refine ⟨true, s₅, ?_, ?_, h₅, ?_, ?_⟩
        · simp only [hput₂, hloop₃, hput₄, hput₅, Option.bind_eq_bind, Option.bind_some]
        · rw [hheap₅, hheap₄, hheap₃, hheap₂]
          exact hrefused
        · have hquote : slice s₃.mem text.length 1 = [quote] := by
            have hkept : slice s₃.mem text.length 1 = slice s₂.mem text.length 1 :=
              slice_congr fun i _ hi => hbefore₃ i hi
            rw [hkept, hmem₂]
            exact slice_write s₁.mem text.length [quote]
          have hstring : slice s₃.mem text.length (1 + (input.bytes.flatMap escape).length) =
              quote :: input.bytes.flatMap escape := by
            rw [slice_add, hquote, hslice₃, List.singleton_append]
          have hjoin := write_append s₃.mem
            (text.length + (input.bytes.flatMap escape).length + 1) [quote] [0#8]
          rw [List.length_singleton] at hjoin
          have hend := slice_write_append s₃.mem text.length
            (1 + (input.bytes.flatMap escape).length) [quote, 0#8]
          have hat : text.length + (1 + (input.bytes.flatMap escape).length) =
              text.length + (input.bytes.flatMap escape).length + 1 := by omega
          have hwidth : (keyText (some input)).length + 1 =
              1 + (input.bytes.flatMap escape).length + [quote, 0#8].length := by
            rw [hlen, List.length_cons, List.length_singleton]
            omega
          rw [hat, hstring] at hend
          rw [hmem₅, hmem₄, hwidth]
          refine (congrArg (fun m => slice m _ _) hjoin).trans (hend.trans ?_)
          simp [keyText, quoted]
        · omega

/-- Without an excuse, there is a text, and it is not too long. -/
def Covered (excuse : Prop) (text : List Byte) (r : Option (List Byte)) : Prop :=
  ¬ excuse → ∃ more, r = some more ∧ text.length + more.length + 2 ≤ intMax

section

variable {r₀ r₁ : Option (List Byte)} {front middle : List Byte}

theorem Covered.first (h : Covered excuse text
      (r₀.bind fun value => r₁.bind fun rest => some (front ++ value ++ middle ++ rest)))
    (hno : ¬ excuse) :
    ∃ value, r₀ = some value ∧ text.length + front.length + value.length + 2 ≤ intMax := by
  obtain ⟨all, hall, hlen⟩ := h hno
  simp only [Option.bind_eq_some_iff] at hall
  obtain ⟨value, hvalue, rest, -, heq⟩ := hall
  cases heq
  refine ⟨value, hvalue, ?_⟩
  simp only [List.length_append] at hlen
  omega

theorem Covered.second {value : List Byte} (h : Covered excuse text
      (r₀.bind fun value => r₁.bind fun rest => some (front ++ value ++ middle ++ rest)))
    (hvalue : r₀ = some value) (hno : ¬ excuse) :
    ∃ rest, r₁ = some rest ∧ text.length + front.length + value.length + middle.length +
      rest.length + 2 ≤ intMax := by
  obtain ⟨all, hall, hlen⟩ := h hno
  simp only [hvalue, Option.bind_some, Option.bind_eq_some_iff] at hall
  obtain ⟨rest, hrest, heq⟩ := hall
  cases heq
  refine ⟨rest, hrest, ?_⟩
  simp only [List.length_append] at hlen
  omega

end

/-- Children are printed behind any text, one level deeper. -/
def PrintsAll (base : Finset ℕ) (excuse : Prop) (depth : ℕ) (r : Option (List Byte))
    (f : Printer) : Prop :=
  ∀ text, Covered excuse text r → Prints base excuse (Holds base depth text)
    (fun s => ∃ more, r = some more ∧ Holds base depth (text ++ more) s) f

theorem prints_array {elements : Printer} {r : Option (List Byte)}
    (h : PrintsAll base excuse (depth + 1) r elements)
    (hcovered : Covered excuse text (r.map fun e => ascii '[' :: e ++ [ascii ']'])) :
    Prints base excuse (Holds base depth text)
      (fun s => ∃ value, r.map (fun e => ascii '[' :: e ++ [ascii ']']) = some value ∧
        Value base depth text value s) (printArray reallocs elements) := by
  have hfits : ∀ e, r = some e → ¬ excuse → text.length + e.length + 4 ≤ intMax := by
    rintro e rfl hno
    obtain ⟨value, hvalue, hlen⟩ := hcovered hno
    cases hvalue
    simp only [List.cons_append, List.length_cons, List.length_append, List.length_nil] at hlen
    omega
  have hsome : ¬ excuse → ∃ e, r = some e := by
    intro hno
    obtain ⟨value, hvalue, -⟩ := hcovered hno
    cases r with
    | none => cases hvalue
    | some e => exact ⟨e, rfl⟩
  have hopen : Prints base excuse (Holds base depth text) (Holds base depth (text ++ [ascii '[']))
      (place reallocs 1 (fun _ => [ascii '[']) 1) := by
    refine prints_mark (Nat.le_refl _) fun hno => ?_
    obtain ⟨e, he⟩ := hsome hno
    have hlen := hfits e he hno
    omega
  refine hopen.before ?_
  refine prints_deeper.before ((h _ fun hno => ?_).before ?_)
  · obtain ⟨e, he⟩ := hsome hno
    have hlen := hfits e he hno
    refine ⟨e, he, ?_⟩
    simp only [List.length_append, List.length_singleton]
    omega
  rintro s ⟨e, rfl, hs⟩
  have hclose : Prints base excuse (Holds base (depth + 1) (text ++ [ascii '['] ++ e))
      (Pending base (depth + 1) (text ++ [ascii '['] ++ e) [ascii ']'])
      (place reallocs 2 (fun _ => [ascii ']', 0#8]) 0) := by
    refine prints_copy fun hno => ?_
    have hlen := hfits e rfl hno
    simp only [List.length_append, List.length_singleton]
    omega
  refine ((hclose.before (prints_shallower.before
    (prints_nothing fun s hs => hs))).weaken fun s hs => ?_) s hs
  refine ⟨_, rfl, [ascii '['] ++ e, [ascii ']'], rfl, by decide, ?_⟩
  rw [← List.append_assoc]
  exact hs

theorem prints_objectEnd {format : Bool}
    (hfits : ¬ excuse → text.length + (objectEnd format depth).length + 2 ≤ intMax) :
    Prints base excuse (Holds base (depth + 1) text)
      (Pending base (depth + 1) text (objectEnd format depth))
      (fun s => place reallocs (if format then s.depth + 1 else 2)
        (fun _ => (if format then List.replicate (s.depth - 1) tab else []) ++ [closeBrace, 0#8])
        0 s) := by
  intro s hs
  have hneeded : (if format then s.depth + 1 else 2) = (objectEnd format depth).length + 1 := by
    rw [hs.depth]
    cases format with
    | false => rfl
    | true => simp [objectEnd]
  have hbytes : (if format then List.replicate (s.depth - 1) tab else []) ++ [closeBrace, 0#8] =
      objectEnd format depth ++ [0#8] := by
    rw [hs.depth, Nat.add_sub_cancel, objectEnd, List.append_assoc]
    rfl
  beta_reduce
  rw [hneeded, hbytes]
  exact prints_copy hfits s hs

theorem prints_object {format : Bool} {members : Printer} {r : Option (List Byte)}
    (h : PrintsAll base excuse (depth + 1) r members)
    (hcovered : Covered excuse text
      (r.map fun m => objectStart format ++ m ++ objectEnd format depth)) :
    Prints base excuse (Holds base depth text)
      (fun s => ∃ value, r.map (fun m => objectStart format ++ m ++ objectEnd format depth) =
        some value ∧ Value base depth text value s) (printObject reallocs format members) := by
  have hfits : ∀ m, r = some m → ¬ excuse → text.length + (objectStart format).length +
      m.length + (objectEnd format depth).length + 2 ≤ intMax := by
    rintro m rfl hno
    obtain ⟨value, hvalue, hlen⟩ := hcovered hno
    cases hvalue
    simp only [List.length_append] at hlen
    omega
  have hsome : ¬ excuse → ∃ m, r = some m := by
    intro hno
    obtain ⟨value, hvalue, -⟩ := hcovered hno
    cases r with
    | none => cases hvalue
    | some m => exact ⟨m, rfl⟩
  have hend : 1 ≤ (objectEnd format depth).length := by
    rw [objectEnd, List.length_append, List.length_singleton]
    omega
  refine (prints_mark (Nat.le_succ _) fun hno => ?_).before ?_
  · obtain ⟨m, hm⟩ := hsome hno
    have hlen := hfits m hm hno
    omega
  refine prints_deeper.before ((h _ fun hno => ?_).before ?_)
  · obtain ⟨m, hm⟩ := hsome hno
    have hlen := hfits m hm hno
    refine ⟨m, hm, ?_⟩
    rw [List.length_append]
    omega
  rintro s ⟨m, rfl, hs⟩
  refine (((prints_objectEnd fun hno => ?_).before
    (prints_shallower.before (prints_nothing fun s hs => hs))).weaken fun s hs => ?_) s hs
  · have hlen := hfits m rfl hno
    simp only [List.length_append]
    omega
  · refine ⟨_, rfl, objectStart format ++ m, objectEnd format depth, rfl, ?_, ?_⟩
    · rw [objectEnd]
      cases format with
      | false =>
        simp only [Bool.false_eq_true, if_false, List.nil_append]
        decide
      | true =>
        simp only [if_true, List.mem_append, List.mem_replicate, List.mem_singleton]
        rintro (⟨-, htab⟩ | hbrace)
        · exact absurd htab (by decide)
        · exact absurd hbrace (by decide)
    · rw [← List.append_assoc]
      exact hs

def Kind.Short : Kind → Prop
  | .string valuestring => ∀ s ∈ valuestring, CJsonPrint.Short s
  | _ => True

/-- Every string of the tree is short enough for 32 bits. -/
def Item.Short : Item → Prop
  | .nil => True
  | .node kind key child next =>
    kind.Short ∧ (∀ s ∈ key, CJsonPrint.Short s) ∧ child.Short ∧ next.Short

theorem zero_notMem_keyText (key : Option CString) : 0#8 ∉ keyText key := by
  cases key with
  | none => decide
  | some key => exact zero_notMem_quoted key.bytes

/-- print_value writes the text of its item. -/
theorem prints_kind {format : Bool} {kind : Kind} {elements members : Printer}
    {re rm : Option (List Byte)} (hshort : kind.Short)
    (he : PrintsAll base excuse (depth + 1) re elements)
    (hm : PrintsAll base excuse (depth + 1) rm members)
    (hcovered : Covered excuse text (renderKind format kind depth re rm)) :
    Prints base excuse (Holds base depth text)
      (fun s => ∃ value, renderKind format kind depth re rm = some value ∧
        Value base depth text value s) (printKind reallocs format kind elements members) := by
  have hlen : ∀ {value}, renderKind format kind depth re rm = some value → ¬ excuse →
      text.length + value.length + 2 ≤ intMax := by
    intro value hvalue hno
    obtain ⟨value', hvalue', hlen⟩ := hcovered hno
    rw [hvalue] at hvalue'
    cases hvalue'
    exact hlen
  have hno : renderKind format kind depth re rm = none → excuse := by
    intro hnone
    by_contra hno
    obtain ⟨value, hvalue, -⟩ := hcovered hno
    rw [hnone] at hvalue
    cases hvalue
  cases kind with
  | null => exact (prints_strncpy (hlen rfl)).weaken fun s hs => ⟨_, rfl, hs.value (by decide)⟩
  | «false» => exact (prints_strncpy (hlen rfl)).weaken fun s hs => ⟨_, rfl, hs.value (by decide)⟩
  | «true» => exact (prints_strncpy (hlen rfl)).weaken fun s hs => ⟨_, rfl, hs.value (by decide)⟩
  | number printed =>
    simp only [printKind, printNumber, renderKind] at hlen hno ⊢
    by_cases hlong : 25 < printed.bytes.length
    · simp only [if_pos hlong] at hno ⊢
      exact prints_failed (hno trivial)
    · simp only [if_neg hlong] at hlen ⊢
      exact (prints_ended (hlen rfl)).weaken fun s hs => ⟨_, rfl, hs.value_of_nil⟩
  | string valuestring =>
    exact (prints_stringPtr hshort (hlen rfl)).weaken fun s hs =>
      ⟨_, rfl, hs.value (zero_notMem_keyText valuestring)⟩
  | raw valuestring =>
    cases valuestring with
    | none => exact prints_failed (hno rfl)
    | some valuestring =>
      exact (prints_copy (hlen rfl)).weaken fun s hs => ⟨_, rfl, hs.value valuestring.string⟩
  | array => exact prints_array he hcovered
  | object => exact prints_object hm hcovered
  | invalid => exact prints_failed (hno rfl)

theorem prints_separator {format : Bool} (next : Item)
    (hfits : ¬ excuse → text.length + (elementEnd format next).length + 2 ≤ intMax) :
    Prints base excuse (Holds base depth text)
      (Holds base depth (text ++ elementEnd format next))
      (printSeparator reallocs format next) := by
  cases next with
  | nil =>
    refine prints_nothing fun s hs => ?_
    rw [elementEnd, List.append_nil]
    exact hs
  | node kind key child next => exact (prints_ended hfits).weaken fun s hs => hs.holds

theorem prints_indent {format : Bool}
    (hfits : ¬ excuse → text.length +
      (if format then List.replicate depth tab else []).length + 2 ≤ intMax) :
    Prints base excuse (Holds base depth text)
      (Holds base depth (text ++ if format then List.replicate depth tab else []))
      (indent reallocs format) := by
  intro s hs
  cases format with
  | false => exact ⟨true, s, rfl, Nat.le_refl _, by simpa using hs⟩
  | true =>
    have hmark : Prints base excuse (Holds base depth text)
        (Holds base depth (text ++ List.replicate depth tab))
        (place reallocs (List.replicate depth tab).length (fun _ => List.replicate depth tab)
          (List.replicate depth tab).length) := by
      refine prints_mark (Nat.le_refl _) fun hno => ?_
      have hlen := hfits hno
      simp only [if_true] at hlen
      omega
    have hrun := hmark s hs
    rw [List.length_replicate] at hrun
    simp only [indent, if_true, hs.depth]
    exact hrun

/-- The loops of print_array and print_object write the text of their nodes. -/
theorem prints_tree {format : Bool} (item : Item) (hshort : item.Short) (depth : ℕ) :
    PrintsAll base excuse depth (renderElements format item depth)
      (printElements reallocs format item) ∧
    PrintsAll base excuse depth (renderMembers format item depth)
      (printMembers reallocs format item) := by
  induction item generalizing depth with
  | nil =>
    constructor
    · intro text _
      exact prints_nothing fun s hs => ⟨[], rfl, by rwa [List.append_nil]⟩
    · intro text _
      exact prints_nothing fun s hs => ⟨[], rfl, by rwa [List.append_nil]⟩
  | node kind key child next ihchild ihnext =>
    obtain ⟨hkind, hkey, hchild, hnext⟩ := hshort
    obtain ⟨he, hm⟩ := ihchild hchild (depth + 1)
    obtain ⟨henext, hmnext⟩ := ihnext hnext depth
    constructor
    · intro text hcovered
      have hcovered : Covered excuse text ((renderKind format kind depth
          (renderElements format child (depth + 1)) (renderMembers format child (depth + 1))).bind
        fun value => (renderElements format next depth).bind fun rest =>
          some ([] ++ value ++ elementEnd format next ++ rest)) := hcovered
      refine (prints_kind hkind he hm fun hno => ?_).before ?_
      · obtain ⟨value, hvalue, hlen⟩ := hcovered.first hno
        exact ⟨value, hvalue, hlen⟩
      rintro s ⟨value, hvalue, hs⟩
      refine ((prints_value_moveOn.weaken fun s hs => hs.holds).before
        ((prints_separator next fun hno => ?_).before
        (((henext _ fun hno => ?_).before (prints_nothing fun s hs => hs)).weaken ?_))) s hs
      · obtain ⟨rest, hrest, hlen⟩ := hcovered.second hvalue hno
        rw [List.length_append]
        simp only [List.length_nil] at hlen
        omega
      · obtain ⟨rest, hrest, hlen⟩ := hcovered.second hvalue hno
        refine ⟨rest, hrest, ?_⟩
        simp only [List.length_append]
        simp only [List.length_nil] at hlen
        omega
      · rintro s ⟨rest, hrest, hs⟩
        refine ⟨value ++ elementEnd format next ++ rest, ?_, ?_⟩
        · simp only [renderElements, hvalue, hrest, Option.bind_eq_bind, Option.bind_some]
        · rw [← List.append_assoc, ← List.append_assoc]
          exact hs
    · intro text hcovered
      generalize htabs : (if format then List.replicate depth tab else []) = tabs
      have hcovered : Covered excuse text ((renderKind format kind depth
          (renderElements format child (depth + 1)) (renderMembers format child (depth + 1))).bind
        fun value => (renderMembers format next depth).bind fun rest =>
          some (tabs ++ keyText key ++ colons format ++ value ++ memberEnd format next ++
            rest)) := htabs ▸ hcovered
      have hfront : (tabs ++ keyText key ++ colons format).length =
          tabs.length + (keyText key).length + (colons format).length := by
        simp only [List.length_append]
      refine (prints_indent fun hno => ?_).before ((prints_stringPtr hkey fun hno => ?_).before
        (((prints_moveOn (zero_notMem_keyText key)).weaken fun s hs => hs.holds).before
          ((prints_mark (Nat.le_refl _) fun hno => ?_).before
            ((prints_kind hkind he hm fun hno => ?_).before ?_))))
      · obtain ⟨value, -, hlen⟩ := hcovered.first hno
        rw [htabs]
        omega
      · obtain ⟨value, -, hlen⟩ := hcovered.first hno
        rw [htabs, List.length_append]
        omega
      · obtain ⟨value, -, hlen⟩ := hcovered.first hno
        simp only [htabs, List.length_append]
        omega
      · obtain ⟨value, hvalue, hlen⟩ := hcovered.first hno
        refine ⟨value, hvalue, ?_⟩
        simp only [htabs, List.length_append]
        omega
      rintro s ⟨value, hvalue, hs⟩
      refine ((prints_value_moveOn.weaken fun s hs => hs.holds).before
        (((prints_ended fun hno => ?_).weaken fun s hs => hs.holds).before
        (((hmnext _ fun hno => ?_).before (prints_nothing fun s hs => hs)).weaken ?_))) s hs
      · obtain ⟨rest, hrest, hlen⟩ := hcovered.second hvalue hno
        simp only [htabs, List.length_append]
        omega
      · obtain ⟨rest, hrest, hlen⟩ := hcovered.second hvalue hno
        refine ⟨rest, hrest, ?_⟩
        simp only [htabs, List.length_append]
        omega
      · rintro s ⟨rest, hrest, hs⟩
        refine ⟨tabs ++ keyText key ++ colons format ++ value ++ memberEnd format next ++ rest,
          ?_, ?_⟩
        · simp only [renderMembers, hvalue, hrest, htabs, Option.bind_eq_bind, Option.bind_some]
        · simp only [htabs, List.append_assoc] at hs ⊢
          exact hs

theorem prints_value {format : Bool} {item : Item} (hshort : item.Short)
    (hcovered : Covered excuse text (render format item)) :
    Prints base excuse (Holds base 0 text)
      (fun s => ∃ value, render format item = some value ∧ Pending base 0 (text ++ value) [] s)
      (inTurn [printValue reallocs format item, moveOn]) := by
  cases item with
  | nil =>
    refine (prints_failed (Q := fun _ => False) ?_).before fun s hs => hs.elim
    by_contra hno
    obtain ⟨value, hvalue, -⟩ := hcovered hno
    cases hvalue
  | node kind key child next =>
    obtain ⟨hkind, -, hchild, -⟩ := hshort
    obtain ⟨he, hm⟩ := prints_tree child hchild 1
    refine (prints_kind hkind he hm hcovered).before ?_
    rintro s ⟨value, hvalue, hs⟩
    exact ((prints_value_moveOn.before (prints_nothing fun s hs => hs)).weaken
      fun s hs => ⟨value, hvalue, hs⟩) s hs

end

theorem fail_owns {base : Finset ℕ} {s : State} (h : Owns base s) :
    ∃ h', fail s = some (none, h') ∧ h'.live = base ∧ h'.refused = s.heap.refused := by
  unfold Owns at h
  unfold fail
  cases hbuffer : s.buffer with
  | none =>
    rw [hbuffer] at h
    exact ⟨s.heap, rfl, h, rfl⟩
  | some block =>
    rw [hbuffer] at h
    obtain ⟨hfresh, hlive⟩ := h
    have hmem : block ∈ s.heap.live := by
      rw [hlive]
      exact Finset.mem_insert_self _ _
    obtain ⟨h', hfree, hafter, hsame⟩ := free_of_mem hmem
    refine ⟨h', by simp only [hfree, Option.map_some], ?_, hsame⟩
    rw [hafter, hlive, Finset.erase_insert hfresh]

/-- print needs an excuse or a refusal to come out with NULL. -/
theorem print_cases (reallocs : Bool) {format : Bool} {excuse : Prop} {item : Item}
    (hshort : item.Short) (hcovered : Covered excuse [] (render format item)) (h : ByteHeap) :
    ∃ r h', print reallocs format item h = some (r, h') ∧ h.refused ≤ h'.refused ∧
      match r with
      | none => h'.live = h.live ∧ (excuse ∨ h.refused < h'.refused)
      | some printed => printed.block ∉ h.live ∧ h'.live = insert printed.block h.live ∧
          ∃ value, render format item = some value ∧ printed.memory = value ++ [0#8] := by
  unfold print
  rcases malloc_cases defaultBufferSize h with
    ⟨h₁, hmalloc, hlive, hrefused⟩ | ⟨block, contents, h₁, hmalloc, hfresh, hlive, hsame⟩
  · rw [hmalloc]
    exact ⟨none, h₁, rfl, Nat.le_of_lt hrefused, hlive, Or.inr hrefused⟩
  · rw [hmalloc]
    have hholds : Holds h.live 0 [] ⟨some block, contents, defaultBufferSize, 0, 0, h₁⟩ :=
      ⟨⟨block, rfl, hfresh, hlive⟩, rfl, rfl, rfl, Nat.succ_pos 255,
        (by decide : defaultBufferSize ≤ intMax)⟩
    have hprints : Prints h.live excuse (Holds h.live 0 []) _
        (inTurn [printValue reallocs format item, moveOn]) := prints_value hshort hcovered
    obtain ⟨ok, s, hprint, hcount, hresult⟩ := hprints _ hholds
    simp only [hprint]
    simp only [hsame] at hcount hresult
    cases ok with
    | false =>
      obtain ⟨h', hfail, hlive', hrefused⟩ := fail_owns hresult.1
      rw [← hrefused] at hcount hresult
      exact ⟨none, h', hfail, hcount, hlive', hresult.2⟩
    | true =>
      obtain ⟨value, hvalue, hpending⟩ := hresult
      have hs : Holds h.live 0 value s := hpending.holds
      have hended : slice s.mem value.length 1 = [0#8] := hpending.ended
      obtain ⟨buffer, hbuffer, hfresh', hlive'⟩ := hs.block
      have hroom := hs.room
      have hoffset := hs.offset
      have hkept : min s.length (s.offset + 1) = value.length + 1 := by
        rw [hoffset]
        omega
      rcases malloc_cases (s.offset + 1) s.heap with
        ⟨h₂, hmalloc₂, hlive₂, hrefused₂⟩ |
        ⟨printed, contents₂, h₂, hmalloc₂, hfresh₂, hlive₂, hsame₂⟩
      · obtain ⟨h', hfail, hafter, hcount'⟩ := fail_owns (hs.owns.heap rfl hlive₂ :
          Owns h.live { s with heap := h₂ })
        simp only [hbuffer, hmalloc₂] at hfail ⊢
        have hmore : h.refused < h'.refused := by
          rw [hcount']
          exact Nat.lt_of_le_of_lt hcount hrefused₂
        exact ⟨none, h', hfail, Nat.le_of_lt hmore, hafter, Or.inr hmore⟩
      · rw [hlive'] at hfresh₂ hlive₂
        obtain ⟨h', hfree, hafter, hcount'⟩ := exchange hfresh' hfresh₂ hlive₂
        simp only [hbuffer, hmalloc₂, hfree, Option.map_some]
        refine ⟨_, h', rfl, ?_, ?_, hafter, value, hvalue, ?_⟩
        · rw [hcount', hsame₂]
          exact hcount
        · exact fun hmem => hfresh₂ (Finset.mem_insert_of_mem hmem)
        · have hall : slice s.mem 0 (value.length + 1) = value ++ [0#8] := by
            rw [slice_add, hs.text, Nat.zero_add, hended]
          have hcopy := slice_write contents₂ 0 (value ++ [0#8])
          rw [List.length_append, List.length_singleton] at hcopy
          have hsize : s.offset + 1 = value.length + 1 := congrArg (· + 1) hoffset
          rw [hoffset] at hkept
          simp only [Printed.memory, hsize, hkept, hall]
          split
          · exact hcopy
          · have hjoin := write_over contents₂ 0 value [] 0#8 0#8
            rw [Nat.zero_add] at hjoin
            rw [hoffset, hjoin]
            exact hcopy

/-- For every tree and every heap, print stays inside of its buffer and frees what it took
but the result. The result is the text of the tree, in a new block just as large; or NULL,
when the tree has no text, or one too long, or the heap has refused a request. -/
theorem print_prints (reallocs format : Bool) {item : Item} (hshort : item.Short) (h : ByteHeap) :
    ∃ r h', print reallocs format item h = some (r, h') ∧
      match r with
      | none => h'.live = h.live ∧ ((∀ value, render format item = some value →
          intMax < value.length + 2) ∨ h.refused < h'.refused)
      | some printed => printed.block ∉ h.live ∧ h'.live = insert printed.block h.live ∧
          ∃ value, render format item = some value ∧ printed.memory = value ++ [0#8] := by
  have hcovered : Covered (∀ value, render format item = some value →
      intMax < value.length + 2) [] (render format item) := by
    intro hno
    push Not at hno
    obtain ⟨value, hvalue, hlen⟩ := hno
    exact ⟨value, hvalue, by simpa using hlen⟩
  obtain ⟨r, h', hprint, -, hresult⟩ := print_cases reallocs hshort hcovered h
  exact ⟨r, h', hprint, hresult⟩

theorem nothing_live : ∀ b ∈ (∅ : Finset ℕ), b < 0 := by simp

/-- A heap that serves every request. -/
def plenty : ByteHeap where
  answers := fun _ _ => some fun _ => 0xa5#8
  requests := 0
  refused := 0
  live := ∅
  below := nothing_live

/-- An object with an array in it, and a line end in a string. -/
def nested : Item :=
  .node .object none
    (.node .array (some ⟨[0x61#8], by decide⟩)
      (.node .null none .nil (.node (.string (some ⟨[newline], by decide⟩)) none .nil .nil))
      .nil)
    .nil

theorem print_prints_nested : ∃ r h', print false true nested plenty = some (r, h') ∧
    match r with
    | none => h'.live = plenty.live ∧ ((∀ value, render true nested = some value →
        intMax < value.length + 2) ∨ plenty.refused < h'.refused)
    | some printed => printed.block ∉ plenty.live ∧
        h'.live = insert printed.block plenty.live ∧
        ∃ value, render true nested = some value ∧ printed.memory = value ++ [0#8] := by
  have hline : ∀ s ∈ some (⟨[newline], by decide⟩ : CString), Short s := by
    rintro s ⟨⟩
    exact (by decide : 6 * 1 + 3 < 2 ^ 32)
  have hkey : ∀ s ∈ some (⟨[0x61#8], by decide⟩ : CString), Short s := by
    rintro s ⟨⟩
    exact (by decide : 6 * 1 + 3 < 2 ^ 32)
  have hshort : nested.Short := ⟨trivial, by rintro s ⟨⟩, ⟨trivial, hkey, ⟨trivial,
    by rintro s ⟨⟩, trivial, ⟨hline, by rintro s ⟨⟩, trivial, trivial⟩⟩, trivial⟩, trivial⟩
  exact print_prints false true hshort plenty

end NcsProjects.CJsonPrint
