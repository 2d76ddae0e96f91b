import Mathlib.Data.Nat.Notation
import Mathlib.Tactic.SplitIfs

/-!
JSON objects whose members are strings, as text. The printer writes one member a line
and escapes quotes, backslashes and control characters; the parser skips blanks and
undoes the escapes of ASCII characters. What is printed parses back.
-/
namespace NcsProjects.JsonText

abbrev Byte := BitVec 8

def ascii (c : Char) : Byte := BitVec.ofNat 8 c.toNat

def text (cs : List Char) : List Byte := cs.map ascii

def quote : Byte := 0x22#8
def backslash : Byte := 0x5c#8
def tab : Byte := 0x09#8
def newline : Byte := 0x0a#8
def space : Byte := 0x20#8
def comma : Byte := 0x2c#8
def colon : Byte := 0x3a#8
def openBrace : Byte := 0x7b#8
def closeBrace : Byte := 0x7d#8

structure Member where
  key : List Byte
  value : List Byte
  deriving DecidableEq, Repr

/-- The letter of a two-byte escape. -/
def escapeLetter (b : Byte) : Option Byte :=
  if b = quote ∨ b = backslash then some b
  else if b = 0x08#8 then some (ascii 'b')
  else if b = 0x0c#8 then some (ascii 'f')
  else if b = newline then some (ascii 'n')
  else if b = 0x0d#8 then some (ascii 'r')
  else if b = tab then some (ascii 't')
  else none

def hexDigit (n : Byte) : Byte := if n < 10#8 then n + 0x30#8 else n + 0x57#8

def escape (b : Byte) : List Byte :=
  match escapeLetter b with
  | some c => [backslash, c]
  | none =>
    if b < space then
      [backslash, ascii 'u', ascii '0', ascii '0', hexDigit (b >>> 4), hexDigit (b &&& 0xf#8)]
    else [b]

def quoted (s : List Byte) : List Byte := quote :: s.flatMap escape ++ [quote]

def printMember (m : Member) : List Byte :=
  tab :: quoted m.key ++ colon :: tab :: quoted m.value

def printMembers : List Member → List Byte
  | [] => []
  | [m] => printMember m ++ [newline]
  | m :: rest => printMember m ++ comma :: newline :: printMembers rest

def print (ms : List Member) : List Byte :=
  openBrace :: newline :: printMembers ms ++ [closeBrace]

def unescapeLetter (c : Byte) : Option Byte :=
  if c = quote ∨ c = backslash ∨ c = ascii '/' then some c
  else if c = ascii 'b' then some 0x08#8
  else if c = ascii 'f' then some 0x0c#8
  else if c = ascii 'n' then some newline
  else if c = ascii 'r' then some 0x0d#8
  else if c = ascii 't' then some tab
  else none

def hexValue (c : Byte) : Option ℕ :=
  if 0x30#8 ≤ c ∧ c ≤ 0x39#8 then some (c.toNat - 0x30)
  else if 0x61#8 ≤ c ∧ c ≤ 0x66#8 then some (c.toNat - 0x57)
  else if 0x41#8 ≤ c ∧ c ≤ 0x46#8 then some (c.toNat - 0x37)
  else none

/-- The four hex digits of a unicode escape, for the ASCII characters. -/
def unescapeUnicode (a b c d : Byte) : Option Byte :=
  match hexValue a, hexValue b, hexValue c, hexValue d with
  | some a, some b, some c, some d =>
    let point := ((a * 16 + b) * 16 + c) * 16 + d
    if point < 128 then some (BitVec.ofNat 8 point) else none
  | _, _, _, _ => none

/-- The rest of a string whose first quote is read. -/
def readString : List Byte → Option (List Byte × List Byte)
  | [] => none
  | c :: rest =>
    if c = quote then some ([], rest)
    else if c = backslash then
      match rest with
      | [] => none
      | e :: rest' =>
        if e = ascii 'u' then
          match rest' with
          | h₁ :: h₂ :: h₃ :: h₄ :: tail =>
            match unescapeUnicode h₁ h₂ h₃ h₄, readString tail with
            | some b, some (s, after) => some (b :: s, after)
            | _, _ => none
          | _ => none
        else
          match unescapeLetter e, readString rest' with
          | some b, some (s, after) => some (b :: s, after)
          | _, _ => none
    else
      match readString rest with
      | some (s, after) => some (c :: s, after)
      | none => none

def isBlank (c : Byte) : Bool := c == space || c == tab || c == newline || c == 0x0d#8

def skipBlanks (s : List Byte) : List Byte := s.dropWhile isBlank

/-- A byte that has to come next, after any blanks. -/
def expect (b : Byte) (s : List Byte) : Option (List Byte) :=
  match skipBlanks s with
  | [] => none
  | c :: rest => if c = b then some rest else none

def readMember (s : List Byte) : Option (Member × List Byte) := do
  let (key, s) ← readString (← expect quote s)
  let s ← expect colon s
  let (value, s) ← readString (← expect quote s)
  return (⟨key, value⟩, s)

/-- The members up to the closing brace; `fuel` bounds their number. -/
def readMembers : ℕ → List Byte → Option (List Member)
  | 0, _ => none
  | fuel + 1, s =>
    match readMember s with
    | none => none
    | some (m, s) =>
      match expect comma s with
      | some s => (readMembers fuel s).map (m :: ·)
      | none => (expect closeBrace s).map (fun _ => [m])

def parse (s : List Byte) : Option (List Member) :=
  match expect openBrace s with
  | none => none
  | some s =>
    match expect closeBrace s with
    | some _ => some []
    | none => readMembers s.length s

/-- A length added up over a list. -/
def total {α : Type*} (f : α → ℕ) : List α → ℕ
  | [] => 0
  | a :: rest => f a + total f rest

theorem total_append {α : Type*} (f : α → ℕ) (as bs : List α) :
    total f (as ++ bs) = total f as + total f bs := by
  induction as with
  | nil => simp [total]
  | cons a rest ih =>
    simp only [List.cons_append, total, ih]
    omega

/-- The bytes that a byte takes between the quotes. -/
def width (b : Byte) : ℕ := (escape b).length

theorem unescapeLetter_escapeLetter {b c : Byte} (h : escapeLetter b = some c) :
    unescapeLetter c = some b ∧ c ≠ ascii 'u' := by
  unfold escapeLetter at h
  split at h
  · next hself =>
    injection h with h
    rcases hself with rfl | rfl
    · subst h
      decide
    · subst h
      decide
  · split_ifs at h with h₁ h₂ h₃ h₄ h₅
    all_goals
      injection h with h
      subst h
      subst b
      decide

theorem unescapeUnicode_control : ∀ b : Byte, b < space →
    unescapeUnicode (ascii '0') (ascii '0') (hexDigit (b >>> 4)) (hexDigit (b &&& 0xf#8)) =
      some b := by
  decide

/-- The three forms of an escaped byte: a letter, a code, or the byte itself. -/
theorem escape_cases (b : Byte) :
    (∃ c, escape b = [backslash, c] ∧ unescapeLetter c = some b ∧ c ≠ ascii 'u') ∨
    (∃ h₁ h₂ h₃ h₄, escape b = [backslash, ascii 'u', h₁, h₂, h₃, h₄] ∧
      unescapeUnicode h₁ h₂ h₃ h₄ = some b) ∨
    (escape b = [b] ∧ b ≠ quote ∧ b ≠ backslash) := by
  cases hletter : escapeLetter b with
  | some c =>
    left
    obtain ⟨hback, hu⟩ := unescapeLetter_escapeLetter hletter
    exact ⟨c, by simp [escape, hletter], hback, hu⟩
  | none =>
    right
    by_cases hcontrol : b < space
    · left
      exact ⟨_, _, _, _, by simp [escape, hletter, hcontrol], unescapeUnicode_control b hcontrol⟩
    · right
      have hquote : b ≠ quote := by
        rintro rfl
        simp [escapeLetter] at hletter
      have hback : b ≠ backslash := by
        rintro rfl
        simp [escapeLetter] at hletter
      exact ⟨by simp [escape, hletter, hcontrol], hquote, hback⟩

theorem escape_length_le (b : Byte) : (escape b).length ≤ 6 := by
  rcases escape_cases b with ⟨c, he, _⟩ | ⟨h₁, h₂, h₃, h₄, he, _⟩ | ⟨he, _⟩ <;> simp [he]

/-- Reading one escaped byte. -/
theorem readString_escape (b : Byte) (rest s after : List Byte)
    (h : readString rest = some (s, after)) :
    readString (escape b ++ rest) = some (b :: s, after) := by
  have hne : backslash ≠ quote := by decide
  rcases escape_cases b with ⟨c, he, hc, hu⟩ | ⟨h₁, h₂, h₃, h₄, he, hc⟩ | ⟨he, hq, hb⟩
  · rw [he]
    show readString (backslash :: c :: rest) = _
    unfold readString
    simp [hne, hu, hc, h]
  · rw [he]
    show readString (backslash :: ascii 'u' :: h₁ :: h₂ :: h₃ :: h₄ :: rest) = _
    unfold readString
    simp [hne, hc, h]
  · rw [he]
    show readString (b :: rest) = _
    unfold readString
    simp [hq, hb, h]

/-- A quoted string is read back, whatever follows it. -/
theorem readString_quoted (s rest : List Byte) :
    readString (s.flatMap escape ++ quote :: rest) = some (s, rest) := by
  induction s with
  | nil =>
    show readString (quote :: rest) = _
    unfold readString
    simp
  | cons b s ih =>
    rw [List.flatMap_cons, List.append_assoc]
    exact readString_escape b _ s rest ih

theorem expect_cons {b : Byte} (rest : List Byte) (hblank : isBlank b = false) :
    expect b (b :: rest) = some rest := by
  simp [expect, skipBlanks, hblank]

theorem expect_blank {b c : Byte} (rest : List Byte) (hblank : isBlank c = true) :
    expect b (c :: rest) = expect b rest := by
  simp [expect, skipBlanks, hblank]

theorem expect_other {b c : Byte} (rest : List Byte) (hblank : isBlank c = false)
    (hne : c ≠ b) : expect b (c :: rest) = none := by
  simp [expect, skipBlanks, hblank, hne]

theorem readMember_printMember (m : Member) (rest : List Byte) :
    readMember (printMember m ++ rest) = some (m, rest) := by
  have htext : printMember m ++ rest = tab :: quote :: (m.key.flatMap escape ++
      quote :: colon :: tab :: quote :: (m.value.flatMap escape ++ quote :: rest)) := by
    simp [printMember, quoted]
  have htab : isBlank tab = true := by decide
  have hquote : isBlank quote = false := by decide
  have hcolon : isBlank colon = false := by decide
  rw [htext, readMember]
  simp only [expect_blank _ htab, expect_cons _ hquote, expect_cons _ hcolon, readString_quoted,
    Option.bind_eq_bind, Option.bind_some, Option.pure_def]

theorem readMembers_blank (fuel : ℕ) {c : Byte} (rest : List Byte) (hblank : isBlank c = true) :
    readMembers fuel (c :: rest) = readMembers fuel rest := by
  cases fuel with
  | zero => rfl
  | succ fuel =>
    have hread : readMember (c :: rest) = readMember rest := by
      simp only [readMember, expect_blank _ hblank]
    rw [readMembers, readMembers, hread]

/-- The members are read back one after the other, by induction on their number. -/
theorem readMembers_printMembers (ms : List Member) (hne : ms ≠ []) (fuel : ℕ)
    (hfuel : ms.length ≤ fuel) :
    readMembers fuel (printMembers ms ++ [closeBrace]) = some ms := by
  have hnewline : isBlank newline = true := by decide
  have hcomma : isBlank comma = false := by decide
  have hbrace : isBlank closeBrace = false := by decide
  have hother : closeBrace ≠ comma := by decide
  induction ms generalizing fuel with
  | nil => exact absurd rfl hne
  | cons m rest ih =>
    cases fuel with
    | zero => simp at hfuel
    | succ fuel =>
      cases rest with
      | nil =>
        have htext : printMembers [m] ++ [closeBrace] =
            printMember m ++ newline :: [closeBrace] := by simp [printMembers]
        rw [htext, readMembers, readMember_printMember]
        simp only [expect_blank _ hnewline, expect_other _ hbrace hother, expect_cons _ hbrace,
          Option.map_some]
      | cons m' rest =>
        have htext : printMembers (m :: m' :: rest) ++ [closeBrace] = printMember m ++
            comma :: newline :: (printMembers (m' :: rest) ++ [closeBrace]) := by
          simp [printMembers]
        have hrest := ih (by simp) fuel (by simpa using hfuel)
        rw [htext, readMembers, readMember_printMember]
        simp only [expect_cons _ hcomma]
        rw [readMembers_blank _ _ hnewline, hrest]
        rfl

theorem length_le_printMembers (ms : List Member) : ms.length ≤ (printMembers ms).length := by
  induction ms with
  | nil => simp
  | cons m rest ih =>
    cases rest with
    | nil => simp [printMembers]
    | cons m' rest =>
      simp only [printMembers, List.length_append, List.length_cons] at ih ⊢
      omega

theorem printMembers_cons (m : Member) (rest : List Member) :
    ∃ tail, printMembers (m :: rest) = tab :: quote :: tail := by
  cases rest with
  | nil => exact ⟨_, rfl⟩
  | cons m' rest => exact ⟨_, rfl⟩

/-- What is printed parses back to the same members. -/
theorem parse_print (ms : List Member) : parse (print ms) = some ms := by
  have hopen : isBlank openBrace = false := by decide
  have hnewline : isBlank newline = true := by decide
  have htab : isBlank tab = true := by decide
  have hquote : isBlank quote = false := by decide
  have hbrace : isBlank closeBrace = false := by decide
  have hother : quote ≠ closeBrace := by decide
  rw [print, parse, List.cons_append, List.cons_append, expect_cons _ hopen]
  simp only [expect_blank _ hnewline]
  cases ms with
  | nil => simp only [printMembers, List.nil_append, expect_cons _ hbrace]
  | cons m rest =>
    obtain ⟨tail, htail⟩ := printMembers_cons m rest
    have hnone : expect closeBrace (printMembers (m :: rest) ++ [closeBrace]) = none := by
      rw [htail, List.cons_append, List.cons_append, expect_blank _ htab,
        expect_other _ hquote hother]
    have hfuel : (m :: rest).length ≤
        (newline :: (printMembers (m :: rest) ++ [closeBrace])).length := by
      have hle := length_le_printMembers (m :: rest)
      simp only [List.length_cons, List.length_append] at hle ⊢
      omega
    simp only [hnone]
    rw [readMembers_blank _ _ hnewline]
    exact readMembers_printMembers (m :: rest) (by simp) _ hfuel

theorem zero_notMem_escape : ∀ b : Byte, 0#8 ∉ escape b := by decide

theorem zero_notMem_quoted (s : List Byte) : 0#8 ∉ quoted s := by
  have hquote : 0#8 ≠ quote := by decide
  simp [quoted, hquote, zero_notMem_escape]

/-- The text holds no terminator, so it is a string of its own length. -/
theorem zero_notMem_print (ms : List Member) : 0#8 ∉ print ms := by
  have hmember (m : Member) : 0#8 ∉ printMember m := by
    have htab : 0#8 ≠ tab := by decide
    have hcolon : 0#8 ≠ colon := by decide
    simp [printMember, zero_notMem_quoted, htab, hcolon]
  have hmembers : 0#8 ∉ printMembers ms := by
    have hcomma : 0#8 ≠ comma := by decide
    have hnewline : 0#8 ≠ newline := by decide
    induction ms with
    | nil => simp [printMembers]
    | cons m rest ih =>
      cases rest with
      | nil => simp [printMembers, hmember, hnewline]
      | cons m' rest => simp [printMembers, hmember, hcomma, hnewline, ih]
  have hopen : 0#8 ≠ openBrace := by decide
  have hclose : 0#8 ≠ closeBrace := by decide
  have hnewline : 0#8 ≠ newline := by decide
  simp [print, hmembers, hopen, hclose, hnewline]

/-- The layout of an object: its text with every value empty. -/
def layout (ms : List Member) : ℕ := (print (ms.map (fun m => ⟨m.key, []⟩))).length

theorem flatMap_escape_length (s : List Byte) :
    (s.flatMap escape).length = total width s := by
  induction s with
  | nil => rfl
  | cons b rest ih => simp [total, width, ih]

theorem printMember_length (m : Member) :
    (printMember m).length = (printMember ⟨m.key, []⟩).length + total width m.value := by
  have hvalue := flatMap_escape_length m.value
  simp only [printMember, quoted, List.length_append, List.length_cons, List.length_nil,
    List.flatMap_nil]
  omega

/-- The text of an object is as long as its layout and its escaped values. -/
theorem print_length (ms : List Member) :
    (print ms).length = layout ms + total (fun m => total width m.value) ms := by
  have hmembers : (printMembers ms).length =
      (printMembers (ms.map (fun m => ⟨m.key, []⟩))).length +
        total (fun m => total width m.value) ms := by
    induction ms with
    | nil => rfl
    | cons m rest ih =>
      have hfirst := printMember_length m
      cases rest with
      | nil =>
        simp only [printMembers, List.map_cons, List.map_nil, total, List.length_append]
        omega
      | cons m' rest =>
        simp only [printMembers, List.map_cons, List.length_append, List.length_cons,
          total] at ih ⊢
        omega
  simp only [print, layout, List.length_cons, List.length_append, List.length_nil]
  omega

end NcsProjects.JsonText
