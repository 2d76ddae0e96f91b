import Mathlib.Data.Int.Notation
import Mathlib.Data.List.TakeWhile
import Mathlib.Data.List.TakeDrop
import NcsProjects.ByteRegions
import NcsProjects.JsonText

/-!
The JSON messages of the two applications. Each create_message renders the time and
the data of the caller, prints an object with cJSON and copies the text into a message
of fixed size. cJSON is a parameter: what is assumed of it is the length of its text,
that the text is a string, and that it parses back. The heap serves every request here;
what becomes of it is the subject of MessageHeap.
-/
namespace NcsProjects.MessageText

open ByteRegions JsonText

/-- Strings end at their terminator, so no value holds one. -/
def Strings (ms : List Member) : Prop := ∀ m ∈ ms, 0#8 ∉ m.value

def blank (m : Member) : Member := ⟨m.key, []⟩

/-- cJSON_Print and cJSON_Parse on objects of strings. A byte of a string is printed as
`width` bytes, six at most, and the rest of the text depends on the keys alone. -/
structure CJson where
  print : List Member → List Byte
  parse : List Byte → Option (List Member)
  width : Byte → ℕ
  width_le : ∀ b, width b ≤ 6
  print_length : ∀ ms, Strings ms → (print ms).length =
    (print (ms.map blank)).length + total (fun m => total width m.value) ms
  print_string : ∀ ms, Strings ms → 0#8 ∉ print ms
  parse_print : ∀ ms, Strings ms → parse (print ms) = some ms

/-- The formatted text that cJSON_Print makes by default. -/
def formatted : CJson where
  print := JsonText.print
  parse := JsonText.parse
  width := JsonText.width
  width_le := escape_length_le
  print_length := fun ms _ => JsonText.print_length ms
  print_string := fun ms _ => zero_notMem_print ms
  parse_print := fun ms _ => JsonText.parse_print ms

def CJson.widths (cj : CJson) (s : List Byte) : ℕ := total cj.width s

theorem CJson.widths_le (cj : CJson) (s : List Byte) : cj.widths s ≤ 6 * s.length := by
  induction s with
  | nil => exact Nat.le_refl 0
  | cons b rest ih =>
    have hb := cj.width_le b
    simp only [widths, total, List.length_cons] at ih ⊢
    omega

/-- The length of the text when every value is empty. -/
def CJson.layout (cj : CJson) (ms : List Member) : ℕ := (cj.print (ms.map blank)).length

theorem CJson.length_eq (cj : CJson) (ms : List Member) (h : Strings ms) :
    (cj.print ms).length = cj.layout ms + total (fun m => cj.widths m.value) ms :=
  cj.print_length ms h

/-- The text of `%lld`. -/
def decimal (z : ℤ) : List Byte :=
  text (if z < 0 then '-' :: Nat.toDigits 10 z.natAbs else Nat.toDigits 10 z.natAbs)

/-- snprintf(time_str, 16, ..): the terminator takes the last place. -/
def timeStr (timestamp : BitVec 64) : List Byte := (decimal timestamp.toInt).take 15

/-- The string that starts at the front of a stretch of memory, if it ends there. -/
def cString (memory : List Byte) : Option (List Byte) :=
  if 0#8 ∈ memory then some (memory.takeWhile (· ≠ 0#8)) else none

/-- struct app_message with `char data[capacity]`: the array comes first, and the size_t
`len` is the word right behind it. -/
structure AppMessage (capacity : ℕ) where
  memory : Region Byte

section

variable {capacity : ℕ}

def AppMessage.len (m : AppMessage capacity) : ℕ := wordAt m.memory capacity

def AppMessage.setLen (m : AppMessage capacity) (n : ℕ) : AppMessage capacity :=
  ⟨write m.memory capacity (wordBytes n)⟩

/-- strcpy to `data`, which has no bound. -/
def AppMessage.strcpy (m : AppMessage capacity) (s : List Byte) : AppMessage capacity :=
  ⟨write m.memory 0 (s ++ [0#8])⟩

/-- How a text gets into a message: first its length, then its bytes. -/
def AppMessage.store (m : AppMessage capacity) (s : List Byte) : AppMessage capacity :=
  (m.setLen s.length).strcpy s

end

/-- What a call leaves: the message, the local copy of the data, cut to the length that
the caller gave and not used again, and the number of bytes of the data it has read. -/
structure Built (capacity : ℕ) where
  destination : AppMessage capacity
  dataStr : List Byte
  read : ℕ

def typeKey : List Byte := text ['t', 'y', 'p', 'e']
def timestampKey : List Byte := text ['t', 'i', 'm', 'e', 's', 't', 'a', 'm', 'p']
def dataKey : List Byte := text ['d', 'a', 't', 'a']

/-- The members of a message, `typed` before the two that both applications send. -/
def members (typed : List Member) (timestamp : BitVec 64) (s : List Byte) : List Member :=
  typed ++ [⟨timestampKey, timeStr timestamp⟩, ⟨dataKey, s⟩]

/-- The common body of the two functions; none stands for reads that run out of the
memory that `data` points to. -/
def buildMessage {capacity : ℕ} (cj : CJson) (typed : List Member)
    (destination : AppMessage capacity) (data : List Byte) (len : ℕ) (timestamp : BitVec 64) :
    Option (Built capacity) :=
  match cString data with
  | none => none
  | some s =>
    let printed := cj.print (members typed timestamp s)
    some {
      destination := (destination.setLen printed.length).strcpy printed
      dataStr := s.take (len - 1)
      read := s.length + 1 }

namespace MqttWork

/-- CONFIG_MQTT_MESSAGE_BUFFER_SIZE -/
def messageBufferSize : ℕ := 500

inductive AppMsgType
  | sensorAlarm
  | sensorSample
  deriving DecidableEq

def AppMsgType.name : AppMsgType → List Byte
  | .sensorAlarm => text ['a', 'l', 'a', 'r', 'm']
  | .sensorSample =>
    text ['p', 'e', 'r', 'i', 'o', 'd', 'i', 'c', ' ', 's', 'a', 'm', 'p', 'l', 'e']

def typed (type : AppMsgType) : List Member := [⟨typeKey, type.name⟩]

def createMessage (cj : CJson) (destination : AppMessage messageBufferSize) (type : AppMsgType)
    (data : List Byte) (len : ℕ) (timestamp : BitVec 64) : Option (Built messageBufferSize) :=
  buildMessage cj (typed type) destination data len timestamp

end MqttWork

namespace Gcloud

def maxMessageSize : ℕ := 256

def createMessage (cj : CJson) (destination : AppMessage maxMessageSize) (data : List Byte)
    (len : ℕ) (timestamp : BitVec 64) : Option (Built maxMessageSize) :=
  buildMessage cj [] destination data len timestamp

end Gcloud

theorem ascii_ne_zero {c : Char} (h : c.isDigit) : ascii c ≠ 0#8 := by
  simp only [Char.isDigit, Bool.and_eq_true, decide_eq_true_eq, UInt32.le_iff_toNat_le] at h
  have hlow : 48 ≤ c.toNat := h.1
  have hhigh : c.toNat ≤ 57 := h.2
  intro hzero
  have hmod := congrArg BitVec.toNat hzero
  simp [ascii] at hmod
  omega

theorem zero_notMem_decimal (z : ℤ) : 0#8 ∉ decimal z := by
  have hdigit (c : Char) (hc : c ∈ Nat.toDigits 10 z.natAbs) : ascii c ≠ 0#8 :=
    ascii_ne_zero (Nat.isDigit_of_mem_toDigits (by decide) (by decide) hc)
  have hdigits : 0#8 ∉ text (Nat.toDigits 10 z.natAbs) := by
    intro hmem
    obtain ⟨c, hc, hzero⟩ := List.mem_map.mp hmem
    exact hdigit c hc hzero
  have hminus : 0#8 ≠ ascii '-' := by decide
  unfold decimal
  split
  · show 0#8 ∉ ascii '-' :: text (Nat.toDigits 10 z.natAbs)
    simp [hminus, hdigits]
  · exact hdigits

/-- Fourteen digits below zero and fifteen above. -/
abbrev ShortTime (z : ℤ) : Prop := -100000000000000 < z ∧ z < 1000000000000000

/-- These are the times that time_str has room for. -/
theorem decimal_length_le_iff (z : ℤ) : (decimal z).length ≤ 15 ↔ ShortTime z := by
  unfold decimal ShortTime
  split
  · next hneg =>
    have hdigits : (Nat.toDigits 10 z.natAbs).length ≤ 14 ↔ z.natAbs < 10 ^ 14 :=
      Nat.length_toDigits_le_iff (by decide) (by decide)
    simp only [text, List.length_map, List.length_cons, Nat.reduceLeDiff] at hdigits ⊢
    omega
  · next hpos =>
    have hdigits : (Nat.toDigits 10 z.natAbs).length ≤ 15 ↔ z.natAbs < 10 ^ 15 :=
      Nat.length_toDigits_le_iff (by decide) (by decide)
    simp only [text, List.length_map] at hdigits ⊢
    omega

theorem timeStr_eq_iff (timestamp : BitVec 64) :
    timeStr timestamp = decimal timestamp.toInt ↔ ShortTime timestamp.toInt := by
  rw [timeStr, List.take_eq_self_iff]
  exact decimal_length_le_iff timestamp.toInt

theorem zero_notMem_timeStr (timestamp : BitVec 64) : 0#8 ∉ timeStr timestamp := by
  intro hmem
  exact zero_notMem_decimal timestamp.toInt (List.mem_of_mem_take hmem)

theorem cString_some {memory s : List Byte} (h : cString memory = some s) :
    s = memory.takeWhile (· ≠ 0#8) ∧ 0#8 ∉ s := by
  unfold cString at h
  split at h
  · injection h with h
    subst h
    refine ⟨rfl, ?_⟩
    intro hmem
    have hne := List.mem_takeWhile_imp hmem
    simp at hne
  · cases h

/-- The members of a message are strings where its type is one. -/
theorem strings_members {typed : List Member} (timestamp : BitVec 64) {s : List Byte}
    (htyped : Strings typed) (hs : 0#8 ∉ s) : Strings (members typed timestamp s) := by
  intro m hm
  rcases List.mem_append.mp hm with hm | hm
  · exact htyped m hm
  · rcases List.mem_cons.mp hm with rfl | hm
    · exact zero_notMem_timeStr timestamp
    · rw [List.mem_singleton.mp hm]
      exact hs

section

variable {capacity : ℕ}

/-- strcpy leaves the string where it was copied to, whatever lay there. -/
theorem slice_strcpy (m : AppMessage capacity) (s : List Byte) :
    slice (m.strcpy s).memory 0 s.length = s ∧ (m.strcpy s).memory s.length = 0#8 := by
  constructor
  · have hwrite := slice_write m.memory 0 (s ++ [0#8])
    rw [List.length_append, slice_add] at hwrite
    exact (List.append_inj hwrite (by simp)).1
  · have hlast : s.length < (s ++ [0#8]).length := by simp
    have hwrite := write_at m.memory 0 (s ++ [0#8]) hlast
    simpa [AppMessage.strcpy] using hwrite

/-- A string that stays inside the array leaves the length in front of it alone. -/
theorem len_store (m : AppMessage capacity) {s : List Byte} (hshort : s.length < capacity)
    (hword : capacity ≤ 4294967296) : (m.store s).len = s.length := by
  have hinside : 0 + (s ++ [0#8]).length ≤ capacity := by
    simp only [List.length_append, List.length_singleton]
    omega
  calc (m.store s).len = wordAt (write m.memory capacity (wordBytes s.length)) capacity :=
        wordAt_write_before _ _ _ hinside
    _ = s.length := wordAt_write _ _ (by omega)

theorem store_behind (m : AppMessage capacity) {s : List Byte} (hshort : s.length < capacity)
    {i : ℕ} (hi : capacity + 4 ≤ i) : (m.store s).memory i = m.memory i := by
  have hinside : 0 + (s ++ [0#8]).length ≤ i := by
    simp only [List.length_append, List.length_singleton]
    omega
  have hcopied : (m.store s).memory i = (m.setLen s.length).memory i := write_after _ _ _ hinside
  rw [hcopied]
  exact write_after _ _ _ hi

end

/-- A data string of the caller, with its terminator and what lies behind it. -/
structure CString where
  bytes : List Byte
  string : 0#8 ∉ bytes

def CString.memory (s : CString) (behind : List Byte) : List Byte := s.bytes ++ 0#8 :: behind

theorem cString_memory (s : CString) (behind : List Byte) :
    cString (s.memory behind) = some s.bytes := by
  have hall : ∀ b ∈ s.bytes, (decide (b ≠ 0#8)) = true := by
    intro b hb
    apply decide_eq_true
    rintro rfl
    exact s.string hb
  have hwhile : (s.memory behind).takeWhile (· ≠ 0#8) = s.bytes := by
    rw [CString.memory, List.takeWhile_append_of_pos hall]
    simp
  have hmem : 0#8 ∈ s.memory behind := by simp [CString.memory]
  rw [cString, if_pos hmem, hwhile]

/-- The text with its terminator lies inside the array, nothing behind the message is
written, and `len` is the length of the string stored there. -/
structure Fits {capacity : ℕ} (before : AppMessage capacity) (b : Built capacity) : Prop where
  bound : b.destination.len < capacity
  string : 0#8 ∉ slice b.destination.memory 0 b.destination.len
  terminated : b.destination.memory b.destination.len = 0#8
  inside : ∀ i, capacity + 4 ≤ i → b.destination.memory i = before.memory i

section

variable {capacity : ℕ} (cj : CJson) {typed : List Member} (destination : AppMessage capacity)

theorem buildMessage_some {data s : List Byte} (hs : cString data = some s) (len : ℕ)
    (timestamp : BitVec 64) : buildMessage cj typed destination data len timestamp =
      some ⟨destination.store (cj.print (members typed timestamp s)), s.take (len - 1),
        s.length + 1⟩ := by
  simp only [buildMessage, hs, AppMessage.store]

variable {cj destination}

/-- A text that is longer than the array has a byte of its own where `len` is less. -/
theorem Fits.short {b : Built capacity} {s : List Byte} (h : Fits destination b)
    (hb : b.destination = destination.store s) (hs : 0#8 ∉ s) : s.length < capacity := by
  by_contra hlong
  have hlt : b.destination.len < s.length := Nat.lt_of_lt_of_le h.bound (not_lt.mp hlong)
  have hbyte : b.destination.memory b.destination.len = s[b.destination.len] := by
    have hin : b.destination.len < (s ++ [0#8]).length := by simp; omega
    have hwrite := write_at (destination.setLen s.length).memory 0 (s ++ [0#8]) hin
    rw [Nat.zero_add, List.getElem_append_left hlt] at hwrite
    rw [← hwrite]
    exact congrFun (congrArg AppMessage.memory hb) _
  rw [h.terminated] at hbyte
  exact hs (hbyte ▸ List.getElem_mem hlt)

theorem fits_of_short {b : Built capacity} {s : List Byte}
    (hb : b.destination = destination.store s) (hs : 0#8 ∉ s) (hshort : s.length < capacity)
    (hword : capacity ≤ 4294967296) : Fits destination b := by
  have hlen : b.destination.len = s.length := by rw [hb, len_store destination hshort hword]
  obtain ⟨hslice, hzero⟩ := slice_strcpy (destination.setLen s.length) s
  refine ⟨by rw [hlen]; exact hshort, ?_, ?_, ?_⟩
  · rw [hlen, hb, AppMessage.store, hslice]
    exact hs
  · rw [hlen, hb]
    exact hzero
  · intro i hi
    rw [hb]
    exact store_behind destination hshort hi

variable (cj destination)

/-- Both functions: the message fits when the layout and the escaped values do. -/
theorem buildMessage_fits (htyped : Strings typed) (hword : capacity ≤ 4294967296)
    (data : CString) (behind : List Byte) (len : ℕ) (timestamp : BitVec 64) :
    (∃ b, buildMessage cj typed destination (data.memory behind) len timestamp = some b ∧
      Fits destination b) ↔
    cj.layout (members typed timestamp []) + total (fun m => cj.widths m.value) typed +
      cj.widths (timeStr timestamp) + cj.widths data.bytes < capacity := by
  have hstrings := strings_members timestamp htyped data.string
  have hlength := cj.length_eq _ hstrings
  have hplain := cj.print_string _ hstrings
  have hsum : (cj.print (members typed timestamp data.bytes)).length =
      cj.layout (members typed timestamp []) + total (fun m => cj.widths m.value) typed +
        cj.widths (timeStr timestamp) + cj.widths data.bytes := by
    have hlayout : cj.layout (members typed timestamp data.bytes) =
        cj.layout (members typed timestamp []) := by
      simp [CJson.layout, members, blank]
    rw [hlength, hlayout]
    simp [members, total_append, total, Nat.add_assoc]
  rw [← hsum, buildMessage_some cj destination (cString_memory data behind)]
  constructor
  · rintro ⟨b, hb, hfits⟩
    injection hb with hb
    subst hb
    exact hfits.short rfl hplain
  · intro hshort
    exact ⟨_, rfl, fits_of_short rfl hplain hshort hword⟩

end

theorem strings_typed (type : MqttWork.AppMsgType) : Strings (MqttWork.typed type) := by
  intro m hm
  rw [List.mem_singleton.mp hm]
  cases type <;> decide

theorem strings_nil : Strings [] := by
  intro m hm
  cases hm

/-- When the messages of the two applications fit. -/
theorem createMessage_fits_iff (cj : CJson) (data : CString) (behind : List Byte) (len : ℕ)
    (timestamp : BitVec 64) :
    (∀ destination type, (∃ b, MqttWork.createMessage cj destination type (data.memory behind) len
        timestamp = some b ∧ Fits destination b) ↔
      cj.layout (members (MqttWork.typed type) timestamp []) + cj.widths type.name +
        cj.widths (timeStr timestamp) + cj.widths data.bytes < MqttWork.messageBufferSize) ∧
    (∀ destination, (∃ b, Gcloud.createMessage cj destination (data.memory behind) len
        timestamp = some b ∧ Fits destination b) ↔
      cj.layout (members [] timestamp []) + cj.widths (timeStr timestamp) +
        cj.widths data.bytes < Gcloud.maxMessageSize) := by
  constructor
  · intro destination type
    have hfits := buildMessage_fits cj destination (strings_typed type) (by decide) data behind
      len timestamp
    simpa [MqttWork.createMessage, MqttWork.typed, total] using hfits
  · intro destination
    have hfits := buildMessage_fits cj destination strings_nil (by decide) data behind len
      timestamp
    simpa [Gcloud.createMessage, total] using hfits

/-- Fifty control characters: six bytes each in the text. -/
def controls : CString := ⟨List.replicate 50 1#8, by decide⟩

theorem createMessage_overruns :
    ¬ ∃ b, Gcloud.createMessage formatted ⟨fun _ => 0#8⟩ (controls.memory []) 50 0#64 = some b ∧
      Fits ⟨fun _ => 0#8⟩ b := by
  have hfits := buildMessage_fits formatted (⟨fun _ => 0#8⟩ : AppMessage Gcloud.maxMessageSize)
    strings_nil (by decide) controls [] 50 0#64
  have hwide : Gcloud.maxMessageSize ≤ formatted.widths controls.bytes := by decide
  intro hsome
  have hlt := hfits.mp hsome
  omega

/-- The text of 334 bytes lies over the length that was stored, which it changes. -/
example : (Gcloud.createMessage formatted ⟨fun _ => 0#8⟩ (controls.memory []) 50 0#64).map
    (fun b => b.destination.len) = some 1546727472 := by decide +kernel

/-- The layouts of the text that cJSON prints. -/
example : formatted.layout (members (MqttWork.typed .sensorAlarm) 0#64 []) = 46 ∧
    formatted.layout (members [] 0#64 []) = 33 := by decide

def lookup (key : List Byte) (object : List Member) : Option (List Byte) :=
  (object.find? (fun m => m.key = key)).map Member.value

/-- The message says what its function was given: the declared bytes of the data up to a
terminator, the whole time, and what `named` asks of the object. No byte behind the
declared ones is looked at. -/
structure Says {capacity : ℕ} (cj : CJson) (data : List Byte) (timestamp : BitVec 64)
    (named : List Member → Prop) (b : Built capacity) : Prop where
  parsed : ∃ object, cj.parse (slice b.destination.memory 0 b.destination.len) = some object ∧
    lookup timestampKey object = some (decimal timestamp.toInt) ∧
    lookup dataKey object = some (data.takeWhile (· ≠ 0#8)) ∧ named object
  read : b.read ≤ data.length

/-- The type string is that of `type` and of no other type. -/
def MqttWork.Named (type : MqttWork.AppMsgType) (object : List Member) : Prop :=
  ∀ other : MqttWork.AppMsgType, lookup typeKey object = some other.name ↔ other = type

theorem lookup_members {typed : List Member}
    (htyped : ∀ m ∈ typed, m.key ≠ timestampKey ∧ m.key ≠ dataKey) (timestamp : BitVec 64)
    (s : List Byte) :
    lookup timestampKey (members typed timestamp s) = some (timeStr timestamp) ∧
      lookup dataKey (members typed timestamp s) = some s := by
  have hnone (key : List Byte) (hkey : ∀ m ∈ typed, m.key ≠ key) :
      typed.find? (fun m => m.key = key) = none := by
    apply List.find?_eq_none.mpr
    intro m hm
    simpa using hkey m hm
  have htime := hnone timestampKey (fun m hm => (htyped m hm).1)
  have hdata := hnone dataKey (fun m hm => (htyped m hm).2)
  have hdiff : timestampKey ≠ dataKey := by decide
  constructor
  · simp [lookup, members, List.find?_append, htime]
  · simp [lookup, members, List.find?_append, hdata, hdiff]

/-- A string ends within the declared bytes exactly when they hold a terminator. -/
theorem takeWhile_within_iff (declared behind : List Byte) :
    ((declared ++ behind).takeWhile (· ≠ 0#8)).length + 1 ≤ declared.length ↔
      0#8 ∈ declared := by
  induction declared with
  | nil => simp
  | cons b rest ih =>
    by_cases hb : b = 0#8
    · simp [hb]
    · have hne : 0#8 ≠ b := Ne.symm hb
      rw [List.mem_cons, ← ih]
      simp [hb, hne]

/-- Then nothing behind them belongs to it. -/
theorem takeWhile_within {declared : List Byte} (h : 0#8 ∈ declared) (behind : List Byte) :
    (declared ++ behind).takeWhile (· ≠ 0#8) = declared.takeWhile (· ≠ 0#8) := by
  induction declared with
  | nil => simp at h
  | cons b rest ih =>
    by_cases hb : b = 0#8
    · simp [hb]
    · have hrest : 0#8 ∈ rest := by simpa [Ne.symm hb] using h
      simpa [hb] using ih hrest

theorem buildMessage_says {capacity : ℕ} (cj : CJson) {typed : List Member}
    (hstrings : Strings typed) (hkeys : ∀ m ∈ typed, m.key ≠ timestampKey ∧ m.key ≠ dataKey)
    (hword : capacity ≤ 4294967296) (destination : AppMessage capacity)
    (declared behind : List Byte) (timestamp : BitVec 64) {named : List Member → Prop}
    (hnamed : ∀ s, named (members typed timestamp s)) {b : Built capacity}
    (h : buildMessage cj typed destination (declared ++ behind) declared.length timestamp =
      some b) (hfits : Fits destination b) :
    Says cj declared timestamp named b ↔
      ShortTime timestamp.toInt ∧ 0#8 ∈ declared := by
  unfold buildMessage at h
  cases hstring : cString (declared ++ behind) with
  | none => simp [hstring] at h
  | some s =>
    simp only [hstring, Option.some.injEq] at h
    obtain ⟨hs, hplain⟩ := cString_some hstring
    have hall := strings_members timestamp hstrings hplain
    have hplace : b.destination = destination.store (cj.print (members typed timestamp s)) := by
      rw [← h]
      rfl
    have hshort := hfits.short hplace (cj.print_string _ hall)
    have hstored : slice b.destination.memory 0 b.destination.len =
        cj.print (members typed timestamp s) := by
      rw [hplace, len_store destination hshort hword]
      exact (slice_strcpy _ _).1
    have hread : b.read = s.length + 1 := by rw [← h]
    obtain ⟨htime, hdata⟩ := lookup_members hkeys timestamp s
    constructor
    · intro hsays
      obtain ⟨object, hparse, htimestamp, _⟩ := hsays.parsed
      rw [hstored, cj.parse_print _ hall] at hparse
      injection hparse with hobject
      rw [← hobject, htime] at htimestamp
      injection htimestamp with htimestamp
      refine ⟨(timeStr_eq_iff timestamp).mp htimestamp, ?_⟩
      have hwithin := hsays.read
      rw [hread, hs] at hwithin
      exact (takeWhile_within_iff declared behind).mp hwithin
    · rintro ⟨hrange, hmem⟩
      have hdeclared : s = declared.takeWhile (· ≠ 0#8) := by
        rw [hs, takeWhile_within hmem]
      refine ⟨⟨members typed timestamp s, ?_, ?_, ?_, hnamed s⟩, ?_⟩
      · rw [hstored, cj.parse_print _ hall]
      · rw [htime, (timeStr_eq_iff timestamp).mpr hrange]
      · rw [hdata, hdeclared]
      · rw [hread, hs]
        exact (takeWhile_within_iff declared behind).mpr hmem

theorem named_members (type : MqttWork.AppMsgType) (timestamp : BitVec 64) (s : List Byte) :
    MqttWork.Named type (members (MqttWork.typed type) timestamp s) := by
  intro other
  have hname : lookup typeKey (members (MqttWork.typed type) timestamp s) = some type.name := by
    simp [lookup, members, MqttWork.typed]
  rw [hname]
  cases type <;> cases other <;> decide

/-- A message that fits says what it was given exactly when the time has room and the
data end within the bytes that the caller declares. -/
theorem createMessage_says_iff (cj : CJson) (declared behind : List Byte)
    (timestamp : BitVec 64) :
    (∀ destination type b, MqttWork.createMessage cj destination type (declared ++ behind)
        declared.length timestamp = some b → Fits destination b →
      (Says cj declared timestamp (MqttWork.Named type) b ↔
        ShortTime timestamp.toInt ∧ 0#8 ∈ declared)) ∧
    (∀ destination b, Gcloud.createMessage cj destination (declared ++ behind) declared.length
        timestamp = some b → Fits destination b →
      (Says cj declared timestamp (fun _ => True) b ↔
        ShortTime timestamp.toInt ∧ 0#8 ∈ declared)) := by
  constructor
  · intro destination type b hbuilt hfits
    apply buildMessage_says cj (strings_typed type) _ (by decide) destination declared behind
      timestamp (named_members type timestamp) hbuilt hfits
    intro m hm
    rw [List.mem_singleton.mp hm]
    show typeKey ≠ timestampKey ∧ typeKey ≠ dataKey
    decide
  · intro destination b hbuilt hfits
    apply buildMessage_says cj strings_nil _ (by decide) destination declared behind timestamp
      (fun _ => trivial) hbuilt hfits
    intro m hm
    cases hm

/-- An alarm whose data end within the two bytes that are declared. -/
theorem createMessage_says_alarm :
    ∃ b, MqttWork.createMessage formatted ⟨fun _ => 0#8⟩ .sensorAlarm [0x78#8, 0#8] 2 5#64 =
        some b ∧ Fits ⟨fun _ => 0#8⟩ b ∧
      Says formatted [0x78#8, 0#8] 5#64 (MqttWork.Named .sensorAlarm) b := by
  obtain ⟨b, hb, hfits⟩ := (buildMessage_fits formatted (⟨fun _ => 0#8⟩ : AppMessage 500)
    (strings_typed .sensorAlarm) (by decide) ⟨[0x78#8], by decide⟩ [] 2 5#64).mpr (by decide)
  have hiff := (createMessage_says_iff formatted [0x78#8, 0#8] [] 5#64).1 ⟨fun _ => 0#8⟩
    .sensorAlarm b hb hfits
  exact ⟨b, hb, hfits, hiff.mpr (by decide)⟩

/-- One byte is declared, and the text carries the one behind it as well. -/
theorem createMessage_says_more :
    ∃ b, MqttWork.createMessage formatted ⟨fun _ => 0#8⟩ .sensorAlarm
        [0x78#8, 0x79#8, 0#8] 1 5#64 = some b ∧ Fits ⟨fun _ => 0#8⟩ b ∧
      ¬ Says formatted [0x78#8] 5#64 (MqttWork.Named .sensorAlarm) b := by
  obtain ⟨b, hb, hfits⟩ := (buildMessage_fits formatted (⟨fun _ => 0#8⟩ : AppMessage 500)
    (strings_typed .sensorAlarm) (by decide) ⟨[0x78#8, 0x79#8], by decide⟩ [] 1 5#64).mpr
    (by decide)
  have hiff := buildMessage_says formatted (strings_typed .sensorAlarm) (by decide) (by decide)
    (⟨fun _ => 0#8⟩ : AppMessage 500) [0x78#8] [0x79#8, 0#8] 5#64 (named_members .sensorAlarm 5#64)
    hb hfits
  refine ⟨b, hb, hfits, ?_⟩
  intro hsays
  exact absurd (hiff.mp hsays).2 (by decide)

end NcsProjects.MessageText
