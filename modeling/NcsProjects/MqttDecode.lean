import Mathlib.Data.List.GetD
import Mathlib.Tactic.Ring
import NcsProjects.MqttPackets
import NcsProjects.StreamFraming

/-!
The packets that the client library reads, as zephyr.lst has mqtt_decoder.c compiled. A
decoder works on the bytes between cur and end of a buffer; what it makes of them depends
on these bytes only. The first bytes of a packet tell how many more have to be there
before it can be decoded, which makes a framing of the stream.
-/
namespace NcsProjects.MqttDecode

open ByteRegions CStrings MqttPackets StreamFraming WireFormats

variable {α : Type}

def eagain : ℤ := -11

def unpackUint8 (b : BufCtx) : Except ℤ (Byte × BufCtx) :=
  if b.room < 1 then .error einval else .ok (b.mem b.cur, { b with cur := b.cur + 1 })

def unpackUint16 (b : BufCtx) : Except ℤ (BitVec 16 × BufCtx) :=
  if b.room < 2 then .error einval
  else .ok (uint16Of (b.mem b.cur) (b.mem (b.cur + 1)), { b with cur := b.cur + 2 })

def unpackUtf8Str (b : BufCtx) : Except ℤ (List Byte × BufCtx) := do
  let (len, b) ← unpackUint16 b
  if b.room < len.toNat then .error einval
  else .ok (slice b.mem b.cur len.toNat, { b with cur := b.cur + len.toNat })

/-- MQTT_MAX_LENGTH_BYTES -/
def maxLengthBytes : ℕ := 4

/-- The loop of packet_length_decode, with the groups that it may still read. -/
def packetLengthDecode : ℕ → ℕ → ℕ → BufCtx → Except ℤ ℕ × BufCtx
  | 0, _, _, b => (.error einval, b)
  | groups + 1, shift, length, b =>
    if b.stop ≤ b.cur then (.error eagain, b)
    else
      let byte := b.mem b.cur
      let length := length + (byte &&& 0x7f#8).toNat <<< shift
      let b := { b with cur := b.cur + 1 }
      if byte &&& 0x80#8 ≠ 0#8 then packetLengthDecode groups (shift + 7) length b
      else if maxPayloadSize < length then (.error einval, b)
      else (.ok length, b)

/-- The type with its flags, and the length of the rest of the packet. -/
def fixedHeaderDecode (b : BufCtx) : Except ℤ (Byte × ℕ) × BufCtx :=
  match unpackUint8 b with
  | .error e => (.error e, b)
  | .ok r =>
    let decoded := packetLengthDecode maxLengthBytes 0 0 r.2
    (decoded.1.map (r.1, ·), decoded.2)

/-- mqtt_connack_param; the flag is written for version 3.1.1 only. -/
structure Connack where
  sessionPresent : Option Bool
  returnCode : Byte
  deriving DecidableEq

def connectAckDecode (protocolVersion : Byte) (b : BufCtx) : Except ℤ Connack := do
  let (flags, b) ← unpackUint8 b
  let (retCode, _) ← unpackUint8 b
  pure ⟨if protocolVersion = version311 then some (flags.getLsbD 0) else none, retCode⟩

/-- mqtt_publish_param as it is received; the id is written for a message with QoS only,
and the payload is still to be read. -/
structure Received where
  topic : List Byte
  qos : Byte
  payloadLen : ℕ
  messageId : Option (BitVec 16)
  dup : Bool
  retain : Bool
  deriving DecidableEq

/-- The flag for a duplicate is one bit wide and is given a mask with bit 3. -/
def publishDecode (flags : Byte) (varLength : ℕ) (b : BufCtx) : Except ℤ Received := do
  let dup := (flags &&& 0x08#8).getLsbD 0
  let retain := (flags &&& 0x01#8).getLsbD 0
  let qos := (flags &&& 0x06#8) >>> 1
  let (topic, b) ← unpackUtf8Str b
  if 0#8 < qos then
    let (messageId, _) ← unpackUint16 b
    publication topic qos (some messageId) dup retain (topic.length + 2 + 2)
  else
    publication topic qos none dup retain (topic.length + 2)
where
  publication topic qos messageId dup retain varHeaderLength :=
    if varLength < varHeaderLength then .error einval
    else .ok ⟨topic, qos, varLength - varHeaderLength, messageId, dup, retain⟩

/-- publish_ack_decode, publish_receive_decode, publish_release_decode,
publish_complete_decode and unsubscribe_ack_decode. -/
def messageIdDecode (b : BufCtx) : Except ℤ (BitVec 16) := (unpackUint16 b).map Prod.fst

/-- The packet id and the return codes, which are all the rest. -/
def subscribeAckDecode (b : BufCtx) : Except ℤ (BitVec 16 × List Byte) :=
  (unpackUint16 b).map fun r => (r.1, r.2.bytes)

/-! The same on the bytes themselves. -/

/-- A length of at most so many groups, and how many it has. -/
def lengthOf : ℕ → List Byte → Except ℤ (ℕ × ℕ)
  | 0, _ => .error einval
  | _ + 1, [] => .error eagain
  | groups + 1, b :: rest =>
    if b.toNat < 128 then .ok (b.toNat, 1)
    else (lengthOf groups rest).map fun r => (b.toNat - 128 + 128 * r.1, r.2 + 1)

structure Header where
  type : Byte
  length : ℕ
  size : ℕ
  deriving DecidableEq

def headerOf : List Byte → Except ℤ Header
  | [] => .error einval
  | type :: rest => (lengthOf maxLengthBytes rest).map fun r => ⟨type, r.1, r.2 + 1⟩

def connackOf (protocolVersion : Byte) : List Byte → Except ℤ Connack
  | flags :: retCode :: _ =>
    .ok ⟨if protocolVersion = version311 then some (flags.getLsbD 0) else none, retCode⟩
  | _ => .error einval

def messageIdOf (bytes : List Byte) : Except ℤ (BitVec 16) :=
  match Reader.uint16 bytes with
  | some (id, _) => .ok id
  | none => .error einval

def subscribeAckOf (bytes : List Byte) : Except ℤ (BitVec 16 × List Byte) :=
  match Reader.uint16 bytes with
  | some (id, codes) => .ok (id, codes)
  | none => .error einval

def publishOf (flags : Byte) (varLength : ℕ) (bytes : List Byte) : Except ℤ Received :=
  let dup := (flags &&& 0x08#8).getLsbD 0
  let retain := (flags &&& 0x01#8).getLsbD 0
  let qos := (flags &&& 0x06#8) >>> 1
  match Reader.string bytes with
  | none => .error einval
  | some (topic, rest) =>
    if 0#8 < qos then
      match Reader.uint16 rest with
      | none => .error einval
      | some (id, _) =>
        publishDecode.publication varLength topic qos (some id) dup retain (topic.length + 2 + 2)
    else publishDecode.publication varLength topic qos none dup retain (topic.length + 2)

theorem low_bits (b : Byte) : (b &&& 0x7f#8).toNat = b.toNat % 128 := by
  rw [BitVec.toNat_and]
  exact Nat.and_two_pow_sub_one_eq_mod b.toNat 7

theorem continued_iff : ∀ b : Byte, b &&& 0x80#8 ≠ 0#8 ↔ ¬ b.toNat < 128 := by
  decide

theorem bytes_nil {b : BufCtx} (h : b.stop ≤ b.cur) : b.bytes = [] := by
  rw [BufCtx.bytes, Nat.sub_eq_zero_of_le h, slice_zero]

theorem bytes_cons {b : BufCtx} (h : b.cur < b.stop) :
    b.bytes = b.mem b.cur :: BufCtx.bytes { b with cur := b.cur + 1 } := by
  have hlen : b.stop - b.cur = 1 + (b.stop - (b.cur + 1)) := by omega
  rw [BufCtx.bytes, hlen, slice_add]
  rfl

theorem bytes_drop (b : BufCtx) (n : ℕ) :
    BufCtx.bytes { b with cur := b.cur + n } = b.bytes.drop n := by
  by_cases h : b.cur + n ≤ b.stop
  · have hlen : b.stop - b.cur = n + (b.stop - (b.cur + n)) := by omega
    rw [BufCtx.bytes, BufCtx.bytes, hlen, slice_add, List.drop_append_of_le_length (by simp),
      List.drop_eq_nil_of_le (by simp), List.nil_append]
  · rw [bytes_nil (by simp only; omega), List.drop_eq_nil_of_le]
    simp only [BufCtx.bytes, slice_length]
    omega

theorem bytes_take {b : BufCtx} {n : ℕ} (h : b.cur + n ≤ b.stop) :
    slice b.mem b.cur n = b.bytes.take n := by
  have hlen : b.stop - b.cur = n + (b.stop - (b.cur + n)) := by omega
  rw [BufCtx.bytes, hlen, slice_add, List.take_append_of_le_length (by simp),
    List.take_of_length_le (by simp)]

/-- The reader in the code and the reader of the bytes agree, on the value and on the rest. -/
def Unpacks (unpack : BufCtx → Except ℤ (α × BufCtx)) (read : Reader α) : Prop :=
  ∀ b : BufCtx, b.cur ≤ b.stop → b.stop < 2 ^ 32 →
    match read b.bytes with
    | none => unpack b = .error einval
    | some (a, rest) => ∃ b', unpack b = .ok (a, b') ∧ b'.bytes = rest ∧ b'.cur ≤ b'.stop ∧
        b'.stop < 2 ^ 32

theorem unpacks_uint8 : Unpacks unpackUint8 Reader.byte := by
  intro b hle hlt
  by_cases hend : b.stop ≤ b.cur
  · have hroom : b.room < 1 := by
      rw [b.room_eq hle hlt]
      omega
    rw [bytes_nil hend]
    simp only [Reader.byte, unpackUint8, if_pos hroom]
  · have hroom : ¬ b.room < 1 := by
      rw [b.room_eq hle hlt]
      omega
    rw [bytes_cons (by omega)]
    simp only [Reader.byte, unpackUint8, if_neg hroom]
    exact ⟨_, rfl, rfl, by simp only; omega, hlt⟩

theorem unpacks_uint16 : Unpacks unpackUint16 Reader.uint16 := by
  intro b hle hlt
  have hroom := b.room_eq hle hlt
  by_cases hend : b.stop ≤ b.cur
  · have hshort : b.room < 2 := by omega
    rw [bytes_nil hend]
    simp only [Reader.uint16, unpackUint16, if_pos hshort]
  · rw [bytes_cons (by omega)]
    by_cases hone : b.stop ≤ b.cur + 1
    · have hshort : b.room < 2 := by omega
      rw [bytes_nil hone]
      simp only [Reader.uint16, unpackUint16, if_pos hshort]
    · have hlong : ¬ b.room < 2 := by omega
      rw [bytes_cons (by simp only; omega)]
      simp only [Reader.uint16, unpackUint16, if_neg hlong]
      exact ⟨_, rfl, rfl, by simp only; omega, hlt⟩

theorem unpacks_utf8Str : Unpacks unpackUtf8Str Reader.string := by
  intro b hle hlt
  have hlen := unpacks_uint16 b hle hlt
  simp only [Reader.string, Reader.bind]
  cases hread : Reader.uint16 b.bytes with
  | none =>
    rw [hread] at hlen
    simp only [unpackUtf8Str, hlen]
    rfl
  | some r =>
    obtain ⟨len, rest⟩ := r
    rw [hread] at hlen
    obtain ⟨b', hunpack, hrest, hle', hlt'⟩ := hlen
    have hunfold : unpackUtf8Str b = if b'.room < len.toNat then .error einval
        else .ok (slice b'.mem b'.cur len.toNat, { b' with cur := b'.cur + len.toNat }) := by
      rw [unpackUtf8Str, hunpack]
      rfl
    have hcount : rest.length = b'.stop - b'.cur := by
      rw [← hrest, BufCtx.bytes, slice_length]
    simp only [Option.bind_some, Reader.take]
    rw [hunfold, b'.room_eq hle' hlt', ← hcount]
    by_cases hfit : len.toNat ≤ rest.length
    · rw [if_pos hfit, if_neg (by omega)]
      have hin : b'.cur + len.toNat ≤ b'.stop := by omega
      refine ⟨{ b' with cur := b'.cur + len.toNat }, ?_, ?_, hin, hlt'⟩
      · rw [bytes_take hin, hrest]
      · rw [bytes_drop, hrest]
    · rw [if_neg hfit, if_pos (by omega)]

theorem connectAckDecode_eq (protocolVersion : Byte) {b : BufCtx} (hle : b.cur ≤ b.stop)
    (hlt : b.stop < 2 ^ 32) :
    connectAckDecode protocolVersion b = connackOf protocolVersion b.bytes := by
  have hflags := unpacks_uint8 b hle hlt
  cases hb : b.bytes with
  | nil =>
    rw [hb] at hflags
    simp only [Reader.byte] at hflags
    rw [connectAckDecode, hflags]
    rfl
  | cons flags rest =>
    rw [hb] at hflags
    obtain ⟨b', hunpack, hrest, hle', hlt'⟩ := hflags
    have hcode := unpacks_uint8 b' hle' hlt'
    rw [connectAckDecode, hunpack]
    cases rest with
    | nil =>
      rw [hrest] at hcode
      simp only [Reader.byte] at hcode
      rw [ok_bind]
      simp only [hcode]
      rfl
    | cons code rest =>
      rw [hrest] at hcode
      obtain ⟨b'', hunpack', -⟩ := hcode
      rw [ok_bind]
      simp only [hunpack']
      rfl

theorem messageIdDecode_eq {b : BufCtx} (hle : b.cur ≤ b.stop) (hlt : b.stop < 2 ^ 32) :
    messageIdDecode b = messageIdOf b.bytes := by
  have hid := unpacks_uint16 b hle hlt
  rw [messageIdDecode, messageIdOf]
  cases hread : Reader.uint16 b.bytes with
  | none =>
    rw [hread] at hid
    simp only at hid
    rw [hid]
    rfl
  | some r =>
    rw [hread] at hid
    obtain ⟨b', hunpack, -⟩ := hid
    rw [hunpack]
    rfl

theorem subscribeAckDecode_eq {b : BufCtx} (hle : b.cur ≤ b.stop) (hlt : b.stop < 2 ^ 32) :
    subscribeAckDecode b = subscribeAckOf b.bytes := by
  have hid := unpacks_uint16 b hle hlt
  rw [subscribeAckDecode, subscribeAckOf]
  cases hread : Reader.uint16 b.bytes with
  | none =>
    rw [hread] at hid
    simp only at hid
    rw [hid]
    rfl
  | some r =>
    rw [hread] at hid
    obtain ⟨b', hunpack, hrest, -⟩ := hid
    rw [hunpack, Except.map, hrest]

theorem publishDecode_eq (flags : Byte) (varLength : ℕ) {b : BufCtx} (hle : b.cur ≤ b.stop)
    (hlt : b.stop < 2 ^ 32) :
    publishDecode flags varLength b = publishOf flags varLength b.bytes := by
  have htopic := unpacks_utf8Str b hle hlt
  rw [publishDecode, publishOf]
  cases hread : Reader.string b.bytes with
  | none =>
    rw [hread] at htopic
    simp only at htopic
    rw [htopic]
    rfl
  | some r =>
    obtain ⟨topic, rest⟩ := r
    rw [hread] at htopic
    obtain ⟨b', hunpack, hrest, hle', hlt'⟩ := htopic
    rw [hunpack, ok_bind]
    simp only
    split
    · have hid := unpacks_uint16 b' hle' hlt'
      rw [hrest] at hid
      cases hread' : Reader.uint16 rest with
      | none =>
        rw [hread'] at hid
        simp only at hid
        rw [hid]
        rfl
      | some r =>
        rw [hread'] at hid
        obtain ⟨b'', hunpack', -⟩ := hid
        rw [hunpack']
        rfl
    · rfl

/-- The loop computes the length of the bytes from cur on, and stops behind it. -/
theorem packetLengthDecode_spec (groups shift length : ℕ) (hshift : shift + 7 * groups = 28)
    (hlength : length < 2 ^ shift) (b : BufCtx) (hcur : b.cur ≤ b.stop) :
    match lengthOf groups b.bytes with
    | .ok (n, k) => packetLengthDecode groups shift length b =
        (.ok (length + n <<< shift), { b with cur := b.cur + k })
    | .error e => (packetLengthDecode groups shift length b).1 = .error e ∧
        (e = eagain → (packetLengthDecode groups shift length b).2 = { b with cur := b.stop }) := by
  induction groups generalizing shift length b with
  | zero => exact ⟨rfl, by rintro ⟨⟩⟩
  | succ groups ih =>
    by_cases hend : b.stop ≤ b.cur
    · rw [bytes_nil hend]
      have hat : b.cur = b.stop := by omega
      refine ⟨?_, fun _ => ?_⟩
      · rw [packetLengthDecode, if_pos hend]
      · rw [packetLengthDecode, if_pos hend]
        exact congrArg (fun cur => { b with cur := cur }) hat
    · have hlt : b.cur < b.stop := by omega
      have hmod : (b.mem b.cur).toNat % 128 < 2 ^ 7 := Nat.mod_lt _ (by decide)
      have hsum : length + ((b.mem b.cur).toNat % 128) <<< shift < 2 ^ (shift + 7) := by
        rw [Nat.shiftLeft_eq, Nat.pow_add, Nat.mul_comm (2 ^ shift)]
        calc length + (b.mem b.cur).toNat % 128 * 2 ^ shift
            < 2 ^ shift + (b.mem b.cur).toNat % 128 * 2 ^ shift := by omega
          _ = ((b.mem b.cur).toNat % 128 + 1) * 2 ^ shift := by ring
          _ ≤ 2 ^ 7 * 2 ^ shift := Nat.mul_le_mul_right _ hmod
      have hnext := ih (shift + 7) _ (by omega) hsum { b with cur := b.cur + 1 } hlt
      rw [bytes_cons hlt, lengthOf]
      by_cases hlast : (b.mem b.cur).toNat < 128
      · have hstop : ¬ b.mem b.cur &&& 0x80#8 ≠ 0#8 := by
          rw [continued_iff]
          exact not_not_intro hlast
        have hmax : ¬ maxPayloadSize < length + ((b.mem b.cur).toNat % 128) <<< shift := by
          have hpow : 2 ^ (shift + 7) ≤ 2 ^ 28 := Nat.pow_le_pow_right (by decide) (by omega)
          simp only [maxPayloadSize]
          omega
        simp only [if_pos hlast, packetLengthDecode, if_neg hend, low_bits, if_neg hstop,
          if_neg hmax]
        rw [Nat.mod_eq_of_lt hlast]
      · have hmore : b.mem b.cur &&& 0x80#8 ≠ 0#8 := (continued_iff _).mpr hlast
        have hunfold : packetLengthDecode (groups + 1) shift length b =
            packetLengthDecode groups (shift + 7)
              (length + ((b.mem b.cur).toNat % 128) <<< shift) { b with cur := b.cur + 1 } := by
          simp only [packetLengthDecode, if_neg hend, low_bits, if_pos hmore]
        rw [if_neg hlast, hunfold]
        cases hrest : lengthOf groups (BufCtx.bytes { b with cur := b.cur + 1 }) with
        | error e =>
          rw [hrest] at hnext
          exact hnext
        | ok r =>
          rw [hrest] at hnext
          have hb := (b.mem b.cur).isLt
          have hgroup : (b.mem b.cur).toNat % 128 = (b.mem b.cur).toNat - 128 := by omega
          have htotal : length + ((b.mem b.cur).toNat % 128) <<< shift + r.1 <<< (shift + 7) =
              length + ((b.mem b.cur).toNat - 128 + 128 * r.1) <<< shift := by
            rw [hgroup]
            simp only [Nat.shiftLeft_eq, Nat.pow_add]
            ring
          simp only [Except.map]
          rw [hnext, htotal]
          simp only [Nat.add_comm r.2, Nat.add_assoc]

/-- A decoder never reads beyond the end. -/
theorem packetLengthDecode_cur (groups shift length : ℕ) {b : BufCtx} (hcur : b.cur ≤ b.stop) :
    (packetLengthDecode groups shift length b).2.cur ≤ b.stop := by
  induction groups generalizing shift length b with
  | zero => exact hcur
  | succ groups ih =>
    simp only [packetLengthDecode]
    split
    · exact hcur
    · rename_i hend
      have hnext : b.cur + 1 ≤ b.stop := by omega
      split
      · exact ih (b := { b with cur := b.cur + 1 }) _ _ hnext
      · split <;> exact hnext

theorem fixedHeaderDecode_eq {b : BufCtx} (h : b.cur < b.stop) (hroom : b.stop < 2 ^ 32) :
    fixedHeaderDecode b =
      let r := packetLengthDecode maxLengthBytes 0 0 { b with cur := b.cur + 1 }
      (r.1.map (b.mem b.cur, ·), r.2) := by
  have hmod : ¬ b.room < 1 := by
    rw [BufCtx.room]
    omega
  have htype : unpackUint8 b = .ok (b.mem b.cur, { b with cur := b.cur + 1 }) := by
    rw [unpackUint8, if_neg hmod]
  rw [fixedHeaderDecode, htype]

/-- A header that is there is decoded, and cur is left behind it. -/
theorem fixedHeaderDecode_ok {mem : ByteRegions.Region Byte} {len : ℕ} {h : Header}
    (hlen : len < 2 ^ 32) (hh : headerOf (slice mem 0 len) = .ok h) :
    fixedHeaderDecode ⟨mem, 0, len⟩ = (.ok (h.type, h.length), ⟨mem, h.size, len⟩) := by
  have hpos : 0 < len := by
    cases len with
    | zero => cases hh
    | succ len => omega
  have hspec := packetLengthDecode_spec maxLengthBytes 0 0 rfl (by decide) ⟨mem, 1, len⟩ hpos
  have hcons : slice mem 0 len = mem 0 :: BufCtx.bytes ⟨mem, 1, len⟩ :=
    bytes_cons (b := ⟨mem, 0, len⟩) hpos
  rw [hcons, headerOf] at hh
  rw [fixedHeaderDecode_eq hpos hlen]
  cases hrest : lengthOf maxLengthBytes (BufCtx.bytes ⟨mem, 1, len⟩) with
  | error e =>
    rw [hrest] at hh
    cases hh
  | ok r =>
    rw [hrest] at hh hspec
    cases hh
    simp only [Nat.zero_add]
    rw [hspec]
    simp [Except.map, Nat.add_comm]

theorem fixedHeaderDecode_error {mem : ByteRegions.Region Byte} {len : ℕ} {e : ℤ}
    (hlen : len < 2 ^ 32) (hpos : 0 < len) (hh : headerOf (slice mem 0 len) = .error e) :
    (fixedHeaderDecode ⟨mem, 0, len⟩).1 = .error e ∧
      (e = eagain → (fixedHeaderDecode ⟨mem, 0, len⟩).2 = ⟨mem, len, len⟩) := by
  have hspec := packetLengthDecode_spec maxLengthBytes 0 0 rfl (by decide) ⟨mem, 1, len⟩ hpos
  have hcons : slice mem 0 len = mem 0 :: BufCtx.bytes ⟨mem, 1, len⟩ :=
    bytes_cons (b := ⟨mem, 0, len⟩) hpos
  rw [hcons, headerOf] at hh
  rw [fixedHeaderDecode_eq hpos hlen]
  cases hrest : lengthOf maxLengthBytes (BufCtx.bytes ⟨mem, 1, len⟩) with
  | ok r =>
    rw [hrest] at hh
    cases hh
  | error e' =>
    rw [hrest] at hh hspec
    cases hh
    simp only [Nat.zero_add]
    exact ⟨by rw [hspec.1]; rfl, hspec.2⟩

theorem fixedHeaderDecode_cur {mem : ByteRegions.Region Byte} {len : ℕ} (hlen : len < 2 ^ 32)
    (hpos : 0 < len) : (fixedHeaderDecode ⟨mem, 0, len⟩).2.cur ≤ len := by
  rw [fixedHeaderDecode_eq hpos hlen]
  exact packetLengthDecode_cur (b := ⟨mem, 1, len⟩) _ _ _ hpos

/-! More bytes change nothing that the first ones decided. -/

theorem lengthOf_append {groups : ℕ} {p : List Byte} (q : List Byte)
    (h : lengthOf groups p ≠ .error eagain) : lengthOf groups (p ++ q) = lengthOf groups p := by
  induction groups generalizing p with
  | zero => rfl
  | succ groups ih =>
    cases p with
    | nil => exact absurd rfl h
    | cons b rest =>
      rw [List.cons_append, lengthOf, lengthOf]
      split
      · rfl
      · rename_i hmore
        have hrest : lengthOf groups rest ≠ .error eagain := by
          intro hagain
          rw [lengthOf, if_neg hmore, hagain] at h
          exact h rfl
        rw [ih hrest]

theorem headerOf_append {p : List Byte} (q : List Byte) (hp : p ≠ [])
    (h : headerOf p ≠ .error eagain) : headerOf (p ++ q) = headerOf p := by
  cases p with
  | nil => exact absurd rfl hp
  | cons type rest =>
    have hrest : lengthOf maxLengthBytes rest ≠ .error eagain := by
      intro hagain
      rw [headerOf, hagain] at h
      exact h rfl
    rw [List.cons_append, headerOf, headerOf, lengthOf_append q hrest]

theorem lengthOf_size {groups n k : ℕ} {bytes : List Byte}
    (h : lengthOf groups bytes = .ok (n, k)) : 0 < k ∧ k ≤ bytes.length := by
  induction groups generalizing n k bytes with
  | zero => cases h
  | succ groups ih =>
    cases bytes with
    | nil => cases h
    | cons b rest =>
      rw [lengthOf] at h
      split at h
      · cases h
        simp
      · cases hrest : lengthOf groups rest with
        | error e =>
          rw [hrest] at h
          cases h
        | ok r =>
          rw [hrest] at h
          cases h
          have hle := ih hrest
          rw [List.length_cons]
          omega

theorem headerOf_size {p : List Byte} {h : Header} (hh : headerOf p = .ok h) :
    2 ≤ h.size ∧ h.size ≤ p.length := by
  cases p with
  | nil => cases hh
  | cons type rest =>
    rw [headerOf] at hh
    cases hrest : lengthOf maxLengthBytes rest with
    | error e =>
      rw [hrest] at hh
      cases hh
    | ok r =>
      rw [hrest] at hh
      cases hh
      have hle := lengthOf_size hrest
      simp only [List.length_cons]
      omega

theorem lengthOf_error {groups : ℕ} {bytes : List Byte} {e : ℤ}
    (h : lengthOf groups bytes = .error e) :
    e = einval ∨ e = eagain ∧ bytes.length < groups := by
  induction groups generalizing bytes with
  | zero =>
    cases h
    exact Or.inl rfl
  | succ groups ih =>
    cases bytes with
    | nil =>
      cases h
      exact Or.inr ⟨rfl, Nat.succ_pos _⟩
    | cons b rest =>
      rw [lengthOf] at h
      split at h
      · cases h
      · cases hrest : lengthOf groups rest with
        | ok r =>
          rw [hrest] at h
          cases h
        | error e' =>
          rw [hrest] at h
          cases h
          rcases ih hrest with heinval | ⟨heagain, hlt⟩
          · exact Or.inl heinval
          · exact Or.inr ⟨heagain, Nat.succ_lt_succ hlt⟩

/-- A header that is not complete has less than five bytes. -/
theorem headerOf_error {p : List Byte} {e : ℤ} (h : headerOf p = .error e) :
    e = einval ∨ e = eagain ∧ p.length ≤ maxLengthBytes := by
  cases p with
  | nil =>
    cases h
    exact Or.inl rfl
  | cons type rest =>
    rw [headerOf] at h
    cases hrest : lengthOf maxLengthBytes rest with
    | ok r =>
      rw [hrest] at h
      cases h
    | error e' =>
      rw [hrest] at h
      cases h
      rcases lengthOf_error hrest with heinval | ⟨heagain, hlt⟩
      · exact Or.inl heinval
      · exact Or.inr ⟨heagain, hlt⟩

/-- MQTT_PKT_TYPE_PUBLISH, of a type with its flags. -/
def isPublish (type : Byte) : Bool := type &&& 0xf0#8 == 0x30#8

def hasQos (type : Byte) : Bool := type &&& 0x06#8 != 0#8

/-- Two bytes of a packet as a number, and zero where they are not there. -/
def uint16At (p : List Byte) (off : ℕ) : ℕ :=
  (uint16Of (p.getD off 0#8) (p.getD (off + 1) 0#8)).toNat

/-- The size of a packet up to where a receiver hands it over: all of it, but for the
payload of a PUBLISH. -/
def frameSize (p : List Byte) (h : Header) : ℕ :=
  if isPublish h.type then
    if p.length < h.size + 2 then h.size + 2
    else h.size + 2 + uint16At p h.size + if hasQos h.type then 2 else 0
  else h.size + h.length

/-- What a packet with this start needs. A header that is wrong needs no more. -/
def need (p : List Byte) : ℕ :=
  if p.length < 2 then 2 - p.length
  else match headerOf p with
    | .ok h => frameSize p h - p.length
    | .error e => if e = eagain then 1 else 0

theorem need_short {p : List Byte} (h : p.length < 2) : need p = 2 - p.length := if_pos h

theorem need_agains {p : List Byte} (hlong : ¬ p.length < 2) (h : headerOf p = .error eagain) :
    need p = 1 := by
  rw [need, if_neg hlong, h]
  rfl

theorem need_wrong {p : List Byte} (hlong : ¬ p.length < 2) {e : ℤ} (h : headerOf p = .error e)
    (he : e ≠ eagain) : need p = 0 := by
  rw [need, if_neg hlong, h]
  exact if_neg he

theorem need_header {p : List Byte} {h : Header} (hh : headerOf p = .ok h) :
    need p = frameSize p h - p.length := by
  have hsize := headerOf_size hh
  rw [need, if_neg (by omega), hh]

theorem uint16At_append {p : List Byte} (q : List Byte) {off : ℕ} (h : off + 2 ≤ p.length) :
    uint16At (p ++ q) off = uint16At p off := by
  have hlow : off < p.length := by omega
  have hhigh : off + 1 < p.length := by omega
  rw [uint16At, uint16At, List.getD_append _ _ _ _ hlow, List.getD_append _ _ _ _ hhigh]

/-- The size is known, or it is the length of the topic that is still to be read. -/
theorem frameSize_or (p q : List Byte) (h : Header) :
    frameSize p h = frameSize (p ++ q) h ∨
      p.length < h.size + 2 ∧ frameSize p h = h.size + 2 ∧ h.size + 2 ≤ frameSize (p ++ q) h := by
  unfold frameSize
  split
  · by_cases hshort : p.length < h.size + 2
    · rw [if_pos hshort]
      refine Or.inr ⟨hshort, rfl, ?_⟩
      split <;> omega
    · have hlong : ¬ (p ++ q).length < h.size + 2 := by
        rw [List.length_append]
        omega
      rw [if_neg hshort, if_neg hlong, uint16At_append q (by omega)]
      exact Or.inl rfl
  · exact Or.inl rfl

theorem frameSize_append (p q : List Byte) (h : Header) :
    frameSize p h - p.length ≤ q.length + (frameSize (p ++ q) h - (p ++ q).length) := by
  have hor := frameSize_or p q h
  rw [List.length_append]
  omega

theorem need_append (p q : List Byte) : need p ≤ q.length + need (p ++ q) := by
  by_cases hp : p.length < 2
  · by_cases hpq : (p ++ q).length < 2
    · rw [need, need, if_pos hp, if_pos hpq, List.length_append]
      omega
    · rw [need, if_pos hp]
      rw [List.length_append] at hpq
      omega
  · have hpq : ¬ (p ++ q).length < 2 := by
      rw [List.length_append]
      omega
    have hne : p ≠ [] := by
      rintro rfl
      exact hp (by decide)
    by_cases hagain : headerOf p = .error eagain
    · cases q with
      | nil => simp
      | cons b rest =>
        rw [need, if_neg hp, hagain]
        simp only [if_true, List.length_cons]
        omega
    · have hsame := headerOf_append q hne hagain
      rw [need, need, if_neg hp, if_neg hpq, hsame]
      cases hh : headerOf p with
      | ok h => exact frameSize_append p q h
      | error e => exact Nat.le_add_left _ _

/-- The payload that follows a complete packet: of a PUBLISH that can be decoded. -/
def payloadLen (p : List Byte) : ℕ :=
  match headerOf p with
  | .ok h =>
    if isPublish h.type then
      match publishOf h.type h.length (p.drop h.size) with
      | .ok param => param.payloadLen
      | .error _ => 0
    else 0
  | .error _ => 0

def framing : Framing Byte where
  need := need
  bulk := payloadLen
  need_nil := by decide
  need_le := need_append

end NcsProjects.MqttDecode
