import NcsProjects.ByteRegions
import NcsProjects.WireFormats

/-!
The packets that the client library writes, as zephyr.lst has mqtt_encoder.c compiled.
A packet is built in tx_buf behind the room for its fixed header; the fixed header is
written last, right in front of the rest, when the length of the rest is known. What a
broker reads is what the caller gave.
-/
namespace NcsProjects.MqttPackets

open ByteRegions CStrings WireFormats

def enomem : ℤ := -12
def einval : ℤ := -22
def emsgsize : ℤ := -122

/-- MQTT_FIXED_HEADER_MAX_SIZE -/
def fixedHeaderMaxSize : ℕ := 5

/-- MQTT_MAX_PAYLOAD_SIZE -/
def maxPayloadSize : ℕ := 268435455

/-- struct buf_ctx with the buffer that it points into; its fields are cur and end. -/
structure BufCtx where
  mem : Region Byte
  cur : ℕ
  stop : ℕ

namespace BufCtx

/-- buf->end - buf->cur, compared with an unsigned size. -/
def room (b : BufCtx) : ℕ := (2 ^ 32 + b.stop - b.cur) % 2 ^ 32

def append (b : BufCtx) (bytes : List Byte) : BufCtx :=
  { b with mem := write b.mem b.cur bytes, cur := b.cur + bytes.length }

/-- Space for a fixed header of any size. -/
def reserve (b : BufCtx) : BufCtx := { b with cur := b.cur + fixedHeaderMaxSize }

/-- The bytes from cur to end. -/
def bytes (b : BufCtx) : List Byte := slice b.mem b.cur (b.stop - b.cur)

end BufCtx

abbrev Encoder := BufCtx → Except ℤ BufCtx

def packUint8 (val : Byte) : Encoder := fun b =>
  if b.room < 1 then .error enomem else .ok (b.append [val])

def packUint16 (val : BitVec 16) : Encoder := fun b =>
  if b.room < 2 then .error enomem
  else .ok (b.append [(val >>> 8).setWidth 8, val.setWidth 8])

/-- The string is copied behind its length, of which 16 bits are kept. -/
def packUtf8Str (str : List Byte) : Encoder := fun b =>
  if b.room < str.length + 2 then .error enomem
  else
    let packed := match packUint16 (BitVec.ofNat 16 str.length) b with
      | .ok b' => b'
      | .error _ => b
    .ok (packed.append str)

def packetLengthEncode (length : ℕ) : List Byte :=
  if 0 < length >>> 7 then
    (BitVec.ofNat 8 length &&& 0x7f#8 ||| 0x80#8) :: packetLengthEncode (length >>> 7)
  else [BitVec.ofNat 8 length &&& 0x7f#8]
termination_by length
decreasing_by
  rw [Nat.shiftRight_eq_div_pow] at *
  omega

/-- The fixed header goes right in front of `start`. -/
def mqttEncodeFixedHeader (messageType : Byte) (start : ℕ) : Encoder := fun b =>
  let length := (b.cur - start) % 2 ^ 32
  if maxPayloadSize < length then .error emsgsize
  else
    let fixedHeaderLength := (packetLengthEncode length).length + 1
    let b := { b with cur := start - fixedHeaderLength }
    let typed := match packUint8 messageType b with
      | .ok b' => b'
      | .error _ => b
    let b := typed.append (packetLengthEncode length)
    let cur := b.cur - fixedHeaderLength
    .ok { b with cur := cur, stop := cur + length + fixedHeaderLength }

def mqttMessageIdOnlyEnc (messageType : Byte) (messageId : BitVec 16) : Encoder := fun b =>
  if messageId = 0#16 then .error einval
  else
    let b := b.reserve
    (packUint16 messageId b).bind (mqttEncodeFixedHeader messageType b.cur)

/-- mqtt_publish_param, with the length of the payload in place of the payload. -/
structure PublishParam where
  topic : List Byte
  qos : Byte
  payloadLen : ℕ
  messageId : BitVec 16
  dupFlag : Bool
  retainFlag : Bool
  deriving DecidableEq

/-- MQTT_MESSAGES_OPTIONS -/
def messagesOptions (messageType : Byte) (dup : Bool) (qos : Byte) (retain : Bool) : Byte :=
  messageType &&& 0xf0#8 ||| (BitVec.ofBool dup).setWidth 8 <<< 3 &&& 0x08#8 |||
    qos <<< 1 &&& 0x06#8 ||| (BitVec.ofBool retain).setWidth 8 &&& 0x01#8

def publishEncode (param : PublishParam) : Encoder := fun b =>
  if param.qos ≠ 0#8 ∧ param.messageId = 0#16 then .error einval
  else do
    let b := b.reserve
    let start := b.cur
    let b ← packUtf8Str param.topic b
    let b ← if param.qos ≠ 0#8 then packUint16 param.messageId b else pure b
    let b := { b with cur := b.cur + param.payloadLen }
    let b ← mqttEncodeFixedHeader
      (messagesOptions 0x30#8 param.dupFlag param.qos param.retainFlag) start b
    pure { b with stop := b.stop - param.payloadLen }

def publishAckEncode (messageId : BitVec 16) : Encoder := mqttMessageIdOnlyEnc 0x40#8 messageId

def publishReleaseEncode (messageId : BitVec 16) : Encoder := mqttMessageIdOnlyEnc 0x62#8 messageId

/-- mqtt_topic -/
structure Topic where
  topic : List Byte
  qos : Byte
  deriving DecidableEq

/-- The loop of subscribe_encode over the list of topics. -/
def packTopics : List Topic → Encoder
  | [] => fun b => .ok b
  | t :: rest => fun b => do
    let b ← packUtf8Str t.topic b
    let b ← packUint8 t.qos b
    packTopics rest b

def subscribeEncode (messageId : BitVec 16) (list : List Topic) : Encoder := fun b =>
  if messageId = 0#16 then .error einval
  else do
    let b := b.reserve
    let start := b.cur
    let b ← packUint16 messageId b
    let b ← packTopics list b
    mqttEncodeFixedHeader 0x82#8 start b

/-- The fields of mqtt_client that connect_request_encode reads. -/
structure Client where
  protocolVersion : Byte
  cleanSession : Bool
  keepalive : BitVec 16
  clientId : List Byte
  willTopic : Option Topic
  willMessage : Option (List Byte)
  willRetain : Bool
  userName : Option (List Byte)
  password : Option (List Byte)
  deriving DecidableEq

/-- MQTT_VERSION_3_1_1 -/
def version311 : Byte := 4#8

/-- mqtt_3_1_1_proto_desc and mqtt_3_1_0_proto_desc: "MQTT" and "MQIsdp". -/
def protoDesc (version : Byte) : List Byte :=
  if version = version311 then [77#8, 81#8, 84#8, 84#8]
  else [77#8, 81#8, 73#8, 115#8, 100#8, 112#8]

def bit (b : Bool) : Byte := (BitVec.ofBool b).setWidth 8

/-- The will of the client, if it has one, and the flags that go with it. -/
def packWill (c : Client) : Encoder := fun b =>
  match c.willTopic with
  | none => .ok b
  | some will => do
    let b ← packUtf8Str will.topic b
    match c.willMessage with
    | some message => packUtf8Str message b
    | none => packUint16 0x0000#16 b

def packOption : Option (List Byte) → Encoder
  | some str => packUtf8Str str
  | none => fun b => .ok b

def connectFlags (c : Client) : Byte :=
  let flags := bit c.cleanSession <<< 1
  let flags := match c.willTopic with
    | some will => flags ||| 0x04#8 ||| (will.qos &&& 0x03#8) <<< 3 ||| bit c.willRetain <<< 5
    | none => flags
  let flags := if c.userName.isSome then flags ||| 0x80#8 else flags
  if c.password.isSome then flags ||| 0x40#8 else flags

def connectRequestEncode (c : Client) : Encoder := fun b => do
  let b := b.reserve
  let start := b.cur
  let b ← packUtf8Str (protoDesc c.protocolVersion) b
  let b ← packUint8 c.protocolVersion b
  let connectFlagsPos := b.cur
  let b ← packUint8 0#8 b
  let b ← packUint16 c.keepalive b
  let b ← packUtf8Str c.clientId b
  let b ← packWill c b
  let b ← packOption c.userName b
  let b ← packOption c.password b
  let b := { b with mem := write b.mem connectFlagsPos [connectFlags c] }
  mqttEncodeFixedHeader 0x10#8 start b

/-- disc_packet and ping_packet. -/
def packPacket (packet : List Byte) : Encoder := fun b =>
  if b.room < packet.length then .error enomem
  else .ok { b with mem := write b.mem b.cur packet, stop := b.cur + packet.length }

def disconnectEncode : Encoder := packPacket [0xe0#8, 0x00#8]

def pingRequestEncode : Encoder := packPacket [0xc0#8, 0x00#8]

/-- tx_buf_init: the buffer is cleared. -/
def txBufInit (txBufSize : ℕ) : BufCtx where
  mem := fun _ => 0#8
  cur := 0
  stop := txBufSize

/-! What the encoders write. -/

theorem BufCtx.room_eq (b : BufCtx) (hle : b.cur ≤ b.stop) (hlt : b.stop < 2 ^ 32) :
    b.room = b.stop - b.cur := by
  unfold BufCtx.room
  omega

theorem BufCtx.append_append (b : BufCtx) (xs ys : List Byte) :
    (b.append xs).append ys = b.append (xs ++ ys) := by
  simp only [BufCtx.append, write_append, List.length_append, Nat.add_assoc]

theorem ok_bind {α β : Type} (a : α) (next : α → Except ℤ β) : (Except.ok a >>= next) = next a :=
  rfl

theorem error_bind {α β : Type} (e : ℤ) (next : α → Except ℤ β) :
    (Except.error e >>= next) = .error e := rfl

/-- The encoder puts the bytes behind the ones that are there, or finds no room for them. -/
def Appends (encode : Encoder) (bytes : List Byte) : Prop :=
  ∀ b : BufCtx, b.cur ≤ b.stop → b.stop < 2 ^ 32 →
    encode b = if b.stop - b.cur < bytes.length then .error enomem else .ok (b.append bytes)

theorem appends_nil : Appends (fun b => .ok b) [] := by
  intro b _ _
  simp [BufCtx.append]

theorem Appends.bind {f g : Encoder} {xs ys : List Byte} (hf : Appends f xs) (hg : Appends g ys) :
    Appends (fun b => f b >>= g) (xs ++ ys) := by
  intro b hle hlt
  simp only [hf b hle hlt, List.length_append]
  by_cases hx : b.stop - b.cur < xs.length
  · rw [if_pos hx, if_pos (by omega), error_bind]
  · have hcur : (b.append xs).cur = b.cur + xs.length := rfl
    have hstop : (b.append xs).stop = b.stop := rfl
    have hnext := hg (b.append xs) (by rw [hcur, hstop]; omega) hlt
    rw [hcur, hstop, BufCtx.append_append] at hnext
    rw [if_neg hx, ok_bind, hnext]
    by_cases hy : b.stop - (b.cur + xs.length) < ys.length
    · rw [if_pos hy, if_pos (by omega)]
    · rw [if_neg hy, if_neg (by omega)]

theorem appends_packUint8 (val : Byte) : Appends (packUint8 val) [val] := by
  intro b hle hlt
  simp only [packUint8, b.room_eq hle hlt, List.length_singleton]

theorem appends_packUint16 (val : BitVec 16) : Appends (packUint16 val) (uint16Bytes val) := by
  intro b hle hlt
  simp only [packUint16, b.room_eq hle hlt, uint16Bytes_length]
  rfl

theorem appends_packUtf8Str (str : List Byte) : Appends (packUtf8Str str) (stringBytes str) := by
  intro b hle hlt
  simp only [packUtf8Str, b.room_eq hle hlt, stringBytes_length]
  split
  · rfl
  · rename_i hroom
    have hlen := appends_packUint16 (BitVec.ofNat 16 str.length) b hle hlt
    rw [uint16Bytes_length, if_neg (by omega)] at hlen
    simp only [hlen, BufCtx.append_append]
    rfl

theorem appends_packOption (str : Option (List Byte)) :
    Appends (packOption str) ((str.map stringBytes).getD []) := by
  cases str with
  | none => exact appends_nil
  | some str => exact appends_packUtf8Str str

def Topic.bytes (t : Topic) : List Byte := stringBytes t.topic ++ [t.qos]

theorem appends_packTopics (list : List Topic) :
    Appends (packTopics list) (list.flatMap Topic.bytes) := by
  induction list with
  | nil => exact appends_nil
  | cons t rest ih =>
    have hboth := (appends_packUtf8Str t.topic).bind ((appends_packUint8 t.qos).bind ih)
    rw [List.flatMap_cons, Topic.bytes, List.append_assoc]
    exact hboth

def willBytes (c : Client) : List Byte :=
  match c.willTopic with
  | none => []
  | some will => stringBytes will.topic ++ stringBytes (c.willMessage.getD [])

theorem appends_packWill (c : Client) : Appends (packWill c) (willBytes c) := by
  unfold packWill willBytes
  cases c.willTopic with
  | none => exact appends_nil
  | some will =>
    cases c.willMessage with
    | none => exact (appends_packUtf8Str will.topic).bind (appends_packUint16 0x0000#16)
    | some message => exact (appends_packUtf8Str will.topic).bind (appends_packUtf8Str message)

theorem packetLengthEncode_eq (length : ℕ) : packetLengthEncode length = lengthBytes length := by
  have hlow : ∀ x : Byte, x &&& 0x7f#8 = BitVec.ofNat 8 (x.toNat % 128) := by decide
  have hhigh : ∀ x : Byte, x &&& 0x7f#8 ||| 0x80#8 = BitVec.ofNat 8 (x.toNat % 128 + 128) := by
    decide
  induction length using Nat.strongRecOn with
  | _ n ih =>
    have hshift : n >>> 7 = n / 128 := Nat.shiftRight_eq_div_pow n 7
    have hmod : n % 2 ^ 8 % 128 = n % 128 := Nat.mod_mod_of_dvd n (by decide)
    rw [packetLengthEncode, lengthBytes, hshift, hhigh, hlow, BitVec.toNat_ofNat, hmod]
    by_cases hsmall : n < 128
    · have hdiv : n / 128 = 0 := Nat.div_eq_of_lt hsmall
      rw [if_pos hsmall, if_neg (by omega), Nat.mod_eq_of_lt hsmall]
    · rw [if_neg hsmall, if_pos (by omega), ih (n / 128) (by omega)]

/-- The fixed header in front of a packet of `length` bytes. -/
def fixedHeader (messageType : Byte) (length : ℕ) : List Byte := messageType :: lengthBytes length

theorem fixedHeader_length_le (messageType : Byte) {length : ℕ} (h : length ≤ maxPayloadSize) :
    (fixedHeader messageType length).length ≤ fixedHeaderMaxSize := by
  have hlt : length < 128 ^ (3 + 1) := by
    unfold maxPayloadSize at h
    omega
  have hle := lengthBytes_length_le hlt
  simp only [fixedHeader, List.length_cons, fixedHeaderMaxSize]
  omega

/-- The fixed header fills the end of the room in front of the packet. -/
theorem mqttEncodeFixedHeader_eq (messageType : Byte) (start : ℕ) (b : BufCtx)
    (hstart : fixedHeaderMaxSize ≤ start) (hcur : start ≤ b.cur) (hstop : start ≤ b.stop)
    (hlt : b.stop < 2 ^ 32) (hlen : b.cur - start < 2 ^ 32) :
    mqttEncodeFixedHeader messageType start b =
      if maxPayloadSize < b.cur - start then .error emsgsize
      else
        let header := fixedHeader messageType (b.cur - start)
        .ok ⟨write b.mem (start - header.length) header, start - header.length, b.cur⟩ := by
  unfold mqttEncodeFixedHeader
  simp only [Nat.mod_eq_of_lt hlen, packetLengthEncode_eq]
  split
  · rfl
  · rename_i hfits
    have hle := fixedHeader_length_le messageType (Nat.le_of_not_lt hfits)
    simp only [fixedHeader, List.length_cons] at hle ⊢
    generalize hn : (lengthBytes (b.cur - start)).length + 1 = n at hle ⊢
    have hpack :=
      appends_packUint8 messageType { b with cur := start - n } (by simp only; omega) hlt
    rw [List.length_singleton, if_neg (by simp only; omega)] at hpack
    simp only [hpack, BufCtx.append, List.length_singleton]
    have hjoin := write_append b.mem (start - n) [messageType] (lengthBytes (b.cur - start))
    rw [List.length_singleton] at hjoin
    have hcur' : start - n + 1 + (lengthBytes (b.cur - start)).length - n = start - n := by omega
    have hstop' : start - n + (b.cur - start) + n = b.cur := by omega
    rw [hjoin, hcur', hstop']
    rfl

theorem slice_header (m : Region Byte) {start : ℕ} {header : List Byte} (body : List Byte)
    (h : header.length ≤ start) :
    slice (write (write m start body) (start - header.length) header) (start - header.length)
      (header.length + body.length) = header ++ body := by
  have hback : start - header.length + header.length = start := by omega
  rw [slice_add, slice_write, hback, slice_write_beside _ header (Or.inr (by omega)), slice_write]

/-- The bytes of the packet that an encoder leaves in tx_buf. -/
def written (encode : Encoder) (txBufSize : ℕ) : Except ℤ (List Byte) :=
  (encode (txBufInit txBufSize)).map BufCtx.bytes

def PublishParam.body (p : PublishParam) : List Byte :=
  stringBytes p.topic ++ if p.qos ≠ 0#8 then uint16Bytes p.messageId else []

def PublishParam.header (p : PublishParam) : Byte :=
  messagesOptions 0x30#8 p.dupFlag p.qos p.retainFlag

def Client.body (c : Client) : List Byte :=
  (stringBytes (protoDesc c.protocolVersion) ++ [c.protocolVersion]) ++ connectFlags c ::
    (uint16Bytes c.keepalive ++ (stringBytes c.clientId ++ (willBytes c ++
      ((c.userName.map stringBytes).getD [] ++ (c.password.map stringBytes).getD []))))

/-- A byte may be put in later, in the place that was kept for it. -/
theorem Appends.patch {f g : Encoder} {xs ys : List Byte} (hf : Appends f xs) (hg : Appends g ys)
    (val : Byte) :
    Appends (fun b => do
      let b ← f b
      let pos := b.cur
      let b ← packUint8 0#8 b
      let b ← g b
      pure { b with mem := write b.mem pos [val] }) (xs ++ val :: ys) := by
  intro b hle hlt
  have hall := (hf.bind ((appends_packUint8 0#8).bind hg)) b hle hlt
  beta_reduce at hall ⊢
  rw [hf b hle hlt] at hall ⊢
  by_cases hx : b.stop - b.cur < xs.length
  · rw [if_pos hx, error_bind, if_pos (by rw [List.length_append]; omega)]
  · rw [if_neg hx, ok_bind] at hall
    rw [if_neg hx, ok_bind, ← bind_assoc, hall]
    simp only [List.length_append, List.length_cons, List.length_nil, Nat.zero_add]
    by_cases hy : b.stop - b.cur < xs.length + (ys.length + 1)
    · rw [if_pos (by omega), if_pos hy, error_bind]
    · have hpatch := write_over b.mem b.cur xs ys 0#8 val
      rw [if_neg (by omega), if_neg hy, ok_bind]
      simp only [BufCtx.append, List.singleton_append, hpatch, List.length_append,
        List.length_cons, pure, Except.pure]

section Written

variable {txBufSize : ℕ} {encode : Encoder} {body : List Byte}

/-- A packet is refused when it does not fit into tx_buf, or when its length does not fit
into the fixed header; `extra` bytes of it are not in tx_buf. -/
theorem written_eq (hsize : fixedHeaderMaxSize ≤ txBufSize) (hlt : txBufSize < 2 ^ 32)
    (hencode : Appends encode body) (messageType : Byte) (extra : ℕ)
    (hextra : body.length + extra < 2 ^ 32) :
    written (fun b => do
      let start := b.reserve.cur
      let b ← encode b.reserve
      let b ← mqttEncodeFixedHeader messageType start { b with cur := b.cur + extra }
      pure { b with stop := b.stop - extra }) txBufSize =
    if txBufSize < fixedHeaderMaxSize + body.length then .error enomem
    else if maxPayloadSize < body.length + extra then .error emsgsize
    else .ok (fixedHeader messageType (body.length + extra) ++ body) := by
  have hreserve : (txBufInit txBufSize).reserve.cur = fixedHeaderMaxSize := rfl
  have hstop : (txBufInit txBufSize).reserve.stop = txBufSize := rfl
  have hbody := hencode (txBufInit txBufSize).reserve (by rw [hreserve, hstop]; exact hsize) hlt
  rw [hreserve, hstop] at hbody
  simp only [written, hbody, hreserve]
  by_cases hfits : txBufSize < fixedHeaderMaxSize + body.length
  · rw [if_pos (by omega), if_pos hfits]
    rfl
  · rw [if_neg (by omega), if_neg hfits]
    have hcur : fixedHeaderMaxSize + body.length + extra - fixedHeaderMaxSize =
        body.length + extra := by omega
    have hheader := mqttEncodeFixedHeader_eq messageType fixedHeaderMaxSize
      ⟨write (fun _ => 0#8) fixedHeaderMaxSize body,
        fixedHeaderMaxSize + body.length + extra, txBufSize⟩
      (Nat.le_refl _) (by simp only; omega) hsize hlt (by simp only [hcur]; exact hextra)
    simp only [hcur] at hheader
    have hstep : mqttEncodeFixedHeader messageType fixedHeaderMaxSize
        { (txBufInit txBufSize).reserve.append body with
          cur := ((txBufInit txBufSize).reserve.append body).cur + extra } = _ := hheader
    by_cases hlen : maxPayloadSize < body.length + extra
    · rw [if_pos hlen] at hstep ⊢
      simp only [Except.map, bind, Except.bind, hstep]
    · rw [if_neg hlen] at hstep ⊢
      have hle := fixedHeader_length_le messageType (Nat.le_of_not_lt hlen)
      have hread := slice_header (fun _ => 0#8) body hle
      have hwidth : fixedHeaderMaxSize + body.length + extra - extra -
          (fixedHeaderMaxSize - (fixedHeader messageType (body.length + extra)).length) =
          (fixedHeader messageType (body.length + extra)).length + body.length := by omega
      simp only [Except.map, bind, Except.bind, hstep, pure, Except.pure, BufCtx.bytes, hwidth,
        hread]

/-- The same for a packet that is all in tx_buf. -/
theorem written_whole_eq (hsize : fixedHeaderMaxSize ≤ txBufSize) (hlt : txBufSize < 2 ^ 32)
    (hencode : Appends encode body) (messageType : Byte) (hbody : body.length < 2 ^ 32) :
    written (fun b => do
      let b' ← encode b.reserve
      mqttEncodeFixedHeader messageType b.reserve.cur b') txBufSize =
    if txBufSize < fixedHeaderMaxSize + body.length then .error enomem
    else if maxPayloadSize < body.length then .error emsgsize
    else .ok (fixedHeader messageType body.length ++ body) := by
  have h := written_eq hsize hlt hencode messageType 0 hbody
  simpa using h

theorem written_publishEncode (hsize : fixedHeaderMaxSize ≤ txBufSize) (hlt : txBufSize < 2 ^ 32)
    (p : PublishParam) (hlen : p.body.length + p.payloadLen < 2 ^ 32) :
    written (publishEncode p) txBufSize =
      if p.qos ≠ 0#8 ∧ p.messageId = 0#16 then .error einval
      else if txBufSize < fixedHeaderMaxSize + p.body.length then .error enomem
      else if maxPayloadSize < p.body.length + p.payloadLen then .error emsgsize
      else .ok (fixedHeader p.header (p.body.length + p.payloadLen) ++ p.body) := by
  by_cases hid : p.qos ≠ 0#8 ∧ p.messageId = 0#16
  · simp only [written, publishEncode, if_pos hid]
    rfl
  · have hsecond : Appends (fun b => if p.qos ≠ 0#8 then packUint16 p.messageId b else pure b)
        (if p.qos ≠ 0#8 then uint16Bytes p.messageId else []) := by
      by_cases hqos : p.qos ≠ 0#8
      · simp only [if_pos hqos]
        exact appends_packUint16 p.messageId
      · simp only [if_neg hqos]
        exact appends_nil
    have h := written_eq hsize hlt ((appends_packUtf8Str p.topic).bind hsecond) p.header
      p.payloadLen hlen
    rw [if_neg hid]
    refine Eq.trans (congrArg (written · txBufSize) ?_) h
    funext b
    by_cases hqos : p.qos ≠ 0#8
    · simp only [publishEncode, if_neg hid, if_pos hqos, bind_assoc, PublishParam.header]
    · simp only [publishEncode, if_neg hid, if_neg hqos, bind_assoc, PublishParam.header]

theorem written_idOnly (hsize : fixedHeaderMaxSize ≤ txBufSize) (hlt : txBufSize < 2 ^ 32)
    (messageType : Byte) (messageId : BitVec 16) :
    written (mqttMessageIdOnlyEnc messageType messageId) txBufSize =
      if messageId = 0#16 then .error einval
      else if txBufSize < fixedHeaderMaxSize + 2 then .error enomem
      else .ok (fixedHeader messageType 2 ++ uint16Bytes messageId) := by
  by_cases hid : messageId = 0#16
  · simp only [written, mqttMessageIdOnlyEnc, if_pos hid]
    rfl
  · have h := written_whole_eq hsize hlt (appends_packUint16 messageId) messageType
      (by rw [uint16Bytes_length]; omega)
    have hsmall : ¬ maxPayloadSize < 2 := by decide
    rw [uint16Bytes_length, if_neg hsmall] at h
    rw [if_neg hid]
    refine Eq.trans (congrArg (written · txBufSize) ?_) h
    funext b
    simp only [mqttMessageIdOnlyEnc, if_neg hid]
    rfl

def subscribeBody (messageId : BitVec 16) (list : List Topic) : List Byte :=
  uint16Bytes messageId ++ list.flatMap Topic.bytes

theorem written_subscribeEncode (hsize : fixedHeaderMaxSize ≤ txBufSize)
    (hlt : txBufSize < 2 ^ 32) (messageId : BitVec 16) (list : List Topic)
    (hlen : (subscribeBody messageId list).length < 2 ^ 32) :
    written (subscribeEncode messageId list) txBufSize =
      if messageId = 0#16 then .error einval
      else if txBufSize < fixedHeaderMaxSize + (subscribeBody messageId list).length then
        .error enomem
      else if maxPayloadSize < (subscribeBody messageId list).length then .error emsgsize
      else .ok (fixedHeader 0x82#8 (subscribeBody messageId list).length ++
        subscribeBody messageId list) := by
  by_cases hid : messageId = 0#16
  · simp only [written, subscribeEncode, if_pos hid]
    rfl
  · have h := written_whole_eq hsize hlt ((appends_packUint16 messageId).bind
      (appends_packTopics list)) 0x82#8 hlen
    rw [if_neg hid]
    refine Eq.trans (congrArg (written · txBufSize) ?_) h
    funext b
    simp only [subscribeEncode, if_neg hid, bind_assoc]

theorem written_connectRequestEncode (hsize : fixedHeaderMaxSize ≤ txBufSize)
    (hlt : txBufSize < 2 ^ 32) (c : Client) (hlen : c.body.length < 2 ^ 32) :
    written (connectRequestEncode c) txBufSize =
      if txBufSize < fixedHeaderMaxSize + c.body.length then .error enomem
      else if maxPayloadSize < c.body.length then .error emsgsize
      else .ok (fixedHeader 0x10#8 c.body.length ++ c.body) := by
  have hfront := (appends_packUtf8Str (protoDesc c.protocolVersion)).bind
    (appends_packUint8 c.protocolVersion)
  have hback := (appends_packUint16 c.keepalive).bind ((appends_packUtf8Str c.clientId).bind
    ((appends_packWill c).bind ((appends_packOption c.userName).bind
      (appends_packOption c.password))))
  have h := written_whole_eq hsize hlt (hfront.patch hback (connectFlags c)) 0x10#8 hlen
  refine Eq.trans (congrArg (written · txBufSize) ?_) h
  funext b
  simp only [connectRequestEncode, bind_assoc, pure_bind]

theorem written_packPacket (hlt : txBufSize < 2 ^ 32) (packet : List Byte) :
    written (packPacket packet) txBufSize =
      if txBufSize < packet.length then .error enomem else .ok packet := by
  have hroom : (txBufInit txBufSize).room = txBufSize :=
    (txBufInit txBufSize).room_eq (Nat.zero_le _) hlt
  simp only [written, packPacket, hroom]
  split
  · rfl
  · have hread := slice_write (txBufInit txBufSize).mem (txBufInit txBufSize).cur packet
    simp only [Except.map, BufCtx.bytes, Nat.add_sub_cancel_left, hread]

end Written

end NcsProjects.MqttPackets
