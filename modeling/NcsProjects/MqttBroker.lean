import NcsProjects.MqttPackets

/-!
What a broker reads. A packet here is what it says, without its place in a buffer; the
readers follow the format and know nothing of the client. Whatever sequence of calls the
client library sends, the broker reads off the stream exactly these calls, with the
values that the caller gave.
-/
namespace NcsProjects.MqttBroker

open CStrings MqttPackets WireFormats

structure Will where
  topic : List Byte
  message : List Byte
  qos : Byte
  retain : Bool
  deriving DecidableEq

structure Connect where
  protocol : List Byte
  version : Byte
  cleanSession : Bool
  keepalive : BitVec 16
  clientId : List Byte
  will : Option Will
  userName : Option (List Byte)
  password : Option (List Byte)
  deriving DecidableEq

structure Publish where
  dup : Bool
  qos : Byte
  retain : Bool
  topic : List Byte
  messageId : Option (BitVec 16)
  payload : List Byte
  deriving DecidableEq

inductive Packet
  | connect (c : Connect)
  | publish (p : Publish)
  | puback (messageId : BitVec 16)
  | pubrel (messageId : BitVec 16)
  | subscribe (messageId : BitVec 16) (topics : List Topic)
  | pingreq
  | disconnect
  deriving DecidableEq

def readWill (flags : Byte) : Reader (Option Will) :=
  Reader.optional (flags.getLsbD 2) (Reader.string.bind fun topic =>
    Reader.string.bind fun message =>
      Reader.pure ⟨topic, message, flags >>> 3 &&& 0x03#8, flags.getLsbD 5⟩)

def readConnect : Reader Connect :=
  Reader.string.bind fun protocol => Reader.byte.bind fun version =>
  Reader.byte.bind fun flags => Reader.uint16.bind fun keepalive =>
  Reader.string.bind fun clientId => (readWill flags).bind fun will =>
  (Reader.optional (flags.getLsbD 7) Reader.string).bind fun userName =>
  (Reader.optional (flags.getLsbD 6) Reader.string).bind fun password =>
  Reader.pure ⟨protocol, version, flags.getLsbD 1, keepalive, clientId, will, userName, password⟩

def readTopic : Reader Topic :=
  Reader.string.bind fun topic => Reader.byte.bind fun qos => Reader.pure ⟨topic, qos⟩

/-- The payload is what the variable header leaves. -/
def readPublish (type : Byte) : Reader Publish := fun body =>
  let qos := type >>> 1 &&& 0x03#8
  let header := Reader.string.bind fun topic =>
    (Reader.optional (qos ≠ 0#8) Reader.uint16).bind fun messageId =>
      Reader.pure (topic, messageId)
  (header body).map fun r =>
    (⟨type.getLsbD 3, qos, type.getLsbD 0, r.1.1, r.1.2, r.2⟩, [])

def readSubscribe (body : List Byte) : Option Packet :=
  (Reader.uint16 body).bind fun r =>
    (readTopic.many r.2.length r.2).map fun topics => .subscribe r.1 topics

/-- The packet with this first byte and this rest behind the length. -/
def parse (type : Byte) (body : List Byte) : Option Packet :=
  if type = 0x10#8 then (readConnect.whole body).map .connect
  else if type &&& 0xf0#8 = 0x30#8 then ((readPublish type).whole body).map .publish
  else if type = 0x40#8 then (Reader.uint16.whole body).map .puback
  else if type = 0x62#8 then (Reader.uint16.whole body).map .pubrel
  else if type = 0x82#8 then readSubscribe body
  else if type = 0xc0#8 ∧ body = [] then some .pingreq
  else if type = 0xe0#8 ∧ body = [] then some .disconnect
  else none

def readPacket : Reader Packet :=
  Reader.byte.bind fun type => (Reader.length 4).bind fun length =>
    (Reader.take length).bind fun body rest => (parse type body).map fun p => (p, rest)

/-- All packets of a stream. -/
def readStream (bytes : List Byte) : Option (List Packet) := readPacket.many bytes.length bytes

theorem reads_packet {type : Byte} {body : List Byte} {p : Packet}
    (hlen : body.length ≤ maxPayloadSize) (hparse : parse type body = some p) :
    Reads readPacket (fixedHeader type body.length ++ body) p := by
  have hlt : body.length < 128 ^ (3 + 1) := by
    unfold maxPayloadSize at hlen
    omega
  have h : Reads readPacket ([type] ++ (lengthBytes body.length ++ (body ++ []))) p := by
    refine (reads_byte type).bind ?_
    refine (reads_length hlt).bind ?_
    refine (reads_take body).bind ?_
    intro rest
    simp [hparse]
  simpa [fixedHeader] using h

/-! The calls of the client library, and what they mean. -/

inductive Call
  | connect (c : Client)
  | publish (p : PublishParam) (payload : List Byte)
  | puback (messageId : BitVec 16)
  | pubrel (messageId : BitVec 16)
  | subscribe (messageId : BitVec 16) (list : List Topic)
  | ping
  | disconnect

def clientWill (c : Client) : Option Will :=
  c.willTopic.map fun will => ⟨will.topic, c.willMessage.getD [], will.qos, c.willRetain⟩

namespace Call

def encode : Call → Encoder
  | .connect c => connectRequestEncode c
  | .publish p payload => publishEncode { p with payloadLen := payload.length }
  | .puback messageId => publishAckEncode messageId
  | .pubrel messageId => publishReleaseEncode messageId
  | .subscribe messageId list => subscribeEncode messageId list
  | .ping => pingRequestEncode
  | .disconnect => disconnectEncode

/-- What is sent right behind tx_buf. -/
def payload : Call → List Byte
  | .publish _ payload => payload
  | .connect _ | .puback _ | .pubrel _ | .subscribe _ _ | .ping | .disconnect => []

def packet : Call → Packet
  | .connect c => .connect ⟨protoDesc c.protocolVersion, c.protocolVersion, c.cleanSession,
      c.keepalive, c.clientId, clientWill c, c.userName, c.password⟩
  | .publish p payload => .publish ⟨p.dupFlag, p.qos, p.retainFlag, p.topic,
      if p.qos ≠ 0#8 then some p.messageId else none, payload⟩
  | .puback messageId => .puback messageId
  | .pubrel messageId => .pubrel messageId
  | .subscribe messageId list => .subscribe messageId list
  | .ping => .pingreq
  | .disconnect => .disconnect

/-- The bytes that the call sends. -/
def sent (txBufSize : ℕ) (c : Call) : Except ℤ (List Byte) :=
  (written c.encode txBufSize).map (· ++ c.payload)

def messageType : Call → Byte
  | .connect _ => 0x10#8
  | .publish p _ => p.header
  | .puback _ => 0x40#8
  | .pubrel _ => 0x62#8
  | .subscribe _ _ => 0x82#8
  | .ping => 0xc0#8
  | .disconnect => 0xe0#8

/-- The part of the packet in tx_buf, behind the fixed header. -/
def body : Call → List Byte
  | .connect c => c.body
  | .publish p _ => p.body
  | .puback messageId | .pubrel messageId => uint16Bytes messageId
  | .subscribe messageId list => subscribeBody messageId list
  | .ping | .disconnect => []

def length (c : Call) : ℕ := c.body.length + c.payload.length

def bytes (c : Call) : List Byte := fixedHeader c.messageType c.length ++ c.body ++ c.payload

/-- The part of tx_buf that the call uses: room for the largest fixed header, where the
header does not come first. -/
def room : Call → ℕ
  | .ping | .disconnect => 2
  | c => fixedHeaderMaxSize + c.body.length

def zeroId : Call → Bool
  | .publish p _ => p.qos ≠ 0#8 ∧ p.messageId = 0#16
  | .puback messageId | .pubrel messageId | .subscribe messageId _ => messageId = 0#16
  | .connect _ | .ping | .disconnect => false

/-- The call has a packet id where it needs one, and its packet fits into tx_buf and into
the length of a packet. -/
def fits (txBufSize : ℕ) (c : Call) : Bool :=
  !c.zeroId && decide (c.room ≤ txBufSize) && decide (c.length ≤ maxPayloadSize)

/-- The quality of service is one of mqtt_qos, and the parts of the packet are together in
the memory of the machine. -/
structure Valid (c : Call) : Prop where
  length : c.length < 2 ^ 32
  qos : match c with
    | .connect c => ∀ will ∈ c.willTopic, will.qos.toNat ≤ 2
    | .publish p _ => p.qos.toNat ≤ 2
    | .puback _ | .pubrel _ | .subscribe _ _ | .ping | .disconnect => True

end Call

theorem publish_type : ∀ dup retain, ∀ q : Byte, q.toNat ≤ 2 →
    messagesOptions 0x30#8 dup q retain ≠ 0x10#8 ∧
    messagesOptions 0x30#8 dup q retain &&& 0xf0#8 = 0x30#8 ∧
    (messagesOptions 0x30#8 dup q retain).getLsbD 3 = dup ∧
    messagesOptions 0x30#8 dup q retain >>> 1 &&& 0x03#8 = q ∧
    (messagesOptions 0x30#8 dup q retain).getLsbD 0 = retain := by
  decide

theorem reads_messageId (p : PublishParam) :
    Reads (Reader.optional (p.qos ≠ 0#8) Reader.uint16)
      (if p.qos ≠ 0#8 then uint16Bytes p.messageId else [])
      (if p.qos ≠ 0#8 then some p.messageId else none) := by
  by_cases hzero : p.qos = 0#8
  · have h := reads_optional uint16Bytes none fun x _ => reads_uint16 x
    simpa [hzero] using h
  · have h := reads_optional uint16Bytes (some p.messageId) fun x _ => reads_uint16 x
    simpa [hzero] using h

theorem parse_publish {p : PublishParam} {payload : List Byte} (hqos : p.qos.toNat ≤ 2)
    (htopic : p.topic.length < 2 ^ 16) :
    parse p.header (p.body ++ payload) = some (Call.publish p payload).packet := by
  obtain ⟨htype, hmask, hdup, hq, hretain⟩ := publish_type p.dupFlag p.retainFlag p.qos hqos
  have hheader : Reads (Reader.string.bind fun topic =>
      (Reader.optional (p.qos ≠ 0#8) Reader.uint16).bind fun messageId =>
        Reader.pure (topic, messageId)) (p.body ++ [])
      (p.topic, if p.qos ≠ 0#8 then some p.messageId else none) := by
    rw [PublishParam.body, List.append_assoc]
    refine (reads_string htopic).bind ?_
    refine (reads_messageId p).bind ?_
    exact reads_pure _
  rw [List.append_nil] at hheader
  have hread := hheader payload
  unfold PublishParam.header
  simp only [parse, if_neg htype, if_pos hmask, Reader.whole, readPublish, hq, hread, hdup, hretain,
    Option.map_some, Call.packet]

/-- The bits of the connect flags. -/
theorem connectFlags_bits (c : Client) :
    (connectFlags c).getLsbD 1 = c.cleanSession ∧
    (connectFlags c).getLsbD 2 = c.willTopic.isSome ∧
    (connectFlags c).getLsbD 6 = c.password.isSome ∧
    (connectFlags c).getLsbD 7 = c.userName.isSome ∧
    ∀ will ∈ c.willTopic, (connectFlags c).getLsbD 5 = c.willRetain ∧
      connectFlags c >>> 3 &&& 0x03#8 = will.qos &&& 0x03#8 := by
  have hnone : ∀ clean user pass,
      let flags := bit clean <<< 1
      let flags := if user = true then flags ||| 0x80#8 else flags
      let flags := if pass = true then flags ||| 0x40#8 else flags
      flags.getLsbD 1 = clean ∧ flags.getLsbD 2 = false ∧ flags.getLsbD 6 = pass ∧
        flags.getLsbD 7 = user := by decide
  have hsome : ∀ clean user pass retain, ∀ q : Byte, q.toNat ≤ 3 →
      let flags := bit clean <<< 1 ||| 0x04#8 ||| q <<< 3 ||| bit retain <<< 5
      let flags := if user = true then flags ||| 0x80#8 else flags
      let flags := if pass = true then flags ||| 0x40#8 else flags
      flags.getLsbD 1 = clean ∧ flags.getLsbD 2 = true ∧ flags.getLsbD 6 = pass ∧
        flags.getLsbD 7 = user ∧ flags.getLsbD 5 = retain ∧ flags >>> 3 &&& 0x03#8 = q := by decide
  have hlow : ∀ q : Byte, (q &&& 0x03#8).toNat ≤ 3 := by decide
  cases hwill : c.willTopic with
  | none =>
    obtain ⟨h1, h2, h6, h7⟩ := hnone c.cleanSession c.userName.isSome c.password.isSome
    simp only [connectFlags, hwill]
    exact ⟨h1, h2, h6, h7, by rintro will ⟨⟩⟩
  | some will =>
    obtain ⟨h1, h2, h6, h7, h5, hq⟩ := hsome c.cleanSession c.userName.isSome c.password.isSome
      c.willRetain (will.qos &&& 0x03#8) (hlow will.qos)
    simp only [connectFlags, hwill]
    refine ⟨h1, h2, h6, h7, ?_⟩
    rintro w ⟨⟩
    exact ⟨h5, hq⟩

/-- No string of the client is longer than its length field can say. -/
structure Short (c : Client) : Prop where
  clientId : c.clientId.length < 2 ^ 16
  willTopic : ∀ will ∈ c.willTopic, will.topic.length < 2 ^ 16
  willMessage : ∀ message ∈ c.willMessage, c.willTopic.isSome → message.length < 2 ^ 16
  userName : ∀ name ∈ c.userName, name.length < 2 ^ 16
  password : ∀ word ∈ c.password, word.length < 2 ^ 16

theorem reads_will {c : Client} (h : Short c)
    (hqos : ∀ will ∈ c.willTopic, will.qos.toNat ≤ 2) :
    Reads (readWill (connectFlags c)) (willBytes c) (clientWill c) := by
  have hlow : ∀ q : Byte, q.toNat ≤ 2 → q &&& 0x03#8 = q := by decide
  obtain ⟨_, h2, _, _, hbits⟩ := connectFlags_bits c
  unfold readWill
  rw [h2]
  cases hwill : c.willTopic with
  | none =>
    simp only [willBytes, clientWill, hwill]
    exact reads_pure none
  | some will =>
    obtain ⟨h5, h3⟩ := hbits will hwill
    rw [hlow will.qos (hqos will hwill)] at h3
    have hmessage : (c.willMessage.getD []).length < 2 ^ 16 := by
      cases hm : c.willMessage with
      | none => exact Nat.two_pow_pos 16
      | some message => exact h.willMessage message hm (by rw [hwill]; rfl)
    simp only [willBytes, clientWill, hwill, Option.isSome_some, Option.map_some, h3, h5]
    have hread : Reads (Reader.string.bind fun topic => Reader.string.bind fun message =>
        Reader.pure ⟨topic, message, will.qos, c.willRetain⟩)
        (stringBytes will.topic ++ (stringBytes (c.willMessage.getD []) ++ []))
        (⟨will.topic, c.willMessage.getD [], will.qos, c.willRetain⟩ : Will) := by
      refine (reads_string (h.willTopic will hwill)).bind ?_
      refine (reads_string hmessage).bind ?_
      exact reads_pure _
    have hsome := reads_optional (fun w : Will =>
      stringBytes w.topic ++ (stringBytes w.message ++ []))
      (some ⟨will.topic, c.willMessage.getD [], will.qos, c.willRetain⟩)
      (by rintro w ⟨⟩; exact hread)
    simpa using hsome

theorem reads_connect {c : Client} (h : Short c)
    (hqos : ∀ will ∈ c.willTopic, will.qos.toNat ≤ 2) :
    Reads readConnect c.body ⟨protoDesc c.protocolVersion, c.protocolVersion, c.cleanSession,
      c.keepalive, c.clientId, clientWill c, c.userName, c.password⟩ := by
  obtain ⟨h1, _, h6, h7, _⟩ := connectFlags_bits c
  have hproto : (protoDesc c.protocolVersion).length < 2 ^ 16 := by
    unfold protoDesc
    split <;> decide
  have hall : Reads readConnect (stringBytes (protoDesc c.protocolVersion) ++
      ([c.protocolVersion] ++ ([connectFlags c] ++ (uint16Bytes c.keepalive ++
      (stringBytes c.clientId ++ (willBytes c ++ ((c.userName.map stringBytes).getD [] ++
      ((c.password.map stringBytes).getD [] ++ [])))))))) ⟨protoDesc c.protocolVersion,
      c.protocolVersion, c.cleanSession, c.keepalive, c.clientId, clientWill c, c.userName,
      c.password⟩ := by
    refine (reads_string hproto).bind ?_
    refine (reads_byte c.protocolVersion).bind ?_
    refine (reads_byte (connectFlags c)).bind ?_
    rw [h1, h6, h7]
    refine (reads_uint16 c.keepalive).bind ?_
    refine (reads_string h.clientId).bind ?_
    refine (reads_will h hqos).bind ?_
    refine (reads_optional stringBytes c.userName fun name hname =>
      reads_string (h.userName name hname)).bind ?_
    refine (reads_optional stringBytes c.password fun word hword =>
      reads_string (h.password word hword)).bind ?_
    exact reads_pure _
  simpa [Client.body] using hall

theorem parse_connect {c : Client} (h : Short c)
    (hqos : ∀ will ∈ c.willTopic, will.qos.toNat ≤ 2) :
    parse 0x10#8 c.body = some (Call.connect c).packet := by
  simp only [parse, if_true, (reads_connect h hqos).whole, Option.map_some, Call.packet]

theorem topic_bytes_ne_nil (t : Topic) : t.bytes ≠ [] := by
  simp [Topic.bytes]

theorem parse_subscribe (messageId : BitVec 16) {list : List Topic}
    (h : ∀ t ∈ list, t.topic.length < 2 ^ 16) :
    parse 0x82#8 (subscribeBody messageId list) = some (.subscribe messageId list) := by
  have htopic : ∀ t ∈ list, Reads readTopic t.bytes t := by
    intro t ht
    have hread : Reads readTopic (stringBytes t.topic ++ ([t.qos] ++ [])) t := by
      refine (reads_string (h t ht)).bind ?_
      refine (reads_byte t.qos).bind ?_
      exact reads_pure _
    simpa [Topic.bytes] using hread
  have hid := reads_uint16 messageId (list.flatMap Topic.bytes)
  have hmany := many_reads id list htopic (fun t _ => topic_bytes_ne_nil t)
    (length_le_flatMap list fun t _ => topic_bytes_ne_nil t)
  rw [List.map_id] at hmany
  have htype : ¬ (0x82#8 = 0x10#8) ∧ ¬ (0x82#8 &&& 0xf0#8 = 0x30#8) ∧ ¬ (0x82#8 = 0x40#8) ∧
      ¬ (0x82#8 = 0x62#8) := by decide
  obtain ⟨h1, h2, h3, h4⟩ := htype
  simp only [parse, if_neg h1, if_neg h2, if_neg h3, if_neg h4, if_true, readSubscribe,
    subscribeBody, hid, Option.bind_some, hmany, Option.map_some]

theorem short_of_body {c : Client} (h : c.body.length < 2 ^ 16) : Short c := by
  have hopt (str : Option (List Byte)) : ∀ s ∈ str,
      s.length ≤ ((str.map stringBytes).getD []).length := by
    rintro s ⟨⟩
    simp
  simp only [Client.body, List.length_append, List.length_cons, stringBytes_length,
    uint16Bytes_length] at h
  refine ⟨by omega, ?_, ?_, ?_, ?_⟩
  · intro will hwill
    simp only [willBytes, Option.mem_def.mp hwill, List.length_append, stringBytes_length] at h
    omega
  · intro message hmessage hsome
    obtain ⟨will, hwill⟩ := Option.isSome_iff_exists.mp hsome
    simp only [willBytes, hwill, Option.mem_def.mp hmessage, Option.getD_some, List.length_append,
      stringBytes_length] at h
    omega
  · intro name hname
    have hle := hopt c.userName name hname
    omega
  · intro word hword
    have hle := hopt c.password word hword
    omega

/-- What a call means is what its bytes say. -/
theorem parse_call {c : Call} (hvalid : c.Valid) (hlen : c.body.length < 2 ^ 16) :
    parse c.messageType (c.body ++ c.payload) = some c.packet := by
  cases c with
  | connect c =>
    simp only [Call.messageType, Call.body, Call.payload, List.append_nil]
    exact parse_connect (short_of_body hlen) hvalid.qos
  | publish p payload =>
    have htopic : p.topic.length < 2 ^ 16 := by
      simp only [Call.body, PublishParam.body, List.length_append, stringBytes_length] at hlen
      omega
    exact parse_publish hvalid.qos htopic
  | puback messageId | pubrel messageId =>
    simp only [Call.messageType, Call.body, Call.payload, List.append_nil]
    simp [parse, (reads_uint16 messageId).whole, Call.packet]
  | subscribe messageId list =>
    simp only [Call.messageType, Call.body, Call.payload, List.append_nil]
    refine parse_subscribe messageId ?_
    intro t ht
    have hle := length_le_flatMap_of_mem Topic.bytes ht
    simp only [Call.body, subscribeBody, List.length_append] at hlen
    simp only [Topic.bytes, List.length_append, stringBytes_length] at hle
    omega
  | ping | disconnect => simp [Call.messageType, Call.body, Call.payload, parse, Call.packet]

/-- A call is refused for a packet id of zero, or because its packet does not fit into
tx_buf, or because it is too long for MQTT; otherwise it sends its packet. -/
theorem sent_eq {txBufSize : ℕ} (hsize : fixedHeaderMaxSize ≤ txBufSize)
    (hlt : txBufSize < 2 ^ 32) {c : Call} (hlen : c.length < 2 ^ 32) : c.sent txBufSize =
    if c.zeroId = true then .error einval
    else if txBufSize < c.room then .error enomem
    else if maxPayloadSize < c.length then .error emsgsize
    else .ok c.bytes := by
  have hmap (bytes payload : List Byte) :
      (Except.ok bytes : Except ℤ (List Byte)).map (· ++ payload) = .ok (bytes ++ payload) := rfl
  have hfail (e : ℤ) (payload : List Byte) :
      (Except.error e : Except ℤ (List Byte)).map (· ++ payload) = .error e := rfl
  have hpacket (packet : List Byte) (h : packet.length = 2) :
      written (packPacket packet) txBufSize = .ok packet := by
    have hfits : ¬ txBufSize < packet.length := by
      unfold fixedHeaderMaxSize at hsize
      omega
    rw [written_packPacket hlt, if_neg hfits]
  cases c with
  | connect c =>
    have h := written_connectRequestEncode hsize hlt c hlen
    simp only [Call.sent, Call.encode, h, apply_ite (Except.map (· ++ _)), hmap, hfail]
    rfl
  | publish p payload =>
    have h := written_publishEncode hsize hlt { p with payloadLen := payload.length } hlen
    simp only [Call.sent, Call.encode, h, apply_ite (Except.map (· ++ _)), hmap, hfail, Call.zeroId,
      decide_eq_true_eq]
    rfl
  | puback messageId | pubrel messageId =>
    simp only [Call.sent, Call.encode, publishAckEncode, publishReleaseEncode,
      written_idOnly hsize hlt, apply_ite (Except.map (· ++ _)), hmap, hfail, Call.zeroId,
      decide_eq_true_eq, Call.length, Call.body, Call.payload, uint16Bytes_length, List.length_nil,
      Nat.add_zero]
    rfl
  | subscribe messageId list =>
    have h := written_subscribeEncode hsize hlt messageId list hlen
    simp only [Call.sent, Call.encode, h, apply_ite (Except.map (· ++ _)), hmap, hfail, Call.zeroId,
      decide_eq_true_eq]
    rfl
  | ping | disconnect =>
    have hroom : ¬ txBufSize < 2 := by
      unfold fixedHeaderMaxSize at hsize
      omega
    have hzero : lengthBytes 0 = [0#8] := by
      rw [lengthBytes]
      rfl
    simp only [Call.sent, Call.encode, pingRequestEncode, disconnectEncode, hpacket, hmap,
      List.length_cons, List.length_nil, Call.zeroId, Call.room, if_neg hroom, Call.bytes, Call.length, Call.body,
      Call.payload, Call.messageType, fixedHeader, hzero]
    rfl

theorem isOk_sent {txBufSize : ℕ} (hsize : fixedHeaderMaxSize ≤ txBufSize)
    (hlt : txBufSize < 2 ^ 32) {c : Call} (hlen : c.length < 2 ^ 32) :
    (c.sent txBufSize).isOk = c.fits txBufSize := by
  rw [sent_eq hsize hlt hlen, Call.fits]
  by_cases hid : c.zeroId = true
  · rw [if_pos hid, hid]
    rfl
  by_cases hroom : txBufSize < c.room
  · rw [if_neg hid, if_pos hroom, decide_eq_false (by omega), Bool.and_false, Bool.false_and]
    rfl
  by_cases hlong : maxPayloadSize < c.length
  · rw [if_neg hid, if_neg hroom, if_pos hlong, decide_eq_false (Nat.not_le_of_lt hlong),
      Bool.and_false]
    rfl
  · rw [if_neg hid, if_neg hroom, if_neg hlong, eq_false_of_ne_true hid,
      decide_eq_true (Nat.le_of_not_lt hroom), decide_eq_true (Nat.le_of_not_lt hlong)]
    rfl

/-- What a sequence of calls puts on the wire. -/
def stream (txBufSize : ℕ) (calls : List Call) : List Byte :=
  calls.flatMap fun c => match c.sent txBufSize with
    | .ok bytes => bytes
    | .error _ => []

theorem reads_sent {txBufSize : ℕ} (hsize : fixedHeaderMaxSize ≤ txBufSize)
    (hlt : txBufSize ≤ 2 ^ 16) {c : Call} (hvalid : c.Valid)
    (hok : (c.sent txBufSize).isOk = true) :
    c.sent txBufSize = .ok c.bytes ∧ Reads readPacket c.bytes c.packet := by
  have hsent := sent_eq hsize (by omega) hvalid.length
  have hroom : fixedHeaderMaxSize + c.body.length ≤ c.room ∨ c.body = [] := by
    cases c with
    | ping | disconnect => exact Or.inr rfl
    | connect c | publish p payload | puback id | pubrel id | subscribe id list =>
      exact Or.inl (Nat.le_refl _)
  rw [hsent] at hok ⊢
  by_cases hid : c.zeroId = true
  · rw [if_pos hid] at hok
    cases hok
  by_cases hfits : txBufSize < c.room
  · rw [if_neg hid, if_pos hfits] at hok
    cases hok
  by_cases hlong : maxPayloadSize < c.length
  · rw [if_neg hid, if_neg hfits, if_pos hlong] at hok
    cases hok
  have hbody : c.body.length < 2 ^ 16 := by
    rcases hroom with hroom | hnil
    · unfold fixedHeaderMaxSize at hroom
      omega
    · rw [hnil]
      exact Nat.two_pow_pos 16
  have hlen : (c.body ++ c.payload).length ≤ maxPayloadSize := by
    rw [List.length_append]
    exact Nat.le_of_not_lt hlong
  rw [if_neg hid, if_neg hfits, if_neg hlong]
  refine ⟨rfl, ?_⟩
  have hread := reads_packet hlen (parse_call hvalid hbody)
  rw [List.length_append, ← List.append_assoc] at hread
  exact hread

/-- Items that give no bytes may be left out. -/
theorem flatMap_filter_eq {ι : Type*} {f g : ι → List Byte} {p : ι → Bool} {items : List ι}
    (hkeep : ∀ i ∈ items, p i = true → f i = g i) (hdrop : ∀ i ∈ items, p i = false → f i = []) :
    items.flatMap f = (items.filter p).flatMap g := by
  induction items with
  | nil => rfl
  | cons i items ih =>
    have hrest := ih (fun j hj => hkeep j (List.mem_cons_of_mem i hj))
      (fun j hj => hdrop j (List.mem_cons_of_mem i hj))
    cases hp : p i with
    | true =>
      rw [List.filter_cons, if_pos hp, List.flatMap_cons, List.flatMap_cons, hrest,
        hkeep i List.mem_cons_self hp]
    | false =>
      rw [List.filter_cons, if_neg (by simp [hp]), List.flatMap_cons, hrest,
        hdrop i List.mem_cons_self hp, List.nil_append]

theorem stream_eq {txBufSize : ℕ} (hsize : fixedHeaderMaxSize ≤ txBufSize)
    (hlt : txBufSize ≤ 2 ^ 16) {calls : List Call} (hvalid : ∀ c ∈ calls, c.Valid) :
    stream txBufSize calls = (calls.filter (Call.fits txBufSize)).flatMap Call.bytes := by
  have hok : ∀ c ∈ calls, (c.sent txBufSize).isOk = c.fits txBufSize := fun c hc =>
    isOk_sent hsize (by omega) (hvalid c hc).length
  refine flatMap_filter_eq ?_ ?_
  · intro c hc hfits
    rw [(reads_sent hsize hlt (hvalid c hc) ((hok c hc).trans hfits)).1]
  · intro c hc hno
    rw [← hok c hc] at hno
    cases hsent : c.sent txBufSize with
    | error e => rfl
    | ok bytes =>
      rw [hsent] at hno
      cases hno

/-- Packets of calls that fit are read one after another. -/
theorem readStream_calls {txBufSize : ℕ} (hsize : fixedHeaderMaxSize ≤ txBufSize)
    (hlt : txBufSize ≤ 2 ^ 16) {calls : List Call}
    (hcalls : ∀ c ∈ calls, c.fits txBufSize = true ∧ c.Valid) :
    readStream (calls.flatMap Call.bytes) = some (calls.map Call.packet) := by
  have hreads : ∀ c ∈ calls, Reads readPacket c.bytes c.packet := by
    intro c hc
    obtain ⟨hfits, hvalid⟩ := hcalls c hc
    have hok := isOk_sent hsize (by omega) hvalid.length
    exact (reads_sent hsize hlt hvalid (hok.trans hfits)).2
  have hne : ∀ c ∈ calls, c.bytes ≠ [] := by
    intro c _
    simp [Call.bytes, fixedHeader]
  exact many_reads Call.packet _ hreads hne (length_le_flatMap _ hne)

/-- Whatever calls are made, the broker reads from the stream exactly the ones that fit, in
their order, each with the values of its caller. -/
theorem broker_reads {txBufSize : ℕ} (hsize : fixedHeaderMaxSize ≤ txBufSize)
    (hlt : txBufSize ≤ 2 ^ 16) {calls : List Call} (hvalid : ∀ c ∈ calls, c.Valid) :
    readStream (stream txBufSize calls) =
      some ((calls.filter (Call.fits txBufSize)).map Call.packet) := by
  rw [stream_eq hsize hlt hvalid]
  refine readStream_calls hsize hlt fun c hc => ?_
  obtain ⟨hmem, hfits⟩ := List.mem_filter.mp hc
  exact ⟨hfits, hvalid c hmem⟩

/-- A message, an acknowledgement without an id and the end of a session. -/
def session : List Call :=
  [.publish ⟨[97#8], 1#8, 0, 7#16, false, false⟩ [1#8, 2#8], .puback 0#16, .disconnect]

theorem broker_reads_session :
    readStream (stream 64 session) = some ((session.filter (Call.fits 64)).map Call.packet) := by
  refine broker_reads (by decide) (by decide) fun c hc => ?_
  simp only [session, List.mem_cons, List.not_mem_nil, or_false] at hc
  rcases hc with rfl | rfl | rfl
  · exact ⟨by decide, by decide⟩
  · exact ⟨by decide, trivial⟩
  · exact ⟨by decide, trivial⟩

end NcsProjects.MqttBroker
