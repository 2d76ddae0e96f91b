import NcsProjects.MqttReceive

/-!
The packets of a broker, read by the client library. Whatever pieces they arrive in, and
whatever calls come in between, the application gets their events and their payloads in
the order in which they were sent, and nothing else. When the socket does not fail and
every packet fits into rx_buf, up to the payload of a PUBLISH, the connection is kept and
nothing stays behind.
-/
namespace NcsProjects.MqttDelivery

open ByteRegions CStrings MqttDecode MqttReceive StreamFraming WireFormats
open MqttPackets (maxPayloadSize version311)
open PublishPayload (Recv)

def ackType : AckKind → Byte
  | .puback => 0x40#8
  | .pubrec => 0x50#8
  | .pubrel => 0x62#8
  | .pubcomp => 0x70#8
  | .unsuback => 0xb0#8

/-- A packet that a broker sends. -/
inductive Sent
  | connack (sessionPresent : Bool) (code : Byte)
  | publish (topic : List Byte) (qos : BitVec 2) (id : BitVec 16) (dup retain : Bool)
    (message : List Byte)
  | ack (kind : AckKind) (id : BitVec 16)
  | suback (id : BitVec 16) (codes : List Byte)
  | pingresp

def publishType (qos : BitVec 2) (dup retain : Bool) : Byte :=
  0x30#8 ||| (BitVec.ofBool dup).setWidth 8 <<< 3 ||| qos.setWidth 8 <<< 1 |||
    (BitVec.ofBool retain).setWidth 8

namespace Sent

def type : Sent → Byte
  | connack _ _ => 0x20#8
  | publish _ qos _ dup retain _ => publishType qos dup retain
  | ack kind _ => ackType kind
  | suback _ _ => 0x90#8
  | pingresp => 0xd0#8

/-- The packet behind its fixed header, up to the payload of a PUBLISH. -/
def header : Sent → List Byte
  | connack sessionPresent code => [(BitVec.ofBool sessionPresent).setWidth 8, code]
  | publish topic qos id _ _ _ => stringBytes topic ++ if qos = 0#2 then [] else uint16Bytes id
  | ack _ id => uint16Bytes id
  | suback id codes => uint16Bytes id ++ codes
  | pingresp => []

def payload : Sent → List Byte
  | publish _ _ _ _ _ message => message
  | _ => []

def length (s : Sent) : ℕ := s.header.length + s.payload.length

def packet (s : Sent) : Framing.Packet Byte :=
  ⟨s.type :: lengthBytes s.length ++ s.header, s.payload⟩

def topic : Sent → List Byte
  | publish topic _ _ _ _ _ => topic
  | _ => []

/-- A length that can be written, and a topic whose length can. -/
def Valid (s : Sent) : Prop := s.length ≤ maxPayloadSize ∧ s.topic.length < 2 ^ 16

instance (s : Sent) : Decidable s.Valid := inferInstanceAs (Decidable (_ ∧ _))

/-- The event of the packet. That a message is sent again is not told. -/
def event (protocolVersion : Byte) : Sent → Event
  | connack sessionPresent code =>
    .connack (.ok ⟨if protocolVersion = version311 then some sessionPresent else none, code⟩)
  | publish topic qos id _ retain message =>
    .publish (.ok ⟨topic, qos.setWidth 8, message.length, if qos = 0#2 then none else some id,
      false, retain⟩)
  | ack kind id => .ack kind (.ok id)
  | suback id codes => .suback (.ok (id, codes))
  | pingresp => .pingresp

def delivered (protocolVersion : Byte) (s : Sent) : List Delivery :=
  .event (s.event protocolVersion) :: s.payload.map .payload

/-- The broker takes the client. -/
def Accepting : Sent → Prop
  | connack _ code => code = 0#8
  | _ => True

instance : (s : Sent) → Decidable s.Accepting
  | connack _ code => decEq code 0#8
  | publish _ _ _ _ _ _ | ack _ _ | suback _ _ | pingresp => isTrue trivial

end Sent

theorem lengthOf_of_reads {groups n : ℕ} {bytes rest : List Byte}
    (h : Reader.length groups bytes = some (n, rest)) :
    lengthOf groups bytes = .ok (n, bytes.length - rest.length) ∧ rest.length ≤ bytes.length := by
  induction groups generalizing n bytes with
  | zero => cases h
  | succ groups ih =>
    cases bytes with
    | nil => cases h
    | cons b bytes =>
      rw [Reader.length] at h
      rw [lengthOf]
      by_cases hlast : b.toNat < 128
      · rw [if_pos hlast] at h ⊢
        cases h
        simp
      · rw [if_neg hlast] at h ⊢
        cases hread : Reader.length groups bytes with
        | none =>
          rw [hread] at h
          cases h
        | some r =>
          obtain ⟨m, rest'⟩ := r
          rw [hread] at h
          cases h
          obtain ⟨hlength, hle⟩ := ih hread
          rw [hlength, List.length_cons, Nat.succ_sub hle]
          exact ⟨rfl, Nat.le_succ_of_le hle⟩

theorem headerOf_bytes (type : Byte) {n : ℕ} (h : n ≤ maxPayloadSize) (rest : List Byte) :
    headerOf (type :: lengthBytes n ++ rest) = .ok ⟨type, n, (lengthBytes n).length + 1⟩ := by
  have hlt : n < 128 ^ (3 + 1) := by
    simp only [maxPayloadSize] at h
    omega
  have hread := (lengthOf_of_reads (reads_length hlt rest)).1
  rw [List.length_append, Nat.add_sub_cancel] at hread
  rw [List.cons_append, headerOf, maxLengthBytes, hread]
  rfl

theorem Sent.frame_length (s : Sent) :
    s.packet.frame.length = (lengthBytes s.length).length + 1 + s.header.length := by
  simp only [Sent.packet, List.cons_append, List.length_cons, List.length_append]
  omega

/-- A fixed header has at most five bytes. -/
theorem Sent.frame_length_le {s : Sent} (h : s.Valid) :
    s.packet.frame.length ≤ s.header.length + 5 := by
  have hlt : s.length < 128 ^ (3 + 1) := by
    have hle := h.1
    simp only [maxPayloadSize] at hle
    omega
  have hbytes := lengthBytes_length_le hlt
  rw [Sent.frame_length]
  omega

theorem Sent.headerOf_frame (s : Sent) (h : s.Valid) : headerOf s.packet.frame =
    .ok ⟨s.type, s.length, (lengthBytes s.length).length + 1⟩ :=
  headerOf_bytes s.type h.1 s.header

theorem Sent.frame_drop (s : Sent) :
    s.packet.frame.drop ((lengthBytes s.length).length + 1) = s.header := by
  have hlen : (lengthBytes s.length).length + 1 = (s.type :: lengthBytes s.length).length := rfl
  rw [hlen]
  exact List.drop_left

theorem isPublish_type : ∀ (qos : BitVec 2) (dup retain : Bool),
    isPublish (publishType qos dup retain) = true := by
  decide

theorem publishType_qos : ∀ (qos : BitVec 2) (dup retain : Bool),
    (publishType qos dup retain &&& 0x06#8) >>> 1 = qos.setWidth 8 := by
  decide

theorem publishType_hasQos : ∀ (qos : BitVec 2) (dup retain : Bool),
    hasQos (publishType qos dup retain) = !decide (qos = 0#2) := by
  decide

theorem publishType_retain : ∀ (qos : BitVec 2) (dup retain : Bool),
    (publishType qos dup retain &&& 0x01#8).getLsbD 0 = retain := by
  decide

theorem dup_mask : ∀ type : Byte, (type &&& 0x08#8).getLsbD 0 = false := by
  decide

theorem qos_pos : ∀ qos : BitVec 2, 0#8 < qos.setWidth 8 ↔ ¬ qos = 0#2 := by
  decide

/-- The header of a PUBLISH that a broker sends is decoded. -/
theorem publishOf_sent {topic : List Byte} (htopic : topic.length < 2 ^ 16) (qos : BitVec 2)
    (id : BitVec 16) (dup retain : Bool) (message : List Byte) :
    let s := Sent.publish topic qos id dup retain message
    publishOf s.type s.length s.header = .ok ⟨topic, qos.setWidth 8, message.length,
      if qos = 0#2 then none else some id, false, retain⟩ := by
  intro s
  have hstring := reads_string htopic (if qos = 0#2 then [] else uint16Bytes id)
  simp only [s, publishOf, Sent.type, Sent.header, hstring, dup_mask, publishType_retain,
    publishType_qos, qos_pos]
  by_cases hqos : qos = 0#2
  · have hfits : ¬ s.length < topic.length + 2 := by
      simp only [s, Sent.length, Sent.header, if_pos hqos, List.append_nil, stringBytes_length]
      omega
    have hrest : s.length - (topic.length + 2) = message.length := by
      simp only [s, Sent.length, Sent.header, Sent.payload, if_pos hqos, List.append_nil,
        stringBytes_length]
      omega
    simp only [if_pos hqos, if_neg (not_not_intro hqos), publishDecode.publication]
    rw [if_neg hfits, hrest]
  · have hid := reads_uint16 id []
    rw [List.append_nil] at hid
    have hfits : ¬ s.length < topic.length + 2 + 2 := by
      simp only [s, Sent.length, Sent.header, if_neg hqos, List.length_append, stringBytes_length,
        uint16Bytes_length]
      omega
    have hrest : s.length - (topic.length + 2 + 2) = message.length := by
      simp only [s, Sent.length, Sent.header, Sent.payload, if_neg hqos, List.length_append,
        stringBytes_length, uint16Bytes_length]
      omega
    simp only [if_neg hqos, if_pos hqos, hid, publishDecode.publication]
    rw [if_neg hfits, hrest]

theorem messageIdOf_sent (id : BitVec 16) (rest : List Byte) :
    messageIdOf (uint16Bytes id ++ rest) = .ok id := by
  rw [messageIdOf, reads_uint16 id rest]

theorem subscribeAckOf_sent (id : BitVec 16) (codes : List Byte) :
    subscribeAckOf (uint16Bytes id ++ codes) = .ok (id, codes) := by
  rw [subscribeAckOf, reads_uint16 id codes]

theorem connackOf_sent (protocolVersion : Byte) (sessionPresent : Bool) (code : Byte) :
    connackOf protocolVersion [(BitVec.ofBool sessionPresent).setWidth 8, code] =
      .ok ⟨if protocolVersion = version311 then some sessionPresent else none, code⟩ := by
  have hflag : ((BitVec.ofBool sessionPresent).setWidth 8 : Byte).getLsbD 0 = sessionPresent := by
    cases sessionPresent <;> rfl
  rw [connackOf, hflag]

/-- A packet of a broker makes its event. -/
theorem Sent.eventOf_header (protocolVersion : Byte) (s : Sent) (h : s.Valid) :
    eventOf protocolVersion s.type s.length s.header = some (s.event protocolVersion) := by
  cases s with
  | connack sessionPresent code =>
    have hevent : eventOf protocolVersion 0x20#8 (Sent.connack sessionPresent code).length
        (Sent.connack sessionPresent code).header = some (.connack (connackOf protocolVersion
          [(BitVec.ofBool sessionPresent).setWidth 8, code])) := rfl
    rw [Sent.type, hevent, connackOf_sent]
    rfl
  | publish topic qos id dup retain message =>
    have htopic : topic.length < 2 ^ 16 := h.2
    have hparam := publishOf_sent htopic qos id dup retain message
    simp only [Sent.type] at hparam
    rw [Sent.type, eventOf_isPublish protocolVersion (isPublish_type qos dup retain), hparam]
    rfl
  | ack kind id =>
    have hid := messageIdOf_sent id []
    rw [List.append_nil] at hid
    have hevent : eventOf protocolVersion (ackType kind) (Sent.ack kind id).length
        (Sent.ack kind id).header = some (.ack kind (messageIdOf (uint16Bytes id))) := by
      cases kind <;> rfl
    rw [Sent.type, hevent, hid]
    rfl
  | suback id codes =>
    have hevent : eventOf protocolVersion 0x90#8 (Sent.suback id codes).length
        (Sent.suback id codes).header =
          some (.suback (subscribeAckOf (uint16Bytes id ++ codes))) := rfl
    rw [Sent.type, hevent, subscribeAckOf_sent]
    rfl
  | pingresp => rfl

theorem Sent.deliver_frame (protocolVersion : Byte) (s : Sent) (h : s.Valid) :
    deliver protocolVersion (.frame s.packet.frame) = [.event (s.event protocolVersion)] := by
  rw [MqttReceive.deliver_frame (s.headerOf_frame h)]
  simp only
  rw [s.frame_drop, s.eventOf_header protocolVersion h]
  rfl

theorem Sent.deliver_items (protocolVersion : Byte) (s : Sent) (h : s.Valid) :
    s.packet.items.flatMap (deliver protocolVersion) = s.delivered protocolVersion := by
  rw [Framing.Packet.items, List.flatMap_cons, s.deliver_frame protocolVersion h, deliver_data]
  rfl

theorem uint16At_bytes (before : List Byte) (n : BitVec 16) (behind : List Byte) :
    uint16At (before ++ (uint16Bytes n ++ behind)) before.length = n.toNat := by
  simp [uint16At, uint16Bytes, uint16Of_bytes]

theorem isPublish_ack (kind : AckKind) : isPublish (ackType kind) = false := by
  cases kind <;> decide

theorem Sent.publish_or (s : Sent) : (isPublish s.type = true ∧ ∃ topic qos id dup retain message,
    s = publish topic qos id dup retain message) ∨ isPublish s.type = false ∧ s.payload = [] := by
  cases s with
  | publish topic qos id dup retain message =>
    exact Or.inl ⟨isPublish_type qos dup retain, _, _, _, _, _, _, rfl⟩
  | connack => exact Or.inr ⟨show isPublish 0x20#8 = false by decide, rfl⟩
  | ack kind => exact Or.inr ⟨isPublish_ack kind, rfl⟩
  | suback => exact Or.inr ⟨show isPublish 0x90#8 = false by decide, rfl⟩
  | pingresp => exact Or.inr ⟨show isPublish 0xd0#8 = false by decide, rfl⟩

/-- The length of the topic stands behind the fixed header. -/
theorem topic_length {topic : List Byte} (htopic : topic.length < 2 ^ 16) (qos : BitVec 2)
    (id : BitVec 16) (dup retain : Bool) (message : List Byte) :
    let s := Sent.publish topic qos id dup retain message
    uint16At s.packet.frame ((lengthBytes s.length).length + 1) = topic.length := by
  intro s
  have hbytes : s.packet.frame = (s.type :: lengthBytes s.length) ++
      (uint16Bytes (BitVec.ofNat 16 topic.length) ++
        (topic ++ if qos = 0#2 then [] else uint16Bytes id)) := by
    simp only [s, Sent.packet, Sent.header, stringBytes, List.append_assoc]
  have hat := uint16At_bytes (s.type :: lengthBytes s.length) (BitVec.ofNat 16 topic.length)
    (topic ++ if qos = 0#2 then [] else uint16Bytes id)
  rw [← hbytes, BitVec.toNat_ofNat, Nat.mod_eq_of_lt htopic] at hat
  exact hat

/-- The size of the frame, once the fixed header and the length of a topic are there. -/
theorem Sent.frameSize_frame (s : Sent) (h : s.Valid) :
    frameSize s.packet.frame ⟨s.type, s.length, (lengthBytes s.length).length + 1⟩ =
        s.packet.frame.length ∧
      (isPublish s.type = true →
        (lengthBytes s.length).length + 1 + 2 ≤ s.packet.frame.length) := by
  have hlength := s.frame_length
  rcases s.publish_or with ⟨hpub, topic, qos, id, dup, retain, message, rfl⟩ | ⟨hpub, hpayload⟩
  · have htopic : topic.length < 2 ^ 16 := h.2
    have hat := topic_length htopic qos id dup retain message
    have hheader : (publish topic qos id dup retain message).header.length = topic.length + 2 +
        (if hasQos (publish topic qos id dup retain message).type then 2 else 0) := by
      simp only [Sent.header, Sent.type, publishType_hasQos, List.length_append, stringBytes_length]
      by_cases hqos : qos = 0#2 <;> simp [hqos]
    generalize publish topic qos id dup retain message = s at *
    refine ⟨?_, fun _ => by omega⟩
    rw [frameSize, if_pos hpub]
    simp only
    rw [if_neg (by omega), hat]
    omega
  · refine ⟨?_, fun hp => by rw [hpub] at hp; cases hp⟩
    rw [frameSize, hpub, hlength]
    simp only [Bool.false_eq_true, if_false]
    rw [Sent.length, hpayload]
    rfl

/-- A packet is a frame of the client's framing, with its payload behind it. -/
theorem Sent.complete (s : Sent) (h : s.Valid) : framing.Complete s.packet where
  whole := by
    show need s.packet.frame = 0
    rw [need_header (s.headerOf_frame h), (s.frameSize_frame h).1, Nat.sub_self]
  before := by
    intro p q hpq hq
    show 0 < need p
    have hhead := s.headerOf_frame h
    obtain ⟨hsize, htopic⟩ := s.frameSize_frame h
    have hlen : s.packet.frame.length = p.length + q.length := by rw [hpq, List.length_append]
    have hqpos := List.length_pos_iff.mpr hq
    by_cases hshort : p.length < 2
    · rw [need_short hshort]
      omega
    · have hne : p ≠ [] := by
        rintro rfl
        exact hshort (by decide)
      by_cases hagain : headerOf p = .error eagain
      · rw [need_agains hshort hagain]
        decide
      · have hsame := headerOf_append q hne hagain
        rw [← hpq, hhead] at hsame
        rw [need_header hsame.symm]
        have hpart := frameSize_or p q ⟨s.type, s.length, (lengthBytes s.length).length + 1⟩
        rw [← hpq, hsize] at hpart
        omega
  bulk := by
    show payloadLen s.packet.frame = s.payload.length
    rw [payloadLen, s.headerOf_frame h]
    simp only
    rw [s.frame_drop]
    rcases s.publish_or with ⟨hpub, topic, qos, id, dup, retain, message, rfl⟩ | ⟨hpub, hpayload⟩
    · have htopic : topic.length < 2 ^ 16 := h.2
      rw [if_pos hpub, publishOf_sent htopic qos id dup retain message]
      rfl
    · rw [hpub, hpayload]
      rfl

/-! A stream of such packets. -/

/-- What the broker sends. -/
def stream (packets : List Sent) : List Byte := packets.flatMap fun s => s.packet.bytes

theorem stream_packets (packets : List Sent) :
    stream packets = (packets.map Sent.packet).flatMap Framing.Packet.bytes := by
  rw [stream, List.flatMap_map]

theorem complete_packets {packets : List Sent} (h : ∀ s ∈ packets, s.Valid) :
    ∀ k ∈ packets.map Sent.packet, framing.Complete k := by
  intro k hk
  obtain ⟨s, hs, rfl⟩ := List.mem_map.mp hk
  exact s.complete (h s hs)

theorem deliver_packets (protocolVersion : Byte) {packets : List Sent}
    (h : ∀ s ∈ packets, s.Valid) :
    ((packets.map Sent.packet).flatMap Framing.Packet.items).flatMap (deliver protocolVersion) =
      packets.flatMap (Sent.delivered protocolVersion) := by
  induction packets with
  | nil => rfl
  | cons s packets ih =>
    have hrest := ih fun s' hs' => h s' (List.mem_cons_of_mem s hs')
    rw [List.map_cons, List.flatMap_cons, List.flatMap_append, hrest,
      s.deliver_items protocolVersion (h s List.mem_cons_self)]
    rfl

theorem Sent.event_err {protocolVersion : Byte} {s : Sent} (h : s.Accepting) :
    (s.event protocolVersion).err = 0 := by
  cases s with
  | connack sessionPresent code => exact if_pos h
  | publish | ack | suback | pingresp => rfl

/-- Frames in a part of the stream are the packets'. -/
theorem frame_of_part {packets : List Sent} (h : ∀ s ∈ packets, s.Valid)
    {consumed rest p : List Byte} (hstream : stream packets = consumed ++ rest)
    (hp : .frame p ∈ (framing.feed Framing.fresh consumed).2) :
    ∃ s ∈ packets, s.packet.frame = p := by
  rw [stream_packets] at hstream
  obtain ⟨⟨later, hlater⟩, -⟩ := framing.feed_part (complete_packets h) hstream
  have hmem : .frame p ∈ (packets.map Sent.packet).flatMap Framing.Packet.items := by
    rw [hlater]
    exact List.mem_append_left later hp
  obtain ⟨k, hk, hframe⟩ := Framing.packet_mem_frame hmem
  obtain ⟨s, hs, rfl⟩ := List.mem_map.mp hk
  exact ⟨s, hs, hframe⟩

theorem not_refused {protocolVersion : Byte} {packets : List Sent} (h : ∀ s ∈ packets, s.Valid)
    (haccepting : ∀ s ∈ packets, s.Accepting) {consumed rest : List Byte}
    (hstream : stream packets = consumed ++ rest) : ¬ Refused protocolVersion consumed := by
  rintro ⟨p, e, hp, hdeliver, hneg⟩
  obtain ⟨s, hs, rfl⟩ := frame_of_part h hstream hp
  rw [s.deliver_frame protocolVersion (h s hs)] at hdeliver
  cases hdeliver
  rw [Sent.event_err (haccepting s hs)] at hneg
  omega

/-- No byte of such a stream is read unframed. -/
theorem stage_packets {rxBufSize : ℕ} {protocolVersion : Byte} {packets : List Sent}
    {c : Client} (hvalid : ∀ s ∈ packets, s.Valid) (haccepting : ∀ s ∈ packets, s.Accepting)
    (h : Stage rxBufSize protocolVersion (stream packets) c) :
    ∃ consumed, stream packets = consumed ++ c.wire ∧
      c.log = (framing.feed Framing.fresh consumed).2.flatMap (deliver protocolVersion) := by
  obtain ⟨consumed, stray, hstream, hlog, hcause, -⟩ := h.spells
  rcases hcause with rfl | hrefused
  · rw [List.append_nil] at hstream
    rw [List.map_nil, List.append_nil] at hlog
    exact ⟨consumed, hstream, hlog⟩
  · rw [List.append_assoc] at hstream
    exact absurd hrefused (not_refused hvalid haccepting hstream)

theorem stage_delivers {rxBufSize : ℕ} {protocolVersion : Byte} {packets : List Sent}
    {c : Client} (hvalid : ∀ s ∈ packets, s.Valid) (haccepting : ∀ s ∈ packets, s.Accepting)
    (h : Stage rxBufSize protocolVersion (stream packets) c) :
    c.log <+: packets.flatMap (Sent.delivered protocolVersion) ∧
      (c.wire = [] → c.log = packets.flatMap (Sent.delivered protocolVersion)) := by
  have hall := deliver_packets protocolVersion hvalid
  obtain ⟨consumed, hstream, hlog⟩ := stage_packets hvalid haccepting h
  rw [stream_packets] at hstream
  obtain ⟨⟨later, hlater⟩, -⟩ := framing.feed_part (complete_packets hvalid) hstream
  constructor
  · rw [← hall, hlater, List.flatMap_append, hlog]
    exact List.prefix_append _ _
  · intro hempty
    rw [hempty, List.append_nil] at hstream
    rw [hlog, ← hall, ← hstream, framing.feed_packets (complete_packets hvalid)]

/-- A call in which the socket does not fail and nobody disconnects. -/
def Undisturbed : Call → Prop
  | .input answers _ => Delivers answers
  | .handled => True
  | .read _ answer length => (∀ a ∈ answer, ∃ k, a = Recv.bytes k) ∧ 0 < length
  | .disconnect _ => False

theorem stage_not_over {protocolVersion : Byte} {packets : List Sent}
    {c : Client} (hvalid : ∀ s ∈ packets, s.Valid) (haccepting : ∀ s ∈ packets, s.Accepting)
    (hopen : c.tcpConnected = true) {framed stray : List Byte}
    (sent : stream packets = framed ++ stray ++ c.wire)
    (refused : c.tcpConnected = true →
      (∃ err, c.handling = some err ∧ err < 0) ∧ Refused protocolVersion framed) : False := by
  rw [List.append_assoc] at sent
  exact not_refused hvalid haccepting sent (refused hopen).2

/-- A start of a packet that is left has the room that it needs. -/
theorem room_of_fits {rxBufSize : ℕ} (htwo : 2 ≤ rxBufSize) {packets : List Sent}
    (hvalid : ∀ s ∈ packets, s.Valid) (hfits : ∀ s ∈ packets, s.packet.frame.length ≤ rxBufSize)
    {consumed rest p : List Byte} (hstream : stream packets = consumed ++ rest)
    (hp : (framing.feed Framing.fresh consumed).1 = ⟨p, 0⟩) : p.length + need p ≤ rxBufSize := by
  rw [stream_packets] at hstream
  obtain ⟨-, hstart⟩ := framing.feed_part (complete_packets hvalid) hstream
  rcases hstart p hp with rfl | ⟨k, hk, z, hz⟩
  · exact htwo
  · obtain ⟨s, hs, rfl⟩ := List.mem_map.mp hk
    have hwhole : need s.packet.frame = 0 := (s.complete (hvalid s hs)).whole
    have happend := need_append p z
    have hlen := hfits s hs
    rw [hz, hwhole] at happend
    rw [← hz, List.length_append] at hlen
    omega

section

variable {rxBufSize : ℕ} {protocolVersion : Byte} {packets : List Sent}

/-- A call of mqtt_input does not lose the connection, and reads something if it can. -/
theorem input_keeps (hsize : rxBufSize < 2 ^ 32) (htwo : 2 ≤ rxBufSize)
    (hvalid : ∀ s ∈ packets, s.Valid) (haccepting : ∀ s ∈ packets, s.Accepting)
    (hfits : ∀ s ∈ packets, s.packet.frame.length ≤ rxBufSize) {c : Client}
    (h : Stage rxBufSize protocolVersion (stream packets) c) (hopen : c.tcpConnected = true)
    {answers : List Recv} (hdelivers : Delivers answers) (stale : ℕ) :
    let c' := step rxBufSize protocolVersion c (.input answers stale)
    c'.tcpConnected = true ∧ c'.disconnects = c.disconnects ∧ c'.wire.length ≤ c.wire.length ∧
      (c.handling = none → c.remaining = 0 → answers ≠ [] → c.wire ≠ [] →
        c'.wire.length < c.wire.length) := by
  intro c'
  cases h with
  | severed framed stray sent log refused =>
    exact (stage_not_over hvalid haccepting hopen sent refused).elim
  | notifying consumed sent log standing live accepted =>
    obtain ⟨err, herr, -⟩ := accepted
    have hsame : c' = c := by
      simp only [c', step, herr, Option.isSome_some, if_true]
    rw [hsame, herr]
    exact ⟨hopen, rfl, Nat.le_refl _, by rintro ⟨⟩⟩
  | reading consumed sent log standing live idle partway fits empty =>
    have hstep : c' = mqttInput rxBufSize protocolVersion answers stale c := by
      simp only [c', step, idle, Option.isSome_none, Bool.false_eq_true, if_false]
    rw [hstep]
    by_cases hpayload : 0 < c.remaining
    · have hsame : mqttInput rxBufSize protocolVersion answers stale c = c := by
        simp [mqttInput, live, hpayload]
      rw [hsame]
      exact ⟨hopen, rfl, Nat.le_refl _, fun _ hzero => by omega⟩
    · have hzero : c.remaining = 0 := by omega
      obtain ⟨r, bytes, hprogress, houtcome⟩ :=
        mqttInput_outcome protocolVersion hsize answers stale live hzero partway fits
      rw [hzero] at standing
      have hfed := progress_feed hprogress standing
      have hstream : stream packets = (consumed ++ bytes) ++ r.client.wire := by
        rw [List.append_assoc, ← hprogress.wire]
        exact sent
      have hlive : r.client.tcpConnected = true := by rw [hprogress.frame, live]
      have hkept : r.client.disconnects = c.disconnects := by rw [hprogress.frame]
      have hwire : c.wire.length = bytes.length + r.client.wire.length := by
        rw [hprogress.wire, List.length_append]
      have hread : need r.start = 0 → 0 < bytes.length := by
        intro hdone
        rw [List.length_pos_iff]
        rintro rfl
        rw [hprogress.start, List.append_nil] at hdone
        exact partway hdone
      generalize mqttInput rxBufSize protocolVersion answers stale c = c' at houtcome ⊢
      cases houtcome with
      | waits more failure =>
        refine ⟨hlive, hkept, by omega, fun _ _ hsome hne => ?_⟩
        have hpos : 0 < bytes.length := by
          rw [List.length_pos_iff]
          intro hnil
          rcases failure.waiting rfl hdelivers hnil with hnone | hempty
          · exact hsome hnone
          · rw [hprogress.wire, hnil, hempty] at hne
            exact hne rfl
        omega
      | lost e cause =>
        exfalso
        rcases cause with ⟨more, hne, failure⟩ | ⟨hdone, hwrong⟩
        · cases failure with
          | waits => exact hne rfl
          | noRoom hroom =>
            have hspace := room_of_fits htwo hvalid hfits hstream (by rw [hfed, if_neg more])
            rw [start_length] at hspace
            omega
          | socket among failed => exact not_delivers among failed hdelivers
        · obtain ⟨s, hs, hframe⟩ := frame_of_part hvalid hstream (p := r.start) (by
            rw [hfed, if_pos hdone]
            simp)
          rw [← hframe, s.headerOf_frame (hvalid s hs)] at hwrong
          cases hwrong
      | ignored h whole =>
        have hpos := hread whole
        refine ⟨hlive, hkept, ?_, fun _ _ _ _ => ?_⟩
        · simp only
          omega
        · simp only
          omega
      | noted h e whole =>
        have hpos := hread whole
        obtain ⟨connected, remaining, unackedPing, habsorb⟩ := absorb_frame e stale r.client
        simp only [habsorb]
        exact ⟨hlive, hkept, by omega, fun _ _ _ _ => by omega⟩

theorem handled_keeps (hvalid : ∀ s ∈ packets, s.Valid) (haccepting : ∀ s ∈ packets, s.Accepting)
    {c : Client} (h : Stage rxBufSize protocolVersion (stream packets) c)
    (hopen : c.tcpConnected = true) :
    (handled c).tcpConnected = true ∧ (handled c).disconnects = c.disconnects ∧
      (handled c).wire = c.wire ∧ (handled c).remaining = c.remaining ∧
      (handled c).handling = none := by
  cases h with
  | reading _ _ _ _ _ idle =>
    rw [handled, idle]
    exact ⟨hopen, rfl, rfl, rfl, idle⟩
  | notifying _ _ _ _ _ accepted =>
    obtain ⟨err, herr, hnonneg⟩ := accepted
    rw [handled, herr]
    simp only
    rw [if_neg (by omega)]
    exact ⟨hopen, rfl, rfl, rfl, rfl⟩
  | severed framed stray sent log refused =>
    exact (stage_not_over hvalid haccepting hopen sent refused).elim

/-- A call that reads payload does not lose the connection, and reads some if it can. -/
theorem read_keeps {c : Client} (hopen : c.tcpConnected = true) (block : Bool)
    (answer : Option Recv) (length : ℕ) (hanswer : ∀ a ∈ answer, ∃ k, a = Recv.bytes k)
    (hpos : 0 < length) :
    let c' := readPublishPayload block answer length c
    c'.tcpConnected = true ∧ c'.disconnects = c.disconnects ∧ c'.wire.length ≤ c.wire.length ∧
      (0 < c.remaining → answer.isSome → c.wire ≠ [] → c'.wire.length < c.wire.length) := by
  intro c'
  by_cases hzero : c.remaining = 0
  · have hsame : c' = c := if_pos hzero
    rw [hsame]
    exact ⟨hopen, rfl, Nat.le_refl _, fun hpos => by omega⟩
  · have hread : c' = _ := if_neg hzero
    clear_value c'
    by_cases hthere : ∃ k, answer = some (.bytes k) ∧ c.wire ≠ []
    · obtain ⟨k, rfl, hwire⟩ := hthere
      have hgot : transportRead block (some (.bytes k)) (min length c.remaining) c.wire =
          some (.ok (c.wire.take (min (min length c.remaining) (k + 1)))) := if_neg hwire
      have hlen := List.length_pos_iff.mpr hwire
      have hne : ¬ c.wire.take (min (min length c.remaining) (k + 1)) = [] := by
        rw [List.take_eq_nil_iff]
        rintro (hnone | hnil)
        · omega
        · exact hwire hnil
      have hsome := List.length_pos_iff.mpr hne
      rw [hgot] at hread
      simp only [if_neg hne] at hread
      rw [hread]
      refine ⟨hopen, rfl, ?_, fun _ _ _ => ?_⟩
      · simp only [List.length_drop]
        omega
      · simp only [List.length_drop]
        omega
    · have hsame : c' = c := by
        have hnothing : transportRead block answer (min length c.remaining) c.wire =
            if block then none else some (.error eagain) := by
          cases answer with
          | none => rfl
          | some a =>
            obtain ⟨k, rfl⟩ := hanswer a rfl
            have hempty : c.wire = [] := by
              by_contra hne
              exact hthere ⟨k, rfl, hne⟩
            exact if_pos hempty
        rw [hread, hnothing]
        cases block <;> rfl
      rw [hsame]
      refine ⟨hopen, rfl, Nat.le_refl _, fun _ hsome hne => ?_⟩
      obtain ⟨a, rfl⟩ := Option.isSome_iff_exists.mp hsome
      obtain ⟨k, rfl⟩ := hanswer a rfl
      exact absurd ⟨k, rfl, hne⟩ hthere

/-- A client that is connected, has not lost the connection, and reads the packets. -/
def Up (rxBufSize : ℕ) (protocolVersion : Byte) (packets : List Sent) (c : Client) : Prop :=
  Stage rxBufSize protocolVersion (stream packets) c ∧ c.tcpConnected = true ∧ c.disconnects = []

theorem up_step (hsize : rxBufSize < 2 ^ 32) (htwo : 2 ≤ rxBufSize)
    (hvalid : ∀ s ∈ packets, s.Valid) (haccepting : ∀ s ∈ packets, s.Accepting)
    (hfits : ∀ s ∈ packets, s.packet.frame.length ≤ rxBufSize) {c : Client}
    (h : Up rxBufSize protocolVersion packets c) {call : Call} (hcall : Undisturbed call) :
    Up rxBufSize protocolVersion packets (step rxBufSize protocolVersion c call) := by
  obtain ⟨hstage, hopen, hkept⟩ := h
  refine ⟨stage_step hsize hstage call, ?_⟩
  cases call with
  | input answers stale =>
    obtain ⟨hlive, hsame, -⟩ :=
      input_keeps hsize htwo hvalid haccepting hfits hstage hopen hcall stale
    exact ⟨hlive, hsame.trans hkept⟩
  | handled =>
    obtain ⟨hlive, hsame, -⟩ := handled_keeps hvalid haccepting hstage hopen
    exact ⟨hlive, hsame.trans hkept⟩
  | read block answer length =>
    obtain ⟨hlive, hsame, -⟩ := read_keeps hopen block _ _ hcall.1 hcall.2
    exact ⟨hlive, hsame.trans hkept⟩
  | disconnect result => exact hcall.elim

theorem up_run (hsize : rxBufSize < 2 ^ 32) (htwo : 2 ≤ rxBufSize)
    (hvalid : ∀ s ∈ packets, s.Valid) (haccepting : ∀ s ∈ packets, s.Accepting)
    (hfits : ∀ s ∈ packets, s.packet.frame.length ≤ rxBufSize) (calls : List Call)
    (hcalls : ∀ call ∈ calls, Undisturbed call) {c : Client}
    (h : Up rxBufSize protocolVersion packets c) :
    Up rxBufSize protocolVersion packets (run rxBufSize protocolVersion calls c) := by
  induction calls generalizing c with
  | nil => exact h
  | cons call calls ih =>
    exact ih (fun call' hmem => hcalls call' (List.mem_cons_of_mem call hmem))
      (up_step hsize htwo hvalid haccepting hfits h (hcalls call List.mem_cons_self))

theorem up_initial (rxBufSize : ℕ) (protocolVersion : Byte) (packets : List Sent) :
    Up rxBufSize protocolVersion packets (.initial (stream packets)) :=
  ⟨stage_initial _ _ _, rfl, rfl⟩

/-- The event handler returns, mqtt_input is called, its handler returns, and a byte of a
payload is read. -/
def round : List Call :=
  [.handled, .input [.bytes 0] 0, .handled, .read false (some (.bytes 0)) 1]

theorem round_undisturbed : ∀ call ∈ round, Undisturbed call := by
  intro call hcall
  simp only [round, List.mem_cons, List.not_mem_nil, or_false] at hcall
  rcases hcall with rfl | rfl | rfl | rfl
  · trivial
  · intro a ha
    exact ⟨0, List.mem_singleton.mp ha⟩
  · trivial
  · exact ⟨fun a ha => ⟨0, (Option.some.inj ha).symm⟩, Nat.one_pos⟩

theorem run_cons (call : Call) (calls : List Call) (c : Client) :
    run rxBufSize protocolVersion (call :: calls) c =
      run rxBufSize protocolVersion calls (step rxBufSize protocolVersion c call) := rfl

/-- A round reads at least one byte, as long as there is one. -/
theorem round_reads (hsize : rxBufSize < 2 ^ 32) (htwo : 2 ≤ rxBufSize)
    (hvalid : ∀ s ∈ packets, s.Valid) (haccepting : ∀ s ∈ packets, s.Accepting)
    (hfits : ∀ s ∈ packets, s.packet.frame.length ≤ rxBufSize) {c : Client}
    (h : Up rxBufSize protocolVersion packets c) :
    (run rxBufSize protocolVersion round c).wire.length ≤ c.wire.length - 1 := by
  obtain ⟨hstage, hopen, -⟩ := h
  obtain ⟨hopen₁, -, hwire₁, -, hidle₁⟩ := handled_keeps hvalid haccepting hstage hopen
  have hstage₁ := stage_handled hstage
  simp only [round, run_cons]
  change (readPublishPayload false (some (.bytes 0)) 1
    (handled (step rxBufSize protocolVersion (handled c) (.input [.bytes 0] 0)))).wire.length ≤ _
  rw [← hwire₁]
  generalize handled c = c₁ at hopen₁ hidle₁ hstage₁ ⊢
  have hdelivers : Delivers [.bytes 0] := fun a ha => ⟨0, List.mem_singleton.mp ha⟩
  obtain ⟨hopen₂, -, hle₂, hlt₂⟩ :=
    input_keeps hsize htwo hvalid haccepting hfits hstage₁ hopen₁ hdelivers 0
  have hstage₂ := stage_step hsize hstage₁ (.input [.bytes 0] 0)
  obtain ⟨hopen₃, -, hwire₃, hremaining₃, -⟩ := handled_keeps hvalid haccepting hstage₂ hopen₂
  obtain ⟨-, -, hle₄, hlt₄⟩ := read_keeps hopen₃ false (some (.bytes 0)) 1
    (fun a ha => ⟨0, (Option.some.inj ha).symm⟩) Nat.one_pos
  rw [hwire₃] at hle₄ hlt₄
  by_cases hempty : c₁.wire = []
  · rw [hempty] at hle₂ ⊢
    rw [List.length_nil] at hle₂
    omega
  · by_cases hzero : c₁.remaining = 0
    · have hless := hlt₂ hidle₁ hzero (by simp) hempty
      omega
    · have hsame : step rxBufSize protocolVersion c₁ (.input [.bytes 0] 0) = c₁ := by
        simp [step, mqttInput, hopen₁, hidle₁, Nat.pos_of_ne_zero hzero]
      rw [hsame] at hremaining₃ hlt₄ ⊢
      have hless := hlt₄ (by omega) rfl hempty
      omega

theorem run_append (calls later : List Call) (c : Client) :
    run rxBufSize protocolVersion (calls ++ later) c =
      run rxBufSize protocolVersion later (run rxBufSize protocolVersion calls c) :=
  List.foldl_append

theorem rounds_read (hsize : rxBufSize < 2 ^ 32) (htwo : 2 ≤ rxBufSize)
    (hvalid : ∀ s ∈ packets, s.Valid) (haccepting : ∀ s ∈ packets, s.Accepting)
    (hfits : ∀ s ∈ packets, s.packet.frame.length ≤ rxBufSize) (n : ℕ) {c : Client}
    (h : Up rxBufSize protocolVersion packets c) (hn : c.wire.length ≤ n) :
    let c' := run rxBufSize protocolVersion (List.replicate n round).flatten c
    Up rxBufSize protocolVersion packets c' ∧ c'.wire = [] := by
  induction n generalizing c with
  | zero => exact ⟨h, List.length_eq_zero_iff.mp (Nat.le_zero.mp hn)⟩
  | succ n ih =>
    have hup := up_run hsize htwo hvalid haccepting hfits round round_undisturbed h
    have hless := round_reads hsize htwo hvalid haccepting hfits h
    simp only [List.replicate_succ, List.flatten_cons, run_append]
    exact ih hup (by omega)

end

/-- A CONNACK and a PUBLISH that arrive in pieces. -/
def opening : List Sent :=
  [.connack false 0#8, .publish [97#8] 1#2 7#16 false false [1#8, 2#8, 3#8]]

theorem opening_fits : ∀ s ∈ opening, s.packet.frame.length ≤ 512 := by
  intro s hs
  have hvalid : ∀ s ∈ opening, s.Valid := by decide
  have hheader : ∀ s ∈ opening, s.header.length + 5 ≤ 512 := by decide
  exact (Sent.frame_length_le (hvalid s hs)).trans (hheader s hs)

def pieces : List Call := [.input [.bytes 0] 0, .input [.bytes 9, .bytes 9] 0, .handled]

theorem pieces_undisturbed : ∀ call ∈ pieces, Undisturbed call := by
  intro call hcall
  simp only [pieces, List.mem_cons, List.not_mem_nil, or_false] at hcall
  rcases hcall with rfl | rfl | rfl
  · exact fun a ha => ⟨0, List.mem_singleton.mp ha⟩
  · intro a ha
    simp only [List.mem_cons, List.not_mem_nil, or_false, or_self] at ha
    exact ⟨9, ha⟩
  · trivial

end NcsProjects.MqttDelivery
