import NcsProjects.MqttDecode
import NcsProjects.PublishPayload

/-!
What the client library reads from the broker, as zephyr.lst has mqtt_rx.c compiled. A
packet is read into rx_buf in chunks, and never beyond what is known to belong to it; a
call that finds too little leaves what it has for the next one. The payload of a PUBLISH
stays in the socket for the application, which reads it in pieces of its own. While the
event handler runs the client is unlocked, and other calls may come in between.
However the bytes arrive and however they are read, the events and the payload are those
that the stream spells.
-/
namespace NcsProjects.MqttReceive

open ByteRegions CStrings MqttPackets MqttDecode StreamFraming WireFormats
open PublishPayload (Recv)

def enotconn : ℤ := -128
def econnrefused : ℤ := -111

/-- The packets that only name another packet. -/
inductive AckKind
  | puback
  | pubrec
  | pubrel
  | pubcomp
  | unsuback
  deriving DecidableEq

/-- An event with its parameter, or with the error of decoding it as its result. -/
inductive Event
  | connack (param : Except ℤ Connack)
  | publish (param : Except ℤ Received)
  | ack (kind : AckKind) (id : Except ℤ (BitVec 16))
  | suback (param : Except ℤ (BitVec 16 × List Byte))
  | pingresp

/-- What reaches the application: an event, or a byte of a payload that it reads. -/
inductive Delivery
  | event (e : Event)
  | payload (b : Byte)

structure Client where
  /-- MQTT_STATE_TCP_CONNECTED -/
  tcpConnected : Bool
  /-- MQTT_STATE_CONNECTED -/
  connected : Bool
  rxBuf : Region Byte
  /-- rx_buf_datalen -/
  datalen : ℕ
  /-- remaining_payload -/
  remaining : ℕ
  unackedPing : ℕ
  /-- The result of the packet whose event handler runs. -/
  handling : Option ℤ
  /-- What the broker sent and nobody has read. -/
  wire : List Byte
  log : List Delivery
  /-- The results of the DISCONNECT events. -/
  disconnects : List ℤ

/-- The client when the connection to the broker is made. -/
def Client.initial (wire : List Byte) : Client where
  tcpConnected := true
  connected := false
  rxBuf := fun _ => 0#8
  datalen := 0
  remaining := 0
  unackedPing := 0
  handling := none
  wire := wire
  log := []
  disconnects := []

def clientDisconnect (result : ℤ) (c : Client) : Client :=
  { c with
    tcpConnected := false, connected := false, datalen := 0, remaining := 0
    disconnects := c.disconnects ++ [result] }

/-- mqtt_transport_read: some bytes, none from a closed peer, or an error. With nothing
there a call that shall block has not returned. -/
def transportRead (block : Bool) (answer : Option Recv) (wanted : ℕ) (wire : List Byte) :
    Option (Except ℤ (List Byte)) :=
  let nothing := if block then none else some (.error eagain)
  match answer with
  | none => nothing
  | some (.bytes k) => if wire = [] then nothing else some (.ok (wire.take (min wanted (k + 1))))
  | some .closed => some (.ok [])
  | some (.error e) => some (.error (-(e + 1 : ℕ)))

/-- A call of mqtt_handle_rx under way: its buf, and what the socket will answer. -/
structure Reading where
  client : Client
  cur : ℕ
  stop : ℕ
  answers : List Recv

def Reading.buf (r : Reading) : BufCtx := ⟨r.client.rxBuf, r.cur, r.stop⟩

/-- The bytes are stored where buf ends. -/
def Reading.store (bytes : List Byte) (r : Reading) : Reading :=
  { r with
    client := { r.client with
      rxBuf := write r.client.rxBuf r.stop bytes
      datalen := r.client.datalen + bytes.length
      wire := r.client.wire.drop bytes.length }
    stop := r.stop + bytes.length }

section

variable (rxBufSize : ℕ) (protocolVersion : Byte)

def mqttReadMessageChunk (length : ℕ) (r : Reading) : ℤ × Reading :=
  if length ≤ r.stop - r.cur then (0, r)
  else
    let remaining := length - (r.stop - r.cur)
    if rxBufSize < r.stop + remaining then (enomem, r)
    else
      let answered := { r with answers := r.answers.tail }
      match transportRead false r.answers.head? remaining r.client.wire with
      | none => (eagain, answered)
      | some (.error e) => (e, answered)
      | some (.ok bytes) =>
        if bytes = [] then (enotconn, answered)
        else if bytes.length < remaining then (eagain, answered.store bytes)
        else (0, answered.store bytes)

/-- The loop of mqtt_read_and_parse_fixed_header, for at most so many rounds. -/
def mqttReadAndParseFixedHeader : ℕ → ℕ → Reading → Except ℤ (Byte × ℕ) × Reading
  | 0, _, r => (.error 1, r)
  | rounds + 1, chunkSize, r =>
    let read := mqttReadMessageChunk rxBufSize chunkSize r
    if read.1 < 0 then (.error read.1, read.2)
    else
      let decoded := fixedHeaderDecode { read.2.buf with cur := 0 }
      let r := { read.2 with cur := decoded.2.cur }
      match decoded.1 with
      | .ok header => (.ok header, r)
      | .error e => if e = eagain then mqttReadAndParseFixedHeader rounds 1 r else (.error e, r)

def mqttReadPublishVarHeader (typeAndFlags : Byte) (r : Reading) : ℤ × Reading :=
  let read := mqttReadMessageChunk rxBufSize 2 r
  if read.1 < 0 then read
  else
    let b := read.2.buf
    let topicLength := (uint16Of (b.mem b.cur) (b.mem (b.cur + 1))).toNat
    mqttReadMessageChunk rxBufSize (topicLength + (if hasQos typeAndFlags then 2 else 0) + 2) read.2

/-- What a packet tells, and the error that handling it returns. -/
def result {α : Type} : Except ℤ α → ℤ
  | .ok _ => 0
  | .error e => e

/-- mqtt_handle_packet up to event_notify. The length of a payload is set when the packet
can be decoded; else it is what happens to be there. -/
def mqttHandlePacket (typeAndFlags : Byte) (varLength : ℕ) (b : BufCtx) (stale : ℕ)
    (c : Client) : ℤ × Option Event × Client :=
  let type := typeAndFlags &&& 0xf0#8
  let ack kind :=
    let id := messageIdDecode b
    (result id, some (.ack kind id), c)
  if type = 0x20#8 then
    let param := connectAckDecode protocolVersion b
    match param with
    | .error e => (e, some (.connack param), c)
    | .ok p =>
      if p.returnCode = 0#8 then (0, some (.connack param), { c with connected := true })
      else (econnrefused, some (.connack param), c)
  else if type = 0x30#8 then
    let param := publishDecode typeAndFlags varLength b
    let remaining := match param with
      | .ok p => p.payloadLen
      | .error _ => stale
    (result param, some (.publish param), { c with remaining := remaining })
  else if type = 0x40#8 then ack .puback
  else if type = 0x50#8 then ack .pubrec
  else if type = 0x60#8 then ack .pubrel
  else if type = 0x70#8 then ack .pubcomp
  else if type = 0x90#8 then
    let param := subscribeAckDecode b
    (result param, some (.suback param), c)
  else if type = 0xb0#8 then ack .unsuback
  else if type = 0xd0#8 then (0, some .pingresp, { c with unackedPing := c.unackedPing - 1 })
  else (0, none, c)

/-- MQTT_MAX_LENGTH_BYTES rounds show all of a length. -/
def headerRounds : ℕ := maxLengthBytes

/-- mqtt_handle_rx up to the packet, when there is a whole one. -/
def mqttReadPacket (answers : List Recv) (c : Client) : Except ℤ (Byte × ℕ) × Reading :=
  let header := mqttReadAndParseFixedHeader rxBufSize headerRounds 2 ⟨c, 0, c.datalen, answers⟩
  match header.1 with
  | .error e => (.error e, header.2)
  | .ok (typeAndFlags, varLength) =>
    let body :=
      if isPublish typeAndFlags then mqttReadPublishVarHeader rxBufSize typeAndFlags header.2
      else mqttReadMessageChunk rxBufSize varLength header.2
    if body.1 < 0 then (.error body.1, body.2) else (.ok (typeAndFlags, varLength), body.2)

/-- mqtt_input with mqtt_handle_rx, until it returns or an event handler runs. -/
def mqttInput (answers : List Recv) (stale : ℕ) (c : Client) : Client :=
  if !c.tcpConnected then c
  else if 0 < c.remaining then c
  else
    let packet := mqttReadPacket rxBufSize answers c
    match packet.1 with
    | .error e =>
      if e = eagain then packet.2.client else clientDisconnect e packet.2.client
    | .ok (typeAndFlags, varLength) =>
      match mqttHandlePacket protocolVersion typeAndFlags varLength packet.2.buf stale
          packet.2.client with
      | (_, none, c) => { c with datalen := 0 }
      | (err, some e, c) => { c with handling := some err, log := c.log ++ [.event e] }

/-- The event handler returns, and then mqtt_input does. -/
def handled (c : Client) : Client :=
  match c.handling with
  | none => c
  | some err =>
    let c := { c with handling := none }
    if err < 0 then clientDisconnect err c else { c with datalen := 0 }

/-- read_publish_payload -/
def readPublishPayload (block : Bool) (answer : Option Recv) (length : ℕ) (c : Client) : Client :=
  if c.remaining = 0 then c
  else match transportRead block answer (min length c.remaining) c.wire with
    | none => c
    | some (.error e) => if !block && e = eagain then c else clientDisconnect e c
    | some (.ok bytes) =>
      if bytes = [] then clientDisconnect enotconn c
      else
        { c with
          remaining := c.remaining - bytes.length
          wire := c.wire.drop bytes.length
          log := c.log ++ bytes.map .payload }

/-- Calls of the library. One thread calls mqtt_input, and not from the event handler. -/
inductive Call
  | input (answers : List Recv) (stale : ℕ)
  | handled
  | read (block : Bool) (answer : Option Recv) (length : ℕ)
  | disconnect (result : ℤ)

def step (c : Client) : Call → Client
  | .input answers stale =>
    if c.handling.isSome then c else mqttInput rxBufSize protocolVersion answers stale c
  | .handled => handled c
  | .read block answer length => readPublishPayload block answer length c
  | .disconnect result => clientDisconnect result c

def run (calls : List Call) (c : Client) : Client := calls.foldl (step rxBufSize protocolVersion) c

end

/-- The bytes of the packet that are in rx_buf. -/
def Reading.start (r : Reading) : List Byte := slice r.client.rxBuf 0 r.stop

/-- From a client with the start of a packet in its buffer, some bytes of the stream have
been put behind it. They are what the framing makes of them, and nothing else changed. -/
structure Progress (rxBufSize : ℕ) (c : Client) (r : Reading) (bytes : List Byte) : Prop where
  wire : c.wire = bytes ++ r.client.wire
  start : r.start = slice c.rxBuf 0 c.datalen ++ bytes
  stop : r.client.datalen = r.stop
  frame : r.client =
    { c with rxBuf := r.client.rxBuf, datalen := r.client.datalen, wire := r.client.wire }
  cur : r.cur ≤ r.stop
  fits : r.stop ≤ rxBufSize
  beyond : ∀ i, rxBufSize ≤ i → r.client.rxBuf i = c.rxBuf i
  fed : framing.feed ⟨slice c.rxBuf 0 c.datalen, 0⟩ bytes =
    if need r.start = 0 then (⟨[], payloadLen r.start⟩, [.frame r.start]) else (⟨r.start, 0⟩, [])

theorem start_length (r : Reading) : r.start.length = r.stop := slice_length _ _ _

theorem start_getD (r : Reading) {i : ℕ} (h : i < r.stop) :
    r.start.getD i 0#8 = r.client.rxBuf i := by
  rw [List.getD_eq_getElem _ _ (by rw [start_length]; exact h)]
  simp [Reading.start, slice]

theorem transportRead_ok {block : Bool} {answer : Option Recv} {wanted : ℕ} {wire bytes : List Byte}
    (h : transportRead block answer wanted wire = some (.ok bytes)) :
    bytes.length ≤ wanted ∧ wire = bytes ++ wire.drop bytes.length := by
  have hprefix : ∀ n, wire = wire.take n ++ wire.drop (wire.take n).length := by
    intro n
    rw [List.length_take]
    rcases Nat.le_total n wire.length with hle | hge
    · rw [Nat.min_eq_left hle, List.take_append_drop]
    · rw [Nat.min_eq_right hge, List.take_of_length_le hge, List.drop_length, List.append_nil]
  unfold transportRead at h
  cases answer with
  | none => cases block <;> cases h
  | some recv =>
    cases recv with
    | bytes k =>
      simp only at h
      split at h
      · cases block <;> cases h
      · cases h
        refine ⟨?_, hprefix _⟩
        rw [List.length_take]
        omega
    | closed =>
      cases h
      exact ⟨Nat.zero_le _, rfl⟩
    | error e => cases h

/-- A call that shall not block returns. -/
theorem transportRead_returns {answer : Option Recv} {wanted : ℕ} {wire : List Byte} :
    transportRead false answer wanted wire ≠ none := by
  unfold transportRead
  cases answer with
  | none => rintro ⟨⟩
  | some recv =>
    cases recv with
    | bytes k =>
      simp only
      split <;> rintro ⟨⟩
    | closed | error e => rintro ⟨⟩

theorem progress_begin {rxBufSize : ℕ} {c : Client} (answers : List Recv)
    (hneed : need (slice c.rxBuf 0 c.datalen) ≠ 0) (hfits : c.datalen ≤ rxBufSize) :
    Progress rxBufSize c ⟨c, 0, c.datalen, answers⟩ [] where
  wire := rfl
  start := (List.append_nil _).symm
  stop := rfl
  frame := rfl
  cur := Nat.zero_le _
  fits := hfits
  beyond := fun _ _ => rfl
  fed := (if_neg hneed).symm

theorem progress_answers {rxBufSize : ℕ} {c : Client} {r : Reading} {bytes : List Byte}
    (h : Progress rxBufSize c r bytes) (answers : List Recv) :
    Progress rxBufSize c { r with answers := answers } bytes where
  wire := h.wire
  start := h.start
  stop := h.stop
  frame := h.frame
  cur := h.cur
  fits := h.fits
  beyond := h.beyond
  fed := h.fed

theorem progress_cur {rxBufSize : ℕ} {c : Client} {r : Reading} {bytes : List Byte}
    (h : Progress rxBufSize c r bytes) {cur : ℕ} (hcur : cur ≤ r.stop) :
    Progress rxBufSize c { r with cur := cur } bytes where
  wire := h.wire
  start := h.start
  stop := h.stop
  frame := h.frame
  cur := hcur
  fits := h.fits
  beyond := h.beyond
  fed := h.fed

theorem store_start (r : Reading) (bytes : List Byte) :
    (r.store bytes).start = r.start ++ bytes := by
  have h := slice_write_append r.client.rxBuf 0 r.stop bytes
  rw [Nat.zero_add] at h
  exact h

/-- A chunk of the packet's own bytes. -/
theorem progress_store {rxBufSize : ℕ} {c : Client} {r : Reading} {bytes : List Byte}
    (h : Progress rxBufSize c r bytes) (more : List Byte)
    (hwire : r.client.wire = more ++ r.client.wire.drop more.length)
    (hneed : need r.start ≠ 0) (hle : more.length ≤ need r.start)
    (hfits : r.stop + more.length ≤ rxBufSize) :
    Progress rxBufSize c (r.store more) (bytes ++ more) where
  wire := by
    rw [h.wire, hwire]
    simp [Reading.store]
  start := by rw [store_start, h.start, List.append_assoc]
  stop := by simp only [Reading.store, h.stop]
  frame := by
    simp only [Reading.store]
    rw [h.frame]
  cur := by
    have hcur := h.cur
    simp only [Reading.store]
    omega
  fits := hfits
  beyond := by
    intro i hi
    rw [← h.beyond i hi]
    exact write_after r.client.rxBuf r.stop more (by omega)
  fed := by
    rw [framing.feed_append, h.fed, if_neg hneed, store_start]
    rcases Nat.lt_or_eq_of_le hle with hlt | heq
    · have hmore := need_append r.start more
      rw [framing.feed_start hlt, if_neg (by omega)]
      rfl
    · rw [framing.feed_chunk (Nat.pos_of_ne_zero hneed) heq]
      by_cases hdone : need (r.start ++ more) = 0
      · rw [if_pos (show framing.need _ = 0 from hdone), if_pos hdone]
        rfl
      · rw [if_neg (show framing.need _ ≠ 0 from hdone), if_neg hdone]
        rfl

/-- No answer of the socket that is not some bytes. -/
def Delivers (answers : List Recv) : Prop := ∀ a ∈ answers, ∃ k, a = .bytes k

/-- The error with which a read ends whose socket is closed or fails. -/
def failure : Recv → Option ℤ
  | .bytes _ => none
  | .closed => some enotconn
  | .error e => some (-(e + 1 : ℕ))

theorem failure_neg {a : Recv} {err : ℤ} (h : failure a = some err) : err < 0 := by
  cases a with
  | bytes k => cases h
  | closed =>
    cases h
    decide
  | error e =>
    cases h
    omega

theorem not_delivers {answers : List Recv} {a : Recv} (among : a ∈ answers) {err : ℤ}
    (failed : failure a = some err) : ¬ Delivers answers := by
  intro hdelivers
  obtain ⟨k, rfl⟩ := hdelivers a among
  cases failed

/-- The answers of the socket that are left when some bytes were read. -/
structure Left (answers : List Recv) (r : Reading) (bytes : List Byte) : Prop where
  among : ∀ a ∈ r.answers, a ∈ answers
  unused : bytes = [] → r.answers = answers

/-- Why a call has no whole packet: it waits for more, the packet does not fit into
rx_buf, or the socket failed. -/
inductive Failure (rxBufSize : ℕ) (answers : List Recv) (r : Reading) (bytes : List Byte) : ℤ → Prop
  | waits (h : bytes = [] → answers = [] ∨ r.client.wire = []) : Failure _ _ _ _ eagain
  | noRoom (h : rxBufSize < r.stop + need r.start) : Failure _ _ _ _ enomem
  | socket {a : Recv} {err : ℤ} (among : a ∈ answers) (failed : failure a = some err) :
    Failure _ _ _ _ err

theorem Failure.neg {rxBufSize : ℕ} {answers : List Recv} {r : Reading} {bytes : List Byte}
    {err : ℤ} (h : Failure rxBufSize answers r bytes err) : err < 0 := by
  cases h with
  | waits => decide
  | noRoom => decide
  | socket _ failed => exact failure_neg failed

/-- An error is that there is nothing, or the socket's own. -/
theorem transportRead_error {block : Bool} {answer : Option Recv} {wanted : ℕ} {wire : List Byte}
    {e : ℤ} (h : transportRead block answer wanted wire = some (.error e)) :
    (block = false ∧ e = eagain ∧ (answer = none ∨ wire = [])) ∨
      ∃ a ∈ answer, failure a = some e := by
  have hnothing : (if block then none else some (.error eagain) : Option (Except ℤ (List Byte))) =
      some (.error e) → block = false ∧ e = eagain := by
    cases block with
    | true => rintro ⟨⟩
    | false =>
      rintro ⟨⟩
      exact ⟨rfl, rfl⟩
  unfold transportRead at h
  cases answer with
  | none =>
    obtain ⟨hblock, hagain⟩ := hnothing h
    exact Or.inl ⟨hblock, hagain, Or.inl rfl⟩
  | some a =>
    cases a with
    | bytes k =>
      simp only at h
      split at h
      · rename_i hempty
        obtain ⟨hblock, hagain⟩ := hnothing h
        exact Or.inl ⟨hblock, hagain, Or.inr hempty⟩
      · cases h
    | closed => cases h
    | error e' =>
      cases h
      exact Or.inr ⟨.error e', rfl, rfl⟩

/-- Only a closed peer makes a socket return no bytes, where some were asked for. -/
theorem transportRead_empty {block : Bool} {answer : Option Recv} {wanted : ℕ} {wire : List Byte}
    (h : transportRead block answer wanted wire = some (.ok [])) :
    answer = some .closed ∨ wanted = 0 := by
  have hnothing : (if block then none else some (.error eagain) : Option (Except ℤ (List Byte))) ≠
      some (.ok []) := by
    cases block <;> simp
  unfold transportRead at h
  cases answer with
  | none => exact absurd h hnothing
  | some a =>
    cases a with
    | bytes k =>
      simp only at h
      split at h
      · exact absurd h hnothing
      · rename_i hwire
        cases wire with
        | nil => exact absurd rfl hwire
        | cons b wire =>
          cases wanted with
          | zero => exact Or.inr rfl
          | succ wanted =>
            rw [Nat.succ_min_succ, List.take_succ_cons] at h
            cases h
    | closed => exact Or.inl rfl
    | error e => cases h

theorem transportRead_failure {rxBufSize : ℕ} {answers : List Recv} {r : Reading}
    {bytes : List Byte} (hleft : Left answers r bytes) {wanted : ℕ} {e : ℤ}
    (h : transportRead false r.answers.head? wanted r.client.wire = some (.error e)) :
    Failure rxBufSize answers { r with answers := r.answers.tail } bytes e := by
  rcases transportRead_error h with ⟨-, rfl, hnone⟩ | ⟨a, ha, hfailed⟩
  · refine .waits fun hnil => hnone.imp (fun hhead => ?_) id
    rw [← hleft.unused hnil]
    exact List.head?_eq_none_iff.mp hhead
  · exact .socket (hleft.among a (List.mem_of_mem_head? ha)) hfailed

theorem Failure.waiting {rxBufSize : ℕ} {answers : List Recv} {r : Reading} {bytes : List Byte}
    {err : ℤ} (h : Failure rxBufSize answers r bytes err) (hagain : err = eagain)
    (hdelivers : Delivers answers) : bytes = [] → answers = [] ∨ r.client.wire = [] := by
  cases h with
  | waits h => exact h
  | noRoom => exact absurd hagain (by decide)
  | socket among failed => exact absurd hdelivers (not_delivers among failed)

/-- A chunk that asks for what the packet needs. It succeeds when the bytes are there, and
otherwise the packet still needs some. -/
theorem progress_chunk {rxBufSize : ℕ} {c : Client} {r : Reading} {bytes : List Byte}
    {answers : List Recv} (h : Progress rxBufSize c r bytes) (hleft : Left answers r bytes)
    {length : ℕ} (hneed : r.stop - r.cur < length → length - (r.stop - r.cur) = need r.start) :
    ∃ err r' more, mqttReadMessageChunk rxBufSize length r = (err, r') ∧
      Progress rxBufSize c r' (bytes ++ more) ∧ r'.cur = r.cur ∧ r'.start = r.start ++ more ∧
      r'.stop = r.stop + more.length ∧
      (err = 0 ∧ length ≤ r'.stop - r.cur ∧ Left answers r' (bytes ++ more) ∨
        Failure rxBufSize answers r' (bytes ++ more) err ∧ need r'.start ≠ 0) := by
  have hcur := h.cur
  by_cases hthere : length ≤ r.stop - r.cur
  · have hread : mqttReadMessageChunk rxBufSize length r = (0, r) := by
      simp only [mqttReadMessageChunk, if_pos hthere]
    refine ⟨0, r, [], hread, ?_, rfl, (List.append_nil _).symm, rfl, Or.inl ⟨rfl, hthere, ?_⟩⟩
    · rwa [List.append_nil]
    · rwa [List.append_nil]
  · have hwant := hneed (by omega)
    have hpos : need r.start ≠ 0 := by omega
    have hanswered := progress_answers h r.answers.tail
    have hstays : ∀ {err : ℤ},
        Failure rxBufSize answers { r with answers := r.answers.tail } bytes err →
        mqttReadMessageChunk rxBufSize length r = (err, { r with answers := r.answers.tail }) →
        ∃ err r' more, mqttReadMessageChunk rxBufSize length r = (err, r') ∧
          Progress rxBufSize c r' (bytes ++ more) ∧ r'.cur = r.cur ∧ r'.start = r.start ++ more ∧
          r'.stop = r.stop + more.length ∧
          (err = 0 ∧ length ≤ r'.stop - r.cur ∧ Left answers r' (bytes ++ more) ∨
            Failure rxBufSize answers r' (bytes ++ more) err ∧ need r'.start ≠ 0) := by
      intro err herr hread
      refine ⟨err, _, [], hread, ?_, rfl, (List.append_nil _).symm, rfl, Or.inr ⟨?_, hpos⟩⟩
      · rwa [List.append_nil]
      · rwa [List.append_nil]
    by_cases hroom : rxBufSize < r.stop + (length - (r.stop - r.cur))
    · have hread : mqttReadMessageChunk rxBufSize length r = (enomem, r) := by
        simp only [mqttReadMessageChunk, if_neg hthere, if_pos hroom]
      rw [hwant] at hroom
      refine ⟨enomem, r, [], hread, ?_, rfl, (List.append_nil _).symm, rfl,
        Or.inr ⟨.noRoom hroom, hpos⟩⟩
      rwa [List.append_nil]
    · cases hgot : transportRead false r.answers.head? (length - (r.stop - r.cur))
          r.client.wire with
      | none => exact absurd hgot transportRead_returns
      | some got =>
        cases got with
        | error e =>
          refine hstays (transportRead_failure hleft hgot) ?_
          simp only [mqttReadMessageChunk, if_neg hthere, if_neg hroom, hgot]
        | ok more =>
          obtain ⟨hlen, hwire⟩ := transportRead_ok hgot
          by_cases hnil : more = []
          · rw [hnil] at hgot
            refine hstays (.socket (a := .closed) ?_ rfl : Failure _ _ _ _ enotconn) ?_
            · have hhead := (transportRead_empty hgot).resolve_right (by omega)
              exact hleft.among _ (List.mem_of_mem_head? hhead)
            · simp only [mqttReadMessageChunk, if_neg hthere, if_neg hroom, hgot, if_true]
          · have hle : more.length ≤ need r.start := by omega
            have hstored := progress_store hanswered more hwire hpos hle
              (by simp only; omega)
            have hsome : ¬ bytes ++ more = [] := by
              rw [List.append_eq_nil_iff]
              exact fun h => hnil h.2
            by_cases hshort : more.length < length - (r.stop - r.cur)
            · have hread : mqttReadMessageChunk rxBufSize length r =
                  (eagain, Reading.store more { r with answers := r.answers.tail }) := by
                simp only [mqttReadMessageChunk, if_neg hthere, if_neg hroom, hgot,
                  if_neg hnil, if_pos hshort]
              refine ⟨_, _, more, hread, hstored, rfl, store_start _ _, rfl,
                Or.inr ⟨.waits fun h => absurd h hsome, ?_⟩⟩
              have happend := need_append r.start more
              rw [store_start]
              show need (r.start ++ more) ≠ 0
              omega
            · have hread : mqttReadMessageChunk rxBufSize length r =
                  (0, Reading.store more { r with answers := r.answers.tail }) := by
                simp only [mqttReadMessageChunk, if_neg hthere, if_neg hroom, hgot,
                  if_neg hnil, if_neg hshort]
              refine ⟨_, _, more, hread, hstored, rfl, store_start _ _, rfl,
                Or.inl ⟨rfl, ?_, ?_, fun h => absurd h hsome⟩⟩
              · simp only [Reading.store]
                omega
              · exact fun a ha => hleft.among a (List.mem_of_mem_tail ha)

theorem decode_start (r : Reading) :
    fixedHeaderDecode { r.buf with cur := 0 } = fixedHeaderDecode ⟨r.client.rxBuf, 0, r.stop⟩ := rfl

theorem left_cur {answers : List Recv} {r : Reading} {bytes : List Byte}
    (h : Left answers r bytes) (cur : ℕ) : Left answers { r with cur := cur } bytes :=
  ⟨h.among, h.unused⟩

/-- The loop ends with a whole header, or with a header that is wrong, or without the
bytes that it needs; it is never out of rounds. -/
theorem progress_header {rxBufSize : ℕ} (hsize : rxBufSize < 2 ^ 32) (rounds chunkSize : ℕ)
    {c : Client} {r : Reading} {bytes : List Byte} {answers : List Recv}
    (h : Progress rxBufSize c r bytes) (hleft : Left answers r bytes)
    (hneed : r.stop - r.cur < chunkSize → chunkSize - (r.stop - r.cur) = need r.start)
    (hpos : 0 < rounds)
    (hrounds : ∀ stop, r.stop ≤ stop → chunkSize ≤ stop - r.cur →
      2 ≤ stop ∧ maxLengthBytes + 2 ≤ rounds + stop) :
    ∃ header r' bytes', mqttReadAndParseFixedHeader rxBufSize rounds chunkSize r = (header, r') ∧
      Progress rxBufSize c r' bytes' ∧
      match header with
      | .ok (type, length) =>
        headerOf r'.start = .ok ⟨type, length, r'.cur⟩ ∧ Left answers r' bytes'
      | .error e => Failure rxBufSize answers r' bytes' e ∧ need r'.start ≠ 0 ∨
          need r'.start = 0 ∧ headerOf r'.start = .error e ∧ e ≠ eagain := by
  induction rounds generalizing chunkSize r bytes with
  | zero => cases hpos
  | succ rounds ih =>
    obtain ⟨err, r', more, hread, hchunk, hcur, -, hstop, hdone⟩ := progress_chunk h hleft hneed
    simp only [mqttReadAndParseFixedHeader, hread]
    rcases hdone with ⟨rfl, hlen, hleft'⟩ | ⟨hfailure, hmore⟩
    · obtain ⟨htwo, hmany⟩ := hrounds r'.stop (by omega) hlen
      have hfits := hchunk.fits
      rw [if_neg (by decide), decode_start]
      cases hh : headerOf r'.start with
      | ok header =>
        rw [fixedHeaderDecode_ok (by omega) hh]
        have hle := (headerOf_size hh).2
        rw [start_length] at hle
        exact ⟨_, _, _, rfl, progress_cur hchunk hle, hh, left_cur hleft' _⟩
      | error e =>
        obtain ⟨hdecode, hend⟩ := fixedHeaderDecode_error (by omega) (by omega) hh
        have hlong : ¬ r'.start.length < 2 := by
          rw [start_length]
          omega
        rw [hdecode]
        by_cases hagain : e = eagain
        · rw [hend hagain]
          subst hagain
          simp only [if_true]
          have hneed' := need_agains hlong hh
          have hshort : r'.start.length ≤ maxLengthBytes := by
            rcases headerOf_error hh with heinval | ⟨-, hle⟩
            · exact absurd heinval (by decide)
            · exact hle
          rw [start_length] at hshort
          have hat := progress_cur hchunk (Nat.le_refl r'.stop)
          refine ih _ hat (left_cur hleft' _) (fun _ => ?_) (by omega) (fun stop hge hlt => ?_)
          · simp only [Nat.sub_self]
            exact hneed'.symm
          · simp only at hge hlt
            omega
        · simp only [if_neg hagain]
          have hle : (fixedHeaderDecode ⟨r'.client.rxBuf, 0, r'.stop⟩).2.cur ≤ r'.stop :=
            fixedHeaderDecode_cur (by omega) (by omega)
          exact ⟨_, _, _, rfl, progress_cur hchunk hle,
            Or.inr ⟨need_wrong hlong hh hagain, hh, hagain⟩⟩
    · rw [if_pos hfailure.neg]
      exact ⟨_, _, _, rfl, hchunk, Or.inl ⟨hfailure, hmore⟩⟩

theorem header_longer {r r' : Reading} {more : List Byte} {type : Byte} {length : ℕ}
    (hh : headerOf r.start = .ok ⟨type, length, r.cur⟩) (hstart : r'.start = r.start ++ more)
    (hcur : r'.cur = r.cur) : headerOf r'.start = .ok ⟨type, length, r'.cur⟩ := by
  have hne : r.start ≠ [] := by
    intro hnil
    rw [hnil] at hh
    cases hh
  have hok : headerOf r.start ≠ .error eagain := by
    rw [hh]
    rintro ⟨⟩
  rw [hstart, headerOf_append more hne hok, hh, hcur]

theorem need_start {r : Reading} {type : Byte} {length : ℕ}
    (hh : headerOf r.start = .ok ⟨type, length, r.cur⟩) :
    need r.start = frameSize r.start ⟨type, length, r.cur⟩ - r.stop := by
  rw [need_header hh, start_length]

theorem need_publish_short {r : Reading} {type : Byte} {length : ℕ} (hpub : isPublish type = true)
    (hh : headerOf r.start = .ok ⟨type, length, r.cur⟩) (hlt : r.stop < r.cur + 2) :
    need r.start = r.cur + 2 - r.stop := by
  rw [need_start hh, frameSize, if_pos hpub, start_length]
  exact congrArg (· - r.stop) (if_pos hlt)

theorem need_publish_long {r : Reading} {type : Byte} {length : ℕ} (hpub : isPublish type = true)
    (hh : headerOf r.start = .ok ⟨type, length, r.cur⟩) (hge : ¬ r.stop < r.cur + 2) :
    need r.start =
      r.cur + 2 + uint16At r.start r.cur + (if hasQos type then 2 else 0) - r.stop := by
  rw [need_start hh, frameSize, if_pos hpub, start_length]
  exact congrArg (· - r.stop) (if_neg hge)

/-- A PUBLISH gets its topic and its packet id. -/
theorem progress_varHeader {rxBufSize : ℕ} {c : Client} {r : Reading} {bytes : List Byte}
    {answers : List Recv} (h : Progress rxBufSize c r bytes) (hleft : Left answers r bytes)
    {type : Byte} {length : ℕ} (hpub : isPublish type = true)
    (hh : headerOf r.start = .ok ⟨type, length, r.cur⟩) :
    ∃ err r' bytes', mqttReadPublishVarHeader rxBufSize type r = (err, r') ∧
      Progress rxBufSize c r' bytes' ∧
      (err = 0 ∧ need r'.start = 0 ∧ headerOf r'.start = .ok ⟨type, length, r'.cur⟩ ∨
        Failure rxBufSize answers r' bytes' err ∧ need r'.start ≠ 0) := by
  have hcur := h.cur
  have hfirst : r.stop - r.cur < 2 → 2 - (r.stop - r.cur) = need r.start := by
    intro hlt
    rw [need_publish_short hpub hh (by omega)]
    omega
  obtain ⟨err, r', more, hread, hchunk, hcur', hstart, hstop, hdone⟩ :=
    progress_chunk h hleft hfirst
  simp only [mqttReadPublishVarHeader, hread]
  rcases hdone with ⟨rfl, hlen, hleft'⟩ | ⟨hfailure, hmore⟩
  · have hh' := header_longer hh hstart hcur'
    have hthere : ¬ r'.stop < r'.cur + 2 := by omega
    have htopic : (uint16Of (r'.buf.mem r'.buf.cur) (r'.buf.mem (r'.buf.cur + 1))).toNat =
        uint16At r'.start r'.cur := by
      rw [uint16At, start_getD r' (by omega), start_getD r' (by omega)]
      rfl
    rw [if_neg (by decide), htopic]
    have hneed := need_publish_long hpub hh' hthere
    generalize hid : (if hasQos type then 2 else 0) = idLength at hneed ⊢
    have hrest : r'.stop - r'.cur < uint16At r'.start r'.cur + idLength + 2 →
        uint16At r'.start r'.cur + idLength + 2 - (r'.stop - r'.cur) = need r'.start := by
      intro hlt
      omega
    obtain ⟨err, r'', more', hread', hchunk', hcur'', hstart', hstop', hdone'⟩ :=
      progress_chunk hchunk hleft' hrest
    refine ⟨err, r'', _, hread', hchunk', ?_⟩
    rcases hdone' with ⟨rfl, hlen', -⟩ | hfail
    · have hh'' := header_longer hh' hstart' hcur''
      have hsame : uint16At r''.start r''.cur = uint16At r'.start r'.cur := by
        rw [hstart', hcur'', uint16At_append]
        rw [start_length]
        omega
      refine Or.inl ⟨rfl, ?_, hh''⟩
      rw [need_publish_long hpub hh'' (by omega), hsame, hid]
      omega
    · exact Or.inr hfail
  · rw [if_pos hfailure.neg]
    exact ⟨err, r', _, rfl, hchunk, Or.inr ⟨hfailure, hmore⟩⟩

theorem progress_rest {rxBufSize : ℕ} {c : Client} {r : Reading} {bytes : List Byte}
    {answers : List Recv} (h : Progress rxBufSize c r bytes) (hleft : Left answers r bytes)
    {type : Byte} {length : ℕ} (hpub : ¬ isPublish type = true)
    (hh : headerOf r.start = .ok ⟨type, length, r.cur⟩) :
    ∃ err r' bytes', mqttReadMessageChunk rxBufSize length r = (err, r') ∧
      Progress rxBufSize c r' bytes' ∧
      (err = 0 ∧ need r'.start = 0 ∧ headerOf r'.start = .ok ⟨type, length, r'.cur⟩ ∨
        Failure rxBufSize answers r' bytes' err ∧ need r'.start ≠ 0) := by
  have hcur := h.cur
  have hwhole : ∀ {r' : Reading}, headerOf r'.start = .ok ⟨type, length, r'.cur⟩ →
      need r'.start = r'.cur + length - r'.stop := by
    intro r' hh'
    rw [need_start hh', frameSize, if_neg hpub]
  have hrest : r.stop - r.cur < length → length - (r.stop - r.cur) = need r.start := by
    intro hlt
    rw [hwhole hh]
    omega
  obtain ⟨err, r', more, hread, hchunk, hcur', hstart, hstop, hdone⟩ :=
    progress_chunk h hleft hrest
  refine ⟨err, r', _, hread, hchunk, ?_⟩
  rcases hdone with ⟨rfl, hlen, -⟩ | hfail
  · have hh' := header_longer hh hstart hcur'
    refine Or.inl ⟨rfl, ?_, hh'⟩
    rw [hwhole hh']
    omega
  · exact Or.inr hfail

/-- What a call has read: a whole packet, or a part of one, or one with a wrong header. -/
theorem progress_packet {rxBufSize : ℕ} (hsize : rxBufSize < 2 ^ 32) {c : Client}
    (answers : List Recv) (hneed : need (slice c.rxBuf 0 c.datalen) ≠ 0)
    (hfits : c.datalen ≤ rxBufSize) :
    ∃ packet r bytes, mqttReadPacket rxBufSize answers c = (packet, r) ∧
      Progress rxBufSize c r bytes ∧
      match packet with
      | .ok (type, length) => need r.start = 0 ∧ headerOf r.start = .ok ⟨type, length, r.cur⟩
      | .error e => Failure rxBufSize answers r bytes e ∧ need r.start ≠ 0 ∨
          need r.start = 0 ∧ headerOf r.start = .error e ∧ e ≠ eagain := by
  have hbegin := progress_begin answers hneed hfits
  have hfirst : c.datalen - 0 < 2 → 2 - (c.datalen - 0) = need (slice c.rxBuf 0 c.datalen) := by
    intro hlt
    rw [need_short (by rw [slice_length]; exact hlt), slice_length, Nat.sub_zero]
  have hleft : Left answers ⟨c, 0, c.datalen, answers⟩ [] :=
    ⟨fun _ ha => ha, fun _ => rfl⟩
  obtain ⟨header, r, bytes, hread, hheader, hresult⟩ :=
    progress_header hsize headerRounds 2 hbegin hleft hfirst (by decide) (by
      intro stop hge hlt
      simp only [headerRounds, maxLengthBytes] at *
      omega)
  simp only [mqttReadPacket, hread]
  cases header with
  | error e => exact ⟨_, _, bytes, rfl, hheader, hresult⟩
  | ok header =>
    obtain ⟨type, length⟩ := header
    obtain ⟨hh, hleft⟩ := hresult
    have hbody : ∃ err r' bytes', (if isPublish type then mqttReadPublishVarHeader rxBufSize type r
          else mqttReadMessageChunk rxBufSize length r) = (err, r') ∧
        Progress rxBufSize c r' bytes' ∧
        (err = 0 ∧ need r'.start = 0 ∧ headerOf r'.start = .ok ⟨type, length, r'.cur⟩ ∨
          Failure rxBufSize answers r' bytes' err ∧ need r'.start ≠ 0) := by
      by_cases hpub : isPublish type = true
      · rw [if_pos hpub]
        exact progress_varHeader hheader hleft hpub hh
      · rw [if_neg hpub]
        exact progress_rest hheader hleft hpub hh
    obtain ⟨err, r', bytes', hread', hpacket, hdone⟩ := hbody
    simp only [hread']
    rcases hdone with ⟨rfl, hwhole, hh⟩ | ⟨hfailure, hmore⟩
    · exact ⟨_, _, bytes', if_neg (by decide), hpacket, hwhole, hh⟩
    · rw [if_pos hfailure.neg]
      exact ⟨_, _, bytes', rfl, hpacket, Or.inl ⟨hfailure, hmore⟩⟩

section

variable (protocolVersion : Byte)

/-- The event that a packet makes, from the bytes behind its fixed header. -/
def eventOf (type : Byte) (length : ℕ) (bytes : List Byte) : Option Event :=
  let kind := type &&& 0xf0#8
  if kind = 0x20#8 then some (.connack (connackOf protocolVersion bytes))
  else if kind = 0x30#8 then some (.publish (publishOf type length bytes))
  else if kind = 0x40#8 then some (.ack .puback (messageIdOf bytes))
  else if kind = 0x50#8 then some (.ack .pubrec (messageIdOf bytes))
  else if kind = 0x60#8 then some (.ack .pubrel (messageIdOf bytes))
  else if kind = 0x70#8 then some (.ack .pubcomp (messageIdOf bytes))
  else if kind = 0x90#8 then some (.suback (subscribeAckOf bytes))
  else if kind = 0xb0#8 then some (.ack .unsuback (messageIdOf bytes))
  else if kind = 0xd0#8 then some .pingresp
  else none

/-- What the application gets of a packet or of a byte behind it. -/
def deliver : Item Byte → List Delivery
  | .data b => [.payload b]
  | .frame p =>
    match headerOf p with
    | .ok h => ((eventOf protocolVersion h.type h.length (p.drop h.size)).map .event).toList
    | .error _ => []

end

def Event.err : Event → ℤ
  | .connack (.ok p) => if p.returnCode = 0#8 then 0 else econnrefused
  | .connack (.error e) => e
  | .publish param => result param
  | .ack _ id => result id
  | .suback param => result param
  | .pingresp => 0

/-- What an event changes in the client. -/
def Event.absorb (stale : ℕ) (c : Client) : Event → Client
  | .connack (.ok p) => if p.returnCode = 0#8 then { c with connected := true } else c
  | .publish (.ok p) => { c with remaining := p.payloadLen }
  | .publish (.error _) => { c with remaining := stale }
  | .pingresp => { c with unackedPing := c.unackedPing - 1 }
  | _ => c

/-- What handling a packet comes to, by its event. -/
def Client.noted (stale : ℕ) (c : Client) : Option Event → ℤ × Option Event × Client
  | none => (0, none, c)
  | some e => (e.err, some e, e.absorb stale c)

theorem mqttHandlePacket_eq (protocolVersion type : Byte) (length : ℕ) {b : BufCtx} (stale : ℕ)
    (c : Client) (hle : b.cur ≤ b.stop) (hlt : b.stop < 2 ^ 32) :
    mqttHandlePacket protocolVersion type length b stale c =
      c.noted stale (eventOf protocolVersion type length b.bytes) := by
  simp only [mqttHandlePacket, connectAckDecode_eq _ hle hlt, messageIdDecode_eq hle hlt,
    subscribeAckDecode_eq hle hlt, publishDecode_eq _ _ hle hlt]
  have hconnack : (match connackOf protocolVersion b.bytes with
      | .error e => (e, some (.connack (connackOf protocolVersion b.bytes)), c)
      | .ok p =>
        if p.returnCode = 0#8 then
          (0, some (.connack (connackOf protocolVersion b.bytes)), { c with connected := true })
        else (econnrefused, some (.connack (connackOf protocolVersion b.bytes)), c)) =
      c.noted stale (some (.connack (connackOf protocolVersion b.bytes))) := by
    cases connackOf protocolVersion b.bytes with
    | error e => rfl
    | ok p =>
      simp only [Client.noted, Event.err, Event.absorb]
      split <;> rfl
  have hpublish : (result (publishOf type length b.bytes),
      some (.publish (publishOf type length b.bytes)),
      { c with remaining := match publishOf type length b.bytes with
          | .ok p => p.payloadLen
          | .error _ => stale }) =
      c.noted stale (some (.publish (publishOf type length b.bytes))) := by
    cases publishOf type length b.bytes <;> rfl
  rw [hconnack, hpublish]
  simp only [eventOf, apply_ite (c.noted stale)]
  rfl

/-! Standing runs: the events and the payload are those of the bytes that were read. -/

/-- A packet with an event that has an error for its result. -/
def Refused (protocolVersion : Byte) (framed : List Byte) : Prop :=
  ∃ p e, .frame p ∈ (framing.feed Framing.fresh framed).2 ∧
    deliver protocolVersion (.frame p) = [.event e] ∧ e.err < 0

/-- Where a client stands in the stream that the broker sent. Once a packet is refused or
the connection is lost, nothing is framed any more. -/
inductive Stage (rxBufSize : ℕ) (protocolVersion : Byte) (wire : List Byte) (c : Client) : Prop
  | reading (consumed : List Byte) (sent : wire = consumed ++ c.wire)
      (log : c.log = (framing.feed Framing.fresh consumed).2.flatMap (deliver protocolVersion))
      (standing : (framing.feed Framing.fresh consumed).1 =
        ⟨slice c.rxBuf 0 c.datalen, c.remaining⟩)
      (live : c.tcpConnected = true) (idle : c.handling = none)
      (partway : need (slice c.rxBuf 0 c.datalen) ≠ 0) (fits : c.datalen ≤ rxBufSize)
      (empty : 0 < c.remaining → c.datalen = 0)
  | notifying (consumed : List Byte) (sent : wire = consumed ++ c.wire)
      (log : c.log = (framing.feed Framing.fresh consumed).2.flatMap (deliver protocolVersion))
      (standing : (framing.feed Framing.fresh consumed).1 = ⟨[], c.remaining⟩)
      (live : c.tcpConnected = true) (accepted : ∃ err, c.handling = some err ∧ 0 ≤ err)
  | severed (framed stray : List Byte) (sent : wire = framed ++ stray ++ c.wire)
      (log : c.log = (framing.feed Framing.fresh framed).2.flatMap (deliver protocolVersion) ++
        stray.map .payload)
      (refused : c.tcpConnected = true →
        (∃ err, c.handling = some err ∧ err < 0) ∧ Refused protocolVersion framed)
      (closed : c.tcpConnected = false → c.remaining = 0)
      (cause : stray = [] ∨ Refused protocolVersion framed)

theorem need_nothing {mem : Region Byte} : need (slice mem 0 0) ≠ 0 := by
  rw [slice_zero]
  decide

theorem stage_initial (rxBufSize : ℕ) (protocolVersion : Byte) (wire : List Byte) :
    Stage rxBufSize protocolVersion wire (.initial wire) := by
  refine .reading [] rfl rfl rfl rfl rfl need_nothing (Nat.zero_le _) ?_
  rintro ⟨⟩

@[simp] theorem clientDisconnect_wire (e : ℤ) (c : Client) :
    (clientDisconnect e c).wire = c.wire := rfl

@[simp] theorem clientDisconnect_log (e : ℤ) (c : Client) :
    (clientDisconnect e c).log = c.log := rfl

/-- A client that is disconnected has read what it had read. -/
theorem stage_disconnect {rxBufSize : ℕ} {protocolVersion : Byte} {wire : List Byte} {c : Client}
    (h : Stage rxBufSize protocolVersion wire c) (e : ℤ) :
    Stage rxBufSize protocolVersion wire (clientDisconnect e c) := by
  cases h with
  | reading consumed sent log | notifying consumed sent log =>
    exact .severed consumed [] (by simpa using sent) (by simpa using log) (by rintro ⟨⟩) (fun _ => rfl)
      (Or.inl rfl)
  | severed framed stray sent log _ _ cause =>
    exact .severed framed stray sent log (by rintro ⟨⟩) (fun _ => rfl) cause

/-- A call that reads payload changes nothing, or reads some, or loses the connection. -/
theorem readPublishPayload_cases (block : Bool) (answer : Option Recv) (length : ℕ) (c : Client) :
    readPublishPayload block answer length c = c ∨
      (∃ e, ((∃ a ∈ answer, failure a = some e) ∨ length = 0 ∧ e = enotconn) ∧
        readPublishPayload block answer length c = clientDisconnect e c) ∨
      ∃ bytes : List Byte, bytes.length ≤ c.remaining ∧ 0 < c.remaining ∧
        c.wire = bytes ++ c.wire.drop bytes.length ∧
        readPublishPayload block answer length c =
          { c with
            remaining := c.remaining - bytes.length
            wire := c.wire.drop bytes.length
            log := c.log ++ bytes.map .payload } := by
  unfold readPublishPayload
  by_cases hzero : c.remaining = 0
  · rw [if_pos hzero]
    exact Or.inl rfl
  · rw [if_neg hzero]
    cases hgot : transportRead block answer (min length c.remaining) c.wire with
    | none => exact Or.inl rfl
    | some got =>
      cases got with
      | error e =>
        simp only
        split
        · exact Or.inl rfl
        · rename_i hfatal
          rcases transportRead_error hgot with ⟨rfl, rfl, -⟩ | hfailed
          · exact absurd rfl hfatal
          · exact Or.inr (Or.inl ⟨e, Or.inl hfailed, rfl⟩)
      | ok bytes =>
        obtain ⟨hlen, hwire⟩ := transportRead_ok hgot
        simp only
        split
        · rename_i hnil
          rw [hnil] at hgot
          refine Or.inr (Or.inl ⟨enotconn, ?_, rfl⟩)
          rcases transportRead_empty hgot with hclosed | hnothing
          · exact Or.inl ⟨.closed, hclosed, rfl⟩
          · exact Or.inr ⟨by omega, rfl⟩
        · exact Or.inr (Or.inr ⟨bytes, by omega, by omega, hwire, rfl⟩)

theorem deliver_data (protocolVersion : Byte) (bytes : List Byte) :
    (bytes.map Item.data).flatMap (deliver protocolVersion) = bytes.map .payload := by
  rw [List.flatMap_map]
  simp only [deliver]
  rw [← List.flatMap_pure_eq_map]
  rfl

theorem feed_payload (protocolVersion : Byte) {consumed bytes start : List Byte} {bulk : ℕ}
    (h : (framing.feed Framing.fresh consumed).1 = ⟨start, bulk⟩) (hle : bytes.length ≤ bulk) :
    (framing.feed Framing.fresh (consumed ++ bytes)).1 = ⟨start, bulk - bytes.length⟩ ∧
      (framing.feed Framing.fresh (consumed ++ bytes)).2.flatMap (deliver protocolVersion) =
        (framing.feed Framing.fresh consumed).2.flatMap (deliver protocolVersion) ++
          bytes.map .payload := by
  rw [framing.feed_append, h, framing.feed_data start hle]
  refine ⟨rfl, ?_⟩
  rw [List.flatMap_append, deliver_data]

theorem stage_read {rxBufSize : ℕ} {protocolVersion : Byte} {wire : List Byte} {c : Client}
    (h : Stage rxBufSize protocolVersion wire c) (block : Bool) (answer : Option Recv)
    (length : ℕ) :
    Stage rxBufSize protocolVersion wire (readPublishPayload block answer length c) := by
  rcases readPublishPayload_cases block answer length c with
    hsame | ⟨e, -, hlost⟩ | ⟨bytes, hle, hpos, hwire, hread⟩
  · rw [hsame]
    exact h
  · rw [hlost]
    exact stage_disconnect h e
  · rw [hread]
    cases h with
    | reading consumed sent log standing live idle partway fits empty =>
      obtain ⟨hstanding, hlog⟩ := feed_payload protocolVersion standing hle
      refine .reading (consumed ++ bytes) ?_ ?_ hstanding live idle partway fits fun _ => empty hpos
      · rw [List.append_assoc, ← hwire]
        exact sent
      · rw [hlog, ← log]
    | notifying consumed sent log standing live accepted =>
      obtain ⟨hstanding, hlog⟩ := feed_payload protocolVersion standing hle
      refine .notifying (consumed ++ bytes) ?_ ?_ hstanding live accepted
      · rw [List.append_assoc, ← hwire]
        exact sent
      · rw [hlog, ← log]
    | severed framed stray sent log refused closed cause =>
      refine .severed framed (stray ++ bytes) ?_ ?_ refused (fun hclosed => ?_) (Or.inr ?_)
      · rw [sent, hwire]
        simp
      · rw [log, List.append_assoc, List.map_append]
      · simp only [closed hclosed, Nat.zero_sub]
      · cases hopen : c.tcpConnected with
        | true => exact (refused hopen).2
        | false =>
          rw [closed hopen] at hpos
          cases hpos

theorem stage_handled {rxBufSize : ℕ} {protocolVersion : Byte} {wire : List Byte} {c : Client}
    (h : Stage rxBufSize protocolVersion wire c) :
    Stage rxBufSize protocolVersion wire (handled c) := by
  cases hhandling : c.handling with
  | none =>
    rw [handled, hhandling]
    exact h
  | some err =>
    rw [handled, hhandling]
    simp only
    by_cases hneg : err < 0
    · rw [if_pos hneg]
      have hlost := stage_disconnect h err
      cases hlost with
      | reading _ _ _ _ live => cases live
      | notifying _ _ _ _ live => cases live
      | severed framed stray sent log _ _ cause =>
        exact .severed framed stray sent log (by rintro ⟨⟩) (fun _ => rfl) cause
    · rw [if_neg hneg]
      cases h with
      | reading _ _ _ _ _ idle =>
        rw [idle] at hhandling
        cases hhandling
      | notifying consumed sent log standing live =>
        exact .reading consumed sent log standing live rfl need_nothing
          (Nat.zero_le _) fun _ => rfl
      | severed framed stray sent log refused closed cause =>
        refine .severed framed stray sent log (fun hopen => ?_) closed cause
        obtain ⟨⟨err', herr', hneg'⟩, -⟩ := refused hopen
        rw [hhandling] at herr'
        cases herr'
        exact absurd hneg' hneg

theorem deliver_frame {protocolVersion : Byte} {p : List Byte} {h : Header}
    (hh : headerOf p = .ok h) :
    deliver protocolVersion (.frame p) =
      ((eventOf protocolVersion h.type h.length (p.drop h.size)).map .event).toList := by
  rw [deliver, hh]

theorem isPublish_iff (type : Byte) : isPublish type = true ↔ type &&& 0xf0#8 = 0x30#8 := by
  rw [isPublish, beq_iff_eq]

theorem publication_error {varLength : ℕ} {topic : List Byte} {qos : Byte} {id : Option (BitVec 16)}
    {dup retain : Bool} {size : ℕ} {e : ℤ}
    (h : publishDecode.publication varLength topic qos id dup retain size = .error e) :
    e = einval := by
  unfold publishDecode.publication at h
  split at h
  · cases h
    rfl
  · cases h

theorem publishOf_error {flags : Byte} {varLength : ℕ} {bytes : List Byte} {e : ℤ}
    (h : publishOf flags varLength bytes = .error e) : e = einval := by
  unfold publishOf at h
  simp only at h
  split at h
  · cases h
    rfl
  · split at h
    · split at h
      · cases h
        rfl
      · exact publication_error h
    · exact publication_error h

theorem eventOf_isPublish (protocolVersion : Byte) {type : Byte} (h : isPublish type = true)
    (length : ℕ) (bytes : List Byte) : eventOf protocolVersion type length bytes =
      some (.publish (publishOf type length bytes)) := by
  have hkind := (isPublish_iff type).mp h
  have hne : ¬ type &&& 0xf0#8 = 0x20#8 := by
    rw [hkind]
    decide
  rw [eventOf, if_neg hne, if_pos hkind]

theorem eventOf_publish {protocolVersion type : Byte} {length : ℕ} {bytes : List Byte} {e : Event}
    (h : eventOf protocolVersion type length bytes = some e) :
    isPublish type = true ∧ e = .publish (publishOf type length bytes) ∨
      isPublish type = false ∧ ∀ param, e ≠ .publish param := by
  by_cases hpub : isPublish type = true
  · rw [eventOf_isPublish protocolVersion hpub] at h
    cases h
    exact Or.inl ⟨hpub, rfl⟩
  · refine Or.inr ⟨Bool.not_eq_true _ ▸ hpub, ?_⟩
    rintro param rfl
    rw [isPublish_iff] at hpub
    simp only [eventOf, if_neg hpub] at h
    repeat' split at h
    all_goals cases h

theorem absorb_remaining_other {e : Event} (h : ∀ param, e ≠ .publish param) (stale : ℕ)
    (c : Client) : (e.absorb stale c).remaining = c.remaining := by
  cases e with
  | publish param => exact absurd rfl (h param)
  | connack param =>
    cases param with
    | error e => rfl
    | ok p =>
      simp only [Event.absorb]
      split <;> rfl
  | ack | suback | pingresp => rfl

/-- A packet that is not refused leaves its payload to be read. -/
theorem absorb_remaining {protocolVersion : Byte} {p : List Byte} {h : Header} {e : Event}
    (stale : ℕ) {c : Client} (hh : headerOf p = .ok h)
    (he : eventOf protocolVersion h.type h.length (p.drop h.size) = some e) (herr : 0 ≤ e.err)
    (hzero : c.remaining = 0) : (e.absorb stale c).remaining = payloadLen p := by
  rw [payloadLen, hh]
  simp only
  rcases eventOf_publish he with ⟨hpub, rfl⟩ | ⟨hpub, hother⟩
  · rw [if_pos hpub]
    cases hparam : publishOf h.type h.length (p.drop h.size) with
    | ok p => rfl
    | error e =>
      rw [hparam, publishOf_error hparam] at herr
      exact absurd herr (by decide)
  · rw [hpub, absorb_remaining_other hother, hzero]
    rfl

theorem payloadLen_none {protocolVersion : Byte} {p : List Byte} {h : Header}
    (hh : headerOf p = .ok h)
    (he : eventOf protocolVersion h.type h.length (p.drop h.size) = none) : payloadLen p = 0 := by
  have hpub : ¬ isPublish h.type = true := by
    intro hpub
    rw [eventOf_isPublish protocolVersion hpub] at he
    cases he
  rw [payloadLen, hh]
  exact if_neg hpub

/-- An event leaves the stream and the log alone. -/
theorem absorb_frame (e : Event) (stale : ℕ) (c : Client) : ∃ connected remaining unackedPing,
    e.absorb stale c = { c with
      connected := connected, remaining := remaining, unackedPing := unackedPing } := by
  cases e with
  | connack param =>
    cases param with
    | error e => exact ⟨_, _, _, rfl⟩
    | ok p =>
      simp only [Event.absorb]
      split
      · exact ⟨_, _, _, rfl⟩
      · exact ⟨_, _, _, rfl⟩
  | publish param => cases param <;> exact ⟨_, _, _, rfl⟩
  | ack | suback | pingresp => exact ⟨_, _, _, rfl⟩

theorem buf_bytes (r : Reading) : r.buf.bytes = r.start.drop r.cur := by
  have h := bytes_drop ⟨r.client.rxBuf, 0, r.stop⟩ r.cur
  rw [Nat.zero_add] at h
  exact h

/-- What comes of a call of mqtt_input that reads. -/
inductive Outcome (rxBufSize : ℕ) (protocolVersion : Byte) (answers : List Recv) (stale : ℕ)
    (r : Reading) (bytes : List Byte) : Client → Prop
  | waits (more : need r.start ≠ 0) (failure : Failure rxBufSize answers r bytes eagain) :
      Outcome _ _ _ _ _ _ r.client
  | lost (e : ℤ) (cause : (need r.start ≠ 0 ∧ e ≠ eagain ∧ Failure rxBufSize answers r bytes e) ∨
      (need r.start = 0 ∧ headerOf r.start = .error e)) :
      Outcome _ _ _ _ _ _ (clientDisconnect e r.client)
  | ignored (h : Header) (whole : need r.start = 0) (header : headerOf r.start = .ok h)
      (event : eventOf protocolVersion h.type h.length (r.start.drop h.size) = none) :
      Outcome _ _ _ _ _ _ { r.client with datalen := 0 }
  | noted (h : Header) (e : Event) (whole : need r.start = 0) (header : headerOf r.start = .ok h)
      (event : eventOf protocolVersion h.type h.length (r.start.drop h.size) = some e) :
      Outcome _ _ _ _ _ _ { e.absorb stale r.client with
        handling := some e.err, log := (e.absorb stale r.client).log ++ [.event e] }

theorem mqttInput_outcome {rxBufSize : ℕ} (protocolVersion : Byte) (hsize : rxBufSize < 2 ^ 32)
    {c : Client} (answers : List Recv) (stale : ℕ) (live : c.tcpConnected = true)
    (hzero : c.remaining = 0) (partway : need (slice c.rxBuf 0 c.datalen) ≠ 0)
    (fits : c.datalen ≤ rxBufSize) :
    ∃ r bytes, Progress rxBufSize c r bytes ∧
      Outcome rxBufSize protocolVersion answers stale r bytes
        (mqttInput rxBufSize protocolVersion answers stale c) := by
  obtain ⟨packet, r, bytes, hread, hprogress, hresult⟩ := progress_packet hsize answers partway fits
  have hlt : r.buf.stop < 2 ^ 32 := lt_of_le_of_lt hprogress.fits hsize
  refine ⟨r, bytes, hprogress, ?_⟩
  simp only [mqttInput, live, hzero, Bool.not_true, Bool.false_eq_true, if_false, Nat.lt_irrefl,
    hread]
  cases packet with
  | error e =>
    simp only
    by_cases hagain : e = eagain
    · rw [if_pos hagain]
      subst hagain
      rcases hresult with ⟨hfailure, hmore⟩ | ⟨-, -, hne⟩
      · exact .waits hmore hfailure
      · exact absurd rfl hne
    · rw [if_neg hagain]
      rcases hresult with ⟨hfailure, hmore⟩ | ⟨hdone, hwrong, -⟩
      · exact .lost e (Or.inl ⟨hmore, hagain, hfailure⟩)
      · exact .lost e (Or.inr ⟨hdone, hwrong⟩)
  | ok header =>
    obtain ⟨type, length⟩ := header
    obtain ⟨hdone, hh⟩ := hresult
    simp only
    rw [mqttHandlePacket_eq protocolVersion type length stale r.client hprogress.cur hlt, buf_bytes]
    cases he : eventOf protocolVersion type length (r.start.drop r.cur) with
    | none => exact .ignored ⟨type, length, r.cur⟩ hdone hh he
    | some e => exact .noted ⟨type, length, r.cur⟩ e hdone hh he

/-- The bytes that a call reads, fed to the framing behind the ones before. -/
theorem progress_feed {rxBufSize : ℕ} {c : Client} {r : Reading} {bytes consumed : List Byte}
    (h : Progress rxBufSize c r bytes)
    (standing : (framing.feed Framing.fresh consumed).1 = ⟨slice c.rxBuf 0 c.datalen, 0⟩) :
    framing.feed Framing.fresh (consumed ++ bytes) =
      if need r.start = 0 then
        (⟨[], payloadLen r.start⟩, (framing.feed Framing.fresh consumed).2 ++ [.frame r.start])
      else (⟨r.start, 0⟩, (framing.feed Framing.fresh consumed).2) := by
  rw [framing.feed_append, standing, h.fed]
  by_cases hdone : need r.start = 0
  · rw [if_pos hdone, if_pos hdone]
  · rw [if_neg hdone, if_neg hdone, List.append_nil]

theorem stage_input {rxBufSize : ℕ} {protocolVersion : Byte} (hsize : rxBufSize < 2 ^ 32)
    {wire : List Byte} {c : Client} (h : Stage rxBufSize protocolVersion wire c)
    (hidle : c.handling = none) (answers : List Recv) (stale : ℕ) :
    Stage rxBufSize protocolVersion wire (mqttInput rxBufSize protocolVersion answers stale c) := by
  cases h with
  | notifying _ _ _ _ _ accepted =>
    obtain ⟨err, herr, -⟩ := accepted
    rw [hidle] at herr
    cases herr
  | severed framed stray sent log refused closed cause =>
    have hclosed : c.tcpConnected = false := by
      rw [← Bool.not_eq_true]
      intro hopen
      obtain ⟨⟨err, herr, -⟩, -⟩ := refused hopen
      rw [hidle] at herr
      cases herr
    have hsame : mqttInput rxBufSize protocolVersion answers stale c = c := by
      simp [mqttInput, hclosed]
    rw [hsame]
    exact .severed framed stray sent log refused closed cause
  | reading consumed sent log standing live idle partway fits empty =>
    by_cases hpayload : 0 < c.remaining
    · have hsame : mqttInput rxBufSize protocolVersion answers stale c = c := by
        simp [mqttInput, live, hpayload]
      rw [hsame]
      exact .reading consumed sent log standing live idle partway fits empty
    · have hzero : c.remaining = 0 := by omega
      obtain ⟨r, bytes, hprogress, houtcome⟩ :=
        mqttInput_outcome protocolVersion hsize answers stale live hzero partway fits
      have hsent : wire = consumed ++ bytes ++ r.client.wire := by
        rw [List.append_assoc, ← hprogress.wire]
        exact sent
      rw [hzero] at standing
      have hfed := progress_feed hprogress standing
      have hlog : r.client.log = c.log := by rw [hprogress.frame]
      have hlive : r.client.tcpConnected = true := by rw [hprogress.frame, live]
      have hnone : r.client.handling = none := by rw [hprogress.frame, hidle]
      have hremaining : r.client.remaining = 0 := by rw [hprogress.frame, hzero]
      have hpart : need r.start ≠ 0 →
          framing.feed Framing.fresh (consumed ++ bytes) =
            (⟨r.start, 0⟩, (framing.feed Framing.fresh consumed).2) := by
        intro hmore
        rw [hfed, if_neg hmore]
      have hwhole : need r.start = 0 →
          (framing.feed Framing.fresh (consumed ++ bytes)).1 = ⟨[], payloadLen r.start⟩ ∧
            (framing.feed Framing.fresh (consumed ++ bytes)).2.flatMap (deliver protocolVersion) =
              c.log ++ deliver protocolVersion (.frame r.start) := by
        intro hdone
        rw [hfed, if_pos hdone, log]
        exact ⟨rfl, by simp only [List.flatMap_append, List.flatMap_singleton]⟩
      generalize mqttInput rxBufSize protocolVersion answers stale c = c' at houtcome ⊢
      cases houtcome with
      | waits more failure =>
        refine .reading (consumed ++ bytes) hsent ?_ ?_ hlive hnone ?_ ?_ ?_
        · rw [hlog, hpart more, log]
        · rw [hpart more, hprogress.stop, hremaining]
          rfl
        · rw [hprogress.stop]
          exact more
        · rw [hprogress.stop]
          exact hprogress.fits
        · rw [hremaining]
          rintro ⟨⟩
      | lost e cause =>
        refine .severed (consumed ++ bytes) [] ?_ ?_ (by rintro ⟨⟩) (fun _ => rfl) (Or.inl rfl)
        · rw [List.append_nil]
          exact hsent
        · rw [List.map_nil, List.append_nil, clientDisconnect_log, hlog]
          rcases cause with ⟨more, -⟩ | ⟨hdone, hwrong⟩
          · rw [hpart more, log]
          · rw [(hwhole hdone).2]
            simp only [deliver, hwrong, List.append_nil]
      | ignored h whole header event =>
        obtain ⟨hstanding, hframes⟩ := hwhole whole
        rw [deliver_frame header, event, Option.map_none, Option.toList_none, List.append_nil]
          at hframes
        refine .reading (consumed ++ bytes) hsent ?_ ?_ hlive hnone need_nothing (Nat.zero_le _)
          fun _ => rfl
        · rw [hframes]
          exact hlog
        · rw [hstanding, payloadLen_none header event]
          simp only [slice_zero, hremaining]
      | noted h e whole header event =>
        obtain ⟨hstanding, hframes⟩ := hwhole whole
        obtain ⟨connected, remaining, unackedPing, habsorb⟩ := absorb_frame e stale r.client
        rw [deliver_frame header, event, Option.map_some, Option.toList_some] at hframes
        by_cases herr : 0 ≤ e.err
        · have hpayload := absorb_remaining stale (c := r.client) header event herr hremaining
          refine .notifying (consumed ++ bytes) ?_ ?_ ?_ ?_ ⟨e.err, rfl, herr⟩
          · simp only [habsorb]
            exact hsent
          · rw [hframes, ← hlog]
            simp only [habsorb]
          · simp only [hpayload]
            exact hstanding
          · simp only [habsorb]
            exact hlive
        · have hrefused : Refused protocolVersion (consumed ++ bytes) := by
            refine ⟨r.start, e, ?_, ?_, by omega⟩
            · rw [hfed, if_pos whole]
              simp
            · rw [deliver_frame header, event]
              rfl
          refine .severed (consumed ++ bytes) [] ?_ ?_ (fun _ => ⟨⟨e.err, rfl, by omega⟩, hrefused⟩)
            ?_ (Or.inl rfl)
          · simp only [habsorb, List.append_nil]
            exact hsent
          · rw [hframes, ← hlog]
            simp only [habsorb, List.map_nil, List.append_nil]
          · simp only [habsorb, hlive]
            rintro ⟨⟩

/-- A call of mqtt_input changes nothing, or it reads on from where the client stands. -/
theorem Stage.input {rxBufSize : ℕ} {protocolVersion : Byte} (hsize : rxBufSize < 2 ^ 32)
    {wire : List Byte} {c : Client} (h : Stage rxBufSize protocolVersion wire c)
    (hidle : c.handling = none) (answers : List Recv) (stale : ℕ) :
    mqttInput rxBufSize protocolVersion answers stale c = c ∨
      ∃ consumed r bytes, wire = consumed ++ c.wire ∧
        (framing.feed Framing.fresh consumed).1 = ⟨slice c.rxBuf 0 c.datalen, 0⟩ ∧
        c.tcpConnected = true ∧ Progress rxBufSize c r bytes ∧
        Outcome rxBufSize protocolVersion answers stale r bytes
          (mqttInput rxBufSize protocolVersion answers stale c) := by
  cases h with
  | notifying _ _ _ _ _ accepted =>
    obtain ⟨err, herr, -⟩ := accepted
    rw [hidle] at herr
    cases herr
  | severed framed stray sent log refused =>
    cases hopen : c.tcpConnected with
    | false => exact Or.inl (by simp [mqttInput, hopen])
    | true =>
      obtain ⟨⟨err, herr, -⟩, -⟩ := refused hopen
      rw [hidle] at herr
      cases herr
  | reading consumed sent log standing live idle partway fits empty =>
    by_cases hpayload : 0 < c.remaining
    · exact Or.inl (by simp [mqttInput, live, hpayload])
    · have hzero : c.remaining = 0 := by omega
      obtain ⟨r, bytes, hprogress, houtcome⟩ :=
        mqttInput_outcome protocolVersion hsize answers stale live hzero partway fits
      rw [hzero] at standing
      exact Or.inr ⟨consumed, r, bytes, sent, standing, live, hprogress, houtcome⟩

theorem stage_step {rxBufSize : ℕ} {protocolVersion : Byte} (hsize : rxBufSize < 2 ^ 32)
    {wire : List Byte} {c : Client} (h : Stage rxBufSize protocolVersion wire c) (call : Call) :
    Stage rxBufSize protocolVersion wire (step rxBufSize protocolVersion c call) := by
  cases call with
  | input answers stale =>
    simp only [step]
    cases hhandling : c.handling with
    | some err => exact h
    | none => exact stage_input hsize h hhandling answers stale
  | handled => exact stage_handled h
  | read block answer length => exact stage_read h block answer length
  | disconnect result => exact stage_disconnect h result

theorem stage_run {rxBufSize : ℕ} {protocolVersion : Byte} (hsize : rxBufSize < 2 ^ 32)
    {wire : List Byte} (calls : List Call) {c : Client}
    (h : Stage rxBufSize protocolVersion wire c) :
    Stage rxBufSize protocolVersion wire (run rxBufSize protocolVersion calls c) := by
  induction calls generalizing c with
  | nil => exact h
  | cons call calls ih => exact ih (stage_step hsize h call)

theorem absorb_rxBuf (e : Event) (stale : ℕ) (c : Client) : (e.absorb stale c).rxBuf = c.rxBuf := by
  obtain ⟨connected, remaining, unackedPing, habsorb⟩ := absorb_frame e stale c
  rw [habsorb]

theorem stage_beyond {rxBufSize : ℕ} {protocolVersion : Byte} (hsize : rxBufSize < 2 ^ 32)
    {wire : List Byte} {c : Client} (h : Stage rxBufSize protocolVersion wire c) (call : Call)
    {i : ℕ} (hi : rxBufSize ≤ i) :
    (step rxBufSize protocolVersion c call).rxBuf i = c.rxBuf i := by
  cases call with
  | input answers stale =>
    simp only [step]
    cases hhandling : c.handling with
    | some err => rfl
    | none =>
      simp only [Option.isSome_none, Bool.false_eq_true, if_false]
      rcases h.input hsize hhandling answers stale with
        hsame | ⟨_, r, bytes, -, -, -, hprogress, houtcome⟩
      · rw [hsame]
      · rw [← hprogress.beyond i hi]
        generalize mqttInput rxBufSize protocolVersion answers stale c = c' at houtcome ⊢
        cases houtcome with
        | waits | lost | ignored => rfl
        | noted h e => exact congrFun (absorb_rxBuf e stale r.client) i
  | handled =>
    simp only [step, handled]
    split
    · rfl
    · split <;> rfl
  | read block answer length =>
    rcases readPublishPayload_cases block answer length c with
      hsame | ⟨e, -, hlost⟩ | ⟨bytes, -, -, -, hread⟩
    · simp only [step, hsame]
    · simp only [step, hlost, clientDisconnect]
    · simp only [step, hread]
  | disconnect result => rfl

theorem run_beyond {rxBufSize : ℕ} {protocolVersion : Byte} (hsize : rxBufSize < 2 ^ 32)
    {wire : List Byte} (calls : List Call) {c : Client}
    (h : Stage rxBufSize protocolVersion wire c) {i : ℕ} (hi : rxBufSize ≤ i) :
    (run rxBufSize protocolVersion calls c).rxBuf i = c.rxBuf i := by
  induction calls generalizing c with
  | nil => rfl
  | cons call calls ih =>
    calc (run rxBufSize protocolVersion calls (step rxBufSize protocolVersion c call)).rxBuf i
        = (step rxBufSize protocolVersion c call).rxBuf i := ih (stage_step hsize h call)
      _ = c.rxBuf i := stage_beyond hsize h call hi

/-- The bytes of an incomplete packet that wait in rx_buf. -/
def Client.buffered (c : Client) : List Byte :=
  if c.handling = none then slice c.rxBuf 0 c.datalen else []

/-- What a client has read, what it has delivered and where it stands. -/
theorem Stage.spells {rxBufSize : ℕ} {protocolVersion : Byte} {wire : List Byte} {c : Client}
    (h : Stage rxBufSize protocolVersion wire c) :
    ∃ consumed stray, wire = consumed ++ stray ++ c.wire ∧
      c.log = (framing.feed Framing.fresh consumed).2.flatMap (deliver protocolVersion) ++
        stray.map .payload ∧
      (stray = [] ∨ Refused protocolVersion consumed) ∧
      (c.tcpConnected = true → (∀ err ∈ c.handling, 0 ≤ err) → stray = [] ∧
        (framing.feed Framing.fresh consumed).1 = ⟨c.buffered, c.remaining⟩) := by
  cases h with
  | reading consumed sent log standing live idle =>
    refine ⟨consumed, [], ?_, ?_, Or.inl rfl, fun _ _ => ⟨rfl, ?_⟩⟩
    · rw [List.append_nil]
      exact sent
    · rw [List.map_nil, List.append_nil]
      exact log
    · rw [standing, Client.buffered, if_pos idle]
  | notifying consumed sent log standing live accepted =>
    refine ⟨consumed, [], ?_, ?_, Or.inl rfl, fun _ _ => ⟨rfl, ?_⟩⟩
    · rw [List.append_nil]
      exact sent
    · rw [List.map_nil, List.append_nil]
      exact log
    · obtain ⟨err, herr, -⟩ := accepted
      have hsome : c.handling ≠ none := by
        rw [herr]
        rintro ⟨⟩
      rw [standing, Client.buffered, if_neg hsome]
  | severed framed stray sent log refused closed cause =>
    refine ⟨framed, stray, sent, log, cause, fun hopen hfine => ?_⟩
    obtain ⟨⟨err, herr, hneg⟩, -⟩ := refused hopen
    have hnonneg := hfine err herr
    omega

end NcsProjects.MqttReceive
