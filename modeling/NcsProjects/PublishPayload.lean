import Mathlib.Data.Int.Notation
import Mathlib.Data.List.Basic
import NcsProjects.TransitionRuns

/-!
An incoming PUBLISH on the mqtt thread. The client library hands over the header
only; the payload stays in the socket, counted by remaining_payload, until the
event handler reads it. The functions below follow the handler of gcloud.c and
the library functions it calls, on the part of the client they touch. A read
takes the answers of the socket from a list: some bytes, a closed peer or an
error; with no answer left the thread stays in the read.
-/
namespace NcsProjects.PublishPayload

abbrev Byte := BitVec 8

/-- CONFIG_MQTT_PAYLOAD_BUFFER_SIZE -/
def payloadBufferSize : ℕ := 1024

def eio : ℤ := -5
def einval : ℤ := -22
def econnrefused : ℤ := -111
def enotconn : ℤ := -128

inductive Qos
  | atMostOnce
  | atLeastOnce
  | exactlyOnce
  deriving DecidableEq

/-- mqtt_publish_message: what the configuration callback gets. `data` is none
where the pointer is NULL. -/
structure PublishMessage where
  qos : Qos
  data : Option (List Byte)
  len : ℕ

structure PublishEvent where
  message : PublishMessage
  messageId : BitVec 16
  result : ℤ

inductive SessionState
  | closed
  | tcp
  | connected
  deriving DecidableEq

/-- The calls that the handler is judged by: an acknowledgement is asked of the library,
bytes of the payload come into payload_buffer, received_config_handler gets a message. -/
inductive Happening
  | ack (id : BitVec 16)
  | read (bytes : List Byte)
  | config (message : PublishMessage)

structure Conn where
  state : SessionState
  remaining : ℕ
  /-- The payload bytes of the current PUBLISH that are still in the stream. -/
  unread : List Byte
  /-- connected || connecting -/
  live : Bool
  /-- received_config_handler is not NULL. -/
  configHandler : Bool
  buffer : List Byte
  /-- What has happened, in its order. -/
  log : List Happening

/-- The answer of the socket to one blocking read; `bytes k` has k + 1 bytes ready. -/
inductive Recv
  | bytes (k : ℕ)
  | closed
  | error (e : ℕ)

/-- A call returns, or it ends the thread, runs past the buffer, or never returns. -/
inductive Flow
  | returned (err : ℤ)
  | aborted
  | overrun
  | blocked
  deriving DecidableEq

/-- client_disconnect on the mqtt thread: the client is reset, and the handler of
the DISCONNECT event aborts the thread it runs on while connected || connecting. -/
def clientDisconnect (err : ℤ) (c : Conn) : Flow × Conn :=
  let reset := { c with state := .closed, remaining := 0 }
  if c.live then (.aborted, reset) else (.returned err, reset)

/-- publish_ack_encode and client_write, shared by the acknowledgements. -/
def writeAck (write : Bool) (id : BitVec 16) (c : Conn) : Flow × Conn :=
  if c.state ≠ .connected then (.returned enotconn, c)
  else if id = 0#16 then (.returned einval, c)
  else if write then (.returned 0, c)
  else clientDisconnect eio c

def mqttPublishQos1Ack (write : Bool) (id : BitVec 16) (c : Conn) : Flow × Conn :=
  writeAck write id { c with log := c.log ++ [.ack id] }

def mqttPublishQos2Release (write : Bool) (id : BitVec 16) (c : Conn) : Flow × Conn :=
  writeAck write id c

/-- The bytes land in payload_buffer from offset `off` on. -/
def store (buffer : List Byte) (off : ℕ) (bytes : List Byte) : List Byte :=
  buffer.take off ++ bytes ++ buffer.drop (off + bytes.length)

/-- The socket moves `got` bytes of the payload into the buffer. -/
def Conn.consume (c : Conn) (off got : ℕ) : Conn :=
  { c with
    remaining := c.remaining - got
    unread := c.unread.drop got
    buffer := store c.buffer off (c.unread.take got)
    log := c.log ++ [.read (c.unread.take got)] }

/-- read_publish_payload with shall_block, after remaining_payload was seen nonzero. -/
def readPublishPayload (recv : Recv) (off length : ℕ) (c : Conn) : Flow × Conn :=
  if c.remaining = 0 then (.returned 0, c)
  else match recv with
    | .bytes k =>
      let got := min (min length c.remaining) (k + 1)
      if payloadBufferSize < off + got then (.overrun, c)
      else (.returned got, c.consume off got)
    | .closed => clientDisconnect enotconn c
    | .error e => clientDisconnect (-(e + 1 : ℕ)) c

/-- mqtt_readall_publish_payload with `off` bytes already in the buffer. -/
def mqttReadallPublishPayload : List Recv → ℕ → ℕ → Conn → Flow × Conn
  | _, _, 0, c => (.returned 0, c)
  | [], _, _ + 1, c => if c.remaining = 0 then (.returned eio, c) else (.blocked, c)
  | recv :: rest, off, length + 1, c =>
    match readPublishPayload recv off (length + 1) c with
    | (.returned ret, c') =>
      if ret < 0 then (.returned ret, c')
      else if ret = 0 then (.returned eio, c')
      else mqttReadallPublishPayload rest (off + ret.toNat) (length + 1 - ret.toNat) c'
    | stopped => stopped

/-- The handler acknowledges a QoS 1 message before it reads anything. -/
def sendAck (evt : PublishEvent) (ackWrite : Bool) (c : Conn) : Flow × Conn :=
  if evt.message.qos = .atLeastOnce then mqttPublishQos1Ack ackWrite evt.messageId c
  else (.returned 0, c)

/-- received_config_handler(&p->message), where one is registered. -/
def Conn.notify (c : Conn) (message : PublishMessage) : Conn :=
  if c.configHandler then { c with log := c.log ++ [.config message] } else c

/-- mqtt_event_handler on MQTT_EVT_PUBLISH. Neither result of the two calls is
looked at, and the callback gets the message of the event as it came. -/
def mqttEventHandlerPublish (evt : PublishEvent) (ackWrite : Bool) (recvs : List Recv)
    (c : Conn) : Flow × Conn :=
  match sendAck evt ackWrite c with
  | (.returned _, c₁) =>
    if evt.message.len ≤ 2 then (.returned 0, c₁)
    else match mqttReadallPublishPayload recvs 0 evt.message.len c₁ with
      | (.returned _, c₂) => (.returned 0, c₂.notify evt.message)
      | stopped => stopped
  | stopped => stopped

/-- A PUBLISH as the broker sends it; `result` is the outcome of decoding its header. -/
structure Publish where
  qos : Qos
  messageId : BitVec 16
  payload : List Byte
  result : ℤ

/-- The event that the library makes of a PUBLISH: the payload is left in the stream. -/
def Publish.event (p : Publish) : PublishEvent where
  message := ⟨p.qos, none, p.payload.length⟩
  messageId := p.messageId
  result := p.result

def Conn.receive (c : Conn) (p : Publish) : Conn :=
  { c with remaining := p.payload.length, unread := p.payload }

/-- The bytes that the socket delivers before it fails or stays silent. -/
def supplied : List Recv → ℕ
  | .bytes k :: rest => k + 1 + supplied rest
  | _ => 0

@[simp] theorem notify_state (c : Conn) (m : PublishMessage) : (c.notify m).state = c.state := by
  unfold Conn.notify
  split <;> rfl

@[simp] theorem notify_remaining (c : Conn) (m : PublishMessage) :
    (c.notify m).remaining = c.remaining := by
  unfold Conn.notify
  split <;> rfl

@[simp] theorem notify_unread (c : Conn) (m : PublishMessage) :
    (c.notify m).unread = c.unread := by
  unfold Conn.notify
  split <;> rfl

theorem notify_log (c : Conn) (m : PublishMessage) :
    (c.notify m).log = c.log ++ ((if c.configHandler then [m] else []).map .config) := by
  unfold Conn.notify
  split
  · rfl
  · exact (List.append_nil _).symm

theorem clientDisconnect_closed (err : ℤ) (c : Conn) :
    (clientDisconnect err c).2 = { c with state := .closed, remaining := 0 } := by
  unfold clientDisconnect
  split <;> rfl

theorem clientDisconnect_flow (err : ℤ) (c : Conn) :
    (clientDisconnect err c).1 = .aborted ∨ (clientDisconnect err c).1 = .returned err := by
  unfold clientDisconnect
  split
  · exact Or.inl rfl
  · exact Or.inr rfl

/-- An acknowledgement leaves the client alone or loses the session. -/
theorem writeAck_cases (write : Bool) (id : BitVec 16) (c : Conn) :
    (∃ err, writeAck write id c = (.returned err, c)) ∨
      writeAck write id c = clientDisconnect eio c := by
  unfold writeAck
  split
  · exact Or.inl ⟨_, rfl⟩
  · split
    · exact Or.inl ⟨_, rfl⟩
    · split
      · exact Or.inl ⟨_, rfl⟩
      · exact Or.inr rfl

/-- A reset client has no payload left, and the reading loop gives up at once. -/
theorem readall_drained (recvs : List Recv) (off length : ℕ) {c : Conn} (hc : c.remaining = 0) :
    ∃ err, mqttReadallPublishPayload recvs off length c = (.returned err, c) := by
  cases length with
  | zero => exact ⟨0, by simp [mqttReadallPublishPayload]⟩
  | succ length =>
    cases recvs with
    | nil => exact ⟨eio, by simp [mqttReadallPublishPayload, hc]⟩
    | cons recv rest =>
      exact ⟨eio, by simp [mqttReadallPublishPayload, readPublishPayload, hc]⟩

theorem readPublishPayload_bytes (k off length : ℕ) {c : Conn} (hc : c.remaining = length)
    (hpos : 0 < length) (hfit : off + min length (k + 1) ≤ payloadBufferSize) :
    readPublishPayload (.bytes k) off length c =
      (.returned (min length (k + 1) : ℕ), c.consume off (min length (k + 1))) := by
  have hne : length ≠ 0 := by omega
  have hle : ¬ payloadBufferSize < off + min length (k + 1) := by omega
  simp only [readPublishPayload, hc, if_neg hne, Nat.min_self, if_neg hle]

theorem readPublishPayload_overrun (k off length : ℕ) {c : Conn} (hc : c.remaining = length)
    (hpos : 0 < length) (hover : payloadBufferSize < off + min length (k + 1)) :
    readPublishPayload (.bytes k) off length c = (.overrun, c) := by
  have hne : length ≠ 0 := by omega
  simp only [readPublishPayload, hc, if_neg hne, Nat.min_self, if_pos hover]

/-- One answer of `k + 1` bytes moves as many of them as the loop still wants. -/
theorem readall_bytes (k : ℕ) (rest : List Recv) (off length : ℕ) {c : Conn}
    (hc : c.remaining = length) (hpos : 0 < length)
    (hfit : off + min length (k + 1) ≤ payloadBufferSize) :
    mqttReadallPublishPayload (.bytes k :: rest) off length c =
      mqttReadallPublishPayload rest (off + min length (k + 1)) (length - min length (k + 1))
        (c.consume off (min length (k + 1))) := by
  obtain ⟨length, rfl⟩ : ∃ m, length = m + 1 := ⟨length - 1, by omega⟩
  have hret : ¬ ((min (length + 1) (k + 1) : ℕ) : ℤ) < 0 := by omega
  have hret' : ¬ ((min (length + 1) (k + 1) : ℕ) : ℤ) = 0 := by omega
  rw [mqttReadallPublishPayload, readPublishPayload_bytes k off _ hc hpos hfit]
  simp only [if_neg hret, if_neg hret', Int.toNat_natCast]

/-- A closed peer or an error ends the loop with the loss of the session. -/
theorem readall_lost (recv : Recv) (rest : List Recv) (off length : ℕ) {c : Conn}
    (hc : c.remaining = length) (hpos : 0 < length) (hrecv : ∀ k, recv ≠ .bytes k) :
    ∃ err, mqttReadallPublishPayload (recv :: rest) off length c = clientDisconnect err c := by
  obtain ⟨length, rfl⟩ : ∃ m, length = m + 1 := ⟨length - 1, by omega⟩
  have hne : length + 1 ≠ 0 := by omega
  have hread : ∃ err : ℤ, err < 0 ∧
      readPublishPayload recv off (length + 1) c = clientDisconnect err c := by
    cases recv with
    | bytes k => exact absurd rfl (hrecv k)
    | closed => exact ⟨enotconn, by decide, by simp only [readPublishPayload, hc, if_neg hne]⟩
    | error e =>
      exact ⟨-(e + 1 : ℕ), by omega, by simp only [readPublishPayload, hc, if_neg hne]⟩
  obtain ⟨err, hneg, heq⟩ := hread
  refine ⟨err, ?_⟩
  rw [mqttReadallPublishPayload, heq]
  rcases clientDisconnect_flow err c with hflow | hflow
  · rw [← Prod.eta (clientDisconnect err c), hflow]
  · rw [← Prod.eta (clientDisconnect err c), hflow]
    simp only [if_pos hneg]

@[simp] theorem consume_remaining (c : Conn) (off got : ℕ) :
    (c.consume off got).remaining = c.remaining - got := rfl

@[simp] theorem consume_unread (c : Conn) (off got : ℕ) :
    (c.consume off got).unread = c.unread.drop got := rfl

theorem store_length (buffer : List Byte) (off : ℕ) (bytes : List Byte)
    (h : off + bytes.length ≤ buffer.length) : (store buffer off bytes).length = buffer.length := by
  simp only [store, List.length_append, List.length_take, List.length_drop]
  omega

/-- What lies before and right behind the offset after a store. -/
theorem take_store (buffer : List Byte) (off : ℕ) (bytes : List Byte)
    (h : off + bytes.length ≤ buffer.length) :
    (store buffer off bytes).take (off + bytes.length) = buffer.take off ++ bytes := by
  have hlen : (buffer.take off ++ bytes).length = off + bytes.length := by
    simp only [List.length_append, List.length_take]
    omega
  unfold store
  rw [← hlen, List.take_left]

/-- The bytes that the calls brought into the buffer. -/
def received : List Happening → List Byte
  | [] => []
  | .read bytes :: rest => bytes ++ received rest
  | .ack _ :: rest | .config _ :: rest => received rest

theorem received_reads (chunks : List (List Byte)) :
    received (chunks.map .read) = chunks.flatten := by
  induction chunks with
  | nil => rfl
  | cons bytes rest ih => simp only [List.map_cons, received, ih, List.flatten_cons]

theorem received_append (calls more : List Happening) :
    received (calls ++ more) = received calls ++ received more := by
  induction calls with
  | nil => rfl
  | cons call rest ih =>
    cases call with
    | read bytes => simp only [List.cons_append, received, ih, List.append_assoc]
    | ack id | config message => exact ih

theorem readall_nothing (recvs : List Recv) (off : ℕ) {c : Conn} (hc : c.remaining = 0)
    (hunread : c.unread = []) :
    mqttReadallPublishPayload recvs off 0 c = (.returned 0, { c with
      remaining := 0
      unread := []
      buffer := c.buffer
      log := c.log ++ ([] : List (List Byte)).map .read }) := by
  rw [mqttReadallPublishPayload, List.map_nil, List.append_nil]
  simp only [← hc, ← hunread]

/-- When the payload fits and the socket supplies it, the loop reads all of it, in
pieces, and leaves it in the buffer. -/
theorem readall_complete (recvs : List Recv) (off length : ℕ) {c : Conn}
    (hc : c.remaining = length) (hunread : c.unread.length = length)
    (hfit : off + length ≤ payloadBufferSize) (hsup : length ≤ supplied recvs) :
    ∃ (buffer : List Byte) (chunks : List (List Byte)),
      mqttReadallPublishPayload recvs off length c =
        (.returned 0, { c with
          remaining := 0
          unread := []
          buffer := buffer
          log := c.log ++ chunks.map .read }) ∧
      chunks.flatten = c.unread ∧
      (c.buffer.length = payloadBufferSize →
        buffer.take (off + length) = c.buffer.take off ++ c.unread) := by
  induction recvs generalizing off length c with
  | nil =>
    obtain rfl : length = 0 := by simpa [supplied] using hsup
    have hnil := List.length_eq_zero_iff.mp hunread
    exact ⟨c.buffer, [], readall_nothing [] off hc hnil, by simp [hnil], by simp [hnil]⟩
  | cons recv rest ih =>
    rcases Nat.eq_zero_or_pos length with rfl | hpos
    · have hnil := List.length_eq_zero_iff.mp hunread
      exact ⟨c.buffer, [], readall_nothing _ off hc hnil, by simp [hnil], by simp [hnil]⟩
    · cases recv with
      | closed | error e =>
        simp only [supplied] at hsup
        omega
      | bytes k =>
        simp only [supplied] at hsup
        rw [readall_bytes k rest off length hc hpos (by omega)]
        generalize hgot : min length (k + 1) = got
        have htake : (c.unread.take got).length = got := by
          simp only [List.length_take]
          omega
        have hleft : (c.consume off got).unread.length = length - got := by
          simp only [consume_unread, List.length_drop, hunread]
        obtain ⟨buffer, chunks, heq, hchunks, hcontent⟩ :=
          ih (off + got) (length - got) (c := c.consume off got) (by rw [consume_remaining, hc])
            hleft (by omega) (by omega)
        refine ⟨buffer, c.unread.take got :: chunks, ?_, ?_, ?_⟩
        · rw [heq]
          simp only [Conn.consume, List.map_cons, List.append_assoc, List.singleton_append]
        · rw [List.flatten_cons, hchunks, consume_unread, List.take_append_drop]
        · intro hbuf
          have hlen : (c.consume off got).buffer.length = payloadBufferSize := by
            rw [← hbuf]
            exact store_length _ _ _ (by omega)
          have hcontent := hcontent hlen
          have hoff : off + got + (length - got) = off + length := by omega
          have hstore : (store c.buffer off (c.unread.take got)).take (off + got) =
              c.buffer.take off ++ c.unread.take got := by
            have h := take_store c.buffer off (c.unread.take got) (by omega)
            rwa [htake] at h
          rw [hoff] at hcontent
          rw [hcontent, Conn.consume, hstore, List.append_assoc, List.take_append_drop]

/-- When the socket fails or falls silent first, and what it gave fits, the loop
loses the session, ends the thread or stays in a read, with bytes left unread. -/
theorem readall_short (recvs : List Recv) (off length : ℕ) {c : Conn}
    (hc : c.remaining = length) (hunread : c.unread.length = length)
    (hsup : supplied recvs < length) (hfit : off + supplied recvs ≤ payloadBufferSize) :
    ∃ flow c', mqttReadallPublishPayload recvs off length c = (flow, c') ∧ flow ≠ .overrun ∧
      (∀ err, flow = .returned err → c'.state = .closed) ∧ c'.unread ≠ [] := by
  have hpos : 0 < length := by omega
  have hne : c.unread ≠ [] := by
    intro hnil
    simp [hnil] at hunread
    omega
  induction recvs generalizing off length c with
  | nil =>
    obtain ⟨length, rfl⟩ : ∃ m, length = m + 1 := ⟨length - 1, by omega⟩
    refine ⟨.blocked, c, ?_, by decide, by simp, hne⟩
    simp [mqttReadallPublishPayload, hc]
  | cons recv rest ih =>
    by_cases hrecv : ∀ k, recv ≠ .bytes k
    · obtain ⟨err, heq⟩ := readall_lost recv rest off length hc hpos hrecv
      refine ⟨(clientDisconnect err c).1, (clientDisconnect err c).2, heq, ?_⟩
      simp only [clientDisconnect_closed, implies_true, hne, ne_eq, not_false_eq_true, and_true]
      rcases clientDisconnect_flow err c with hflow | hflow <;> simp [hflow]
    · obtain ⟨k, rfl⟩ : ∃ k, recv = .bytes k := by simpa using hrecv
      simp only [supplied] at hsup hfit
      have hmin : min length (k + 1) = k + 1 := by omega
      rw [readall_bytes k rest off length hc hpos (by omega), hmin]
      exact ih (off + (k + 1)) (length - (k + 1)) (c := c.consume off (k + 1))
          (by rw [consume_remaining, hc])
          (by simp only [consume_unread, List.length_drop, hunread])
          (by omega) (by omega) (by omega)
          (by
            intro hnil
            have hz := congrArg List.length hnil
            simp only [consume_unread, List.length_drop, hunread, List.length_nil] at hz
            omega)

/-- A payload longer than the buffer runs past its end once the socket has given more
than the buffer holds. -/
theorem readall_overrun (recvs : List Recv) (off length : ℕ) {c : Conn}
    (hc : c.remaining = length) (hunread : c.unread.length = length)
    (hlong : payloadBufferSize < off + length)
    (hoff : off ≤ payloadBufferSize) (hsup : payloadBufferSize < off + supplied recvs) :
    ∃ c', mqttReadallPublishPayload recvs off length c = (.overrun, c') ∧ c'.unread ≠ [] := by
  induction recvs generalizing off length c with
  | nil =>
    simp only [supplied] at hsup
    omega
  | cons recv rest ih =>
    have hpos : 0 < length := by omega
    cases recv with
    | bytes k =>
      simp only [supplied] at hsup
      by_cases hfit : off + min length (k + 1) ≤ payloadBufferSize
      · have hmin : min length (k + 1) = k + 1 := by omega
        rw [readall_bytes k rest off length hc hpos hfit, hmin]
        exact ih (off + (k + 1)) (length - (k + 1)) (c := c.consume off (k + 1))
          (by rw [consume_remaining, hc])
          (by simp only [consume_unread, List.length_drop, hunread])
          (by omega) (by omega) (by omega)
      · obtain ⟨length, rfl⟩ : ∃ m, length = m + 1 := ⟨length - 1, by omega⟩
        refine ⟨c, ?_, ?_⟩
        · rw [mqttReadallPublishPayload,
            readPublishPayload_overrun k off _ hc hpos (by omega)]
        · intro hnil
          simp [hnil] at hunread
    | closed | error e =>
      simp only [supplied] at hsup
      omega

theorem readPublishPayload_log (recv : Recv) (off length : ℕ) (c : Conn) :
    ∃ chunks : List (List Byte),
      (readPublishPayload recv off length c).2.log = c.log ++ chunks.map .read := by
  have hsame : c.log = c.log ++ ([] : List (List Byte)).map .read := (List.append_nil _).symm
  unfold readPublishPayload
  split
  · exact ⟨[], hsame⟩
  · cases recv with
    | bytes k =>
      simp only
      split
      · exact ⟨[], hsame⟩
      · exact ⟨[_], rfl⟩
    | closed => exact ⟨[], by rw [clientDisconnect_closed]; exact hsame⟩
    | error e => exact ⟨[], by rw [clientDisconnect_closed]; exact hsame⟩

/-- Whatever comes of the loop, it does nothing but read. -/
theorem readall_log (recvs : List Recv) (off length : ℕ) (c : Conn) :
    ∃ chunks : List (List Byte),
      (mqttReadallPublishPayload recvs off length c).2.log = c.log ++ chunks.map .read := by
  have hsame (c : Conn) : c.log = c.log ++ ([] : List (List Byte)).map .read :=
    (List.append_nil _).symm
  induction recvs generalizing off length c with
  | nil =>
    cases length with
    | zero => exact ⟨[], hsame c⟩
    | succ length =>
      refine ⟨[], ?_⟩
      rw [mqttReadallPublishPayload]
      split <;> exact hsame c
  | cons recv rest ih =>
    cases length with
    | zero => exact ⟨[], hsame c⟩
    | succ length =>
      obtain ⟨chunks, hlog⟩ := readPublishPayload_log recv off (length + 1) c
      rw [mqttReadallPublishPayload]
      generalize readPublishPayload recv off (length + 1) c = read at hlog ⊢
      obtain ⟨flow, c'⟩ := read
      cases flow with
      | returned ret =>
        simp only at hlog ⊢
        split
        · exact ⟨chunks, hlog⟩
        · split
          · exact ⟨chunks, hlog⟩
          · obtain ⟨more, hmore⟩ := ih (off + ret.toNat) (length + 1 - ret.toNat) c'
            refine ⟨chunks ++ more, ?_⟩
            rw [hmore, hlog, List.map_append, List.append_assoc]
      | aborted | overrun | blocked => exact ⟨chunks, hlog⟩

/-- The write of the acknowledgement fails, and with it the session. -/
def ackLoses (c : Conn) (p : Publish) (ackWrite : Bool) : Prop :=
  p.qos = .atLeastOnce ∧ c.state = .connected ∧ p.messageId ≠ 0#16 ∧ ackWrite = false

/-- What has happened when the handler comes to the payload. -/
def logAfterAck (c : Conn) (p : Publish) : List Happening :=
  if p.qos = .atLeastOnce then c.log ++ [.ack p.messageId] else c.log

/-- A QoS 1 message is acknowledged at once; the write may lose the session. -/
theorem sendAck_qos1 {p : Publish} (hqos : p.qos = .atLeastOnce) (ackWrite : Bool) (c : Conn) :
    sendAck p.event ackWrite (c.receive p) =
      writeAck ackWrite p.messageId { c.receive p with log := logAfterAck c p } := by
  simp [sendAck, Publish.event, hqos, mqttPublishQos1Ack, logAfterAck, Conn.receive]

theorem sendAck_loses {c : Conn} {p : Publish} {ackWrite : Bool} (h : ackLoses c p ackWrite) :
    sendAck p.event ackWrite (c.receive p) =
      clientDisconnect eio { c.receive p with log := logAfterAck c p } := by
  obtain ⟨hqos, hstate, hid, hwrite⟩ := h
  rw [sendAck_qos1 hqos]
  simp [writeAck, Conn.receive, hstate, hid, hwrite]

theorem sendAck_keeps {c : Conn} {p : Publish} {ackWrite : Bool} (h : ¬ ackLoses c p ackWrite) :
    ∃ err, sendAck p.event ackWrite (c.receive p) =
      (.returned err, { c.receive p with log := logAfterAck c p }) := by
  by_cases hqos : p.qos = .atLeastOnce
  · rw [sendAck_qos1 hqos]
    by_cases hstate : c.state = .connected
    · by_cases hid : p.messageId = 0#16
      · exact ⟨einval, by simp [writeAck, Conn.receive, hstate, hid]⟩
      · have hwrite : ackWrite = true := by
          by_contra hf
          exact h ⟨hqos, hstate, hid, by simpa using hf⟩
        exact ⟨0, by simp [writeAck, Conn.receive, hstate, hid, hwrite]⟩
    · exact ⟨enotconn, by simp [writeAck, Conn.receive, hstate]⟩
  · exact ⟨0, by simp [sendAck, Publish.event, logAfterAck, hqos, Conn.receive]⟩

section Handler

variable {c : Conn} {p : Publish} {ackWrite : Bool} (recvs : List Recv)

/-- After the session is lost in the acknowledgement nothing is read. -/
theorem publish_of_ackLoses (h : ackLoses c p ackWrite) :
    ∃ flow c', mqttEventHandlerPublish p.event ackWrite recvs (c.receive p) = (flow, c') ∧
      (flow = .aborted ∨ flow = .returned 0) ∧ c'.state = .closed ∧ c'.unread = p.payload := by
  unfold mqttEventHandlerPublish
  rw [sendAck_loses h]
  generalize hc₀ : ({ c.receive p with log := logAfterAck c p } : Conn) = c₀
  have hunread : c₀.unread = p.payload := by
    rw [← hc₀]
    rfl
  have hclosed := clientDisconnect_closed eio c₀
  rcases clientDisconnect_flow eio c₀ with hflow | hflow
  · rw [← Prod.eta (clientDisconnect eio c₀), hflow, hclosed]
    exact ⟨_, _, rfl, Or.inl rfl, rfl, hunread⟩
  · rw [← Prod.eta (clientDisconnect eio c₀), hflow, hclosed]
    simp only
    split
    · exact ⟨_, _, rfl, Or.inr rfl, rfl, hunread⟩
    · obtain ⟨err, hread⟩ := readall_drained recvs 0 p.event.message.len
        (c := { c₀ with state := .closed, remaining := 0 }) rfl
      rw [hread]
      exact ⟨_, _, rfl, Or.inr rfl, by simp, by simp [hunread]⟩

/-- A payload of one or two bytes is left where it is. -/
theorem publish_of_tiny (h : ¬ ackLoses c p ackWrite) (hn : p.payload.length ≤ 2) :
    mqttEventHandlerPublish p.event ackWrite recvs (c.receive p) =
      (.returned 0, { c.receive p with log := logAfterAck c p }) := by
  obtain ⟨err, hack⟩ := sendAck_keeps h
  have hlen : p.event.message.len ≤ 2 := hn
  simp only [mqttEventHandlerPublish, hack, if_pos hlen]

/-- A payload that comes in whole is read after the acknowledgement, and the application is
told with the NULL pointer of the event. -/
theorem publish_of_complete (h : ¬ ackLoses c p ackWrite) (hn : 2 < p.payload.length)
    (hfit : p.payload.length ≤ payloadBufferSize) (hsup : p.payload.length ≤ supplied recvs) :
    ∃ (buffer : List Byte) (chunks : List (List Byte)),
      mqttEventHandlerPublish p.event ackWrite recvs (c.receive p) =
      (.returned 0, ({ c with
        remaining := 0
        unread := []
        buffer := buffer
        log := logAfterAck c p ++ chunks.map .read } : Conn).notify p.event.message) ∧
      chunks.flatten = p.payload := by
  obtain ⟨err, hack⟩ := sendAck_keeps h
  have hlen : ¬ p.event.message.len ≤ 2 := by
    change ¬ p.payload.length ≤ 2
    omega
  obtain ⟨buffer, chunks, hread, hchunks, _⟩ := readall_complete recvs 0 p.payload.length
    (c := { c.receive p with log := logAfterAck c p }) rfl rfl (by omega) hsup
  have hread' : mqttReadallPublishPayload recvs 0 p.event.message.len
      { c.receive p with log := logAfterAck c p } = _ := hread
  refine ⟨buffer, chunks, ?_, hchunks⟩
  simp only [mqttEventHandlerPublish, hack, if_neg hlen, hread']
  rfl

theorem publish_of_short (h : ¬ ackLoses c p ackWrite) (hn : 2 < p.payload.length)
    (hsup : supplied recvs < p.payload.length) (hfit : supplied recvs ≤ payloadBufferSize) :
    ∃ flow c', mqttEventHandlerPublish p.event ackWrite recvs (c.receive p) = (flow, c') ∧
      flow ≠ .overrun ∧ (∀ err, flow = .returned err → c'.state = .closed) ∧ c'.unread ≠ [] := by
  obtain ⟨err, hack⟩ := sendAck_keeps h
  have hlen : ¬ p.event.message.len ≤ 2 := by
    change ¬ p.payload.length ≤ 2
    omega
  obtain ⟨flow, c', hread, hflow, hclosed, hunread⟩ :=
    readall_short recvs 0 p.payload.length
      (c := { c.receive p with log := logAfterAck c p }) rfl rfl hsup (by omega)
  have hread' : mqttReadallPublishPayload recvs 0 p.event.message.len
      { c.receive p with log := logAfterAck c p } = _ := hread
  simp only [mqttEventHandlerPublish, hack, if_neg hlen, hread']
  cases flow with
  | returned err' =>
    refine ⟨_, _, rfl, by decide, ?_, by simpa using hunread⟩
    intro _ _
    simpa using hclosed err' rfl
  | overrun => exact absurd rfl hflow
  | aborted | blocked => exact ⟨_, c', rfl, by decide, by simp, hunread⟩

theorem publish_of_overrun (h : ¬ ackLoses c p ackWrite)
    (hlong : payloadBufferSize < p.payload.length) (hsup : payloadBufferSize < supplied recvs) :
    ∃ c', mqttEventHandlerPublish p.event ackWrite recvs (c.receive p) = (.overrun, c') ∧
      c'.unread ≠ [] := by
  obtain ⟨err, hack⟩ := sendAck_keeps h
  have hlen : ¬ p.event.message.len ≤ 2 := by
    change ¬ p.payload.length ≤ 2
    have : payloadBufferSize = 1024 := rfl
    omega
  obtain ⟨c', hread, hunread⟩ := readall_overrun recvs 0 p.payload.length
    (c := { c.receive p with log := logAfterAck c p }) rfl rfl (by omega) (by omega) (by omega)
  have hread' : mqttReadallPublishPayload recvs 0 p.event.message.len
      { c.receive p with log := logAfterAck c p } = _ := hread
  refine ⟨c', ?_, hunread⟩
  simp only [mqttEventHandlerPublish, hack, if_neg hlen, hread']

/-- All that happens in the handler of a QoS 1 message: the acknowledgement comes first,
then the reads, and then the callback may get the message of the event. -/
theorem publish_log (hqos : p.qos = .atLeastOnce) :
    ∃ (chunks : List (List Byte)) (told : List PublishMessage),
      (mqttEventHandlerPublish p.event ackWrite recvs (c.receive p)).2.log =
        c.log ++ .ack p.messageId :: (chunks.map .read ++ told.map .config) ∧
      (told = [] ∨ told = [p.event.message]) ∧
      (p.payload.length ≤ 2 → chunks = [] ∧ told = []) := by
  have hack : (sendAck p.event ackWrite (c.receive p)).2.log = c.log ++ [.ack p.messageId] := by
    rw [sendAck_qos1 hqos, logAfterAck, if_pos hqos]
    rcases writeAck_cases ackWrite p.messageId
      { c.receive p with log := c.log ++ [.ack p.messageId] } with ⟨err, heq⟩ | heq
    · rw [heq]
    · rw [heq, clientDisconnect_closed]
  unfold mqttEventHandlerPublish
  generalize sendAck p.event ackWrite (c.receive p) = sent at hack ⊢
  obtain ⟨flow, c₁⟩ := sent
  have hquiet : c₁.log = c.log ++ .ack p.messageId ::
      (([] : List (List Byte)).map .read ++ ([] : List PublishMessage).map .config) := hack
  cases flow with
  | aborted | overrun | blocked => exact ⟨[], [], hquiet, Or.inl rfl, fun _ => ⟨rfl, rfl⟩⟩
  | returned err =>
    by_cases hlen : p.event.message.len ≤ 2
    · simp only [if_pos hlen]
      exact ⟨[], [], hquiet, Or.inl rfl, fun _ => ⟨rfl, rfl⟩⟩
    · obtain ⟨chunks, hread⟩ := readall_log recvs 0 p.event.message.len c₁
      simp only [if_neg hlen]
      generalize mqttReadallPublishPayload recvs 0 p.event.message.len c₁ = read at hread ⊢
      obtain ⟨flow, c₂⟩ := read
      simp only at hread hack
      rw [hack, List.append_assoc] at hread
      have hlong : ¬ p.payload.length ≤ 2 := hlen
      cases flow with
      | aborted | overrun | blocked =>
        refine ⟨chunks, [], ?_, Or.inl rfl, fun hshort => absurd hshort hlong⟩
        rw [List.map_nil, List.append_nil]
        exact hread
      | returned err =>
        refine ⟨chunks, if c₂.configHandler then [p.event.message] else [], ?_, ?_,
          fun hshort => absurd hshort hlong⟩
        · simp only [notify_log, hread, List.append_assoc, List.cons_append, List.nil_append]
        · split
          · exact Or.inr rfl
          · exact Or.inl rfl

end Handler

end NcsProjects.PublishPayload
