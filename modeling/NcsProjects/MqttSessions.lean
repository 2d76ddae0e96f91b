import NcsProjects.MqttBroker

/-!
The calls of the client library that write, as zephyr.lst has mqtt.c, its TLS transport
and the sockets of the modem compiled. A call holds the lock of the client from its check
of the state to the last byte. So each connection carries one CONNECT first, then whole
packets of calls that were made after the broker took the client, and nothing behind a
DISCONNECT or behind a write that failed. The library does not look whether it is
connected already when it connects; here only an application does so that is not.
-/
namespace NcsProjects.MqttSessions

open CStrings MqttBroker MqttPackets WireFormats

def enotconn : ℤ := -128
def eagain : ℤ := -11

/-- The answer to one nrf_sendto: some bytes are taken, k + 1 when there are as many, or
none, or it fails. -/
inductive Sendto
  | bytes (k : ℕ)
  | nothing
  | error (e : ℕ)

/-- A loop of nrf_sendto until all is sent: the result, what was sent, and the answers
that are left. When there are none, the socket takes the rest. -/
def sendAll : List Sendto → List Byte → ℤ × List Byte × List Sendto
  | answers, [] => (0, [], answers)
  | [], data => (0, data, [])
  | .bytes k :: answers, data =>
    let later := sendAll answers (data.drop (k + 1))
    (later.1, data.take (k + 1) ++ later.2.1, later.2.2)
  | .nothing :: answers, data => sendAll answers data
  | .error e :: answers, _ => (-(e + 1 : ℕ), [], answers)

/-- mqtt_client_tls_write, and mqtt_client_tcp_write -/
def mqttClientTlsWrite (answers : List Sendto) (data : List Byte) : ℤ × List Byte :=
  let r := sendAll answers data
  (r.1, r.2.1)

/-- One loop for each part of a message. -/
def sendEach : List Sendto → List (List Byte) → ℤ × List Byte
  | _, [] => (0, [])
  | answers, part :: parts =>
    let r := sendAll answers part
    if r.1 < 0 then (r.1, r.2.1)
    else
      let later := sendEach r.2.2 parts
      (later.1, r.2.1 ++ later.2)

/-- A message of at most 128 bytes is copied into one buffer. -/
def nrf91SocketOffloadSendmsg (answers : List Sendto) (parts : List (List Byte)) :
    ℤ × List Byte :=
  if parts.flatten.length ≤ 128 then
    let r := sendAll answers parts.flatten
    (r.1, r.2.1)
  else sendEach answers parts

/-- mqtt_client_tls_write_msg, and mqtt_client_tcp_write_msg -/
def mqttClientTlsWriteMsg (answers : List Sendto) (parts : List (List Byte)) : ℤ × List Byte :=
  nrf91SocketOffloadSendmsg answers parts

/-- All was written, or the write failed before the end. -/
structure Wrote (data : List Byte) (r : ℤ × List Byte) : Prop where
  sent : r.2 <+: data
  result : r.1 = 0 ∧ r.2 = data ∨ r.1 < 0 ∧ r.2.length < data.length

/-- What a connection carried before the broker took the client, and after. -/
structure Conn where
  request : List Byte
  session : List Byte
  accepted : Bool
  closed : Bool
  deriving DecidableEq

def Conn.fresh : Conn := ⟨[], [], false, false⟩

def Conn.put (bytes : List Byte) (k : Conn) : Conn :=
  if k.accepted then { k with session := k.session ++ bytes }
  else { k with request := k.request ++ bytes }

def Conn.close (k : Conn) : Conn := { k with closed := true }

structure State where
  /-- The fields that the application sets before it connects. -/
  settings : Client
  /-- MQTT_STATE_TCP_CONNECTED -/
  tcpConnected : Bool
  /-- MQTT_STATE_CONNECTED -/
  connected : Bool
  lastActivity : BitVec 32
  unackedPing : ℕ
  /-- The connections to the broker, the last one first. -/
  conns : List Conn

/-- The client after mqtt_client_init. -/
def State.initial (settings : Client) : State := ⟨settings, false, false, 0#32, 0, []⟩

def State.put (bytes : List Byte) (s : State) : State :=
  { s with conns := s.conns.modifyHead (Conn.put bytes) }

/-- last_activity is set to the time in milliseconds. -/
def State.touch (now : ℕ) (s : State) : State := { s with lastActivity := BitVec.ofNat 32 now }

/-- client_reset, with MQTT_STATE_INIT -/
def clientReset (s : State) : State :=
  { s with tcpConnected := false, connected := false, lastActivity := 0#32 }

/-- client_disconnect; the application gets an event of it. -/
def clientDisconnect (s : State) : State :=
  clientReset { s with conns := s.conns.modifyHead Conn.close }

/-- What follows a write of the transport. -/
def afterWrite (now : ℕ) (r : ℤ × List Byte) (s : State) : ℤ × State :=
  if r.1 < 0 then (r.1, clientDisconnect (s.put r.2)) else (0, (s.put r.2).touch now)

def clientWrite (now : ℕ) (answers : List Sendto) (data : List Byte) (s : State) : ℤ × State :=
  afterWrite now (mqttClientTlsWrite answers data) s

def int8Max : ℕ := 127

/-- mqtt_elapsed_time_in_ms_get -/
def mqttElapsedTime (now : ℕ) (lastActivity : BitVec 32) : ℕ :=
  (BitVec.ofNat 32 now - lastActivity).toInt.toNat

/-- mqtt_keepalive_time_left; without keepalive there is no limit. -/
def mqttKeepaliveTimeLeft (now : ℕ) (s : State) : ℤ :=
  let elapsed := mqttElapsedTime now s.lastActivity
  let keepaliveMs := 1000 * s.settings.keepalive.toNat
  if s.settings.keepalive = 0#16 then -1
  else if keepaliveMs ≤ elapsed then 0
  else (keepaliveMs : ℤ) - elapsed

section

variable (txBufSize : ℕ)

/-- The common form of the calls: the state is checked, the packet encoded and written. -/
def writePacket (now : ℕ) (answers : List Sendto) (encode : Encoder) (s : State) : ℤ × State :=
  if !s.connected then (enotconn, s)
  else match written encode txBufSize with
    | .error e => (e, s)
    | .ok packet => clientWrite now answers packet s

/-- The payload is sent from where the caller has it. -/
def mqttPublish (now : ℕ) (answers : List Sendto) (p : PublishParam) (payload : List Byte)
    (s : State) : ℤ × State :=
  if !s.connected then (enotconn, s)
  else match written (publishEncode { p with payloadLen := payload.length }) txBufSize with
    | .error e => (e, s)
    | .ok packet => afterWrite now (mqttClientTlsWriteMsg answers [packet, payload]) s

def mqttPublishQos1Ack (now : ℕ) (answers : List Sendto) (messageId : BitVec 16) (s : State) :
    ℤ × State :=
  writePacket txBufSize now answers (publishAckEncode messageId) s

def mqttPublishQos2Release (now : ℕ) (answers : List Sendto) (messageId : BitVec 16) (s : State) :
    ℤ × State :=
  writePacket txBufSize now answers (publishReleaseEncode messageId) s

def mqttSubscribe (now : ℕ) (answers : List Sendto) (messageId : BitVec 16) (list : List Topic)
    (s : State) : ℤ × State :=
  writePacket txBufSize now answers (subscribeEncode messageId list) s

/-- A ping that was tried is counted, also when it was not sent. -/
def mqttPing (now : ℕ) (answers : List Sendto) (s : State) : ℤ × State :=
  if !s.connected then (enotconn, s)
  else match written pingRequestEncode txBufSize with
    | .error e => (e, s)
    | .ok packet =>
      let r := clientWrite now answers packet s
      if int8Max ≤ r.2.unackedPing then r
      else (r.1, { r.2 with unackedPing := r.2.unackedPing + 1 })

def mqttDisconnect (now : ℕ) (answers : List Sendto) (s : State) : ℤ × State :=
  let r := writePacket txBufSize now answers disconnectEncode s
  if r.1 < 0 then r else (r.1, clientDisconnect r.2)

def mqttLive (now : ℕ) (answers : List Sendto) (s : State) : ℤ × State :=
  if 0#16 < s.settings.keepalive ∧
      s.settings.keepalive.toNat * 1000 ≤ mqttElapsedTime now s.lastActivity then
    mqttPing txBufSize now answers s
  else (eagain, s)

/-- `unreachable` is the error of mqtt_transport_connect, when it fails. -/
def mqttConnect (now : ℕ) (unreachable : Option ℕ) (answers : List Sendto) (settings : Client)
    (s : State) : ℤ × State :=
  let s := { s with settings := settings }
  match unreachable with
  | some e => (-(e + 1 : ℕ), clientReset s)
  | none =>
    let s := { s with tcpConnected := true, conns := Conn.fresh :: s.conns }
    match written (connectRequestEncode settings) txBufSize with
    | .error e => (e, clientDisconnect s)
    | .ok packet =>
      let r := mqttClientTlsWrite answers packet
      if r.1 < 0 then (r.1, clientDisconnect (s.put r.2))
      else (0, { (s.put r.2).touch now with unackedPing := 0 })

end

/-! Runs of calls, and of what the broker sends. -/

inductive Action
  | connect (unreachable : Option ℕ) (answers : List Sendto) (settings : Client)
  | publish (answers : List Sendto) (p : PublishParam) (payload : List Byte)
  | puback (answers : List Sendto) (messageId : BitVec 16)
  | pubrel (answers : List Sendto) (messageId : BitVec 16)
  | subscribe (answers : List Sendto) (messageId : BitVec 16) (list : List Topic)
  | ping (answers : List Sendto)
  | live (answers : List Sendto)
  | disconnect (answers : List Sendto)
  /-- mqtt_input reads a CONNACK that takes the client. -/
  | connack
  /-- mqtt_input reads a PINGRESP. -/
  | pingresp
  /-- mqtt_input or a read of a payload fails. -/
  | lost

def Conn.accept (k : Conn) : Conn := { k with accepted := true }

def step (txBufSize : ℕ) (now : ℕ) (s : State) : Action → State
  | .connect unreachable answers settings =>
    (mqttConnect txBufSize now unreachable answers settings s).2
  | .publish answers p payload => (mqttPublish txBufSize now answers p payload s).2
  | .puback answers messageId => (mqttPublishQos1Ack txBufSize now answers messageId s).2
  | .pubrel answers messageId => (mqttPublishQos2Release txBufSize now answers messageId s).2
  | .subscribe answers messageId list => (mqttSubscribe txBufSize now answers messageId list s).2
  | .ping answers => (mqttPing txBufSize now answers s).2
  | .live answers => (mqttLive txBufSize now answers s).2
  | .disconnect answers => (mqttDisconnect txBufSize now answers s).2
  | .connack =>
    if s.tcpConnected then { s with connected := true, conns := s.conns.modifyHead Conn.accept }
    else s
  | .pingresp => if s.tcpConnected then { s with unackedPing := s.unackedPing - 1 } else s
  | .lost => if s.tcpConnected then clientDisconnect s else s

/-- Actions with the times at which they are done. -/
def run (txBufSize : ℕ) (actions : List (ℕ × Action)) (s : State) : State :=
  actions.foldl (fun s a => step txBufSize a.1 s a.2) s

theorem sendAll_wrote (answers : List Sendto) (data : List Byte) :
    Wrote data ((sendAll answers data).1, (sendAll answers data).2.1) := by
  induction answers generalizing data with
  | nil =>
    cases data with
    | nil => exact ⟨List.prefix_rfl, Or.inl ⟨rfl, rfl⟩⟩
    | cons b data => exact ⟨List.prefix_rfl, Or.inl ⟨rfl, rfl⟩⟩
  | cons answer answers ih =>
    cases data with
    | nil => exact ⟨List.prefix_rfl, Or.inl ⟨rfl, rfl⟩⟩
    | cons b data =>
      cases answer with
      | nothing => exact ih (b :: data)
      | error e => exact ⟨List.nil_prefix, Or.inr ⟨by simp only [sendAll]; omega, Nat.succ_pos _⟩⟩
      | bytes k =>
        obtain ⟨hsent, hresult⟩ := ih ((b :: data).drop (k + 1))
        have hwhole := List.take_append_drop (k + 1) (b :: data)
        constructor
        · simp only [sendAll]
          conv_rhs => rw [← hwhole]
          exact (List.prefix_append_right_inj _).mpr hsent
        · simp only [sendAll]
          rcases hresult with ⟨hzero, hall⟩ | ⟨hneg, hless⟩
          · simp only at hall
            refine Or.inl ⟨hzero, ?_⟩
            rw [hall, hwhole]
          · refine Or.inr ⟨hneg, ?_⟩
            have hlen := congrArg List.length hwhole
            rw [List.length_append] at hlen
            simp only [List.length_append] at hless ⊢
            omega

theorem sendEach_wrote (answers : List Sendto) (parts : List (List Byte)) :
    Wrote parts.flatten (sendEach answers parts) := by
  induction parts generalizing answers with
  | nil => exact ⟨List.prefix_rfl, Or.inl ⟨rfl, rfl⟩⟩
  | cons part parts ih =>
    obtain ⟨hsent, hresult⟩ := sendAll_wrote answers part
    obtain ⟨hsent', hresult'⟩ := ih (sendAll answers part).2.2
    rw [List.flatten_cons]
    simp only [sendEach]
    rcases hresult with ⟨hzero, hall⟩ | ⟨hneg, hless⟩
    · simp only at hzero hall
      rw [if_neg (by rw [hzero]; decide), hall]
      refine ⟨(List.prefix_append_right_inj _).mpr hsent', ?_⟩
      rcases hresult' with ⟨hzero', hall'⟩ | ⟨hneg', hless'⟩
      · exact Or.inl ⟨hzero', by rw [hall']⟩
      · refine Or.inr ⟨hneg', ?_⟩
        rw [List.length_append, List.length_append]
        omega
    · simp only at hneg hless hsent
      rw [if_pos hneg]
      refine ⟨hsent.trans (List.prefix_append _ _), Or.inr ⟨hneg, ?_⟩⟩
      rw [List.length_append]
      simp only
      omega

theorem tlsWrite_wrote (answers : List Sendto) (data : List Byte) :
    Wrote data (mqttClientTlsWrite answers data) := sendAll_wrote answers data

theorem tlsWriteMsg_wrote (answers : List Sendto) (parts : List (List Byte)) :
    Wrote parts.flatten (mqttClientTlsWriteMsg answers parts) := by
  unfold mqttClientTlsWriteMsg nrf91SocketOffloadSendmsg
  split
  · exact sendAll_wrote answers parts.flatten
  · exact sendEach_wrote answers parts

/-- A packet of a session, and not its end. -/
structure Ordinary (txBufSize : ℕ) (c : Call) : Prop where
  fits : c.fits txBufSize = true
  valid : c.Valid
  connect : ∀ settings, c ≠ .connect settings
  disconnect : c ≠ .disconnect

/-- The CONNECT of a client with such settings is made and fits. -/
def Requests (txBufSize : ℕ) (settings : Client) (request : List Byte) : Prop :=
  (Call.connect settings).fits txBufSize = true ∧ (Call.connect settings).Valid ∧
    request = (Call.connect settings).bytes

/-- What a connection may carry. -/
inductive Conforms (txBufSize : ℕ) : Conn → Prop
  /-- A CONNECT, and no answer yet. -/
  | waiting (settings : Client) (request : List Byte) (h : Requests txBufSize settings request) :
      Conforms _ ⟨request, [], false, false⟩
  /-- A session under way. -/
  | talking (settings : Client) (request : List Byte) (h : Requests txBufSize settings request)
      (calls : List Call) (hcalls : ∀ c ∈ calls, Ordinary txBufSize c) :
      Conforms _ ⟨request, calls.flatMap Call.bytes, true, false⟩
  /-- A part of a CONNECT at most, and no session. -/
  | failed (settings : Client) (request : List Byte)
      (h : request <+: (Call.connect settings).bytes) : Conforms _ ⟨request, [], false, true⟩
  /-- A session, up to a DISCONNECT or anywhere in a packet. -/
  | ended (settings : Client) (request : List Byte) (h : Requests txBufSize settings request)
      (calls : List Call) (hcalls : ∀ c ∈ calls, Ordinary txBufSize c) (last : Call)
      (hlast : Ordinary txBufSize last ∨ last = .disconnect) (part : List Byte)
      (hpart : part <+: last.bytes) :
      Conforms _ ⟨request, calls.flatMap Call.bytes ++ part, true, true⟩

def Past (txBufSize : ℕ) (conns : List Conn) : Prop :=
  ∀ k ∈ conns, Conforms txBufSize k ∧ k.closed = true

/-- Where a client is with its last connection. -/
inductive Phase (txBufSize : ℕ) (s : State) : Prop
  | idle (down : s.tcpConnected = false) (out : s.connected = false) (past : Past txBufSize s.conns)
  | waiting (request : List Byte) (rest : List Conn)
      (conns : s.conns = ⟨request, [], false, false⟩ :: rest) (settings : Client)
      (requests : Requests txBufSize settings request) (up : s.tcpConnected = true)
      (out : s.connected = false) (past : Past txBufSize rest)
  | talking (request : List Byte) (calls : List Call) (rest : List Conn)
      (conns : s.conns = ⟨request, calls.flatMap Call.bytes, true, false⟩ :: rest)
      (settings : Client) (requests : Requests txBufSize settings request)
      (ordinary : ∀ c ∈ calls, Ordinary txBufSize c) (up : s.tcpConnected = true)
      (taken : s.connected = true) (past : Past txBufSize rest)

theorem Phase.conforms {txBufSize : ℕ} {s : State} (h : Phase txBufSize s) :
    ∀ k ∈ s.conns, Conforms txBufSize k := by
  intro k hk
  cases h with
  | idle _ _ past => exact (past k hk).1
  | waiting request rest conns settings requests _ _ past =>
    rw [conns, List.mem_cons] at hk
    rcases hk with rfl | hk
    · exact .waiting settings request requests
    · exact (past k hk).1
  | talking request calls rest conns settings requests ordinary _ _ past =>
    rw [conns, List.mem_cons] at hk
    rcases hk with rfl | hk
    · exact .talking settings request requests calls ordinary
    · exact (past k hk).1

/-- A client that is disconnected is idle. -/
theorem phase_disconnect {txBufSize : ℕ} {s : State} (h : Phase txBufSize s) :
    Phase txBufSize (clientDisconnect s) := by
  refine .idle rfl rfl ?_
  intro k hk
  simp only [clientDisconnect, clientReset] at hk
  cases h with
  | idle _ _ past =>
    cases hconns : s.conns with
    | nil =>
      rw [hconns] at hk
      cases hk
    | cons k' rest =>
      rw [hconns, List.modifyHead_cons, List.mem_cons] at hk
      rw [hconns] at past
      rcases hk with rfl | hk
      · have hold := past k' List.mem_cons_self
        have hsame : k'.close = k' := by
          rw [Conn.close, ← hold.2]
        rw [hsame]
        exact hold
      · exact past k (List.mem_cons_of_mem k' hk)
  | waiting request rest conns settings requests _ _ past =>
    rw [conns, List.modifyHead_cons, List.mem_cons] at hk
    rcases hk with rfl | hk
    · refine ⟨.failed settings request ⟨[], ?_⟩, rfl⟩
      rw [List.append_nil, requests.2.2]
    · exact past k hk
  | talking request calls rest conns settings requests ordinary _ _ past =>
    rw [conns, List.modifyHead_cons, List.mem_cons] at hk
    rcases hk with rfl | hk
    · have hended := Conforms.ended settings request requests calls ordinary .disconnect
        (Or.inr rfl) [] List.nil_prefix
      rw [List.append_nil] at hended
      exact ⟨hended, rfl⟩
    · exact past k hk

theorem put_conns (bytes : List Byte) {s : State} {request session : List Byte} {rest : List Conn}
    (h : s.conns = ⟨request, session, true, false⟩ :: rest) :
    (s.put bytes).conns = ⟨request, session ++ bytes, true, false⟩ :: rest := by
  simp [State.put, h, Conn.put]

/-- A session that is cut off, after a whole packet or in one. -/
theorem phase_cut {txBufSize : ℕ} {s : State} {request part : List Byte} {calls : List Call}
    {rest : List Conn} {settings : Client} {c : Call} (down : s.tcpConnected = false)
    (out : s.connected = false)
    (conns : s.conns = ⟨request, calls.flatMap Call.bytes ++ part, true, true⟩ :: rest)
    (requests : Requests txBufSize settings request) (ordinary : ∀ c ∈ calls, Ordinary txBufSize c)
    (past : Past txBufSize rest) (hc : Ordinary txBufSize c ∨ c = .disconnect)
    (hpart : part <+: c.bytes) : Phase txBufSize s := by
  refine .idle down out ?_
  intro k hk
  rw [conns, List.mem_cons] at hk
  rcases hk with rfl | hk
  · exact ⟨.ended settings request requests calls ordinary c hc part hpart, rfl⟩
  · exact past k hk

/-- A packet is written, or the session ends in it. -/
theorem phase_write {txBufSize : ℕ} {s : State} (now : ℕ) {request : List Byte} {calls : List Call}
    {rest : List Conn} {settings : Client} {c : Call} {r : ℤ × List Byte}
    (conns : s.conns = ⟨request, calls.flatMap Call.bytes, true, false⟩ :: rest)
    (requests : Requests txBufSize settings request) (ordinary : ∀ c ∈ calls, Ordinary txBufSize c)
    (up : s.tcpConnected = true) (taken : s.connected = true) (past : Past txBufSize rest)
    (hc : Ordinary txBufSize c) (hwrote : Wrote c.bytes r) :
    Phase txBufSize (afterWrite now r s).2 := by
  have hput := put_conns r.2 conns
  unfold afterWrite
  rcases hwrote.result with ⟨hzero, hall⟩ | ⟨hneg, -⟩
  · rw [if_neg (by rw [hzero]; decide)]
    refine .talking request (calls ++ [c]) rest ?_ settings requests ?_ up taken past
    · simp only [State.touch, hput]
      rw [List.flatMap_append, List.flatMap_singleton, hall]
    · intro c' hc'
      rw [List.mem_append, List.mem_singleton] at hc'
      rcases hc' with hc' | rfl
      · exact ordinary c' hc'
      · exact hc
  · rw [if_pos hneg]
    refine phase_cut (c := c) rfl rfl ?_ requests ordinary past (Or.inl hc) hwrote.sent
    simp only [clientDisconnect, clientReset, hput, List.modifyHead_cons, Conn.close]

/-- A packet that was encoded is the call's, and fits. -/
theorem sent_of_written {txBufSize : ℕ} (hsize : fixedHeaderMaxSize ≤ txBufSize)
    (hlt : txBufSize ≤ 2 ^ 16) {c : Call} (hvalid : c.Valid) {packet : List Byte}
    (h : written c.encode txBufSize = .ok packet) :
    packet ++ c.payload = c.bytes ∧ c.fits txBufSize = true := by
  have hsent : c.sent txBufSize = .ok (packet ++ c.payload) := by
    rw [Call.sent, h]
    rfl
  have hok : (c.sent txBufSize).isOk = true := by
    rw [hsent]
    rfl
  have hread := (reads_sent hsize hlt hvalid hok).1
  rw [hsent] at hread
  exact ⟨Except.ok.inj hread, by rw [← isOk_sent hsize (by omega) hvalid.length, hok]⟩

/-- The calls that write a packet of their own. -/
theorem phase_packet {txBufSize : ℕ} (hsize : fixedHeaderMaxSize ≤ txBufSize)
    (hlt : txBufSize ≤ 2 ^ 16) {s : State} (h : Phase txBufSize s) (now : ℕ)
    (answers : List Sendto) {c : Call} (hvalid : c.Valid)
    (hconnect : ∀ settings, c ≠ .connect settings) (hdisconnect : c ≠ .disconnect) (hpayload : c.payload = []) :
    Phase txBufSize (writePacket txBufSize now answers c.encode s).2 := by
  unfold writePacket
  cases h with
  | idle down out past =>
    rw [out]
    exact .idle down out past
  | waiting request rest conns settings requests up out past =>
    rw [out]
    exact .waiting request rest conns settings requests up out past
  | talking request calls rest conns settings requests ordinary up taken past =>
    rw [taken]
    simp only [Bool.not_true, Bool.false_eq_true, if_false]
    cases hwritten : written c.encode txBufSize with
    | error e => exact .talking request calls rest conns settings requests ordinary up taken past
    | ok packet =>
      obtain ⟨hbytes, hfits⟩ := sent_of_written hsize hlt hvalid hwritten
      rw [hpayload, List.append_nil] at hbytes
      have hwrote := tlsWrite_wrote answers packet
      rw [hbytes] at hwrote
      simp only [clientWrite, hbytes]
      exact phase_write now conns requests ordinary up taken past
        ⟨hfits, hvalid, hconnect, hdisconnect⟩ hwrote

theorem phase_publish {txBufSize : ℕ} (hsize : fixedHeaderMaxSize ≤ txBufSize)
    (hlt : txBufSize ≤ 2 ^ 16) {s : State} (h : Phase txBufSize s) (now : ℕ)
    (answers : List Sendto) (p : PublishParam) (payload : List Byte)
    (hvalid : (Call.publish p payload).Valid) :
    Phase txBufSize (mqttPublish txBufSize now answers p payload s).2 := by
  unfold mqttPublish
  cases h with
  | idle down out past =>
    rw [out]
    exact .idle down out past
  | waiting request rest conns settings requests up out past =>
    rw [out]
    exact .waiting request rest conns settings requests up out past
  | talking request calls rest conns settings requests ordinary up taken past =>
    rw [taken]
    simp only [Bool.not_true, Bool.false_eq_true, if_false]
    cases hwritten : written (publishEncode { p with payloadLen := payload.length }) txBufSize with
    | error e => exact .talking request calls rest conns settings requests ordinary up taken past
    | ok packet =>
      obtain ⟨hbytes, hfits⟩ := sent_of_written hsize hlt (c := .publish p payload) hvalid hwritten
      have hwrote := tlsWriteMsg_wrote answers [packet, payload]
      have hflatten : [packet, payload].flatten = (Call.publish p payload).bytes := by
        rw [← hbytes]
        simp [Call.payload]
      rw [hflatten] at hwrote
      exact phase_write now conns requests ordinary up taken past
        ⟨hfits, hvalid, by rintro settings ⟨⟩, by rintro ⟨⟩⟩ hwrote

/-- A change of the count of pings is no matter here. -/
theorem phase_pings {txBufSize : ℕ} {s : State} (h : Phase txBufSize s) (n : ℕ) :
    Phase txBufSize { s with unackedPing := n } := by
  cases h with
  | idle down out past => exact .idle down out past
  | waiting request rest conns settings requests up out past =>
    exact .waiting request rest conns settings requests up out past
  | talking request calls rest conns settings requests ordinary up taken past =>
    exact .talking request calls rest conns settings requests ordinary up taken past

theorem phase_ping {txBufSize : ℕ} (hsize : fixedHeaderMaxSize ≤ txBufSize)
    (hlt : txBufSize ≤ 2 ^ 16) {s : State} (h : Phase txBufSize s) (now : ℕ)
    (answers : List Sendto) : Phase txBufSize (mqttPing txBufSize now answers s).2 := by
  have hvalid : Call.ping.Valid := ⟨by decide, trivial⟩
  have hpacket :=
    phase_packet hsize hlt h now answers hvalid (by rintro settings ⟨⟩) (by rintro ⟨⟩) rfl
  unfold writePacket at hpacket
  unfold mqttPing
  by_cases hconnected : s.connected = true
  · rw [hconnected] at hpacket ⊢
    simp only [Bool.not_true, Bool.false_eq_true, if_false, Call.encode] at hpacket ⊢
    cases hwritten : written pingRequestEncode txBufSize with
    | error e => exact h
    | ok packet =>
      rw [hwritten] at hpacket
      simp only at hpacket ⊢
      split
      · exact hpacket
      · exact phase_pings hpacket _
  · rw [eq_false_of_ne_true hconnected]
    exact h

theorem phase_mqttDisconnect {txBufSize : ℕ} (hsize : fixedHeaderMaxSize ≤ txBufSize)
    (hlt : txBufSize ≤ 2 ^ 16) {s : State} (h : Phase txBufSize s) (now : ℕ)
    (answers : List Sendto) : Phase txBufSize (mqttDisconnect txBufSize now answers s).2 := by
  have hvalid : Call.disconnect.Valid := ⟨by decide, trivial⟩
  unfold mqttDisconnect writePacket
  cases h with
  | idle down out past =>
    rw [out]
    exact .idle down out past
  | waiting request rest conns settings requests up out past =>
    rw [out]
    exact .waiting request rest conns settings requests up out past
  | talking request calls rest conns settings requests ordinary up taken past =>
    rw [taken]
    simp only [Bool.not_true, Bool.false_eq_true, if_false]
    cases hwritten : written disconnectEncode txBufSize with
    | error e =>
      have hphase := Phase.talking request calls rest conns settings requests ordinary up taken past
      simp only
      split
      · exact hphase
      · exact phase_disconnect hphase
    | ok packet =>
      obtain ⟨hbytes, -⟩ := sent_of_written hsize hlt (c := .disconnect) hvalid hwritten
      have hwrote := tlsWrite_wrote answers packet
      rw [Call.payload, List.append_nil] at hbytes
      rw [hbytes] at hwrote
      have hput := put_conns (mqttClientTlsWrite answers packet).2 conns
      rw [hbytes] at hput
      simp only [clientWrite, afterWrite, hbytes]
      rcases hwrote.result with ⟨hzero, hall⟩ | ⟨hneg, -⟩
      · simp only [hzero, Int.lt_irrefl, if_false]
        refine phase_cut (c := .disconnect) rfl rfl ?_ requests ordinary past (Or.inr rfl)
          hwrote.sent
        simp only [clientDisconnect, clientReset, State.touch, hput, List.modifyHead_cons,
          Conn.close]
      · simp only [if_pos hneg]
        refine phase_cut (c := .disconnect) rfl rfl ?_ requests ordinary past (Or.inr rfl)
          hwrote.sent
        simp only [clientDisconnect, clientReset, hput, List.modifyHead_cons, Conn.close]

theorem phase_connect {txBufSize : ℕ} (hsize : fixedHeaderMaxSize ≤ txBufSize)
    (hlt : txBufSize ≤ 2 ^ 16) {s : State} (h : Phase txBufSize s) (hdown : s.tcpConnected = false)
    (now : ℕ) (unreachable : Option ℕ) (answers : List Sendto) {settings : Client}
    (hvalid : (Call.connect settings).Valid) :
    Phase txBufSize (mqttConnect txBufSize now unreachable answers settings s).2 := by
  have hidle : s.connected = false ∧ Past txBufSize s.conns := by
    cases h with
    | idle _ out past => exact ⟨out, past⟩
    | waiting _ _ _ _ _ up =>
      rw [hdown] at up
      cases up
    | talking _ _ _ _ _ _ _ up =>
      rw [hdown] at up
      cases up
  obtain ⟨hout, hpast⟩ := hidle
  have hfailed : ∀ {request : List Byte} {s' : State}, s'.tcpConnected = false →
      s'.connected = false → s'.conns = ⟨request, [], false, true⟩ :: s.conns →
      request <+: (Call.connect settings).bytes → Phase txBufSize s' := by
    intro request s' hdown' hout' hconns hrequest
    refine .idle hdown' hout' ?_
    intro k hk
    rw [hconns, List.mem_cons] at hk
    rcases hk with rfl | hk
    · exact ⟨.failed settings request hrequest, rfl⟩
    · exact hpast k hk
  unfold mqttConnect
  cases unreachable with
  | some e => exact .idle rfl rfl hpast
  | none =>
    simp only
    cases hwritten : written (connectRequestEncode settings) txBufSize with
    | error e => exact hfailed rfl rfl rfl List.nil_prefix
    | ok packet =>
      obtain ⟨hbytes, hfits⟩ := sent_of_written hsize hlt (c := .connect settings) hvalid hwritten
      have hwrote := tlsWrite_wrote answers packet
      rw [Call.payload, List.append_nil] at hbytes
      rw [hbytes] at hwrote
      simp only [hbytes]
      rcases hwrote.result with ⟨hzero, hall⟩ | ⟨hneg, -⟩
      · rw [if_neg (by rw [hzero]; decide)]
        refine .waiting (mqttClientTlsWrite answers (Call.connect settings).bytes).2 s.conns rfl
          settings ⟨hfits, hvalid, hall⟩ rfl hout hpast
      · rw [if_pos hneg]
        exact hfailed rfl rfl rfl hwrote.sent

theorem phase_connack {txBufSize : ℕ} {s : State} (h : Phase txBufSize s) (now : ℕ) :
    Phase txBufSize (step txBufSize now s .connack) := by
  simp only [step]
  cases h with
  | idle down out past =>
    rw [down]
    exact .idle down out past
  | waiting request rest conns settings requests up out past =>
    rw [if_pos up]
    refine .talking request [] rest ?_ settings requests (by rintro c ⟨⟩) up rfl past
    simp [conns, Conn.accept]
  | talking request calls rest conns settings requests ordinary up taken past =>
    rw [if_pos up]
    refine .talking request calls rest ?_ settings requests ordinary up rfl past
    simp [conns, Conn.accept]

/-- What an application keeps to: it connects when it is not connected, and the fields of
its packets are in their ranges. -/
def Permitted (s : State) : Action → Prop
  | .connect _ _ settings => s.tcpConnected = false ∧ (Call.connect settings).Valid
  | .publish _ p payload => (Call.publish p payload).Valid
  | .subscribe _ messageId list => (Call.subscribe messageId list).Valid
  | _ => True

theorem phase_step {txBufSize : ℕ} (hsize : fixedHeaderMaxSize ≤ txBufSize)
    (hlt : txBufSize ≤ 2 ^ 16) {s : State} (h : Phase txBufSize s) (now : ℕ) {a : Action}
    (ha : Permitted s a) : Phase txBufSize (step txBufSize now s a) := by
  cases a with
  | connect unreachable answers settings =>
    exact phase_connect hsize hlt h ha.1 now unreachable answers ha.2
  | publish answers p payload => exact phase_publish hsize hlt h now answers p payload ha
  | puback answers messageId =>
    exact phase_packet hsize hlt h now answers (c := .puback messageId)
      ⟨by simp [Call.length, Call.body, Call.payload], trivial⟩ (by rintro settings ⟨⟩)
      (by rintro ⟨⟩) rfl
  | pubrel answers messageId =>
    exact phase_packet hsize hlt h now answers (c := .pubrel messageId)
      ⟨by simp [Call.length, Call.body, Call.payload], trivial⟩ (by rintro settings ⟨⟩)
      (by rintro ⟨⟩) rfl
  | subscribe answers messageId list =>
    exact phase_packet hsize hlt h now answers ha (by rintro settings ⟨⟩) (by rintro ⟨⟩) rfl
  | ping answers => exact phase_ping hsize hlt h now answers
  | live answers =>
    simp only [step, mqttLive]
    split
    · exact phase_ping hsize hlt h now answers
    · exact h
  | disconnect answers => exact phase_mqttDisconnect hsize hlt h now answers
  | connack => exact phase_connack h now
  | pingresp =>
    simp only [step]
    split
    · exact phase_pings h _
    · exact h
  | lost =>
    simp only [step]
    split
    · exact phase_disconnect h
    · exact h

/-- Every action of a run is permitted where it is done. -/
def Disciplined (txBufSize : ℕ) : List (ℕ × Action) → State → Prop
  | [], _ => True
  | a :: actions, s => Permitted s a.2 ∧ Disciplined txBufSize actions (step txBufSize a.1 s a.2)

theorem phase_run {txBufSize : ℕ} (hsize : fixedHeaderMaxSize ≤ txBufSize)
    (hlt : txBufSize ≤ 2 ^ 16) (actions : List (ℕ × Action)) {s : State} (h : Phase txBufSize s)
    (hactions : Disciplined txBufSize actions s) : Phase txBufSize (run txBufSize actions s) := by
  induction actions generalizing s with
  | nil => exact h
  | cons a actions ih => exact ih (phase_step hsize hlt h a.1 hactions.1) hactions.2

theorem phase_initial (txBufSize : ℕ) (settings : Client) :
    Phase txBufSize (.initial settings) :=
  .idle rfl rfl (by rintro k ⟨⟩)

theorem Phase.tail_closed {txBufSize : ℕ} {s : State} (h : Phase txBufSize s) :
    ∀ k ∈ s.conns.tail, k.closed = true := by
  intro k hk
  cases h with
  | idle _ _ past => exact (past k (List.mem_of_mem_tail hk)).2
  | waiting request rest conns settings requests _ _ past =>
    rw [conns] at hk
    exact (past k hk).2
  | talking request calls rest conns settings requests ordinary _ _ past =>
    rw [conns] at hk
    exact (past k hk).2

/-- The broker of a connection that is open has read a CONNECT and then whole packets. -/
theorem Conforms.read {txBufSize : ℕ} (hsize : fixedHeaderMaxSize ≤ txBufSize)
    (hlt : txBufSize ≤ 2 ^ 16) {k : Conn} (h : Conforms txBufSize k) (hopen : k.closed = false) :
    ∃ settings calls, (∀ c ∈ calls, Ordinary txBufSize c) ∧ (k.accepted = false → calls = []) ∧
      readStream (k.request ++ k.session) =
        some ((Call.connect settings).packet :: calls.map Call.packet) := by
  have hread : ∀ {settings : Client} {request : List Byte}, Requests txBufSize settings request →
      ∀ calls : List Call, (∀ c ∈ calls, Ordinary txBufSize c) →
      readStream (request ++ calls.flatMap Call.bytes) =
        some ((Call.connect settings).packet :: calls.map Call.packet) := by
    intro settings request hrequest calls hcalls
    rw [hrequest.2.2, ← List.flatMap_cons, ← List.map_cons]
    refine readStream_calls hsize hlt fun c hc => ?_
    rw [List.mem_cons] at hc
    rcases hc with rfl | hc
    · exact ⟨hrequest.1, hrequest.2.1⟩
    · exact ⟨(hcalls c hc).fits, (hcalls c hc).valid⟩
  cases h with
  | waiting settings request hrequest =>
    exact ⟨settings, [], by rintro c ⟨⟩, fun _ => rfl, hread hrequest [] (by rintro c ⟨⟩)⟩
  | talking settings request hrequest calls hcalls =>
    exact ⟨settings, calls, hcalls, by rintro ⟨⟩, hread hrequest calls hcalls⟩
  | failed => cases hopen
  | ended => cases hopen

/-- A session with one message. -/
def visit (settings : Client) : List (ℕ × Action) :=
  [(0, .connect none [] settings), (80, .connack),
    (90, .publish [.bytes 3] ⟨[97#8], 1#8, 0, 7#16, false, false⟩ [1#8, 2#8]), (95, .lost)]

end NcsProjects.MqttSessions
