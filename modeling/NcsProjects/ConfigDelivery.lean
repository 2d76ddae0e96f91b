import NcsProjects.PublishPayload

/-!
Delivery of a QoS 1 message to the configuration callback. The handler
acknowledges first, reads second and ignores how the read went; the callback
gets the message of the event, whose payload pointer the library leaves NULL.
So every message with a payload is acknowledged before a byte of it is read.
-/
namespace NcsProjects.ConfigDelivery

open PublishPayload

/-- The messages that the callback gets. -/
def told : List Happening → List PublishMessage
  | [] => []
  | .config message :: rest => message :: told rest
  | .ack _ :: rest | .read _ :: rest => told rest

/-- What the handler owes the broker and the application for one message, by what happens
in it up to its end or that of the thread. -/
structure AtLeastOnce (c : Conn) (p : Publish) (calls : List Happening) : Prop where
  /-- Each acknowledgement is asked for when the whole payload has been read. -/
  read_acked : ∀ before id after, calls = before ++ .ack id :: after → received before = p.payload
  /-- A payload that is read reaches the callback once, with its bytes. -/
  delivered_once : c.configHandler = true → 2 < p.payload.length → received calls = p.payload →
    told calls = [⟨p.qos, some p.payload, p.payload.length⟩]
  /-- A payload that is not read reaches no callback. -/
  no_stale : received calls ≠ p.payload → told calls = []

theorem told_reads (chunks : List (List Byte)) (rest : List Happening) :
    told (chunks.map .read ++ rest) = told rest := by
  induction chunks with
  | nil => rfl
  | cons bytes more ih => exact ih

variable {c : Conn} {p : Publish} {ackWrite : Bool} {recvs : List Recv}

/-- A message whose payload is read in full reaches the callback with a NULL pointer. -/
theorem told_null (hqos : p.qos = .atLeastOnce) (hlose : ¬ ackLoses c p ackWrite)
    (hn : 2 < p.payload.length) (hfit : p.payload.length ≤ payloadBufferSize)
    (hsup : p.payload.length ≤ supplied recvs) (hhandler : c.configHandler = true) :
    ∃ calls, (mqttEventHandlerPublish p.event ackWrite recvs (c.receive p)).2.log =
        c.log ++ calls ∧
      received calls = p.payload ∧ told calls = [⟨p.qos, none, p.payload.length⟩] := by
  obtain ⟨buffer, chunks, heq, hchunks⟩ := publish_of_complete recvs hlose hn hfit hsup
  refine ⟨.ack p.messageId :: (chunks.map .read ++ [.config p.event.message]), ?_, ?_, ?_⟩
  · rw [heq]
    simp only [notify_log, hhandler, if_true, logAfterAck, hqos, List.append_assoc,
      List.cons_append, List.nil_append, List.map_cons, List.map_nil]
  · rw [received, received_append, received_reads, hchunks]
    exact List.append_nil _
  · exact told_reads chunks _

/-- For a QoS 1 message of any length and any outcome of the acknowledgement and the
reads, the handler delivers at least once exactly when the payload is empty: the
acknowledgement comes before the first read. -/
theorem at_least_once_iff (c : Conn) (p : Publish) (ackWrite : Bool) (recvs : List Recv)
    (hqos : p.qos = .atLeastOnce) :
    ∃ calls, (mqttEventHandlerPublish p.event ackWrite recvs (c.receive p)).2.log =
        c.log ++ calls ∧
      (AtLeastOnce c p calls ↔ p.payload.length = 0) := by
  obtain ⟨chunks, messages, hlog, _, htiny⟩ :=
    @publish_log c p ackWrite recvs hqos
  refine ⟨_, hlog, fun h => ?_, fun hzero => ?_⟩
  · have hempty : [] = p.payload := h.read_acked [] p.messageId _ rfl
    rw [← hempty, List.length_nil]
  · have hnil := List.length_eq_zero_iff.mp hzero
    obtain ⟨rfl, rfl⟩ := htiny (by omega)
    refine ⟨?_, ?_, fun _ => rfl⟩
    · intro before id after hsplit
      cases before with
      | nil => exact hnil.symm
      | cons first more => simp at hsplit
    · intro _ hlong
      omega

/-- A configuration of three bytes on an accepted session. -/
def configMessage : Publish := ⟨.atLeastOnce, 7, [0x61, 0x62, 0x63], 0⟩

def session (configHandler : Bool) : Conn :=
  ⟨.connected, 0, [], true, configHandler, List.replicate payloadBufferSize 0, []⟩

theorem at_least_once_config_message :
    configMessage.qos = .atLeastOnce ∧
      ∃ calls, (mqttEventHandlerPublish configMessage.event true [.bytes 2]
          ((session false).receive configMessage)).2.log = (session false).log ++ calls ∧
        (AtLeastOnce (session false) configMessage calls ↔ configMessage.payload.length = 0) :=
  ⟨rfl, at_least_once_iff (session false) configMessage true [.bytes 2] rfl⟩

/-- All three bytes are read, but behind the acknowledgement, and the callback is given
none of them. -/
theorem config_not_delivered :
    ¬ ∀ (c : Conn) (p : Publish) (ackWrite : Bool) (recvs : List Recv), p.qos = .atLeastOnce →
      ∃ calls, (mqttEventHandlerPublish p.event ackWrite recvs (c.receive p)).2.log =
        c.log ++ calls ∧ AtLeastOnce c p calls := by
  intro hall
  obtain ⟨calls, hlog, h⟩ := hall (session true) configMessage true [.bytes 2] rfl
  have hcalls : calls = [.ack 7, .read [0x61, 0x62, 0x63], .config ⟨.atLeastOnce, none, 3⟩] :=
    hlog.symm
  have hempty := h.read_acked [] 7 _ hcalls
  cases hempty

end NcsProjects.ConfigDelivery
