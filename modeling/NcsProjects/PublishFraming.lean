import NcsProjects.PublishPayload

/-!
The mqtt thread over a sequence of packets. Every call of mqtt_input refuses to
go on while payload bytes of an earlier PUBLISH are unread, and the thread then
ends with the session still open. So the stream stays framed exactly as long as
the handler leaves no payload behind, and the handler leaves some behind for
lengths one and two and runs past its buffer for lengths above the buffer size.
-/
namespace NcsProjects.PublishFraming

open PublishPayload TransitionRuns

/-- Where mqtt_thread_func stands between two calls of the library. -/
inductive Pc
  | polling
  /-- The handler of a PUBLISH has returned, and mqtt_input ends with this result. -/
  | handled (result : ℤ)
  | ended
  | aborted
  | overrun
  | blocked
  deriving DecidableEq

structure State where
  pc : Pc
  conn : Conn

/-- A packet of the broker, the loss of the connection while one is read, the
return of mqtt_input after a PUBLISH, or the gcloud thread writing its flags and
closing the session between two packets. -/
inductive Input
  | publish (p : Publish) (ackWrite : Bool) (recvs : List Recv)
  | connack (accepted : Bool)
  | pubrec (id : BitVec 16) (write : Bool)
  | other
  | lost (e : ℕ)
  | leave
  | gcloud (live closes : Bool)

/-- The loop breaks when mqtt_input returns an error and polls again otherwise. -/
def settle : Flow × Conn → State
  | (.returned err, c) => ⟨if err = 0 then .polling else .ended, c⟩
  | (.aborted, c) => ⟨.aborted, c⟩
  | (.overrun, c) => ⟨.overrun, c⟩
  | (.blocked, c) => ⟨.blocked, c⟩

/-- mqtt_handle_rx on one packet, with the event handler it calls. -/
def handleRx (c : Conn) : Input → State
  | .publish p ackWrite recvs =>
    match mqttEventHandlerPublish p.event ackWrite recvs (c.receive p) with
    | (.returned _, c') => ⟨.handled p.result, c'⟩
    | stopped => settle stopped
  | .connack true => ⟨.polling, { c with state := .connected, live := true }⟩
  | .connack false => settle (clientDisconnect econnrefused c)
  | .pubrec id write =>
    match mqttPublishQos2Release write id c with
    | (.returned _, c') => ⟨.polling, c'⟩
    | stopped => settle stopped
  | .lost e => settle (clientDisconnect (-(e + 1 : ℕ)) c)
  | .other | .leave | .gcloud _ _ => ⟨.polling, c⟩

def step (s : State) (a : Input) : Option State :=
  match s.pc, a with
  | .handled result, .leave =>
    if result < 0 then some (settle (clientDisconnect result s.conn))
    else some ⟨.polling, s.conn⟩
  | .polling, .leave => none
  | .polling, .gcloud live closes =>
    if closes then some ⟨.polling, { s.conn with state := .closed, remaining := 0, live := live }⟩
    else some ⟨.polling, { s.conn with live := live }⟩
  | .polling, packet =>
    if s.conn.state = .closed then some ⟨.ended, s.conn⟩
    else if 0 < s.conn.remaining then some ⟨.ended, s.conn⟩
    else some (handleRx s.conn packet)
  | _, _ => none

/-- The mqtt thread starts on an open connection, with no payload outstanding. -/
def Conn.start (live configHandler : Bool) : Conn where
  state := .tcp
  remaining := 0
  unread := []
  live := live
  configHandler := configHandler
  buffer := List.replicate payloadBufferSize 0
  log := []

def machine (live configHandler : Bool) : Machine State Input :=
  ⟨⟨.polling, Conn.start live configHandler⟩, step⟩

/-- The handler has returned, at the end of mqtt_input or inside it. -/
def Pc.returned : Pc → Bool
  | .polling | .handled _ => true
  | _ => false

/-- The framing law in one state. -/
structure Framed (s : State) : Prop where
  consumed : s.pc.returned = true → s.conn.state ≠ .closed →
    s.conn.remaining = 0 ∧ s.conn.unread = []
  in_bounds : s.pc ≠ .overrun
  healthy : s.pc = .ended → s.conn.state = .closed

/-- The lengths and outcomes of a PUBLISH for which the handler keeps the law: it
is empty, or its acknowledgement loses the session, or it has at least three
bytes and the socket does not supply more than the buffer holds. -/
def KeepsFraming (s : State) : Input → Prop
  | .publish p ackWrite recvs =>
    s.conn.state = .closed ∨ p.payload.length = 0 ∨ ackLoses s.conn p ackWrite ∨
      (3 ≤ p.payload.length ∧
        (p.payload.length ≤ payloadBufferSize ∨ supplied recvs ≤ payloadBufferSize))
  | _ => True

theorem framed_start (live configHandler : Bool) : Framed (machine live configHandler).init :=
  ⟨fun _ _ => ⟨rfl, rfl⟩, (by rintro ⟨⟩), (by rintro ⟨⟩)⟩

theorem framed_of_closed {pc : Pc} {c : Conn} (hpc : pc ≠ .overrun) (hc : c.state = .closed) :
    Framed ⟨pc, c⟩ :=
  ⟨fun _ hopen => absurd hc hopen, hpc, fun _ => hc⟩

theorem framed_settle_clientDisconnect (err : ℤ) (c : Conn) :
    Framed (settle (clientDisconnect err c)) := by
  have hclosed := clientDisconnect_closed err c
  rcases clientDisconnect_flow err c with hflow | hflow
  · rw [← Prod.eta (clientDisconnect err c), hflow, hclosed]
    exact framed_of_closed (by decide) rfl
  · rw [← Prod.eta (clientDisconnect err c), hflow, hclosed]
    refine framed_of_closed ?_ rfl
    split <;> decide

/-- The release of a QoS 2 message leaves the payload alone or loses the session. -/
theorem framed_pubrec {c : Conn} (id : BitVec 16) (write : Bool) (hrem : c.remaining = 0)
    (hunread : c.unread = []) : Framed (handleRx c (.pubrec id write)) := by
  have hsame : Framed ⟨.polling, c⟩ :=
    ⟨fun _ _ => ⟨hrem, hunread⟩, (by rintro ⟨⟩), (by rintro ⟨⟩)⟩
  rcases writeAck_cases write id c with ⟨err, heq⟩ | heq
  · simpa only [handleRx, mqttPublishQos2Release, heq] using hsame
  · have hclosed := clientDisconnect_closed eio c
    rcases clientDisconnect_flow eio c with hflow | hflow
    all_goals
      simp only [handleRx, mqttPublishQos2Release, heq]
      rw [← Prod.eta (clientDisconnect eio c), hflow, hclosed]
      exact framed_of_closed (by decide) rfl

/-- A PUBLISH of the lengths and outcomes above keeps the law. -/
theorem framed_publish {c : Conn} (p : Publish) (ackWrite : Bool) (recvs : List Recv)
    (hkeep : p.payload.length = 0 ∨ ackLoses c p ackWrite ∨ (3 ≤ p.payload.length ∧
      (p.payload.length ≤ payloadBufferSize ∨ supplied recvs ≤ payloadBufferSize))) :
    Framed (handleRx c (.publish p ackWrite recvs)) := by
  by_cases hlose : ackLoses c p ackWrite
  · obtain ⟨flow, c', heq, hflow, hclosed, _⟩ := publish_of_ackLoses recvs hlose
    rcases hflow with rfl | rfl
    all_goals
      simp only [handleRx, heq]
      exact framed_of_closed (by simp) hclosed
  · rcases hkeep with hzero | hl | ⟨hthree, hbound⟩
    · have heq := publish_of_tiny recvs hlose (by omega)
      have hnil := List.length_eq_zero_iff.mp hzero
      simp only [handleRx, heq]
      exact ⟨fun _ _ => ⟨hzero, hnil⟩, by simp, (by rintro ⟨⟩)⟩
    · exact absurd hl hlose
    · by_cases hsup : p.payload.length ≤ supplied recvs
      · obtain ⟨buffer, chunks, heq, _⟩ :=
          publish_of_complete recvs hlose (by omega) (by omega) hsup
        simp only [handleRx, heq]
        exact ⟨fun _ _ => ⟨by simp, by simp⟩, by simp, (by rintro ⟨⟩)⟩
      · obtain ⟨flow, c', heq, hflow, hclosed, _⟩ :=
          publish_of_short recvs hlose (by omega) (by omega) (by omega)
        cases flow with
        | returned err =>
          simp only [handleRx, heq]
          exact framed_of_closed (by simp) (hclosed err rfl)
        | overrun => exact absurd rfl hflow
        | aborted | blocked =>
          simp only [handleRx, heq, settle]
          exact ⟨(by rintro ⟨⟩), by simp, (by rintro ⟨⟩)⟩

/-- Every other PUBLISH leaves payload in an open stream or runs past the buffer. -/
theorem not_framed_publish {c : Conn} (p : Publish) (ackWrite : Bool) (recvs : List Recv)
    (hopen : c.state ≠ .closed) (hne : p.payload.length ≠ 0) (hlose : ¬ ackLoses c p ackWrite)
    (hbad : ¬ (3 ≤ p.payload.length ∧
      (p.payload.length ≤ payloadBufferSize ∨ supplied recvs ≤ payloadBufferSize))) :
    ¬ Framed (handleRx c (.publish p ackWrite recvs)) := by
  intro hframed
  by_cases htiny : p.payload.length ≤ 2
  · have heq := publish_of_tiny recvs hlose htiny
    simp only [handleRx, heq] at hframed
    exact hne (hframed.consumed rfl hopen).1
  · obtain ⟨c', heq, _⟩ := publish_of_overrun recvs hlose (by omega) (by omega)
    simp only [handleRx, heq, settle] at hframed
    exact hframed.in_bounds rfl

/-- Between two calls the law says that no payload is outstanding on an open session. -/
theorem Framed.drained {c : Conn} (h : Framed ⟨.polling, c⟩) (hopen : c.state ≠ .closed) :
    c.remaining = 0 ∧ c.unread = [] := h.consumed rfl hopen

/-- On a closed session mqtt_input fails, and on an open one it handles the packet. -/
theorem step_packet {c : Conn} {a : Input} {s' : State} (h : Framed ⟨.polling, c⟩)
    (hleave : a ≠ .leave) (hgcloud : ∀ live closes, a ≠ .gcloud live closes)
    (hstep : step ⟨.polling, c⟩ a = some s') :
    (c.state = .closed ∧ s' = ⟨.ended, c⟩) ∨ (c.state ≠ .closed ∧ s' = handleRx c a) := by
  have hin : step ⟨.polling, c⟩ a =
      if c.state = .closed then some ⟨.ended, c⟩
      else if 0 < c.remaining then some ⟨.ended, c⟩
      else some (handleRx c a) := by
    cases a with
    | leave => exact absurd rfl hleave
    | gcloud live closes => exact absurd rfl (hgcloud live closes)
    | publish p ackWrite recvs | connack accepted | pubrec id write | other | lost e => rfl
  rw [hin] at hstep
  by_cases hclosed : c.state = .closed
  · rw [if_pos hclosed] at hstep
    exact Or.inl ⟨hclosed, (Option.some.inj hstep).symm⟩
  · have hrem : ¬ 0 < c.remaining := by
      have := (h.drained hclosed).1
      omega
    rw [if_neg hclosed, if_neg hrem] at hstep
    exact Or.inr ⟨hclosed, (Option.some.inj hstep).symm⟩

theorem framed_step (s : State) (a : Input) (s' : State) (h : Framed s) (hkeep : KeepsFraming s a)
    (hstep : step s a = some s') : Framed s' := by
  obtain ⟨pc, c⟩ := s
  cases pc with
  | handled result =>
    cases a with
    | leave =>
      simp only [step] at hstep
      split at hstep
      · cases hstep
        exact framed_settle_clientDisconnect result c
      · cases hstep
        exact ⟨fun _ => h.consumed rfl, by simp, (by rintro ⟨⟩)⟩
    | publish p ackWrite recvs | connack accepted | pubrec id write | other | lost e
    | gcloud live closes => cases hstep
  | polling =>
    cases a with
    | leave => cases hstep
    | gcloud live closes =>
      simp only [step] at hstep
      split at hstep
      · cases hstep
        exact framed_of_closed (by decide) rfl
      · cases hstep
        exact ⟨h.consumed, by simp, (by rintro ⟨⟩)⟩
    | publish p ackWrite recvs =>
      rcases step_packet h (by simp) (by simp) hstep with ⟨hclosed, rfl⟩ | ⟨hopen, rfl⟩
      · exact framed_of_closed (by decide) hclosed
      · exact framed_publish p ackWrite recvs (hkeep.resolve_left hopen)
    | connack accepted =>
      rcases step_packet h (by simp) (by simp) hstep with ⟨hclosed, rfl⟩ | ⟨hopen, rfl⟩
      · exact framed_of_closed (by decide) hclosed
      · cases accepted with
        | true => exact ⟨fun _ _ => h.drained hopen, by simp [handleRx], (by rintro ⟨⟩)⟩
        | false => exact framed_settle_clientDisconnect econnrefused c
    | pubrec id write =>
      rcases step_packet h (by simp) (by simp) hstep with ⟨hclosed, rfl⟩ | ⟨hopen, rfl⟩
      · exact framed_of_closed (by decide) hclosed
      · exact framed_pubrec id write (h.drained hopen).1 (h.drained hopen).2
    | other =>
      rcases step_packet h (by simp) (by simp) hstep with ⟨hclosed, rfl⟩ | ⟨hopen, rfl⟩
      · exact framed_of_closed (by decide) hclosed
      · exact ⟨h.consumed, by simp [handleRx], (by rintro ⟨⟩)⟩
    | lost e =>
      rcases step_packet h (by simp) (by simp) hstep with ⟨hclosed, rfl⟩ | ⟨hopen, rfl⟩
      · exact framed_of_closed (by decide) hclosed
      · exact framed_settle_clientDisconnect _ c
  | ended | aborted | overrun | blocked => cases hstep

theorem not_framed_step (s : State) (a : Input) (s' : State) (h : Framed s)
    (hbad : ¬ KeepsFraming s a) (hstep : step s a = some s') : ¬ Framed s' := by
  obtain ⟨pc, c⟩ := s
  cases a with
  | publish p ackWrite recvs =>
    simp only [KeepsFraming, not_or] at hbad
    obtain ⟨hopen, hne, hlose, hrest⟩ := hbad
    cases pc with
    | polling =>
      rcases step_packet h (by simp) (by simp) hstep with ⟨hclosed, _⟩ | ⟨_, rfl⟩
      · exact absurd hclosed hopen
      · exact not_framed_publish p ackWrite recvs hopen hne hlose hrest
    | handled _ | ended | aborted | overrun | blocked => cases hstep
  | connack _ | pubrec _ _ | other | lost _ | leave | gcloud _ _ => exact absurd trivial hbad

/-- Along every run of the mqtt thread the stream stays framed, the payload stays
inside the buffer and the thread ends only on a closed session, exactly when
every PUBLISH of the run keeps the framing. -/
theorem framed_iff_keepsFraming (live configHandler : Bool) (packets : List Input) :
    Throughout (machine live configHandler) Framed (machine live configHandler).init packets ↔
      EachStep (machine live configHandler) KeepsFraming
        (machine live configHandler).init packets :=
  throughout_iff_eachStep (fun _ h => h) framed_step not_framed_step packets
    (framed_start live configHandler)

/-- A QoS 0 message of one byte on an accepted session, then any other packet. -/
def oneByte : List Input :=
  [.connack true, .publish ⟨.atMostOnce, 0, [0x31], 0⟩ true [], .leave, .other]

theorem thread_stops_on_one_byte :
    ¬ ∀ s, Reachable (machine true false) s → Framed s := by
  intro hall
  obtain ⟨s, hreach, hs⟩ := exists_reachable_of_exec (M := machine true false)
    (p := fun s => s.pc == .ended && s.conn.state == .connected) oneByte (by decide)
  simp only [Bool.and_eq_true, beq_iff_eq] at hs
  have hclosed := (hall s hreach).healthy hs.1
  rw [hs.2] at hclosed
  cases hclosed

end NcsProjects.PublishFraming
