import NcsProjects.PublishPayload
import NcsProjects.Semaphores
import NcsProjects.TransitionRuns

/-!
The threads of mqtt_work: the work queue app_work_q with publish_samples and
publish_alarm, and the main loop with mqtt_evt_handler, which the client library
calls on it. A call of the library holds the client's mutex and is one step, up to
the event that it notifies: there the mutex is given up, and the rest of the call is
a step of its own. mqtt_ping is the exception; mqtt_live holds the mutex around it.
client_disconnect closes the socket, notifies the event, and resets the session only
after that. The lock of current_rsrp and the LEDs are left out.
-/
namespace NcsProjects.MqttWork

open Semaphores TransitionRuns
open PublishPayload (SessionState)

/-- CONFIG_MQTT_PAYLOAD_BUFFER_SIZE -/
def payloadBufferSize : ℕ := 128

/-- What poll reports of the socket. POLLNVAL ends the loop body, which is over then. -/
structure Revents where
  pollin : Bool := true
  pollerr : Bool := false
  deriving DecidableEq

/-- What mqtt_input finds in the socket: a packet, less than a packet or one that the
handler only logs, one that it cannot accept, or the loss of the connection. A
PUBLISH is handed to the handler even when it was not decoded. -/
inductive Packet
  | connack
  | puback (id : BitVec 16)
  | publish (len : ℕ) (decoded : Bool)
  | other
  | rejected
  | lost
  deriving DecidableEq

/-- What the environment decides in a step. -/
structure Env where
  ok : Bool := true
  encodes : Bool := true
  cycles : BitVec 32 := 1
  pollFails : Bool := false
  rev : Revents := {}
  pingDue : Bool := false
  packet : Packet := .other
  again : Bool := false
  chunk : ℕ := 0

/-- The two work items, periodic_work and alarm_work. -/
inductive Work
  | periodic
  | alarm
  deriving DecidableEq

/-- A PUBACK: the mqtt_connect on whose session it came, and its packet id. -/
structure Puback where
  attempt : ℕ
  id : BitVec 16
  deriving DecidableEq

/-- Where the work queue stands in a work item. A take that has returned carries the
CONNACK or PUBACK behind its token, or none after a timeout. -/
inductive WorkPc
  | idle
  | lteConnect (item : Work)
  | mqttConnect (item : Work)
  | fdsInit (item : Work)
  | setConnected (item : Work)
  | takeConnect (item : Work)
  | waitConnect (item : Work)
  | connectTaken (item : Work) (connack : Option ℕ)
  | publish (item : Work)
  | publishLost (item : Work)
  | takePuback (item : Work)
  | waitPuback (item : Work)
  | pubackTaken (puback : Option Puback)
  | appDisconnect
  | abort
  | abortLost
  | clearConnected
  | mqttDisconnect
  | disconnectLost (ok : Bool)
  | offline
  deriving DecidableEq

/-- What the main thread goes on with when client_disconnect is over: mqtt_input
returns an error, the read of a payload does, or mqtt_disconnect returns, in the
handler or behind the loop. -/
inductive After
  | input
  | read (rev : Revents) (decoded : Bool)
  | handler (rev : Revents) (decoded : Bool)
  | final
  deriving DecidableEq

inductive MainPc
  | check
  | poll
  | recheck (rev : Revents)
  | live (rev : Revents)
  | input (rev : Revents)
  | connack (rev : Revents) (attempt : ℕ)
  | puback (rev : Revents) (puback : Puback)
  | read (rev : Revents) (want : ℕ) (decoded : Bool)
  | disconnect (rev : Revents) (decoded : Bool)
  | handled (rev : Revents) (decoded : Bool)
  | lost (after : After)
  | tail (rev : Revents)
  | leave
  | done
  deriving DecidableEq

/-- `socket` says that the transport is open. -/
structure Client where
  session : SessionState
  socket : Bool
  remaining : ℕ

structure State where
  client : Client
  connectOk : Sem Unit ℕ 1
  pubackOk : Sem Unit Puback 1
  appConnected : Bool
  work : WorkPc
  pending : List Work
  main : MainPc
  /-- The calls of mqtt_connect so far. -/
  attempts : ℕ
  /-- The packet id of the PUBLISH that mqtt_publish accepted in this work item. -/
  published : Option (BitVec 16)
  /-- The semaphore has been given for a PUBACK of that PUBLISH. -/
  acked : Bool

def State.start : State where
  client := ⟨.closed, false, 0⟩
  connectOk := Sem.start [] (by decide)
  pubackOk := Sem.start [] (by decide)
  appConnected := false
  work := .idle
  pending := []
  main := .check
  attempts := 0
  published := none
  acked := false

/-- mqtt_connect adds its state to what an earlier session may have left. -/
def connectedTo : SessionState → SessionState
  | .connected => .connected
  | _ => .tcp

def Client.connect (c : Client) (ok : Bool) : Client :=
  if ok then { c with session := connectedTo c.session, socket := true } else ⟨.closed, false, 0⟩

/-- mqtt_transport_disconnect -/
def Client.shut (c : Client) : Client := { c with socket := false }

/-- client_reset -/
def Client.reset (c : Client) : Client := { c with session := .closed, remaining := 0 }

/-- What becomes of a PUBLISH: refused before it is sent, sent, or lost in the write. -/
inductive Publication
  | refused
  | accepted
  | failed

/-- mqtt_publish with QoS 1, of a message whose id is cut to 16 bits. -/
def dataPublish (env : Env) (c : Client) : Publication :=
  if c.session ≠ .connected then .refused
  else if env.cycles.setWidth 16 = 0#16 ∨ env.encodes = false then .refused
  else if c.socket && env.ok then .accepted
  else .failed

/-- One step of the work queue. The results of data_publish and of k_sem_take in
publish_samples are not looked at. -/
def workStep (env : Env) (s : State) : Option State :=
  match s.work with
  | .idle =>
    match s.pending with
    | [] => none
    | item :: rest => some { s with pending := rest, work := .lteConnect item }
  | .lteConnect item => some { s with work := if env.ok then .mqttConnect item else .lteConnect item }
  | .mqttConnect item => some { s with
      client := s.client.connect env.ok
      attempts := s.attempts + 1
      published := none
      work := if env.ok then .fdsInit item else .appDisconnect }
  | .fdsInit item => some { s with work := .setConnected item }
  | .setConnected item => some { s with appConnected := true, work := .takeConnect item }
  | .takeConnect item =>
    match s.connectOk.take 0 () with
    | (some k, sem) => some { s with connectOk := sem, work := .connectTaken item (some k) }
    | (none, sem) => some { s with connectOk := sem, work := .waitConnect item }
  | .waitConnect _ => none
  | .connectTaken item (some _) => some { s with work := .publish item }
  | .connectTaken _ none => some { s with appConnected := false, work := .appDisconnect }
  | .publish item =>
    match dataPublish env s.client with
    | .refused => some { s with work := .takePuback item }
    | .accepted => some { s with
        published := some (env.cycles.setWidth 16)
        acked := false
        work := .takePuback item }
    | .failed => some { s with client := s.client.shut, work := .publishLost item }
  | .publishLost item => some { s with client := s.client.reset, work := .takePuback item }
  | .takePuback item =>
    match s.pubackOk.take 0 () with
    | (some p, sem) => some { s with pubackOk := sem, work := .pubackTaken (some p) }
    | (none, sem) => some { s with pubackOk := sem, work := .waitPuback item }
  | .waitPuback _ => none
  | .pubackTaken _ => some { s with work := .appDisconnect }
  | .appDisconnect => some { s with work := if s.appConnected then .clearConnected else .abort }
  | .abort =>
    if s.client.session = .closed then some { s with work := .offline }
    else some { s with client := s.client.shut, work := .abortLost }
  | .abortLost => some { s with client := s.client.reset, work := .offline }
  | .clearConnected => some { s with appConnected := false, work := .mqttDisconnect }
  | .mqttDisconnect =>
    if s.client.session ≠ .connected then some { s with work := .idle }
    else some { s with
      client := s.client.shut
      work := .disconnectLost (s.client.socket && env.ok) }
  | .disconnectLost ok => some { s with
      client := s.client.reset
      work := if ok then .offline else .idle }
  | .offline => some { s with work := .idle }

/-- A give finds the work queue waiting: its take returns with the token. -/
def WorkPc.connectHanded (k : ℕ) : WorkPc → WorkPc
  | .waitConnect item => .connectTaken item (some k)
  | w => w

def WorkPc.pubackHanded (p : Puback) : WorkPc → WorkPc
  | .waitPuback _ => .pubackTaken (some p)
  | w => w

/-- k_sem_give(&mqtt_connect_ok) -/
def State.giveConnect (s : State) (k : ℕ) : State :=
  match s.connectOk.give k with
  | (some _, sem) => { s with connectOk := sem, work := s.work.connectHanded k }
  | (none, sem) => { s with connectOk := sem }

/-- The PUBACK is one of the PUBLISH that this work item has sent. -/
def State.answers (s : State) (p : Puback) : Bool := p.attempt = s.attempts && s.published = some p.id

/-- k_sem_give(&mqtt_puback_ok); the handler does not look at the packet id. -/
def State.givePuback (s : State) (p : Puback) : State :=
  match s.pubackOk.give p with
  | (some _, sem) => { s with
      pubackOk := sem
      work := s.work.pubackHanded p
      acked := s.acked || s.answers p }
  | (none, sem) => { s with pubackOk := sem, acked := s.acked || s.answers p }

/-- The main loop behind mqtt_live, and behind mqtt_input that returned 0. -/
def behindLive (rev : Revents) : MainPc := if rev.pollin then .input rev else .tail rev

/-- mqtt_input with a packet, on an open socket. -/
def mqttInput (rev : Revents) (packet : Packet) (s : State) : State :=
  match packet with
  | .connack => { s with
      client := { s.client with session := .connected }
      main := .connack rev s.attempts }
  | .puback id => { s with main := .puback rev ⟨s.attempts, id⟩ }
  | .publish len decoded => { s with
      client := { s.client with remaining := len }
      main := if payloadBufferSize < len then .disconnect rev decoded else .read rev len decoded }
  | .other => { s with main := .tail rev }
  | .rejected => { s with main := .handled rev false }
  | .lost => { s with client := s.client.shut, main := .lost .input }

def After.next : After → MainPc
  | .input => .check
  | .read rev decoded => .disconnect rev decoded
  | .handler rev decoded => .handled rev decoded
  | .final => .done

/-- One step of main. mqtt_ping loses the session under the mutex of mqtt_live, so
nobody sees the socket closed and the session not reset. -/
def mainStep (env : Env) (s : State) : Option State :=
  match s.main with
  | .check => some { s with main := if s.appConnected then .poll else .check }
  | .poll => some { s with main := if env.pollFails then .leave else .recheck env.rev }
  | .recheck rev => some { s with main := if s.appConnected then .live rev else .check }
  | .live rev =>
    if env.pingDue = false then some { s with main := behindLive rev }
    else if s.client.session ≠ .connected then some { s with main := .leave }
    else if s.client.socket && env.ok then some { s with main := behindLive rev }
    else some { s with client := s.client.shut.reset, main := .leave }
  | .input rev =>
    if s.client.session = .closed ∨ 0 < s.client.remaining then some { s with main := .check }
    else some (mqttInput rev (if s.client.socket then env.packet else .lost) s)
  | .connack rev k => some { s.giveConnect k with main := .handled rev true }
  | .puback rev p => some { s.givePuback p with main := .handled rev true }
  | .read rev want decoded =>
    if want = 0 then some { s with main := .handled rev decoded }
    else if s.client.remaining = 0 then some { s with main := .disconnect rev decoded }
    else if s.client.socket && env.again then
      if env.pollFails then some { s with main := .disconnect rev decoded } else some s
    else if s.client.socket && env.ok then
      let got := min (min want s.client.remaining) (env.chunk + 1)
      some { s with
        client := { s.client with remaining := s.client.remaining - got }
        main := .read rev (want - got) decoded }
    else some { s with client := s.client.shut, main := .lost (.read rev decoded) }
  | .disconnect rev decoded =>
    if s.client.session ≠ .connected then some { s with main := .handled rev decoded }
    else some { s with client := s.client.shut, main := .lost (.handler rev decoded) }
  | .handled rev decoded =>
    if decoded then some { s with main := .tail rev }
    else some { s with client := s.client.shut, main := .lost .input }
  | .lost after => some { s with client := s.client.reset, main := after.next }
  | .tail rev => some { s with main := if rev.pollerr then .leave else .check }
  | .leave =>
    if s.client.session ≠ .connected then some { s with main := .done }
    else some { s with client := s.client.shut, main := .lost .final }
  | .done => none

/-- The 20 s of a take are over; publish_samples waits for its PUBACK for ever. -/
def timeoutStep (s : State) : Option State :=
  match s.work with
  | .waitConnect item => some { s with
      connectOk := s.connectOk.cancel ()
      work := .connectTaken item none }
  | .waitPuback .alarm => some { s with
      pubackOk := s.pubackOk.cancel ()
      work := .pubackTaken none }
  | _ => none

/-- k_work_submit_to_queue: a work item that is pending is not queued again. -/
def submitStep (item : Work) (s : State) : State :=
  if item ∈ s.pending then s else { s with pending := s.pending ++ [item] }

inductive Act
  | submit (item : Work)
  | work (env : Env)
  | main (env : Env)
  | timeout

def step (s : State) : Act → Option State
  | .submit item => some (submitStep item s)
  | .work env => workStep env s
  | .main env => mainStep env s
  | .timeout => timeoutStep s

def machine : Machine State Act := ⟨State.start, step⟩

/-- The work item connects, and the main loop handles its CONNACK. -/
def connectItem (item : Work) : List Act :=
  [.submit item] ++ List.replicate 6 (.work {}) ++ List.replicate 4 (.main {}) ++
    [.main { packet := .connack }, .main {}, .work {}]

end NcsProjects.MqttWork
