import NcsProjects.GcloudKernel
import NcsProjects.RecursiveMutexes
import NcsProjects.TransitionRuns

/-!
The threads of gcloud.c: the application threads in the API, gcloud_thread, and
mqtt_thread_func, with mqtt_event_handler on the thread that the client library
calls it on. A step is one kernel call, one write of a shared variable, or the
body of one library call under the client's mutex; a run interleaves the steps
of all threads, the expiry of the timer and the timeouts of the waits in every
order. The library reports the loss of the session on the thread that finds it,
with one level of the mutex given up around the handler.
-/
namespace NcsProjects.Gcloud

open Semaphores MessageQueues RecursiveMutexes PublishPayload TransitionRuns

/-- What poll reports of the socket. -/
structure Revents where
  pollin : Bool := true
  pollerr : Bool := false
  deriving DecidableEq

/-- A packet of the broker, or the loss of the connection while one is read. -/
inductive Packet
  | connack (accepted : Bool)
  | publish (qos1 : Bool) (len : ℕ)
  | pubrec
  | other
  | lost
  deriving DecidableEq

/-- What the environment decides in a step: the place in a wait queue, the success
of a library call, and what the socket and the clock give. -/
structure Env where
  pos : ℕ := 0
  ok : Bool := true
  encodes : Bool := true
  uptime : BitVec 32 := 1
  pollFails : Bool := false
  rev : Revents := {}
  pingDue : Bool := false
  chunk : ℕ := 0
  packet : Packet := .other

/-- Where a thread stands in gcloud_connect. -/
inductive ConnPc
  | put
  | putWait
  | take (err : ℤ)
  | takeWait (err : ℤ)
  | ret (err : ℤ)
  deriving DecidableEq

/-- How a MQTT_EVT_DISCONNECT was delivered: whether connected || connecting held, and
the number of CONNECT commands accepted before. -/
structure Activation where
  live : Bool
  since : ℕ
  deriving DecidableEq

/-- The branch MQTT_EVT_DISCONNECT of mqtt_event_handler. -/
inductive DiscPc
  | stopTimer
  | purge
  | check
  | abort
  | connect (p : ConnPc)
  | leave
  deriving DecidableEq

/-- A call into the client library. -/
inductive CallPc
  | lock
  | lockWait
  | body
  | disc (a : Activation) (p : DiscPc)
  | relock (ok : Bool)
  | relockWait (ok : Bool)
  | unlock (ok : Bool)
  deriving DecidableEq

inductive GcloudCall
  | connect
  | publish (m : Message) (id : BitVec 16)
  | subscribe
  | disconnect
  deriving DecidableEq

inductive GcloudPc
  | get
  | wait
  | dispatch
  | clientInit
  | setConnecting
  | create
  | stopTimer
  | clearConnected
  | markConnecting
  | call (c : GcloudCall) (p : CallPc)
  deriving DecidableEq

/-- The calls of the mqtt thread. `ack`, `read` and `release` are made inside the
handler that mqtt_input calls, `ping` inside mqtt_live. -/
inductive MqttCall
  | live
  | ping
  | input
  | ack (len : ℕ)
  | read (off want : ℕ)
  | release
  deriving DecidableEq

/-- The branch MQTT_EVT_CONNACK of mqtt_event_handler, for a result of zero. -/
inductive ConnackPc
  | give
  | setConnected
  | clearConnecting
  | startTimer
  | putSubscribe
  | putWait
  deriving DecidableEq

inductive MqttPc
  | absent
  | dead
  | overrun
  | poll
  | call (c : MqttCall) (rev : Revents) (p : CallPc)
  | connack (rev : Revents) (p : ConnackPc)
  deriving DecidableEq

/-- The handler of MQTT_EVT_DISCONNECT that a thread is in. -/
def GcloudPc.handler : GcloudPc → Option (Activation × DiscPc)
  | .call _ (.disc a p) => some (a, p)
  | _ => none

def MqttPc.handler : MqttPc → Option (Activation × DiscPc)
  | .call _ _ (.disc a p) => some (a, p)
  | _ => none

/-- The API calls of the application. -/
inductive ApiCall
  | connect
  | disconnect
  | publish (m : Message)
  | publishState (m : Message)

inductive AppPc
  | idle
  | connect (call : ℕ) (p : ConnPc)
  | check (e : GcloudEvent)
  | put (e : GcloudEvent)
  | putWait (e : GcloudEvent)
  deriving DecidableEq

structure Client where
  mutex : Mutex Tid
  session : SessionState
  remaining : ℕ
  /-- client_init got past make_jwt; otherwise the client is all zero. -/
  configured : Bool
  /-- The CONNECT command that the current attempt belongs to. -/
  origin : Option ℕ

/-- A return of gcloud_connect to the application. -/
structure Return where
  call : ℕ
  err : ℤ
  connected : Bool

/-- The end of a DISCONNECT handler: whether it was delivered while connected ||
connecting, and whether a CONNECT command has been accepted since. -/
structure Departure where
  live : Bool
  accepted : Bool

structure State where
  kernel : Kernel
  client : Client
  connected : Bool
  connecting : Bool
  timer : Bool
  gcloud : GcloudPc
  mqtt : MqttPc
  app : ℕ → AppPc
  calls : ℕ
  acks : List (Option ℕ)
  connacks : ℕ
  returns : List Return
  departures : List Departure

def State.start : State where
  kernel := Kernel.start
  client := ⟨Mutex.free, .closed, 0, false, none⟩
  connected := false
  connecting := false
  timer := false
  gcloud := .get
  mqtt := .absent
  app := fun _ => .idle
  calls := 0
  acks := []
  connacks := 0
  returns := []
  departures := []

/-- The two threads that call the library wait for the mutex in its queue. -/
def Client.lock (c : Client) (pos : ℕ) (self : Tid) : Bool × Client :=
  ((c.mutex.lock pos self).1, { c with mutex := (c.mutex.lock pos self).2 })

def Client.unlock (c : Client) (self : Tid) : Client := { c with mutex := c.mutex.unlock self }

/-- client_disconnect: the session is reset, and event_notify gives up one level of the
mutex before it calls the handler. -/
def Client.disconnect (c : Client) (self : Tid) : Client :=
  { c with mutex := c.mutex.unlock self, session := .closed, remaining := 0 }

/-- One step of gcloud_connect. -/
def connStep (self : Tid) (origin : Option ℕ) (env : Env) (p : ConnPc) (k : Kernel) :
    Option (ConnPc × Kernel) :=
  match p with
  | .put =>
    match k.put env.pos self (.connect origin) with
    | (true, k') => some (.take 0, k')
    | (false, k') => some (.putWait, k')
  | .putWait => if k.putDone self then some (.take (k.retval self), k) else none
  | .take err =>
    match k.take env.pos self with
    | (true, k') => some (.ret err, k')
    | (false, k') => some (.takeWait err, k')
  | .takeWait err => if self ∈ k.gcConnectedSem.waiters then none else some (.ret err, k)
  | .ret _ => none

/-- The event is delivered: the handler starts on the thread that found the loss. -/
def State.activation (s : State) : Activation := ⟨s.connected || s.connecting, s.kernel.connects⟩

def State.depart (s : State) (a : Activation) : State :=
  { s with departures := ⟨a.live, a.since < s.kernel.connects⟩ :: s.departures }

/-- k_thread_abort(mqtt_tid). The mutex stays with the aborted thread if it owns it,
and a handler that the thread is in is left for good. -/
def State.abortMqtt (s : State) : State :=
  { s with
    mqtt := .dead
    kernel := s.kernel.drop .mqtt
    client := { s.client with mutex := s.client.mutex.cancel .mqtt }
    departures := match s.mqtt.handler with
      | some (a, _) => (s.depart a).departures
      | none => s.departures }

/-- A call of the gcloud thread returns. -/
def GcloudCall.return : GcloudCall → GcloudPc
  | .connect => .create
  | .publish _ _ | .subscribe | .disconnect => .get

/-- The body of a library call on the gcloud thread: none when the session is lost,
and otherwise the client and whether the call succeeds. -/
def gcloudBody (c : GcloudCall) (env : Env) (client : Client) (event : Option GcloudEvent) :
    Option (Bool × Client) :=
  match c with
  | .connect =>
    let origin := match event with
      | some (.connect origin) => origin
      | _ => none
    if env.ok then some (true, { client with session := .tcp, remaining := 0, origin := origin })
    else some (false, { client with session := .closed, remaining := 0, origin := origin })
  | .publish m id =>
    if client.session ≠ .connected then some (false, client)
    else if (m.qos ≠ .atMostOnce ∧ id = 0#16) ∨ env.encodes = false then some (false, client)
    else if env.ok then some (true, client)
    else none
  | .subscribe =>
    if client.session ≠ .connected then some (false, client)
    else if env.encodes = false then some (false, client)
    else if env.ok then some (true, client)
    else none
  | .disconnect => if client.session ≠ .connected then some (false, client) else none

/-- The handler of MQTT_EVT_DISCONNECT on the gcloud thread. -/
def gcloudDisc (c : GcloudCall) (env : Env) (a : Activation) (p : DiscPc) (s : State) :
    Option State :=
  match p with
  | .stopTimer => some { s with timer := false, gcloud := .call c (.disc a .purge) }
  | .purge => some { s with kernel := s.kernel.purge, gcloud := .call c (.disc a .check) }
  | .check =>
    if s.connected || s.connecting then some { s with gcloud := .call c (.disc a .abort) }
    else some { s with gcloud := .call c (.disc a .leave) }
  | .abort => some { s.abortMqtt with gcloud := .call c (.disc a (.connect .put)) }
  | .connect (.ret _) => some { s with gcloud := .call c (.disc a .leave) }
  | .connect p =>
    match connStep .gcloud none env p s.kernel with
    | none => none
    | some (p', k) => some { s with kernel := k, gcloud := .call c (.disc a (.connect p')) }
  | .leave => some { s.depart a with gcloud := .call c (.relock false) }

def gcloudCall (c : GcloudCall) (env : Env) (p : CallPc) (s : State) : Option State :=
  match p with
  | .lock =>
    match s.client.lock env.pos .gcloud with
    | (true, cl) => some { s with client := cl, gcloud := .call c .body }
    | (false, cl) => some { s with client := cl, gcloud := .call c .lockWait }
  | .lockWait =>
    if s.client.mutex.heldBy .gcloud then some { s with gcloud := .call c .body } else none
  | .body =>
    match gcloudBody c env s.client s.kernel.event with
    | some (ok, cl) => some { s with client := cl, gcloud := .call c (.unlock ok) }
    | none => some { s with
        client := s.client.disconnect .gcloud
        gcloud := .call c (.disc s.activation .stopTimer) }
  | .disc a p => gcloudDisc c env a p s
  | .relock ok =>
    match s.client.lock env.pos .gcloud with
    | (true, cl) => some { s with client := cl, gcloud := .call c (.unlock ok) }
    | (false, cl) => some { s with client := cl, gcloud := .call c (.relockWait ok) }
  | .relockWait ok =>
    if s.client.mutex.heldBy .gcloud then some { s with gcloud := .call c (.unlock ok) } else none
  | .unlock _ => some { s with client := s.client.unlock .gcloud, gcloud := c.return }

/-- The switch over event.type. -/
def dispatch (env : Env) (s : State) : GcloudPc :=
  match s.kernel.event with
  | some (.connect _) => .clientInit
  | some (.publishState m) | some (.publish m) =>
    if s.connected then .call (.publish m (env.uptime.setWidth 16)) .lock else .get
  | some .reconnectTimeout | some (.disconnect _) => if s.connected then .stopTimer else .get
  | some .subscribe => if s.connected then .call .subscribe .lock else .get
  | none => .get

/-- One step of gcloud_thread. The result of k_msgq_get is not looked at: a purge that
wakes the waiting thread makes it dispatch its last event again. -/
def gcloudStep (env : Env) (s : State) : Option State :=
  match s.gcloud with
  | .get =>
    match s.kernel.get with
    | some k => some { s with kernel := k, gcloud := .dispatch }
    | none => some { s with kernel := s.kernel.pendRead env.pos, gcloud := .wait }
  | .wait =>
    if .gcloud ∈ s.kernel.msgq.readers then none else some { s with gcloud := .dispatch }
  | .dispatch => some { s with gcloud := dispatch env s }
  | .clientInit => some { s with
      client := ⟨Mutex.free, .closed, 0, env.ok, none⟩
      gcloud := .setConnecting }
  | .setConnecting => some { s with
      connecting := true
      gcloud := if s.client.configured then .call .connect .lock else .create }
  | .create =>
    -- k_thread_create over a thread that lives is undefined, and the run ends here.
    if s.mqtt = .absent ∨ s.mqtt = .dead then some { s with mqtt := .poll, gcloud := .get }
    else none
  | .stopTimer => some { s with timer := false, gcloud := .clearConnected }
  | .clearConnected => some { s with connected := false, gcloud := .markConnecting }
  | .markConnecting => some { s with
      connecting := match s.kernel.event with
        | some (.disconnect _) => false
        | _ => true
      gcloud := .call .disconnect .lock }
  | .call c p => gcloudCall c env p s

/-- mqtt_thread_func behind mqtt_input: leave the loop on POLLERR or POLLNVAL. -/
def endLoop (rev : Revents) : MqttPc := if rev.pollerr then .dead else .poll

/-- A call of the mqtt thread returns. -/
def MqttCall.return (c : MqttCall) (rev : Revents) (ok : Bool) : MqttPc :=
  match c with
  | .ping => .call .live rev (.unlock ok)
  | .live => if ok then (if rev.pollin then .call .input rev .lock else endLoop rev) else .dead
  | .input => if ok then endLoop rev else .dead
  | .ack len =>
    if len ≤ 2 then .call .input rev (.relock true) else .call (.read 0 len) rev .lock
  | .read off want =>
    if ok ∧ 0 < want then .call (.read off want) rev .lock else .call .input rev (.relock true)
  | .release => .call .input rev (.relock true)

/-- mqtt_input on an open session with no payload outstanding. The handler of a
refused CONNACK only logs, and the library disconnects after it. -/
def inputBody (rev : Revents) (packet : Packet) (s : State) : Option State :=
  match packet with
  | .connack true => some { s with
      client := { s.client.unlock .mqtt with session := .connected }
      acks := s.client.origin :: s.acks
      mqtt := .connack rev .give }
  | .publish true len => some { s with
      client := { s.client.unlock .mqtt with remaining := len }
      mqtt := .call (.ack len) rev .lock }
  | .publish false len => some { s with
      client := { s.client.unlock .mqtt with remaining := len }
      mqtt := MqttCall.return (.ack len) rev true }
  | .pubrec => some { s with
      client := s.client.unlock .mqtt
      mqtt := .call .release rev .lock }
  | .other => some { s with mqtt := .call .input rev (.unlock true) }
  | .connack false | .lost => none

/-- The body of a library call on the mqtt thread; none when the session is lost. -/
def mqttBody (c : MqttCall) (rev : Revents) (env : Env) (s : State) : Option State :=
  match c with
  | .live =>
    if env.pingDue then some { s with mqtt := .call .ping rev .lock }
    else some { s with mqtt := .call .live rev (.unlock true) }
  | .ping =>
    if s.client.session ≠ .connected then some { s with mqtt := .call .ping rev (.unlock false) }
    else if env.ok then some { s with mqtt := .call .ping rev (.unlock true) }
    else none
  | .input =>
    if s.client.session = .closed ∨ 0 < s.client.remaining then
      some { s with mqtt := .call .input rev (.unlock false) }
    else inputBody rev env.packet s
  | .ack len =>
    if s.client.session ≠ .connected ∨ env.encodes = false then
      some { s with mqtt := .call (.ack len) rev (.unlock false) }
    else if env.ok then some { s with mqtt := .call (.ack len) rev (.unlock true) }
    else none
  | .release =>
    if s.client.session ≠ .connected ∨ env.encodes = false then
      some { s with mqtt := .call .release rev (.unlock false) }
    else if env.ok then some { s with mqtt := .call .release rev (.unlock true) }
    else none
  | .read off want =>
    if s.client.remaining = 0 then
      some { s with mqtt := .call (.read off want) rev (.unlock false) }
    else if env.ok then
      let got := min (min want s.client.remaining) (env.chunk + 1)
      if payloadBufferSize < off + got then some { s with mqtt := .overrun }
      else some { s with
        client := { s.client with remaining := s.client.remaining - got }
        mqtt := .call (.read (off + got) (want - got)) rev (.unlock true) }
    else none

/-- The handler of MQTT_EVT_DISCONNECT on the mqtt thread, which aborts itself. -/
def mqttDisc (c : MqttCall) (rev : Revents) (a : Activation) (p : DiscPc) (s : State) :
    Option State :=
  match p with
  | .stopTimer => some { s with timer := false, mqtt := .call c rev (.disc a .purge) }
  | .purge => some { s with kernel := s.kernel.purge, mqtt := .call c rev (.disc a .check) }
  | .check =>
    if s.connected || s.connecting then some { s with mqtt := .call c rev (.disc a .abort) }
    else some { s with mqtt := .call c rev (.disc a .leave) }
  | .abort => some s.abortMqtt
  | .connect _ => none
  | .leave => some { s.depart a with mqtt := .call c rev (.relock false) }

def mqttCall (c : MqttCall) (rev : Revents) (env : Env) (p : CallPc) (s : State) : Option State :=
  match p with
  | .lock =>
    match s.client.lock env.pos .mqtt with
    | (true, cl) => some { s with client := cl, mqtt := .call c rev .body }
    | (false, cl) => some { s with client := cl, mqtt := .call c rev .lockWait }
  | .lockWait =>
    if s.client.mutex.heldBy .mqtt then some { s with mqtt := .call c rev .body } else none
  | .body =>
    match mqttBody c rev env s with
    | some s' => some s'
    | none => some { s with
        client := s.client.disconnect .mqtt
        mqtt := .call c rev (.disc s.activation .stopTimer) }
  | .disc a p => mqttDisc c rev a p s
  | .relock ok =>
    match s.client.lock env.pos .mqtt with
    | (true, cl) => some { s with client := cl, mqtt := .call c rev (.unlock ok) }
    | (false, cl) => some { s with client := cl, mqtt := .call c rev (.relockWait ok) }
  | .relockWait ok =>
    if s.client.mutex.heldBy .mqtt then some { s with mqtt := .call c rev (.unlock ok) } else none
  | .unlock ok => some { s with client := s.client.unlock .mqtt, mqtt := c.return rev ok }

/-- The handler of an accepted CONNACK. -/
def connackStep (env : Env) (rev : Revents) (p : ConnackPc) (s : State) : Option State :=
  match p with
  | .give => some { s with kernel := s.kernel.give, mqtt := .connack rev .setConnected }
  | .setConnected => some { s with
      connected := true
      connacks := s.connacks + 1
      mqtt := .connack rev .clearConnecting }
  | .clearConnecting => some { s with connecting := false, mqtt := .connack rev .startTimer }
  | .startTimer => some { s with timer := true, mqtt := .connack rev .putSubscribe }
  | .putSubscribe =>
    match s.kernel.put env.pos .mqtt .subscribe with
    | (true, k) => some { s with kernel := k, mqtt := .call .input rev (.relock true) }
    | (false, k) => some { s with kernel := k, mqtt := .connack rev .putWait }
  | .putWait =>
    if s.kernel.putDone .mqtt then some { s with mqtt := .call .input rev (.relock true) } else none

/-- One step of mqtt_thread_func. -/
def mqttStep (env : Env) (s : State) : Option State :=
  match s.mqtt with
  | .absent | .dead | .overrun => none
  | .poll => some { s with mqtt := if env.pollFails then .dead else .call .live env.rev .lock }
  | .call c rev p => mqttCall c rev env p s
  | .connack rev p => connackStep env rev p s

/-- One step of an application thread inside the API. -/
def appStep (n : ℕ) (env : Env) (s : State) : Option State :=
  match s.app n with
  | .idle => none
  | .connect call (.ret err) => some { s with
      app := Function.update s.app n .idle
      returns := ⟨call, err, s.connected⟩ :: s.returns }
  | .connect call p =>
    match connStep (.app n) (some call) env p s.kernel with
    | none => none
    | some (p', k) => some { s with
        kernel := k
        app := Function.update s.app n (.connect call p') }
  | .check e =>
    some { s with app := Function.update s.app n (if s.connected then .put e else .idle) }
  | .put e =>
    match s.kernel.put env.pos (.app n) e with
    | (true, k) => some { s with kernel := k, app := Function.update s.app n .idle }
    | (false, k) => some { s with kernel := k, app := Function.update s.app n (.putWait e) }
  | .putWait _ =>
    if s.kernel.putDone (.app n) then some { s with app := Function.update s.app n .idle } else none

/-- An application thread calls the API. -/
def apiStart (n : ℕ) (c : ApiCall) (s : State) : Option State :=
  if s.app n = .idle then
    some { s with
      calls := s.calls + 1
      app := Function.update s.app n (match c with
        | .connect => .connect s.calls .put
        | .disconnect => .put (.disconnect s.calls)
        | .publish m => .check (.publish m)
        | .publishState m => .check (.publishState m)) }
  else none

inductive Act
  | start (n : ℕ) (c : ApiCall)
  | app (n : ℕ) (env : Env)
  | gcloud (env : Env)
  | mqtt (env : Env)
  | timer
  | timeout (t : Tid)

def step (s : State) : Act → Option State
  | .start n c => apiStart n c s
  | .app n env => appStep n env s
  | .gcloud env => gcloudStep env s
  | .mqtt env => mqttStep env s
  | .timer => if s.timer then some { s with kernel := s.kernel.putNoWait .reconnectTimeout } else none
  | .timeout t => (s.kernel.timeout t).map fun k => { s with kernel := k }

def machine : Machine State Act := ⟨State.start, step⟩

/-- Connect once: the gcloud thread executes the command, and the mqtt thread handles
an accepted CONNACK and polls again. -/
def handshake : List Act :=
  [.start 0 .connect, .app 0 {}] ++ List.replicate 8 (.gcloud {}) ++
    List.replicate 5 (.mqtt {}) ++ [.mqtt { packet := .connack true }] ++
    List.replicate 7 (.mqtt {})

end NcsProjects.Gcloud
