import NcsProjects.GcloudThreads

/-!
The CONNECT command of gcloud_thread, run from the disconnected state. Four steps can
fail: the name look-up of broker_init, the token of client_init, mqtt_connect, and
fds_init. None of their results is looked at, so each later step is made all the same,
connecting stays set and the mqtt thread is created. The last theorem runs the command
on the machine of the threads.
-/
namespace NcsProjects.GcloudConnectCommand

open TransitionRuns

abbrev Address := BitVec 32

structure AddrInfo where
  addrlen : ℕ
  addr : Address

/-- sizeof(struct sockaddr_in) -/
def sockaddrInSize : ℕ := 8

def einval : ℤ := 22
def enotsup : ℤ := 134

/-- What the calls of one attempt give: the addresses of getaddrinfo or its error, the
results of modem_jwt_generate and of mqtt_connect on a client that is set up, and
whether the library is built with TLS, which fds_init depends on. -/
structure Outcomes where
  getaddrinfo : Except ℤ (List AddrInfo)
  jwt : ℤ
  connect : ℤ
  mqttLibTls : Bool

inductive Transport
  | nonSecure
  | secure

/-- The client: all zero but for what client_init sets. -/
structure MqttClient where
  transport : Transport
  /-- client_id, the buffers and the credentials are set. -/
  configured : Bool

inductive Call
  | mqttConnect (err : ℤ)
  | fdsInit (err : ℤ)
  | threadCreate

structure State where
  broker : Option Address
  client : MqttClient
  connected : Bool
  connecting : Bool
  calls : List Call

/-- The loop over the addresses leaves after the first, whatever it is. -/
def brokerInit (o : Outcomes) (broker : Option Address) : Option Address :=
  match o.getaddrinfo with
  | .error _ | .ok [] => broker
  | .ok (info :: _) => if info.addrlen = sockaddrInSize then some info.addr else broker

def clientInit (o : Outcomes) : MqttClient :=
  if o.jwt ≠ 0 then ⟨.nonSecure, false⟩ else ⟨.secure, true⟩

/-- mqtt_connect turns a client without an id down. -/
def mqttConnect (o : Outcomes) (c : MqttClient) : ℤ :=
  if c.configured then o.connect else -einval

def fdsInit (o : Outcomes) (c : MqttClient) : ℤ :=
  match c.transport with
  | .nonSecure => 0
  | .secure => if o.mqttLibTls then 0 else -enotsup

def State.call (s : State) (c : Call) : State := { s with calls := s.calls ++ [c] }

/-- The branch CONNECT of gcloud_thread. -/
def connectCommand (o : Outcomes) (s : State) : State :=
  let s := { s with broker := brokerInit o s.broker }
  let s := { s with client := clientInit o }
  let s := { s with connecting := true }
  let s := s.call (.mqttConnect (mqttConnect o s.client))
  let s := s.call (.fdsInit (fdsInit o s.client))
  s.call .threadCreate

/-- Not connected and no attempt under way. -/
def disconnected (broker : Option Address) (client : MqttClient) : State :=
  ⟨broker, client, false, false, []⟩

/-- The look-up gave an address that broker_init takes. -/
def Outcomes.Resolved (o : Outcomes) : Prop :=
  ∃ info rest, o.getaddrinfo = .ok (info :: rest) ∧ info.addrlen = sockaddrInSize

/-- Some step of the attempt failed. -/
def Outcomes.Failed (o : Outcomes) (s : State) : Prop :=
  ¬ o.Resolved ∨ o.jwt ≠ 0 ∨ (∃ err ≠ 0, .mqttConnect err ∈ s.calls) ∨
    ∃ err ≠ 0, .fdsInit err ∈ s.calls

/-- A failed attempt leaves nothing half-done. -/
structure NothingHalfDone (o : Outcomes) (s : State) : Prop where
  connect : ∀ err, .mqttConnect err ∈ s.calls → o.Resolved ∧ o.jwt = 0
  thread : .threadCreate ∈ s.calls → .mqttConnect 0 ∈ s.calls ∧ .fdsInit 0 ∈ s.calls
  flags : o.Failed s → s.connected = false ∧ s.connecting = false

theorem calls_connectCommand (o : Outcomes) (s : State) :
    (connectCommand o s).calls = s.calls ++ [.mqttConnect (mqttConnect o (clientInit o)),
      .fdsInit (fdsInit o (clientInit o)), .threadCreate] := by
  simp [connectCommand, State.call]

/-- connecting is set and nothing takes it back. -/
theorem connecting_connectCommand (o : Outcomes) (s : State) :
    (connectCommand o s).connecting = true := rfl

/-- The command leaves nothing half-done exactly when all four steps succeed. -/
theorem connectCommand_clean_iff (o : Outcomes) (broker : Option Address) (client : MqttClient) :
    NothingHalfDone o (connectCommand o (disconnected broker client)) ↔
      o.Resolved ∧ o.jwt = 0 ∧ o.connect = 0 ∧ o.mqttLibTls = true := by
  have hcalls := calls_connectCommand o (disconnected broker client)
  have hconnecting := connecting_connectCommand o (disconnected broker client)
  constructor
  · intro h
    have hok : ¬ o.Failed (connectCommand o (disconnected broker client)) := by
      intro hfailed
      rw [(h.flags hfailed).2] at hconnecting
      cases hconnecting
    rw [Outcomes.Failed, not_or, not_or, not_or] at hok
    obtain ⟨hresolved, hjwt, hconnect, hfds⟩ := hok
    have hjwt : o.jwt = 0 := not_not.mp hjwt
    have hclient : clientInit o = ⟨.secure, true⟩ := by simp [clientInit, hjwt]
    have hzero : mqttConnect o (clientInit o) = 0 := by
      by_contra hne
      exact hconnect ⟨_, hne, by simp [hcalls]⟩
    have hnone : fdsInit o (clientInit o) = 0 := by
      by_contra hne
      exact hfds ⟨_, hne, by simp [hcalls]⟩
    rw [hclient] at hzero hnone
    refine ⟨not_not.mp hresolved, hjwt, hzero, ?_⟩
    by_contra htls
    simp [fdsInit, htls, enotsup] at hnone
  · rintro ⟨hresolved, hjwt, hconnect, htls⟩
    have hclient : clientInit o = ⟨.secure, true⟩ := by simp [clientInit, hjwt]
    have hlog : (connectCommand o (disconnected broker client)).calls =
        [.mqttConnect 0, .fdsInit 0, .threadCreate] := by
      rw [hcalls, hclient]
      simp [mqttConnect, fdsInit, hconnect, htls, disconnected]
    constructor
    · intro _ _
      exact ⟨hresolved, hjwt⟩
    · intro _
      simp [hlog]
    · intro hfailed
      simp [Outcomes.Failed, hresolved, hjwt, hlog] at hfailed

/-- The host name cannot be resolved. -/
theorem connectCommand_half_done :
    ¬ NothingHalfDone ⟨.error (-2), 0, 0, true⟩
      (connectCommand ⟨.error (-2), 0, 0, true⟩ (disconnected none ⟨.nonSecure, false⟩)) := by
  intro h
  have hresolved := (h.connect 0 (by simp [calls_connectCommand, mqttConnect, clientInit])).1
  obtain ⟨_, _, herror, _⟩ := hresolved
  cases herror

section Threads
open Gcloud

/-- The steps of the gcloud thread from the switch on; a client without an id is turned
down before the mutex is taken. -/
def commandSteps (o : Outcomes) : List Act :=
  [.gcloud {}, .gcloud { ok := o.jwt = 0 }, .gcloud {}] ++
    (if o.jwt = 0 then [.gcloud {}, .gcloud { ok := o.connect = 0 }, .gcloud {}] else []) ++
    [.gcloud {}]

theorem lock_free (pos : ℕ) (self : Tid) :
    (RecursiveMutexes.Mutex.free.lock pos self).1 = true := by
  apply RecursiveMutexes.Mutex.lock_of_free
  intro u
  rfl

/-- With no mqtt thread the command goes through without a pause and ends as it does above: with
the flags it leaves, the mqtt thread created, and a session only where mqtt_connect
succeeded. -/
theorem exec_commandSteps (o : Outcomes) {s : Gcloud.State} {origin : Option ℕ}
    (hgcloud : s.gcloud = .dispatch) (hevent : s.kernel.event = some (.connect origin))
    (hgone : s.mqtt = .absent ∨ s.mqtt = .dead) (a : State) (ha : a.connected = s.connected) :
    ∃ t, exec machine s (commandSteps o) = some t ∧ t.gcloud = .get ∧
      t.connected = (connectCommand o a).connected ∧
      t.connecting = (connectCommand o a).connecting ∧ t.mqtt = .poll ∧
      (t.client.session = .tcp ↔ mqttConnect o (clientInit o) = 0) := by
  have hcommand : (connectCommand o a).connected = s.connected := ha
  rw [hcommand, connecting_connectCommand]
  by_cases hjwt : o.jwt = 0
  · by_cases hconnect : o.connect = 0
    · simp [commandSteps, hjwt, hconnect, exec, machine, step, gcloudStep, dispatch, hgcloud,
        hevent, gcloudCall, gcloudBody, GcloudCall.return, Client.lock, Client.unlock, lock_free,
        hgone, mqttConnect, clientInit]
    · simp [commandSteps, hjwt, hconnect, exec, machine, step, gcloudStep, dispatch, hgcloud,
        hevent, gcloudCall, gcloudBody, GcloudCall.return, Client.lock, Client.unlock, lock_free,
        hgone, mqttConnect, clientInit]
  · simp [commandSteps, hjwt, exec, machine, step, gcloudStep, dispatch, hgcloud, hevent,
      hgone, mqttConnect, clientInit, einval]

end Threads

end NcsProjects.GcloudConnectCommand
