import NcsProjects.GcloudThreads

/-!
The TLS settings of the connection. config_tls runs once, before the loop of
gcloud_thread: it copies the settings out of the client into a structure of its own
and writes the copy. The settings of the client itself nobody writes but
mqtt_client_init, and that clears them on every CONNECT. The memory of both is kept
beside the run of the threads.
-/
namespace NcsProjects.Gcloud

open TransitionRuns

/-- struct mqtt_sec_config; a null pointer is none. -/
structure SecConfig where
  peerVerify : ℤ
  cipherCount : ℕ
  cipherList : Option (List ℤ)
  secTagCount : ℕ
  secTagList : Option (List ℕ)
  hostname : Option String
  sessionCache : ℤ
  deriving DecidableEq

def SecConfig.zero : SecConfig := ⟨0, 0, none, 0, none, none, 0⟩

inductive TransportType
  | nonSecure
  | secure
  deriving DecidableEq

structure Transport where
  type : TransportType
  config : SecConfig
  deriving DecidableEq

def Transport.zero : Transport := ⟨.nonSecure, SecConfig.zero⟩

/-- The static variables client.transport and tls_config. -/
structure TlsMemory where
  transport : Transport
  tlsConfig : SecConfig
  deriving DecidableEq

/-- Static storage when the thread starts. -/
def TlsMemory.zero : TlsMemory := ⟨Transport.zero, SecConfig.zero⟩

def gcloudSecTag : ℕ := 16842752

def gcloudHostname : String := "mqtt.googleapis.com"

def secTagList : List ℕ := [gcloudSecTag]

/-- The assignment to tls_config copies the structure of the client. -/
def configTls (m : TlsMemory) : TlsMemory :=
  { m with tlsConfig := { m.transport.config with
      peerVerify := 0
      cipherList := none
      cipherCount := 0
      secTagCount := secTagList.length
      secTagList := some secTagList
      hostname := some gcloudHostname } }

/-- mqtt_client_init clears the client; the type is set when make_jwt has succeeded. -/
def clientInit (ok : Bool) (m : TlsMemory) : TlsMemory :=
  { m with transport := if ok then { Transport.zero with type := .secure } else Transport.zero }

/-- What a step writes of this memory. -/
def noteTls (s : State) (a : Act) (m : TlsMemory) : TlsMemory :=
  match a with
  | .gcloud env => if s.gcloud = .clientInit then clientInit env.ok m else m
  | _ => m

def tlsMachine : Machine (State × TlsMemory) Act :=
  machine.recorded noteTls (configTls TlsMemory.zero)

/-- The gcloud thread is about to call mqtt_connect or in the call. -/
def GcloudPc.callsConnect : GcloudPc → Bool
  | .setConnecting | .call .connect _ => true
  | _ => false

/-- client.transport.tls.config holds the security tags, the host name and the setting
of peer_verify that config_tls has set up. -/
structure TlsReaches (m : TlsMemory) : Prop where
  secTagCount : m.transport.config.secTagCount = m.tlsConfig.secTagCount
  secTagList : m.transport.config.secTagList = m.tlsConfig.secTagList
  hostname : m.transport.config.hostname = m.tlsConfig.hostname
  peerVerify : m.transport.config.peerVerify = m.tlsConfig.peerVerify

/-- The copy is written and the client's settings stay as they were cleared. -/
structure TlsInv (m : TlsMemory) : Prop where
  cleared : m.transport.config = SecConfig.zero
  copy : m.tlsConfig = (configTls TlsMemory.zero).tlsConfig

theorem tlsInv_start : TlsInv (configTls TlsMemory.zero) := ⟨rfl, rfl⟩

theorem TlsInv.clientInit {m : TlsMemory} (h : TlsInv m) (ok : Bool) :
    TlsInv (clientInit ok m) := by
  refine ⟨?_, h.copy⟩
  cases ok <;> rfl

theorem tlsInv_note (s : State) (a : Act) {m : TlsMemory} (h : TlsInv m) :
    TlsInv (noteTls s a m) := by
  cases a with
  | gcloud env =>
    simp only [noteTls]
    split
    · exact h.clientInit env.ok
    · exact h
  | start n c | app n env | mqtt env | timer | timeout t => exact h

theorem tlsInv_of_reachable {s : State × TlsMemory} (hrun : Reachable tlsMachine s) :
    TlsInv s.2 := by
  refine reachable_invariant (I := fun s => TlsInv s.2) tlsInv_start ?_ hrun
  intro s a t h hstep
  rw [(Machine.recorded_step hstep).2]
  exact tlsInv_note s.1 a h

theorem TlsInv.not_reaches {m : TlsMemory} (h : TlsInv m) : ¬ TlsReaches m := by
  intro hr
  have hcount := hr.secTagCount
  rw [h.cleared, h.copy] at hcount
  cases hcount

/-- Whenever mqtt_connect is called, the settings of config_tls are not in the client. -/
theorem tls_never_reaches (s : State × TlsMemory) (hrun : Reachable tlsMachine s) :
    s.1.gcloud.callsConnect = true → ¬ TlsReaches s.2 :=
  fun _ => (tlsInv_of_reachable hrun).not_reaches

/-- gcloud_connect, and the gcloud thread comes to mqtt_connect. -/
def firstConnect : List Act := [.start 0 .connect, .app 0 {}] ++ List.replicate 5 (.gcloud {})

theorem tls_never_reaches_first : ∃ s, Reachable tlsMachine s ∧ s.1.gcloud.callsConnect = true ∧
    s.2.transport.type = .secure ∧ ¬ TlsReaches s.2 := by
  obtain ⟨s, hrun, hs⟩ := exists_reachable_of_exec (M := tlsMachine)
    (p := fun s => s.1.gcloud.callsConnect && s.2.transport.type == .secure) firstConnect
    (by decide)
  simp only [Bool.and_eq_true, beq_iff_eq] at hs
  exact ⟨s, hrun, hs.1, hs.2, tls_never_reaches s hrun hs.1⟩

theorem tls_lost :
    ¬ ∀ s, Reachable tlsMachine s → s.1.gcloud.callsConnect = true → TlsReaches s.2 := by
  intro hall
  obtain ⟨s, hrun, hs⟩ := exists_reachable_of_exec (M := tlsMachine)
    (p := fun s => s.1.gcloud.callsConnect && s.2.transport.config.secTagCount == 0 &&
      s.2.tlsConfig.secTagCount == 1) firstConnect (by decide)
  simp only [Bool.and_eq_true, beq_iff_eq] at hs
  have hcount := (hall s hrun hs.1.1).secTagCount
  rw [hs.1.2, hs.2] at hcount
  cases hcount

end NcsProjects.Gcloud
