import NcsProjects.ByteRegions
import NcsProjects.GcloudConnectCommand

/-!
broker_init of the two applications. The addresses of getaddrinfo are a linked list, and
the loop walks it for an entry of the size of a struct sockaddr_in. Both ways through the
body end in break, though, so the loop looks at the first entry and at no other.
-/
namespace NcsProjects.BrokerLookup

open ByteRegions
open GcloudConnectCommand (Address sockaddrInSize)

abbrev Byte := BitVec 8

def afInet : BitVec 16 := 1#16
def sockStream : ℕ := 1

structure Hints where
  family : BitVec 16
  socktype : ℕ

def hints : Hints := ⟨afInet, sockStream⟩

/-- struct addrinfo without the link: the memory from `ai_addr` on and its length. -/
structure AddrInfo where
  addrlen : ℕ
  addr : Region Byte

/-- getaddrinfo(node, NULL, hints): an error, or the list in its order. -/
abbrev Resolver := String → Hints → Except ℤ (List AddrInfo)

/-- How a round of the loop ends: with the next entry, or with break. -/
inductive Round
  | next (broker : Region Byte)
  | leave (broker : Region Byte)

/-- while (addr != NULL) -/
def whileAddr (body : AddrInfo → Region Byte → Round) : List AddrInfo → Region Byte → Region Byte
  | [], broker => broker
  | addr :: rest, broker =>
    match body addr broker with
    | .next broker' => whileAddr body rest broker'
    | .leave broker' => broker'

/-- A halfword in memory, the low byte first. -/
def halfword (x : BitVec 16) : List Byte := [x.setWidth 8, (x >>> 8).setWidth 8]

def htons (x : BitVec 16) : BitVec 16 := x <<< 8 ||| x >>> 8

/-- The three assignments through broker4. -/
def setBroker (port : BitVec 16) (addr : AddrInfo) (broker : Region Byte) : Region Byte :=
  let broker := write broker 4 (slice addr.addr 4 4)
  let broker := write broker 0 (halfword afInet)
  write broker 2 (halfword (htons port))

def body (port : BitVec 16) (addr : AddrInfo) (broker : Region Byte) : Round :=
  if addr.addrlen = sockaddrInSize then .leave (setBroker port addr broker)
  -- addr = addr->ai_next, and the break behind it
  else .leave broker

/-- What a call leaves: the struct sockaddr_storage of the broker, and the lists passed to
freeaddrinfo. -/
structure Outcome where
  broker : Region Byte
  freed : List (List AddrInfo)

/-- The common text of the two functions. -/
def lookUp (hostname : String) (port : BitVec 16) (resolve : Resolver) (broker : Region Byte) :
    Outcome :=
  match resolve hostname hints with
  | .error _ => ⟨broker, []⟩
  | .ok result => ⟨whileAddr (body port) result broker, [result]⟩

namespace MqttWork

/-- CONFIG_MQTT_BROKER_HOSTNAME and CONFIG_MQTT_BROKER_PORT -/
def brokerHostname : String := "mqtt.eclipse.org"
def brokerPort : BitVec 16 := 1883#16

def brokerInit (resolve : Resolver) (broker : Region Byte) : Outcome :=
  lookUp brokerHostname brokerPort resolve broker

end MqttWork

namespace Gcloud

/-- GCLOUD_HOSTNAME and BROKER_PORT -/
def gcloudHostname : String := "mqtt.googleapis.com"
def brokerPort : BitVec 16 := 8883#16

def brokerInit (resolve : Resolver) (broker : Region Byte) : Outcome :=
  lookUp gcloudHostname brokerPort resolve broker

end Gcloud

def AddrInfo.isIpv4 (addr : AddrInfo) : Bool := addr.addrlen = sockaddrInSize

/-- The broker structure holds the address of the entry, as IPv4 address with the port; the
port lies there with its high byte first. -/
structure Names (port : BitVec 16) (addr : AddrInfo) (broker : Region Byte) : Prop where
  family : slice broker 0 2 = halfword afInet
  port : slice broker 2 2 = [(port >>> 8).setWidth 8, port.setWidth 8]
  address : slice broker 4 4 = slice addr.addr 4 4

/-- What broker_init is there for, on a list of addresses. -/
structure Finds (port : BitVec 16) (list : List AddrInfo) (before : Region Byte) (o : Outcome) :
    Prop where
  found : ∀ addr, list.find? AddrInfo.isIpv4 = some addr → Names port addr o.broker
  untouched : list.find? AddrInfo.isIpv4 = none → o.broker = before
  freed : o.freed = [list]

def LooksUp (port : BitVec 16) (result : Except ℤ (List AddrInfo)) (before : Region Byte)
    (o : Outcome) : Prop :=
  match result with
  | .error _ => o = ⟨before, []⟩
  | .ok list => Finds port list before o

/-- The first IPv4 entry of the list is its first entry, or the broker structure holds its
address from before. -/
def FirstServes (port : BitVec 16) (result : Except ℤ (List AddrInfo)) (before : Region Byte) :
    Prop :=
  ∀ list addr, result = .ok list → list.find? AddrInfo.isIpv4 = some addr →
    list.head? = some addr ∨ Names port addr before

theorem halfword_htons (x : BitVec 16) :
    halfword (htons x) = [(x >>> 8).setWidth 8, x.setWidth 8] := by
  have hlow : (htons x).setWidth 8 = (x >>> 8).setWidth 8 := by
    ext i hi
    simp [htons]
  have hhigh : (htons x >>> 8).setWidth 8 = x.setWidth 8 := by
    ext i hi
    have hinside : 8 + i < 16 := by omega
    have houtside : x.getLsbD (8 + (8 + i)) = false := BitVec.getLsbD_of_ge x _ (by omega)
    have hbit : x.getLsbD i = x[i] := BitVec.getLsbD_eq_getElem (by omega)
    simp [htons, hinside, houtside, hbit]
  rw [halfword, hlow, hhigh]

/-- The three stretches lie side by side, so each assignment keeps the others. -/
theorem names_setBroker (port : BitVec 16) (addr : AddrInfo) (broker : Region Byte) :
    Names port addr (setBroker port addr broker) := by
  unfold setBroker
  constructor
  · rw [slice_write_beside _ _ (Or.inl (Nat.le_refl 2))]
    exact slice_write _ 0 (halfword afInet)
  · rw [← halfword_htons port]
    exact slice_write _ 2 (halfword (htons port))
  · rw [slice_write_beside _ _ (Or.inr (by simp [halfword])),
      slice_write_beside _ _ (Or.inr (by simp [halfword]))]
    exact slice_write broker 4 (slice addr.addr 4 4)

/-- The loop is over with its first entry. -/
theorem whileAddr_body (port : BitVec 16) (addr : AddrInfo) (rest : List AddrInfo)
    (broker : Region Byte) : whileAddr (body port) (addr :: rest) broker =
      if addr.isIpv4 then setBroker port addr broker else broker := by
  by_cases hsize : addr.addrlen = sockaddrInSize
  · simp [whileAddr, body, AddrInfo.isIpv4, hsize]
  · simp [whileAddr, body, AddrInfo.isIpv4, hsize]

theorem finds_iff (port : BitVec 16) (list : List AddrInfo) (before : Region Byte) :
    Finds port list before ⟨whileAddr (body port) list before, [list]⟩ ↔
      ∀ addr, list.find? AddrInfo.isIpv4 = some addr →
        list.head? = some addr ∨ Names port addr before := by
  cases list with
  | nil =>
    constructor
    · rintro _ addr ⟨⟩
    · intro _
      exact ⟨by rintro addr ⟨⟩, fun _ => rfl, rfl⟩
  | cons first rest =>
    rw [whileAddr_body]
    by_cases hfirst : first.isIpv4 = true
    · have hfind : (first :: rest).find? AddrInfo.isIpv4 = some first :=
        List.find?_cons_of_pos hfirst
      rw [if_pos hfirst]
      constructor
      · intro _ addr haddr
        rw [hfind] at haddr
        exact Or.inl haddr
      · intro _
        refine ⟨?_, ?_, rfl⟩
        · intro addr haddr
          rw [hfind] at haddr
          cases haddr
          exact names_setBroker port first before
        · intro hnone
          rw [hfind] at hnone
          cases hnone
    · rw [if_neg hfirst]
      constructor
      · intro hfinds addr haddr
        exact Or.inr (hfinds.found addr haddr)
      · intro hserves
        refine ⟨?_, fun _ => rfl, rfl⟩
        intro addr haddr
        rcases hserves addr haddr with hhead | hnames
        · cases hhead
          exact absurd (List.find?_some haddr) hfirst
        · exact hnames

theorem lookUp_iff (hostname : String) (port : BitVec 16) (resolve : Resolver)
    (broker : Region Byte) :
    LooksUp port (resolve hostname hints) broker (lookUp hostname port resolve broker) ↔
      FirstServes port (resolve hostname hints) broker := by
  unfold lookUp FirstServes
  cases resolve hostname hints with
  | error err =>
    constructor
    · rintro _ list addr ⟨⟩
    · intro _
      rfl
  | ok list =>
    refine (finds_iff port list broker).trans ?_
    constructor
    · rintro h _ addr ⟨⟩ haddr
      exact h addr haddr
    · intro h addr haddr
      exact h list addr rfl haddr

/-- Each broker_init finds the first IPv4 address of the list, if there is one, exactly when
no other entry stands before it, or when the broker structure holds it already. -/
theorem brokerInit_looksUp_iff (resolve : Resolver) (broker : Region Byte) :
    (LooksUp MqttWork.brokerPort (resolve MqttWork.brokerHostname hints) broker
        (MqttWork.brokerInit resolve broker) ↔
      FirstServes MqttWork.brokerPort (resolve MqttWork.brokerHostname hints) broker) ∧
    (LooksUp Gcloud.brokerPort (resolve Gcloud.gcloudHostname hints) broker
        (Gcloud.brokerInit resolve broker) ↔
      FirstServes Gcloud.brokerPort (resolve Gcloud.gcloudHostname hints) broker) :=
  ⟨lookUp_iff _ _ resolve broker, lookUp_iff _ _ resolve broker⟩

/-- An IPv6 address before the IPv4 address 1.2.3.4. -/
def ipv6First : List AddrInfo :=
  [⟨24, fun _ => 0#8⟩, ⟨sockaddrInSize, fun i => BitVec.ofNat 8 (i - 3)⟩]

theorem not_finds_ipv6First (port : BitVec 16) :
    ¬ Finds port ipv6First (fun _ => 0#8) ⟨fun _ => 0#8, [ipv6First]⟩ := by
  intro hfinds
  have haddress := (hfinds.found _ rfl).address
  revert haddress
  decide

theorem second_entry_missed :
    (¬ ∀ resolve broker, LooksUp MqttWork.brokerPort (resolve MqttWork.brokerHostname hints)
      broker (MqttWork.brokerInit resolve broker)) ∧
    ¬ ∀ resolve broker, LooksUp Gcloud.brokerPort (resolve Gcloud.gcloudHostname hints)
      broker (Gcloud.brokerInit resolve broker) := by
  constructor
  · intro hall
    exact not_finds_ipv6First _ (hall (fun _ _ => .ok ipv6First) (fun _ => 0#8))
  · intro hall
    exact not_finds_ipv6First _ (hall (fun _ _ => .ok ipv6First) (fun _ => 0#8))

section Command

/-- sin_addr.s_addr of a struct sockaddr_in, a word in memory. -/
def sAddr (m : Region Byte) : Address := m 7 ++ m 6 ++ m 5 ++ m 4

theorem sAddr_congr {m m' : Region Byte} (h : slice m 4 4 = slice m' 4 4) : sAddr m = sAddr m' := by
  have hbytes : [m 4, m 5, m 6, m 7] = [m' 4, m' 5, m' 6, m' 7] := h
  simp only [List.cons.injEq] at hbytes
  obtain ⟨h₄, h₅, h₆, h₇, _⟩ := hbytes
  rw [sAddr, sAddr, h₄, h₅, h₆, h₇]

def AddrInfo.entry (addr : AddrInfo) : GcloudConnectCommand.AddrInfo :=
  ⟨addr.addrlen, sAddr addr.addr⟩

/-- On the addresses alone the function is the broker_init of the CONNECT command. -/
theorem brokerInit_command (o : GcloudConnectCommand.Outcomes) (resolve : Resolver)
    (broker : Region Byte)
    (h : o.getaddrinfo = (resolve Gcloud.gcloudHostname hints).map (List.map AddrInfo.entry)) :
    GcloudConnectCommand.brokerInit o (some (sAddr broker)) =
      some (sAddr (Gcloud.brokerInit resolve broker).broker) := by
  unfold GcloudConnectCommand.brokerInit
  rw [h, Gcloud.brokerInit, lookUp]
  cases resolve Gcloud.gcloudHostname hints with
  | error err => rfl
  | ok list =>
    cases list with
    | nil => rfl
    | cons first rest =>
      simp only [Except.map, List.map_cons, AddrInfo.entry, whileAddr_body]
      by_cases hsize : first.addrlen = sockaddrInSize
      · have hnames := names_setBroker Gcloud.brokerPort first broker
        simp [AddrInfo.isIpv4, hsize, sAddr_congr hnames.address]
      · simp [AddrInfo.isIpv4, hsize]

end Command

end NcsProjects.BrokerLookup
