import NcsProjects.MqttReceive

/-!
Why a connection to the broker ends. A call keeps it, or ends it for a cause that shows in
the stream, in an answer of the socket, in an event or in what the application calls. The
result of the DISCONNECT event tells this cause.
-/
namespace NcsProjects.MqttReceive

open ByteRegions CStrings MqttPackets MqttDecode StreamFraming WireFormats
open PublishPayload (Recv)

/-- Why a call that leads from `c` to `c'` ends the connection, and with which result. -/
inductive Cause (rxBufSize : ℕ) (wire : List Byte) (c c' : Client) : Call → ℤ → Prop
  | application (result : ℤ) : Cause _ _ _ _ (.disconnect result) result
  | socket {answers : List Recv} {a : Recv} {err : ℤ} (among : a ∈ answers)
      (failed : failure a = some err) (stale : ℕ) : Cause _ _ _ _ (.input answers stale) err
  | tooLong {consumed start : List Byte} (sent : wire = consumed ++ c'.wire)
      (standing : (framing.feed Framing.fresh consumed).1 = ⟨start, 0⟩)
      (long : rxBufSize < start.length + need start) (answers : List Recv) (stale : ℕ) :
      Cause _ _ _ _ (.input answers stale) enomem
  | malformed {consumed packet : List Byte} {items : List (Item Byte)} {err : ℤ}
      (sent : wire = consumed ++ c'.wire)
      (framed : (framing.feed Framing.fresh consumed).2 = items ++ [.frame packet])
      (wrong : headerOf packet = .error err) (answers : List Recv) (stale : ℕ) :
      Cause _ _ _ _ (.input answers stale) err
  | refused {log : List Delivery} {e : Event} {stray : List Byte}
      (delivered : c.log = log ++ .event e :: stray.map .payload) (neg : e.err < 0) :
      Cause _ _ _ _ .handled e.err
  | payload {answer : Option Recv} {a : Recv} {err : ℤ} (answered : a ∈ answer)
      (failed : failure a = some err) (block : Bool) (length : ℕ) :
      Cause _ _ _ _ (.read block answer length) err
  | noBytes (block : Bool) (answer : Option Recv) : Cause _ _ _ _ (.read block answer 0) enotconn

/-- The connection is as it was. -/
def Keeps (c c' : Client) : Prop :=
  c'.tcpConnected = c.tcpConnected ∧ c'.disconnects = c.disconnects

/-- The connection is closed, and the DISCONNECT event has this result. -/
def Ends (c c' : Client) (result : ℤ) : Prop :=
  c'.tcpConnected = false ∧ c'.disconnects = c.disconnects ++ [result]

/-- While an event is handled, it is the last one that was delivered. -/
def Noted (c : Client) : Prop :=
  ∀ err ∈ c.handling, ∃ (log : List Delivery) (e : Event) (stray : List Byte),
    c.log = log ++ .event e :: stray.map .payload ∧ e.err = err

variable {rxBufSize : ℕ} {protocolVersion : Byte} {wire : List Byte} {c : Client}

theorem noted_of_idle (h : c.handling = none) : Noted c := by
  intro err herr
  rw [h] at herr
  cases herr

theorem noted_input (hsize : rxBufSize < 2 ^ 32) (h : Stage rxBufSize protocolVersion wire c)
    (hidle : c.handling = none) (answers : List Recv) (stale : ℕ) :
    Noted (mqttInput rxBufSize protocolVersion answers stale c) := by
  rcases h.input hsize hidle answers stale with
    hsame | ⟨_, r, bytes, -, -, -, hprogress, houtcome⟩
  · rw [hsame]
    exact noted_of_idle hidle
  · have hnone : r.client.handling = none := by rw [hprogress.frame, hidle]
    generalize mqttInput rxBufSize protocolVersion answers stale c = c' at houtcome ⊢
    cases houtcome with
    | waits | lost | ignored => exact noted_of_idle hnone
    | noted h e =>
      rintro err ⟨⟩
      exact ⟨_, e, [], rfl, rfl⟩

theorem noted_step (hsize : rxBufSize < 2 ^ 32) (h : Stage rxBufSize protocolVersion wire c)
    (hnoted : Noted c) (call : Call) : Noted (step rxBufSize protocolVersion c call) := by
  cases call with
  | input answers stale =>
    simp only [step]
    cases hhandling : c.handling with
    | some err => exact hnoted
    | none => exact noted_input hsize h hhandling answers stale
  | handled =>
    apply noted_of_idle
    simp only [step, handled]
    split
    · assumption
    · split <;> rfl
  | read block answer length =>
    simp only [step]
    rcases readPublishPayload_cases block answer length c with
      hsame | ⟨e, -, hlost⟩ | ⟨bytes, -, -, -, hread⟩
    · rw [hsame]
      exact hnoted
    · rw [hlost]
      exact hnoted
    · rw [hread]
      intro err herr
      obtain ⟨log, e, stray, hlog, hresult⟩ := hnoted err herr
      refine ⟨log, e, stray ++ bytes, ?_, hresult⟩
      simp [hlog]
  | disconnect result => exact hnoted

theorem noted_run (hsize : rxBufSize < 2 ^ 32) (calls : List Call)
    (h : Stage rxBufSize protocolVersion wire c) (hnoted : Noted c) :
    Noted (run rxBufSize protocolVersion calls c) := by
  induction calls generalizing c with
  | nil => exact hnoted
  | cons call calls ih => exact ih (stage_step hsize h call) (noted_step hsize h hnoted call)

/-- A call of mqtt_input ends the connection when the socket does, for want of room, or at a
header that is wrong. -/
theorem cause_input (hsize : rxBufSize < 2 ^ 32) (h : Stage rxBufSize protocolVersion wire c)
    (hidle : c.handling = none) (answers : List Recv) (stale : ℕ) :
    let c' := mqttInput rxBufSize protocolVersion answers stale c
    Keeps c c' ∨ ∃ err, Ends c c' err ∧ Cause rxBufSize wire c c' (.input answers stale) err := by
  dsimp only
  rcases h.input hsize hidle answers stale with
    hsame | ⟨consumed, r, bytes, sent, standing, live, hprogress, houtcome⟩
  · rw [hsame]
    exact Or.inl ⟨rfl, rfl⟩
  · have hlive : r.client.tcpConnected = c.tcpConnected := by rw [hprogress.frame]
    have hkept : r.client.disconnects = c.disconnects := by rw [hprogress.frame]
    have hsent : wire = consumed ++ bytes ++ r.client.wire := by
      rw [List.append_assoc, ← hprogress.wire]
      exact sent
    have hfed := progress_feed hprogress standing
    have hends (e : ℤ) : Ends c (clientDisconnect e r.client) e :=
      ⟨rfl, congrArg (fun results => results ++ [e]) hkept⟩
    generalize mqttInput rxBufSize protocolVersion answers stale c = c' at houtcome ⊢
    cases houtcome with
    | waits | ignored => exact Or.inl ⟨hlive, hkept⟩
    | noted h e =>
      obtain ⟨connected, remaining, unackedPing, habsorb⟩ := absorb_frame e stale r.client
      rw [habsorb]
      exact Or.inl ⟨hlive, hkept⟩
    | lost e cause =>
      have hsent' : wire = consumed ++ bytes ++ (clientDisconnect e r.client).wire := hsent
      refine Or.inr ⟨e, hends e, ?_⟩
      rcases cause with ⟨more, hne, failed⟩ | ⟨whole, wrong⟩
      · cases failed with
        | waits => exact absurd rfl hne
        | noRoom long =>
          have hstanding : (framing.feed Framing.fresh (consumed ++ bytes)).1 = ⟨r.start, 0⟩ := by
            rw [hfed, if_neg more]
          rw [← start_length r] at long
          exact .tooLong hsent' hstanding long answers stale
        | socket among failed => exact .socket among failed stale
      · have hframed : (framing.feed Framing.fresh (consumed ++ bytes)).2 =
            (framing.feed Framing.fresh consumed).2 ++ [.frame r.start] := by
          rw [hfed, if_pos whole]
        exact .malformed hsent' hframed wrong answers stale

/-- One call: the connection stays as it is, or ends for a cause. -/
theorem cause_step (hsize : rxBufSize < 2 ^ 32) (h : Stage rxBufSize protocolVersion wire c)
    (hnoted : Noted c) (call : Call) :
    let c' := step rxBufSize protocolVersion c call
    Keeps c c' ∨ ∃ err, Ends c c' err ∧ Cause rxBufSize wire c c' call err := by
  cases call with
  | input answers stale =>
    simp only [step]
    cases hhandling : c.handling with
    | some err => exact Or.inl ⟨rfl, rfl⟩
    | none => exact cause_input hsize h hhandling answers stale
  | handled =>
    simp only [step, handled]
    cases hhandling : c.handling with
    | none => exact Or.inl ⟨rfl, rfl⟩
    | some err =>
      simp only
      by_cases hneg : err < 0
      · obtain ⟨log, e, stray, hlog, rfl⟩ := hnoted err hhandling
        rw [if_pos hneg]
        exact Or.inr ⟨e.err, ⟨rfl, rfl⟩, .refused hlog hneg⟩
      · rw [if_neg hneg]
        exact Or.inl ⟨rfl, rfl⟩
  | read block answer length =>
    simp only [step]
    rcases readPublishPayload_cases block answer length c with
      hsame | ⟨e, hwhy, hlost⟩ | ⟨bytes, -, -, -, hread⟩
    · rw [hsame]
      exact Or.inl ⟨rfl, rfl⟩
    · rw [hlost]
      refine Or.inr ⟨e, ⟨rfl, rfl⟩, ?_⟩
      rcases hwhy with ⟨a, answered, failed⟩ | ⟨rfl, rfl⟩
      · exact .payload answered failed block length
      · exact .noBytes block answer
    · rw [hread]
      exact Or.inl ⟨rfl, rfl⟩
  | disconnect result => exact Or.inr ⟨result, ⟨rfl, rfl⟩, .application result⟩

end NcsProjects.MqttReceive
