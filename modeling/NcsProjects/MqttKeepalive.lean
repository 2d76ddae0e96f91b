import Mathlib.Algebra.Ring.Nat
import NcsProjects.MqttSessions

/-!
The loop of mqtt_thread_func, and of main in mqtt_work: poll waits no longer than
mqtt_keepalive_time_left says, and mqtt_live follows it. Other threads may publish and
subscribe meanwhile. The time of the last packet is kept in 32 bits, in milliseconds, and
wraps. As long as the loop runs, and comes around in time, the broker never waits for a
packet longer than the interval of the CONNECT and what the loop itself takes.
-/
namespace NcsProjects.MqttKeepalive

open CStrings MqttBroker MqttPackets MqttSessions

/-- The loop calls poll, or something is done to the client. -/
inductive Event
  | poll
  | act (a : Action)

/-- The actions of a run, without the calls of poll. -/
def acts : List (ℕ × Event) → List (ℕ × Action)
  | [] => []
  | (_, .poll) :: events => acts events
  | (time, .act a) :: events => (time, a) :: acts events

section

variable (txBufSize busy late : ℕ)

/-- A run of one connection, from `clock` to `now`. The loop calls poll and mqtt_live in
turn, the next one of them until `due`. It takes up to `busy` after mqtt_live, and wakes
up to `late` after the limit of poll. It is left when mqtt_live fails. -/
def Punctual (now : ℕ) : ℕ → ℕ → Bool → List (ℕ × Event) → State → Prop
  | clock, due, _, [], _ => clock ≤ now ∧ now ≤ due
  | clock, due, polling, (time, event) :: events, s =>
    clock ≤ time ∧ time ≤ due ∧
      match event with
      | .poll =>
        polling = false ∧
          Punctual now time (time + (mqttKeepaliveTimeLeft time s).toNat + late) true events s
      | .act (.live answers) =>
        polling = true ∧ ((mqttLive txBufSize time answers s).1 = 0 ∨
          (mqttLive txBufSize time answers s).1 = eagain) ∧
          Punctual now time (time + busy) false events (step txBufSize time s (.live answers))
      | .act (.connect _ _ _) => False
      | .act a =>
        Permitted s a ∧ Punctual now time due polling events (step txBufSize time s a)

end

/-- How many bytes the connections have carried. -/
def carried (s : State) : ℕ := (s.conns.map fun k => k.request.length + k.session.length).sum

/-- The time of the last action of a run that put bytes on a connection, `t` if none did. -/
def lastPacket (txBufSize : ℕ) : ℕ → List (ℕ × Action) → State → ℕ
  | t, [], _ => t
  | t, (time, a) :: actions, s =>
    let s' := step txBufSize time s a
    lastPacket txBufSize (if carried s' = carried s then t else time) actions s'

theorem elapsed_eq {now t : ℕ} (hpast : t ≤ now) (hlt : now - t < 2 ^ 31) :
    mqttElapsedTime now (BitVec.ofNat 32 t) = now - t := by
  obtain ⟨d, rfl⟩ : ∃ d, now = t + d := ⟨now - t, by omega⟩
  rw [Nat.add_sub_cancel_left] at hlt ⊢
  have hdiff : BitVec.ofNat 32 (t + d) - BitVec.ofNat 32 t = BitVec.ofNat 32 d := by
    rw [BitVec.ofNat_add, BitVec.add_comm, BitVec.add_sub_cancel]
  rw [mqttElapsedTime, hdiff, BitVec.toInt_ofNat', Int.bmod_def]
  omega

/-- The connection is gone, or something was written on it, and the time is kept. -/
inductive Active (now : ℕ) (s s' : State) : Prop
  | gone (down : s'.tcpConnected = false)
  | wrote (grown : carried s' ≠ carried s) (activity : s'.lastActivity = BitVec.ofNat 32 now)
      (settings : s'.settings = s.settings)

/-- What an action of a session does to what is kept of the last packet. -/
inductive Effect (now : ℕ) (s s' : State) : Prop
  | silent (same : carried s' = carried s) (activity : s'.lastActivity = s.lastActivity)
      (settings : s'.settings = s.settings)
  | active (h : Active now s s')

theorem Effect.refl (now : ℕ) (s : State) : Effect now s s := .silent rfl rfl rfl

theorem carried_put (bytes : List Byte) {s : State} (h : s.conns ≠ []) :
    carried (s.put bytes) = carried s + bytes.length := by
  cases hconns : s.conns with
  | nil => exact absurd hconns h
  | cons k rest =>
    have hput : (k.put bytes).request.length + (k.put bytes).session.length =
        k.request.length + k.session.length + bytes.length := by
      unfold Conn.put
      split
      · simp only [List.length_append]
        omega
      · simp only [List.length_append]
        omega
    simp only [carried, State.put, hconns, List.modifyHead_cons, List.map_cons, List.sum_cons,
      hput]
    omega

theorem conns_ne_nil {txBufSize : ℕ} {s : State} (h : Phase txBufSize s)
    (hup : s.tcpConnected = true) : s.conns ≠ [] := by
  cases h with
  | idle down =>
    rw [down] at hup
    cases hup
  | waiting request rest conns => simp [conns]
  | talking request calls rest conns => simp [conns]

theorem out_of_down {txBufSize : ℕ} {s : State} (h : Phase txBufSize s)
    (hdown : s.tcpConnected = false) : s.connected = false := by
  cases h with
  | idle _ out => exact out
  | waiting _ _ _ _ _ up =>
    rw [hdown] at up
    cases up
  | talking _ _ _ _ _ _ _ up =>
    rw [hdown] at up
    cases up

theorem bytes_ne_nil (c : Call) : c.bytes ≠ [] := by
  simp [Call.bytes, fixedHeader]

theorem active_write (now : ℕ) {s : State} (hconns : s.conns ≠ []) {data : List Byte}
    (hdata : data ≠ []) {r : ℤ × List Byte} (hwrote : Wrote data r) :
    Active now s (afterWrite now r s).2 := by
  unfold afterWrite
  rcases hwrote.result with ⟨hzero, hall⟩ | ⟨hneg, -⟩
  · rw [if_neg (by rw [hzero]; decide)]
    refine .wrote ?_ rfl rfl
    have hput := carried_put r.2 hconns
    have hlen := List.length_pos_iff.mpr hdata
    rw [hall] at hput ⊢
    change carried (s.put data) ≠ carried s
    omega
  · rw [if_pos hneg]
    exact .gone rfl

section

variable {txBufSize : ℕ} (hsize : fixedHeaderMaxSize ≤ txBufSize) (hlt : txBufSize ≤ 2 ^ 16)
include hsize hlt

theorem effect_packet {s : State} (hconns : s.conns ≠ []) (now : ℕ) (answers : List Sendto)
    {c : Call} (hvalid : c.Valid) (hpayload : c.payload = []) :
    Effect now s (writePacket txBufSize now answers c.encode s).2 := by
  unfold writePacket
  split
  · exact .refl now s
  · cases hwritten : written c.encode txBufSize with
    | error e => exact .refl now s
    | ok packet =>
      obtain ⟨hbytes, -⟩ := sent_of_written hsize hlt hvalid hwritten
      rw [hpayload, List.append_nil] at hbytes
      rw [hbytes]
      exact .active <| active_write now hconns (bytes_ne_nil c) (tlsWrite_wrote answers c.bytes)

theorem effect_publish {s : State} (hconns : s.conns ≠ []) (now : ℕ) (answers : List Sendto)
    {p : PublishParam} {payload : List Byte} (hvalid : (Call.publish p payload).Valid) :
    Effect now s (mqttPublish txBufSize now answers p payload s).2 := by
  unfold mqttPublish
  split
  · exact .refl now s
  · cases hwritten : written (publishEncode { p with payloadLen := payload.length }) txBufSize with
    | error e => exact .refl now s
    | ok packet =>
      obtain ⟨hbytes, -⟩ := sent_of_written hsize hlt (c := .publish p payload) hvalid hwritten
      have hflatten : [packet, payload].flatten = (Call.publish p payload).bytes := by
        rw [← hbytes]
        simp [Call.payload]
      have hwrote := tlsWriteMsg_wrote answers [packet, payload]
      rw [hflatten] at hwrote
      exact .active <| active_write now hconns (bytes_ne_nil _) hwrote

/-- A ping of a client in a session is written, or the connection is lost over it. -/
theorem active_ping {s : State} (hconns : s.conns ≠ []) (hconnected : s.connected = true)
    (now : ℕ) (answers : List Sendto) : Active now s (mqttPing txBufSize now answers s).2 := by
  have hwritten : written pingRequestEncode txBufSize = .ok [0xc0#8, 0x00#8] := by
    have hpacket := written_packPacket (by omega : txBufSize < 2 ^ 32) [0xc0#8, 0x00#8]
    unfold fixedHeaderMaxSize at hsize
    rw [if_neg (by simp only [List.length_cons, List.length_nil]; omega)] at hpacket
    exact hpacket
  have hactive := active_write now hconns (by rintro ⟨⟩)
    (tlsWrite_wrote answers [0xc0#8, 0x00#8])
  unfold mqttPing
  rw [hconnected, hwritten]
  simp only [Bool.not_true, Bool.false_eq_true, if_false]
  split
  · exact hactive
  · cases hactive with
    | gone down => exact .gone down
    | wrote grown activity settings => exact .wrote grown activity settings

theorem effect_ping {s : State} (hconns : s.conns ≠ []) (now : ℕ) (answers : List Sendto) :
    Effect now s (mqttPing txBufSize now answers s).2 := by
  by_cases hconnected : s.connected = true
  · exact .active (active_ping hsize hlt hconns hconnected now answers)
  · rw [mqttPing, eq_false_of_ne_true hconnected]
    exact .refl now s

theorem effect_live {s : State} (hconns : s.conns ≠ []) (now : ℕ) (answers : List Sendto) :
    Effect now s (mqttLive txBufSize now answers s).2 := by
  unfold mqttLive
  split
  · exact effect_ping hsize hlt hconns now answers
  · exact .refl now s

theorem effect_disconnect {s : State} (hconns : s.conns ≠ []) (now : ℕ)
    (answers : List Sendto) : Effect now s (mqttDisconnect txBufSize now answers s).2 := by
  have hpacket := effect_packet hsize hlt hconns now answers
    (⟨by decide, trivial⟩ : Call.disconnect.Valid) rfl
  rw [mqttDisconnect]
  split
  · exact hpacket
  · exact .active (.gone rfl)

/-- What an action of a session writes is what the client keeps the time of. -/
theorem effect_step {s : State} (hconns : s.conns ≠ []) (now : ℕ) {a : Action}
    (ha : Permitted s a) (hsession : ∀ unreachable answers settings,
      a ≠ .connect unreachable answers settings) :
    Effect now s (step txBufSize now s a) := by
  cases a with
  | connect unreachable answers settings => exact absurd rfl (hsession _ _ _)
  | publish answers p payload => exact effect_publish hsize hlt hconns now answers ha
  | puback answers messageId =>
    exact effect_packet hsize hlt hconns now answers (c := .puback messageId)
      ⟨by simp [Call.length, Call.body, Call.payload], trivial⟩ rfl
  | pubrel answers messageId =>
    exact effect_packet hsize hlt hconns now answers (c := .pubrel messageId)
      ⟨by simp [Call.length, Call.body, Call.payload], trivial⟩ rfl
  | subscribe answers messageId list => exact effect_packet hsize hlt hconns now answers ha rfl
  | ping answers => exact effect_ping hsize hlt hconns now answers
  | live answers => exact effect_live hsize hlt hconns now answers
  | disconnect answers => exact effect_disconnect hsize hlt hconns now answers
  | connack =>
    simp only [step]
    split
    · refine .silent ?_ rfl rfl
      cases hlist : s.conns with
      | nil => exact absurd hlist hconns
      | cons k rest => simp only [carried, hlist, List.modifyHead_cons, List.map_cons, Conn.accept]
    · exact .refl now s
  | pingresp =>
    simp only [step]
    split
    · exact .silent rfl rfl rfl
    · exact .refl now s
  | lost =>
    simp only [step]
    split
    · exact .active (.gone rfl)
    · exact .refl now s

end

/-- Without mqtt_connect, a connection that is gone does not come back. -/
theorem step_down (txBufSize now : ℕ) {s : State} (hdown : s.tcpConnected = false)
    (hout : s.connected = false) {a : Action} (hsession : ∀ unreachable answers settings,
      a ≠ .connect unreachable answers settings) :
    (step txBufSize now s a).tcpConnected = false := by
  cases a with
  | connect unreachable answers settings => exact absurd rfl (hsession _ _ _)
  | live answers =>
    simp only [step, mqttLive, mqttPing, hout]
    split
    · exact hdown
    · exact hdown
  | disconnect answers =>
    simp only [step, mqttDisconnect, writePacket, hout]
    exact hdown
  | _ => simp [step, mqttPublish, mqttPublishQos1Ack, mqttPublishQos2Release, mqttSubscribe,
      mqttPing, writePacket, hout, hdown]

/-- How far the loop is behind the last packet, at `t`. -/
structure Paced (interval busy late clock due : ℕ) (polling : Bool) (t : ℕ) (s : State) : Prop where
  settings : 1000 * s.settings.keepalive.toNat = interval
  activity : s.lastActivity = BitVec.ofNat 32 t
  past : t ≤ clock
  due : due ≤ t + interval + busy + if polling then late else 0

section

variable {interval busy late clock due t time : ℕ} {polling : Bool} {s s' : State}

theorem Paced.effect (h : Paced interval busy late clock due polling t s) (hclock : clock ≤ time)
    (heffect : Effect time s s') : s'.tcpConnected = false ∨
      Paced interval busy late time due polling (if carried s' = carried s then t else time)
        s' := by
  have hpast := h.past
  have hdue := h.due
  cases heffect with
  | silent same activity settings =>
    rw [if_pos same]
    exact Or.inr ⟨by rw [settings, h.settings], activity.trans h.activity, by omega, hdue⟩
  | active hactive =>
    cases hactive with
    | gone down => exact Or.inl down
    | wrote grown activity settings =>
      rw [if_neg grown]
      exact Or.inr ⟨by rw [settings, h.settings], activity, Nat.le_refl _, by omega⟩

/-- The loop waits for the rest of the interval at most. -/
theorem Paced.poll (h : Paced interval busy late clock due false t s) (hpos : 0 < interval)
    (hshort : interval + busy + late < 2 ^ 31) (hclock : clock ≤ time) (htime : time ≤ due) :
    Paced interval busy late time (time + (mqttKeepaliveTimeLeft time s).toNat + late) true t
      s := by
  have hpast := h.past
  have hdue := h.due
  simp only [Bool.false_eq_true, if_false] at hdue
  refine ⟨h.settings, h.activity, by omega, ?_⟩
  have hkeep : ¬ s.settings.keepalive = 0#16 := by
    intro hzero
    have hinterval := h.settings
    rw [hzero] at hinterval
    simp only [BitVec.toNat_ofNat, Nat.zero_mod] at hinterval
    omega
  have helapsed := elapsed_eq (by omega : t ≤ time) (by omega)
  simp only [mqttKeepaliveTimeLeft, h.activity, helapsed, h.settings, if_neg hkeep, if_true]
  split
  · rw [Int.toNat_zero]
    omega
  · omega

/-- When the interval is over, the loop sends a ping. -/
theorem Paced.live {txBufSize : ℕ} (hsize : fixedHeaderMaxSize ≤ txBufSize)
    (hlt : txBufSize ≤ 2 ^ 16) (h : Paced interval busy late clock due true t s)
    (hpos : 0 < interval) (hshort : interval + busy + late < 2 ^ 31) (hclock : clock ≤ time)
    (htime : time ≤ due) (hconns : s.conns ≠ []) (answers : List Sendto)
    (hresult : (mqttLive txBufSize time answers s).1 = 0 ∨
      (mqttLive txBufSize time answers s).1 = eagain) :
    let s' := step txBufSize time s (.live answers)
    s'.tcpConnected = false ∨ Paced interval busy late time (time + busy) false
      (if carried s' = carried s then t else time) s' := by
  intro s'
  have hpast := h.past
  have hdue := h.due
  simp only [if_true] at hdue
  have helapsed := elapsed_eq (by omega : t ≤ time) (by omega)
  by_cases hidle : interval ≤ time - t
  · have hlive : mqttLive txBufSize time answers s = mqttPing txBufSize time answers s := by
      have hkeep : 0#16 < s.settings.keepalive := by
        have hinterval := h.settings
        rw [BitVec.lt_def]
        simp only [BitVec.toNat_ofNat, Nat.zero_mod]
        omega
      have hover : s.settings.keepalive.toNat * 1000 ≤ time - t := by
        rw [Nat.mul_comm, h.settings]
        exact hidle
      rw [mqttLive, h.activity, helapsed, if_pos ⟨hkeep, hover⟩]
    have hconnected : s.connected = true := by
      by_contra hout
      rw [hlive, mqttPing, eq_false_of_ne_true hout] at hresult
      rcases hresult with hresult | hresult
      · cases hresult
      · cases hresult
    have hactive : Active time s s' := by
      have hping := active_ping hsize hlt hconns hconnected time answers
      rw [← hlive] at hping
      exact hping
    cases hactive with
    | gone down => exact Or.inl down
    | wrote grown activity settings =>
      rw [if_neg grown]
      refine Or.inr ⟨by rw [settings, h.settings], activity, Nat.le_refl _, ?_⟩
      simp only [Bool.false_eq_true, if_false]
      omega
  · have hsame : s' = s := by
      have hearly : ¬ (0#16 < s.settings.keepalive ∧
          s.settings.keepalive.toNat * 1000 ≤ mqttElapsedTime time s.lastActivity) := by
        rw [h.activity, helapsed, Nat.mul_comm, h.settings]
        exact fun hboth => hidle hboth.2
      simp only [s', step, mqttLive, if_neg hearly]
    rw [hsame, if_pos rfl]
    refine Or.inr ⟨h.settings, h.activity, by omega, ?_⟩
    simp only [Bool.false_eq_true, if_false]
    omega

end

/-- From a loop that is on time, to the end of the run. -/
theorem punctual_run {txBufSize interval busy late now : ℕ} (hsize : fixedHeaderMaxSize ≤ txBufSize)
    (hlt : txBufSize ≤ 2 ^ 16) (hpos : 0 < interval) (hshort : interval + busy + late < 2 ^ 31)
    (events : List (ℕ × Event)) {clock due t : ℕ} {polling : Bool} {s : State}
    (hphase : Phase txBufSize s)
    (hpaced : s.tcpConnected = false ∨ Paced interval busy late clock due polling t s)
    (h : Punctual txBufSize busy late now clock due polling events s)
    (hup : (run txBufSize (acts events) s).tcpConnected = true) :
    now ≤ lastPacket txBufSize t (acts events) s + interval + busy + late := by
  induction events generalizing clock due t polling s with
  | nil =>
    rcases hpaced with hdown | hpaced
    · rw [acts, run, List.foldl_nil, hdown] at hup
      cases hup
    · have hdue := hpaced.due
      obtain ⟨-, hnow⟩ := h
      have hlate : (if polling then late else 0) ≤ late := by
        split
        · exact Nat.le_refl _
        · exact Nat.zero_le _
      rw [acts, lastPacket]
      omega
  | cons e events ih =>
    obtain ⟨time, event⟩ := e
    obtain ⟨hclock, htime, h⟩ := h
    cases event with
    | poll =>
      obtain ⟨rfl, h⟩ := h
      refine ih hphase ?_ h hup
      exact hpaced.imp_right fun hpaced => hpaced.poll hpos hshort hclock htime
    | act a =>
      have hnext : ∀ {due' : ℕ} {polling' : Bool} (a : Action), Permitted s a →
          (∀ unreachable answers settings, a ≠ .connect unreachable answers settings) →
          Punctual txBufSize busy late now time due' polling' events (step txBufSize time s a) →
          (s.tcpConnected = true → Paced interval busy late clock due polling t s →
            (step txBufSize time s a).tcpConnected = false ∨
            Paced interval busy late time due' polling'
              (if carried (step txBufSize time s a) = carried s then t else time)
              (step txBufSize time s a)) →
          (run txBufSize (acts events) (step txBufSize time s a)).tcpConnected = true →
          now ≤ lastPacket txBufSize t ((time, a) :: acts events) s + interval + busy + late := by
        intro due' polling' a ha hsession h hstep hup
        refine ih (phase_step hsize hlt hphase time ha) ?_ h hup
        by_cases hdown : s.tcpConnected = false
        · exact Or.inl (step_down txBufSize time hdown (out_of_down hphase hdown) hsession)
        · exact hstep (eq_true_of_ne_false hdown) (hpaced.resolve_left hdown)
      have heffect : ∀ a, Permitted s a →
          (∀ unreachable answers settings, a ≠ .connect unreachable answers settings) →
          Punctual txBufSize busy late now time due polling events (step txBufSize time s a) →
          (run txBufSize (acts events) (step txBufSize time s a)).tcpConnected = true →
          now ≤ lastPacket txBufSize t ((time, a) :: acts events) s + interval + busy + late := by
        intro a ha hsession h hup
        refine hnext a ha hsession h (fun hlive hpaced => ?_) hup
        exact hpaced.effect hclock
          (effect_step hsize hlt (conns_ne_nil hphase hlive) time ha hsession)
      cases a with
      | connect => exact h.elim
      | live answers =>
        obtain ⟨rfl, hresult, h⟩ := h
        refine hnext (.live answers) trivial (by rintro _ _ _ ⟨⟩) h (fun hlive hpaced => ?_) hup
        exact hpaced.live hsize hlt hpos hshort hclock htime (conns_ne_nil hphase hlive) answers
          hresult
      | _ => exact heffect _ h.1 (by rintro _ _ _ ⟨⟩) h.2 hup

/-- The loop starts when the CONNECT is sent. -/
theorem paced_connect (txBufSize busy late t : ℕ) (answers : List Sendto) (settings : Client)
    (s : State) :
    let s' := (mqttConnect txBufSize t none answers settings s).2
    s'.tcpConnected = false ∨
      Paced (1000 * settings.keepalive.toNat) busy late t (t + busy) false t s' := by
  simp only [mqttConnect]
  cases written (connectRequestEncode settings) txBufSize with
  | error e => exact Or.inl rfl
  | ok packet =>
    simp only
    split
    · exact Or.inl rfl
    · refine Or.inr ⟨rfl, rfl, Nat.le_refl _, ?_⟩
      simp only [Bool.false_eq_true, if_false]
      omega

/-- From the CONNECT of any session on, as long as the connection is up, the last packet is
not older than the interval that the CONNECT gives and the time the loop takes. -/
theorem run_never_silent {txBufSize busy late now t : ℕ} (hsize : fixedHeaderMaxSize ≤ txBufSize)
    (hlt : txBufSize ≤ 2 ^ 16) (first settings : Client) (actions : List (ℕ × Action))
    (answers : List Sendto) (events : List (ℕ × Event))
    (hactions : Disciplined txBufSize actions (.initial first))
    (hdown : (run txBufSize actions (.initial first)).tcpConnected = false)
    (hvalid : (Call.connect settings).Valid) (hkeep : settings.keepalive ≠ 0#16)
    (hshort : 1000 * settings.keepalive.toNat + busy + late < 2 ^ 31) :
    let s := run txBufSize actions (.initial first)
    let s' := (mqttConnect txBufSize t none answers settings s).2
    Punctual txBufSize busy late now t (t + busy) false events s' →
    (run txBufSize (acts events) s').tcpConnected = true →
    now ≤ lastPacket txBufSize t (acts events) s' + 1000 * settings.keepalive.toNat + busy +
      late := by
  intro s s' h hup
  have hphase : Phase txBufSize s' := phase_connect hsize hlt
    (phase_run hsize hlt actions (phase_initial txBufSize first) hactions) hdown t none answers
    hvalid
  have hpos : 0 < 1000 * settings.keepalive.toNat := by
    have hne : settings.keepalive.toNat ≠ 0 := by
      intro hzero
      exact hkeep (BitVec.eq_of_toNat_eq hzero)
    omega
  exact punctual_run hsize hlt hpos hshort events hphase
    (paced_connect txBufSize busy late t answers settings s) h hup

/-- A client that has nothing to say. -/
def quiet : Client := ⟨version311, true, 1#16, [103#8], none, none, false, none, none⟩

def quietSecond : List (ℕ × Event) :=
  [(1, .poll), (80, .act (.live [])), (81, .act .connack), (82, .poll),
    (1001, .act (.live [.bytes 0])), (1002, .poll)]

theorem quiet_punctual : Punctual 64 2 2 2003 0 2 false quietSecond
    (mqttConnect 64 0 none [] quiet (.initial quiet)).2 := by
  refine ⟨by decide, by decide, rfl, by decide, by decide +kernel, rfl, by decide +kernel,
    by decide, by decide, trivial, by decide, by decide, rfl, by decide, by decide +kernel, rfl,
    by decide +kernel, by decide, by decide, rfl, by decide, by decide +kernel⟩

theorem run_never_silent_quiet :
    2003 ≤ lastPacket 64 0 (acts quietSecond) (mqttConnect 64 0 none [] quiet (.initial quiet)).2 +
      1000 * quiet.keepalive.toNat + 2 + 2 := by
  have hvalid : (Call.connect quiet).Valid := ⟨by decide, by rintro will ⟨⟩⟩
  exact run_never_silent (by decide) (by decide) quiet quiet [] [] quietSecond trivial rfl hvalid
    (by decide) (by decide) quiet_punctual (by decide +kernel)

end NcsProjects.MqttKeepalive
