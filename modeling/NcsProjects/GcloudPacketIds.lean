import NcsProjects.GcloudSessions

/-!
The packet identifiers of the gcloud thread. A publish carries the low 16 bits of the
uptime at which its command is processed, a subscribe the fixed SUBSCRIBE_ID. Beside
the run are kept the packets that the broker has still to acknowledge, each with its
identifier and the uptime that it comes from, so that the identifiers can be compared
with the uptimes.
-/
namespace NcsProjects.Gcloud

open PublishPayload TransitionRuns

/-- SUBSCRIBE_ID -/
def subscribeId : BitVec 16 := 42#16

/-- A QoS 1 or QoS 2 publish or a subscribe that the library has written and the broker
has not acknowledged. The subscribe has no uptime. -/
structure InFlight where
  id : BitVec 16
  uptime : Option (BitVec 32)

/-- What the identifier of the packet is modulo 2^16. -/
def InFlight.residue (x : InFlight) : ℕ :=
  match x.uptime with
  | some u => u.toNat % 65536
  | none => 42

/-- The last uptime that gcloud_thread has read, and the packets of the session. -/
structure Ids where
  uptime : BitVec 32
  inFlight : List InFlight

/-- A step, with the identifier of the packet that it acknowledges: a PUBACK, PUBCOMP or
SUBACK that mqtt_input reads. -/
structure IdAct where
  act : Act
  acked : Option (BitVec 16) := none

def acknowledges (s : State) (a : IdAct) : Option (BitVec 16) :=
  match a.act, s.mqtt with
  | .mqtt env, .call .input _ .body =>
    if s.client.session ≠ .closed ∧ s.client.remaining = 0 ∧ env.packet = .other then a.acked
    else none
  | _, _ => none

/-- The uptime that the step reads. -/
def readsUptime (s : State) : Act → Option (BitVec 32)
  | .gcloud env => if s.gcloud = .dispatch then some env.uptime else none
  | _ => none

/-- The packet that the step writes: mqtt_publish or mqtt_subscribe succeeds. -/
def writes (s : State) (uptime : BitVec 32) : Act → Option InFlight
  | .gcloud env =>
    match s.gcloud with
    | .call (.publish m id) .body =>
      if m.qos ≠ .atMostOnce ∧ (gcloudBody (.publish m id) env s.client s.kernel.event).any Prod.fst
      then some ⟨id, some uptime⟩ else none
    | .call .subscribe .body =>
      if (gcloudBody .subscribe env s.client s.kernel.event).any Prod.fst
      then some ⟨subscribeId, none⟩ else none
    | _ => none
  | _ => none

def noteIds (s : State) (a : IdAct) (h : Ids) : Ids where
  uptime := (readsUptime s a.act).getD h.uptime
  inFlight :=
    if accepts s a.act = true ∧ s.client.session ≠ .connected then []
    else match writes s h.uptime a.act with
      | some x => x :: h.inFlight
      | none => match acknowledges s a with
        | some id => h.inFlight.filter (fun x => x.id ≠ id)
        | none => h.inFlight

def idStep (t : State × Ids) (a : IdAct) : Option (State × Ids) :=
  (step t.1 a.act).map fun s => (s, noteIds t.1 a t.2)

def idMachine : Machine (State × Ids) IdAct := ⟨(State.start, ⟨0, []⟩), idStep⟩

/-- The packets of the open session that are not acknowledged. -/
def unacked (t : State × Ids) : List InFlight :=
  if t.1.client.session = .connected then t.2.inFlight else []

/-- The identifier that gcloud_thread calls mqtt_publish with for QoS 1 or 2, or
mqtt_subscribe, is not zero and not that of an unacknowledged packet. -/
structure PacketIdsValid (t : State × Ids) : Prop where
  publish : ∀ m id, t.1.gcloud = .call (.publish m id) .lock → m.qos ≠ .atMostOnce →
    id ≠ 0#16 ∧ ∀ x ∈ unacked t, x.id ≠ id
  subscribe : t.1.gcloud = .call .subscribe .lock →
    subscribeId ≠ 0#16 ∧ ∀ x ∈ unacked t, x.id ≠ subscribeId

/-- A QoS 1 or QoS 2 publish is processed at an uptime that is no multiple of 65536 and
not congruent to the uptime of an unacknowledged publish, nor to 42 while a subscribe
is unacknowledged; a subscribe while none of these is. -/
def uptimesFit (t : State × Ids) (a : IdAct) : Prop :=
  match readsUptime t.1 a.act with
  | none => True
  | some u => t.1.connected = true →
    match t.1.kernel.event with
    | some (.publish m) | some (.publishState m) => m.qos ≠ .atMostOnce →
      u.toNat % 65536 ≠ 0 ∧ ∀ x ∈ unacked t, x.residue ≠ u.toNat % 65536
    | some .subscribe => ∀ x ∈ unacked t, x.residue ≠ 42
    | _ => True

/-- The identifiers are those of the uptimes. -/
structure IdsInv (t : State × Ids) : Prop where
  residues : ∀ x ∈ t.2.inFlight, x.id.toNat = x.residue
  call : ∀ m id p, t.1.gcloud = .call (.publish m id) p → id = t.2.uptime.setWidth 16

theorem idStep_cases {t t' : State × Ids} {a : IdAct} (h : idStep t a = some t') :
    step t.1 a.act = some t'.1 ∧ t'.2 = noteIds t.1 a t.2 := by
  obtain ⟨s, hs, rfl⟩ := Option.map_eq_some_iff.mp h
  exact ⟨hs, rfl⟩

theorem toNat_uptime (u : BitVec 32) : (u.setWidth 16).toNat = u.toNat % 65536 :=
  BitVec.toNat_setWidth 16 u

theorem id_eq_iff {x : InFlight} (hx : x.id.toNat = x.residue) (id : BitVec 16) :
    x.id = id ↔ x.residue = id.toNat := by
  rw [← hx]
  exact BitVec.toNat_inj.symm

/-- A fresh identifier, seen from the residues. -/
theorem fresh_iff {l : List InFlight} (hl : ∀ x ∈ l, x.id.toNat = x.residue) (id : BitVec 16) :
    (∀ x ∈ l, x.id ≠ id) ↔ ∀ x ∈ l, x.residue ≠ id.toNat := by
  constructor
  · intro h x hx heq
    exact h x hx ((id_eq_iff (hl x hx) id).mpr heq)
  · intro h x hx heq
    exact h x hx ((id_eq_iff (hl x hx) id).mp heq)

theorem uptime_ne_zero_iff (u : BitVec 32) : u.setWidth 16 ≠ 0#16 ↔ u.toNat % 65536 ≠ 0 := by
  rw [← toNat_uptime]
  exact not_congr BitVec.toNat_inj.symm

theorem mem_unacked {t : State × Ids} {x : InFlight} (h : x ∈ unacked t) : x ∈ t.2.inFlight := by
  unfold unacked at h
  split at h
  · exact h
  · cases h

/-- The packet that is written has the identifier of the call. -/
theorem residue_of_writes {t : State × Ids} {a : Act} {x : InFlight} (h : IdsInv t)
    (hx : writes t.1 t.2.uptime a = some x) : x.id.toNat = x.residue := by
  cases a with
  | start n c | app n env | mqtt env | timer | timeout u => cases hx
  | gcloud env =>
    simp only [writes] at hx
    split at hx
    · rename_i m id hg
      split at hx <;> cases hx
      rw [h.call m id .body hg]
      exact toNat_uptime _
    · split at hx <;> cases hx
      rfl
    · cases hx

theorem residues_step {t t' : State × Ids} {a : IdAct} (h : IdsInv t)
    (hstep : idStep t a = some t') : ∀ x ∈ t'.2.inFlight, x.id.toNat = x.residue := by
  obtain ⟨_, hnote⟩ := idStep_cases hstep
  rw [hnote]
  intro x hx
  simp only [noteIds] at hx
  split at hx
  · cases hx
  · split at hx
    · rename_i y hy
      rcases List.mem_cons.mp hx with rfl | hx
      · exact residue_of_writes h hy
      · exact h.residues x hx
    · split at hx
      · exact h.residues x (List.mem_of_mem_filter hx)
      · exact h.residues x hx

/-- Only the switch over event.type calls mqtt_publish or mqtt_subscribe. -/
theorem gcloudStep_calls {env : Env} {s s' : State} {c : GcloudCall} {p : CallPc}
    (h : gcloudStep env s = some s') (hg' : s'.gcloud = .call c p)
    (hc : c ≠ .connect) (hc' : c ≠ .disconnect) :
    s.gcloud = .dispatch ∧ s' = { s with gcloud := dispatch env s } ∨
      (∃ q, s.gcloud = .call c q) ∧ p ≠ .lock := by
  cases hg : s.gcloud with
  | get | wait =>
    simp only [gcloudStep, hg] at h
    split at h <;> cases h <;> cases hg'
  | dispatch =>
    simp only [gcloudStep, hg, Option.some.injEq] at h
    exact Or.inl ⟨rfl, h.symm⟩
  | setConnecting =>
    simp only [gcloudStep, hg, Option.some.injEq] at h
    subst h
    dsimp only at hg'
    split at hg' <;> cases hg'
    exact absurd rfl hc
  | markConnecting =>
    simp only [gcloudStep, hg, Option.some.injEq] at h
    subst h
    cases hg'
    exact absurd rfl hc'
  | create =>
    obtain ⟨-, rfl⟩ := gcloudStep_create hg h
    cases hg'
  | clientInit | stopTimer | clearConnected =>
    simp only [gcloudStep, hg, Option.some.injEq] at h
    subst h
    cases hg'
  | call d q =>
    simp only [gcloudStep, hg] at h
    rcases gcloudCall_place h with ⟨q', hq, hlock⟩ | hret
    · rw [hg'] at hq
      cases hq
      exact Or.inr ⟨⟨q, rfl⟩, hlock⟩
    · rw [hg'] at hret
      cases d <;> cases hret

theorem call_step {t t' : State × Ids} {a : IdAct} (h : IdsInv t) (hstep : idStep t a = some t') :
    ∀ m id p, t'.1.gcloud = .call (.publish m id) p → id = t'.2.uptime.setWidth 16 := by
  obtain ⟨hs, hnote⟩ := idStep_cases hstep
  intro m id p hg'
  rw [hnote]
  have hkeep : (∃ q, t.1.gcloud = .call (.publish m id) q) →
      id = (noteIds t.1 a t.2).uptime.setWidth 16 := by
    rintro ⟨q, hg⟩
    have hnone : readsUptime t.1 a.act = none := by
      unfold readsUptime
      split
      · simp [hg]
      · rfl
    simpa [noteIds, hnone] using h.call m id q hg
  obtain ⟨act, acked⟩ := a
  cases act with
  | gcloud env =>
    rcases gcloudStep_calls hs hg' (by rintro ⟨⟩) (by rintro ⟨⟩) with ⟨hg, heq⟩ | ⟨hq, _⟩
    · rw [heq] at hg'
      simpa [noteIds, readsUptime, hg] using (dispatch_publish hg').1
    · exact hkeep hq
  | mqtt env =>
    rw [mqttStep_gcloud hs] at hg'
    exact hkeep ⟨p, hg'⟩
  | start n c | app n env | timer | timeout u =>
    rw [(outside_frame rfl hs).gcloud] at hg'
    exact hkeep ⟨p, hg'⟩

theorem idsInv_step (t : State × Ids) (a : IdAct) (t' : State × Ids) (h : IdsInv t)
    (hstep : idStep t a = some t') : IdsInv t' :=
  ⟨residues_step h hstep, call_step h hstep⟩

/-- Without a packet that is written, what is unacknowledged was so before. -/
theorem unacked_of_step {t t' : State × Ids} {a : IdAct} (hstep : idStep t a = some t')
    (hwrites : writes t.1 t.2.uptime a.act = none) : ∀ x ∈ unacked t', x ∈ unacked t := by
  obtain ⟨hs, hnote⟩ := idStep_cases hstep
  intro x hx
  by_cases hup : t'.1.client.session = .connected
  · simp only [unacked, hup, if_true, hnote, noteIds, hwrites] at hx
    split at hx
    · cases hx
    · rename_i hfresh
      have hopen : t.1.client.session = .connected := by
        by_contra hno
        exact hfresh ⟨(session_of_step hs hup).resolve_left hno, hno⟩
      simp only [unacked, hopen, if_true]
      split at hx
      · exact List.mem_of_mem_filter hx
      · exact hx
  · simp [unacked, hup] at hx

/-- The switch writes nothing itself. -/
theorem unacked_of_dispatch {t t' : State × Ids} {env : Env} {acked : Option (BitVec 16)}
    (hstep : idStep t ⟨.gcloud env, acked⟩ = some t') (hg : t.1.gcloud = .dispatch) :
    unacked t' = unacked t ∧ t'.1 = { t.1 with gcloud := dispatch env t.1 } := by
  obtain ⟨hs, hnote⟩ := idStep_cases hstep
  have heq : t'.1 = { t.1 with gcloud := dispatch env t.1 } := by
    simpa only [step, gcloudStep, hg, Option.some.injEq] using hs.symm
  refine ⟨?_, heq⟩
  simp [unacked, heq, hnote, noteIds, accepts, writes, acknowledges, hg]

theorem uptimesFit_of_dispatch {t : State × Ids} {env : Env} {acked : Option (BitVec 16)}
    (hg : t.1.gcloud = .dispatch) (hconnected : t.1.connected = true) :
    uptimesFit t ⟨.gcloud env, acked⟩ ↔
      match t.1.kernel.event with
      | some (.publish m) | some (.publishState m) => m.qos ≠ .atMostOnce →
        env.uptime.toNat % 65536 ≠ 0 ∧ ∀ x ∈ unacked t, x.residue ≠ env.uptime.toNat % 65536
      | some .subscribe => ∀ x ∈ unacked t, x.residue ≠ 42
      | _ => True := by
  simp only [uptimesFit, readsUptime, hg, if_true, hconnected, true_implies]

/-- At the switch the identifiers are valid exactly if the uptime fits. -/
theorem valid_of_dispatch_iff {t t' : State × Ids} {env : Env} {acked : Option (BitVec 16)}
    (h : IdsInv t) (hstep : idStep t ⟨.gcloud env, acked⟩ = some t')
    (hg : t.1.gcloud = .dispatch) :
    PacketIdsValid t' ↔ uptimesFit t ⟨.gcloud env, acked⟩ := by
  obtain ⟨hsame, heq⟩ := unacked_of_dispatch hstep hg
  have hgoes : t'.1.gcloud = dispatch env t.1 := by rw [heq]
  have hres : ∀ x ∈ unacked t, x.id.toNat = x.residue := fun x hx => h.residues x (mem_unacked hx)
  have hzero := uptime_ne_zero_iff env.uptime
  have hfresh := fresh_iff hres (env.uptime.setWidth 16)
  rw [toNat_uptime] at hfresh
  constructor
  · intro hv
    by_cases hconnected : t.1.connected = true
    · rw [uptimesFit_of_dispatch hg hconnected]
      have hpublish : ∀ m, (t.1.kernel.event = some (.publish m) ∨
          t.1.kernel.event = some (.publishState m)) → m.qos ≠ .atMostOnce →
            env.uptime.toNat % 65536 ≠ 0 ∧
              ∀ x ∈ unacked t, x.residue ≠ env.uptime.toNat % 65536 := by
        intro m hevent hqos
        have hcall : t'.1.gcloud = .call (.publish m (env.uptime.setWidth 16)) .lock := by
          rw [hgoes]
          rcases hevent with hevent | hevent <;> simp [dispatch, hevent, hconnected]
        obtain ⟨hne, hother⟩ := hv.publish m _ hcall hqos
        rw [hsame] at hother
        exact ⟨hzero.mp hne, hfresh.mp hother⟩
      cases hevent : t.1.kernel.event with
      | none => trivial
      | some e =>
        cases e with
        | connect n | reconnectTimeout | disconnect n => trivial
        | publish m => exact hpublish m (Or.inl hevent)
        | publishState m => exact hpublish m (Or.inr hevent)
        | subscribe =>
          have hcall : t'.1.gcloud = .call .subscribe .lock := by
            rw [hgoes]
            simp [dispatch, hevent, hconnected]
          have hother := (hv.subscribe hcall).2
          rw [hsame] at hother
          exact (fresh_iff hres subscribeId).mp hother
    · simp [uptimesFit, readsUptime, hg, hconnected]
  · intro hfit
    constructor
    · intro m id hcall hqos
      rw [hgoes] at hcall
      obtain ⟨rfl, _, hconnected, hevent⟩ := dispatch_publish hcall
      rw [uptimesFit_of_dispatch hg hconnected] at hfit
      have hwhen : env.uptime.toNat % 65536 ≠ 0 ∧
          ∀ x ∈ unacked t, x.residue ≠ env.uptime.toNat % 65536 := by
        rcases hevent with hevent | hevent
        · simp only [hevent] at hfit
          exact hfit hqos
        · simp only [hevent] at hfit
          exact hfit hqos
      rw [hsame]
      exact ⟨hzero.mpr hwhen.1, hfresh.mpr hwhen.2⟩
    · intro hcall
      rw [hgoes] at hcall
      obtain ⟨hconnected, hevent⟩ := dispatch_subscribe hcall
      rw [uptimesFit_of_dispatch hg hconnected] at hfit
      simp only [hevent] at hfit
      rw [hsame]
      exact ⟨by decide, (fresh_iff hres subscribeId).mpr hfit⟩

/-- Every other step keeps the identifiers valid: it makes no such call, and what is
unacknowledged at a call was so before. -/
theorem valid_of_other {t t' : State × Ids} {a : IdAct} (hstep : idStep t a = some t')
    (hread : readsUptime t.1 a.act = none) (h : PacketIdsValid t) : PacketIdsValid t' := by
  obtain ⟨hs, hnote⟩ := idStep_cases hstep
  have hkeep : ∀ c, c ≠ .connect → c ≠ .disconnect → t'.1.gcloud = .call c .lock →
      t.1.gcloud = .call c .lock ∧ ∀ x ∈ unacked t', x ∈ unacked t := by
    intro c hc hc' hg'
    obtain ⟨act, acked⟩ := a
    cases act with
    | gcloud env =>
      rcases gcloudStep_calls hs hg' hc hc' with ⟨hg, _⟩ | ⟨_, hlock⟩
      · simp [readsUptime, hg] at hread
      · exact absurd rfl hlock
    | mqtt env =>
      rw [mqttStep_gcloud hs] at hg'
      exact ⟨hg', unacked_of_step hstep rfl⟩
    | start n c | app n env | timer | timeout u =>
      rw [(outside_frame rfl hs).gcloud] at hg'
      exact ⟨hg', unacked_of_step hstep rfl⟩
  constructor
  · intro m id hg' hqos
    obtain ⟨hg, hsub⟩ := hkeep _ (by rintro ⟨⟩) (by rintro ⟨⟩) hg'
    obtain ⟨hne, hother⟩ := h.publish m id hg hqos
    exact ⟨hne, fun x hx => hother x (hsub x hx)⟩
  · intro hg'
    obtain ⟨hg, hsub⟩ := hkeep _ (by rintro ⟨⟩) (by rintro ⟨⟩) hg'
    obtain ⟨hne, hother⟩ := h.subscribe hg
    exact ⟨hne, fun x hx => hother x (hsub x hx)⟩

/-- The steps that read the uptime are those of the switch. -/
theorem readsUptime_cases (s : State) (a : Act) :
    readsUptime s a = none ∨ ∃ env, a = .gcloud env ∧ s.gcloud = .dispatch := by
  cases a with
  | start n c | app n env | mqtt env | timer | timeout u => exact Or.inl rfl
  | gcloud env =>
    by_cases hg : s.gcloud = .dispatch
    · exact Or.inr ⟨env, rfl, hg⟩
    · exact Or.inl (by simp [readsUptime, hg])

theorem idsInv_init : IdsInv idMachine.init := by
  constructor
  · intro x hx
    cases hx
  · intro m id p hg
    cases hg

theorem packetIdsValid_init : PacketIdsValid idMachine.init := by
  constructor
  · intro m id hg
    cases hg
  · intro hg
    cases hg

/-- Along every run the packet identifiers are valid exactly if every command is
processed at an uptime that fits. -/
theorem packet_ids_valid_iff (actions : List IdAct) :
    Throughout idMachine PacketIdsValid idMachine.init actions ↔
      EachStep idMachine uptimesFit idMachine.init actions := by
  apply throughout_iff_eachStep (I := fun t => IdsInv t ∧ PacketIdsValid t)
  · intro t h
    exact h.2
  · rintro t ⟨act, acked⟩ t' ⟨hinv, hvalid⟩ hfit hstep
    refine ⟨idsInv_step t _ t' hinv hstep, ?_⟩
    rcases readsUptime_cases t.1 act with hread | ⟨env, rfl, hg⟩
    · exact valid_of_other hstep hread hvalid
    · exact (valid_of_dispatch_iff hinv hstep hg).mpr hfit
  · rintro t ⟨act, acked⟩ t' ⟨hinv, _⟩ hfit hstep
    rcases readsUptime_cases t.1 act with hread | ⟨env, rfl, hg⟩
    · exact absurd (by simp [uptimesFit, hread]) hfit
    · exact mt (valid_of_dispatch_iff hinv hstep hg).mp hfit
  · exact ⟨idsInv_init, packetIdsValid_init⟩

/-- A session comes up, the SUBSCRIBE is written, and two commands of QoS 1 are
processed in the same millisecond. -/
def sameMillisecond : List Act :=
  handshake ++ List.replicate 5 (.gcloud {}) ++ [.start 1 (.publish ⟨0, 1, .atLeastOnce⟩),
    .app 1 {}, .app 1 {}, .start 1 (.publish ⟨0, 1, .atLeastOnce⟩), .app 1 {}, .app 1 {}] ++
      List.replicate 7 (.gcloud {})

theorem packet_id_reused : ¬ ∀ t, Reachable idMachine t → PacketIdsValid t := by
  intro hall
  obtain ⟨t, hrun, ht⟩ := exists_reachable_of_exec (M := idMachine)
    (p := fun t => t.1.gcloud == .call (.publish ⟨0, 1, .atLeastOnce⟩ 1#16) .lock &&
      (unacked t).any fun x => x.id == 1#16) (sameMillisecond.map (IdAct.mk · none)) (by decide)
  simp only [Bool.and_eq_true, beq_iff_eq, List.any_eq_true] at ht
  obtain ⟨hg, x, hx, hid⟩ := ht
  exact ((hall t hrun).publish _ _ hg (by rintro ⟨⟩)).2 x hx hid

end NcsProjects.Gcloud
