import NcsProjects.KernelMsgq

/-!
Runs of calls on the message queue of the kernel. What the calls return, at once or to
threads that have waited, is what they return at the queue of messages; off the ring no
memory changes but where a caller wants a message or writes; and without a purge the
messages come out in the order in which they came in.
-/
namespace NcsProjects.KernelMsgq

open ByteRegions CStrings MessageQueues RingBuffers Semaphores

variable {T : Type*}

section Returned

variable {r : Ring} {s : State T} {q : MsgQ T (List Byte) r.cap} [DecidableEq T]

/-- A put wakes nobody but the first of those who wait to read. -/
theorem Represents.released_put (h : Represents r s q) (hroom : s.usedMsgs < s.maxMsgs)
    (data : ℕ) :
    ((stopped s.waitQ (KernelMsgq.putMsg data s).waitQ).map fun t =>
        (t, (KernelMsgq.putMsg data s).retval t)) =
      (q.readers.head?.map fun t => (t, QueueCall.Result.done)).toList.map fun w =>
        (w.1, returnValue w.2) := by
  rw [h.readers_of_room hroom]
  have hnodup := h.nodup
  cases hwait : s.waitQ with
  | nil => rfl
  | cons thread rest =>
    rw [hwait] at hnodup
    simp only [KernelMsgq.putMsg, hwait, stopped_tail hnodup, List.map_cons, List.map_nil,
      Function.update_self]
    rfl

/-- A get wakes nobody but the first of those who wait to write. -/
theorem Represents.released_get (h : Represents r s q) (hused : s.usedMsgs ≠ 0) (data : ℕ) :
    ((stopped s.waitQ (KernelMsgq.getMsg data s).waitQ).map fun t =>
        (t, (KernelMsgq.getMsg data s).retval t)) =
      (q.writers.head?.map fun w => (w.1, QueueCall.Result.done)).toList.map fun w =>
        (w.1, returnValue w.2) := by
  have hnodup := h.nodup
  rw [(h.writing hused).2]
  cases hwait : s.waitQ with
  | nil => rfl
  | cons thread rest =>
    rw [hwait] at hnodup
    simp only [KernelMsgq.getMsg, hwait, stopped_tail hnodup, List.map_cons, List.map_nil,
      Function.update_self]
    rfl

/-- Nobody stops waiting when a thread comes to wait. -/
theorem stopped_pend (prio : T → ℤ) (self : T) (waitQ : List T) :
    stopped waitQ (addToWaitq prio self waitQ) = [] := by
  apply stopped_of_subset
  intro t ht
  rw [addToWaitq_eq, mem_enqueue]
  exact Or.inr ht

/-- What a call returns is what it returns at the queue of messages. -/
theorem Represents.result (h : Represents r s q) (prio : T → ℤ) (c : Call T) :
    c.result prio s = ((c.onMessages prio s).result q).map returnValue := by
  have hlen := h.buf_length
  cases c with
  | put self data =>
    simp only [Call.result, Call.onMessages, QueueCall.result, kMsgqPut, hlen, h.max]
    split <;> rfl
  | putNoWait data =>
    simp only [Call.result, Call.onMessages, QueueCall.result, kMsgqPutNoWait, hlen, h.max]
    split <;> rfl
  | get self data =>
    by_cases hused : s.usedMsgs = 0
    · simp [Call.result, Call.onMessages, QueueCall.result, kMsgqGet, hused, h.buf_nil hused]
    · have hsome : q.buf ≠ [] := fun hnil => hused (by rw [← hlen, hnil, List.length_nil])
      simp [Call.result, Call.onMessages, QueueCall.result, kMsgqGet, hsome,
        Nat.pos_of_ne_zero hused, returnValue]
  | getNoWait data =>
    by_cases hused : s.usedMsgs = 0
    · simp [Call.result, Call.onMessages, QueueCall.result, kMsgqGetNoWait, hused,
        h.buf_nil hused, returnValue]
    · have hsome : q.buf ≠ [] := fun hnil => hused (by rw [← hlen, hnil, List.length_nil])
      simp [Call.result, Call.onMessages, QueueCall.result, kMsgqGetNoWait, hsome,
        Nat.pos_of_ne_zero hused, returnValue]
  | purge | unpend thread | store addr bytes => rfl

/-- The threads that a call wakes are those it wakes at the queue of messages, and return the
same. -/
theorem Represents.released (h : Represents r s q) (prio : T → ℤ) (c : Call T) :
    c.released prio s =
      ((c.onMessages prio s).released q).map fun w => (w.1, returnValue w.2) := by
  have hlen := h.buf_length
  cases c with
  | put self data =>
    by_cases hroom : s.usedMsgs < s.maxMsgs
    · have hroom' : q.buf.length < r.cap := by rwa [hlen, ← h.max]
      simp only [Call.released, Call.exec, Call.onMessages, QueueCall.released, kMsgqPut,
        if_pos hroom, if_pos hroom']
      exact h.released_put hroom data
    · have hroom' : ¬ q.buf.length < r.cap := by rwa [hlen, ← h.max]
      simp only [Call.released, Call.exec, Call.onMessages, QueueCall.released, kMsgqPut,
        if_neg hroom, if_neg hroom', zPendCurr, stopped_pend, List.map_nil]
  | putNoWait data =>
    by_cases hroom : s.usedMsgs < s.maxMsgs
    · have hroom' : q.buf.length < r.cap := by rwa [hlen, ← h.max]
      simp only [Call.released, Call.exec, Call.onMessages, QueueCall.released, kMsgqPutNoWait,
        if_pos hroom, if_pos hroom']
      exact h.released_put hroom data
    · have hroom' : ¬ q.buf.length < r.cap := by rwa [hlen, ← h.max]
      simp only [Call.released, Call.exec, Call.onMessages, QueueCall.released, kMsgqPutNoWait,
        if_neg hroom, if_neg hroom', stopped_of_subset (List.Subset.refl _), List.map_nil]
  | get self data =>
    by_cases hused : s.usedMsgs = 0
    · have hnot : ¬ 0 < s.usedMsgs := by omega
      simp [Call.released, Call.exec, Call.onMessages, QueueCall.released, kMsgqGet, if_neg hnot,
        h.buf_nil hused, zPendCurr, stopped_pend]
    · have hsome : q.buf.isEmpty = false := by
        rw [List.isEmpty_eq_false_iff]
        exact fun hnil => hused (by rw [← hlen, hnil, List.length_nil])
      simp only [Call.released, Call.exec, Call.onMessages, QueueCall.released, kMsgqGet,
        if_pos (Nat.pos_of_ne_zero hused), hsome]
      exact h.released_get hused data
  | getNoWait data =>
    by_cases hused : s.usedMsgs = 0
    · have hnot : ¬ 0 < s.usedMsgs := by omega
      simp [Call.released, Call.exec, Call.onMessages, QueueCall.released, kMsgqGetNoWait,
        if_neg hnot, h.buf_nil hused, stopped_of_subset (List.Subset.refl _)]
    · have hsome : q.buf.isEmpty = false := by
        rw [List.isEmpty_eq_false_iff]
        exact fun hnil => hused (by rw [← hlen, hnil, List.length_nil])
      simp only [Call.released, Call.exec, Call.onMessages, QueueCall.released, kMsgqGetNoWait,
        if_pos (Nat.pos_of_ne_zero hused), hsome]
      exact h.released_get hused data
  | purge =>
    simp only [Call.released, Call.exec, Call.onMessages, QueueCall.released, kMsgqPurge,
      stopped_nil, h.waiting, List.map_map]
    apply List.map_congr_left
    intro t ht
    simp only [if_pos ht, Function.comp_apply, returnValue]
  | unpend thread =>
    simp only [Call.released, Call.exec, Call.onMessages, QueueCall.released, zUnpend,
      stopped_erase h.nodup, h.waiting]
    by_cases hmem : thread ∈ s.waitQ
    · simp [hmem, h.pending thread hmem, returnValue]
    · simp [hmem]
  | store addr bytes =>
    simp only [Call.released, Call.exec, Call.onMessages, QueueCall.released,
      stopped_of_subset (List.Subset.refl _), List.map_nil]

end Returned

/-- The byte `i` lies in a stretch of memory. -/
def Within (off len i : ℕ) : Prop := off ≤ i ∧ i < off + len

instance (off len i : ℕ) : Decidable (Within off len i) := instDecidableAnd

theorem write_off (m : Region Byte) {off i : ℕ} {bytes : List Byte}
    (h : ¬ Within off bytes.length i) : write m off bytes i = m i := by
  by_cases hlow : i < off
  · exact write_before m off bytes hlow
  · unfold Within at h
    exact write_after m off bytes (by omega)

/-- Where the caller wants the byte `i` written, or writes it. -/
def Call.Covers (size i : ℕ) : Call T → Prop
  | .get _ data | .getNoWait data => Within data size i
  | .store addr bytes => Within addr bytes.length i
  | .put _ _ | .putNoWait _ | .purge | .unpend _ => False

instance (size i : ℕ) : (c : Call T) → Decidable (c.Covers size i)
  | .get _ data | .getNoWait data => inferInstanceAs (Decidable (Within data size i))
  | .store addr bytes => inferInstanceAs (Decidable (Within addr bytes.length i))
  | .put _ _ | .putNoWait _ | .purge | .unpend _ => inferInstanceAs (Decidable False)

/-- No thread that waits to read wants its message over the byte `i`. -/
def Spared (i : ℕ) (s : State T) : Prop :=
  s.usedMsgs = 0 → ∀ t ∈ s.waitQ, ¬ Within (s.swapData t) s.msgSize i

section Frame

variable {r : Ring} {s : State T} {q : MsgQ T (List Byte) r.cap} {i : ℕ}

theorem Laid.storeMsg_off (h : Laid r s) (data : ℕ) {j : ℕ} (hwrite : s.writePtr = r.slot j)
    (hring : ¬ (r.base ≤ i ∧ i < r.stop)) : (KernelMsgq.storeMsg data s).mem i = s.mem i := by
  have hlow := r.base_le_slot j
  have hhigh := r.slot_le_stop j
  simp only [KernelMsgq.storeMsg, memcpy]
  apply write_off
  rw [slice_length, hwrite, h.size]
  unfold Within
  omega

variable [DecidableEq T]

/-- A put writes into the ring or to where a thread waits to read. -/
theorem Represents.putMsg_off (h : Represents r s q) (hroom : s.usedMsgs < s.maxMsgs)
    (hring : ¬ (r.base ≤ i ∧ i < r.stop)) (hspared : Spared i s) (data : ℕ) :
    (KernelMsgq.putMsg data s).mem i = s.mem i ∧ Spared i (KernelMsgq.putMsg data s) := by
  obtain ⟨first, _, hwrite, _⟩ := h.ring
  cases hwait : s.waitQ with
  | nil =>
    simp only [KernelMsgq.putMsg, hwait]
    refine ⟨h.toLaid.storeMsg_off data hwrite hring, ?_⟩
    intro hzero
    exact absurd hzero (Nat.succ_ne_zero s.usedMsgs)
  | cons thread rest =>
    have hused : s.usedMsgs = 0 := by
      by_contra hne
      rw [h.nobody hroom hne] at hwait
      cases hwait
    have hwants := hspared hused
    rw [hwait] at hwants
    simp only [KernelMsgq.putMsg, hwait]
    constructor
    · apply write_off
      rw [slice_length]
      exact hwants thread List.mem_cons_self
    · intro _ t ht
      exact hwants t (List.mem_cons_of_mem thread ht)

/-- A get writes to where its caller wants the message, and into the ring. -/
theorem Represents.getMsg_off (h : Represents r s q)
    (hring : ¬ (r.base ≤ i ∧ i < r.stop)) {data : ℕ} (hdata : ¬ Within data r.size i) :
    (KernelMsgq.getMsg data s).mem i = s.mem i ∧ Spared i (KernelMsgq.getMsg data s) := by
  obtain ⟨first, _, hwrite, _⟩ := h.ring
  have htake : (KernelMsgq.takeMsg data s).mem i = s.mem i := by
    apply write_off
    rwa [slice_length, h.size]
  cases hwait : s.waitQ with
  | nil =>
    simp only [KernelMsgq.getMsg, hwait]
    refine ⟨htake, ?_⟩
    intro _ t ht
    simp only [KernelMsgq.takeMsg, hwait] at ht
    cases ht
  | cons thread rest =>
    have hlaid : Laid r (KernelMsgq.takeMsg data s) := ⟨h.size, h.max, h.start, h.stop⟩
    simp only [KernelMsgq.getMsg, hwait]
    refine ⟨(hlaid.storeMsg_off (s.swapData thread) hwrite hring).trans htake, ?_⟩
    intro hzero
    exact absurd hzero (Nat.succ_ne_zero _)

/-- One call: the memory off the ring stays, but for what the callers want there. -/
theorem Represents.exec_off (h : Represents r s q) (prio : T → ℤ) {c : Call T}
    (hring : ¬ (r.base ≤ i ∧ i < r.stop)) (hspared : Spared i s) (hcovers : ¬ c.Covers r.size i) :
    (c.exec prio s).mem i = s.mem i ∧ Spared i (c.exec prio s) := by
  have hfull (hroom : ¬ s.usedMsgs < s.maxMsgs) : s.usedMsgs ≠ 0 := by
    have hcap := r.cap_pos
    rw [h.max] at hroom
    omega
  cases c with
  | put self data =>
    by_cases hroom : s.usedMsgs < s.maxMsgs
    · simp only [Call.exec, kMsgqPut, if_pos hroom]
      exact h.putMsg_off hroom hring hspared data
    · simp only [Call.exec, kMsgqPut, if_neg hroom]
      exact ⟨rfl, fun hzero => absurd hzero (hfull hroom)⟩
  | putNoWait data =>
    by_cases hroom : s.usedMsgs < s.maxMsgs
    · simp only [Call.exec, kMsgqPutNoWait, if_pos hroom]
      exact h.putMsg_off hroom hring hspared data
    · simp only [Call.exec, kMsgqPutNoWait, if_neg hroom]
      exact ⟨trivial, hspared⟩
  | get self data =>
    by_cases hused : 0 < s.usedMsgs
    · simp only [Call.exec, kMsgqGet, if_pos hused]
      exact h.getMsg_off hring hcovers
    · simp only [Call.exec, kMsgqGet, if_neg hused]
      refine ⟨rfl, ?_⟩
      intro hzero t ht
      simp only [zPendCurr] at ht hzero ⊢
      rw [addToWaitq_eq, mem_enqueue] at ht
      by_cases heq : t = self
      · rw [heq, Function.update_self, h.size]
        exact hcovers
      · rw [Function.update_of_ne heq]
        exact hspared hzero t (ht.resolve_left heq)
  | getNoWait data =>
    by_cases hused : 0 < s.usedMsgs
    · simp only [Call.exec, kMsgqGetNoWait, if_pos hused]
      exact h.getMsg_off hring hcovers
    · simp only [Call.exec, kMsgqGetNoWait, if_neg hused]
      exact ⟨trivial, hspared⟩
  | purge => exact ⟨rfl, fun _ t ht => absurd ht List.not_mem_nil⟩
  | unpend thread => exact ⟨rfl, fun hzero t ht => hspared hzero t (List.mem_of_mem_erase ht)⟩
  | store addr bytes => exact ⟨write_off s.mem hcovers, hspared⟩

end Frame

section Runs

variable [DecidableEq T] (prio : T → ℤ) (r : Ring)

/-- A run: the state it leaves and the messages it delivers to the readers. -/
def run : State T → List (Call T) → State T × List (List Byte)
  | s, [] => (s, [])
  | s, c :: cs =>
    let rest := run (c.exec prio s) cs
    (rest.1, (c.delivered prio s).toList ++ rest.2)

/-- The messages that come into the ring during a run, or through it to a reader. -/
def acceptedBy : State T → List (Call T) → List (List Byte)
  | _, [] => []
  | s, c :: cs => (c.accepted s).toList ++ acceptedBy (c.exec prio s) cs

def broughtBy : State T → List (Call T) → List (List Byte)
  | _, [] => []
  | s, c :: cs => (c.brought s).toList ++ broughtBy (c.exec prio s) cs

/-- What each of the calls returns, and what the waiting calls that it ends return. -/
def returnsBy : State T → List (Call T) → List (Option ℤ × List (T × ℤ))
  | _, [] => []
  | s, c :: cs => (c.result prio s, c.released prio s) :: returnsBy (c.exec prio s) cs

/-- The messages of the threads that wait to write. -/
def waitingMessages (s : State T) : List (List Byte) :=
  if s.usedMsgs = 0 then [] else s.waitQ.map fun t => slice s.mem (s.swapData t) s.msgSize

def SoundRun : State T → List (Call T) → Prop
  | _, [] => True
  | s, c :: cs => Sound r s c ∧ SoundRun (c.exec prio s) cs

def messageCalls : State T → List (Call T) → List (QueueCall T (List Byte))
  | _, [] => []
  | s, c :: cs => c.onMessages prio s :: messageCalls (c.exec prio s) cs

variable {prio r}

/-- Over a run the ring follows the queue of messages. -/
theorem Represents.run {s : State T} {q : MsgQ T (List Byte) r.cap} (h : Represents r s q)
    {cs : List (Call T)} (hsound : SoundRun prio r s cs) :
    Represents r (run prio s cs).1 (QueueCall.execAll q (messageCalls prio s cs)).1 ∧
      (run prio s cs).2 = (QueueCall.execAll q (messageCalls prio s cs)).2 := by
  induction cs generalizing s q with
  | nil => exact ⟨h, rfl⟩
  | cons c cs ih =>
    obtain ⟨hone, hrest⟩ := hsound
    obtain ⟨hrep, hdelivered⟩ := h.exec prio hone
    obtain ⟨hrep', hdelivered'⟩ := ih hrep hrest
    simp only [KernelMsgq.run, messageCalls, QueueCall.execAll]
    exact ⟨hrep', by rw [hdelivered, hdelivered']⟩

theorem Represents.acceptedBy {s : State T} {q : MsgQ T (List Byte) r.cap}
    (h : Represents r s q) {cs : List (Call T)} (hsound : SoundRun prio r s cs) :
    acceptedBy prio s cs = QueueCall.acceptedAll q (messageCalls prio s cs) := by
  induction cs generalizing s q with
  | nil => rfl
  | cons c cs ih =>
    obtain ⟨hone, hrest⟩ := hsound
    simp only [KernelMsgq.acceptedBy, messageCalls, QueueCall.acceptedAll]
    rw [h.accepted prio c, ih (h.exec prio hone).1 hrest]

theorem Represents.returnsBy {s : State T} {q : MsgQ T (List Byte) r.cap}
    (h : Represents r s q) {cs : List (Call T)} (hsound : SoundRun prio r s cs) :
    returnsBy prio s cs = (QueueCall.returnsAll q (messageCalls prio s cs)).map fun w =>
      (w.1.map returnValue, w.2.map fun v => (v.1, returnValue v.2)) := by
  induction cs generalizing s q with
  | nil => rfl
  | cons c cs ih =>
    obtain ⟨hone, hrest⟩ := hsound
    have hnext := ih (h.exec prio hone).1 hrest
    simp only [KernelMsgq.returnsBy, messageCalls, QueueCall.returnsAll, List.map_cons]
    rw [h.result prio c, h.released prio c, hnext]

/-- Over a run the memory off the ring stays, but for what the callers want there. -/
theorem Represents.run_off {s : State T} {q : MsgQ T (List Byte) r.cap} (h : Represents r s q)
    {cs : List (Call T)} (hsound : SoundRun prio r s cs) {i : ℕ}
    (hring : ¬ (r.base ≤ i ∧ i < r.stop)) (hspared : Spared i s)
    (hcovers : ∀ c ∈ cs, ¬ c.Covers r.size i) : (KernelMsgq.run prio s cs).1.mem i = s.mem i := by
  induction cs generalizing s q with
  | nil => rfl
  | cons c cs ih =>
    obtain ⟨hone, hrest⟩ := hsound
    obtain ⟨hmem, hnext⟩ := h.exec_off prio hring hspared (hcovers c List.mem_cons_self)
    have hlater := ih (h.exec prio hone).1 hrest hnext fun d hd =>
      hcovers d (List.mem_cons_of_mem c hd)
    exact hlater.trans hmem

theorem broughtBy_eq (s : State T) (cs : List (Call T)) :
    broughtBy prio s cs = (messageCalls prio s cs).filterMap QueueCall.message := by
  induction cs generalizing s with
  | nil => rfl
  | cons c cs ih =>
    simp only [broughtBy, messageCalls]
    rw [ih]
    cases c <;> rfl

omit [DecidableEq T] in
theorem Represents.waitingMessages {s : State T} {q : MsgQ T (List Byte) r.cap}
    (h : Represents r s q) : waitingMessages s = q.writers.map Prod.snd := by
  unfold KernelMsgq.waitingMessages
  by_cases hused : s.usedMsgs = 0
  · rw [if_pos hused, (h.reading hused).2, List.map_nil]
  · rw [if_neg hused, (h.writing hused).2, List.map_map, h.size]
    rfl

theorem messageCalls_purge {s : State T} {cs : List (Call T)} (h : Call.purge ∉ cs) :
    QueueCall.purge ∉ messageCalls prio s cs := by
  induction cs generalizing s with
  | nil => exact List.not_mem_nil
  | cons c cs ih =>
    intro hmem
    rcases List.mem_cons.mp hmem with hhead | htail
    · cases c with
      | purge => exact h List.mem_cons_self
      | put self data | putNoWait data | get self data | getNoWait data | unpend thread
      | store addr bytes => cases hhead
    · exact ih (fun hin => h (List.mem_cons_of_mem c hin)) htail

omit [DecidableEq T] in
theorem define_represents (mem : Region Byte) (swapData : T → ℕ) (retval : T → ℤ) :
    Represents r (define mem r.base r.size r.cap swapData retval) MsgQ.empty := by
  refine ⟨⟨rfl, rfl, rfl, rfl⟩, ⟨0, r.slot_start.symm, r.slot_start.symm, rfl⟩, ?_, ?_,
    List.nodup_nil, fun t ht => absurd ht List.not_mem_nil,
    fun t ht => absurd ht List.not_mem_nil⟩
  · exact fun _ => ⟨rfl, rfl⟩
  · exact fun hne => absurd rfl hne

variable (r)

/-- On every run from K_MSGQ_DEFINE on, the ring with its wait list is the bounded queue of
messages after the same calls: the readers get the same messages, and all calls return the
same. Off the ring no byte changes but where a caller wants a message or writes. -/
theorem run_follows_queue (prio : T → ℤ) (mem : Region Byte) (swapData : T → ℕ) (retval : T → ℤ)
    (cs : List (Call T))
    (hsound : SoundRun prio r (define mem r.base r.size r.cap swapData retval) cs) :
    let s := define mem r.base r.size r.cap swapData retval
    let calls := messageCalls prio s cs
    let queue := QueueCall.execAll MsgQ.empty calls
    Represents r (run prio s cs).1 queue.1 ∧ (run prio s cs).2 = queue.2 ∧
      (returnsBy prio s cs =
        (QueueCall.returnsAll (MsgQ.empty : MsgQ T (List Byte) r.cap) calls).map fun w =>
          (w.1.map returnValue, w.2.map fun v => (v.1, returnValue v.2))) ∧
      ∀ i, ¬ (r.base ≤ i ∧ i < r.stop) → (∀ c ∈ cs, ¬ c.Covers r.size i) →
        (run prio s cs).1.mem i = mem i := by
  intro s calls queue
  have hstart : Represents r s MsgQ.empty := define_represents mem swapData retval
  obtain ⟨hrep, hdelivered⟩ := hstart.run hsound
  refine ⟨hrep, hdelivered, hstart.returnsBy hsound, ?_⟩
  intro i hring hcovers
  exact hstart.run_off hsound hring (fun _ t ht => absurd ht List.not_mem_nil) hcovers

/-- A ring with one slot: the second writer waits, and its message follows the first one. A
third read finds nothing. -/
theorem run_follows_waiting_writer :
    let s : State Bool := define (BitVec.ofNat 8) 0 1 1 (fun _ => 0) (fun _ => 0)
    let cs : List (Call Bool) :=
      [.put true 10, .put false 11, .get true 12, .getNoWait 13, .getNoWait 14]
    returnsBy (fun _ => 0) s cs = [(some 0, []), (none, []), (some 0, [(false, 0)]), (some 0, []),
        (some enomsg, [])] ∧
      (run (fun _ => 0) s cs).1.mem 15 = 15#8 := by
  intro s cs
  obtain ⟨_, _, hreturns, hmem⟩ := run_follows_queue ⟨0, 1, 1, by decide⟩ (fun _ => 0)
    (BitVec.ofNat 8) (fun _ => 0) (fun _ => 0) cs
    ⟨by decide, by decide, by decide, by decide, by decide, trivial⟩
  exact ⟨hreturns.trans (by decide), hmem 15 (by decide) (by decide)⟩

/-- Without a purge the readers get what came in, oldest first, and the rest of it is in the
ring from read_ptr on: no message is lost, doubled or overtaken. What came in, and what waits
for room at the end, the callers brought, each message once. -/
theorem run_first_in_first_out (prio : T → ℤ) (mem : Region Byte) (swapData : T → ℕ)
    (retval : T → ℤ) (cs : List (Call T)) (hpurge : Call.purge ∉ cs)
    (hsound : SoundRun prio r (define mem r.base r.size r.cap swapData retval) cs) :
    let s := define mem r.base r.size r.cap swapData retval
    let t := (run prio s cs).1
    (∃ first, t.readPtr = r.slot first ∧ t.usedMsgs ≤ r.cap ∧
      (run prio s cs).2 ++ r.items t.mem first t.usedMsgs = acceptedBy prio s cs) ∧
      (acceptedBy prio s cs ++ waitingMessages t).Subperm (broughtBy prio s cs) := by
  intro s t
  have hstart : Represents r s MsgQ.empty := define_represents mem swapData retval
  obtain ⟨hrep, hdelivered⟩ := hstart.run hsound
  have haccepted := hstart.acceptedBy hsound
  constructor
  · obtain ⟨first, hread, _, hbuf⟩ := hrep.ring
    refine ⟨first, hread, ?_, ?_⟩
    · rw [← hrep.buf_length]
      exact MsgQ.buf_le _
    · rw [← hbuf, hdelivered, haccepted]
      exact QueueCall.execAll_fifo MsgQ.empty _ (messageCalls_purge hpurge)
  · rw [haccepted, hrep.waitingMessages, broughtBy_eq]
    exact QueueCall.execAll_custody MsgQ.empty _

/-- One message more than the ring has slots, and a writer that waits for room: all of them
are delivered or stored, in order. -/
theorem run_first_in_first_out_wraps :
    let s : State Bool := define (BitVec.ofNat 8) 0 1 2 (fun _ => 0) (fun _ => 0)
    let cs : List (Call Bool) := [.putNoWait 10, .putNoWait 11, .put false 12, .get true 13]
    let t := (run (fun _ => 0) s cs).1
    let r : Ring := ⟨0, 1, 2, by decide⟩
    (∃ first, t.readPtr = r.slot first ∧ t.usedMsgs ≤ r.cap ∧
      (run (fun _ => 0) s cs).2 ++ r.items t.mem first t.usedMsgs =
        acceptedBy (fun _ => 0) s cs) ∧
      (acceptedBy (fun _ => 0) s cs ++ waitingMessages t).Subperm
        (broughtBy (fun _ => 0) s cs) :=
  run_first_in_first_out ⟨0, 1, 2, by decide⟩ (fun _ => 0) (BitVec.ofNat 8) (fun _ => 0)
    (fun _ => 0) [.putNoWait 10, .putNoWait 11, .put false 12, .get true 13] (by decide)
    ⟨by decide, by decide, by decide, by decide, trivial⟩

end Runs

end NcsProjects.KernelMsgq
