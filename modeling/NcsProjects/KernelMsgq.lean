import Mathlib.Data.List.Nodup
import NcsProjects.CStrings
import NcsProjects.QueueCalls
import NcsProjects.RingBuffers

/-!
The message queue of the kernel, as zephyr.lst has it compiled: a ring of messages in
memory, with one list for all threads that wait. A message is copied from the memory
of its writer into the ring, or to where a waiting reader wants it, and from the ring
to the reader. On every run this does what the queue of the modules above does: the
threads there see the messages, here they see addresses.
-/
namespace NcsProjects.KernelMsgq

open ByteRegions CStrings MessageQueues RingBuffers Semaphores

variable {T : Type*}

def eagain : ℤ := -11
def enomsg : ℤ := -35

/-- struct k_msgq with the memory around it. Of a thread, swap_data is where its message
is or is wanted, and retval is what its call returns when it runs again. -/
structure State (T : Type*) where
  mem : Region Byte
  waitQ : List T
  msgSize : ℕ
  maxMsgs : ℕ
  bufferStart : ℕ
  bufferEnd : ℕ
  readPtr : ℕ
  writePtr : ℕ
  usedMsgs : ℕ
  swapData : T → ℕ
  retval : T → ℤ

/-- K_MSGQ_DEFINE -/
def define (mem : Region Byte) (buffer msgSize maxMsgs : ℕ) (swapData : T → ℕ)
    (retval : T → ℤ) : State T where
  mem := mem
  waitQ := []
  msgSize := msgSize
  maxMsgs := maxMsgs
  bufferStart := buffer
  bufferEnd := buffer + maxMsgs * msgSize
  readPtr := buffer
  writePtr := buffer
  usedMsgs := 0
  swapData := swapData
  retval := retval

def memcpy (m : Region Byte) (dst src len : ℕ) : Region Byte := write m dst (slice m src len)

/-- A thread waits in front of the first one with a lower priority, which is a larger
number. -/
def addToWaitq (prio : T → ℤ) (thread : T) : List T → List T
  | [] => [thread]
  | t :: rest =>
    if prio thread < prio t then thread :: t :: rest else t :: addToWaitq prio thread rest

/-- The place in the list where a thread comes to wait. -/
def waitPos (prio : T → ℤ) (thread : T) (waitQ : List T) : ℕ :=
  (waitQ.takeWhile fun t => prio t ≤ prio thread).length

section Calls

variable [DecidableEq T]

/-- z_pend_curr. The return value is that of a timeout until somebody wakes the thread. -/
def zPendCurr (prio : T → ℤ) (self : T) (data : ℕ) (s : State T) : State T :=
  { s with
    waitQ := addToWaitq prio self s.waitQ
    swapData := Function.update s.swapData self data
    retval := Function.update s.retval self eagain }

/-- The message at `data` goes into the ring. -/
def storeMsg (data : ℕ) (s : State T) : State T :=
  let writePtr := s.writePtr + s.msgSize
  { s with
    mem := memcpy s.mem s.writePtr data s.msgSize
    writePtr := if writePtr = s.bufferEnd then s.bufferStart else writePtr
    usedMsgs := s.usedMsgs + 1 }

/-- k_msgq_put where the queue is not full. -/
def putMsg (data : ℕ) (s : State T) : State T :=
  match s.waitQ with
  | thread :: rest =>
    { s with
      mem := memcpy s.mem (s.swapData thread) data s.msgSize
      waitQ := rest
      retval := Function.update s.retval thread 0 }
  | [] => storeMsg data s

/-- The result is none while the thread waits. -/
def kMsgqPut (prio : T → ℤ) (self : T) (data : ℕ) (s : State T) : Option ℤ × State T :=
  if s.usedMsgs < s.maxMsgs then (some 0, putMsg data s)
  else (none, zPendCurr prio self data s)

def kMsgqPutNoWait (data : ℕ) (s : State T) : ℤ × State T :=
  if s.usedMsgs < s.maxMsgs then (0, putMsg data s) else (enomsg, s)

/-- The oldest message of the ring goes to `data`. -/
def takeMsg (data : ℕ) (s : State T) : State T :=
  let readPtr := s.readPtr + s.msgSize
  { s with
    mem := memcpy s.mem data s.readPtr s.msgSize
    readPtr := if readPtr = s.bufferEnd then s.bufferStart else readPtr
    usedMsgs := s.usedMsgs - 1 }

/-- k_msgq_get where the queue is not empty: the first thread that waits to write gets
the room. -/
def getMsg (data : ℕ) (s : State T) : State T :=
  match s.waitQ with
  | thread :: rest =>
    { storeMsg (s.swapData thread) (takeMsg data s) with
      waitQ := rest
      retval := Function.update s.retval thread 0 }
  | [] => takeMsg data s

def kMsgqGet (prio : T → ℤ) (self : T) (data : ℕ) (s : State T) : Option ℤ × State T :=
  if 0 < s.usedMsgs then (some 0, getMsg data s) else (none, zPendCurr prio self data s)

def kMsgqGetNoWait (data : ℕ) (s : State T) : ℤ × State T :=
  if 0 < s.usedMsgs then (0, getMsg data s) else (enomsg, s)

def kMsgqPurge (s : State T) : State T :=
  { s with
    waitQ := []
    readPtr := s.writePtr
    usedMsgs := 0
    retval := fun t => if t ∈ s.waitQ then enomsg else s.retval t }

/-- z_thread_timeout, and what k_thread_abort does to a thread that waits. -/
def zUnpend (thread : T) (s : State T) : State T :=
  { s with waitQ := s.waitQ.erase thread }

/-- The threads of a wait list that are not in it any more. -/
def stopped (before after : List T) : List T := before.filter fun t => t ∉ after

/-- What happens at the queue, and a write of other code to the memory around it. -/
inductive Call (T : Type*)
  | put (self : T) (data : ℕ)
  | putNoWait (data : ℕ)
  | get (self : T) (data : ℕ)
  | getNoWait (data : ℕ)
  | purge
  | unpend (thread : T)
  | store (addr : ℕ) (bytes : List Byte)
  deriving DecidableEq

namespace Call

def exec (prio : T → ℤ) (s : State T) : Call T → State T
  | .put self data => (kMsgqPut prio self data s).2
  | .putNoWait data => (kMsgqPutNoWait data s).2
  | .get self data => (kMsgqGet prio self data s).2
  | .getNoWait data => (kMsgqGetNoWait data s).2
  | .purge => kMsgqPurge s
  | .unpend thread => zUnpend thread s
  | .store addr bytes => { s with mem := write s.mem addr bytes }

/-- What the call returns at once, if it does. -/
def result (prio : T → ℤ) (s : State T) : Call T → Option ℤ
  | .put self data => (kMsgqPut prio self data s).1
  | .putNoWait data => some (kMsgqPutNoWait data s).1
  | .get self data => (kMsgqGet prio self data s).1
  | .getNoWait data => some (kMsgqGetNoWait data s).1
  | .purge | .unpend _ | .store _ _ => none

/-- The threads that the call takes from the wait list, with what their own calls return when
they run again. -/
def released (prio : T → ℤ) (s : State T) (c : Call T) : List (T × ℤ) :=
  (stopped s.waitQ (c.exec prio s).waitQ).map fun t => (t, (c.exec prio s).retval t)

/-- Where the call leaves a message for a thread that reads. -/
def target (s : State T) : Call T → Option ℕ
  | .put _ _ | .putNoWait _ =>
    if s.usedMsgs < s.maxMsgs then s.waitQ.head?.map s.swapData else none
  | .get _ data | .getNoWait data => if 0 < s.usedMsgs then some data else none
  | .purge | .unpend _ | .store _ _ => none

/-- The message that the call lets in: its own, or that of the first thread that waits to
write. -/
def accepted (s : State T) : Call T → Option (List Byte)
  | .put _ data | .putNoWait data =>
    if s.usedMsgs < s.maxMsgs then some (slice s.mem data s.msgSize) else none
  | .get _ _ | .getNoWait _ =>
    if 0 < s.usedMsgs then
      s.waitQ.head?.map fun t => slice s.mem (s.swapData t) s.msgSize
    else none
  | .purge | .unpend _ | .store _ _ => none

/-- The message that the call brings. -/
def brought (s : State T) : Call T → Option (List Byte)
  | .put _ data | .putNoWait data => some (slice s.mem data s.msgSize)
  | .get _ _ | .getNoWait _ | .purge | .unpend _ | .store _ _ => none

def delivered (prio : T → ℤ) (s : State T) (c : Call T) : Option (List Byte) :=
  (c.target s).map fun dst => slice (c.exec prio s).mem dst s.msgSize

/-- The same call with the message in place of its address. -/
def onMessages (prio : T → ℤ) (s : State T) : Call T → QueueCall T (List Byte)
  | .put self data => .put (waitPos prio self s.waitQ) self (slice s.mem data s.msgSize)
  | .putNoWait data => .putNoWait (slice s.mem data s.msgSize)
  | .get self _ => .get (waitPos prio self s.waitQ) self
  | .getNoWait _ => .getNoWait
  | .purge => .purge
  | .unpend thread => .cancel thread
  | .store _ _ => .quiet

end Call

/-- The value in which the kernel says how a call ended. -/
def returnValue : QueueCall.Result → ℤ
  | .done => 0
  | .refused => enomsg
  | .gaveUp => eagain

theorem stopped_of_subset {before after : List T} (h : before ⊆ after) :
    stopped before after = [] := by
  apply List.filter_eq_nil_iff.mpr
  intro t ht
  simpa using h ht

theorem stopped_nil (before : List T) : stopped before [] = before := by
  apply List.filter_eq_self.mpr
  intro t _
  simp

theorem stopped_tail {t : T} {rest : List T} (h : (t :: rest).Nodup) :
    stopped (t :: rest) rest = [t] := by
  have hnot := (List.nodup_cons.mp h).1
  unfold stopped
  rw [List.filter_cons_of_pos (by simpa using hnot)]
  exact congrArg (List.cons t) (stopped_of_subset (List.Subset.refl rest))

theorem stopped_erase {before : List T} (h : before.Nodup) (t : T) :
    stopped before (before.erase t) = if t ∈ before then [t] else [] := by
  induction before with
  | nil => rfl
  | cons u rest ih =>
    by_cases heq : u = t
    · subst heq
      rw [List.erase_cons_head, stopped_tail h, if_pos List.mem_cons_self]
    · have hrest := ih (List.nodup_cons.mp h).2
      have hkeep : stopped (u :: rest) (u :: rest.erase t) = stopped rest (rest.erase t) := by
        unfold stopped
        rw [List.filter_cons_of_neg (by simp)]
        apply List.filter_congr
        intro v hv
        have hne : v ≠ u := by
          rintro rfl
          exact (List.nodup_cons.mp h).1 hv
        simp [hne]
      rw [List.erase_cons_tail (by simpa using heq), hkeep, hrest]
      simp [Ne.symm heq]

end Calls

theorem addToWaitq_eq (prio : T → ℤ) (thread : T) (waitQ : List T) :
    addToWaitq prio thread waitQ = enqueue (waitPos prio thread waitQ) thread waitQ := by
  induction waitQ with
  | nil => rfl
  | cons t rest ih =>
    by_cases hlt : prio thread < prio t
    · have hpos : waitPos prio thread (t :: rest) = 0 := by simp [waitPos, hlt]
      rw [addToWaitq, if_pos hlt, hpos]
      rfl
    · have hpos : waitPos prio thread (t :: rest) = waitPos prio thread rest + 1 := by
        simp [waitPos, not_lt.mp hlt]
      rw [addToWaitq, if_neg hlt, hpos, ih]
      rfl

/-- The queue uses the memory of the ring. -/
structure Laid (r : Ring) (s : State T) : Prop where
  size : s.msgSize = r.size
  max : s.maxMsgs = r.cap
  start : s.bufferStart = r.base
  stop : s.bufferEnd = r.stop

/-- The ring in memory and the waiting threads are what the queue of messages says. All
who wait wait for the same: to read while the ring is empty, and else to write. -/
structure Represents (r : Ring) (s : State T) (q : MsgQ T (List Byte) r.cap) : Prop
    extends Laid r s where
  ring : ∃ first, s.readPtr = r.slot first ∧ s.writePtr = r.slot (first + s.usedMsgs) ∧
    q.buf = r.items s.mem first s.usedMsgs
  reading : s.usedMsgs = 0 → q.readers = s.waitQ ∧ q.writers = []
  writing : s.usedMsgs ≠ 0 → q.readers = [] ∧
    q.writers = s.waitQ.map fun t => (t, slice s.mem (s.swapData t) r.size)
  nodup : s.waitQ.Nodup
  apart : ∀ t ∈ s.waitQ, r.Apart (s.swapData t) r.size
  pending : ∀ t ∈ s.waitQ, s.retval t = eagain

def Beside (off len off' len' : ℕ) : Prop := off + len ≤ off' ∨ off' + len' ≤ off

instance (off len off' len' : ℕ) : Decidable (Beside off len off' len') := instDecidableOr

/-- What the callers see to: a thread makes one call at a time, with a message of its own,
and other code stays off the ring and off the messages of the threads that wait. -/
def Sound (r : Ring) (s : State T) : Call T → Prop
  | .put self data => self ∉ s.waitQ ∧ r.Apart data r.size
  | .putNoWait data => r.Apart data r.size
  | .get self data => self ∉ s.waitQ ∧ r.Apart data r.size ∧
      ∀ t ∈ s.waitQ, Beside (s.swapData t) r.size data r.size
  | .getNoWait data => r.Apart data r.size ∧
      ∀ t ∈ s.waitQ, Beside (s.swapData t) r.size data r.size
  | .purge | .unpend _ => True
  | .store addr bytes => r.Apart addr bytes.length ∧
      ∀ t ∈ s.waitQ, Beside (s.swapData t) r.size addr bytes.length

instance [DecidableEq T] (r : Ring) (s : State T) : (c : Call T) → Decidable (Sound r s c)
  | .put self data => inferInstanceAs (Decidable (self ∉ s.waitQ ∧ r.Apart data r.size))
  | .putNoWait data => inferInstanceAs (Decidable (r.Apart data r.size))
  | .get self data => inferInstanceAs (Decidable (self ∉ s.waitQ ∧ r.Apart data r.size ∧
      ∀ t ∈ s.waitQ, Beside (s.swapData t) r.size data r.size))
  | .getNoWait data => inferInstanceAs (Decidable (r.Apart data r.size ∧
      ∀ t ∈ s.waitQ, Beside (s.swapData t) r.size data r.size))
  | .purge | .unpend _ => inferInstanceAs (Decidable True)
  | .store addr bytes => inferInstanceAs (Decidable (r.Apart addr bytes.length ∧
      ∀ t ∈ s.waitQ, Beside (s.swapData t) r.size addr bytes.length))

section Represented

variable {r : Ring} {s : State T} {q : MsgQ T (List Byte) r.cap}

theorem Represents.buf_length (h : Represents r s q) : q.buf.length = s.usedMsgs := by
  obtain ⟨first, _, _, hbuf⟩ := h.ring
  rw [hbuf, Ring.items_length]

theorem Represents.buf_nil (h : Represents r s q) (hused : s.usedMsgs = 0) : q.buf = [] :=
  List.length_eq_zero_iff.mp (h.buf_length.trans hused)

/-- Nobody waits while there is room and something to read. -/
theorem Represents.nobody (h : Represents r s q) (hroom : s.usedMsgs < s.maxMsgs)
    (hused : s.usedMsgs ≠ 0) : s.waitQ = [] := by
  by_contra hne
  have hwriters : q.writers ≠ [] := by
    rw [(h.writing hused).2]
    simpa using hne
  have hfull := q.writers_full hwriters
  rw [h.buf_length] at hfull
  rw [h.max] at hroom
  omega

/-- A write beside the messages that wait leaves them alone. -/
theorem slice_waiting (m : Region Byte) {size addr : ℕ} {bytes : List Byte} {swapData : T → ℕ}
    {waitQ : List T} (hbeside : ∀ t ∈ waitQ, Beside (swapData t) size addr bytes.length) :
    (waitQ.map fun t => (t, slice (write m addr bytes) (swapData t) size)) =
      waitQ.map fun t => (t, slice m (swapData t) size) := by
  apply List.map_congr_left
  intro t ht
  have hor := hbeside t ht
  rw [slice_write_beside m bytes hor]

/-- A write beside the ring and beside the messages that wait changes nothing. -/
theorem Represents.store (h : Represents r s q) {addr : ℕ} {bytes : List Byte}
    (hsound : Sound r s (.store addr bytes)) :
    Represents r { s with mem := write s.mem addr bytes } q := by
  obtain ⟨hapart, hbeside⟩ := hsound
  obtain ⟨first, hread, hwrite, hbuf⟩ := h.ring
  refine ⟨⟨h.size, h.max, h.start, h.stop⟩, ⟨first, hread, hwrite, ?_⟩, h.reading, ?_, h.nodup,
    h.apart, h.pending⟩
  · exact hbuf.trans (r.items_write_apart s.mem first s.usedMsgs hapart).symm
  · intro hused
    rw [slice_waiting s.mem hbeside]
    exact h.writing hused

theorem Represents.pend_nodup (h : Represents r s q) (prio : T → ℤ) {self : T}
    (hself : self ∉ s.waitQ) : (addToWaitq prio self s.waitQ).Nodup := by
  rw [addToWaitq_eq, (enqueue_perm _ self s.waitQ).nodup_iff]
  exact List.nodup_cons.mpr ⟨hself, h.nodup⟩

/-- Nobody but readers waits while there is room. -/
theorem Represents.readers_of_room (h : Represents r s q) (hroom : s.usedMsgs < s.maxMsgs) :
    q.readers = s.waitQ := by
  by_cases hused : s.usedMsgs = 0
  · exact (h.reading hused).1
  · rw [(h.writing hused).1, h.nobody hroom hused]

theorem Represents.writers_of_used (h : Represents r s q) (hused : s.usedMsgs ≠ 0) :
    q.writers.map Prod.fst = s.waitQ := by
  rw [(h.writing hused).2, List.map_map]
  exact List.map_id _

/-- The readers and the writers of the queue of messages are those who wait. -/
theorem Represents.waiting (h : Represents r s q) :
    q.readers ++ q.writers.map Prod.fst = s.waitQ := by
  by_cases hused : s.usedMsgs = 0
  · obtain ⟨hreaders, hwriters⟩ := h.reading hused
    rw [hreaders, hwriters, List.map_nil, List.append_nil]
  · rw [h.writers_of_used hused, (h.writing hused).1, List.nil_append]

variable [DecidableEq T]

/-- The others wait on when a thread is woken. -/
theorem pending_rest {retval : T → ℤ} {thread : T} {rest : List T}
    (hnodup : (thread :: rest).Nodup) (h : ∀ t ∈ thread :: rest, retval t = eagain) :
    ∀ t ∈ rest, Function.update retval thread 0 t = eagain := by
  intro t ht
  have hne : t ≠ thread := by
    rintro rfl
    exact (List.nodup_cons.mp hnodup).1 ht
  rw [Function.update_of_ne hne]
  exact h t (List.mem_cons_of_mem thread ht)

theorem Represents.pend_pending (h : Represents r s q) (prio : T → ℤ) (self : T) :
    ∀ t ∈ addToWaitq prio self s.waitQ, Function.update s.retval self eagain t = eagain := by
  intro t ht
  rw [addToWaitq_eq, mem_enqueue] at ht
  by_cases heq : t = self
  · rw [heq, Function.update_self]
  · rw [Function.update_of_ne heq]
    exact h.pending t (ht.resolve_left heq)

theorem Represents.pend_apart (h : Represents r s q) (prio : T → ℤ) {self : T} {data : ℕ}
    (hapart : r.Apart data r.size) :
    ∀ t ∈ addToWaitq prio self s.waitQ,
      r.Apart (Function.update s.swapData self data t) r.size := by
  intro t ht
  rw [addToWaitq_eq, mem_enqueue] at ht
  by_cases heq : t = self
  · rw [heq, Function.update_self]
    exact hapart
  · rw [Function.update_of_ne heq]
    exact h.apart t (ht.resolve_left heq)

/-- A thread that finds nothing to read comes to wait. -/
theorem Represents.pendRead (h : Represents r s q) (prio : T → ℤ) {self : T} {data : ℕ}
    (hself : self ∉ s.waitQ) (hapart : r.Apart data r.size) (hused : s.usedMsgs = 0) :
    Represents r (zPendCurr prio self data s) (q.pendRead (waitPos prio self s.waitQ) self) := by
  obtain ⟨hreaders, hwriters⟩ := h.reading hused
  unfold MsgQ.pendRead
  rw [dif_pos (h.buf_nil hused)]
  refine ⟨⟨h.size, h.max, h.start, h.stop⟩, h.ring, ?_, fun hne => absurd hused hne,
    h.pend_nodup prio hself, h.pend_apart prio hapart, h.pend_pending prio self⟩
  intro _
  refine ⟨?_, hwriters⟩
  simp only [zPendCurr]
  rw [hreaders, addToWaitq_eq]

/-- A thread that finds no room comes to wait with its message. -/
theorem Represents.pendWrite (h : Represents r s q) (prio : T → ℤ) {self : T} {data : ℕ}
    (hself : self ∉ s.waitQ) (hapart : r.Apart data r.size) (hfull : ¬ s.usedMsgs < s.maxMsgs) :
    Represents r (zPendCurr prio self data s)
      (q.pendWrite (waitPos prio self s.waitQ) self (slice s.mem data s.msgSize)) := by
  have hcap : q.buf.length = r.cap := by
    have hle := q.buf_le
    rw [h.buf_length] at hle ⊢
    rw [h.max] at hfull
    omega
  have hused : s.usedMsgs ≠ 0 := by
    have hpos := r.cap_pos
    rw [h.buf_length] at hcap
    omega
  obtain ⟨hreaders, hwriters⟩ := h.writing hused
  have hold : (s.waitQ.map fun t =>
      (t, slice s.mem (Function.update s.swapData self data t) r.size)) = q.writers := by
    rw [hwriters]
    apply List.map_congr_left
    intro t ht
    rw [Function.update_of_ne (ne_of_mem_of_not_mem ht hself)]
  unfold MsgQ.pendWrite
  rw [dif_pos hcap]
  refine ⟨⟨h.size, h.max, h.start, h.stop⟩, h.ring, fun heq => absurd heq hused, ?_,
    h.pend_nodup prio hself, h.pend_apart prio hapart, h.pend_pending prio self⟩
  intro _
  refine ⟨hreaders, ?_⟩
  simp only [zPendCurr]
  rw [addToWaitq_eq, MsgQ.enqueue_map, hold, Function.update_self, h.size]

omit [DecidableEq T] in
theorem Represents.put_full (h : Represents r s q) {m : List Byte} (hput : q.put m = .full) :
    ¬ s.usedMsgs < s.maxMsgs := by
  rw [h.max, ← h.buf_length]
  exact MsgQ.put_of_full hput

omit [DecidableEq T] in
theorem Represents.put_room (h : Represents r s q) {m : List Byte} (hput : q.put m ≠ .full) :
    s.usedMsgs < s.maxMsgs := by
  rw [h.max, ← h.buf_length]
  exact MsgQ.room_of_put hput

omit [DecidableEq T] in
/-- The ring with one message more. -/
theorem Laid.storeMsg (h : Laid r s) (data : ℕ) {first : ℕ}
    (hwrite : s.writePtr = r.slot (first + s.usedMsgs)) (hroom : s.usedMsgs < r.cap) :
    (storeMsg data s).writePtr = r.slot (first + (s.usedMsgs + 1)) ∧
      r.items (storeMsg data s).mem first (s.usedMsgs + 1) =
        r.items s.mem first s.usedMsgs ++ [slice s.mem data r.size] := by
  constructor
  · rw [← Nat.add_assoc, ← r.next_slot, Ring.next, ← hwrite, ← h.size, ← h.start, ← h.stop]
    rfl
  · simp only [KernelMsgq.storeMsg, memcpy, hwrite, h.size]
    exact r.items_write_slot s.mem (slice_length s.mem data r.size) hroom

omit [DecidableEq T] in
/-- What lies off the ring stays. -/
theorem Laid.storeMsg_apart (h : Laid r s) (data : ℕ) {i addr len : ℕ}
    (hwrite : s.writePtr = r.slot i) (hapart : r.Apart addr len) :
    slice (KernelMsgq.storeMsg data s).mem addr len = slice s.mem addr len := by
  have hlow := r.base_le_slot i
  have hhigh := r.slot_le_stop i
  simp only [KernelMsgq.storeMsg, memcpy]
  apply slice_write_beside
  rw [slice_length, hwrite, h.size]
  rcases hapart with hbelow | habove
  · exact Or.inl (by omega)
  · exact Or.inr (by omega)

omit [DecidableEq T] in
theorem takeMsg_beside {data : ℕ} {addr : ℕ}
    (hbeside : Beside addr s.msgSize data s.msgSize) :
    slice (takeMsg data s).mem addr s.msgSize = slice s.mem addr s.msgSize := by
  simp only [takeMsg, memcpy]
  apply slice_write_beside
  rwa [slice_length]

omit [DecidableEq T] in
/-- The ring without its oldest message, which has been copied out. -/
theorem Laid.takeMsg (h : Laid r s) {data first : ℕ} (hread : s.readPtr = r.slot first)
    (hused : s.usedMsgs ≠ 0) (hapart : r.Apart data r.size) :
    (takeMsg data s).readPtr = r.slot (first + 1) ∧
      r.items s.mem first s.usedMsgs = slice (takeMsg data s).mem data r.size ::
        r.items (takeMsg data s).mem (first + 1) (s.usedMsgs - 1) := by
  have hone : s.usedMsgs = s.usedMsgs - 1 + 1 := by omega
  have hlen := slice_length s.mem (r.slot first) r.size
  have hcopy := slice_write s.mem data (slice s.mem (r.slot first) r.size)
  rw [hlen] at hcopy
  constructor
  · rw [← r.next_slot, Ring.next, ← hread, ← h.size, ← h.start, ← h.stop]
    rfl
  · rw [hone, r.items_cons]
    simp only [KernelMsgq.takeMsg, memcpy, hread, h.size, Nat.add_sub_cancel]
    rw [hcopy, r.items_write_apart s.mem _ _ (by rwa [hlen])]

/-- The first thread that waits to read gets the message. -/
theorem Represents.putMsg_handed (h : Represents r s q) {data : ℕ} {thread : T}
    {q' : MsgQ T (List Byte) r.cap}
    (hput : q.put (slice s.mem data s.msgSize) = .handed thread q') :
    s.waitQ = thread :: q'.readers ∧ Represents r (putMsg data s) q' ∧
      slice (putMsg data s).mem (s.swapData thread) s.msgSize = slice s.mem data s.msgSize := by
  obtain ⟨hbuf, hreaders, hwriters⟩ := MsgQ.put_of_handed hput
  have hempty : q.buf = [] := q.readers_idle (by simp [hreaders])
  have hused : s.usedMsgs = 0 := by rw [← h.buf_length, hempty, List.length_nil]
  obtain ⟨hwait, hnone⟩ := h.reading hused
  rw [hreaders] at hwait
  obtain ⟨first, hread, hwrite, _⟩ := h.ring
  have hnodup := h.nodup
  have hpending := h.pending
  rw [← hwait] at hnodup hpending
  refine ⟨hwait.symm, ?_, ?_⟩
  · simp only [putMsg, ← hwait]
    refine ⟨⟨h.size, h.max, h.start, h.stop⟩, ⟨first, hread, hwrite, ?_⟩, ?_,
      fun hne => absurd hused hne, (List.nodup_cons.mp hnodup).2, ?_,
      pending_rest hnodup hpending⟩
    · simp only [hbuf, hempty, hused, Ring.items_zero]
    · exact fun _ => ⟨rfl, hwriters.trans hnone⟩
    · intro t ht
      exact h.apart t (hwait ▸ List.mem_cons_of_mem thread ht)
  · simp only [putMsg, ← hwait, memcpy]
    have hlen := slice_length s.mem data s.msgSize
    have hread := slice_write s.mem (s.swapData thread) (slice s.mem data s.msgSize)
    rwa [hlen] at hread

/-- With nobody waiting the message goes into the ring. -/
theorem Represents.putMsg_stored (h : Represents r s q) {data : ℕ}
    {q' : MsgQ T (List Byte) r.cap} (hput : q.put (slice s.mem data s.msgSize) = .stored q') :
    s.waitQ = [] ∧ Represents r (putMsg data s) q' := by
  obtain ⟨hbuf, hidle, hreaders, hwriters⟩ := MsgQ.put_of_stored hput
  have hroom : s.usedMsgs < s.maxMsgs := h.put_room (by rw [hput]; rintro ⟨⟩)
  have hwait : s.waitQ = [] := by
    by_cases hused : s.usedMsgs = 0
    · rw [← (h.reading hused).1, hreaders]
    · exact h.nobody hroom hused
  have hnone : q.writers = [] := by
    by_cases hused : s.usedMsgs = 0
    · exact (h.reading hused).2
    · rw [(h.writing hused).2, hwait, List.map_nil]
  obtain ⟨first, hread, hwrite, hitems⟩ := h.ring
  have hcap : s.usedMsgs < r.cap := by rwa [h.max] at hroom
  obtain ⟨hptr, hnew⟩ := h.toLaid.storeMsg data hwrite hcap
  refine ⟨hwait, ?_⟩
  simp only [putMsg, hwait]
  refine ⟨⟨h.size, h.max, h.start, h.stop⟩, ⟨first, hread, hptr, ?_⟩, ?_, ?_, h.nodup, h.apart,
    h.pending⟩
  · rw [hbuf, hitems, h.size]
    exact hnew.symm
  · intro hzero
    exact absurd hzero (Nat.succ_ne_zero s.usedMsgs)
  · intro _
    refine ⟨hidle, ?_⟩
    simp only [storeMsg, hwait, List.map_nil]
    exact hwriters.trans hnone

/-- A read takes the oldest message out, and the first thread that waits to write gets the
room. -/
theorem Represents.getMsg (h : Represents r s q) {data : ℕ}
    (hapart : r.Apart data r.size)
    (hbeside : ∀ t ∈ s.waitQ, Beside (s.swapData t) r.size data r.size) {m : List Byte}
    {w : Option (T × List Byte)} {q' : MsgQ T (List Byte) r.cap}
    (hget : q.get = some (m, w, q')) :
    Represents r (getMsg data s) q' ∧ slice (getMsg data s).mem data s.msgSize = m := by
  obtain ⟨rest, hbuf, hmoves⟩ := MsgQ.get_moves hget
  obtain ⟨_, _, hidle, _⟩ := MsgQ.get_cases hget
  have hused : s.usedMsgs ≠ 0 := by
    rw [← h.buf_length, hbuf, List.length_cons]
    exact Nat.succ_ne_zero _
  obtain ⟨first, hread, hwrite, hitems⟩ := h.ring
  obtain ⟨hptr, htake⟩ := h.toLaid.takeMsg hread hused hapart
  rw [← hitems, hbuf] at htake
  obtain ⟨hm, hrest⟩ := List.cons.inj htake
  have hcount : first + s.usedMsgs = first + 1 + (s.usedMsgs - 1) := by omega
  rw [hcount] at hwrite
  obtain ⟨hreaders, hwriters⟩ := h.writing hused
  rcases hmoves with ⟨hnil, hbuf', hwriters'⟩ | ⟨v, ws, hw, hbuf', hwriters'⟩
  · have hwait : s.waitQ = [] := by
      rw [hwriters] at hnil
      exact List.map_eq_nil_iff.mp hnil
    simp only [KernelMsgq.getMsg, hwait]
    refine ⟨⟨⟨h.size, h.max, h.start, h.stop⟩, ⟨first + 1, hptr, hwrite, ?_⟩, ?_, ?_, h.nodup,
      h.apart, h.pending⟩, ?_⟩
    · rw [hbuf', hrest]
      rfl
    · intro _
      refine ⟨?_, hwriters'⟩
      rw [hidle]
      exact hwait.symm
    · intro _
      refine ⟨hidle, ?_⟩
      simp only [takeMsg, hwait, List.map_nil]
      exact hwriters'
    · rw [h.size]
      exact hm.symm
  · rw [hw] at hwriters
    obtain ⟨thread, waiting, hwait, hv, hws⟩ := List.map_eq_cons_iff.mp hwriters.symm
    have hlaid : Laid r (takeMsg data s) := ⟨h.size, h.max, h.start, h.stop⟩
    have hcap : s.usedMsgs ≤ r.cap := by
      rw [← h.buf_length]
      exact q.buf_le
    have hroom : s.usedMsgs - 1 < r.cap := by omega
    obtain ⟨hptr', hstore⟩ := hlaid.storeMsg (s.swapData thread) hwrite hroom
    have hmem : ∀ t ∈ s.waitQ, slice (takeMsg data s).mem (s.swapData t) r.size =
        slice s.mem (s.swapData t) r.size := by
      intro t ht
      have hbeside' := hbeside t ht
      rw [← h.size] at hbeside' ⊢
      exact takeMsg_beside hbeside'
    have hkeep : ∀ {addr : ℕ}, r.Apart addr r.size →
        slice (storeMsg (s.swapData thread) (takeMsg data s)).mem addr r.size =
          slice (takeMsg data s).mem addr r.size :=
      fun ha => hlaid.storeMsg_apart (s.swapData thread) hwrite ha
    have hin : ∀ t ∈ waiting, t ∈ s.waitQ := by
      intro t ht
      rw [hwait]
      exact List.mem_cons_of_mem thread ht
    have hnodup := h.nodup
    have hpending := h.pending
    rw [hwait] at hnodup hpending
    simp only [KernelMsgq.getMsg, hwait]
    refine ⟨⟨⟨h.size, h.max, h.start, h.stop⟩, ⟨first + 1, hptr, hptr', ?_⟩, ?_, ?_,
      (List.nodup_cons.mp hnodup).2, fun t ht => h.apart t (hin t ht),
      pending_rest hnodup hpending⟩, ?_⟩
    · rw [hbuf', hrest, ← hv, ← hmem thread (by simp [hwait])]
      exact hstore.symm
    · intro hzero
      exact absurd hzero (Nat.succ_ne_zero _)
    · intro _
      refine ⟨hidle, ?_⟩
      rw [hwriters', ← hws]
      apply List.map_congr_left
      intro t ht
      have hslice := (hkeep (h.apart t (hin t ht))).trans (hmem t (hin t ht))
      exact congrArg (Prod.mk t) hslice.symm
    · rw [h.size]
      exact (hkeep hapart).trans hm.symm

theorem Represents.getMsg_some (h : Represents r s q) {data : ℕ} (hused : s.usedMsgs ≠ 0)
    (hapart : r.Apart data r.size)
    (hbeside : ∀ t ∈ s.waitQ, Beside (s.swapData t) r.size data r.size) :
    ∃ m w q', q.get = some (m, w, q') ∧ Represents r (KernelMsgq.getMsg data s) q' ∧
      slice (KernelMsgq.getMsg data s).mem data s.msgSize = m := by
  cases hget : q.get with
  | none =>
    have hlen := h.buf_length
    rw [MsgQ.get_none hget] at hlen
    exact absurd hlen.symm hused
  | some g =>
    obtain ⟨m, w, q'⟩ := g
    obtain ⟨hrep, hmsg⟩ := h.getMsg hapart hbeside hget
    exact ⟨m, w, q', rfl, hrep, hmsg⟩

theorem Represents.purge (h : Represents r s q) : Represents r (kMsgqPurge s) MsgQ.empty := by
  obtain ⟨first, _, hwrite, _⟩ := h.ring
  refine ⟨⟨h.size, h.max, h.start, h.stop⟩, ⟨first + s.usedMsgs, hwrite, hwrite, rfl⟩, ?_, ?_,
    List.nodup_nil, fun t ht => absurd ht List.not_mem_nil,
    fun t ht => absurd ht List.not_mem_nil⟩
  · exact fun _ => ⟨rfl, rfl⟩
  · exact fun hne => absurd rfl hne

/-- A thread that stops waiting takes its message with it. -/
theorem Represents.unpend (h : Represents r s q) (thread : T) :
    Represents r (zUnpend thread s) (q.cancel thread) := by
  have hfilter : s.waitQ.erase thread = s.waitQ.filter (· ≠ thread) := by
    rw [h.nodup.erase_eq_filter]
    apply List.filter_congr
    intro t _
    exact Bool.eq_iff_iff.mpr (by simp)
  refine ⟨⟨h.size, h.max, h.start, h.stop⟩, h.ring, ?_, ?_, h.nodup.erase thread,
    fun t ht => h.apart t (List.mem_of_mem_erase ht),
    fun t ht => h.pending t (List.mem_of_mem_erase ht)⟩
  · intro hused
    obtain ⟨hreaders, hwriters⟩ := h.reading hused
    simp only [MsgQ.cancel, zUnpend, hreaders, hwriters, hfilter, List.filter_nil, and_self]
  · intro hused
    obtain ⟨hreaders, hwriters⟩ := h.writing hused
    simp only [MsgQ.cancel, zUnpend, hreaders, hwriters, hfilter, List.filter_nil, true_and]
    rw [List.filter_map]
    rfl

/-- A put that finds room hands the message over or stores it, whether or not it would
have waited. -/
theorem Represents.putMsg (h : Represents r s q) (data : ℕ)
    (hroom : s.usedMsgs < s.maxMsgs) : ∃ q' d,
      (∀ pos self, QueueCall.exec q (.put pos self (slice s.mem data s.msgSize)) = (q', d)) ∧
      QueueCall.exec q (.putNoWait (slice s.mem data s.msgSize)) = (q', d) ∧
      Represents r (putMsg data s) q' ∧
      (s.waitQ.head?.map s.swapData).map
        (fun dst => slice (KernelMsgq.putMsg data s).mem dst s.msgSize) = d := by
  cases hput : q.put (slice s.mem data s.msgSize) with
  | handed thread q' =>
    obtain ⟨hwait, hrep, hmsg⟩ := h.putMsg_handed hput
    refine ⟨q', some (slice s.mem data s.msgSize), ?_, ?_, hrep, ?_⟩
    · intro pos self
      simp only [QueueCall.exec, hput]
    · simp only [QueueCall.exec, hput]
    · simp only [hwait, List.head?_cons, Option.map_some, hmsg]
  | stored q' =>
    obtain ⟨hwait, hrep⟩ := h.putMsg_stored hput
    refine ⟨q', none, ?_, ?_, hrep, ?_⟩
    · intro pos self
      simp only [QueueCall.exec, hput]
    · simp only [QueueCall.exec, hput]
    · simp only [hwait, List.head?_nil, Option.map_none]
  | full => exact absurd hroom (h.put_full hput)

/-- One call: the ring does what the queue of messages does, and a reader finds the message
where it wants it. -/
theorem Represents.exec (h : Represents r s q) (prio : T → ℤ) {c : Call T}
    (hsound : Sound r s c) : Represents r (c.exec prio s) ((c.onMessages prio s).exec q).1 ∧
      c.delivered prio s = ((c.onMessages prio s).exec q).2 := by
  have hnoRoom (m : List Byte) (hfull : ¬ s.usedMsgs < s.maxMsgs) : q.put m = .full := by
    rw [h.max, ← h.buf_length] at hfull
    exact MsgQ.put_of_no_room hfull
  cases c with
  | put self data =>
    by_cases hroom : s.usedMsgs < s.maxMsgs
    · obtain ⟨q', d, hexec, _, hrep, hd⟩ := h.putMsg data hroom
      simp only [Call.exec, Call.delivered, Call.target, Call.onMessages, kMsgqPut, if_pos hroom,
        hexec]
      exact ⟨hrep, hd⟩
    · simp only [Call.exec, Call.delivered, Call.target, Call.onMessages, QueueCall.exec, kMsgqPut,
        hnoRoom _ hroom, if_neg hroom, Option.map_none]
      exact ⟨h.pendWrite prio hsound.1 hsound.2 hroom, trivial⟩
  | putNoWait data =>
    by_cases hroom : s.usedMsgs < s.maxMsgs
    · obtain ⟨q', d, _, hexec, hrep, hd⟩ := h.putMsg data hroom
      simp only [Call.exec, Call.delivered, Call.target, Call.onMessages, kMsgqPutNoWait,
        if_pos hroom, hexec]
      exact ⟨hrep, hd⟩
    · simp only [Call.exec, Call.delivered, Call.target, Call.onMessages, QueueCall.exec,
        kMsgqPutNoWait, hnoRoom _ hroom, if_neg hroom, Option.map_none]
      exact ⟨h, trivial⟩
  | get self data =>
    by_cases hused : s.usedMsgs = 0
    · have hget : q.get = none := MsgQ.get_of_empty (h.buf_nil hused)
      have hnot : ¬ 0 < s.usedMsgs := by omega
      simp only [Call.exec, Call.delivered, Call.target, Call.onMessages, QueueCall.exec, kMsgqGet,
        hget, if_neg hnot, Option.map_none]
      exact ⟨h.pendRead prio hsound.1 hsound.2.1 hused, trivial⟩
    · obtain ⟨m, w, q', hget, hrep, hmsg⟩ := h.getMsg_some hused hsound.2.1 hsound.2.2
      simp only [Call.exec, Call.delivered, Call.target, Call.onMessages, QueueCall.exec, kMsgqGet,
        hget, if_pos (Nat.pos_of_ne_zero hused), Option.map_some, hmsg]
      exact ⟨hrep, trivial⟩
  | getNoWait data =>
    by_cases hused : s.usedMsgs = 0
    · have hget : q.get = none := MsgQ.get_of_empty (h.buf_nil hused)
      have hnot : ¬ 0 < s.usedMsgs := by omega
      simp only [Call.exec, Call.delivered, Call.target, Call.onMessages, QueueCall.exec,
        kMsgqGetNoWait, hget, if_neg hnot, Option.map_none]
      exact ⟨h, trivial⟩
    · obtain ⟨m, w, q', hget, hrep, hmsg⟩ := h.getMsg_some hused hsound.1 hsound.2
      simp only [Call.exec, Call.delivered, Call.target, Call.onMessages, QueueCall.exec,
        kMsgqGetNoWait, hget, if_pos (Nat.pos_of_ne_zero hused), Option.map_some, hmsg]
      exact ⟨hrep, trivial⟩
  | purge => exact ⟨h.purge, rfl⟩
  | unpend thread => exact ⟨h.unpend thread, rfl⟩
  | store addr bytes => exact ⟨h.store hsound, rfl⟩

omit [DecidableEq T] in
theorem Represents.accepted (h : Represents r s q) (prio : T → ℤ) (c : Call T) :
    c.accepted s = (c.onMessages prio s).accepted q := by
  have hlen := h.buf_length
  cases c with
  | put self data | putNoWait data =>
    simp only [Call.accepted, Call.onMessages, QueueCall.accepted, hlen, h.max]
  | get self data | getNoWait data =>
    by_cases hused : s.usedMsgs = 0
    · have hempty := h.buf_nil hused
      simp [Call.accepted, Call.onMessages, QueueCall.accepted, hempty, hused]
    · have hsome : q.buf.isEmpty = false := by
        rw [List.isEmpty_eq_false_iff, ne_eq, ← List.length_eq_zero_iff, hlen]
        exact hused
      simp only [Call.accepted, Call.onMessages, QueueCall.accepted, hsome, (h.writing hused).2,
        if_pos (Nat.pos_of_ne_zero hused), h.size]
      cases s.waitQ with
      | nil => rfl
      | cons t rest => rfl
  | purge | unpend thread | store addr bytes => rfl

end Represented

end NcsProjects.KernelMsgq
