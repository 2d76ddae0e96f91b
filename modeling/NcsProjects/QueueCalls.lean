import Mathlib.Data.List.Perm.Subperm
import NcsProjects.MessageQueues

/-!
The calls on a message queue, as data. A call leaves a queue behind and delivers at
most one message, to a thread that reads. It returns at once or when another call ends
the wait of its thread. It treats all messages alike: what it does to marked messages
is what it does to the messages without their marks, so that a second queue of marked
messages can be carried along with a queue.
-/
namespace NcsProjects.MessageQueues

open Semaphores

variable {T M N : Type*} {cap : ℕ}

/-- A call with the thread that makes it and the place where this thread would wait. -/
inductive QueueCall (T M : Type*)
  | put (pos : ℕ) (self : T) (m : M)
  | putNoWait (m : M)
  | get (pos : ℕ) (self : T)
  | getNoWait
  | purge
  | cancel (t : T)
  | quiet

namespace QueueCall

def map (f : M → N) : QueueCall T M → QueueCall T N
  | .put pos self m => .put pos self (f m)
  | .putNoWait m => .putNoWait (f m)
  | .get pos self => .get pos self
  | .getNoWait => .getNoWait
  | .purge => .purge
  | .cancel t => .cancel t
  | .quiet => .quiet

/-- The message that the call brings. -/
def message : QueueCall T M → Option M
  | .put _ _ m | .putNoWait m => some m
  | .get _ _ | .getNoWait | .purge | .cancel _ | .quiet => none

@[simp] theorem message_map (f : M → N) (c : QueueCall T M) :
    (c.map f).message = c.message.map f := by
  cases c <;> rfl

/-- Marks that are taken off again leave the call as it was. -/
theorem map_map_of_inverse {f : M → N} {g : N → M} (hg : ∀ m, g (f m) = m) (c : QueueCall T M) :
    (c.map f).map g = c := by
  cases c with
  | put pos self m => simp only [map, hg]
  | putNoWait m => simp only [map, hg]
  | get pos self | getNoWait | purge | cancel t | quiet => rfl

variable [DecidableEq T]

/-- The queue after the call, and the message that the call delivers. -/
def exec (q : MsgQ T M cap) : QueueCall T M → MsgQ T M cap × Option M
  | .put pos self m =>
    match q.put m with
    | .handed _ q' => (q', some m)
    | .stored q' => (q', none)
    | .full => (q.pendWrite pos self m, none)
  | .putNoWait m =>
    match q.put m with
    | .handed _ q' => (q', some m)
    | .stored q' => (q', none)
    | .full => (q, none)
  | .get pos self =>
    match q.get with
    | some (m, _, q') => (q', some m)
    | none => (q.pendRead pos self, none)
  | .getNoWait =>
    match q.get with
    | some (m, _, q') => (q', some m)
    | none => (q, none)
  | .purge => (MsgQ.empty, none)
  | .cancel t => (q.cancel t, none)
  | .quiet => (q, none)

end QueueCall

namespace MsgQ

def map (f : M → N) (q : MsgQ T M cap) : MsgQ T N cap where
  buf := q.buf.map f
  readers := q.readers
  writers := q.writers.map fun w => (w.1, f w.2)
  buf_le := by simpa using q.buf_le
  readers_idle := by
    intro hne
    rw [q.readers_idle hne]
    rfl
  writers_full := by
    intro hne
    rw [List.length_map]
    apply q.writers_full
    intro hnil
    simp [hnil] at hne

def Put.map (f : M → N) : Put T M cap → Put T N cap
  | .handed r q => .handed r (q.map f)
  | .stored q => .stored (q.map f)
  | .full => .full

theorem ext {q r : MsgQ T M cap} (hbuf : q.buf = r.buf) (hreaders : q.readers = r.readers)
    (hwriters : q.writers = r.writers) : q = r := by
  cases q
  cases r
  cases hbuf
  cases hreaders
  cases hwriters
  rfl

theorem put_map (f : M → N) (q : MsgQ T M cap) (m : M) :
    (q.map f).put (f m) = (q.put m).map f := by
  obtain ⟨buf, readers, writers, hle, hidle, hfull⟩ := q
  by_cases hroom : buf.length < cap
  · have hroom' : (buf.map f).length < cap := by simpa using hroom
    unfold put
    rw [dif_pos hroom, dif_pos (by exact hroom')]
    cases readers with
    | nil => exact congrArg Put.stored (ext (by simp [map]) rfl rfl)
    | cons r rest => rfl
  · rw [put_of_no_room (by simpa [map] using hroom), put_of_no_room hroom]
    rfl

theorem get_map (f : M → N) (q : MsgQ T M cap) : (q.map f).get =
    q.get.map fun g => (f g.1, g.2.1.map (fun w => (w.1, f w.2)), g.2.2.map f) := by
  obtain ⟨buf, readers, writers, hle, hidle, hfull⟩ := q
  cases buf with
  | nil => rfl
  | cons m rest =>
    cases writers with
    | nil => rfl
    | cons w ws =>
      refine congrArg (fun q' => some (f m, some (w.1, f w.2), q')) (ext ?_ rfl rfl)
      simp [map]

theorem enqueue_map (f : M → N) (pos : ℕ) (m : M) (waiters : List M) :
    (enqueue pos m waiters).map f = enqueue pos (f m) (waiters.map f) := by
  simp only [enqueue, List.map_append, List.map_cons, List.map_take, List.map_drop]

theorem pendRead_map (f : M → N) (q : MsgQ T M cap) (pos : ℕ) (t : T) :
    (q.map f).pendRead pos t = (q.pendRead pos t).map f := by
  by_cases hempty : q.buf = []
  · have hempty' : (q.map f).buf = [] := by simp [map, hempty]
    unfold pendRead
    rw [dif_pos hempty, dif_pos hempty']
    rfl
  · have hempty' : (q.map f).buf ≠ [] := by simpa [map] using hempty
    unfold pendRead
    rw [dif_neg hempty, dif_neg hempty']

theorem pendWrite_map (f : M → N) (q : MsgQ T M cap) (pos : ℕ) (t : T) (m : M) :
    (q.map f).pendWrite pos t (f m) = (q.pendWrite pos t m).map f := by
  have hlen : (q.map f).buf.length = q.buf.length := List.length_map _
  by_cases hfull : q.buf.length = cap
  · unfold pendWrite
    rw [dif_pos hfull, dif_pos (hlen.trans hfull)]
    exact ext rfl rfl (enqueue_map _ pos (t, m) q.writers).symm
  · unfold pendWrite
    rw [dif_neg hfull, dif_neg (by rwa [hlen])]

theorem cancel_map [DecidableEq T] (f : M → N) (q : MsgQ T M cap) (t : T) :
    (q.map f).cancel t = (q.cancel t).map f := by
  apply ext
  · rfl
  · rfl
  · exact List.filter_map

end MsgQ

namespace QueueCall

variable [DecidableEq T]

/-- A call on a queue of marked messages does what it does without the marks. -/
theorem exec_map (f : M → N) (c : QueueCall T M) (q : MsgQ T M cap) :
    (c.map f).exec (q.map f) = ((c.exec q).1.map f, (c.exec q).2.map f) := by
  cases c with
  | put pos self m =>
    simp only [map, exec, MsgQ.put_map]
    cases q.put m with
    | handed r q' => rfl
    | stored q' => rfl
    | full => simp only [MsgQ.Put.map, MsgQ.pendWrite_map, Option.map_none]
  | putNoWait m =>
    simp only [map, exec, MsgQ.put_map]
    cases q.put m with
    | handed r q' => rfl
    | stored q' => rfl
    | full => rfl
  | get pos self =>
    simp only [map, exec, MsgQ.get_map]
    cases q.get with
    | none => simp only [Option.map_none, MsgQ.pendRead_map]
    | some g => rfl
  | getNoWait =>
    simp only [map, exec, MsgQ.get_map]
    cases q.get with
    | none => rfl
    | some g => rfl
  | purge => rfl
  | cancel t => simp only [map, exec, MsgQ.cancel_map, Option.map_none]
  | quiet => rfl

/-- What all messages of the queue have, and the message of the call, all messages have
afterwards, and the one that is delivered. -/
theorem exec_all {P : M → Prop} {q : MsgQ T M cap} {c : QueueCall T M} (h : q.All P)
    (hc : ∀ m ∈ c.message, P m) : (c.exec q).1.All P ∧ ∀ m ∈ (c.exec q).2, P m := by
  cases c with
  | put pos self m =>
    have hm : P m := hc m rfl
    simp only [exec]
    split
    · rename_i hput
      exact ⟨h.handed hput, by simpa using hm⟩
    · rename_i hput
      exact ⟨h.stored hm hput, by simp⟩
    · exact ⟨h.pendWrite hm, by simp⟩
  | putNoWait m =>
    have hm : P m := hc m rfl
    simp only [exec]
    split
    · rename_i hput
      exact ⟨h.handed hput, by simpa using hm⟩
    · rename_i hput
      exact ⟨h.stored hm hput, by simp⟩
    · exact ⟨h, by simp⟩
  | get pos self =>
    simp only [exec]
    split
    · rename_i hget
      obtain ⟨hm, _, hq⟩ := h.get hget
      exact ⟨hq, by simpa using hm⟩
    · exact ⟨h.pendRead, by simp⟩
  | getNoWait =>
    simp only [exec]
    split
    · rename_i hget
      obtain ⟨hm, _, hq⟩ := h.get hget
      exact ⟨hq, by simpa using hm⟩
    · exact ⟨h, by simp⟩
  | purge => exact ⟨MsgQ.all_empty, by simp [exec]⟩
  | cancel t => exact ⟨h.cancel, by simp [exec]⟩
  | quiet => exact ⟨h, by simp [exec]⟩

/-- A thread that waits to write waits on, or its message is in the queue. -/
theorem exec_writers {q : MsgQ T M cap} {c : QueueCall T M} {w : T × M} (hw : w ∈ q.writers)
    (hpurge : c ≠ .purge) (hcancel : c ≠ .cancel w.1) :
    w ∈ (c.exec q).1.writers ∨ w.2 ∈ (c.exec q).1.buf := by
  cases c with
  | put pos self m =>
    simp only [exec]
    split
    · rename_i hput
      exact Or.inl ((MsgQ.put_of_handed hput).2.2.symm ▸ hw)
    · rename_i hput
      exact Or.inl ((MsgQ.put_of_stored hput).2.2.2.symm ▸ hw)
    · exact Or.inl (MsgQ.mem_pendWrite_of_mem pos self m hw)
  | putNoWait m =>
    simp only [exec]
    split
    · rename_i hput
      exact Or.inl ((MsgQ.put_of_handed hput).2.2.symm ▸ hw)
    · rename_i hput
      exact Or.inl ((MsgQ.put_of_stored hput).2.2.2.symm ▸ hw)
    · exact Or.inl hw
  | get pos self =>
    simp only [exec]
    split
    · rename_i hget
      rcases MsgQ.get_writers hget hw with hold | hnew
      · exact Or.inl hold
      · exact Or.inr hnew
    · refine Or.inl ?_
      unfold MsgQ.pendRead
      split <;> exact hw
  | getNoWait =>
    simp only [exec]
    split
    · rename_i hget
      rcases MsgQ.get_writers hget hw with hold | hnew
      · exact Or.inl hold
      · exact Or.inr hnew
    · exact Or.inl hw
  | purge => exact absurd rfl hpurge
  | cancel t =>
    refine Or.inl (List.mem_filter.mpr ⟨hw, ?_⟩)
    rw [decide_eq_true_iff]
    rintro rfl
    exact hcancel rfl
  | quiet => exact Or.inl hw

/-- The message that the call lets into the queue: that of a put that finds room, or that of
the writer for whom a get makes room. -/
def accepted (q : MsgQ T M cap) : QueueCall T M → Option M
  | .put _ _ m | .putNoWait m => if q.buf.length < cap then some m else none
  | .get _ _ | .getNoWait => if q.buf.isEmpty then none else q.writers.head?.map Prod.snd
  | .purge | .cancel _ | .quiet => none

/-- First in, first out: but for a purge, what is delivered and what stays is what was
there and what is let in. -/
theorem exec_fifo (q : MsgQ T M cap) {c : QueueCall T M} (hpurge : c ≠ .purge) :
    (c.exec q).2.toList ++ (c.exec q).1.buf = q.buf ++ (c.accepted q).toList := by
  have hhanded : ∀ m r q', q.put m = .handed r q' →
      (some m).toList ++ q'.buf = q.buf ++ [m] := by
    intro m r q' hput
    obtain ⟨hbuf, hreaders, _⟩ := MsgQ.put_of_handed hput
    have hidle : q.buf = [] := q.readers_idle (by simp [hreaders])
    rw [hbuf, hidle]
    rfl
  cases c with
  | put pos self m | putNoWait m =>
    cases hput : q.put m with
    | handed r q' =>
      have hroom := MsgQ.room_of_put (by rw [hput]; rintro ⟨⟩)
      simp only [exec, accepted, hput, hroom, if_true]
      exact hhanded m r q' hput
    | stored q' =>
      have hroom := MsgQ.room_of_put (by rw [hput]; rintro ⟨⟩)
      simp [exec, accepted, hput, hroom, (MsgQ.put_of_stored hput).1]
    | full =>
      have hroom := MsgQ.put_of_full hput
      simp [exec, accepted, hput, hroom]
  | get pos self | getNoWait =>
    cases hget : q.get with
    | none =>
      have hempty := MsgQ.get_none hget
      simp [exec, accepted, hget, hempty]
    | some g =>
      obtain ⟨m, w, q'⟩ := g
      obtain ⟨rest, hbuf, ⟨hnil, hrest, _⟩ | ⟨v, ws, hw, hrest, _⟩⟩ := MsgQ.get_moves hget
      · simp [exec, accepted, hget, hbuf, hnil, hrest]
      · simp [exec, accepted, hget, hbuf, hw, hrest]
  | purge => exact absurd rfl hpurge
  | cancel t | quiet => simp [exec, accepted, MsgQ.cancel]

/-- No message comes into the queue, or to wait for room there, but the one that is
brought. -/
theorem exec_custody (q : MsgQ T M cap) (c : QueueCall T M) :
    ((c.accepted q).toList ++ (c.exec q).1.writers.map Prod.snd).Subperm
      (c.message.toList ++ q.writers.map Prod.snd) := by
  have hsame : ∀ {l l' : List M}, l = l' → l.Subperm l' := by
    intro l l' h
    rw [h]
  cases c with
  | put pos self m =>
    cases hput : q.put m with
    | handed r q' =>
      have hroom := MsgQ.room_of_put (by rw [hput]; rintro ⟨⟩)
      apply hsame
      simp [exec, accepted, message, hput, hroom, (MsgQ.put_of_handed hput).2.2]
    | stored q' =>
      have hroom := MsgQ.room_of_put (by rw [hput]; rintro ⟨⟩)
      apply hsame
      simp [exec, accepted, message, hput, hroom, (MsgQ.put_of_stored hput).2.2.2]
    | full =>
      have hroom := MsgQ.put_of_full hput
      simp only [exec, accepted, message, hput, hroom, if_false, Option.toList, List.nil_append]
      exact ((MsgQ.pendWrite_writers pos self m hroom).map Prod.snd).subperm
  | putNoWait m =>
    cases hput : q.put m with
    | handed r q' =>
      have hroom := MsgQ.room_of_put (by rw [hput]; rintro ⟨⟩)
      apply hsame
      simp [exec, accepted, message, hput, hroom, (MsgQ.put_of_handed hput).2.2]
    | stored q' =>
      have hroom := MsgQ.room_of_put (by rw [hput]; rintro ⟨⟩)
      apply hsame
      simp [exec, accepted, message, hput, hroom, (MsgQ.put_of_stored hput).2.2.2]
    | full =>
      have hroom := MsgQ.put_of_full hput
      simp only [exec, accepted, message, hput, hroom, if_false, Option.toList, List.nil_append]
      exact (List.sublist_cons_self _ _).subperm
  | get pos self | getNoWait =>
    apply hsame
    cases hget : q.get with
    | none =>
      have hempty := MsgQ.get_none hget
      simp [exec, accepted, message, hget, hempty]
    | some g =>
      obtain ⟨m, w, q'⟩ := g
      obtain ⟨rest, hbuf, ⟨hnil, _, hwriters⟩ | ⟨v, ws, hw, _, hwriters⟩⟩ := MsgQ.get_moves hget
      · simp [exec, accepted, message, hget, hbuf, hnil, hwriters]
      · simp [exec, accepted, message, hget, hbuf, hw, hwriters]
  | purge => exact List.nil_subperm
  | cancel t => exact (List.Sublist.map _ List.filter_sublist).subperm
  | quiet => exact List.Subperm.refl _

/-- A message is delivered to a get, or to the first thread that waits for one. -/
theorem exec_delivered {q : MsgQ T M cap} {c : QueueCall T M} {m : M}
    (h : (c.exec q).2 = some m) :
    ((∃ pos self, c = .get pos self) ∨ c = .getNoWait) ∨
      ∃ r, q.readers = r :: (c.exec q).1.readers := by
  cases c with
  | put pos self m | putNoWait m =>
    cases hput : q.put m with
    | handed r q' =>
      simp only [exec, hput]
      exact Or.inr ⟨r, (MsgQ.put_of_handed hput).2.1⟩
    | stored q' | full => simp [exec, hput] at h
  | get pos self => exact Or.inl (Or.inl ⟨pos, self, rfl⟩)
  | getNoWait => exact Or.inl (Or.inr rfl)
  | purge | cancel t | quiet => cases h

/-- A thread that waits to read waits on while nothing is delivered. -/
theorem exec_reads {q : MsgQ T M cap} {c : QueueCall T M} {r : T} (hr : r ∈ q.readers)
    (hnone : (c.exec q).2 = none) (hpurge : c ≠ .purge) (hcancel : c ≠ .cancel r) :
    r ∈ (c.exec q).1.readers := by
  cases c with
  | put pos self m | putNoWait m =>
    cases hput : q.put m with
    | handed r' q' => simp [exec, hput] at hnone
    | stored q' =>
      rw [(MsgQ.put_of_stored hput).2.2.1] at hr
      cases hr
    | full => simpa [exec, hput] using hr
  | get pos self =>
    cases hget : q.get with
    | none =>
      simp only [exec, hget]
      unfold MsgQ.pendRead
      split
      · exact (mem_enqueue pos self r q.readers).mpr (Or.inr hr)
      · exact hr
    | some g => simp [exec, hget] at hnone
  | getNoWait =>
    cases hget : q.get with
    | none => simpa [exec, hget] using hr
    | some g => simp [exec, hget] at hnone
  | purge => exact absurd rfl hpurge
  | cancel t =>
    refine List.mem_filter.mpr ⟨hr, ?_⟩
    rw [decide_eq_true_iff]
    rintro rfl
    exact hcancel rfl
  | quiet => exact hr

/-- How a call ends: it is done, it is turned away for want of room or of a message or by
a purge, or its thread gives up waiting. -/
inductive Result
  | done
  | refused
  | gaveUp

/-- How the call ends for the thread that makes it, unless this thread waits. -/
def result (q : MsgQ T M cap) : QueueCall T M → Option Result
  | .put _ _ _ => if q.buf.length < cap then some .done else none
  | .putNoWait _ => some (if q.buf.length < cap then .done else .refused)
  | .get _ _ => if q.buf.isEmpty then none else some .done
  | .getNoWait => some (if q.buf.isEmpty then .refused else .done)
  | .purge | .cancel _ | .quiet => none

/-- The threads whose wait the call ends, and how it ends for them. -/
def released (q : MsgQ T M cap) : QueueCall T M → List (T × Result)
  | .put _ _ _ | .putNoWait _ =>
    if q.buf.length < cap then (q.readers.head?.map fun t => (t, .done)).toList else []
  | .get _ _ | .getNoWait =>
    if q.buf.isEmpty then [] else (q.writers.head?.map fun w => (w.1, .done)).toList
  | .purge => (q.readers ++ q.writers.map Prod.fst).map fun t => (t, .refused)
  | .cancel t => if t ∈ q.readers ++ q.writers.map Prod.fst then [(t, .gaveUp)] else []
  | .quiet => []

/-- One call after another: the queue they leave and the messages they deliver. -/
def execAll (q : MsgQ T M cap) : List (QueueCall T M) → MsgQ T M cap × List M
  | [] => (q, [])
  | c :: cs =>
    let rest := execAll (c.exec q).1 cs
    (rest.1, (c.exec q).2.toList ++ rest.2)

/-- The messages that the calls let into the queue. -/
def acceptedAll (q : MsgQ T M cap) : List (QueueCall T M) → List M
  | [] => []
  | c :: cs => (c.accepted q).toList ++ acceptedAll (c.exec q).1 cs

/-- What each of the calls returns, and to whom besides. -/
def returnsAll (q : MsgQ T M cap) : List (QueueCall T M) →
    List (Option Result × List (T × Result))
  | [] => []
  | c :: cs => (c.result q, c.released q) :: returnsAll (c.exec q).1 cs

/-- First in, first out over a run: what is delivered and what stays is what was there and
what is let in. -/
theorem execAll_fifo (q : MsgQ T M cap) (cs : List (QueueCall T M))
    (hpurge : .purge ∉ cs) :
    (execAll q cs).2 ++ (execAll q cs).1.buf = q.buf ++ acceptedAll q cs := by
  induction cs generalizing q with
  | nil => simp [execAll, acceptedAll]
  | cons c cs ih =>
    have hc : c ≠ .purge := by
      rintro rfl
      exact hpurge List.mem_cons_self
    have hrest := ih (c.exec q).1 fun hmem => hpurge (List.mem_cons_of_mem c hmem)
    have hone := exec_fifo q hc
    simp only [execAll, acceptedAll]
    rw [List.append_assoc, hrest, ← List.append_assoc, hone, List.append_assoc]

/-- No message is let in, or waits for room at the end, but those that the calls brought, and
none of them twice. -/
theorem execAll_custody (q : MsgQ T M cap) (cs : List (QueueCall T M)) :
    (acceptedAll q cs ++ (execAll q cs).1.writers.map Prod.snd).Subperm
      (q.writers.map Prod.snd ++ cs.filterMap message) := by
  induction cs generalizing q with
  | nil => simpa [execAll, acceptedAll] using List.Subperm.refl _
  | cons c cs ih =>
    have hone := exec_custody q c
    have hrest := ih (c.exec q).1
    have hbrought : (c :: cs).filterMap message = c.message.toList ++ cs.filterMap message := by
      cases hm : c.message <;> simp [hm]
    have hmine := hone.append (List.Subperm.refl (cs.filterMap message))
    have hswap : (c.message.toList ++ q.writers.map Prod.snd ++ cs.filterMap message).Perm
        (q.writers.map Prod.snd ++ (c.message.toList ++ cs.filterMap message)) := by
      rw [← List.append_assoc]
      exact List.perm_append_comm.append_right _
    rw [List.append_assoc] at hmine
    simp only [execAll, acceptedAll]
    rw [List.append_assoc, hbrought]
    exact (((List.Subperm.refl _).append hrest).trans hmine).trans hswap.subperm

end QueueCall

end NcsProjects.MessageQueues
