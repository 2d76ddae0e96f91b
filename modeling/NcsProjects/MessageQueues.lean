import NcsProjects.Semaphores

/-!
Bounded message queues of a preemptive kernel. A put into a queue with a waiting
reader hands the message over; a put into a full queue makes the writer wait with
its message; a get makes room and moves the message of the first waiting writer
in. A purge empties the queue and wakes everybody who waits in it, readers and
writers alike. The structure keeps that readers wait only at an empty queue and
writers only at a full one.
-/
namespace NcsProjects.MessageQueues

open Semaphores

variable {T M : Type*} {cap : ℕ}

structure MsgQ (T M : Type*) (cap : ℕ) where
  buf : List M
  readers : List T
  writers : List (T × M)
  buf_le : buf.length ≤ cap
  readers_idle : readers ≠ [] → buf = []
  writers_full : writers ≠ [] → buf.length = cap

namespace MsgQ

def empty : MsgQ T M cap :=
  ⟨[], [], [], Nat.zero_le cap, fun h => absurd rfl h, fun h => absurd rfl h⟩

/-- What a put did: handed the message to a reader, stored it, or found no room. -/
inductive Put (T M : Type*) (cap : ℕ)
  | handed (reader : T) (q : MsgQ T M cap)
  | stored (q : MsgQ T M cap)
  | full

def put (q : MsgQ T M cap) (m : M) : Put T M cap :=
  if h : q.buf.length < cap then
    match hr : q.readers with
    | r :: rest => .handed r ⟨q.buf, rest, q.writers, q.buf_le,
        fun _ => q.readers_idle (by simp [hr]), q.writers_full⟩
    | [] => .stored ⟨q.buf ++ [m], [], q.writers, by simpa using Nat.succ_le_of_lt h,
        fun hne => absurd rfl hne, fun hne => absurd (q.writers_full hne) (Nat.ne_of_lt h)⟩
  else .full

/-- Take the first message. The first waiting writer, if any, is done: its message
moves in. -/
def get (q : MsgQ T M cap) : Option (M × Option (T × M) × MsgQ T M cap) :=
  match hb : q.buf with
  | [] => none
  | m :: rest =>
    have hlen : rest.length + 1 ≤ cap := by simpa [hb] using q.buf_le
    have hidle : q.readers = [] := by
      by_contra hne
      simpa [hb] using q.readers_idle hne
    match hw : q.writers with
    | [] => some (m, none, ⟨rest, [], [], by omega, fun hne => absurd rfl hne,
        fun hne => absurd rfl hne⟩)
    | w :: ws => some (m, some w, ⟨rest ++ [w.2], [], ws, by simpa using hlen,
        fun hne => absurd rfl hne, fun _ => by
          have hfull := q.writers_full (by simp [hw])
          simpa [hb] using hfull⟩)

/-- A thread waits for a message. -/
def pendRead (q : MsgQ T M cap) (pos : ℕ) (t : T) : MsgQ T M cap :=
  if h : q.buf = [] then ⟨q.buf, enqueue pos t q.readers, q.writers, q.buf_le, fun _ => h,
    q.writers_full⟩
  else q

/-- A thread waits for room, its message with it. -/
def pendWrite (q : MsgQ T M cap) (pos : ℕ) (t : T) (m : M) : MsgQ T M cap :=
  if h : q.buf.length = cap then ⟨q.buf, q.readers, enqueue pos (t, m) q.writers, q.buf_le,
    q.readers_idle, fun _ => h⟩
  else q

/-- A thread stops waiting: its wait timed out or it was aborted. -/
def cancel [DecidableEq T] (q : MsgQ T M cap) (t : T) : MsgQ T M cap :=
  ⟨q.buf, q.readers.filter (· ≠ t), q.writers.filter (fun w => w.1 ≠ t), q.buf_le,
    fun hne => q.readers_idle (by
      intro hnil
      simp [hnil] at hne),
    fun hne => q.writers_full (by
      intro hnil
      simp [hnil] at hne)⟩

variable {q : MsgQ T M cap}

@[simp] theorem pendWrite_buf (pos : ℕ) (t : T) (m : M) : (q.pendWrite pos t m).buf = q.buf := by
  unfold pendWrite
  split <;> rfl

@[simp] theorem pendWrite_readers (pos : ℕ) (t : T) (m : M) :
    (q.pendWrite pos t m).readers = q.readers := by
  unfold pendWrite
  split <;> rfl

@[simp] theorem pendRead_buf (pos : ℕ) (t : T) : (q.pendRead pos t).buf = q.buf := by
  unfold pendRead
  split <;> rfl

@[simp] theorem pendRead_writers (pos : ℕ) (t : T) : (q.pendRead pos t).writers = q.writers := by
  unfold pendRead
  split <;> rfl

theorem mem_pendRead_readers {pos : ℕ} {t u : T} (h : u ∈ (q.pendRead pos t).readers) :
    u = t ∨ u ∈ q.readers := by
  unfold pendRead at h
  split at h
  · exact (mem_enqueue pos t u q.readers).mp h
  · exact Or.inr h

theorem put_of_no_room {m : M} (h : ¬ q.buf.length < cap) : q.put m = .full := by
  unfold put
  rw [dif_neg h]

theorem room_of_put {m : M} (h : q.put m ≠ .full) : q.buf.length < cap := by
  by_contra hn
  exact h (put_of_no_room hn)

/-- Without room a thread that writes is among the waiting ones. -/
theorem mem_pendWrite {pos : ℕ} {t : T} {m : M} (h : ¬ q.buf.length < cap) :
    (t, m) ∈ (q.pendWrite pos t m).writers := by
  have hfull : q.buf.length = cap := by
    have hle := q.buf_le
    omega
  unfold pendWrite
  rw [dif_pos hfull]
  exact (mem_enqueue pos (t, m) (t, m) q.writers).mpr (Or.inl rfl)

/-- A thread that waits to write waits on behind another one. -/
theorem mem_pendWrite_of_mem (pos : ℕ) (t : T) (m : M) {w : T × M} (hw : w ∈ q.writers) :
    w ∈ (q.pendWrite pos t m).writers := by
  unfold pendWrite
  split
  · exact (mem_enqueue pos (t, m) w q.writers).mpr (Or.inr hw)
  · exact hw

theorem pendWrite_writers (pos : ℕ) (t : T) (m : M) (h : ¬ q.buf.length < cap) :
    (q.pendWrite pos t m).writers.Perm ((t, m) :: q.writers) := by
  have hfull : q.buf.length = cap := by
    have hle := q.buf_le
    omega
  unfold pendWrite
  rw [dif_pos hfull]
  exact enqueue_perm pos (t, m) q.writers

/-- A message is handed to the first waiting reader. -/
theorem put_of_handed {m : M} {r : T} {q' : MsgQ T M cap} (h : q.put m = .handed r q') :
    q'.buf = q.buf ∧ q.readers = r :: q'.readers ∧ q'.writers = q.writers := by
  unfold put at h
  split at h
  · split at h
    · rename_i hr
      cases h
      exact ⟨rfl, hr, rfl⟩
    · cases h
  · cases h

/-- A message is stored when nobody waits. -/
theorem put_of_stored {m : M} {q' : MsgQ T M cap} (h : q.put m = .stored q') :
    q'.buf = q.buf ++ [m] ∧ q'.readers = [] ∧ q.readers = [] ∧ q'.writers = q.writers := by
  unfold put at h
  split at h
  · split at h
    · cases h
    · rename_i hr
      cases h
      exact ⟨rfl, rfl, hr, rfl⟩
  · cases h

theorem put_of_full {m : M} (h : q.put m = .full) : ¬ q.buf.length < cap := by
  intro hlt
  unfold put at h
  rw [dif_pos hlt] at h
  split at h <;> cases h

/-- A get takes the first message, and nobody was reading. -/
theorem get_cases {m : M} {w : Option (T × M)} {q' : MsgQ T M cap}
    (h : q.get = some (m, w, q')) :
    ∃ rest, q.buf = m :: rest ∧ q'.readers = [] ∧ ∀ x ∈ rest, x ∈ q'.buf := by
  unfold MsgQ.get at h
  split at h
  · cases h
  · rename_i m' rest hb
    split at h
    · cases h
      exact ⟨rest, hb, rfl, fun x hx => hx⟩
    · cases h
      exact ⟨rest, hb, rfl, fun x hx => List.mem_append_left _ hx⟩

/-- A get takes the first message out and moves that of the first waiting writer in. -/
theorem get_moves {m : M} {w : Option (T × M)} {q' : MsgQ T M cap}
    (h : q.get = some (m, w, q')) : ∃ rest, q.buf = m :: rest ∧
      (q.writers = [] ∧ q'.buf = rest ∧ q'.writers = [] ∨
        ∃ v ws, q.writers = v :: ws ∧ q'.buf = rest ++ [v.2] ∧ q'.writers = ws) := by
  unfold MsgQ.get at h
  split at h
  · cases h
  · rename_i m' rest hb
    split at h
    · rename_i hw
      cases h
      exact ⟨rest, hb, Or.inl ⟨hw, rfl, rfl⟩⟩
    · rename_i v ws hw
      cases h
      exact ⟨rest, hb, Or.inr ⟨v, ws, hw, rfl, rfl⟩⟩

/-- The first waiting writer's message moves in with a get; the others wait on. -/
theorem get_writers {m : M} {w : Option (T × M)} {q' : MsgQ T M cap} {v : T × M}
    (h : q.get = some (m, w, q')) (hv : v ∈ q.writers) : v ∈ q'.writers ∨ v.2 ∈ q'.buf := by
  obtain ⟨rest, _, ⟨hnil, _, _⟩ | ⟨u, ws, hw, hbuf, hwriters⟩⟩ := get_moves h
  · rw [hnil] at hv
    cases hv
  · rw [hw] at hv
    rcases List.mem_cons.mp hv with rfl | hrest
    · exact Or.inr (by simp [hbuf])
    · exact Or.inl (hwriters.symm ▸ hrest)

theorem get_none (h : q.get = none) : q.buf = [] := by
  unfold MsgQ.get at h
  split at h
  · assumption
  · split at h <;> cases h

theorem get_of_empty (h : q.buf = []) : q.get = none := by
  unfold MsgQ.get
  split
  · rfl
  · rename_i hbuf
    rw [h] at hbuf
    cases hbuf

/-- Every message in the queue, or waiting to get in, has the property `P`. -/
structure All (P : M → Prop) (q : MsgQ T M cap) : Prop where
  buf : ∀ m ∈ q.buf, P m
  writers : ∀ w ∈ q.writers, P w.2

variable {P : M → Prop}

instance [DecidablePred P] : Decidable (All P q) :=
  decidable_of_iff ((∀ m ∈ q.buf, P m) ∧ ∀ w ∈ q.writers, P w.2)
    ⟨fun h => ⟨h.1, h.2⟩, fun h => ⟨h.buf, h.writers⟩⟩

theorem all_empty : All P (empty : MsgQ T M cap) :=
  ⟨by simp [empty], by simp [empty]⟩

/-- Nobody waits to write where somebody waits to read. -/
theorem writers_nil_of_reading (hcap : 0 < cap) (h : q.readers ≠ []) : q.writers = [] := by
  by_contra hne
  have hfull := q.writers_full hne
  rw [q.readers_idle h] at hfull
  simp only [List.length_nil] at hfull
  omega

theorem all_of_reading (hcap : 0 < cap) (h : q.readers ≠ []) : All P q :=
  ⟨by simp [q.readers_idle h], by simp [writers_nil_of_reading hcap h]⟩

theorem All.mono {Q : M → Prop} (h : q.All P) (hPQ : ∀ m, P m → Q m) : q.All Q :=
  ⟨fun m hm => hPQ m (h.buf m hm), fun w hw => hPQ w.2 (h.writers w hw)⟩

theorem All.handed {m : M} {r : T} {q' : MsgQ T M cap} (h : q.All P)
    (hput : q.put m = .handed r q') : q'.All P := by
  unfold put at hput
  split at hput
  · split at hput
    · cases hput
      exact ⟨h.buf, h.writers⟩
    · cases hput
  · cases hput

theorem All.stored {m : M} {q' : MsgQ T M cap} (h : q.All P) (hm : P m)
    (hput : q.put m = .stored q') : q'.All P := by
  unfold put at hput
  split at hput
  · split at hput
    · cases hput
    · cases hput
      refine ⟨?_, h.writers⟩
      intro x hx
      rcases List.mem_append.mp hx with hold | hnew
      · exact h.buf x hold
      · rw [List.mem_singleton.mp hnew]
        exact hm
  · cases hput

/-- A get takes out a message with the property and leaves only such messages. -/
theorem All.get {m : M} {w : Option (T × M)} {q' : MsgQ T M cap} (h : q.All P)
    (hget : q.get = some (m, w, q')) : P m ∧ (∀ x ∈ w, P x.2) ∧ q'.All P := by
  unfold MsgQ.get at hget
  split at hget
  · cases hget
  · rename_i m' rest hb
    have hm : P m' := h.buf m' (by simp [hb])
    have hrest : ∀ x ∈ rest, P x := fun x hx => h.buf x (by simp [hb, hx])
    split at hget
    · cases hget
      exact ⟨hm, by simp, hrest, by simp⟩
    · rename_i w' ws hw
      cases hget
      have hw' : P w'.2 := h.writers w' (by simp [hw])
      refine ⟨hm, by simpa using hw', ?_, fun x hx => h.writers x (by simp [hw, hx])⟩
      intro x hx
      rcases List.mem_append.mp hx with hold | hnew
      · exact hrest x hold
      · rw [List.mem_singleton.mp hnew]
        exact hw'

theorem All.pendRead {pos : ℕ} {t : T} (h : q.All P) : (q.pendRead pos t).All P := by
  unfold MsgQ.pendRead
  split
  · exact ⟨h.buf, h.writers⟩
  · exact h

theorem All.pendWrite {pos : ℕ} {t : T} {m : M} (h : q.All P) (hm : P m) :
    (q.pendWrite pos t m).All P := by
  unfold MsgQ.pendWrite
  split
  · refine ⟨h.buf, ?_⟩
    intro w hw
    rcases (mem_enqueue pos (t, m) w q.writers).mp hw with heq | hold
    · rw [heq]
      exact hm
    · exact h.writers w hold
  · exact h

theorem All.cancel [DecidableEq T] {t : T} (h : q.All P) : (q.cancel t).All P :=
  ⟨h.buf, fun w hw => h.writers w (List.mem_of_mem_filter hw)⟩

/-- The messages that are in the queue or wait to get in. -/
def pending (q : MsgQ T M cap) : List M := q.buf ++ q.writers.map Prod.snd

theorem pending_of_handed {m : M} {r : T} {q' : MsgQ T M cap} (h : q.put m = .handed r q') :
    q'.pending = q.pending := by
  obtain ⟨hbuf, _, hwriters⟩ := put_of_handed h
  rw [pending, hbuf, hwriters, pending]

theorem pending_of_stored {m : M} {q' : MsgQ T M cap} (h : q.put m = .stored q') :
    q'.pending.Perm (m :: q.pending) := by
  obtain ⟨hbuf, _, _, hwriters⟩ := put_of_stored h
  rw [pending, hbuf, hwriters, pending, List.append_assoc]
  exact List.perm_middle

theorem pending_of_get {m : M} {w : Option (T × M)} {q' : MsgQ T M cap}
    (h : q.get = some (m, w, q')) : q.pending.Perm (m :: q'.pending) := by
  unfold MsgQ.get at h
  split at h
  · cases h
  · rename_i m' rest hb
    split at h
    · rename_i hw
      cases h
      simp [pending, hb, hw]
    · rename_i w' ws hw
      cases h
      simp [pending, hb, hw]

/-- A writer that waits brings its own message. -/
theorem pending_of_pendWrite (pos : ℕ) (t : T) (m : M) :
    (q.pendWrite pos t m).pending.Perm (m :: q.pending) ∨ (q.pendWrite pos t m) = q := by
  unfold pendWrite
  split
  · refine Or.inl ?_
    have hperm : ((enqueue pos (t, m) q.writers).map Prod.snd).Perm (m :: q.writers.map Prod.snd) :=
      (enqueue_perm pos (t, m) q.writers).map Prod.snd
    exact (hperm.append_left q.buf).trans List.perm_middle
  · exact Or.inr rfl

@[simp] theorem pending_pendRead (pos : ℕ) (t : T) : (q.pendRead pos t).pending = q.pending := by
  unfold pendRead
  split <;> rfl

theorem pending_cancel [DecidableEq T] (t : T) : (q.cancel t).pending.Sublist q.pending := by
  refine List.Sublist.append (List.Sublist.refl _) ?_
  exact List.Sublist.map _ List.filter_sublist

end MsgQ

end NcsProjects.MessageQueues
