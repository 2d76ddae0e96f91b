import Mathlib.Data.Int.Notation
import NcsProjects.ByteRegions

/-!
publish_get_payload of mqtt_work. The client library hands a PUBLISH over with its
payload still in the socket, and the event handler reads it piece by piece into
payload_buf, waiting in poll after each EAGAIN. The answers of the library and of
poll come from a list; with no answer left the function has not returned yet.
-/
namespace NcsProjects.PayloadReassembly

open ByteRegions

abbrev Byte := BitVec 8

/-- CONFIG_MQTT_PAYLOAD_BUFFER_SIZE -/
def payloadBufSize : ℕ := 128

def eio : ℤ := 5
def eagain : ℤ := 11
def emsgsize : ℤ := 122

def pollin : BitVec 16 := 1#16

/-- What mqtt_read_publish_payload does: it has some bytes for the caller, it answers
zero, it has to wait, after which poll returns `err` with `revents`, or it fails. -/
inductive Answer
  | chunk (first : Byte) (rest : List Byte)
  | nothing
  | again (err : ℤ) (revents : BitVec 16)
  | error (ret : ℤ) (other : ret < 0 ∧ ret ≠ -eagain)
  deriving DecidableEq

/-- The bytes that a read of `requested` bytes stores: never more than it asks for. -/
def Answer.bytes (requested : ℕ) : Answer → List Byte
  | .chunk first rest => (first :: rest).take requested
  | _ => []

def Answer.ret (requested : ℕ) : Answer → ℤ
  | .chunk first rest => (((first :: rest).take requested).length : ℤ)
  | .nothing => 0
  | .again _ _ => -eagain
  | .error ret _ => ret

/-- err > 0 && (fds.revents & POLLIN) == POLLIN, for the poll after an EAGAIN. -/
def Answer.polledIn : Answer → Bool
  | .again err revents => 0 < err && revents &&& pollin == pollin
  | _ => false

/-- One call of mqtt_read_publish_payload: where it stores, how much it asks for, and
what it is answered. -/
structure Read where
  target : ℕ
  size : ℕ
  answer : Answer
  deriving DecidableEq

def Read.bytes (r : Read) : List Byte := r.answer.bytes r.size

/-- `filled` is buf - payload_buf, and `payload` the memory from payload_buf on. -/
structure Reader where
  filled : ℕ
  payload : Region Byte
  reads : List Read

inductive Outcome
  | returned (err : ℤ)
  | reading
  deriving DecidableEq

def Reader.read (s : Reader) (requested : ℕ) (a : Answer) : Reader where
  filled := s.filled
  payload := write s.payload s.filled (a.bytes requested)
  reads := s.reads ++ [⟨s.filled, requested, a⟩]

/-- The while loop; `length` is end - payload_buf. -/
def readLoop (length : ℕ) : List Answer → Reader → Outcome × Reader
  | [], s => if s.filled < length then (.reading, s) else (.returned 0, s)
  | a :: rest, s =>
    if s.filled < length then
      let ret := a.ret (length - s.filled)
      let s' := s.read (length - s.filled) a
      if ret < 0 then
        if ret ≠ -eagain then (.returned ret, s')
        else if a.polledIn then readLoop length rest s'
        else (.returned (-eio), s')
      else if ret = 0 then (.returned (-eio), s')
      else readLoop length rest { s' with filled := s'.filled + ret.toNat }
    else (.returned 0, s)

def publishGetPayload (length : ℕ) (answers : List Answer) (payload : Region Byte) :
    Outcome × Reader :=
  let s : Reader := ⟨0, payload, []⟩
  if payloadBufSize < length then (.returned (-emsgsize), s) else readLoop length answers s

/-- The answers after which the function gives up. -/
def Answer.Fails : Answer → Prop
  | .chunk _ _ => False
  | .again err revents => ¬ (0 < err ∧ revents &&& pollin = pollin)
  | .nothing | .error _ _ => True

/-- All bytes that the reads delivered, in order. -/
def delivered (reads : List Read) : List Byte := reads.flatMap Read.bytes

@[simp] theorem delivered_snoc (reads : List Read) (r : Read) :
    delivered (reads ++ [r]) = delivered reads ++ r.bytes := by
  simp [delivered]

/-- Each read asks for something, for no more than is missing, and at the first byte
that is not filled. -/
def Contiguous (length : ℕ) (reads : List Read) : Prop :=
  ∀ before r after, reads = before ++ r :: after →
    r.target = (delivered before).length ∧ 0 < r.size ∧
      r.size ≤ length - (delivered before).length

theorem contiguous_nil (length : ℕ) : Contiguous length [] := by
  intro before r after h
  simp at h

theorem Contiguous.snoc {length : ℕ} {reads : List Read} (h : Contiguous length reads)
    {r : Read} (htarget : r.target = (delivered reads).length) (hpos : 0 < r.size)
    (hsize : r.size ≤ length - (delivered reads).length) : Contiguous length (reads ++ [r]) := by
  intro before q after heq
  rcases List.eq_nil_or_concat after with rfl | ⟨init, last, rfl⟩
  · have hsplit := List.append_inj' heq rfl
    have hq : r = q := by simpa using hsplit.2
    rw [← hsplit.1, ← hq]
    exact ⟨htarget, hpos, hsize⟩
  · have hsplit : reads ++ [r] = (before ++ q :: init) ++ [last] := by simpa using heq
    exact h before q init (List.append_inj' hsplit rfl).1

/-- The loop invariant: the first `filled` bytes are what was delivered, and no other
byte has changed. -/
structure Filled (length : ℕ) (start : Region Byte) (s : Reader) : Prop where
  bound : s.filled ≤ length
  count : s.filled = (delivered s.reads).length
  content : slice s.payload 0 s.filled = delivered s.reads
  rest : ∀ i, s.filled ≤ i → s.payload i = start i
  contiguous : Contiguous length s.reads

theorem filled_start (length : ℕ) (start : Region Byte) :
    Filled length start ⟨0, start, []⟩ where
  bound := Nat.zero_le length
  count := rfl
  content := rfl
  rest := fun _ _ => rfl
  contiguous := contiguous_nil length

/-- A read that stores nothing keeps the invariant as it stands. -/
theorem Filled.read_nothing {length : ℕ} {start : Region Byte} {s : Reader}
    (h : Filled length start s) (hmore : s.filled < length) {a : Answer}
    (hnone : a.bytes (length - s.filled) = []) :
    Filled length start (s.read (length - s.filled) a) where
  bound := h.bound
  count := by simpa [Reader.read, Read.bytes, hnone] using h.count
  content := by simpa [Reader.read, Read.bytes, hnone] using h.content
  rest := by simpa [Reader.read, hnone] using h.rest
  contiguous := by
    have hcount := h.count
    apply h.contiguous.snoc
    · exact h.count
    · show 0 < length - s.filled
      omega
    · show length - s.filled ≤ length - (delivered s.reads).length
      omega

/-- The bytes of a chunk are appended to the part that is filled. -/
theorem Filled.read_chunk {length : ℕ} {start : Region Byte} {s : Reader}
    (h : Filled length start s) (hmore : s.filled < length) {a : Answer} {n : ℕ}
    (hn : (a.bytes (length - s.filled)).length = n) (hle : n ≤ length - s.filled) :
    Filled length start
      { s.read (length - s.filled) a with
        filled := (s.read (length - s.filled) a).filled + n } where
  bound := by
    show s.filled + n ≤ length
    omega
  count := by
    have hcount := h.count
    simp only [Reader.read, delivered_snoc, List.length_append, Read.bytes]
    omega
  content := by
    have hwrite := slice_write_append s.payload 0 s.filled (a.bytes (length - s.filled))
    rw [Nat.zero_add, hn, h.content] at hwrite
    simpa [Reader.read, Read.bytes] using hwrite
  rest := by
    intro i hi
    have hbehind : s.filled + (a.bytes (length - s.filled)).length ≤ i := by
      rw [hn]
      exact hi
    show write s.payload s.filled (a.bytes (length - s.filled)) i = start i
    rw [write_after _ _ _ hbehind]
    exact h.rest i (by omega)
  contiguous := by
    have hcount := h.count
    apply h.contiguous.snoc
    · exact h.count
    · show 0 < length - s.filled
      omega
    · show length - s.filled ≤ length - (delivered s.reads).length
      omega

/-- What the loop leaves behind, from any point of it on: the reads it adds are answered
in order, an answer that fails ends it with an error, and it is still running only when
the answers are used up. -/
structure Finished (length : ℕ) (start : Region Byte) (old : List Read) (answers : List Answer)
    (out : Outcome) (s : Reader) : Prop where
  filled : Filled length start s
  success : out = .returned 0 ↔ s.filled = length
  nonpos : ∀ err, out = .returned err → err ≤ 0
  answered : ∃ new, s.reads = old ++ new ∧ new.map Read.answer <+: answers ∧
    ((∃ r ∈ new, r.answer.Fails) ↔ ∃ err < 0, out = .returned err) ∧
    (out = .reading → new.map Read.answer = answers ∧ s.filled < length)

/-- The loop ends here with nothing left to fill. -/
theorem Finished.stop {length : ℕ} {start : Region Byte} {answers : List Answer}
    {s : Reader} (hfilled : Filled length start s) (hdone : ¬ s.filled < length) :
    Finished length start s.reads answers (.returned 0) s where
  filled := hfilled
  success := by
    have hbound := hfilled.bound
    exact ⟨fun _ => by omega, fun _ => rfl⟩
  nonpos := by
    rintro err ⟨⟩
    exact Int.le_refl 0
  answered := by
    refine ⟨[], by simp, by simp, by simp, ?_⟩
    intro heq
    exact absurd heq (by simp)

/-- The answer `a` makes the function return an error. -/
theorem Finished.fail {length : ℕ} {start : Region Byte} {a : Answer} {rest : List Answer}
    {err : ℤ} {s : Reader} {n : ℕ} (hfails : a.Fails) (hneg : err < 0) (hmore : s.filled < length)
    (hfilled : Filled length start (s.read n a)) :
    Finished length start s.reads (a :: rest) (.returned err) (s.read n a) where
  filled := hfilled
  success := by
    constructor
    · intro heq
      have hzero : err = 0 := by injection heq
      omega
    · intro hall
      have hsame : s.filled = length := hall
      omega
  nonpos := by
    rintro err ⟨⟩
    exact Int.le_of_lt hneg
  answered := by
    refine ⟨[⟨s.filled, n, a⟩], rfl, by simp, ?_, ?_⟩
    · constructor
      · intro _
        exact ⟨err, hneg, rfl⟩
      · intro _
        exact ⟨_, List.mem_singleton_self _, hfails⟩
    · intro heq
      exact absurd heq (by simp)

/-- After an answer that does not fail the rest of the loop decides. -/
theorem Finished.cons {length : ℕ} {start : Region Byte} {a : Answer} {rest : List Answer}
    {out : Outcome} {s t : Reader} {n : ℕ} (hok : ¬ a.Fails)
    (h : Finished length start (s.read n a).reads rest out t) :
    Finished length start s.reads (a :: rest) out t where
  filled := h.filled
  success := h.success
  nonpos := h.nonpos
  answered := by
    obtain ⟨new, hreads, hprefix, hfails, hreading⟩ := h.answered
    refine ⟨⟨s.filled, n, a⟩ :: new, ?_, ?_, ?_, ?_⟩
    · simpa [Reader.read] using hreads
    · simpa using hprefix
    · rw [← hfails]
      simp [hok]
    · intro heq
      obtain ⟨hall, hmore⟩ := hreading heq
      exact ⟨by simp [hall], hmore⟩

/-- The whole loop, by induction on the answers. -/
theorem readLoop_finished (length : ℕ) (start : Region Byte) (answers : List Answer) (s : Reader)
    (h : Filled length start s) :
    Finished length start s.reads answers (readLoop length answers s).1
      (readLoop length answers s).2 := by
  induction answers generalizing s with
  | nil =>
    unfold readLoop
    split
    · next hmore =>
      refine ⟨h, ?_, by simp, [], by simp, by simp, by simp, ?_⟩
      · constructor
        · rintro ⟨⟩
        · intro hall
          exact absurd hall (Nat.ne_of_lt hmore)
      · intro _
        exact ⟨rfl, hmore⟩
    · next hdone => exact Finished.stop h hdone
  | cons a rest ih =>
    by_cases hmore : s.filled < length
    · cases a with
      | chunk first more =>
        have hcount := h.read_chunk hmore (a := .chunk first more) rfl
          (by
            rw [Answer.bytes, List.length_take]
            exact Nat.min_le_left _ _)
        have hpos : 0 < ((first :: more).take (length - s.filled)).length := by
          simp only [List.length_take, List.length_cons]
          omega
        have hrun : readLoop length (.chunk first more :: rest) s =
            readLoop length rest { s.read (length - s.filled) (.chunk first more) with
              filled := (s.read (length - s.filled) (.chunk first more)).filled +
                ((first :: more).take (length - s.filled)).length } := by
          conv => lhs; unfold readLoop
          have hnneg : ¬ ((((first :: more).take (length - s.filled)).length : ℕ) : ℤ) < 0 := by
            omega
          have hnzero : ((((first :: more).take (length - s.filled)).length : ℕ) : ℤ) ≠ 0 := by
            omega
          simp only [hmore, if_true, Answer.ret, hnneg, hnzero, if_false, Int.toNat_natCast]
        rw [hrun]
        exact Finished.cons (by simp [Answer.Fails]) (ih _ hcount)
      | nothing =>
        have hread := h.read_nothing hmore (a := .nothing) rfl
        have hrun : readLoop length (.nothing :: rest) s =
            (.returned (-eio), s.read (length - s.filled) .nothing) := by
          simp [readLoop, hmore, Answer.ret]
        rw [hrun]
        exact Finished.fail trivial (by decide) hmore hread
      | again err revents =>
        have hread := h.read_nothing hmore (a := .again err revents) rfl
        by_cases hin : 0 < err ∧ revents &&& pollin = pollin
        · have hrun : readLoop length (.again err revents :: rest) s =
              readLoop length rest (s.read (length - s.filled) (.again err revents)) := by
            conv => lhs; unfold readLoop
            simp [hmore, Answer.ret, Answer.polledIn, hin, eagain]
          rw [hrun]
          exact Finished.cons (by simpa [Answer.Fails] using hin) (ih _ hread)
        · have hrun : readLoop length (.again err revents :: rest) s =
              (.returned (-eio), s.read (length - s.filled) (.again err revents)) := by
            have hnot : ¬ ((0 < err) && (revents &&& pollin == pollin)) = true := by
              simpa using hin
            simp [readLoop, hmore, Answer.ret, Answer.polledIn, hnot, eagain]
          rw [hrun]
          exact Finished.fail hin (by decide) hmore hread
      | error ret other =>
        have hread := h.read_nothing hmore (a := .error ret other) rfl
        have hrun : readLoop length (.error ret other :: rest) s =
            (.returned ret, s.read (length - s.filled) (.error ret other)) := by
          simp [readLoop, hmore, Answer.ret, other.1, other.2]
        rw [hrun]
        exact Finished.fail trivial other.1 hmore hread
    · have hrun : readLoop length (a :: rest) s = (.returned 0, s) := by
        simp [readLoop, hmore]
      rw [hrun]
      exact Finished.stop h hmore

/-- publish_get_payload on all answers that the library and poll can give: it returns 0
exactly when all bytes have been delivered, and an error exactly when the payload is too long
or an answer fails; otherwise it has used up the answers and wants more. -/
theorem publishGetPayload_reassembles (length : ℕ) (answers : List Answer)
    (payload : Region Byte) :
    let run := publishGetPayload length answers payload
    Contiguous length run.2.reads ∧
    run.2.reads.map Read.answer <+: answers ∧
    (run.1 = .returned 0 ↔ (delivered run.2.reads).length = length) ∧
    (run.1 = .returned 0 → slice run.2.payload 0 length = delivered run.2.reads) ∧
    (run.1 = .returned (-emsgsize) ∧ run.2.reads = [] ↔ payloadBufSize < length) ∧
    ((∃ err < 0, run.1 = .returned err) ↔
      payloadBufSize < length ∨ ∃ r ∈ run.2.reads, r.answer.Fails) ∧
    (∀ err, run.1 = .returned err → err ≤ 0) ∧
    (∀ i, length ≤ i → run.2.payload i = payload i) ∧
    (run.1 = .reading → run.2.reads.map Read.answer = answers ∧
      (delivered run.2.reads).length < length) := by
  intro run
  by_cases hlong : payloadBufSize < length
  · have hrun : run = (.returned (-emsgsize), ⟨0, payload, []⟩) := by
      simp [run, publishGetPayload, hlong]
    have hpos : 0 ≠ length := by omega
    rw [hrun]
    refine ⟨contiguous_nil length, by simp, ?_, by simp [emsgsize], by simpa using hlong, ?_, ?_,
      by simp, by simp⟩
    · simpa [emsgsize, delivered] using hpos
    · exact ⟨fun _ => Or.inl hlong, fun _ => ⟨-emsgsize, by decide, rfl⟩⟩
    · rintro err ⟨⟩
      decide
  · have hrun : run = readLoop length answers ⟨0, payload, []⟩ := by
      simp [run, publishGetPayload, hlong]
    have hloop := readLoop_finished length payload answers _ (filled_start length payload)
    rw [← hrun] at hloop
    obtain ⟨new, hreads, hprefix, hfails, hreading⟩ := hloop.answered
    rw [List.nil_append] at hreads
    rw [← hreads] at hprefix hfails hreading
    have hcount := hloop.filled.count
    refine ⟨hloop.filled.contiguous, hprefix, ?_, ?_, ?_, ?_, hloop.nonpos, ?_, ?_⟩
    · rw [← hcount]
      exact hloop.success
    · intro hzero
      have hcontent := hloop.filled.content
      rwa [hloop.success.mp hzero] at hcontent
    · constructor
      · intro hsize
        have hnone := hfails.mpr ⟨-emsgsize, by decide, hsize.1⟩
        simp [hsize.2] at hnone
      · intro hsize
        exact absurd hsize hlong
    · rw [← hfails]
      exact ⟨Or.inr, fun h => h.resolve_left hlong⟩
    · intro i hi
      have hbound := hloop.filled.bound
      exact hloop.filled.rest i (by omega)
    · intro hread
      obtain ⟨hall, hmore⟩ := hreading hread
      exact ⟨hall, by omega⟩

/-- A byte, an EAGAIN after which poll has something, and the two bytes that are missing. -/
theorem publishGetPayload_reassembles_retry :
    let answers : List Answer := [.chunk 0x61#8 [], .again 1 pollin, .chunk 0x62#8 [0x63#8]]
    let run := publishGetPayload 3 answers (fun _ => 0#8)
    run.1 = .returned 0 ∧ slice run.2.payload 0 3 = [0x61#8, 0x62#8, 0x63#8] := by
  intro answers run
  obtain ⟨_, _, hsuccess, hcontent, _⟩ :=
    publishGetPayload_reassembles 3 answers (fun _ => 0#8)
  have hall : run.1 = .returned 0 := hsuccess.mpr (by decide)
  exact ⟨hall, hcontent hall⟩

/-- What becomes of a PUBLISH: data_print shows its payload, the session is given up, or
the handler is still reading. -/
inductive Handled
  | printed (payload : List Byte)
  | disconnected
  | reading

/-- mqtt_evt_handler on MQTT_EVT_PUBLISH. -/
def mqttEvtHandlerPublish (length : ℕ) (answers : List Answer) (payload : Region Byte) :
    Handled :=
  match publishGetPayload length answers payload with
  | (.returned err, s) =>
    if 0 ≤ err then .printed (slice s.payload 0 length) else .disconnected
  | (.reading, _) => .reading

/-- The handler prints no payload but the one that was delivered in full. -/
theorem printed_delivered (length : ℕ) (answers : List Answer) (payload : Region Byte)
    {bytes : List Byte} (h : mqttEvtHandlerPublish length answers payload = .printed bytes) :
    bytes.length = length ∧
      bytes = delivered (publishGetPayload length answers payload).2.reads := by
  by_cases hlong : payloadBufSize < length
  · simp [mqttEvtHandlerPublish, publishGetPayload, hlong, emsgsize] at h
  · have hrun : publishGetPayload length answers payload =
        readLoop length answers ⟨0, payload, []⟩ := by
      simp [publishGetPayload, hlong]
    have hloop := readLoop_finished length payload answers _ (filled_start length payload)
    rw [mqttEvtHandlerPublish] at h
    rw [hrun] at h ⊢
    split at h
    · next err s heq =>
      rw [heq] at hloop ⊢
      by_cases hnonneg : 0 ≤ err
      · rw [if_pos hnonneg] at h
        have hbytes : slice s.payload 0 length = bytes := by injection h
        have hzero : err = 0 := by
          have hnonpos := hloop.nonpos err rfl
          omega
        have hall := hloop.success.mp (by rw [hzero])
        have hcontent := hloop.filled.content
        rw [hall, hbytes] at hcontent
        exact ⟨by simp [← hbytes], hcontent⟩
      · rw [if_neg hnonneg] at h
        cases h
    · cases h

end NcsProjects.PayloadReassembly
