import Mathlib.Data.List.Basic

/-!
Frames in a stream. Of the first bytes of a frame it is known how many more the frame
needs at least; when it needs none it is complete, and a number of data bytes follows it
that are not framed. A stream is read one byte at a time. A receiver that reads in
chunks, and never more than the frame needs, sees the same frames and the same data.
-/
namespace NcsProjects.StreamFraming

variable {β : Type*}

structure Framing (β : Type*) where
  /-- What a frame with this start needs at least. -/
  need : List β → ℕ
  /-- The data bytes behind a complete frame. -/
  bulk : List β → ℕ
  need_nil : 0 < need []
  need_le : ∀ p q, need p ≤ q.length + need (p ++ q)

inductive Item (β : Type*)
  | frame (bytes : List β)
  | data (b : β)
  deriving DecidableEq

def Item.bytes : Item β → List β
  | .frame bytes => bytes
  | .data b => [b]

/-- Where a stream stands: the start of a frame, and the data bytes that are still due. -/
structure Standing (β : Type*) where
  start : List β
  bulk : ℕ
  deriving DecidableEq

namespace Framing

variable (F : Framing β)

def step (s : Standing β) (b : β) : Standing β × List (Item β) :=
  if s.bulk = 0 then
    let p := s.start ++ [b]
    if F.need p = 0 then (⟨[], F.bulk p⟩, [.frame p]) else (⟨p, 0⟩, [])
  else (⟨s.start, s.bulk - 1⟩, [.data b])

def feed : Standing β → List β → Standing β × List (Item β)
  | s, [] => (s, [])
  | s, b :: rest =>
    let next := F.step s b
    let later := feed next.1 rest
    (later.1, next.2 ++ later.2)

def fresh : Standing β := ⟨[], 0⟩

theorem feed_append (s : Standing β) (xs ys : List β) : F.feed s (xs ++ ys) =
    ((F.feed (F.feed s xs).1 ys).1, (F.feed s xs).2 ++ (F.feed (F.feed s xs).1 ys).2) := by
  induction xs generalizing s with
  | nil => rfl
  | cons b rest ih =>
    simp only [List.cons_append, feed]
    rw [ih]
    simp only [List.append_assoc]

/-- Data that is due is passed on. -/
theorem feed_data (start : List β) {bulk : ℕ} {q : List β} (h : q.length ≤ bulk) :
    F.feed ⟨start, bulk⟩ q = (⟨start, bulk - q.length⟩, q.map .data) := by
  induction q generalizing bulk with
  | nil => rfl
  | cons b rest ih =>
    have hpos : bulk ≠ 0 := by
      rintro rfl
      cases h
    have hrest : rest.length ≤ bulk - 1 := by
      rw [List.length_cons] at h
      omega
    simp only [feed, step, if_neg hpos, ih hrest, List.map_cons, List.length_cons]
    rw [Nat.sub_sub, Nat.add_comm 1]
    rfl

/-- A frame that is not yet complete is kept. -/
theorem feed_start {p q : List β} (h : q.length < F.need p) :
    F.feed ⟨p, 0⟩ q = (⟨p ++ q, 0⟩, []) := by
  induction q generalizing p with
  | nil => simp [feed]
  | cons b rest ih =>
    have hle := F.need_le p [b]
    rw [List.length_cons] at h
    rw [List.length_singleton] at hle
    have hneed : F.need (p ++ [b]) ≠ 0 := by omega
    have hrest : rest.length < F.need (p ++ [b]) := by omega
    simp only [feed, step, if_true, if_neg hneed, ih hrest, List.append_assoc, List.nil_append,
      List.singleton_append]

/-- A chunk of all that the frame needs completes it, or shows that it needs more. -/
theorem feed_chunk {p q : List β} (hpos : 0 < F.need p) (h : q.length = F.need p) :
    F.feed ⟨p, 0⟩ q = if F.need (p ++ q) = 0 then (⟨[], F.bulk (p ++ q)⟩, [.frame (p ++ q)])
      else (⟨p ++ q, 0⟩, []) := by
  obtain ⟨front, last, rfl⟩ : ∃ front last, q = front ++ [last] := by
    refine ⟨q.dropLast, q.getLast (List.ne_nil_of_length_pos (by omega)), ?_⟩
    exact (List.dropLast_append_getLast _).symm
  have hfront : front.length < F.need p := by
    rw [List.length_append, List.length_singleton] at h
    omega
  rw [feed_append, F.feed_start hfront]
  simp only [feed, step, if_true, List.append_assoc]
  split <;> rfl

/-- A start is kept until a frame is complete, and the frame begins with it. -/
theorem feed_extends (p ys : List β) :
    (∃ z, F.feed ⟨p, 0⟩ ys = (⟨p ++ z, 0⟩, [])) ∨
      ∃ frame rest, p <+: frame ∧ (F.feed ⟨p, 0⟩ ys).2 = .frame frame :: rest := by
  induction ys generalizing p with
  | nil => exact Or.inl ⟨[], by rw [List.append_nil]; rfl⟩
  | cons b ys ih =>
    simp only [feed, step, if_true]
    by_cases hneed : F.need (p ++ [b]) = 0
    · rw [if_pos hneed]
      exact Or.inr ⟨p ++ [b], _, List.prefix_append _ _, rfl⟩
    · rw [if_neg hneed]
      rcases ih (p ++ [b]) with ⟨z, hz⟩ | ⟨frame, rest, hprefix, hframe⟩
      · refine Or.inl ⟨b :: z, ?_⟩
        rw [hz, List.append_assoc]
        rfl
      · exact Or.inr ⟨frame, rest, (List.prefix_append _ _).trans hprefix, hframe⟩

/-- A packet as a sender makes it: a frame with the data that the frame announces. -/
structure Packet (β : Type*) where
  frame : List β
  data : List β

def Packet.bytes (k : Packet β) : List β := k.frame ++ k.data

def Packet.items (k : Packet β) : List (Item β) := .frame k.frame :: k.data.map .data

/-- The frame is whole, and not before its last byte. -/
structure Complete (k : Packet β) : Prop where
  whole : F.need k.frame = 0
  before : ∀ p q, k.frame = p ++ q → q ≠ [] → 0 < F.need p
  bulk : F.bulk k.frame = k.data.length

theorem feed_packet {k : Packet β} (h : F.Complete k) :
    F.feed fresh k.bytes = (fresh, k.items) := by
  have hne : k.frame ≠ [] := by
    intro hnil
    have hwhole := h.whole
    have hpos := F.need_nil
    rw [hnil] at hwhole
    omega
  obtain ⟨front, last, hframe⟩ : ∃ front last, k.frame = front ++ [last] :=
    ⟨_, _, (List.dropLast_append_getLast hne).symm⟩
  have hfront : ∀ p q, front = p ++ q → F.feed ⟨p, 0⟩ q = (⟨front, 0⟩, []) := by
    intro p q hpq
    induction q generalizing p with
    | nil =>
      rw [hpq, List.append_nil]
      rfl
    | cons b q ih =>
      have hpos := h.before (p ++ [b]) (q ++ [last]) (by rw [hframe, hpq]; simp) (by simp)
      have hrest := ih (p ++ [b]) (by rw [hpq]; simp)
      simp only [feed, step, if_true, if_neg (Nat.ne_of_gt hpos), hrest, List.nil_append]
  have hfront' : F.feed fresh front = (⟨front, 0⟩, []) := hfront [] front rfl
  have hwhole := h.whole
  rw [hframe] at hwhole
  have hlast : F.feed fresh k.frame = (⟨[], F.bulk k.frame⟩, [.frame k.frame]) := by
    rw [hframe, feed_append, hfront']
    simp only [feed, step, if_true, if_pos hwhole, List.nil_append, List.append_nil]
  rw [Packet.bytes, feed_append, hlast, h.bulk, F.feed_data [] (Nat.le_refl _), Nat.sub_self]
  rfl

theorem feed_packets {ks : List (Packet β)} (h : ∀ k ∈ ks, F.Complete k) :
    F.feed fresh (ks.flatMap Packet.bytes) = (fresh, ks.flatMap Packet.items) := by
  induction ks with
  | nil => rfl
  | cons k ks ih =>
    have hrest := ih fun k' hk' => h k' (List.mem_cons_of_mem k hk')
    rw [List.flatMap_cons, List.flatMap_cons, feed_append, F.feed_packet (h k List.mem_cons_self),
      hrest]

theorem packet_mem_frame {ks : List (Packet β)} {frame : List β}
    (h : Item.frame frame ∈ ks.flatMap Packet.items) : ∃ k ∈ ks, k.frame = frame := by
  obtain ⟨k, hk, hitem⟩ := List.mem_flatMap.mp h
  refine ⟨k, hk, ?_⟩
  rw [Packet.items, List.mem_cons] at hitem
  rcases hitem with heq | hdata
  · cases heq
    rfl
  · obtain ⟨b, -, hb⟩ := List.mem_map.mp hdata
    cases hb

/-- A part of a stream of packets: what it delivers is the beginning of what the packets
are, and the start of a frame that it leaves is the start of one of theirs. -/
theorem feed_part {ks : List (Packet β)} (h : ∀ k ∈ ks, F.Complete k) {xs ys : List β}
    (hstream : ks.flatMap Packet.bytes = xs ++ ys) :
    (∃ later, ks.flatMap Packet.items = (F.feed fresh xs).2 ++ later) ∧
      ∀ p, (F.feed fresh xs).1 = ⟨p, 0⟩ → p = [] ∨ ∃ k ∈ ks, p <+: k.frame := by
  have hall := F.feed_packets h
  rw [hstream, feed_append] at hall
  have hlater : ks.flatMap Packet.items =
      (F.feed fresh xs).2 ++ (F.feed (F.feed fresh xs).1 ys).2 := (congrArg Prod.snd hall).symm
  refine ⟨⟨_, hlater⟩, fun p hp => ?_⟩
  have hend : (F.feed (F.feed fresh xs).1 ys).1 = fresh := congrArg Prod.fst hall
  rw [hp] at hend hlater
  rcases F.feed_extends p ys with ⟨z, hz⟩ | ⟨frame, rest, hprefix, hframe⟩
  · rw [hz] at hend
    have hnil : p ++ z = [] := congrArg Standing.start hend
    exact Or.inl (List.append_eq_nil_iff.mp hnil).1
  · refine Or.inr ?_
    have hmem : Item.frame frame ∈ ks.flatMap Packet.items := by
      rw [hlater, hframe]
      simp
    obtain ⟨k, hk, rfl⟩ := packet_mem_frame hmem
    exact ⟨k, hk, hprefix⟩

end Framing

end NcsProjects.StreamFraming
