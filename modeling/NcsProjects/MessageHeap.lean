import Mathlib.Data.Finset.Card
import Mathlib.Data.Finset.Image
import NcsProjects.MessageText

/-!
The heap under create_message. The allocator is explicit: a heap has a set of live
blocks, cJSON takes the blocks of an object and each printed text from it, and
cJSON_Delete gives back the object alone. Both functions print the object twice and
keep no pointer to either text, so each call leaves two more blocks behind.
-/
namespace NcsProjects.MessageHeap

open JsonText MessageText

variable {H B O : Type*} [DecidableEq B]

/-- cJSON over an allocator. `H` is the state of the heap and `O` an object, NULL
included; each call may find the heap exhausted. A text is a fresh block or NULL, and
belongs to the caller. -/
structure CJsonHeap (H B O : Type*) [DecidableEq B] where
  live : H → Finset B
  tree : O → Finset B
  createObject : H → O × H
  addString : Member → O → H → O × H
  print : O → H → Option B × H
  delete : O → H → H
  create_live : ∀ h, live (createObject h).2 = live h ∪ tree (createObject h).1
  create_fresh : ∀ h, Disjoint (live h) (tree (createObject h).1)
  add_live : ∀ m o h, ∃ taken, tree (addString m o h).1 = tree o ∪ taken ∧
    live (addString m o h).2 = live h ∪ taken ∧ Disjoint (live h) taken
  print_some : ∀ o h b h', print o h = (some b, h') → b ∉ live h ∧ live h' = insert b (live h)
  print_none : ∀ o h h', print o h = (none, h') → live h' = live h
  delete_live : ∀ o h, live (delete o h) = live h \ tree o

/-- A call stores its message, or passes the NULL of a failed print to strlen or strcpy. -/
inductive Outcome
  | stored
  | crashed
  deriving DecidableEq

def addStrings (cj : CJsonHeap H B O) : List Member → O → H → O × H
  | [], o, h => (o, h)
  | m :: rest, o, h =>
    let (o, h) := cj.addString m o h
    addStrings cj rest o h

/-- strlen and strcpy each take a text of their own, and the object goes. -/
def storeText (cj : CJsonHeap H B O) (o : O) (h : H) : Outcome × H :=
  match cj.print o h with
  | (none, h) => (.crashed, h)
  | (some _, h) =>
    match cj.print o h with
    | (none, h) => (.crashed, h)
    | (some _, h) => (.stored, cj.delete o h)

/-- What both functions do to the heap; `ms` are the members of the message. -/
def buildMessage (cj : CJsonHeap H B O) (ms : List Member) (h : H) : Outcome × H :=
  let (o, h) := cj.createObject h
  let (o, h) := addStrings cj ms o h
  storeText cj o h

/-- A call of create_message in one of the applications, with the string behind `data`. -/
inductive Call
  | mqttWork (type : MqttWork.AppMsgType) (data : List Byte) (timestamp : BitVec 64)
  | gcloud (data : List Byte) (timestamp : BitVec 64)

def Call.members : Call → List Member
  | .mqttWork type data timestamp => MessageText.members (MqttWork.typed type) timestamp data
  | .gcloud data timestamp => MessageText.members [] timestamp data

/-- The calls one after the other, up to the first that crashes. -/
def run (cj : CJsonHeap H B O) : List Call → H → Outcome × H
  | [], h => (.stored, h)
  | call :: rest, h =>
    match buildMessage cj call.members h with
    | (.crashed, h) => (.crashed, h)
    | (.stored, h) => run cj rest h

/-- While an object is built, the live blocks are the old ones and those of its tree. -/
structure Building (cj : CJsonHeap H B O) (before : Finset B) (o : O) (h : H) : Prop where
  live : cj.live h = before ∪ cj.tree o
  disjoint : Disjoint before (cj.tree o)

theorem building_createObject (cj : CJsonHeap H B O) (h : H) :
    Building cj (cj.live h) (cj.createObject h).1 (cj.createObject h).2 :=
  ⟨cj.create_live h, cj.create_fresh h⟩

theorem Building.addString {cj : CJsonHeap H B O} {before : Finset B} {o : O} {h : H}
    (hb : Building cj before o h) (m : Member) :
    Building cj before (cj.addString m o h).1 (cj.addString m o h).2 := by
  obtain ⟨taken, htree, hlive, hfresh⟩ := cj.add_live m o h
  rw [hb.live, Finset.disjoint_union_left] at hfresh
  constructor
  · rw [hlive, htree, hb.live, Finset.union_assoc]
  · rw [htree, Finset.disjoint_union_right]
    exact ⟨hb.disjoint, hfresh.1⟩

theorem Building.addStrings {cj : CJsonHeap H B O} {before : Finset B} (ms : List Member) {o : O}
    {h : H} (hb : Building cj before o h) :
    Building cj before (addStrings cj ms o h).1 (addStrings cj ms o h).2 := by
  induction ms generalizing o h with
  | nil => exact hb
  | cons m rest ih => exact ih (hb.addString m)

/-- The two texts outlive the object. -/
theorem storeText_leaks {cj : CJsonHeap H B O} {before : Finset B} {o : O} {h : H}
    (hb : Building cj before o h) (hstored : (storeText cj o h).1 = .stored) :
    ∃ first second, first ≠ second ∧ first ∉ before ∧ second ∉ before ∧
      cj.live (storeText cj o h).2 = insert second (insert first before) := by
  unfold storeText at hstored ⊢
  cases hfirst : cj.print o h with
  | mk first h₁ =>
    cases first with
    | none => simp [hfirst] at hstored
    | some first =>
      simp only [hfirst] at hstored ⊢
      cases hsecond : cj.print o h₁ with
      | mk second h₂ =>
        cases second with
        | none => simp [hsecond] at hstored
        | some second =>
          obtain ⟨hfresh₁, hlive₁⟩ := cj.print_some o h first h₁ hfirst
          obtain ⟨hfresh₂, hlive₂⟩ := cj.print_some o h₁ second h₂ hsecond
          rw [hb.live, Finset.mem_union, not_or] at hfresh₁
          rw [hlive₁, hb.live, Finset.mem_insert, Finset.mem_union, not_or, not_or] at hfresh₂
          refine ⟨first, second, Ne.symm hfresh₂.1, hfresh₁.1, hfresh₂.2.1, ?_⟩
          show cj.live (cj.delete o h₂) = _
          rw [cj.delete_live, hlive₂, hlive₁, hb.live,
            Finset.insert_sdiff_of_notMem _ hfresh₂.2.2, Finset.insert_sdiff_of_notMem _ hfresh₁.2,
            Finset.union_sdiff_cancel_right hb.disjoint]

/-- A call that returns leaves two blocks more than it found. -/
theorem buildMessage_card (cj : CJsonHeap H B O) (ms : List Member) (h : H)
    (hstored : (buildMessage cj ms h).1 = .stored) :
    (cj.live (buildMessage cj ms h).2).card = (cj.live h).card + 2 := by
  have hbuilding := (building_createObject cj h).addStrings ms
  obtain ⟨first, second, hne, hfirst, hsecond, hlive⟩ := storeText_leaks hbuilding hstored
  have hboth : second ∉ insert first (cj.live h) := by
    rw [Finset.mem_insert, not_or]
    exact ⟨Ne.symm hne, hsecond⟩
  have hcard := congrArg Finset.card hlive
  rw [Finset.card_insert_of_notMem hboth, Finset.card_insert_of_notMem hfirst] at hcard
  exact hcard

/-- The blocks left behind add up over a run. -/
theorem run_card (cj : CJsonHeap H B O) (calls : List Call) (h : H)
    (hstored : (run cj calls h).1 = .stored) :
    (cj.live (run cj calls h).2).card = (cj.live h).card + 2 * calls.length := by
  induction calls generalizing h with
  | nil => rfl
  | cons call rest ih =>
    cases hcall : buildMessage cj call.members h with
    | mk out h' =>
      cases out with
      | crashed => simp [run, hcall] at hstored
      | stored =>
        simp only [run, hcall] at hstored ⊢
        have hone := buildMessage_card cj call.members h (by rw [hcall])
        have hrest := ih h' hstored
        rw [hcall] at hone
        rw [hrest, hone, List.length_cons]
        omega

/-- No heap of bounded size outlasts the uploads: after enough of them a print fails,
and its NULL is read as a string. -/
theorem run_exhausts (cj : CJsonHeap H B O) (capacity : ℕ)
    (hcapacity : ∀ h, (cj.live h).card ≤ capacity) (calls : List Call) (h : H)
    (hmany : capacity < 2 * calls.length) : (run cj calls h).1 = .crashed := by
  cases hout : (run cj calls h).1 with
  | crashed => rfl
  | stored =>
    have hcard := run_card cj calls h hout
    have hle := hcapacity (run cj calls h).2
    omega

/-- The calls leave the heap as it was only when there are none. -/
theorem run_keeps_heap_iff (cj : CJsonHeap H B O) (calls : List Call) (h : H) :
    ((run cj calls h).1 = .stored ∧ cj.live (run cj calls h).2 = cj.live h) ↔ calls = [] := by
  constructor
  · rintro ⟨hstored, hlive⟩
    have hcard := run_card cj calls h hstored
    rw [hlive] at hcard
    apply List.length_eq_zero_iff.mp
    omega
  · rintro rfl
    exact ⟨rfl, rfl⟩

/-- A heap that hands out the numbers from `next` on. -/
structure Arena where
  live : Finset ℕ
  next : ℕ
  below : ∀ b ∈ live, b < next

namespace Arena

def empty : Arena := ⟨∅, 0, by simp⟩

def fresh (h : Arena) (n : ℕ) : Finset ℕ := (Finset.range n).image (h.next + ·)

theorem mem_fresh {h : Arena} {n b : ℕ} (hb : b ∈ h.fresh n) : h.next ≤ b ∧ b < h.next + n := by
  obtain ⟨i, hi, rfl⟩ := Finset.mem_image.mp hb
  have hlt := Finset.mem_range.mp hi
  omega

theorem disjoint_fresh (h : Arena) (n : ℕ) : Disjoint h.live (h.fresh n) := by
  rw [Finset.disjoint_left]
  intro b hb hfresh
  have hlt := h.below b hb
  have hge := (mem_fresh hfresh).1
  omega

def take (h : Arena) (n : ℕ) : Arena where
  live := h.live ∪ h.fresh n
  next := h.next + n
  below := by
    intro b hb
    rcases Finset.mem_union.mp hb with hold | hnew
    · have hlt := h.below b hold
      omega
    · exact (mem_fresh hnew).2

def free (h : Arena) (blocks : Finset ℕ) : Arena where
  live := h.live \ blocks
  next := h.next
  below := fun b hb => h.below b (Finset.mem_sdiff.mp hb).1

end Arena

/-- cJSON on an arena of `capacity` blocks: one for an object, three for a member (the
item, its key and its value) and one for a text; NULL is the empty tree. -/
def arena (capacity : ℕ) : CJsonHeap Arena ℕ (Finset ℕ) where
  live := Arena.live
  tree := fun o => o
  createObject := fun h =>
    if h.live.card < capacity then (h.fresh 1, h.take 1) else (∅, h)
  addString := fun _ o h =>
    if o ≠ ∅ ∧ h.live.card + 3 ≤ capacity then (o ∪ h.fresh 3, h.take 3) else (o, h)
  print := fun o h =>
    if o ≠ ∅ ∧ h.live.card < capacity then (some h.next, h.take 1) else (none, h)
  delete := fun o h => h.free o
  create_live := by
    intro h
    split
    · rfl
    · simp
  create_fresh := by
    intro h
    split
    · exact h.disjoint_fresh 1
    · exact Finset.disjoint_empty_right h.live
  add_live := by
    intro _ o h
    split
    · exact ⟨h.fresh 3, rfl, rfl, h.disjoint_fresh 3⟩
    · exact ⟨∅, by simp, by simp, Finset.disjoint_empty_right h.live⟩
  print_some := by
    intro o h b h' heq
    split at heq
    · simp only [Prod.mk.injEq, Option.some.injEq] at heq
      rw [← heq.1, ← heq.2]
      refine ⟨fun hmem => Nat.lt_irrefl _ (h.below _ hmem), ?_⟩
      simp [Arena.take, Arena.fresh]
    · simp at heq
  print_none := by
    intro o h h' heq
    split at heq
    · simp at heq
    · simp only [Prod.mk.injEq] at heq
      rw [← heq.2]
  delete_live := fun _ _ => rfl

/-- One message with plenty of room: it is stored, and two texts stay behind. -/
theorem run_leaks_once :
    let calls := [Call.gcloud [0x78#8] 5#64]
    (run (arena 64) calls Arena.empty).1 = .stored ∧
      (arena 64).live (run (arena 64) calls Arena.empty).2 ≠ (arena 64).live Arena.empty := by
  decide

end NcsProjects.MessageHeap
