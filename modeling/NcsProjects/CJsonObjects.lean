import Mathlib.Logic.Function.Basic
import NcsProjects.CJsonPrint

/-!
cJSON objects with members that are strings: nodes and strings in blocks of a heap, linked
by pointers, as zephyr.lst has the functions compiled. Each request may be refused, and then
what was taken for it is given back. Nothing is freed twice, or read after it was freed.
-/
namespace NcsProjects.CJsonObjects

open BlockHeaps ByteRegions CJsonBuffer CJsonPrint MessageText
open JsonText (Byte Member total)

/-- A cJSON. A pointer is a block or NULL; `number` is the valuedouble as it is written. -/
structure Node where
  next : Option ℕ
  prev : Option ℕ
  child : Option ℕ
  type : BitVec 32
  valuestring : Option ℕ
  string : Option ℕ
  number : CString

/-- What a block is used for. -/
inductive Cell
  | node (n : Node)
  | bytes (size : ℕ) (contents : Region Byte)

structure Memory where
  heap : ByteHeap
  cells : ℕ → Cell

theorem string_of_cString (memory : List Byte) : ∀ s, cString memory = some s → 0#8 ∉ s :=
  fun _ h => (cString_some h).2

/-- The string in front of a stretch of memory -/
def stringIn (memory : List Byte) : Option CString :=
  (cString memory).pmap CString.mk (string_of_cString memory)

theorem stringIn_memory (s : CString) (behind : List Byte) :
    stringIn (s.memory behind) = some s :=
  Option.pmap_eq_some_iff.mpr ⟨s.bytes, s.string, cString_memory s behind, rfl⟩

namespace Memory

/-- None of it stands for a block that is no node, or not in use. -/
def read (p : ℕ) (m : Memory) : Option Node :=
  if p ∈ m.heap.live then
    match m.cells p with
    | .node n => some n
    | .bytes _ _ => none
  else none

def set (p : ℕ) (cell : Cell) (m : Memory) : Memory :=
  { m with cells := Function.update m.cells p cell }

def modify (p : ℕ) (f : Node → Node) (m : Memory) : Option Memory :=
  (m.read p).map fun n => m.set p (.node (f n))

/-- The string in a block -/
def text (p : ℕ) (m : Memory) : Option CString :=
  if p ∈ m.heap.live then
    match m.cells p with
    | .node _ => none
    | .bytes size contents => stringIn (slice contents 0 size)
  else none

def textOf : Option ℕ → Memory → Option (Option CString)
  | none, _ => some none
  | some p, m => (m.text p).map some

/-- hooks.deallocate -/
def free (p : ℕ) (m : Memory) : Option Memory :=
  (m.heap.free p).map fun heap => { m with heap := heap }

def freeString : Option ℕ → Memory → Option Memory
  | none, m => some m
  | some p, m => m.free p

/-- hooks.allocate, for a block that becomes a cell -/
def allocate (size : ℕ) (cell : Region Byte → Cell) (m : Memory) : Option ℕ × Memory :=
  match m.heap.malloc size with
  | (none, heap) => (none, { m with heap := heap })
  | (some (p, contents), heap) => (some p, set p (cell contents) { m with heap := heap })

end Memory

def cJSONInvalid : BitVec 32 := 0
def cJSONFalse : BitVec 32 := 1
def cJSONTrue : BitVec 32 := 2
def cJSONNull : BitVec 32 := 4
def cJSONNumber : BitVec 32 := 8
def cJSONString : BitVec 32 := 16
def cJSONArray : BitVec 32 := 32
def cJSONObject : BitVec 32 := 64
def cJSONRaw : BitVec 32 := 128
def cJSONIsReference : BitVec 32 := 256
def cJSONStringIsConst : BitVec 32 := 512

def Node.isReference (n : Node) : Bool := n.type &&& cJSONIsReference ≠ 0

def Node.stringIsConst (n : Node) : Bool := n.type &&& cJSONStringIsConst ≠ 0

/-- The node that memset leaves. -/
def cleared : Node := ⟨none, none, none, cJSONInvalid, none, none, ⟨[0x30#8], by decide⟩⟩

/-- cJSON_New_Item -/
def newItem (m : Memory) : Option ℕ × Memory := m.allocate 40 fun _ => .node cleared

/-- cJSON_strdup -/
def strdup (string : Option CString) (m : Memory) : Option ℕ × Memory :=
  match string with
  | none => (none, m)
  | some s =>
    let length := (s.bytes.length + 1) % 2 ^ 32
    m.allocate length fun contents =>
      .bytes length (write contents 0 ((s.bytes ++ [0#8]).take length))

/-- cJSON_Delete, for so many nodes in a chain -/
def deleteLoop : ℕ → Option ℕ → Memory → Option Memory
  | _, none, m => some m
  | 0, some _, _ => none
  | fuel + 1, some item, m => do
    let n ← m.read item
    let m ← if n.isReference then some m else deleteLoop fuel n.child m
    let n' ← m.read item
    let m ← if n'.isReference then some m else m.freeString n'.valuestring
    let n' ← m.read item
    let m ← if n'.stringIsConst then some m else m.freeString n'.string
    let m ← m.free item
    deleteLoop fuel n.next m

/-- There are no more nodes than there were requests. -/
def cJSONDelete (item : Option ℕ) (m : Memory) : Option Memory :=
  deleteLoop (m.heap.requests + 1) item m

/-- cJSON_CreateString -/
def createString (string : Option CString) (m : Memory) : Option (Option ℕ × Memory) :=
  match newItem m with
  | (none, m) => some (none, m)
  | (some item, m) => do
    let m ← m.modify item fun n => { n with type := cJSONString }
    let (copy, m) := strdup string m
    let m ← m.modify item fun n => { n with valuestring := copy }
    match copy with
    | none => (cJSONDelete (some item) m).map fun m => (none, m)
    | some _ => some (some item, m)

/-- cJSON_CreateObject -/
def createObject (m : Memory) : Option (Option ℕ × Memory) :=
  match newItem m with
  | (none, m) => some (none, m)
  | (some item, m) =>
    (m.modify item fun n => { n with type := cJSONObject }).map fun m => (some item, m)

/-- add_item_to_array -/
def addItemToArray (array item : Option ℕ) (m : Memory) : Option (Bool × Memory) :=
  match array, item with
  | some array, some item =>
    if array = item then some (false, m)
    else do
      let a ← m.read array
      match a.child with
      | none =>
        let m ← m.modify array fun a => { a with child := some item }
        let m ← m.modify item fun n => { n with prev := some item, next := none }
        some (true, m)
      | some child =>
        let c ← m.read child
        match c.prev with
        | none => some (true, m)
        | some prev =>
          let m ← m.modify prev fun n => { n with next := some item }
          let m ← m.modify item fun n => { n with prev := some prev }
          let m ← m.modify child fun n => { n with prev := some item }
          some (true, m)
  | _, _ => some (false, m)

/-- add_item_to_object -/
def addItemToObject (object : Option ℕ) (string : Option CString) (item : Option ℕ) (m : Memory) :
    Option (Bool × Memory) :=
  match object, string, item with
  | some object, some string, some item =>
    if object = item then some (false, m)
    else
      match strdup (some string) m with
      | (none, m) => some (false, m)
      | (some newKey, m) => do
        let n ← m.read item
        let m ← if n.stringIsConst then some m else m.freeString n.string
        let m ← m.modify item fun i =>
          { i with string := some newKey, type := n.type &&& ~~~cJSONStringIsConst }
        addItemToArray (some object) (some item) m
  | _, _, _ => some (false, m)

/-- cJSON_AddStringToObject -/
def addStringToObject (object : Option ℕ) (name string : Option CString) (m : Memory) :
    Option (Option ℕ × Memory) := do
  let (item, m) ← createString string m
  let (added, m) ← addItemToObject object name item m
  if added then some (item, m) else (cJSONDelete item m).map fun m => (none, m)

/-- The case of print_value for a node -/
def kindOf (n : Node) (m : Memory) : Option Kind :=
  let type := n.type &&& 0xff
  if type = cJSONNull then some .null
  else if type = cJSONFalse then some .false
  else if type = cJSONTrue then some .true
  else if type = cJSONNumber then some (.number n.number)
  else if type = cJSONRaw then (m.textOf n.valuestring).map .raw
  else if type = cJSONString then (m.textOf n.valuestring).map .string
  else if type = cJSONArray then some .array
  else if type = cJSONObject then some .object
  else some .invalid

/-- print_value goes on to the children of arrays and objects, print_object to the keys. -/
def loadChild (load : Bool → Option Item) : Kind → Option Item
  | .array => load false
  | .object => load true
  | _ => some .nil

/-- The nodes that a print meets from a pointer on, for so many in a chain. -/
def loadItems (m : Memory) : ℕ → Bool → Option ℕ → Option Item
  | _, _, none => some .nil
  | 0, _, some _ => none
  | fuel + 1, named, some p => do
    let n ← m.read p
    let kind ← kindOf n m
    let key ← if named then m.textOf n.string else some none
    let child ← loadChild (fun named => loadItems m fuel named n.child) kind
    let next ← loadItems m fuel named n.next
    some (.node kind key child next)

def loadItem (m : Memory) : Option ℕ → Option Item
  | none => some .nil
  | some p => do
    let n ← m.read p
    let kind ← kindOf n m
    let child ← loadChild (fun named => loadItems m (m.heap.requests + 1) named n.child) kind
    some (.node kind none child .nil)

section

-- Whether the hooks have a reallocate.
variable (reallocs : Bool)

/-- cJSON_Print; the nodes stay as they are in the meantime. -/
def printItem (item : Option ℕ) (m : Memory) : Option (Option ℕ × Memory) := do
  let tree ← loadItem m item
  match ← cJSONPrint reallocs tree m.heap with
  | (none, heap) => some (none, { m with heap := heap })
  | (some printed, heap) =>
    let text := Cell.bytes printed.size printed.contents
    some (some printed.block, Memory.set printed.block text { m with heap := heap })

end

namespace Memory

variable {m m' m'' : Memory} {p q : ℕ} {n : Node} {s : CString}

theorem read_eq_some_iff : m.read p = some n ↔ p ∈ m.heap.live ∧ m.cells p = .node n := by
  unfold read
  by_cases hp : p ∈ m.heap.live
  · rw [if_pos hp]
    cases hcell : m.cells p with
    | node n' => simp [hp]
    | bytes size contents => simp
  · rw [if_neg hp]
    simp [hp]

theorem live_of_text (h : m.text p = some s) : p ∈ m.heap.live := by
  unfold text at h
  by_contra hp
  rw [if_neg hp] at h
  cases h

theorem read_set_self (hp : p ∈ m.heap.live) (n : Node) : (m.set p (.node n)).read p = some n :=
  read_eq_some_iff.mpr ⟨hp, Function.update_self ..⟩

theorem text_set_self (hp : p ∈ m.heap.live) (size : ℕ) (contents : Region Byte) :
    (m.set p (.bytes size contents)).text p = stringIn (slice contents 0 size) := by
  have hset : p ∈ (m.set p (.bytes size contents)).heap.live := hp
  rw [text, if_pos hset, set]
  simp only [Function.update_self]

/-- A block that is in use stays in use, with what is in it. -/
def Same (m m' : Memory) (p : ℕ) : Prop :=
  (p ∈ m.heap.live → p ∈ m'.heap.live) ∧ m'.cells p = m.cells p

theorem Same.trans (h : Same m m' p) (h' : Same m' m'' p) : Same m m'' p :=
  ⟨fun hp => h'.1 (h.1 hp), h'.2.trans h.2⟩

theorem same_set (hne : q ≠ p) (cell : Cell) : Same m (m.set p cell) q :=
  ⟨id, Function.update_of_ne hne ..⟩

theorem Same.read (h : Same m m' p) (hread : m.read p = some n) : m'.read p = some n := by
  rw [read_eq_some_iff] at hread ⊢
  exact ⟨h.1 hread.1, h.2.trans hread.2⟩

theorem Same.text (h : Same m m' p) (htext : m.text p = some s) : m'.text p = some s := by
  have hp := live_of_text htext
  unfold Memory.text at htext ⊢
  rw [if_pos hp] at htext
  rw [if_pos (h.1 hp), h.2]
  exact htext

/-- No block is a node and a string at once. -/
theorem same_of_text {n' : Node} (hread : m.read q = some n) (htext : m.text p = some s) :
    (m.set q (.node n')).text p = some s := by
  refine (same_set ?_ _).text htext
  rintro rfl
  obtain ⟨hlive, hcell⟩ := read_eq_some_iff.mp hread
  unfold text at htext
  rw [if_pos hlive, hcell] at htext
  cases htext

theorem modify_of_read (h : m.read p = some n) (f : Node → Node) :
    m.modify p f = some (m.set p (.node (f n))) := by
  rw [modify, h, Option.map_some]

theorem allocate_cases (size : ℕ) (cell : Region Byte → Cell) (m : Memory) :
    (∃ m', m.allocate size cell = (none, m') ∧ m'.cells = m.cells ∧
      m'.heap.live = m.heap.live ∧ m.heap.refused < m'.heap.refused) ∨
    (∃ p contents m', m.allocate size cell = (some p, m') ∧ p ∉ m.heap.live ∧
      m'.heap.live = insert p m.heap.live ∧
      m'.cells = Function.update m.cells p (cell contents) ∧
      m'.heap.refused = m.heap.refused) := by
  unfold allocate
  rcases malloc_cases size m.heap with
    ⟨heap, hmalloc, hlive, hrefused⟩ | ⟨p, contents, heap, hmalloc, hfresh, hlive, hrefused⟩
  · rw [hmalloc]
    exact Or.inl ⟨_, rfl, rfl, hlive, hrefused⟩
  · rw [hmalloc]
    exact Or.inr ⟨p, contents, _, rfl, hfresh, hlive, rfl, hrefused⟩

theorem free_of_mem (hp : p ∈ m.heap.live) :
    ∃ m', m.free p = some m' ∧ m'.cells = m.cells ∧ m'.heap.live = m.heap.live.erase p ∧
      m'.heap.refused = m.heap.refused := by
  obtain ⟨heap, hfree, hlive, hrefused⟩ := BlockHeaps.free_of_mem hp
  rw [free, hfree, Option.map_some]
  exact ⟨_, rfl, rfl, hlive, hrefused⟩

theorem freeString_of_mem {string : Option ℕ} (hp : ∀ p ∈ string.toList, p ∈ m.heap.live) :
    ∃ m', m.freeString string = some m' ∧ m'.cells = m.cells ∧
      m'.heap.live = m.heap.live \ string.toList.toFinset ∧
      m'.heap.refused = m.heap.refused := by
  cases string with
  | none => exact ⟨m, rfl, rfl, by simp, rfl⟩
  | some p =>
    obtain ⟨m', hfree, hcells, hlive, hrefused⟩ := free_of_mem (hp p (List.mem_singleton_self p))
    exact ⟨m', hfree, hcells, by rw [hlive]; simp [Finset.sdiff_singleton_eq_erase], hrefused⟩

end Memory

open Memory (Same)

theorem deleteLoop_none (fuel : ℕ) (m : Memory) : deleteLoop fuel none m = some m := by
  cases fuel with
  | zero => rfl
  | succ fuel => rfl

def Node.strings (n : Node) : List ℕ := n.valuestring.toList ++ n.string.toList

/-- One round of cJSON_Delete gives a node and its strings back. -/
theorem deleteLoop_node {fuel item : ℕ} {n : Node} {m m₁ : Memory} (hread : m.read item = some n)
    (href : n.isReference = false) (hconst : n.stringIsConst = false)
    (hchild : deleteLoop fuel n.child m = some m₁) (hcells : m₁.cells = m.cells)
    (hlive : ∀ b ∈ item :: n.strings, b ∈ m₁.heap.live)
    (hdistinct : (item :: n.strings).Nodup) :
    ∃ m', deleteLoop (fuel + 1) (some item) m = deleteLoop fuel n.next m' ∧
      m'.cells = m.cells ∧ m'.heap.live = m₁.heap.live \ (item :: n.strings).toFinset ∧
      m'.heap.refused = m₁.heap.refused := by
  have hcell := (Memory.read_eq_some_iff.mp hread).2
  rw [List.nodup_cons, Node.strings, List.nodup_append] at hdistinct
  obtain ⟨hitem, -, -, hapart⟩ := hdistinct
  rw [Node.strings] at hlive
  have hvalue : ∀ b ∈ n.valuestring.toList, b ∈ m₁.heap.live := fun b hb =>
    hlive b (List.mem_cons_of_mem _ (List.mem_append_left _ hb))
  obtain ⟨m₂, hfree₂, hcells₂, hlive₂, hrefused₂⟩ := Memory.freeString_of_mem hvalue
  have hkey : ∀ b ∈ n.string.toList, b ∈ m₂.heap.live := by
    intro b hb
    rw [hlive₂, Finset.mem_sdiff, List.mem_toFinset]
    exact ⟨hlive b (List.mem_cons_of_mem _ (List.mem_append_right _ hb)),
      fun hmem => hapart b hmem b hb rfl⟩
  obtain ⟨m₃, hfree₃, hcells₃, hlive₃, hrefused₃⟩ := Memory.freeString_of_mem hkey
  have hitem₁ : item ∈ m₁.heap.live := hlive item List.mem_cons_self
  have hitem₂ : item ∈ m₂.heap.live := by
    rw [hlive₂, Finset.mem_sdiff, List.mem_toFinset]
    exact ⟨hitem₁, fun hmem => hitem (List.mem_append_left _ hmem)⟩
  have hitem₃ : item ∈ m₃.heap.live := by
    rw [hlive₃, Finset.mem_sdiff, List.mem_toFinset]
    exact ⟨hitem₂, fun hmem => hitem (List.mem_append_right _ hmem)⟩
  have hread₁ : m₁.read item = some n := Memory.read_eq_some_iff.mpr ⟨hitem₁, by rw [hcells, hcell]⟩
  have hread₂ : m₂.read item = some n :=
    Memory.read_eq_some_iff.mpr ⟨hitem₂, by rw [hcells₂, hcells, hcell]⟩
  obtain ⟨m₄, hfree₄, hcells₄, hlive₄, hrefused₄⟩ := Memory.free_of_mem hitem₃
  refine ⟨m₄, ?_, ?_, ?_, ?_⟩
  · rw [deleteLoop, hread]
    simp only [Option.bind_eq_bind, Option.bind_some, href, hconst, hchild, hread₁, hread₂, hfree₂,
      hfree₃, hfree₄, Bool.false_eq_true, if_false]
  · rw [hcells₄, hcells₃, hcells₂, hcells]
  · rw [hlive₄, hlive₃, hlive₂, ← Finset.sdiff_singleton_eq_erase, sdiff_sdiff_left,
      sdiff_sdiff_left, List.toFinset_cons, Node.strings, List.toFinset_append, Finset.insert_eq,
      Finset.union_comm {item}, Finset.union_assoc]
    rfl
  · rw [hrefused₄, hrefused₃, hrefused₂]

/-- The strings that go into the object, with their names -/
structure Pair where
  key : CString
  value : CString

def Pair.member (p : Pair) : Member := ⟨p.key.bytes, p.value.bytes⟩

/-- A member: its node, the blocks of its strings, and what is in them -/
structure Entry where
  node : ℕ
  value : ℕ
  key : ℕ
  pair : Pair

def Entry.blocks (e : Entry) : List ℕ := [e.node, e.value, e.key]

def Entry.shape (e : Entry) (next prev : Option ℕ) : Node :=
  ⟨next, prev, none, cJSONString, some e.value, some e.key, cleared.number⟩

theorem Node.plain {n : Node} (h : n.type = cJSONString ∨ n.type = cJSONObject) :
    n.isReference = false ∧ n.stringIsConst = false := by
  unfold isReference stringIsConst
  rcases h with h | h
  · rw [h]
    decide
  · rw [h]
    decide

structure Entry.Stands (m : Memory) (e : Entry) (next prev : Option ℕ) : Prop where
  node : m.read e.node = some (e.shape next prev)
  value : m.text e.value = some e.pair.value
  key : m.text e.key = some e.pair.key

def first (entries : List Entry) : Option ℕ := entries.head?.map Entry.node

def last (entries : List Entry) : Option ℕ := entries.getLast?.map Entry.node

def blocks (entries : List Entry) : List ℕ := entries.flatMap Entry.blocks

/-- Each entry points at the one behind it. -/
def Siblings (m : Memory) : List Entry → Prop
  | [] => True
  | e :: rest => (∃ prev, e.Stands m (first rest) prev) ∧ Siblings m rest

theorem Entry.Stands.same {m m' : Memory} {e : Entry} {next prev : Option ℕ}
    (h : e.Stands m next prev) (hsame : ∀ b ∈ e.blocks, Same m m' b) : e.Stands m' next prev where
  node := (hsame e.node (by simp [blocks])).read h.node
  value := (hsame e.value (by simp [blocks])).text h.value
  key := (hsame e.key (by simp [blocks])).text h.key

theorem Siblings.same {m m' : Memory} {entries : List Entry} (h : Siblings m entries)
    (hsame : ∀ b ∈ blocks entries, Same m m' b) : Siblings m' entries := by
  induction entries with
  | nil => trivial
  | cons e rest ih =>
    obtain ⟨⟨prev, hstands⟩, hrest⟩ := h
    refine ⟨⟨prev, hstands.same fun b hb => hsame b ?_⟩, ih hrest fun b hb => hsame b ?_⟩
    · exact List.mem_append_left _ hb
    · exact List.mem_append_right _ hb

theorem Siblings.live {m : Memory} {entries : List Entry} (h : Siblings m entries) :
    ∀ b ∈ blocks entries, b ∈ m.heap.live := by
  induction entries with
  | nil => simp [blocks]
  | cons e rest ih =>
    obtain ⟨⟨prev, hstands⟩, hrest⟩ := h
    intro b hb
    rcases List.mem_append.mp hb with hone | hmore
    · simp only [Entry.blocks, List.mem_cons, List.not_mem_nil, or_false] at hone
      rcases hone with rfl | rfl | rfl
      · exact (Memory.read_eq_some_iff.mp hstands.node).1
      · exact Memory.live_of_text hstands.value
      · exact Memory.live_of_text hstands.key
    · exact ih hrest b hmore

/-- cJSON_Delete gives back all blocks of a chain, each of them once. -/
theorem deleteLoop_siblings {entries : List Entry} {m : Memory} (h : Siblings m entries)
    (hdistinct : (blocks entries).Nodup) {fuel : ℕ} (hfuel : entries.length ≤ fuel) :
    ∃ m', deleteLoop fuel (first entries) m = some m' ∧ m'.cells = m.cells ∧
      m'.heap.live = m.heap.live \ (blocks entries).toFinset ∧
      m'.heap.refused = m.heap.refused := by
  induction entries generalizing m fuel with
  | nil => exact ⟨m, deleteLoop_none fuel m, rfl, by simp [blocks], rfl⟩
  | cons e rest ih =>
    have hlive := h.live
    obtain ⟨⟨prev, hstands⟩, hrest⟩ := h
    have hsplit : (Entry.blocks e ++ blocks rest).Nodup := hdistinct
    obtain ⟨hone, hmore, hapart⟩ := List.nodup_append.mp hsplit
    obtain ⟨fuel, rfl⟩ := Nat.exists_eq_succ_of_ne_zero (n := fuel) (by
      rintro rfl
      cases hfuel)
    obtain ⟨href, hconst⟩ := Node.plain (n := e.shape (first rest) prev) (Or.inl rfl)
    obtain ⟨m₁, hstep, hcells₁, hlive₁, hrefused₁⟩ := deleteLoop_node hstands.node href hconst
      (deleteLoop_none fuel m) rfl (fun b hb => hlive b (List.mem_append_left _ hb)) hone
    have hsame : ∀ b ∈ blocks rest, Same m m₁ b := by
      intro b hb
      refine ⟨fun hmem => ?_, by rw [hcells₁]⟩
      rw [hlive₁, Finset.mem_sdiff, List.mem_toFinset]
      exact ⟨hmem, fun hfreed => hapart b hfreed b hb rfl⟩
    obtain ⟨m', hloop, hcells, hafter, hrefused⟩ :=
      ih (hrest.same hsame) hmore (Nat.le_of_succ_le_succ hfuel)
    refine ⟨m', hstep.trans hloop, hcells.trans hcells₁, ?_, hrefused.trans hrefused₁⟩
    rw [hafter, hlive₁, sdiff_sdiff_left]
    have hunion : (blocks (e :: rest)).toFinset =
        (e.node :: (e.shape (first rest) prev).strings).toFinset ∪ (blocks rest).toFinset := by
      rw [← List.toFinset_append]
      rfl
    rw [hunion]
    rfl

section

variable {m m' : Memory} {e l x : Entry} {next prev : Option ℕ}

theorem Entry.Stands.set_other {q : ℕ} {n : Node} (h : x.Stands m next prev) (hne : x.node ≠ q)
    (hread : m.read q = some n) (n' : Node) : x.Stands (m.set q (.node n')) next prev where
  node := (Memory.same_set hne _).read h.node
  value := Memory.same_of_text hread h.value
  key := Memory.same_of_text hread h.key

theorem Entry.Stands.set_self (h : x.Stands m next prev) (next' prev' : Option ℕ) :
    x.Stands (m.set x.node (.node (x.shape next' prev'))) next' prev' where
  node := Memory.read_set_self (Memory.read_eq_some_iff.mp h.node).1 _
  value := Memory.same_of_text h.node h.value
  key := Memory.same_of_text h.node h.key

/-- Only the nodes in front of a node depend on where its prev points. -/
theorem Entry.Stands.set_prev {q : ℕ} {n : Node} (h : x.Stands m next prev)
    (hread : m.read q = some n) (p : Option ℕ) :
    ∃ prev', x.Stands (m.set q (.node { n with prev := p })) next prev' := by
  by_cases hne : x.node = q
  · subst hne
    rw [h.node] at hread
    cases hread
    exact ⟨p, h.set_self next p⟩
  · exact ⟨prev, h.set_other hne hread _⟩

theorem Siblings.last_stands {front : List Entry} (h : Siblings m (front ++ [l])) :
    ∃ prev, l.Stands m none prev := by
  induction front with
  | nil => exact h.1
  | cons x front ih => exact ih h.2

theorem first_append_pair (front : List Entry) :
    first (front ++ [l, e]) = first (front ++ [l]) := by
  cases front with
  | nil => rfl
  | cons x front => rfl

/-- One more entry behind the last one -/
theorem Siblings.link {front : List Entry} (h : Siblings m (front ++ [l]))
    (hfront : ∀ x ∈ front, ∀ next prev, x.Stands m next prev → ∃ prev, x.Stands m' next prev)
    (hl : ∃ prev, l.Stands m' (some e.node) prev) (he : ∃ prev, e.Stands m' none prev) :
    Siblings m' (front ++ [l, e]) := by
  induction front with
  | nil => exact ⟨hl, he, trivial⟩
  | cons x front ih =>
    obtain ⟨⟨prev, hstands⟩, hrest⟩ := h
    refine ⟨?_, ih hrest fun x hx => hfront x (List.mem_cons_of_mem _ hx)⟩
    change ∃ prev, x.Stands m' (first (front ++ [l, e])) prev
    rw [first_append_pair]
    exact hfront x List.mem_cons_self _ _ hstands

end

def rootShape (child : Option ℕ) : Node :=
  ⟨none, none, child, cJSONObject, none, none, cleared.number⟩

/-- The object in a block, with its members. The prev of the first one points at the last. -/
structure Represents (m : Memory) (object : ℕ) (entries : List Entry) : Prop where
  root : m.read object = some (rootShape (first entries))
  siblings : Siblings m entries
  tail : ∀ head ∈ first entries, ∃ n, m.read head = some n ∧ n.prev = last entries
  distinct : (object :: blocks entries).Nodup

theorem node_mem_blocks {entries : List Entry} {e : Entry} (he : e ∈ entries) :
    e.node ∈ blocks entries :=
  List.mem_flatMap.mpr ⟨e, he, List.mem_cons_self⟩

theorem Represents.live {m : Memory} {object : ℕ} {entries : List Entry}
    (h : Represents m object entries) : ∀ b ∈ object :: blocks entries, b ∈ m.heap.live := by
  intro b hb
  rcases List.mem_cons.mp hb with rfl | hb
  · exact (Memory.read_eq_some_iff.mp h.root).1
  · exact h.siblings.live b hb

theorem Represents.same {m m' : Memory} {object : ℕ} {entries : List Entry}
    (h : Represents m object entries) (hsame : ∀ b ∈ object :: blocks entries, Same m m' b) :
    Represents m' object entries where
  root := (hsame object List.mem_cons_self).read h.root
  siblings := h.siblings.same fun b hb => hsame b (List.mem_cons_of_mem _ hb)
  tail := by
    intro head hhead
    obtain ⟨n, hread, hprev⟩ := h.tail head hhead
    obtain ⟨e, he, rfl⟩ := Option.map_eq_some_iff.mp hhead
    have hmem : e.node ∈ blocks entries := node_mem_blocks (List.mem_of_head? he)
    exact ⟨n, (hsame e.node (List.mem_cons_of_mem _ hmem)).read hread, hprev⟩
  distinct := h.distinct

/-- add_item_to_array finds the end of the chain by the prev of its head. -/
theorem addItemToArray_appends {m : Memory} {object : ℕ} {entries : List Entry} {e : Entry}
    (h : Represents m object entries) (he : e.Stands m none none)
    (hdistinct : (object :: blocks (entries ++ [e])).Nodup) :
    ∃ m', addItemToArray (some object) (some e.node) m = some (true, m') ∧ m'.heap = m.heap ∧
      Represents m' object (entries ++ [e]) ∧
      ∀ b, b ∉ object :: blocks (entries ++ [e]) → m'.cells b = m.cells b := by
  have hobject : ∀ x ∈ entries ++ [e], object ≠ x.node := by
    rintro x hx rfl
    exact (List.nodup_cons.mp hdistinct).1 (node_mem_blocks hx)
  have hbeside : ∀ x ∈ entries, x.node ≠ e.node := by
    intro x hx heq
    have hnodup := (List.nodup_cons.mp hdistinct).2
    rw [blocks, List.flatMap_append, List.nodup_append] at hnodup
    exact hnodup.2.2 x.node (node_mem_blocks hx) e.node (node_mem_blocks List.mem_cons_self) heq
  have hitem : object ≠ e.node := hobject e (by simp)
  rcases List.eq_nil_or_concat entries with rfl | ⟨front, l, rfl⟩
  · have hroot := h.root
    have hset := he.set_other hitem.symm hroot (rootShape (some e.node))
    generalize hm₁ : m.set object (.node (rootShape (some e.node))) = m₁ at hset
    have hone : m.modify object (fun a => { a with child := some e.node }) = some m₁ := by
      rw [Memory.modify_of_read hroot, ← hm₁]
      rfl
    have htwo : m₁.modify e.node (fun n => { n with prev := some e.node, next := none }) =
        some (m₁.set e.node (.node (e.shape none (some e.node)))) :=
      Memory.modify_of_read hset.node _
    refine ⟨m₁.set e.node (.node (e.shape none (some e.node))), ?_, ?_, ⟨?_, ?_, ?_, hdistinct⟩,
      ?_⟩
    · have hchild : (rootShape (first [])).child = none := rfl
      simp only [addItemToArray, if_neg hitem, hroot, hchild, hone, htwo, Option.bind_eq_bind,
        Option.bind_some]
    · rw [← hm₁]
      rfl
    · have hread := Memory.read_set_self (Memory.read_eq_some_iff.mp hroot).1
        (rootShape (some e.node))
      rw [hm₁] at hread
      exact (Memory.same_set hitem _).read hread
    · exact ⟨⟨_, hset.set_self none (some e.node)⟩, trivial⟩
    · intro head hhead
      cases hhead
      exact ⟨_, (hset.set_self none (some e.node)).node, rfl⟩
    · intro b hb
      have hne : b ≠ object := fun heq => hb (heq ▸ List.mem_cons_self)
      have hne' : b ≠ e.node := fun heq =>
        hb (heq ▸ List.mem_cons_of_mem _ (node_mem_blocks List.mem_cons_self))
      rw [← hm₁]
      exact (Memory.same_set hne' _).2.trans (Memory.same_set (m := m) hne _).2
  · rw [List.concat_eq_append] at h hobject hbeside hdistinct ⊢
    have hl : l ∈ front ++ [l] := by simp
    obtain ⟨prevl, hlast⟩ := h.siblings.last_stands
    obtain ⟨head, hhead⟩ : ∃ head, first (front ++ [l]) = some head := by
      cases front with
      | nil => exact ⟨_, rfl⟩
      | cons x front => exact ⟨_, rfl⟩
    obtain ⟨c, hc, hprev⟩ := h.tail head hhead
    have hlastnode : last (front ++ [l]) = some l.node := by simp [last]
    obtain ⟨first', hfirst', rfl⟩ := Option.map_eq_some_iff.mp hhead
    have hhead' : first' ∈ front ++ [l] := List.mem_of_head? hfirst'
    have hle : l.node ≠ e.node := hbeside l hl
    have hhe : first'.node ≠ e.node := hbeside first' hhead'
    -- the end of the chain, the new node, and then the head
    have hlast₁ := hlast.set_self (some e.node) prevl
    have he₁ := he.set_other hle.symm hlast.node (l.shape (some e.node) prevl)
    generalize hm₁ : m.set l.node (.node (l.shape (some e.node) prevl)) = m₁ at hlast₁ he₁
    have hlast₂ := hlast₁.set_other hle he₁.node (e.shape none (some l.node))
    have he₂ := he₁.set_self none (some l.node)
    generalize hm₂ : m₁.set e.node (.node (e.shape none (some l.node))) = m₂ at hlast₂ he₂
    obtain ⟨c', hc'⟩ : ∃ c', m₂.read first'.node = some c' := by
      by_cases hone : first'.node = l.node
      · exact ⟨_, hone ▸ hlast₂.node⟩
      · have hkept := (Memory.same_set hone (.node (l.shape (some e.node) prevl))).read hc
        rw [hm₁] at hkept
        have hkept' := (Memory.same_set hhe (.node (e.shape none (some l.node)))).read hkept
        rw [hm₂] at hkept'
        exact ⟨c, hkept'⟩
    have hother : ∀ x : Entry, x.node ≠ l.node → x.node ≠ e.node → ∀ next prev,
        x.Stands m next prev → x.Stands m₂ next prev := by
      intro x hxl hxe next prev hx
      have hx₁ := hx.set_other hxl hlast.node (l.shape (some e.node) prevl)
      rw [hm₁] at hx₁
      have hx₂ := hx₁.set_other hxe he₁.node (e.shape none (some l.node))
      rwa [hm₂] at hx₂
    have hnodup : (blocks (front ++ [l])).Nodup := (List.nodup_cons.mp h.distinct).2
    refine ⟨m₂.set first'.node (.node { c' with prev := some e.node }), ?_, ?_, ?_, ?_⟩
    · have hone : m.modify l.node (fun n => { n with next := some e.node }) = some m₁ := by
        rw [Memory.modify_of_read hlast.node, ← hm₁]
        rfl
      have htwo : m₁.modify e.node (fun n => { n with prev := some l.node }) = some m₂ := by
        rw [Memory.modify_of_read he₁.node, ← hm₂]
        rfl
      have hchild : (rootShape (some first'.node)).child = some first'.node := rfl
      simp only [addItemToArray, if_neg hitem, h.root, hhead, hchild, hc, hprev, hlastnode, hone,
        htwo, Memory.modify_of_read hc', Option.bind_eq_bind, Option.bind_some]
    · rw [← hm₂, ← hm₁]
      rfl
    · have hhead₃ := Memory.read_set_self (Memory.read_eq_some_iff.mp hc').1
        { c' with prev := some e.node }
      refine ⟨?_, ?_, ?_, hdistinct⟩
      · have hfirst : first (front ++ [l] ++ [e]) = first (front ++ [l]) := by
          rw [List.append_assoc]
          exact first_append_pair front
        have hroot₁ := (Memory.same_set (hobject l (by simp))
          (.node (l.shape (some e.node) prevl))).read h.root
        rw [hm₁] at hroot₁
        have hroot₂ := (Memory.same_set hitem (.node (e.shape none (some l.node)))).read hroot₁
        rw [hm₂, ← hfirst] at hroot₂
        exact (Memory.same_set (hobject first' (List.mem_append_left _ hhead')) _).read hroot₂
      · rw [List.append_assoc]
        refine h.siblings.link ?_ (hlast₂.set_prev hc' _) (he₂.set_prev hc' _)
        intro x hx next prev hstands
        have hxl : x.node ≠ l.node := by
          intro heq
          rw [blocks, List.flatMap_append, List.nodup_append] at hnodup
          exact hnodup.2.2 x.node (node_mem_blocks hx) l.node
            (node_mem_blocks List.mem_cons_self) heq
        have hxe := hbeside x (List.mem_append_left _ hx)
        exact (hother x hxl hxe next prev hstands).set_prev hc' _
      · intro head hfirst
        have hsame : first (front ++ [l] ++ [e]) = some first'.node := by
          rw [List.append_assoc, ← hhead]
          exact first_append_pair front
        rw [hsame] at hfirst
        cases hfirst
        exact ⟨_, hhead₃, by simp [last]⟩
    · intro b hb
      have hne : ∀ x ∈ front ++ [l] ++ [e], b ≠ x.node := fun x hx heq =>
        hb (heq ▸ List.mem_cons_of_mem _ (node_mem_blocks hx))
      rw [(Memory.same_set (hne first' (List.mem_append_left _ hhead')) _).2, ← hm₂,
        (Memory.same_set (hne e (by simp)) _).2, ← hm₁,
        (Memory.same_set (hne l (by simp)) _).2]

theorem length_le_requests {m : Memory} {entries : List Entry} (h : Siblings m entries)
    (hdistinct : (blocks entries).Nodup) : entries.length ≤ m.heap.requests := by
  have hsublist : (entries.map Entry.node).Sublist (blocks entries) := by
    clear h hdistinct
    induction entries with
    | nil => exact List.Sublist.slnil
    | cons e rest ih =>
      have hone : [e.node].Sublist e.blocks := List.singleton_sublist.mpr List.mem_cons_self
      exact hone.append ih
  have hcard : (entries.map Entry.node).toFinset.card = entries.length := by
    rw [List.toFinset_card_of_nodup (hdistinct.sublist hsublist), List.length_map]
  have hrange : (entries.map Entry.node).toFinset ⊆ Finset.range m.heap.requests := by
    intro b hb
    rw [Finset.mem_range]
    exact m.heap.below b (h.live b (hsublist.subset (List.mem_toFinset.mp hb)))
  rw [← hcard, ← Finset.card_range m.heap.requests]
  exact Finset.card_le_card hrange

/-- cJSON_Delete gives back the object and its members. -/
theorem cJSONDelete_object {m : Memory} {object : ℕ} {entries : List Entry}
    (h : Represents m object entries) :
    ∃ m', cJSONDelete (some object) m = some m' ∧ m'.cells = m.cells ∧
      m'.heap.live = m.heap.live \ (object :: blocks entries).toFinset ∧
      m'.heap.refused = m.heap.refused := by
  obtain ⟨hobject, hnodup⟩ := List.nodup_cons.mp h.distinct
  obtain ⟨m₁, hchild, hcells₁, hlive₁, hrefused₁⟩ :=
    deleteLoop_siblings h.siblings hnodup (length_le_requests h.siblings hnodup)
  obtain ⟨href, hconst⟩ := Node.plain (n := rootShape (first entries)) (Or.inr rfl)
  have hroot : ∀ b ∈ [object], b ∈ m₁.heap.live := by
    intro b hb
    rw [List.mem_singleton.mp hb, hlive₁, Finset.mem_sdiff, List.mem_toFinset]
    exact ⟨h.live object List.mem_cons_self, hobject⟩
  obtain ⟨m', hstep, hcells, hlive, hrefused⟩ := deleteLoop_node h.root href hconst hchild hcells₁
    hroot (List.nodup_singleton object)
  refine ⟨m', hstep.trans (deleteLoop_none _ m'), hcells, ?_, hrefused.trans hrefused₁⟩
  have hstrings : (rootShape (first entries)).strings = [] := rfl
  rw [hlive, hlive₁, hstrings, sdiff_sdiff_left, List.toFinset_cons, List.toFinset_cons,
    List.toFinset_nil, insert_empty_eq, Finset.insert_eq, Finset.union_comm {object}]
  rfl

/-- Some blocks more are in use, and those that were in use are as before. -/
structure Memory.Grown (m m' : Memory) (taken : Finset ℕ) : Prop where
  live : m'.heap.live = m.heap.live ∪ taken
  fresh : Disjoint m.heap.live taken
  kept : ∀ b ∈ m.heap.live, m'.cells b = m.cells b

theorem Memory.Grown.same {m m' : Memory} {taken : Finset ℕ} (h : Memory.Grown m m' taken) {b : ℕ}
    (hb : b ∈ m.heap.live) : Same m m' b :=
  ⟨fun _ => by rw [h.live]; exact Finset.mem_union_left _ hb, h.kept b hb⟩

/-- A request that is refused leaves everything as it was. -/
theorem Memory.Grown.of_eq {m m' : Memory} (hlive : m'.heap.live = m.heap.live)
    (hcells : m'.cells = m.cells) : m.Grown m' ∅ :=
  ⟨hlive.trans (Finset.union_empty _).symm, Finset.disjoint_empty_right _,
    fun b _ => congrFun hcells b⟩

theorem newItem_cases (m : Memory) :
    (∃ m', newItem m = (none, m') ∧ m.Grown m' ∅ ∧ m.heap.refused < m'.heap.refused) ∨
    (∃ item m', newItem m = (some item, m') ∧ item ∉ m.heap.live ∧
      m'.heap.live = insert item m.heap.live ∧ m'.read item = some cleared ∧
      (∀ b, b ≠ item → m'.cells b = m.cells b) ∧ m'.heap.refused = m.heap.refused) := by
  rcases Memory.allocate_cases 40 (fun _ => .node cleared) m with
    ⟨m', hnew, hcells, hlive, hrefused⟩ | ⟨item, _, m', hnew, hfresh, hlive, hcells, hsame⟩
  · exact Or.inl ⟨m', hnew, .of_eq hlive hcells, hrefused⟩
  · refine Or.inr ⟨item, m', hnew, hfresh, hlive, ?_, ?_, hsame⟩
    · refine Memory.read_eq_some_iff.mpr ⟨?_, ?_⟩
      · rw [hlive]
        exact Finset.mem_insert_self _ _
      · rw [hcells, Function.update_self]
    · intro b hb
      rw [hcells, Function.update_of_ne hb]

theorem strdup_cases {s : CString} (hs : s.bytes.length + 1 < 2 ^ 32) (m : Memory) :
    (∃ m', strdup (some s) m = (none, m') ∧ m'.cells = m.cells ∧ m'.heap.live = m.heap.live ∧
      m.heap.refused < m'.heap.refused) ∨
    (∃ p m', strdup (some s) m = (some p, m') ∧ p ∉ m.heap.live ∧
      m'.heap.live = insert p m.heap.live ∧ m'.text p = some s ∧
      (∀ b, b ≠ p → m'.cells b = m.cells b) ∧ m'.heap.refused = m.heap.refused) := by
  have hlength : (s.bytes.length + 1) % 2 ^ 32 = s.bytes.length + 1 := Nat.mod_eq_of_lt hs
  have hwhole : (s.bytes ++ [0#8]).take (s.bytes.length + 1) = s.bytes ++ [0#8] :=
    List.take_of_length_le (by simp)
  simp only [strdup, hlength, hwhole]
  rcases Memory.allocate_cases (s.bytes.length + 1) (fun contents =>
      .bytes (s.bytes.length + 1) (write contents 0 (s.bytes ++ [0#8]))) m with
    hrefused | ⟨p, contents, m', hallocate, hfresh, hlive, hcells, hsame⟩
  · exact Or.inl hrefused
  · refine Or.inr ⟨p, m', hallocate, hfresh, hlive, ?_, ?_, hsame⟩
    · have hmem : p ∈ m'.heap.live := by
        rw [hlive]
        exact Finset.mem_insert_self _ _
      have hslice := slice_write contents 0 (s.bytes ++ [0#8])
      rw [List.length_append, List.length_singleton] at hslice
      rw [Memory.text, if_pos hmem, hcells, Function.update_self]
      simp only [hslice]
      exact stringIn_memory s []
    · intro b hb
      rw [hcells]
      exact Function.update_of_ne hb ..

def stringShape (value : Option ℕ) : Node :=
  { cleared with type := cJSONString, valuestring := value }

/-- A node with a string goes away with its string. -/
theorem cJSONDelete_string {m : Memory} {item : ℕ} {value : Option ℕ}
    (hread : m.read item = some (stringShape value)) (hvalue : ∀ b ∈ value, b ∈ m.heap.live)
    (hne : ∀ b ∈ value, item ≠ b) :
    ∃ m', cJSONDelete (some item) m = some m' ∧ m'.cells = m.cells ∧
      m'.heap.live = m.heap.live \ (item :: value.toList).toFinset ∧
      m'.heap.refused = m.heap.refused := by
  obtain ⟨href, hconst⟩ := Node.plain (n := stringShape value) (Or.inl rfl)
  have hstrings : (stringShape value).strings = value.toList := List.append_nil _
  have hlive : ∀ b ∈ item :: (stringShape value).strings, b ∈ m.heap.live := by
    intro b hb
    rcases List.mem_cons.mp hb with rfl | hb
    · exact (Memory.read_eq_some_iff.mp hread).1
    · rw [hstrings] at hb
      exact hvalue b (Option.mem_toList.mp hb)
  have hdistinct : (item :: (stringShape value).strings).Nodup := by
    rw [hstrings]
    cases value with
    | none => exact List.nodup_singleton item
    | some b => simpa using hne b rfl
  obtain ⟨m', hstep, hcells, hafter, hrefused⟩ := deleteLoop_node hread href hconst
    (deleteLoop_none m.heap.requests m) rfl hlive hdistinct
  rw [hstrings] at hafter
  exact ⟨m', hstep.trans (deleteLoop_none _ m'), hcells, hafter, hrefused⟩

/-- cJSON_CreateString takes a node and a copy of the string, or nothing. -/
theorem createString_cases {s : CString} (hs : s.bytes.length + 1 < 2 ^ 32) (m : Memory) :
    ∃ r m', createString (some s) m = some (r, m') ∧
      match r with
      | none => m.Grown m' ∅ ∧ m.heap.refused < m'.heap.refused
      | some item => ∃ value, item ∉ m.heap.live ∧ value ∉ insert item m.heap.live ∧
          m'.heap.live = insert value (insert item m.heap.live) ∧
          m'.read item = some (stringShape (some value)) ∧ m'.text value = some s ∧
          (∀ b, b ≠ item → b ≠ value → m'.cells b = m.cells b) ∧
          m'.heap.refused = m.heap.refused := by
  unfold createString
  rcases newItem_cases m with
    ⟨m₁, hnew, hgrown₁, hrefused₁⟩ | ⟨item, m₁, hnew, hfresh, hlive₁, hread₁, hcells₁, hsame₁⟩
  · rw [hnew]
    exact ⟨none, m₁, rfl, hgrown₁, hrefused₁⟩
  · have hread₂ := Memory.read_set_self (Memory.read_eq_some_iff.mp hread₁).1 (stringShape none)
    rw [hnew]
    generalize hm₂ : m₁.set item (.node (stringShape none)) = m₂ at hread₂
    have hset₂ : m₁.modify item (fun n => { n with type := cJSONString }) = some m₂ := by
      rw [Memory.modify_of_read hread₁, ← hm₂]
      rfl
    have hlive₂ : m₂.heap.live = insert item m.heap.live := by
      rw [← hm₂]
      exact hlive₁
    have hrefused₂ : m₂.heap.refused = m.heap.refused := by
      rw [← hm₂]
      exact hsame₁
    have hcells₂ : ∀ b, b ≠ item → m₂.cells b = m.cells b := by
      intro b hb
      rw [← hm₂, (Memory.same_set hb _).2, hcells₁ b hb]
    simp only [hset₂, Option.bind_eq_bind, Option.bind_some]
    rcases strdup_cases hs m₂ with
      ⟨m₃, hdup, hcells₃, hlive₃, hrefused₃⟩ |
      ⟨value, m₃, hdup, hfresh₃, hlive₃, htext₃, hcells₃, hsame₃⟩
    · have hread₃ : m₃.read item = some (stringShape none) :=
        Same.read ⟨fun hb => hlive₃ ▸ hb, by rw [hcells₃]⟩ hread₂
      have hread₄ := Memory.read_set_self (Memory.read_eq_some_iff.mp hread₃).1 (stringShape none)
      have hset₄ : m₃.modify item (fun n => { n with valuestring := none }) =
          some (m₃.set item (.node (stringShape none))) := Memory.modify_of_read hread₃ _
      obtain ⟨m', hdelete, hcells, hlive, hrefused⟩ := cJSONDelete_string hread₄
        (fun b hb => nomatch hb) (fun b hb => nomatch hb)
      simp only [hdup, hset₄, Option.bind_some, hdelete, Option.map_some]
      refine ⟨none, m', rfl, ⟨?_, Finset.disjoint_empty_right _, ?_⟩, ?_⟩
      · have hshrunk : m'.heap.live = m₃.heap.live \ {item} := hlive
        rw [hshrunk, hlive₃, hlive₂, Finset.union_empty, Finset.sdiff_singleton_eq_erase,
          Finset.erase_insert hfresh]
      · intro b hb
        have hne : b ≠ item := fun heq => hfresh (heq ▸ hb)
        rw [hcells, (Memory.same_set hne _).2, hcells₃, hcells₂ b hne]
      · rw [hrefused, ← hrefused₂]
        exact hrefused₃
    · have hne : item ≠ value := by
        rintro rfl
        exact hfresh₃ (hlive₂ ▸ Finset.mem_insert_self _ _)
      have hread₃ : m₃.read item = some (stringShape none) :=
        Same.read ⟨fun hb => hlive₃ ▸ Finset.mem_insert_of_mem hb, hcells₃ item hne⟩ hread₂
      have hset₄ : m₃.modify item (fun n => { n with valuestring := some value }) =
          some (m₃.set item (.node (stringShape (some value)))) := Memory.modify_of_read hread₃ _
      simp only [hdup, hset₄, Option.bind_some]
      refine ⟨some item, _, rfl, value, hfresh, ?_, ?_, ?_, ?_, ?_, ?_⟩
      · rw [← hlive₂]
        exact hfresh₃
      · rw [← hlive₂]
        exact hlive₃
      · exact Memory.read_set_self (Memory.read_eq_some_iff.mp hread₃).1 _
      · exact Memory.same_of_text hread₃ htext₃
      · intro b hitem hvalue
        rw [(Memory.same_set hitem _).2, hcells₃ b hvalue, hcells₂ b hitem]
      · rw [← hrefused₂]
        exact hsame₃

/-- A string that cJSON_CreateString has made goes away again. -/
theorem cJSONDelete_new {m m₂ : Memory} {item value : ℕ} (hitem : item ∉ m.heap.live)
    (hvalue : value ∉ insert item m.heap.live)
    (hlive : m₂.heap.live = insert value (insert item m.heap.live))
    (hread : m₂.read item = some (stringShape (some value)))
    (hcells : ∀ b, b ≠ item → b ≠ value → m₂.cells b = m.cells b) :
    ∃ m', cJSONDelete (some item) m₂ = some m' ∧ m.Grown m' ∅ ∧
      m'.heap.refused = m₂.heap.refused := by
  have hfresh : value ∉ m.heap.live := fun hb => hvalue (Finset.mem_insert_of_mem hb)
  have hapart : item ≠ value := by
    rintro rfl
    exact hvalue (Finset.mem_insert_self _ _)
  have hin : value ∈ m₂.heap.live := by
    rw [hlive]
    exact Finset.mem_insert_self _ _
  obtain ⟨m', hdelete, hcells', hlive', hrefused'⟩ := cJSONDelete_string hread
    (by rintro b ⟨⟩; exact hin) (by rintro b ⟨⟩; exact hapart)
  refine ⟨m', hdelete, ⟨?_, Finset.disjoint_empty_right _, ?_⟩, hrefused'⟩
  · have hshrunk : m'.heap.live = m₂.heap.live \ {item, value} := by
      rw [hlive']
      simp
    rw [hshrunk, hlive, Finset.union_empty]
    ext b
    simp only [Finset.mem_sdiff, Finset.mem_insert, Finset.mem_singleton]
    constructor
    · rintro ⟨rfl | rfl | hb, hout⟩
      · exact absurd (Or.inr rfl) hout
      · exact absurd (Or.inl rfl) hout
      · exact hb
    · intro hb
      refine ⟨Or.inr (Or.inr hb), ?_⟩
      rintro (rfl | rfl)
      · exact hitem hb
      · exact hfresh hb
  · intro b hb
    rw [hcells']
    exact hcells b (fun heq => hitem (heq ▸ hb)) fun heq => hfresh (heq ▸ hb)

/-- A member more, or none, and a request was refused. -/
theorem addStringToObject_cases {m : Memory} {object : ℕ} {entries : List Entry}
    (h : Represents m object entries) {p : Pair} (hkey : p.key.bytes.length + 1 < 2 ^ 32)
    (hvalue : p.value.bytes.length + 1 < 2 ^ 32) :
    ∃ r m', addStringToObject (some object) (some p.key) (some p.value) m = some (r, m') ∧
      ((m.Grown m' ∅ ∧ m.heap.refused < m'.heap.refused) ∨
        ∃ e : Entry, e.pair = p ∧ Represents m' object (entries ++ [e]) ∧
          m'.heap.live = m.heap.live ∪ e.blocks.toFinset ∧
          Disjoint m.heap.live e.blocks.toFinset ∧
          (∀ b ∈ m.heap.live, b ∉ object :: blocks entries → m'.cells b = m.cells b) ∧
          m'.heap.refused = m.heap.refused) := by
  have hroot := h.live object List.mem_cons_self
  obtain ⟨r, m₁, hcreate, hresult⟩ := createString_cases hvalue m
  cases r with
  | none =>
    refine ⟨none, m₁, ?_, Or.inl hresult⟩
    simp only [addStringToObject, hcreate, Option.bind_eq_bind, Option.bind_some, addItemToObject,
      Bool.false_eq_true, if_false, cJSONDelete, deleteLoop_none, Option.map_some]
  | some item =>
    obtain ⟨value, hitem, hfresh, hlive₁, hread₁, htext₁, hcells₁, hrefused₁⟩ := hresult
    have hne : object ≠ item := by
      rintro rfl
      exact hitem hroot
    have hapart : item ≠ value := by
      rintro rfl
      exact hfresh (Finset.mem_insert_self _ _)
    have hvaluefresh : value ∉ m.heap.live := fun hb => hfresh (Finset.mem_insert_of_mem hb)
    rcases strdup_cases hkey m₁ with
      ⟨m₂, hdup, hcells₂, hlive₂, hrefused₂⟩ |
      ⟨newKey, m₂, hdup, hkeyfresh, hlive₂, htext₂, hcells₂, hsame₂⟩
    · have hread₂ : m₂.read item = some (stringShape (some value)) :=
        Same.read ⟨fun hb => hlive₂ ▸ hb, by rw [hcells₂]⟩ hread₁
      obtain ⟨m', hdelete, hgrown, hrefused⟩ := cJSONDelete_new hitem hfresh
        (hlive₂.trans hlive₁) hread₂ fun b hb hb' => by rw [hcells₂, hcells₁ b hb hb']
      refine ⟨none, m', ?_, Or.inl ⟨hgrown, ?_⟩⟩
      · simp only [addStringToObject, hcreate, Option.bind_eq_bind, Option.bind_some,
          addItemToObject, if_neg hne, hdup, Bool.false_eq_true, if_false, hdelete, Option.map_some]
      · rw [hrefused, ← hrefused₁]
        exact hrefused₂
    · have hkeyitem : item ≠ newKey := by
        rintro rfl
        rw [hlive₁] at hkeyfresh
        exact hkeyfresh (Finset.mem_insert_of_mem (Finset.mem_insert_self _ _))
      have hkeyvalue : value ≠ newKey := by
        rintro rfl
        rw [hlive₁] at hkeyfresh
        exact hkeyfresh (Finset.mem_insert_self _ _)
      have hkeyout : newKey ∉ m.heap.live := by
        rw [hlive₁] at hkeyfresh
        exact fun hb => hkeyfresh (Finset.mem_insert_of_mem (Finset.mem_insert_of_mem hb))
      have hsame : ∀ b, b ≠ newKey → Same m₁ m₂ b := fun b hb =>
        ⟨fun hmem => hlive₂ ▸ Finset.mem_insert_of_mem hmem, hcells₂ b hb⟩
      have hread₂ := (hsame item hkeyitem).read hread₁
      obtain ⟨-, hconst⟩ := Node.plain (n := stringShape (some value)) (Or.inl rfl)
      obtain ⟨e, he⟩ : ∃ e : Entry, e = ⟨item, value, newKey, p⟩ := ⟨_, rfl⟩
      have hnode : e.node = item := by rw [he]
      have hset₃ : m₂.modify item (fun i => { i with
            string := some newKey
            type := (stringShape (some value)).type &&& ~~~cJSONStringIsConst }) =
          some (m₂.set item (.node (e.shape none none))) := by
        rw [Memory.modify_of_read hread₂, he]
        have htype : (stringShape (some value)).type &&& ~~~cJSONStringIsConst = cJSONString := by
          change cJSONString &&& ~~~cJSONStringIsConst = cJSONString
          decide
        rw [htype]
        rfl
      generalize hm₃ : m₂.set item (.node (e.shape none none)) = m₃ at hset₃
      have hstands : e.Stands m₃ none none := by
        rw [← hm₃, he]
        exact ⟨Memory.read_set_self (Memory.read_eq_some_iff.mp hread₂).1 _,
          Memory.same_of_text hread₂ ((hsame value hkeyvalue).text htext₁),
          Memory.same_of_text hread₂ htext₂⟩
      have hblocks : ∀ b, b ∈ e.blocks ↔ b = item ∨ b = value ∨ b = newKey := by
        intro b
        rw [he]
        simp [Entry.blocks]
      have hnew : ∀ b ∈ e.blocks, b ∉ m.heap.live := by
        intro b hb
        rcases (hblocks b).mp hb with rfl | rfl | rfl
        · exact hitem
        · exact hvaluefresh
        · exact hkeyout
      have hlive₃ : m₃.heap.live = m.heap.live ∪ e.blocks.toFinset := by
        have hheap₃ : m₃.heap = m₂.heap := by
          rw [← hm₃]
          rfl
        ext b
        rw [hheap₃, hlive₂, hlive₁, Finset.mem_union, List.mem_toFinset, hblocks]
        simp only [Finset.mem_insert]
        tauto
      have hcells₃ : ∀ b ∈ m.heap.live, m₃.cells b = m.cells b := by
        intro b hb
        have hitem' : b ≠ item := fun heq => hitem (heq ▸ hb)
        have hvalue' : b ≠ value := fun heq => hvaluefresh (heq ▸ hb)
        have hkey' : b ≠ newKey := fun heq => hkeyout (heq ▸ hb)
        rw [← hm₃, (Memory.same_set hitem' _).2, hcells₂ b hkey', hcells₁ b hitem' hvalue']
      have hsame₃ : ∀ b ∈ m.heap.live, Same m m₃ b := fun b hb =>
        ⟨fun _ => by rw [hlive₃]; exact Finset.mem_union_left _ hb, hcells₃ b hb⟩
      have hjoined : object :: blocks (entries ++ [e]) =
          (object :: blocks entries) ++ e.blocks := by
        simp [blocks]
      have hdistinct : (object :: blocks (entries ++ [e])).Nodup := by
        rw [hjoined, List.nodup_append]
        refine ⟨h.distinct, ?_, ?_⟩
        · rw [he]
          simp [Entry.blocks, hapart, hkeyitem, hkeyvalue]
        · rintro b hold b' hb' rfl
          exact hnew b hb' (h.live b hold)
      obtain ⟨m', hadd, hheap, hrepresents, hcells⟩ := addItemToArray_appends
        (h.same fun b hb => hsame₃ b (h.live b hb)) hstands hdistinct
      refine ⟨some item, m', ?_, Or.inr ⟨e, by rw [he], hrepresents, ?_, ?_, ?_, ?_⟩⟩
      · rw [hnode] at hadd
        have hnone : (stringShape (some value)).string = none := rfl
        simp only [addStringToObject, hcreate, Option.bind_eq_bind, Option.bind_some,
          addItemToObject, if_neg hne, hdup, hread₂, hconst, hnone, Memory.freeString,
          Bool.false_eq_true, if_false, hset₃, hadd, if_true]
      · rw [hheap]
        exact hlive₃
      · rw [Finset.disjoint_left]
        exact fun b hb hmem => hnew b (List.mem_toFinset.mp hmem) hb
      · intro b hb hout
        rw [hcells b, hcells₃ b hb]
        rw [hjoined, List.mem_append, not_or]
        exact ⟨hout, fun hmem => hnew b hmem hb⟩
      · rw [hheap, ← hm₃]
        exact hsame₂.trans hrefused₁

/-- An object that was begun in `m₀`: its blocks are all that has been taken since. -/
structure Building (m₀ m : Memory) (object : ℕ) (entries : List Entry) : Prop where
  represents : Represents m object entries
  grown : m₀.Grown m (object :: blocks entries).toFinset

theorem Memory.Grown.union {m m' m'' : Memory} {taken more : Finset ℕ} (h : m.Grown m' taken)
    (h' : m'.Grown m'' more) : m.Grown m'' (taken ∪ more) where
  live := by rw [h'.live, h.live, Finset.union_assoc]
  fresh := by
    have hfresh := h'.fresh
    rw [h.live, Finset.disjoint_union_left] at hfresh
    rw [Finset.disjoint_union_right]
    exact ⟨h.fresh, hfresh.1⟩
  kept := by
    intro b hb
    have hb' : b ∈ m'.heap.live := by
      rw [h.live]
      exact Finset.mem_union_left _ hb
    rw [h'.kept b hb', h.kept b hb]

theorem Memory.Grown.trans {m m' m'' : Memory} {taken : Finset ℕ} (h : m.Grown m' taken)
    (h' : m'.Grown m'' ∅) : m.Grown m'' taken := by
  have hunion := h.union h'
  rwa [Finset.union_empty] at hunion

/-- What was taken first is given back. -/
theorem Memory.Grown.shrink {m m₁ m' m'' : Memory} {taken more : Finset ℕ}
    (h : m.Grown m₁ taken) (h' : m₁.Grown m' more) (hlive : m''.heap.live = m'.heap.live \ taken)
    (hcells : m''.cells = m'.cells) : m.Grown m'' more := by
  have hboth := h.union h'
  have hfresh := h'.fresh
  rw [h.live, Finset.disjoint_union_left] at hfresh
  refine ⟨?_, hfresh.1, fun b hb => by rw [hcells, hboth.kept b hb]⟩
  rw [hlive, hboth.live, Finset.union_sdiff_distrib, Finset.union_sdiff_distrib, sdiff_self,
    Finset.sdiff_eq_self_of_disjoint h.fresh, Finset.sdiff_eq_self_of_disjoint hfresh.2.symm,
    Finset.bot_eq_empty, Finset.empty_union]

theorem Memory.Grown.refl (m : Memory) : m.Grown m ∅ := .of_eq rfl rfl

theorem createObject_cases (m : Memory) :
    ∃ r m', createObject m = some (r, m') ∧
      match r with
      | none => m.Grown m' ∅ ∧ m.heap.refused < m'.heap.refused
      | some object => Building m m' object [] ∧ m'.heap.refused = m.heap.refused := by
  unfold createObject
  rcases newItem_cases m with
    ⟨m₁, hnew, hgrown₁, hrefused₁⟩ | ⟨item, m₁, hnew, hfresh, hlive₁, hread₁, hcells₁, hsame₁⟩
  · rw [hnew]
    exact ⟨none, m₁, rfl, hgrown₁, hrefused₁⟩
  · have hset : m₁.modify item (fun n => { n with type := cJSONObject }) =
        some (m₁.set item (.node (rootShape none))) := Memory.modify_of_read hread₁ _
    rw [hnew]
    simp only [hset, Option.map_some]
    refine ⟨some item, _, rfl, ⟨⟨?_, trivial, by rintro head ⟨⟩, List.nodup_singleton item⟩, ?_⟩,
      hsame₁⟩
    · exact Memory.read_set_self (Memory.read_eq_some_iff.mp hread₁).1 _
    · refine ⟨?_, ?_, ?_⟩
      · change m₁.heap.live = _
        rw [hlive₁, Finset.insert_eq, Finset.union_comm]
        rfl
      · simpa [blocks] using hfresh
      · intro b hb
        have hne : b ≠ item := fun heq => hfresh (heq ▸ hb)
        rw [(Memory.same_set hne _).2, hcells₁ b hne]

theorem Represents.grown {m m' : Memory} {object : ℕ} {entries : List Entry} {taken : Finset ℕ}
    (h : Represents m object entries) (h' : m.Grown m' taken) : Represents m' object entries :=
  h.same fun b hb => h'.same (h.live b hb)

/-- The strings of these members fit into an address space of 32 bits, with their text. -/
def cost (p : Pair) : ℕ := 6 * (p.key.bytes.length + p.value.bytes.length) + 9

def Printable (ps : List Pair) : Prop := 5 + total cost ps ≤ intMax

theorem cost_le {ps : List Pair} {p : Pair} (hp : p ∈ ps) : cost p ≤ total cost ps := by
  induction ps with
  | nil => cases hp
  | cons q rest ih =>
    rcases List.mem_cons.mp hp with rfl | hp
    · exact Nat.le_add_right _ _
    · exact Nat.le_trans (ih hp) (Nat.le_add_left _ _)

theorem Printable.short {ps : List Pair} (h : Printable ps) {p : Pair} (hp : p ∈ ps) :
    Short p.key ∧ Short p.value := by
  have hcost := cost_le hp
  have hmax : intMax < 2 ^ 31 := by decide
  have hone : cost p = 6 * (p.key.bytes.length + p.value.bytes.length) + 9 := rfl
  unfold Printable at h
  constructor
  · unfold Short
    omega
  · unfold Short
    omega

theorem total_sublist {ps qs : List Pair} (h : ps.Sublist qs) : total cost ps ≤ total cost qs := by
  induction h with
  | slnil => exact Nat.le_refl _
  | cons p h ih => exact Nat.le_trans ih (Nat.le_add_left _ _)
  | cons_cons p h ih => exact Nat.add_le_add_left ih _

theorem Printable.sublist {ps qs : List Pair} (h : Printable qs) (hsub : ps.Sublist qs) : Printable ps :=
  Nat.le_trans (Nat.add_le_add_left (total_sublist hsub) 5) h

theorem Building.add {m₀ m m' : Memory} {object : ℕ} {entries : List Entry} {e : Entry}
    (h : Building m₀ m object entries) (hrepresents : Represents m' object (entries ++ [e]))
    (hlive : m'.heap.live = m.heap.live ∪ e.blocks.toFinset)
    (hfresh : Disjoint m.heap.live e.blocks.toFinset)
    (hcells : ∀ b ∈ m.heap.live, b ∉ object :: blocks entries → m'.cells b = m.cells b) :
    Building m₀ m' object (entries ++ [e]) := by
  have hjoined : (object :: blocks (entries ++ [e])).toFinset =
      (object :: blocks entries).toFinset ∪ e.blocks.toFinset := by
    rw [← List.toFinset_append]
    congr 1
    simp [blocks]
  rw [h.grown.live, Finset.disjoint_union_left] at hfresh
  refine ⟨hrepresents, ?_, ?_, ?_⟩
  · rw [hlive, h.grown.live, hjoined, Finset.union_assoc]
  · rw [hjoined, Finset.disjoint_union_right]
    exact ⟨h.grown.fresh, hfresh.1⟩
  · intro b hb
    have hold : b ∈ m.heap.live := by
      rw [h.grown.live]
      exact Finset.mem_union_left _ hb
    have hout : b ∉ object :: blocks entries := fun hmem =>
      Finset.disjoint_left.mp h.grown.fresh hb (List.mem_toFinset.mpr hmem)
    rw [hcells b hold hout, h.grown.kept b hb]

/-- The tree behind the head of a chain -/
def siblingsItem : List Pair → Item
  | [] => .nil
  | p :: rest => .node (.string (some p.value)) (some p.key) .nil (siblingsItem rest)

def objectItem (ps : List Pair) : Item := .node .object none (siblingsItem ps) .nil

theorem loadItems_none (m : Memory) (fuel : ℕ) (named : Bool) :
    loadItems m fuel named none = some .nil := by
  cases fuel with
  | zero => rfl
  | succ fuel => rfl

theorem kindOf_string {n : Node} (h : n.type = cJSONString) (m : Memory) :
    kindOf n m = (m.textOf n.valuestring).map .string := by
  unfold kindOf
  rw [h]
  rfl

theorem kindOf_object {n : Node} (h : n.type = cJSONObject) (m : Memory) :
    kindOf n m = some .object := by
  unfold kindOf
  rw [h]
  rfl

theorem loadItems_siblings {m : Memory} {entries : List Entry} (h : Siblings m entries) {fuel : ℕ}
    (hfuel : entries.length ≤ fuel) :
    loadItems m fuel true (first entries) = some (siblingsItem (entries.map Entry.pair)) := by
  induction entries generalizing fuel with
  | nil => exact loadItems_none m fuel true
  | cons e rest ih =>
    obtain ⟨⟨prev, hstands⟩, hrest⟩ := h
    obtain ⟨fuel, rfl⟩ := Nat.exists_eq_succ_of_ne_zero (Nat.ne_of_gt (Nat.lt_of_lt_of_le
      (Nat.succ_pos rest.length) hfuel))
    have hkind := kindOf_string (n := e.shape (first rest) prev) rfl m
    have hvalue : m.textOf (e.shape (first rest) prev).valuestring = some (some e.pair.value) := by
      change (m.text e.value).map some = _
      rw [hstands.value, Option.map_some]
    have hkey : m.textOf (e.shape (first rest) prev).string = some (some e.pair.key) := by
      change (m.text e.key).map some = _
      rw [hstands.key, Option.map_some]
    have hnext := ih hrest (Nat.le_of_succ_le_succ hfuel)
    rw [hvalue, Option.map_some] at hkind
    have hfirst : first (e :: rest) = some e.node := rfl
    have hlink : (e.shape (first rest) prev).next = first rest := rfl
    rw [hfirst, loadItems, hstands.node]
    simp only [Option.bind_eq_bind, Option.bind_some, hkind, hkey, if_true, loadChild, hlink, hnext]
    rfl

theorem loadItem_object {m : Memory} {object : ℕ} {entries : List Entry}
    (h : Represents m object entries) :
    loadItem m (some object) = some (objectItem (entries.map Entry.pair)) := by
  have hfuel := length_le_requests h.siblings (List.nodup_cons.mp h.distinct).2
  have hkind := kindOf_object (n := rootShape (first entries)) rfl m
  have hload := loadItems_siblings h.siblings (Nat.le_succ_of_le hfuel)
  have hlink : (rootShape (first entries)).child = first entries := rfl
  rw [loadItem, h.root]
  simp only [Option.bind_eq_bind, Option.bind_some, hkind, loadChild, hlink, hload]
  rfl

theorem short_siblings {ps : List Pair} (h : ∀ p ∈ ps, Short p.key ∧ Short p.value) :
    (siblingsItem ps).Short := by
  induction ps with
  | nil => trivial
  | cons p rest ih =>
    obtain ⟨hkey, hvalue⟩ := h p List.mem_cons_self
    refine ⟨?_, ?_, trivial, ih fun q hq => h q (List.mem_cons_of_mem _ hq)⟩
    · rintro s ⟨⟩
      exact hvalue
    · rintro s ⟨⟩
      exact hkey

theorem renderMembers_siblings (ps : List Pair) :
    renderMembers true (siblingsItem ps) 1 = some (JsonText.printMembers (ps.map Pair.member)) := by
  induction ps with
  | nil => rfl
  | cons p rest ih =>
    rw [siblingsItem, renderMembers]
    simp only [renderKind, ih, Option.bind_eq_bind, Option.bind_some]
    cases rest with
    | nil => simp [siblingsItem, memberEnd, JsonText.printMembers, JsonText.printMember,
        Pair.member, keyText, colons]
    | cons q rest => simp [siblingsItem, memberEnd, JsonText.printMembers, JsonText.printMember,
        Pair.member, keyText, colons]

/-- cJSON_Print writes an object of strings as the messages have it. -/
theorem render_object (ps : List Pair) :
    render true (objectItem ps) = some (JsonText.print (ps.map Pair.member)) := by
  rw [objectItem, render]
  simp only [renderKind, renderMembers_siblings, Option.map_some]
  rfl

theorem print_length_le (ps : List Pair) :
    (JsonText.print (ps.map Pair.member)).length + 2 ≤ 5 + total cost ps := by
  have hmembers : (JsonText.printMembers (ps.map Pair.member)).length ≤ total cost ps := by
    induction ps with
    | nil => exact Nat.le_refl _
    | cons p rest ih =>
      have hkey := flatMap_escape_le p.key.bytes
      have hvalue := flatMap_escape_le p.value.bytes
      have hone : cost p = 6 * (p.key.bytes.length + p.value.bytes.length) + 9 := rfl
      cases rest with
      | nil =>
        simp only [List.map_cons, List.map_nil, JsonText.printMembers, JsonText.printMember,
          JsonText.quoted, Pair.member, total, List.length_append, List.length_cons,
          List.length_nil, hone]
        omega
      | cons q rest =>
        simp only [List.map_cons, JsonText.printMembers, JsonText.printMember, JsonText.quoted,
          Pair.member, total, List.length_append, List.length_cons, List.length_nil, hone] at ih ⊢
        omega
  simp only [JsonText.print, List.length_append, List.length_cons, List.length_nil]
  omega

/-- cJSON_Print hands out a block with the text, or NULL when a request was refused. -/
theorem printItem_object (reallocs : Bool) {m : Memory} {object : ℕ} {entries : List Entry}
    (h : Represents m object entries) (hfits : Printable (entries.map Entry.pair)) :
    ∃ r m', printItem reallocs (some object) m = some (r, m') ∧
      m.heap.refused ≤ m'.heap.refused ∧
      match r with
      | none => m.Grown m' ∅ ∧ m.heap.refused < m'.heap.refused
      | some printed => m.Grown m' {printed} ∧ ∃ s, m'.text printed = some s ∧
          s.bytes = JsonText.print ((entries.map Entry.pair).map Pair.member) := by
  have hshort : (objectItem (entries.map Entry.pair)).Short :=
    ⟨trivial, by rintro s ⟨⟩, short_siblings fun p hp => hfits.short hp, trivial⟩
  have hlength := print_length_le (entries.map Entry.pair)
  have hcovered : Covered False [] (render true (objectItem (entries.map Entry.pair))) := by
    intro _
    refine ⟨_, render_object _, ?_⟩
    unfold Printable at hfits
    rw [List.length_nil]
    omega
  obtain ⟨r, heap, hprint, hcount, hresult⟩ := print_cases reallocs hshort hcovered m.heap
  simp only [printItem, loadItem_object h, Option.bind_eq_bind, Option.bind_some, cJSONPrint,
    hprint]
  cases r with
  | none =>
    obtain ⟨hlive, hnever | hrefused⟩ := hresult
    · exact hnever.elim
    · exact ⟨none, _, rfl, hcount, .of_eq hlive rfl, hrefused⟩
  | some printed =>
    obtain ⟨hfresh, hlive, value, hvalue, hmemory⟩ := hresult
    rw [render_object] at hvalue
    cases hvalue
    refine ⟨some printed.block, _, rfl, hcount, ⟨?_, ?_, ?_⟩, ?_⟩
    · change heap.live = _
      rw [hlive, Finset.insert_eq, Finset.union_comm]
    · rw [Finset.disjoint_singleton_right]
      exact hfresh
    · intro b hb
      have hne : b ≠ printed.block := fun heq => hfresh (heq ▸ hb)
      exact Function.update_of_ne hne ..
    · refine ⟨⟨JsonText.print ((entries.map Entry.pair).map Pair.member),
        JsonText.zero_notMem_print _⟩, ?_, rfl⟩
      have hmem : printed.block ∈ heap.live := by
        rw [hlive]
        exact Finset.mem_insert_self _ _
      rw [Printed.memory] at hmemory
      refine (Memory.text_set_self hmem printed.size printed.contents).trans ?_
      rw [hmemory]
      exact stringIn_memory ⟨JsonText.print ((entries.map Entry.pair).map Pair.member),
        JsonText.zero_notMem_print _⟩ []

theorem printItem_null (reallocs : Bool) (m : Memory) :
    ∃ m', printItem reallocs none m = some (none, m') ∧ m.Grown m' ∅ ∧
      m.heap.refused ≤ m'.heap.refused := by
  have hcovered : Covered True [] (render true .nil) := fun h => absurd trivial h
  have hshort : Item.Short .nil := trivial
  obtain ⟨r, heap, hprint, hcount, hresult⟩ := print_cases reallocs hshort hcovered m.heap
  simp only [printItem, loadItem, Option.bind_eq_bind, Option.bind_some, cJSONPrint, hprint]
  cases r with
  | none =>
    exact ⟨_, rfl, .of_eq hresult.1 rfl, hcount⟩
  | some printed =>
    obtain ⟨-, -, value, hvalue, -⟩ := hresult
    cases hvalue

end NcsProjects.CJsonObjects
