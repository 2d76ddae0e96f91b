import NcsProjects.CJsonObjects

/-!
create_message of the two applications, over the nodes and strings of cJSON. It does not look
at what cJSON_AddStringToObject returns, so what it stores is the text of the members for
which there was room. Both texts that it has printed stay behind.
-/
namespace NcsProjects.MessageObjects

open BlockHeaps ByteRegions CJsonBuffer CJsonObjects CJsonPrint MessageText
open JsonText (Byte Member total)

/-- sizeof(destination->data) -/
def capacityOf : Option MqttWork.AppMsgType → ℕ
  | none => Gcloud.maxMessageSize
  | some _ => MqttWork.messageBufferSize

/-- A call of create_message: what differs between the two applications is the member that
comes first, and the size of the message. -/
structure Call where
  app : Option MqttWork.AppMsgType
  data : CString
  timestamp : BitVec 64
  destination : AppMessage (capacityOf app)

/-- What a call leaves: the memory of its message, and the two texts whose pointers are
lost with it. -/
structure Stored where
  message : Region Byte
  counted : ℕ
  copied : ℕ

def Stored.blocks (stored : Stored) : List ℕ := [stored.counted, stored.copied]

def typedPairs : Option MqttWork.AppMsgType → List Pair
  | none => []
  | some type => [⟨⟨typeKey, by decide⟩, ⟨type.name, by cases type <;> decide⟩⟩]

def Call.pairs (call : Call) : List Pair :=
  typedPairs call.app ++
    [⟨⟨timestampKey, by decide⟩, ⟨timeStr call.timestamp, zero_notMem_timeStr _⟩⟩,
      ⟨⟨dataKey, by decide⟩, call.data⟩]

/-- The calls of cJSON_AddStringToObject; what they return is not looked at. -/
def addStrings (message : Option ℕ) : List Pair → Memory → Option Memory
  | [], m => some m
  | p :: rest, m => do
    let (_, m) ← addStringToObject message (some p.key) (some p.value) m
    addStrings message rest m

section

-- Whether the hooks have a reallocate.
variable (reallocs : Bool)

/-- create_message. None of a message stands for the NULL of a print that strlen or strcpy
is given. -/
def createMessage (call : Call) (m : Memory) : Option (Option Stored × Memory) := do
  let (message, m) ← createObject m
  let m ← addStrings message call.pairs m
  match ← printItem reallocs message m with
  | (none, m) => some (none, m)
  | (some counted, m) =>
    let text ← m.text counted
    let destination := call.destination.setLen text.bytes.length
    match ← printItem reallocs message m with
    | (none, m) => some (none, m)
    | (some copied, m) =>
      let text ← m.text copied
      let m ← cJSONDelete message m
      some (some ⟨(destination.strcpy text.bytes).memory, counted, copied⟩, m)

/-- The calls of an application, up to the first that crashes -/
def run : List Call → Memory → Option (List Stored × Memory)
  | [], m => some ([], m)
  | call :: rest, m => do
    match ← createMessage reallocs call m with
    | (none, m) => some ([], m)
    | (some stored, m) =>
      let (more, m) ← run rest m
      some (stored :: more, m)

end

/-- The members for which there was room, in their order -/
theorem addStrings_cases {m₀ m : Memory} {object : ℕ} {entries : List Entry}
    (h : Building m₀ m object entries) {ps : List Pair} (hfits : Printable ps) :
    ∃ m' more, addStrings (some object) ps m = some m' ∧ Building m₀ m' object (entries ++ more) ∧
      (more.map Entry.pair).Sublist ps ∧ m.heap.refused ≤ m'.heap.refused ∧
      (more.map Entry.pair = ps ∨ m.heap.refused < m'.heap.refused) := by
  induction ps generalizing m entries with
  | nil =>
    rw [← List.append_nil entries] at h
    exact ⟨m, [], rfl, h, List.Sublist.slnil, Nat.le_refl _, Or.inl rfl⟩
  | cons p rest ih =>
    obtain ⟨hkey, hvalue⟩ := hfits.short List.mem_cons_self
    unfold Short at hkey hvalue
    have hrest : Printable rest := hfits.sublist (List.sublist_cons_self p rest)
    obtain ⟨r, m₁, hadd, hresult⟩ := addStringToObject_cases h.represents (p := p) (by omega)
      (by omega)
    rcases hresult with ⟨hgrown, hrefused⟩ | ⟨e, rfl, hrepresents, hlive, hfresh, hcells, hrefused⟩
    · have hkept : Building m₀ m₁ object entries :=
        ⟨h.represents.grown hgrown, h.grown.trans hgrown⟩
      obtain ⟨m', more, hrun, hbuilding, hsub, hcount, -⟩ := ih hkept hrest
      refine ⟨m', more, ?_, hbuilding, hsub.cons p, by omega, Or.inr (by omega)⟩
      simp only [addStrings, hadd, Option.bind_eq_bind, Option.bind_some, hrun]
    · have hnext := h.add hrepresents hlive hfresh hcells
      obtain ⟨m', more, hrun, hbuilding, hsub, hcount, hall⟩ := ih hnext hrest
      refine ⟨m', e :: more, ?_, ?_, hsub.cons_cons e.pair, by omega, ?_⟩
      · simp only [addStrings, hadd, Option.bind_eq_bind, Option.bind_some, hrun]
      · rwa [List.append_assoc] at hbuilding
      · rw [List.map_cons, List.cons.injEq, ← hrefused]
        exact hall.imp_left fun heq => ⟨rfl, heq⟩

/-- Nothing is added to NULL, and nothing is kept. -/
theorem addStrings_null {ps : List Pair} (hfits : Printable ps) (m : Memory) :
    ∃ m', addStrings none ps m = some m' ∧ m.Grown m' ∅ ∧ m.heap.refused ≤ m'.heap.refused := by
  induction ps generalizing m with
  | nil => exact ⟨m, rfl, .refl m, Nat.le_refl _⟩
  | cons p rest ih =>
    obtain ⟨-, hvalue⟩ := hfits.short List.mem_cons_self
    unfold Short at hvalue
    have hadd : ∃ r m₁, addStringToObject none (some p.key) (some p.value) m = some (r, m₁) ∧
        m.Grown m₁ ∅ ∧ m.heap.refused ≤ m₁.heap.refused := by
      obtain ⟨r, m₁, hcreate, hresult⟩ := createString_cases (s := p.value) (by omega) m
      cases r with
      | none =>
        refine ⟨none, m₁, ?_, hresult.1, Nat.le_of_lt hresult.2⟩
        simp only [addStringToObject, hcreate, Option.bind_eq_bind, Option.bind_some,
          addItemToObject, Bool.false_eq_true, if_false, cJSONDelete, deleteLoop_none,
          Option.map_some]
      | some item =>
        obtain ⟨value, hitem, hfresh, hlive, hread, -, hcells, hrefused⟩ := hresult
        obtain ⟨m', hdelete, hgrown, hsame⟩ := cJSONDelete_new hitem hfresh hlive hread hcells
        refine ⟨none, m', ?_, hgrown, ?_⟩
        · simp only [addStringToObject, hcreate, Option.bind_eq_bind, Option.bind_some,
            addItemToObject, Bool.false_eq_true, if_false, hdelete, Option.map_some]
        · rw [hsame, hrefused]
    obtain ⟨r, m₁, hadd, hgrown, hrefused⟩ := hadd
    obtain ⟨m', hrun, hgrown', hrefused'⟩ := ih (hfits.sublist (List.sublist_cons_self p rest)) m₁
    refine ⟨m', ?_, hgrown.trans hgrown', hrefused.trans hrefused'⟩
    simp only [addStrings, hadd, Option.bind_eq_bind, Option.bind_some, hrun]

def textOf (kept : List Pair) : List Byte := JsonText.print (kept.map Pair.member)

/-- A message with the text of some members -/
def Call.messageOf (call : Call) (kept : List Pair) : AppMessage (capacityOf call.app) :=
  call.destination.store (textOf kept)

/-- The message holds a text: its length, its bytes and their terminator. -/
def Holds {capacity : ℕ} (m : AppMessage capacity) (s : List Byte) : Prop :=
  m.len = s.length ∧ slice m.memory 0 s.length = s ∧ m.memory s.length = 0#8

theorem capacityOf_le (app : Option MqttWork.AppMsgType) : capacityOf app ≤ 4294967296 := by
  cases app with
  | none => exact (by decide : 256 ≤ 4294967296)
  | some type => exact (by decide : 500 ≤ 4294967296)

theorem Call.holds_messageOf (call : Call) {kept : List Pair}
    (hshort : (textOf kept).length < capacityOf call.app) :
    Holds (call.messageOf kept) (textOf kept) :=
  ⟨len_store call.destination hshort (capacityOf_le call.app), slice_strcpy _ _⟩

/-- What a call of create_message leaves in its message and in the two texts -/
structure Leaves (m : Memory) (call : Call) (kept : List Pair) (stored : Stored) : Prop where
  message : stored.message = (call.messageOf kept).memory
  counted : (m.text stored.counted).map CString.bytes = some (textOf kept)
  copied : (m.text stored.copied).map CString.bytes = some (textOf kept)

theorem text_same {m m' : Memory} {p : ℕ} (h : Memory.Same m m' p) {text : List Byte}
    (htext : (m.text p).map CString.bytes = some text) :
    (m'.text p).map CString.bytes = some text := by
  obtain ⟨s, hs, hbytes⟩ := Option.map_eq_some_iff.mp htext
  rw [h.text hs, Option.map_some, hbytes]

theorem live_of_bytes {m : Memory} {p : ℕ} {text : List Byte}
    (htext : (m.text p).map CString.bytes = some text) : p ∈ m.heap.live := by
  obtain ⟨s, hs, -⟩ := Option.map_eq_some_iff.mp htext
  exact Memory.live_of_text hs

/-- What was left stays as it is. -/
theorem Leaves.grown {m m' : Memory} {taken : Finset ℕ} {call : Call} {kept : List Pair}
    {stored : Stored} (h : Leaves m call kept stored) (hgrown : m.Grown m' taken) :
    Leaves m' call kept stored where
  message := h.message
  counted := text_same (hgrown.same (live_of_bytes h.counted)) h.counted
  copied := text_same (hgrown.same (live_of_bytes h.copied)) h.copied

/-- A call of create_message leaves a message and two texts, or it has crashed. -/
theorem createMessage_cases (reallocs : Bool) {call : Call} (hfits : Printable call.pairs)
    (m : Memory) :
    ∃ r m' taken, createMessage reallocs call m = some (r, m') ∧ m.Grown m' taken ∧
      m.heap.refused ≤ m'.heap.refused ∧
      match r with
      | none => m.heap.refused < m'.heap.refused
      | some stored => stored.blocks.Nodup ∧ taken = stored.blocks.toFinset ∧
          ∃ kept : List Pair, kept.Sublist call.pairs ∧ Leaves m' call kept stored ∧
            (kept = call.pairs ∨ m.heap.refused < m'.heap.refused) := by
  obtain ⟨r, m₁, hcreate, hresult⟩ := createObject_cases m
  cases r with
  | none =>
    obtain ⟨hgrown₁, hrefused₁⟩ := hresult
    obtain ⟨m₂, hadd, hgrown₂, hrefused₂⟩ := addStrings_null hfits m₁
    obtain ⟨m₃, hprint, hgrown₃, hrefused₃⟩ := printItem_null reallocs m₂
    have hmore : m.heap.refused < m₃.heap.refused := by omega
    refine ⟨none, m₃, ∅, ?_, (hgrown₁.trans hgrown₂).trans hgrown₃, Nat.le_of_lt hmore, hmore⟩
    simp only [createMessage, hcreate, hadd, hprint, Option.bind_eq_bind, Option.bind_some]
  | some object =>
    obtain ⟨hbuilding, hsame₁⟩ := hresult
    obtain ⟨m₂, more, hadd, hbuilding₂, hsub, hcount₂, hall⟩ := addStrings_cases hbuilding hfits
    rw [List.nil_append] at hbuilding₂
    obtain ⟨r, m₃, hprint₃, hcount₃, hresult₃⟩ :=
      printItem_object reallocs hbuilding₂.represents (hfits.sublist hsub)
    cases r with
    | none =>
      have hmore : m.heap.refused < m₃.heap.refused := by omega
      refine ⟨none, m₃, _, ?_, hbuilding₂.grown.union hresult₃.1, Nat.le_of_lt hmore, hmore⟩
      simp only [createMessage, hcreate, hadd, hprint₃, Option.bind_eq_bind, Option.bind_some]
    | some counted =>
      obtain ⟨hgrown₃, s, htext₃, hs⟩ := hresult₃
      have hrepresents₃ := hbuilding₂.represents.grown hgrown₃
      obtain ⟨r, m₄, hprint₄, hcount₄, hresult₄⟩ :=
        printItem_object reallocs hrepresents₃ (hfits.sublist hsub)
      cases r with
      | none =>
        have hmore : m.heap.refused < m₄.heap.refused := by omega
        refine ⟨none, m₄, _, ?_, (hbuilding₂.grown.union hgrown₃).union hresult₄.1,
          Nat.le_of_lt hmore, hmore⟩
        simp only [createMessage, hcreate, hadd, hprint₃, htext₃, hprint₄, Option.bind_eq_bind,
          Option.bind_some]
      | some copied =>
        obtain ⟨hgrown₄, s', htext₄, hs'⟩ := hresult₄
        obtain ⟨m₅, hdelete, hcells₅, hlive₅, hrefused₅⟩ :=
          cJSONDelete_object (hrepresents₃.grown hgrown₄)
        have htexts := hgrown₃.union hgrown₄
        have hgrown₅ := hbuilding₂.grown.shrink htexts hlive₅ hcells₅
        have hapart : counted ≠ copied := by
          have hfresh := hgrown₄.fresh
          rw [hgrown₃.live, Finset.disjoint_union_left] at hfresh
          simpa using hfresh.2
        have hkept : ∀ b ∈ ({counted} ∪ {copied} : Finset ℕ), Memory.Same m₄ m₅ b := by
          intro b hb
          refine ⟨fun _ => ?_, by rw [hcells₅]⟩
          rw [hgrown₅.live]
          exact Finset.mem_union_right _ hb
        have htext₃' : m₄.text counted = some s :=
          (hgrown₄.same (Memory.live_of_text htext₃)).text htext₃
        have hleaves : Leaves m₅ call (more.map Entry.pair)
            ⟨((call.destination.setLen s.bytes.length).strcpy s'.bytes).memory, counted, copied⟩ := by
          refine ⟨?_, ?_, ?_⟩
          · rw [hs, hs']
            rfl
          · rw [(hkept counted (by simp)).text htext₃', Option.map_some, hs]
            rfl
          · rw [(hkept copied (by simp)).text htext₄, Option.map_some, hs']
            rfl
        refine ⟨some ⟨_, counted, copied⟩, m₅, {counted} ∪ {copied}, ?_, hgrown₅, by omega, ?_,
          by simp [Stored.blocks], _, hsub, hleaves, ?_⟩
        · simp only [createMessage, hcreate, hadd, hprint₃, htext₃, hprint₄, htext₄, hdelete,
            Option.bind_eq_bind, Option.bind_some]
        · simpa [Stored.blocks] using hapart
        · exact hall.imp_right fun hlt => by omega

theorem fits_of_data {call : Call} (h : call.data.bytes.length < 2 ^ 28) : Printable call.pairs := by
  have htime : (timeStr call.timestamp).length ≤ 15 := List.length_take_le _ _
  have hmax : intMax = 2 ^ 31 - 1 := rfl
  have htimestamp : timestampKey.length = 9 := rfl
  have hdata : dataKey.length = 4 := rfl
  have htyped : total cost (typedPairs call.app) ≤ 123 := by
    cases call.app with
    | none => exact Nat.zero_le _
    | some type => cases type <;> decide
  rw [Printable, Call.pairs, JsonText.total_append]
  simp only [total, cost, htimestamp, hdata]
  omega

/-- The texts of a run, all that are left behind -/
def texts (stored : List Stored) : List ℕ := stored.flatMap Stored.blocks

/-- The calls one after the other, each with what it leaves -/
theorem run_cases (reallocs : Bool) {calls : List Call}
    (hfits : ∀ call ∈ calls, Printable call.pairs) (m : Memory) :
    ∃ stored m' taken, run reallocs calls m = some (stored, m') ∧ m.Grown m' taken ∧
      m.heap.refused ≤ m'.heap.refused ∧ (texts stored).Nodup ∧ (texts stored).toFinset ⊆ taken ∧
      (stored.length = calls.length → taken = (texts stored).toFinset) ∧
      List.Forall₂ (fun call one => ∃ kept : List Pair, kept.Sublist call.pairs ∧
        Leaves m' call kept one) (calls.take stored.length) stored ∧
      (m'.heap.refused = m.heap.refused →
        List.Forall₂ (fun call one => Leaves m' call call.pairs one) calls stored) := by
  induction calls generalizing m with
  | nil => exact ⟨[], m, ∅, rfl, .refl m, Nat.le_refl _, List.nodup_nil, Finset.Subset.refl _,
      fun _ => rfl, .nil, fun _ => .nil⟩
  | cons call rest ih =>
    obtain ⟨r, m₁, taken, hcall, hgrown, hcount, hresult⟩ :=
      createMessage_cases reallocs (hfits call List.mem_cons_self) m
    cases r with
    | none =>
      refine ⟨[], m₁, taken, ?_, hgrown, hcount, List.nodup_nil, Finset.empty_subset _, ?_, .nil,
        ?_⟩
      · simp only [run, hcall, Option.bind_eq_bind, Option.bind_some]
      · rintro ⟨⟩
      · intro hsame
        omega
    | some one =>
      obtain ⟨hnodup, rfl, kept, hsub, hleaves, hall⟩ := hresult
      obtain ⟨stored, m', more, hrun, hgrown', hcount', hnodup', hleast, hmost, hkept, hexact⟩ :=
        ih (fun call hcall => hfits call (List.mem_cons_of_mem _ hcall)) m₁
      have hfresh : Disjoint one.blocks.toFinset more := by
        have hapart := hgrown'.fresh
        rw [hgrown.live, Finset.disjoint_union_left] at hapart
        exact hapart.2
      have htexts : (texts (one :: stored)).toFinset =
          one.blocks.toFinset ∪ (texts stored).toFinset := by
        rw [texts, List.flatMap_cons, List.toFinset_append]
        rfl
      refine ⟨one :: stored, m', one.blocks.toFinset ∪ more, ?_, hgrown.union hgrown',
        hcount.trans hcount', ?_, ?_, ?_, .cons ⟨kept, hsub, hleaves.grown hgrown'⟩ hkept, ?_⟩
      · simp only [run, hcall, hrun, Option.bind_eq_bind, Option.bind_some]
      · rw [texts, List.flatMap_cons, List.nodup_append]
        refine ⟨hnodup, hnodup', fun b hb b' hb' => ?_⟩
        rintro rfl
        exact Finset.disjoint_left.mp hfresh (List.mem_toFinset.mpr hb)
          (hleast (List.mem_toFinset.mpr hb'))
      · rw [htexts]
        exact Finset.union_subset_union_right hleast
      · intro hlength
        rw [htexts, ← hmost (Nat.succ.inj hlength)]
      · intro hsame
        have hwhole : kept = call.pairs := hall.resolve_right (by omega)
        refine .cons ?_ (hexact (by omega))
        rw [← hwhole]
        exact hleaves.grown hgrown'

def typedMembers : Option MqttWork.AppMsgType → List Member
  | none => []
  | some type => MqttWork.typed type

theorem map_member_pairs (call : Call) :
    call.pairs.map Pair.member =
      members (typedMembers call.app) call.timestamp call.data.bytes := by
  unfold Call.pairs
  cases call.app with
  | none => rfl
  | some type => rfl

/-- With all its members a call stores what buildMessage does. -/
theorem Leaves.buildMessage {m : Memory} {call : Call} {one : Stored}
    (h : Leaves m call call.pairs one) (behind : List Byte) (len : ℕ) :
    (MessageText.buildMessage formatted (typedMembers call.app) call.destination
      (call.data.memory behind) len call.timestamp).map (fun b => b.destination.memory) =
        some one.message := by
  rw [h.message, buildMessage_some formatted call.destination (cString_memory call.data behind),
    Call.messageOf, textOf, map_member_pairs]
  rfl

/-- In every run of create_message and for every pattern of refused requests, no block is
freed twice, and nothing outside of a block is touched. Every call that returns stores the text
of some of its members in their order; when this is shorter than the array, the message holds
it, and when no request was refused, it is the message of buildMessage. The object is given
back, and the two texts that were printed are not. -/
theorem run_stores (reallocs : Bool) {calls : List Call}
    (hdata : ∀ call ∈ calls, call.data.bytes.length < 2 ^ 28) (m : Memory) :
    ∃ stored m' taken, run reallocs calls m = some (stored, m') ∧ m.Grown m' taken ∧
      (texts stored).Nodup ∧ (texts stored).toFinset ⊆ taken ∧
      (stored.length = calls.length → taken = (texts stored).toFinset) ∧
      List.Forall₂ (fun call one => ∃ kept : List Pair, kept.Sublist call.pairs ∧
        Leaves m' call kept one ∧ ((textOf kept).length < capacityOf call.app →
          Holds (⟨one.message⟩ : AppMessage (capacityOf call.app)) (textOf kept)))
        (calls.take stored.length) stored ∧
      (m'.heap.refused = m.heap.refused → List.Forall₂ (fun call one => ∀ behind len,
        (buildMessage formatted (typedMembers call.app) call.destination
          (call.data.memory behind) len call.timestamp).map (fun b => b.destination.memory) =
            some one.message) calls stored) := by
  obtain ⟨stored, m', taken, hrun, hgrown, -, hnodup, hleast, hmost, hkept, hexact⟩ :=
    run_cases reallocs (fun call hcall => fits_of_data (hdata call hcall)) m
  refine ⟨stored, m', taken, hrun, hgrown, hnodup, hleast, hmost, hkept.imp ?_,
    fun hsame => (hexact hsame).imp fun _ _ h => h.buildMessage⟩
  rintro call one ⟨kept, hsub, hleaves⟩
  refine ⟨kept, hsub, hleaves, fun hshort => ?_⟩
  rw [hleaves.message]
  exact call.holds_messageOf hshort

/-- The heap refuses one request, for a copy of the time. -/
def tight : Memory where
  heap := { plenty with answers := fun n _ => if n = 2 then none else some fun _ => 0xa5#8 }
  cells := fun _ => .bytes 0 fun _ => 0xa5#8

def upload : Call := ⟨none, ⟨[0x78#8], by decide⟩, 5#64, ⟨fun _ => 0xff#8⟩⟩

theorem run_stores_rest :
    (run false [upload] tight).map (fun r => r.1.map fun one =>
      (⟨one.message⟩ : AppMessage Gcloud.maxMessageSize).len) = some [16] ∧
    ∃ stored m' taken, run false [upload] tight = some (stored, m') ∧ tight.Grown m' taken ∧
      (texts stored).Nodup ∧ (texts stored).toFinset ⊆ taken ∧
      (stored.length = [upload].length → taken = (texts stored).toFinset) ∧
      List.Forall₂ (fun call one => ∃ kept : List Pair, kept.Sublist call.pairs ∧
        Leaves m' call kept one ∧ ((textOf kept).length < capacityOf call.app →
          Holds (⟨one.message⟩ : AppMessage (capacityOf call.app)) (textOf kept)))
        ([upload].take stored.length) stored ∧
      (m'.heap.refused = tight.heap.refused → List.Forall₂ (fun call one => ∀ behind len,
        (buildMessage formatted (typedMembers call.app) call.destination
          (call.data.memory behind) len call.timestamp).map (fun b => b.destination.memory) =
            some one.message) [upload] stored) := by
  refine ⟨by decide +kernel, run_stores false ?_ tight⟩
  intro call hcall
  rw [List.mem_singleton.mp hcall]
  exact (by decide : 1 < 2 ^ 28)

end NcsProjects.MessageObjects
