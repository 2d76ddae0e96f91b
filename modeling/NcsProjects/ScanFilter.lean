import NcsProjects.CStrings
import NcsProjects.GcloudKernel
import NcsProjects.MessageText

/-!
scan_filter_match, the callback for scan reports. The address of the report is written
as text and compared with BT_ADDR, and a message goes to the cloud for a tag. But strncmp
is bounded by nine, one more than BT_ADDR is long, so it meets the terminator where the
text of an address has its third colon and never finds the two equal; and the branch that
publishes is the one for unequal strings. So every report is published.
-/
namespace NcsProjects.ScanFilter

open CStrings (strncmp strncmp_whole)
open JsonText (Byte ascii text colon space hexDigit total total_append width)
open MessageText (CJson AppMessage Built CString)
open PublishPayload (Qos enotconn)

/-- bt_addr_le_t: `val` has the lowest byte first. -/
structure BtAddrLe where
  type : Byte
  val : Fin 6 → Byte

/-- One digit of `%02X`. -/
def hexUpper (n : Byte) : Byte := if n < 10#8 then n + 0x30#8 else n + 0x37#8

def hexByte (b : Byte) : List Byte := [hexUpper (b >>> 4), hexUpper (b &&& 0xf#8)]

def BtAddrLe.typeText (a : BtAddrLe) : List Byte :=
  if a.type = 0#8 then text ['p', 'u', 'b', 'l', 'i', 'c']
  else if a.type = 1#8 then text ['r', 'a', 'n', 'd', 'o', 'm']
  else if a.type = 2#8 then text ['p', 'u', 'b', 'l', 'i', 'c', '-', 'i', 'd']
  else if a.type = 3#8 then text ['r', 'a', 'n', 'd', 'o', 'm', '-', 'i', 'd']
  else [ascii '0', ascii 'x', hexDigit (a.type >>> 4), hexDigit (a.type &&& 0xf#8)]

/-- "%02X:%02X:%02X:%02X:%02X:%02X (%s)" -/
def BtAddrLe.text (a : BtAddrLe) : List Byte :=
  hexByte (a.val 5) ++ colon :: hexByte (a.val 4) ++ colon :: hexByte (a.val 3) ++
    colon :: hexByte (a.val 2) ++ colon :: hexByte (a.val 1) ++ colon :: hexByte (a.val 0) ++
    space :: ascii '(' :: a.typeText ++ [ascii ')']

/-- BT_ADDR_LE_STR_LEN -/
def btAddrLeStrLen : ℕ := 30

/-- The string that snprintk leaves in a buffer of `len` bytes. -/
def btAddrLeToStr (a : BtAddrLe) (len : ℕ) : List Byte := a.text.take (len - 1)

/-- BT_ADDR -/
def btAddr : List Byte := text ['0', '6', ':', '0', '9', ':', '1', '6']

/-- A report, and what the call of scan_filter_match for it finds: the bytes that lie behind
the address text on the stack, the address and the bytes of the variable `message`, the time
that date_time_now writes, the flag `connected`, and what k_msgq_put_atomic returns. -/
structure Report where
  addr : BtAddrLe
  behind : List Byte
  message : ℕ
  uninit : AppMessage MessageText.Gcloud.maxMessageSize
  currTime : BitVec 64
  connected : Bool
  put : Gcloud.GcloudEvent → ℤ

def gcloudPublish (r : Report) (m : Gcloud.Message) : ℤ :=
  if r.connected then r.put (.publish m) else enotconn

inductive Call
  | createMessage (b : Built MessageText.Gcloud.maxMessageSize)
  | gcloudPublish (m : Gcloud.Message) (err : ℤ)
  | scanStop

/-- The calls of one callback; none stands for a read behind the end of the memory. -/
def scanFilterMatch (cj : CJson) (r : Report) : Option (List Call) :=
  let addr := btAddrLeToStr r.addr btAddrLeStrLen ++ 0#8 :: r.behind
  match strncmp 9 (btAddr ++ [0#8]) addr with
  | none => none
  | some d =>
    let ret : ℤ := if d = 0 then 1 else 0
    if ret = 0 then
      match MessageText.Gcloud.createMessage cj r.uninit addr btAddrLeStrLen r.currTime with
      | none => none
      | some b =>
        let m : Gcloud.Message := ⟨r.message, b.destination.len, .atLeastOnce⟩
        let pubSuccess := gcloudPublish r m
        if pubSuccess ≠ 0 then
          some [.createMessage b, .gcloudPublish m pubSuccess, .scanStop]
        else some [.createMessage b, .gcloudPublish m pubSuccess]
    else some []

/-- One callback after the other. -/
def scan (cj : CJson) : List Report → Option (List (List Call))
  | [] => some []
  | r :: rest =>
    match scanFilterMatch cj r, scan cj rest with
    | some calls, some log => some (calls :: log)
    | _, _ => none

/-- The address is one of a tag: its text starts with BT_ADDR. -/
def Relevant (a : BtAddrLe) : Prop := (btAddrLeToStr a btAddrLeStrLen).take 8 = btAddr

/-- What the filter is there for. -/
structure Filtered (a : BtAddrLe) (calls : List Call) : Prop where
  creates : (∃ b, .createMessage b ∈ calls) ↔ Relevant a
  publishes : (∃ m err, .gcloudPublish m err ∈ calls) ↔ Relevant a
  stops : .scanStop ∈ calls ↔ Relevant a ∧ ∃ m err, .gcloudPublish m err ∈ calls ∧ err ≠ 0

theorem hexByte_zero : ∀ b : Byte, 0#8 ∉ hexByte b := by decide

theorem numberText_facts : ∀ t : Byte,
    0#8 ∉ [ascii '0', ascii 'x', hexDigit (t >>> 4), hexDigit (t &&& 0xf#8)] ∧
      total width [ascii '0', ascii 'x', hexDigit (t >>> 4), hexDigit (t &&& 0xf#8)] = 4 := by
  decide

/-- The text of the type is a string of nine characters at most, none of which is escaped. -/
theorem typeText_facts (a : BtAddrLe) :
    0#8 ∉ a.typeText ∧ a.typeText.length ≤ 9 ∧ total width a.typeText ≤ 9 := by
  unfold BtAddrLe.typeText
  repeat' split
  · decide
  · decide
  · decide
  · decide
  · obtain ⟨hzero, hwidth⟩ := numberText_facts a.type
    exact ⟨hzero, by simp, by omega⟩

theorem text_length (a : BtAddrLe) : a.text.length = 20 + a.typeText.length := by
  simp [BtAddrLe.text, hexByte]
  omega

theorem zero_notMem_text (a : BtAddrLe) : 0#8 ∉ a.text := by
  have hparen : 0#8 ≠ ascii '(' ∧ 0#8 ≠ ascii ')' := by decide
  simp [BtAddrLe.text, hexByte_zero, (typeText_facts a).1, colon, space, hparen.1, hparen.2]

/-- The buffer takes the text of every address as a whole. -/
theorem btAddrLeToStr_whole (a : BtAddrLe) : btAddrLeToStr a btAddrLeStrLen = a.text := by
  apply List.take_of_length_le
  have hlength := text_length a
  have htype := (typeText_facts a).2.1
  simp only [btAddrLeStrLen]
  omega

/-- The text as the string that create_message is given. -/
def BtAddrLe.cString (a : BtAddrLe) : CString := ⟨a.text, zero_notMem_text a⟩

theorem text_ne_btAddr (a : BtAddrLe) : btAddr ≠ a.text := by
  intro h
  have hlength := text_length a
  rw [← h] at hlength
  simp [btAddr, text] at hlength
  omega

theorem hexByte_eq_iff : ∀ b : Byte, (hexByte b = text ['0', '6'] ↔ b = 0x06#8) ∧
    (hexByte b = text ['0', '9'] ↔ b = 0x09#8) ∧
    (hexByte b = text ['1', '6'] ↔ b = 0x16#8) := by decide

/-- The addresses of the tags. -/
theorem relevant_iff (a : BtAddrLe) :
    Relevant a ↔ a.val 5 = 0x06#8 ∧ a.val 4 = 0x09#8 ∧ a.val 3 = 0x16#8 := by
  have hfront : a.text.take 8 =
      hexByte (a.val 5) ++ colon :: hexByte (a.val 4) ++ colon :: hexByte (a.val 3) := by
    simp [BtAddrLe.text, hexByte]
  have hparts : btAddr =
      text ['0', '6'] ++ colon :: text ['0', '9'] ++ colon :: text ['1', '6'] := by decide
  rw [Relevant, btAddrLeToStr_whole, hfront, hparts, ← (hexByte_eq_iff (a.val 5)).1,
    ← (hexByte_eq_iff (a.val 4)).2.1, ← (hexByte_eq_iff (a.val 3)).2.2]
  simp [hexByte, text, and_assoc]

/-- The bound of nine covers all of BT_ADDR and its terminator. -/
theorem strncmp_address (a : BtAddrLe) (behind : List Byte) :
    ∃ d, strncmp 9 (btAddr ++ [0#8]) (a.text ++ 0#8 :: behind) = some d ∧ d ≠ 0 := by
  obtain ⟨d, hd, hzero⟩ := strncmp_whole (n := 9) (s := btAddr) (by decide) (by decide)
    (zero_notMem_text a) [] behind
  exact ⟨d, hd, fun h => text_ne_btAddr a (hzero.mp h)⟩

theorem createMessage_address (cj : CJson) (r : Report) :
    ∃ b, MessageText.Gcloud.createMessage cj r.uninit (r.addr.text ++ 0#8 :: r.behind)
      btAddrLeStrLen r.currTime = some b := by
  have hstring : MessageText.cString (r.addr.text ++ 0#8 :: r.behind) = some r.addr.text :=
    MessageText.cString_memory r.addr.cString r.behind
  simp only [MessageText.Gcloud.createMessage, MessageText.buildMessage, hstring]
  exact ⟨_, rfl⟩

/-- Every report is published, whatever its address is. -/
theorem scanFilterMatch_publishes (cj : CJson) (r : Report) :
    ∃ b m, scanFilterMatch cj r = some (.createMessage b :: .gcloudPublish m (gcloudPublish r m) ::
      if gcloudPublish r m ≠ 0 then [.scanStop] else []) := by
  obtain ⟨d, hd, hne⟩ := strncmp_address r.addr r.behind
  obtain ⟨b, hb⟩ := createMessage_address cj r
  refine ⟨b, ⟨r.message, b.destination.len, .atLeastOnce⟩, ?_⟩
  simp only [scanFilterMatch, btAddrLeToStr_whole, hd, hne, if_false, if_true, hb]
  split <;> rfl

theorem filtered_iff (cj : CJson) (r : Report) :
    ∃ calls, scanFilterMatch cj r = some calls ∧ (Filtered r.addr calls ↔ Relevant r.addr) := by
  obtain ⟨b, m, hcalls⟩ := scanFilterMatch_publishes cj r
  refine ⟨_, hcalls, fun h => h.creates.mp ⟨b, List.mem_cons_self⟩, fun hrelevant => ?_⟩
  constructor
  · exact ⟨fun _ => hrelevant, fun _ => ⟨b, List.mem_cons_self⟩⟩
  · exact ⟨fun _ => hrelevant, fun _ => ⟨m, _, List.mem_cons_of_mem _ List.mem_cons_self⟩⟩
  · by_cases hfailed : gcloudPublish r m = 0
    · simp [hrelevant, hfailed]
    · simp [hrelevant, hfailed]

/-- The filter does what it is there for on a sequence of reports exactly when each of them
is of a tag. -/
theorem scan_filtered_iff (cj : CJson) (reports : List Report) :
    (∃ log, scan cj reports = some log ∧
      List.Forall₂ (fun r calls => Filtered r.addr calls) reports log) ↔
    ∀ r ∈ reports, Relevant r.addr := by
  induction reports with
  | nil => simp [scan]
  | cons r rest ih =>
    obtain ⟨calls, hcalls, hiff⟩ := filtered_iff cj r
    rw [List.forall_mem_cons, ← ih, ← hiff]
    constructor
    · rintro ⟨log, hlog, hall⟩
      cases hrest : scan cj rest with
      | none => simp [scan, hcalls, hrest] at hlog
      | some log' =>
        simp only [scan, hcalls, hrest, Option.some.injEq] at hlog
        subst hlog
        obtain ⟨hfirst, hothers⟩ := List.forall₂_cons.mp hall
        exact ⟨hfirst, log', rfl, hothers⟩
    · rintro ⟨hfirst, log, hrest, hothers⟩
      exact ⟨calls :: log, by simp only [scan, hcalls, hrest], .cons hfirst hothers⟩

/-- A tag of another make. -/
def otherTag : Report :=
  ⟨⟨0#8, fun _ => 0xff#8⟩, [], 0, ⟨fun _ => 0#8⟩, 0#64, true, fun _ => 0⟩

theorem other_tag_published : ¬ ∃ log, scan MessageText.formatted [otherTag] = some log ∧
    List.Forall₂ (fun r calls => Filtered r.addr calls) [otherTag] log := by
  have hnot : ¬ Relevant otherTag.addr := by
    unfold Relevant
    decide
  rintro ⟨log, hlog, hall⟩
  obtain ⟨calls, hcalls, hiff⟩ := filtered_iff MessageText.formatted otherTag
  simp only [scan, hcalls, Option.some.injEq] at hlog
  subst hlog
  exact hnot (hiff.mp (List.forall₂_cons.mp hall).1)

section Message

open MessageText (formatted timeStr members)

theorem hexByte_width : ∀ b : Byte, total width (hexByte b) = 2 := by decide

theorem text_width_le (a : BtAddrLe) : total width a.text ≤ 29 := by
  have htype := (typeText_facts a).2.2
  have hcolon : width colon = 1 := by decide
  have hspace : width space = 1 := by decide
  have hparen : width (ascii '(') = 1 ∧ width (ascii ')') = 1 := by decide
  simp only [BtAddrLe.text, total_append, total, hexByte_width, hcolon, hspace, hparen.1, hparen.2]
  omega

/-- The message of a report fits, whatever the address, its type and the time are. -/
theorem message_fits (r : Report) :
    ∃ b, MessageText.Gcloud.createMessage formatted r.uninit (r.addr.text ++ 0#8 :: r.behind)
        btAddrLeStrLen r.currTime = some b ∧
      MessageText.Fits r.uninit b := by
  have htime := formatted.widths_le (timeStr r.currTime)
  have hshort : (timeStr r.currTime).length ≤ 15 := List.length_take_le 15 _
  have haddr : formatted.widths r.addr.text ≤ 29 := text_width_le r.addr
  have hlayout : formatted.layout (members [] r.currTime []) = 33 := rfl
  refine (MessageText.buildMessage_fits formatted r.uninit MessageText.strings_nil (by decide)
    r.addr.cString r.behind btAddrLeStrLen r.currTime).mpr ?_
  show _ + 0 + _ + formatted.widths r.addr.text < 256
  omega

end Message

end NcsProjects.ScanFilter
