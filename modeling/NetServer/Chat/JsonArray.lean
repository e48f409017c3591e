/-
  NetServer.Chat.JsonArray — the JSON that `features/chat/http_chat.c` sends.

  `handle_messages_get` prints its answer piece by piece into a block sized for
  the number of messages: 1152 bytes each, and 64 more.  An object takes at most
  1151 bytes and its comma one, so every piece fits and the size handed to
  `snprintf` never wraps around.

  Main results:
    • `messagesArray_printed` — what is in the block when the answer is sent;
    • `item_msgJsonText` — each object is an item of the array;
    • `json_output_wellFormed` — the answer, the frames of the event stream and
      the escaped texts.
-/
import NetServer.Chat.Json
import NetServer.Lib.PrintBuffer

namespace NetServer.Chat

open NetServer.Lib

/-! ## §1. The answer and the frame. -/

/-- `cap`: the bytes `handle_messages_get` allocates for `n` messages. -/
def messagesCap (n : Nat) : Nat := 64 + n * (chatBodyMax * 2 + chatUserMax * 2 + 64)

/-- The loop over the messages, from message `i` on. -/
def messagesLoop : Nat → List ChatMsg → PrintBuffer → Option PrintBuffer
  | _, [], b => some b
  | i, m :: ms, b => do
      let b ← if i = 0 then some b else b.print (ascii ",")
      let b ← b.print (msgJsonText m)
      messagesLoop (i + 1) ms b

/-- The block when `handle_messages_get` answers; `mem` is what `malloc` gave. -/
def messagesArray (mem : List UInt8) (msgs : List ChatMsg) : Option PrintBuffer := do
  let b ← PrintBuffer.print ⟨mem, 0, []⟩ (ascii "[")
  let b ← messagesLoop 0 msgs b
  b.print (ascii "]")

/-- `http_sse_send`: the three parts of a frame. -/
def httpSseSend (data : List UInt8) : List UInt8 := ascii "data: " ++ data ++ ascii "\n\n"

/-- The frame of a message in `handle_sse`; the data is a C string. -/
def sseFrame (m : ChatMsg) : List UInt8 := httpSseSend (cString (msgToJson m sseFrameMax))

/-- What the store guarantees of a message. -/
structure Stored (m : ChatMsg) : Prop where
  user : UserClean m.user
  body : BodyClean m.body
  id : 0 < m.id ∧ m.id ≤ longMax
  ts : 0 ≤ m.ts ∧ m.ts ≤ longMax

/-! ## §2. One object. -/

/-- An object has no control bytes. -/
theorem msgJsonText_visible {m : ChatMsg} (hm : Stored m) {b : UInt8} (hb : b ∈ msgJsonText m) :
    ¬ b < 32 := by
  have hdigits : ∀ n : Int, 0 ≤ n → ∀ x ∈ longText n, (decide (x < 32)) = false := by
    intro n hn x hx
    unfold longText at hx
    rw [if_neg (by omega)] at hx
    have hdigit := (decimal_numeral n.toNat).digits x hx
    simp only [isDigit, Bool.and_eq_true, decide_eq_true_eq] at hdigit
    rw [decide_eq_false_iff_not]
    exact fun h => absurd (UInt8.lt_of_le_of_lt hdigit.1 h) (by decide)
  have hescape : ∀ (s : List UInt8) (outsz : Nat), 2 ≤ outsz → ∀ x ∈ jsonEscape s outsz,
      (decide (x < 32)) = false := by
    intro s outsz hsz x hx
    obtain ⟨p, -, hp, -⟩ := jsonEscape_spec s hsz
    rw [hp] at hx
    exact decide_eq_false (escaped_visible hx)
  have hfilter := filter_fill (p := fun x => decide (x < 32)) msgJsonTemplate
    [longText m.id, jsonEscape m.user (chatUserMax * 2), longText m.ts,
      jsonEscape m.body (chatBodyMax * 2)] (by
        intro a ha
        simp only [List.mem_cons, List.not_mem_nil, or_false] at ha
        rcases ha with rfl | rfl | rfl | rfl
        · exact hdigits m.id (by have := hm.id; omega)
        · exact hescape m.user _ (by decide)
        · exact hdigits m.ts hm.ts.1
        · exact hescape m.body _ (by decide))
  have hnone : (literals msgJsonTemplate).filter (fun x => decide (x < 32)) = [] := by decide +kernel
  rw [hnone, List.filter_eq_nil_iff] at hfilter
  intro hlt
  exact hfilter b hb (decide_eq_true hlt)

/-- An object as an item: it is read back with a prefix of the body. -/
theorem item_msgJsonText {m : ChatMsg} (hm : Stored m) :
    ∃ p, p <+: m.body ∧ Json.Item 5 (msgJsonText m) (msgObject m.id m.user m.ts p) := by
  obtain ⟨p, hp, hbody, -⟩ := jsonEscape_body hm.body
  have hok := msgMembers_ok hm.user (Int.le_of_lt hm.id.1) hm.ts.1 hbody
  have hlen := @Json.length_lt_writeObject (msgMembers m p) (by simp [msgMembers])
  refine ⟨p, hp, ?_⟩
  rw [msgJsonText_eq m p]
  exact ⟨Json.readsWithin_object (by simp [msgMembers]) hok, hlen, 123, _, rfl, by decide, by decide⟩

theorem msgJsonText_length {m : ChatMsg} (hm : Stored m) : (msgJsonText m).length < 1152 :=
  msgJsonText_fits hm.user hm.body ⟨Int.le_of_lt hm.id.1, hm.id.2⟩ hm.ts

/-! ## §3. The whole answer. -/

/-- The pieces printed from message `i` on. -/
def loopTexts : Nat → List ChatMsg → List (List UInt8)
  | _, [] => []
  | i, m :: ms => (if i = 0 then [] else [ascii ","]) ++ msgJsonText m :: loopTexts (i + 1) ms

theorem messagesLoop_eq (msgs : List ChatMsg) :
    ∀ i b, messagesLoop i msgs b = PrintBuffer.printAll (loopTexts i msgs) b := by
  induction msgs with
  | nil => intro i b; rfl
  | cons m ms ih =>
    intro i b
    unfold messagesLoop loopTexts
    by_cases hi : i = 0
    · simp only [if_pos hi, ih]
      rfl
    · simp only [if_neg hi, ih]
      rfl

/-- The pieces are those of an array of the objects. -/
theorem loopTexts_flatten :
    ∀ (msgs : List ChatMsg) (i : Nat), (loopTexts i msgs).flatten
      = if i = 0 ∨ msgs = [] then Json.writeItems (msgs.map msgJsonText)
        else 44 :: Json.writeItems (msgs.map msgJsonText)
  | [], i => by
      rw [if_pos (Or.inr rfl)]
      rfl
  | m :: ms, i => by
      have htail := loopTexts_flatten ms (i + 1)
      have hitems : msgJsonText m ++ (loopTexts (i + 1) ms).flatten
          = Json.writeItems ((m :: ms).map msgJsonText) := by
        rw [htail]
        cases ms with
        | nil => simp [Json.writeItems]
        | cons m' ms' => simp [Json.writeItems]
      unfold loopTexts
      rw [List.flatten_append, List.flatten_cons, hitems]
      by_cases hi : i = 0
      · rw [if_pos hi, if_pos (Or.inl hi)]
        rfl
      · rw [if_neg hi, if_neg (by simp [hi])]
        rfl

/-- An object and its comma take at most the 1152 bytes of a message. -/
theorem loopTexts_length {msgs : List ChatMsg} (hmsgs : ∀ m ∈ msgs, Stored m) :
    ∀ i, (loopTexts i msgs).flatten.length ≤ msgs.length * 1152 := by
  induction msgs with
  | nil => intro i; exact Nat.le_refl 0
  | cons m ms ih =>
    intro i
    have htail := ih (fun x hx => hmsgs x (List.mem_cons_of_mem _ hx)) (i + 1)
    have hobj := msgJsonText_length (hmsgs m List.mem_cons_self)
    have hcomma : (if i = 0 then [] else [ascii ","]).flatten.length ≤ 1 := by
      split <;> decide
    rw [loopTexts, List.flatten_append, List.flatten_cons, List.length_append, List.length_append,
      List.length_cons]
    omega

theorem loopTexts_visible {msgs : List ChatMsg} (hmsgs : ∀ m ∈ msgs, Stored m) :
    ∀ i, ∀ b ∈ (loopTexts i msgs).flatten, ¬ b < 32 := by
  induction msgs with
  | nil => intro i b hb; cases hb
  | cons m ms ih =>
    intro i b hb
    rw [loopTexts, List.flatten_append, List.flatten_cons, List.mem_append, List.mem_append] at hb
    rcases hb with hcomma | hobj | htail
    · have hall : ∀ x ∈ (if i = 0 then [] else [ascii ","]).flatten, ¬ x < 32 := by
        split <;> decide +kernel
      exact hall b hcomma
    · exact msgJsonText_visible (hmsgs m List.mem_cons_self) hobj
    · exact ih (fun x hx => hmsgs x (List.mem_cons_of_mem _ hx)) (i + 1) b htail

/-- **The block when the answer is sent.**  Every call had its offset inside the
block and room for its text, and the block holds the array. -/
theorem messagesArray_printed {msgs : List ChatMsg} (hn : msgs.length ≤ 100)
    (hmsgs : ∀ m ∈ msgs, Stored m) {mem : List UInt8} (hmem : mem.length = messagesCap msgs.length) :
    ∃ b, messagesArray mem msgs = some b
      ∧ (∀ call ∈ b.calls, PrintBuffer.Fits (messagesCap msgs.length) call)
      ∧ cString b.mem = Json.writeArray (msgs.map msgJsonText) := by
  have hcap : messagesCap msgs.length = 64 + msgs.length * 1152 := rfl
  have hloop := loopTexts_length hmsgs 0
  have htexts : (ascii "[" :: (loopTexts 0 msgs ++ [ascii "]"])).flatten
      = Json.writeArray (msgs.map msgJsonText) := by
    rw [List.flatten_cons, List.flatten_append, loopTexts_flatten, if_pos (Or.inl rfl)]
    rfl
  have hcalls : messagesArray mem msgs
      = PrintBuffer.printAll (ascii "[" :: (loopTexts 0 msgs ++ [ascii "]"])) ⟨mem, 0, []⟩ := by
    unfold messagesArray
    simp only [messagesLoop_eq]
    rw [PrintBuffer.printAll]
    simp only [PrintBuffer.printAll_append, PrintBuffer.printAll_singleton]
    rfl
  have hlen : (ascii "[" :: (loopTexts 0 msgs ++ [ascii "]"])).flatten.length
      = 1 + ((loopTexts 0 msgs).flatten.length + 1) := by
    rw [List.flatten_cons, List.flatten_append, List.length_append, List.length_append]
    rfl
  have hsize : UInt64.size = 18446744073709551616 := rfl
  obtain ⟨b, hb, hprints⟩ := PrintBuffer.printAll_fits
    (ascii "[" :: (loopTexts 0 msgs ++ [ascii "]"])) ⟨mem, 0, []⟩ (by simp)
    (by rw [hlen]; dsimp only; omega) (by dsimp only; omega)
  refine ⟨b, hcalls.trans hb, ?_, ?_⟩
  · intro call hcall
    rcases hprints.calls call hcall with hold | hfits
    · cases hold
    · rw [← hmem]
      exact hfits
  · rw [← htexts]
    apply hprints.cString_eq rfl
    intro h0
    rw [List.flatten_cons, List.flatten_append, List.mem_append, List.mem_append] at h0
    rcases h0 with h0 | h0 | h0
    · exact absurd h0 (by decide)
    · exact absurd (by decide) (loopTexts_visible hmsgs 0 0 h0)
    · exact absurd h0 (by decide)

/-! ## §4. What is sent. -/

/-- The objects are items, each read back with a prefix of its message's body. -/
theorem items_of_messages {msgs : List ChatMsg} (hmsgs : ∀ m ∈ msgs, Stored m) :
    ∃ vs, List.Forall₂ (Json.Item 5) (msgs.map msgJsonText) vs
      ∧ List.Forall₂ (fun m v => ∃ p, p <+: m.body ∧ v = msgObject m.id m.user m.ts p) msgs vs := by
  induction msgs with
  | nil => exact ⟨[], .nil, .nil⟩
  | cons m ms ih =>
    obtain ⟨vs, hitems, hread⟩ := ih fun x hx => hmsgs x (List.mem_cons_of_mem _ hx)
    obtain ⟨p, hp, hitem⟩ := item_msgJsonText (hmsgs m List.mem_cons_self)
    exact ⟨msgObject m.id m.user m.ts p :: vs, .cons hitem hitems, .cons ⟨p, hp, rfl⟩ hread⟩

/-- A frame has no newline but the two that end it. -/
theorem sseFrame_lines {m : ChatMsg} (hm : Stored m) :
    ∃ line, sseFrame m = line ++ [10, 10] ∧ 10 ∉ line := by
  refine ⟨ascii "data: " ++ cString (msgToJson m sseFrameMax), rfl, ?_⟩
  intro h10
  rcases List.mem_append.mp h10 with h10 | h10
  · exact absurd h10 (by decide)
  · have hmem := List.mem_of_mem_take ((List.takeWhile_sublist _).subset h10)
    exact absurd (by decide) (msgJsonText_visible hm hmem)

/-- **What is sent is well formed.**  For up to 100 messages as the store has
them, whatever `malloc` gives: every `snprintf` of `handle_messages_get` starts
inside its block and fits, and the answer is an array with one object per
message, its body cut short at most; a frame of the event stream has no newline
of its own.  `json_escape` of any string fits any buffer of eight bytes and
escapes a prefix of the string, which is read back from it. -/
theorem json_output_wellFormed {msgs : List ChatMsg} (hn : msgs.length ≤ 100)
    (hmsgs : ∀ m ∈ msgs, Stored m) {mem : List UInt8} (hmem : mem.length = messagesCap msgs.length) :
    (∃ b vs, messagesArray mem msgs = some b
      ∧ (∀ call ∈ b.calls, call.1 < messagesCap msgs.length
        ∧ call.1 + call.2.length < messagesCap msgs.length)
      ∧ Json.parse (cString b.mem) = some (.arr vs)
      ∧ List.Forall₂ (fun m v => ∃ p, p <+: m.body ∧ v = msgObject m.id m.user m.ts p) msgs vs)
    ∧ (∀ m ∈ msgs, ∃ line, sseFrame m = line ++ [10, 10] ∧ 10 ∉ line)
    ∧ ∀ (s : List UInt8) (outsz : Nat), 8 ≤ outsz →
      ∃ p, p <+: cString s ∧ jsonEscape s outsz = p.flatMap escByte
        ∧ (jsonEscape s outsz).length + 1 ≤ outsz
        ∧ Json.Spells (jsonEscape s outsz) p ∧ ∀ b ∈ jsonEscape s outsz, ¬ b < 32 := by
  refine ⟨?_, fun m hm => sseFrame_lines (hmsgs m hm), ?_⟩
  · obtain ⟨b, hb, hcalls, hstring⟩ := messagesArray_printed hn hmsgs hmem
    obtain ⟨vs, hitems, hread⟩ := items_of_messages hmsgs
    refine ⟨b, vs, hb, ?_, ?_, hread⟩
    · intro call hcall
      have hfits := hcalls call hcall
      exact ⟨Nat.lt_of_le_of_lt (Nat.le_add_right _ _) hfits, hfits⟩
    · rw [hstring]
      exact Json.parse_array hitems
  · intro s outsz hsz
    obtain ⟨p, hp, hout, hlen⟩ := jsonEscape_spec s (by omega : 2 ≤ outsz)
    refine ⟨p, hp, hout, by omega, ?_, ?_⟩
    · rw [hout]
      exact spells_escaped p
    · intro b hb
      rw [hout] at hb
      exact escaped_visible hb

/-- Two messages, one of them with a quote. -/
def twoStored : List ChatMsg :=
  [⟨1, ascii "ann", 1700000000, ascii "hello"⟩, ⟨2, ascii "bob_2", 1700000001, ascii "say \"hi\""⟩]

theorem twoStored_stored : ∀ m ∈ twoStored, Stored m := by
  intro m hm
  simp only [twoStored, List.mem_cons, List.not_mem_nil, or_false] at hm
  rcases hm with rfl | rfl
  all_goals
    refine ⟨⟨?_, ?_, ?_⟩, ⟨?_, ?_, ?_⟩, ?_, ?_⟩ <;> decide +kernel

theorem json_output_two :
    (∃ b vs, messagesArray (List.replicate 2368 7) twoStored = some b
      ∧ (∀ call ∈ b.calls, call.1 < 2368 ∧ call.1 + call.2.length < 2368)
      ∧ Json.parse (cString b.mem) = some (.arr vs)
      ∧ List.Forall₂ (fun m v => ∃ p, p <+: m.body ∧ v = msgObject m.id m.user m.ts p) twoStored vs)
    ∧ (∀ m ∈ twoStored, ∃ line, sseFrame m = line ++ [10, 10] ∧ 10 ∉ line)
    ∧ ∃ p, p <+: cString (ascii "a\"b") ∧ jsonEscape (ascii "a\"b") 8 = p.flatMap escByte
      ∧ (jsonEscape (ascii "a\"b") 8).length + 1 ≤ 8
      ∧ Json.Spells (jsonEscape (ascii "a\"b") 8) p
      ∧ ∀ b ∈ jsonEscape (ascii "a\"b") 8, ¬ b < 32 := by
  have h := @json_output_wellFormed twoStored (by decide) twoStored_stored (List.replicate 2368 7)
    List.length_replicate
  exact ⟨h.1, h.2.1, h.2.2 (ascii "a\"b") 8 (by decide)⟩

end NetServer.Chat
