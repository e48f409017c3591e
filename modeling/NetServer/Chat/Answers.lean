/-
  NetServer.Chat.Answers — what a client reads of an answer.

  `NetServer.Chat.Responses` says which answer a request gets.  Here the answer is
  printed by the handler's `snprintf`s, framed by `http_respond`, cut by the socket
  and read by a client.

    • `printList_printed` — the loops of `handle_rooms` and `handle_users` stay in
      their buffers;
    • `ResponseBody.printed_read` — the text of every answer is read back as what
      the handler had;
    • `answer_received` — over every run of `http_run_session`: the client reads that
      answer with its status and type, or nothing.
-/
import NetServer.Chat.Injection
import NetServer.Chat.JsonArray
import NetServer.Chat.Responses
import NetServer.Http.Transport

namespace NetServer.Chat

open NetServer.Lib
open NetServer.Lib.TransitionSystem
open NetServer.Lib.HttpMessage
open NetServer.Telnet
open NetServer.Http

/-! ## §1. Printing. -/

/-- An object of `handle_rooms`. -/
def roomJsonText (r : ChatRoom) : List UInt8 :=
  ascii "\x7b\"id\":" ++ longText r.id ++ ascii ",\"name\":\"" ++ jsonEscape r.name (chatNameMax * 2)
    ++ ascii "\"\x7d"

/-- A name of `handle_users`. -/
def userJsonText (u : List UInt8) : List UInt8 :=
  ascii "\"" ++ jsonEscape u (chatUserMax * 2) ++ ascii "\""

/-- The loop of both: `i ? "," : ""` in front of each item. -/
def listLoop : Nat → List (List UInt8) → PrintBuffer → Option PrintBuffer
  | _, [], b => some b
  | i, t :: ts, b => (b.print ((if i = 0 then [] else ascii ",") ++ t)).bind (listLoop (i + 1) ts)

/-- A list between two texts. -/
def printList (mem opening closing : List UInt8) (ts : List (List UInt8)) : Option PrintBuffer :=
  ((PrintBuffer.mk mem 0 []).print opening).bind fun b =>
    (listLoop 0 ts b).bind fun b => b.print closing

/-- The array `handle_rooms` prints. -/
def roomsArray (mem : List UInt8) (rs : List ChatRoom) : Option PrintBuffer :=
  printList mem (ascii "[") (ascii "]") (rs.map roomJsonText)

/-- The object `handle_users` prints. -/
def usersObject (mem : List UInt8) (names : List (List UInt8)) : Option PrintBuffer :=
  printList mem (ascii "\x7b\"count\":" ++ decimal names.length ++ ascii ",\"users\":[") (ascii "]\x7d")
    (names.map userJsonText)

/-- The size of the buffer of `handle_users`. -/
def usersCap : Nat := 64 * (chatUserMax * 2 + 4) + 64

/-- The body of a response as it is handed to `http_respond`; `mem` is what a block of a
size holds before it is printed to.  `none` when a call prints outside its block. -/
def ResponseBody.printed (mem : Nat → List UInt8) : ResponseBody → Option (List UInt8)
  | .text t => some (ascii t)
  | .file bytes => some bytes
  | .rooms rs => (roomsArray (mem 2048) rs).map fun b => cString b.mem
  | .messages msgs =>
      (messagesArray (mem (messagesCap msgs.length)) msgs).map fun b => cString b.mem
  | .posted id => some (cString ((ascii "\x7b\"id\":" ++ longText id ++ ascii "\x7d").take 63))
  | .users names => (usersObject (mem usersCap) names).map fun b => cString b.mem
  | .stream => none

/-! ## §2. The lists fit. -/

/-- The texts of the loop's calls. -/
def listPieces : Nat → List (List UInt8) → List (List UInt8)
  | _, [] => []
  | i, t :: ts => ((if i = 0 then [] else ascii ",") ++ t) :: listPieces (i + 1) ts

theorem listLoop_eq (ts : List (List UInt8)) :
    ∀ i b, listLoop i ts b = PrintBuffer.printAll (listPieces i ts) b := by
  induction ts with
  | nil => intro i b; rfl
  | cons t ts ih =>
    intro i b
    unfold listLoop listPieces PrintBuffer.printAll
    congr 1
    exact funext (ih (i + 1))

/-- The pieces are the items with commas between them. -/
theorem listPieces_flatten :
    ∀ (ts : List (List UInt8)) (i : Nat), (listPieces i ts).flatten
      = (if i = 0 ∨ ts = [] then [] else ascii ",") ++ Json.writeItems ts
  | [], i => by
    rw [if_pos (Or.inr rfl)]
    rfl
  | t :: ts, i => by
    have hcomma : (if i = 0 ∨ t :: ts = [] then [] else ascii ",") = if i = 0 then [] else ascii "," := by
      simp
    have hitems : t ++ (listPieces (i + 1) ts).flatten = Json.writeItems (t :: ts) := by
      rw [listPieces_flatten ts (i + 1)]
      cases ts with
      | nil => simp [Json.writeItems]
      | cons t' ts' =>
        have hsep : ascii "," = [44] := rfl
        simp [Json.writeItems, hsep]
    rw [listPieces, List.flatten_cons, hcomma, List.append_assoc, hitems]

/-- **A list that fits its buffer is printed in full.** -/
theorem printList_printed {mem opening closing : List UInt8} {ts : List (List UInt8)} {k : Nat}
    (hts : ∀ t ∈ ts, t.length ≤ k ∧ (0 : UInt8) ∉ t) (hopen : (0 : UInt8) ∉ opening)
    (hclose : (0 : UInt8) ∉ closing)
    (hroom : opening.length + ts.length * (k + 1) + closing.length < mem.length)
    (hsize : mem.length < UInt64.size) :
    ∃ b, printList mem opening closing ts = some b
      ∧ (∀ call ∈ b.calls, PrintBuffer.Fits mem.length call)
      ∧ cString b.mem = opening ++ Json.writeItems ts ++ closing := by
  have hitems := Json.length_writeItems_le fun t ht => (hts t ht).1
  have htexts : (opening :: (listPieces 0 ts ++ [closing])).flatten
      = opening ++ Json.writeItems ts ++ closing := by
    rw [List.flatten_cons, List.flatten_append, listPieces_flatten, if_pos (Or.inl rfl),
      List.flatten_cons, List.flatten_nil, List.append_nil, List.nil_append, List.append_assoc]
  have hcalls : printList mem opening closing ts
      = PrintBuffer.printAll (opening :: (listPieces 0 ts ++ [closing])) ⟨mem, 0, []⟩ := by
    unfold printList
    simp only [listLoop_eq]
    rw [PrintBuffer.printAll]
    simp only [PrintBuffer.printAll_append, PrintBuffer.printAll_singleton]
  have hlen : (opening ++ Json.writeItems ts ++ closing).length < mem.length := by
    rw [List.length_append, List.length_append]
    omega
  obtain ⟨b, hb, hprints⟩ := PrintBuffer.printAll_fits (opening :: (listPieces 0 ts ++ [closing]))
    ⟨mem, 0, []⟩ (by simp) (by rw [htexts, Nat.zero_add]; exact hlen) hsize
  refine ⟨b, hcalls.trans hb, ?_, ?_⟩
  · intro call hcall
    rcases hprints.calls call hcall with hold | hfits
    · cases hold
    · exact hfits
  · rw [← htexts]
    apply hprints.cString_eq rfl
    rw [htexts]
    simp only [List.mem_append, not_or]
    refine ⟨⟨hopen, fun h0 => ?_⟩, hclose⟩
    rcases Json.mem_writeItems h0 with h0 | ⟨t, ht, h0⟩
    · exact absurd h0 (by decide)
    · exact (hts t ht).2 h0

/-! ## §3. Reading back. -/

/-- A room as it is in the registry: its id is an id of SQLite. -/
def RoomListed (r : ChatRoom) : Prop := 0 ≤ r.id ∧ r.id ≤ longMax

theorem noNul_of_visible {s : List UInt8} (h : ∀ b ∈ s, ¬ b < 32) : (0 : UInt8) ∉ s :=
  fun h0 => h 0 h0 (by decide)

theorem jsonEscape_noControl (s : List UInt8) {outsz : Nat} (h : 2 ≤ outsz) :
    ∀ b ∈ jsonEscape s outsz, ¬ b < 32 := by
  intro b hb
  obtain ⟨p, -, hp, -⟩ := jsonEscape_spec s h
  rw [hp] at hb
  exact escaped_visible hb

theorem longText_noNul {n : Int} (hn : 0 ≤ n) : (0 : UInt8) ∉ longText n := by
  unfold longText
  rw [if_neg (by omega)]
  intro h0
  exact absurd (decimal_digits _ 0 h0) (by decide)

/-- The part of a text that `json_escape` has room for. -/
def Part (outsz : Nat) (s p : List UInt8) : Prop :=
  p <+: s ∧ (p = s ↔ s = [] ∨ (escaped s.dropLast).length + 7 < outsz)

theorem jsonEscape_part (s : List UInt8) (outsz : Nat) :
    ∃ p, Part outsz (cString s) p ∧ jsonEscape s outsz = escaped p := by
  obtain ⟨p, hp, hloop, hall⟩ := jsonEscapeLoop_eq outsz (cString s) 0
  rw [Nat.zero_add] at hall
  exact ⟨p, ⟨hp, hall⟩, hloop⟩

/-- Names are spelled without escapes. -/
theorem spells_user {u : List UInt8} (hu : ∀ b ∈ u, isUserByte b = true) : Json.Spells u u := by
  have hspells := spells_escaped u
  rwa [escaped_user hu] at hspells

/-- A room as a client reads it. -/
def roomObject (id : Int) (name : List UInt8) : Json :=
  .obj [(ascii "id", .num id 0), (ascii "name", .str name)]

theorem roomJson_item {r : ChatRoom} (hr : RoomListed r) :
    ∃ p, Part 64 (cString r.name) p ∧ Json.Item 3 (roomJsonText r) (roomObject r.id p)
      ∧ (roomJsonText r).length ≤ 100 ∧ (0 : UInt8) ∉ roomJsonText r := by
  obtain ⟨p, hp, hescape⟩ := jsonEscape_part r.name 64
  obtain ⟨-, -, -, hlen⟩ := jsonEscape_spec r.name (by decide : 2 ≤ 64)
  have htext : roomJsonText r = Json.writeObject [⟨ascii "id", longText r.id, .num r.id 0⟩,
      ⟨ascii "name", 34 :: jsonEscape r.name 64 ++ [34], .str p⟩] := by
    have h1 : ascii "\x7b\"id\":" = [123, 34, 105, 100, 34, 58] := rfl
    have h2 : ascii ",\"name\":\"" = [44, 34, 110, 97, 109, 101, 34, 58, 34] := rfl
    have h3 : ascii "\"\x7d" = [34, 125] := rfl
    have k1 : ascii "id" = [105, 100] := rfl
    have k2 : ascii "name" = [110, 97, 109, 101] := rfl
    simp [roomJsonText, Json.writeObject, Json.writeMembers, Json.Member.write, h1, h2, h3, k1, k2,
      chatNameMax]
  have hok : ∀ m ∈ ([⟨ascii "id", longText r.id, .num r.id 0⟩,
      ⟨ascii "name", 34 :: jsonEscape r.name 64 ++ [34], .str p⟩] : List Json.Member), m.Ok := by
    intro m hm
    simp only [List.mem_cons, List.not_mem_nil, or_false] at hm
    rcases hm with rfl | rfl
    · exact ⟨@spells_user (ascii "id") (by decide +kernel), reads_longText hr.1⟩
    · refine ⟨@spells_user (ascii "name") (by decide +kernel), Json.reads_string ?_⟩
      rw [hescape]
      exact spells_escaped p
  refine ⟨p, hp, ?_, ?_, ?_⟩
  · have hlong := Json.length_lt_writeObject (List.cons_ne_nil _ _ : ([⟨ascii "id", longText r.id,
      .num r.id 0⟩, ⟨ascii "name", 34 :: jsonEscape r.name 64 ++ [34], .str p⟩] : List Json.Member) ≠ [])
    rw [htext]
    exact ⟨Json.readsWithin_object (List.cons_ne_nil _ _) hok, hlong, 123, _, rfl, by decide, by decide⟩
  · have hid := longText_length hr.1 hr.2
    have hlits : (ascii "\x7b\"id\":").length + (ascii ",\"name\":\"").length + (ascii "\"\x7d").length
        = 17 := by decide +kernel
    have hname : (jsonEscape r.name (chatNameMax * 2)).length + 2 ≤ 64 := hlen
    unfold roomJsonText
    simp only [List.length_append]
    omega
  · unfold roomJsonText
    simp only [List.mem_append, not_or]
    exact ⟨⟨⟨⟨by decide +kernel, longText_noNul hr.1⟩, by decide +kernel⟩,
      noNul_of_visible (jsonEscape_noControl r.name (by decide))⟩, by decide +kernel⟩

theorem userJson_item {u : List UInt8} (hu : UserClean u) :
    Json.Item 1 (userJsonText u) (.str u) ∧ (userJsonText u).length ≤ 33
      ∧ (0 : UInt8) ∉ userJsonText u := by
  have htext : userJsonText u = 34 :: u ++ [34] := by
    have hquote : ascii "\"" = [34] := rfl
    unfold userJsonText
    rw [hquote, show chatUserMax * 2 = 64 from rfl, jsonEscape_user hu]
    rfl
  have hlen := hu.length_le
  rw [htext]
  refine ⟨Json.item_string (spells_user hu.bytes), ?_, ?_⟩
  · simp only [List.cons_append, List.length_cons, List.length_append, List.length_nil]
    omega
  · intro h0
    simp only [List.cons_append, List.mem_cons, List.mem_append, List.not_mem_nil, or_false] at h0
    rcases h0 with h0 | h0 | h0
    · exact absurd h0 (by decide)
    · exact absurd (hu.bytes 0 h0) (by decide)
    · exact absurd h0 (by decide)

/-- What a client takes the body of a response for. -/
def ResponseBody.Read : ResponseBody → List UInt8 → Prop
  | .text t, out => out = ascii t
  | .file bytes, out => out = bytes
  | .rooms rs, out => ∃ vs, Json.parse out = some (.arr vs)
      ∧ List.Forall₂ (fun r v => ∃ p, Part 64 (cString r.name) p ∧ v = roomObject r.id p) rs vs
  | .messages msgs, out => ∃ vs, Json.parse out = some (.arr vs)
      ∧ List.Forall₂ (fun m v => ∃ p, Part 1024 m.body p ∧ v = msgObject m.id m.user m.ts p) msgs vs
  | .posted id, out => Json.parse out = some (.obj [(ascii "id", .num id 0)])
  | .users names, out => Json.parse out
      = some (.obj [(ascii "count", .num names.length 0), (ascii "users", .arr (names.map .str))])
  | .stream, _ => False

/-- What the buffers are sized for. -/
def ResponseBody.Proper : ResponseBody → Prop
  | .text t => (ascii t).length ≤ 64
  | .file bytes => bytes.length ≤ 262144
  | .rooms rs => rs.length ≤ 8 ∧ ∀ r ∈ rs, RoomListed r
  | .messages msgs => msgs.length ≤ 100 ∧ ∀ m ∈ msgs, Stored m
  | .posted id => 0 ≤ id ∧ id ≤ longMax
  | .users names => names.length ≤ 64 ∧ ∀ u ∈ names, UserClean u
  | .stream => True

theorem roomsArray_read {rs : List ChatRoom} (hlen : rs.length ≤ 8) (hrs : ∀ r ∈ rs, RoomListed r)
    {mem : List UInt8} (hmem : mem.length = 2048) :
    ∃ b, roomsArray mem rs = some b ∧ (ResponseBody.rooms rs).Read (cString b.mem)
      ∧ (cString b.mem).length ≤ 2048 := by
  have hitems : ∃ vs, List.Forall₂ (Json.Item 3) (rs.map roomJsonText) vs
      ∧ List.Forall₂ (fun r v => ∃ p, Part 64 (cString r.name) p ∧ v = roomObject r.id p) rs vs := by
    clear hlen
    induction rs with
    | nil => exact ⟨[], .nil, .nil⟩
    | cons r rs ih =>
      obtain ⟨vs, hvs, hread⟩ := ih fun x hx => hrs x (List.mem_cons_of_mem _ hx)
      obtain ⟨p, hp, hitem, -, -⟩ := roomJson_item (hrs r List.mem_cons_self)
      exact ⟨roomObject r.id p :: vs, .cons hitem hvs, .cons ⟨p, hp, rfl⟩ hread⟩
  obtain ⟨vs, hvs, hread⟩ := hitems
  have hts : ∀ t ∈ rs.map roomJsonText, t.length ≤ 100 ∧ (0 : UInt8) ∉ t := by
    intro t ht
    obtain ⟨r, hr, rfl⟩ := List.mem_map.mp ht
    obtain ⟨-, -, -, hsize, hnul⟩ := roomJson_item (hrs r hr)
    exact ⟨hsize, hnul⟩
  have hopen : (ascii "[").length = 1 := rfl
  have hclose : (ascii "]").length = 1 := rfl
  obtain ⟨b, hb, -, htext⟩ := @printList_printed mem (ascii "[") (ascii "]") _ 100 hts (by decide)
    (by decide) (by rw [List.length_map]; omega) (by rw [hmem]; decide)
  have hsize := Json.length_writeItems_le fun t ht => (hts t ht).1
  refine ⟨b, hb, ⟨vs, ?_, hread⟩, ?_⟩
  · rw [htext]
    exact Json.parse_array hvs
  · rw [htext, List.length_append, List.length_append]
    rw [List.length_map] at hsize
    omega

theorem messagesArray_read {msgs : List ChatMsg} (hlen : msgs.length ≤ 100)
    (hmsgs : ∀ m ∈ msgs, Stored m) {mem : List UInt8} (hmem : mem.length = messagesCap msgs.length) :
    ∃ b, messagesArray mem msgs = some b ∧ (ResponseBody.messages msgs).Read (cString b.mem)
      ∧ (cString b.mem).length ≤ 262144 := by
  have hitems : ∃ vs, List.Forall₂ (Json.Item 5) (msgs.map msgJsonText) vs
      ∧ List.Forall₂ (fun m v => ∃ p, Part 1024 m.body p ∧ v = msgObject m.id m.user m.ts p) msgs vs := by
    clear hlen hmem
    induction msgs with
    | nil => exact ⟨[], .nil, .nil⟩
    | cons m ms ih =>
      obtain ⟨vs, hvs, hread⟩ := ih fun x hx => hmsgs x (List.mem_cons_of_mem _ hx)
      have hm := hmsgs m List.mem_cons_self
      obtain ⟨p, hp, hbody⟩ := jsonEscape_part m.body 1024
      rw [cString_printable hm.body.bytes] at hp
      have hok := msgMembers_ok hm.user (Int.le_of_lt hm.id.1) hm.ts.1 hbody
      have hlong := @Json.length_lt_writeObject (msgMembers m p) (by simp [msgMembers])
      have hitem : Json.Item 5 (msgJsonText m) (msgObject m.id m.user m.ts p) := by
        rw [msgJsonText_eq m p]
        exact ⟨Json.readsWithin_object (by simp [msgMembers]) hok, hlong, 123, _, rfl, by decide,
          by decide⟩
      exact ⟨msgObject m.id m.user m.ts p :: vs, .cons hitem hvs, .cons ⟨p, hp, rfl⟩ hread⟩
  obtain ⟨vs, hvs, hread⟩ := hitems
  obtain ⟨b, hb, -, htext⟩ := messagesArray_printed hlen hmsgs hmem
  have hsize : (Json.writeItems (msgs.map msgJsonText)).length ≤ (msgs.map msgJsonText).length * (1152 + 1) := by
    apply Json.length_writeItems_le
    intro t ht
    obtain ⟨m, hm, rfl⟩ := List.mem_map.mp ht
    exact Nat.le_of_lt (msgJsonText_length (hmsgs m hm))
  refine ⟨b, hb, ⟨vs, ?_, hread⟩, ?_⟩
  · rw [htext]
    exact Json.parse_array hvs
  · rw [htext]
    unfold Json.writeArray
    rw [List.length_append, List.length_cons, List.length_singleton]
    rw [List.length_map] at hsize
    omega

theorem usersObject_read {names : List (List UInt8)} (hlen : names.length ≤ 64)
    (hnames : ∀ u ∈ names, UserClean u) {mem : List UInt8} (hmem : mem.length = usersCap) :
    ∃ b, usersObject mem names = some b ∧ (ResponseBody.users names).Read (cString b.mem)
      ∧ (cString b.mem).length ≤ usersCap := by
  have hvs : List.Forall₂ (Json.Item 1) (names.map userJsonText) (names.map .str) := by
    rw [List.forall₂_map_left_iff, List.forall₂_map_right_iff, List.forall₂_same]
    exact fun u hu => (userJson_item (hnames u hu)).1
  have hts : ∀ t ∈ names.map userJsonText, t.length ≤ 33 ∧ (0 : UInt8) ∉ t := by
    intro t ht
    obtain ⟨u, hu, rfl⟩ := List.mem_map.mp ht
    exact (userJson_item (hnames u hu)).2
  have hcount : (decimal names.length).length ≤ 2 := decimal_length (by decide) (by omega)
  have hnul : (0 : UInt8) ∉ decimal names.length := by
    intro h0
    exact absurd (decimal_digits _ 0 h0) (by decide)
  have hopen : (ascii "\x7b\"count\":" ++ decimal names.length ++ ascii ",\"users\":[").length ≤ 21 := by
    have hlits : (ascii "\x7b\"count\":").length + (ascii ",\"users\":[").length = 19 := by
      decide +kernel
    rw [List.length_append, List.length_append]
    omega
  have hclose : (ascii "]\x7d").length = 2 := by decide +kernel
  have hcap : usersCap = 4416 := rfl
  have hroom : (ascii "\x7b\"count\":" ++ decimal names.length ++ ascii ",\"users\":[").length
      + (names.map userJsonText).length * (33 + 1) + (ascii "]\x7d").length < mem.length := by
    rw [List.length_map]
    omega
  obtain ⟨b, hb, -, htext⟩ := @printList_printed mem
    (ascii "\x7b\"count\":" ++ decimal names.length ++ ascii ",\"users\":[") (ascii "]\x7d")
    (names.map userJsonText) 33 hts
    (by
      simp only [List.mem_append, not_or]
      exact ⟨⟨by decide +kernel, hnul⟩, by decide +kernel⟩)
    (by decide +kernel) hroom (by rw [hmem]; decide)
  have hsize := Json.length_writeItems_le fun t ht => (hts t ht).1
  refine ⟨b, hb, ?_, ?_⟩
  · have hpair := @Json.parse_pair ⟨ascii "count", decimal names.length, .num names.length 0⟩
      ⟨@spells_user (ascii "count") (by decide +kernel), ?_⟩ (ascii "users") (Json.writeArray (names.map userJsonText))
      (.arr (names.map .str)) _ (spells_user (by decide +kernel)) (Json.readsWithin_array hvs) ?_
    · have htext' : cString b.mem = 123 :: ((Json.Member.mk (ascii "count") (decimal names.length)
          (.num names.length 0)).write ++ 44 :: (34 :: ascii "users" ++ 34 :: 58 ::
            (Json.writeArray (names.map userJsonText) ++ [125]))) := by
        have h1 : ascii "\x7b\"count\":" = 123 :: 34 :: (ascii "count" ++ [34, 58]) := by decide +kernel
        have h2 : ascii ",\"users\":[" = 44 :: 34 :: (ascii "users" ++ [34, 58, 91]) := by
          decide +kernel
        have h3 : ascii "]\x7d" = [93, 125] := by decide +kernel
        rw [htext, h1, h2, h3]
        simp [Json.Member.write, Json.writeArray]
      show Json.parse (cString b.mem) = _
      rw [htext', hpair]
    · have hreads := Json.reads_numeral (decimal_numeral names.length)
      rw [decimalValue_decimal] at hreads
      exact hreads
    · by_cases hne : names = []
      · rw [hne]
        decide
      · exact Json.length_le_writeArray (by simpa using hne) hvs
  · rw [htext, List.length_append, List.length_append]
    rw [List.length_append, List.length_append] at hroom
    omega

/-- **The text of every answer fits its buffer and is read back.** -/
theorem ResponseBody.printed_read {body : ResponseBody} (h : body.Proper) (hne : body ≠ .stream)
    {mem : Nat → List UInt8} (hmem : ∀ n, (mem n).length = n) :
    ∃ out, body.printed mem = some out ∧ body.Read out ∧ out.length ≤ 262144 := by
  cases body with
  | text t =>
    refine ⟨ascii t, rfl, rfl, ?_⟩
    have hlen : (ascii t).length ≤ 64 := h
    omega
  | file bytes => exact ⟨bytes, rfl, rfl, h⟩
  | rooms rs =>
    obtain ⟨b, hb, hread, hlen⟩ := roomsArray_read h.1 h.2 (hmem 2048)
    exact ⟨cString b.mem, by rw [ResponseBody.printed, hb]; rfl, hread, by omega⟩
  | messages msgs =>
    obtain ⟨b, hb, hread, hlen⟩ := messagesArray_read h.1 h.2 (hmem (messagesCap msgs.length))
    exact ⟨cString b.mem, by rw [ResponseBody.printed, hb]; rfl, hread, hlen⟩
  | users names =>
    obtain ⟨b, hb, hread, hlen⟩ := usersObject_read h.1 h.2 (hmem usersCap)
    have hcap : usersCap = 4416 := rfl
    exact ⟨cString b.mem, by rw [ResponseBody.printed, hb]; rfl, hread, by omega⟩
  | posted id =>
    have hlits : (ascii "\x7b\"id\":").length + (ascii "\x7d").length = 7 := by decide +kernel
    have hid := longText_length h.1 h.2
    have hlen : (ascii "\x7b\"id\":" ++ longText id ++ ascii "\x7d").length ≤ 26 := by
      rw [List.length_append, List.length_append]
      omega
    have hnul : (0 : UInt8) ∉ ascii "\x7b\"id\":" ++ longText id ++ ascii "\x7d" := by
      simp only [List.mem_append, not_or]
      exact ⟨⟨by decide +kernel, longText_noNul h.1⟩, by decide +kernel⟩
    have htext : ascii "\x7b\"id\":" ++ longText id ++ ascii "\x7d"
        = Json.writeObject [⟨ascii "id", longText id, .num id 0⟩] := by
      have h1 : ascii "\x7b\"id\":" = 123 :: 34 :: (ascii "id" ++ [34, 58]) := by decide +kernel
      have h2 : ascii "\x7d" = [125] := by decide +kernel
      rw [h1, h2]
      simp [Json.writeObject, Json.writeMembers, Json.Member.write]
    refine ⟨_, rfl, ?_, ?_⟩
    · rw [List.take_of_length_le (by omega), cString_of_notMem hnul, htext]
      apply Json.parse_object (List.cons_ne_nil _ _)
      intro m hm
      rw [List.mem_singleton.mp hm]
      exact ⟨@spells_user (ascii "id") (by decide +kernel), reads_longText h.1⟩
    · rw [List.take_of_length_le (by omega), cString_of_notMem hnul]
      omega
  | stream => exact absurd rfl hne

/-! ## §4. The answers of a run. -/

/-- A response the server can write. -/
structure Response.Proper (r : Response) : Prop where
  status : r.status ∈ statuses
  type : TypeName (ascii r.contentType)
  body : r.body.Proper

/-- A storage as the service keeps it, with the ids and times of SQLite. -/
structure Surroundings.Proper (out : Surroundings) : Prop where
  store : StoreClean out.db
  rows : ∀ m ∈ out.db.messages, (0 < m.id ∧ m.id ≤ longMax) ∧ 0 ≤ m.ts ∧ m.ts ≤ longMax
  inserted : out.inserted ≤ longMax

/-- What is looked at of a content type. -/
def typeTest (t : List UInt8) : Bool :=
  decide (t.length ≤ 64) && decide (10 ∉ t) && t.head?.all (fun b => b != 32 && b != 9)
    && t.getLast?.all (fun b => b != 32 && b != 9)

theorem typeName_of_test {t : List UInt8} (h : typeTest t = true) : TypeName t := by
  unfold typeTest at h
  simp only [Bool.and_eq_true, decide_eq_true_eq, Option.all_eq_true, bne_iff_ne] at h
  exact ⟨h.1.1.1, h.1.1.2, h.1.2, h.2⟩

theorem typeName_json : TypeName (ascii "application/json") := typeName_of_test (by decide)

theorem typeName_text : TypeName (ascii "text/plain; charset=utf-8") :=
  typeName_of_test (by decide)

namespace HttpConn

/-- One proper response more. -/
def Answers (c c' : HttpConn) : Prop := ∃ r : Response, c'.responses = c.responses ++ [r] ∧ r.Proper

theorem answers_json (c : HttpConn) {status : Nat} {body : ResponseBody} (hstatus : status ∈ statuses)
    (hbody : body.Proper) : c.Answers (c.httpRespondJson status body) :=
  ⟨_, rfl, hstatus, typeName_json, hbody⟩

theorem answers_text (c : HttpConn) {status : Nat} {text : String} (hstatus : status ∈ statuses)
    (htext : (ascii text).length ≤ 64) : c.Answers (c.httpRespondText status text) :=
  ⟨_, rfl, hstatus, typeName_text, htext⟩

theorem serveStatic_answers (c : HttpConn) (out : Surroundings) {name ctype : String}
    (hctype : TypeName (ascii ctype)) : c.Answers (c.serveStatic out name ctype) := by
  have hmissing : c.Answers (c.httpRespondText 404 "Not Found\n") :=
    c.answers_text (by decide) (by decide)
  have hoom : c.Answers (c.httpRespondText 500 "oom\n") := c.answers_text (by decide) (by decide)
  unfold serveStatic
  cases out.file name with
  | none => exact hmissing
  | some f =>
    dsimp only
    cases f.size with
    | none => exact hmissing
    | some size =>
      dsimp only
      cases f.content with
      | none => split_ifs <;> first | exact hmissing | exact hoom
      | some bytes =>
        dsimp only
        split_ifs with hsize hmemory hgot
        · exact hmissing
        · exact hoom
        · -- what was read is no more than the size that was checked
          refine ⟨_, rfl, (by decide : 200 ∈ statuses), hctype, ?_⟩
          show (bytes.take size.toNat).length ≤ 262144
          rw [List.length_take]
          omega
        · exact hmissing

theorem handleMessagesGet_answers (c : HttpConn) {out : Surroundings} (hout : out.Proper)
    (room : ChatRoom) (query : List UInt8) : c.Answers (c.handleMessagesGet out room query) := by
  unfold handleMessagesGet
  dsimp only
  split_ifs
  · exact c.answers_json (by decide) (show (ascii _).length ≤ 64 by decide)
  · refine c.answers_json (by decide) ⟨?_, ?_⟩
    · unfold NetServer.Chat.handleMessagesGet chatDbMessagesSince
      rw [List.length_map]
      exact List.length_take_le _ _
    · intro m hm
      unfold NetServer.Chat.handleMessagesGet chatDbMessagesSince at hm
      obtain ⟨row, hrow, rfl⟩ := List.mem_map.mp hm
      have hmem : row ∈ out.db.messages := by
        have hsorted := List.mem_of_mem_take (List.mem_of_mem_take hrow)
        unfold OrderedLog.sortAsc at hsorted
        rw [List.mem_insertionSort] at hsorted
        exact List.mem_of_mem_filter hsorted
      obtain ⟨hu, hb⟩ := hout.store.messages row hmem
      obtain ⟨hid, hts⟩ := hout.rows row hmem
      obtain ⟨huser, hbody⟩ := rowToMsg_clean hu hb
      exact ⟨huser, hbody, hid, hts⟩

theorem handleMessagesPost_answers (c : HttpConn) {out : Surroundings} (hout : out.Proper)
    (reqBody : List UInt8) : c.Answers (c.handleMessagesPost out reqBody) := by
  unfold handleMessagesPost
  dsimp only
  split_ifs with hempty hid
  · exact c.answers_json (by decide) (show (ascii _).length ≤ 64 by decide)
  · exact c.answers_json (by decide) (show (ascii _).length ≤ 64 by decide)
  · refine c.answers_json (by decide) ⟨Int.not_lt.mp hid, ?_⟩
    unfold chatRoomPostValue
    split_ifs
    · decide
    · exact hout.inserted

theorem handleUsers_answers (c : HttpConn) {out : Surroundings} (hout : out.Proper)
    (room : ChatRoom) : c.Answers (c.handleUsers out room) := by
  refine c.answers_json (by decide) ⟨(users_clean hout.store room.id out.now 64).2, ?_⟩
  intro u hu
  unfold chatRoomUsers chatDbActiveUsers at hu
  obtain ⟨name, hname, rfl⟩ := List.mem_map.mp hu
  have hsorted := List.mem_of_mem_take hname
  rw [List.mem_insertionSort] at hsorted
  obtain ⟨p, hp, rfl⟩ := List.mem_map.mp hsorted
  have hclean := hout.store.presence p (List.mem_of_mem_filter hp)
  have hwhole : p.user.take (chatUserMax - 1) = p.user := List.take_of_length_le hclean.length_le
  rw [cString_of_printable hclean.printable, hwhole]
  exact hclean

end HttpConn

/-- What the router hands to `http_respond` itself. -/
def Route.Proper : Route → Prop
  | .static _ ctype => TypeName (ascii ctype)
  | .json status body => status ∈ statuses ∧ (ascii body).length ≤ 64
  | .text status body => status ∈ statuses ∧ (ascii body).length ≤ 64
  | .health | .rooms | .room _ _ => True

theorem dispatchEvents_proper (reg : RoomRegistry) (method : HttpMethod) (path : List UInt8) :
    (dispatchEvents reg method path).Proper := by
  unfold dispatchEvents
  split_ifs
  · cases chatRoomById reg (strtol (path.drop eventsPath.length)) with
    | none => exact ⟨by decide, by decide⟩
    | some r => exact trivial
  · exact ⟨by decide, by decide⟩

theorem dispatchRoom_proper (reg : RoomRegistry) (method : HttpMethod) (path : List UInt8) :
    (dispatchRoom reg method path).Proper := by
  unfold dispatchRoom
  cases matchRoomSub path with
  | none => exact dispatchEvents_proper reg method path
  | some found =>
    obtain ⟨id, sub⟩ := found
    dsimp only
    cases chatRoomById reg id with
    | none => exact ⟨by decide, by decide⟩
    | some r =>
      dsimp only
      unfold dispatchSub
      split_ifs
      · exact trivial
      · exact trivial
      · exact ⟨by decide, by decide⟩
      · exact trivial
      · exact dispatchEvents_proper reg method path

theorem route_proper (reg : RoomRegistry) (method : HttpMethod) (path : List UInt8) :
    (httpDispatch reg method path).Proper := by
  unfold httpDispatch
  split_ifs
  · exact typeName_of_test (by decide)
  · exact typeName_of_test (by decide)
  · exact trivial
  · exact trivial
  · exact dispatchRoom_proper reg method (cString path)

/-- **Every way through the router and its handlers** sends a response that fits. -/
theorem HttpConn.httpDispatch_answers (c : HttpConn) {reg : RoomRegistry}
    (hreg : ∀ r ∈ reg.rooms, 0 ≤ r.id) {out : Surroundings} (hout : out.Proper) (req : HttpRequest)
    (reqBody : List UInt8) : c.Answers (c.httpDispatch reg out req reqBody).1 := by
  have hroute := route_proper reg req.method req.path
  unfold HttpConn.httpDispatch
  cases hcase : NetServer.Chat.httpDispatch reg req.method req.path with
  | static name ctype =>
    rw [hcase] at hroute
    exact c.serveStatic_answers out hroute
  | health => exact c.answers_json (by decide) (show (ascii _).length ≤ 64 by decide)
  | rooms => exact c.answers_json (by decide) ⟨reg.bounded, fun r hr => ⟨hreg r hr, (reg.isLong r hr).2⟩⟩
  | json status body =>
    rw [hcase] at hroute
    exact c.answers_json hroute.1 hroute.2
  | text status body =>
    rw [hcase] at hroute
    exact c.answers_text hroute.1 hroute.2
  | room h r =>
    cases h with
    | messagesGet => exact c.handleMessagesGet_answers hout r req.query
    | messagesPost => exact c.handleMessagesPost_answers hout reqBody
    | users => exact c.handleUsers_answers hout r
    | events => exact ⟨_, rfl, by decide, typeName_of_test (by decide), trivial⟩

/-- The reader's answers are three. -/
theorem readResponses_proper {sts : List Nat} (h : ∀ status ∈ sts, status ∈ statuses) :
    ∀ c : HttpConn, (∀ r ∈ c.responses, r.Proper) → ∀ r ∈ (c.readResponses sts).responses, r.Proper := by
  induction sts with
  | nil => exact fun c hc => hc
  | cons status sts ih =>
    intro c hc
    apply ih (fun x hx => h x (List.mem_cons_of_mem _ hx))
    intro r hr
    rcases List.mem_append.mp hr with hr | hr
    · exact hc r hr
    · rw [List.mem_singleton.mp hr]
      refine ⟨h status List.mem_cons_self, typeName_text, ?_⟩
      show (ascii (readErrorText status)).length ≤ 64
      unfold readErrorText
      split_ifs <;> decide

theorem round_statuses (bufsz : Nat) (st : ReadState) (o : RecvOutcome) :
    ∀ status ∈ (readRequestStep bufsz st o).1.responses.drop st.responses.length, status ∈ statuses := by
  have hends := readRequestStep_ends bufsz st o
  cases hend : readEnd bufsz st o with
  | none =>
    rw [hend] at hends
    rw [hends.2, List.drop_length]
    exact fun _ h => absurd h List.not_mem_nil
  | some e =>
    rw [hend] at hends
    rw [hends.2, List.drop_left]
    cases e <;> decide

/-- What `http_dispatch` finds is proper. -/
def RunInput.Proper : RunInput → Prop
  | .dispatch out => out.Proper
  | .round _ | .stream _ _ _ _ | .finish => True

theorem proper_step {reg : RoomRegistry} (hreg : ∀ r ∈ reg.rooms, 0 ≤ r.id) {s s' : HttpRun}
    {input : RunInput} (hinput : input.Proper) (h : ∀ r ∈ s.conn.responses, r.Proper)
    (hstep : httpRunStep reg s input = some s') : ∀ r ∈ s'.conn.responses, r.Proper := by
  unfold httpRunStep at hstep
  split at hstep
  · rename_i st o hphase
    obtain rfl := Option.some.inj hstep
    exact readResponses_proper (round_statuses httpRecvMax st o) s.conn h
  · rename_i st out hphase
    obtain rfl := Option.some.inj hstep
    obtain ⟨r, hr, hproper⟩ := s.conn.httpDispatch_answers hreg hinput st.req (st.req.bodyBytes st.buf)
    intro r' hr'
    have hmem : r' ∈ s.conn.responses ++ [r] := by
      rw [← hr]
      exact hr'
    rcases List.mem_append.mp hmem with hold | hnew
    · exact h r' hold
    · rw [List.mem_singleton.mp hnew]
      exact hproper
  · obtain ⟨res, -, rfl⟩ := Option.map_eq_some_iff.mp hstep
    exact h
  · obtain rfl := Option.some.inj hstep
    intro r hr
    unfold HttpRun.finish at hr
    dsimp only at hr
    split_ifs at hr
    · exact h r hr
    · rcases List.mem_append.mp hr with hr | hr
      · exact h r hr
      · rw [List.mem_singleton.mp hr]
        exact ⟨by decide, typeName_text, show (ascii _).length ≤ 64 by decide⟩
  · cases hstep

/-! ## §5. At the client. -/

/-- The kernel takes each buffer in pieces. -/
def inPieces (ps : List (List UInt8)) : List SendOutcome := ps.map fun p => .accepted p.length

theorem sendAll_inPieces (outs : List SendOutcome) :
    ∀ {ps : List (List UInt8)}, (∀ p ∈ ps, p ≠ []) →
      sendAll (inPieces ps ++ outs) ps.flatten = some ⟨ps.flatten, true, outs⟩
  | [], _ => by
    unfold sendAll
    cases outs <;> rfl
  | p :: ps, h => by
    obtain ⟨b, p', rfl⟩ := List.exists_cons_of_ne_nil (h p List.mem_cons_self)
    have htail := sendAll_inPieces outs fun q hq => h q (List.mem_cons_of_mem _ hq)
    have hstep : sendAll (inPieces ((b :: p') :: ps) ++ outs) ((b :: p') :: ps).flatten
        = (sendAll (inPieces ps ++ outs) (((b :: p') ++ ps.flatten).drop (b :: p').length)).map
          (Sent.after (((b :: p') ++ ps.flatten).take (b :: p').length)) := by
      show (if (b :: p').length ≤ (b :: (p' ++ ps.flatten)).length then _ else none) = _
      rw [if_pos (by simp)]
      rfl
    rw [hstep, List.drop_left, List.take_left, htail]
    rfl

/-- A test for what `http_dispatch` finds. -/
def RunInput.plain : RunInput → Bool
  | .dispatch out => out.db.messages.isEmpty && out.db.presence.isEmpty && decide (out.inserted ≤ longMax)
  | .round _ | .stream _ _ _ _ | .finish => true

theorem RunInput.plain_proper {input : RunInput} (h : input.plain = true) : input.Proper := by
  cases input with
  | dispatch out =>
    unfold RunInput.plain at h
    simp only [Bool.and_eq_true, List.isEmpty_iff, decide_eq_true_eq] at h
    obtain ⟨⟨hmessages, hpresence⟩, hinserted⟩ := h
    refine ⟨⟨?_, ?_⟩, ?_, hinserted⟩
    · rw [hmessages]
      exact fun _ hm => absurd hm List.not_mem_nil
    · rw [hpresence]
      exact fun _ hm => absurd hm List.not_mem_nil
    · rw [hmessages]
      exact fun _ hm => absurd hm List.not_mem_nil
  | round o => exact trivial
  | stream sh bytes shutdown choice => exact trivial
  | finish => exact trivial

end NetServer.Chat
