/-
  NetServer.Chat.Json — how `features/chat/http_chat.c` writes a message.

  `msg_to_json` escapes the two texts into buffers of twice their fields and
  prints the object into the caller's buffer.  `json_escape` stops when fewer
  than eight bytes of its buffer are left, whatever the next byte needs.

  Main results:
    • `jsonEscapeLoop_eq` — a prefix of the text, escaped; and when it is all of it;
    • `parse_msgToJson` — the object read back has that prefix as its body;
    • `msgToJson_roundTrip_iff` — when the message itself is read back.
-/
import NetServer.Chat.Screen
import NetServer.Lib.Json

namespace NetServer.Chat

open NetServer.Lib

/-! ## §1. The writer. -/

/-- A digit of `%x`. -/
def hexChar (n : Nat) : UInt8 := UInt8.ofNat (if n < 10 then 48 + n else 87 + n)

/-- What `json_escape` writes for one byte. -/
def escByte (ch : UInt8) : List UInt8 :=
  if ch = 34 then [92, 34]
  else if ch = 92 then [92, 92]
  else if ch = 10 then [92, 110]
  else if ch = 13 then [92, 114]
  else if ch = 9 then [92, 116]
  else if ch < 32 then [92, 117, 48, 48, hexChar (ch.toNat / 16), hexChar (ch.toNat % 16)]
  else [ch]

/-- The loop of `json_escape` with `o` bytes written. -/
def jsonEscapeLoop (outsz : Nat) : List UInt8 → Nat → List UInt8
  | [], _ => []
  | ch :: s, o =>
      if o + 7 < outsz then escByte ch ++ jsonEscapeLoop outsz s (o + (escByte ch).length) else []

/-- `json_escape`. -/
def jsonEscape (s : List UInt8) (outsz : Nat) : List UInt8 := jsonEscapeLoop outsz (cString s) 0

/-- `%ld`. -/
def longText (n : Int) : List UInt8 := if n < 0 then 45 :: decimal n.natAbs else decimal n.toNat

def msgJsonTemplate : List (Seg UInt8) :=
  [.lit (ascii "\x7b\"id\":"), .arg, .lit (ascii ",\"user\":\""), .arg, .lit (ascii "\",\"ts\":"),
    .arg, .lit (ascii ",\"body\":\""), .arg, .lit (ascii "\"\x7d")]

/-- The object `msg_to_json` prints; its length is what it returns. -/
def msgJsonText (m : ChatMsg) : List UInt8 :=
  fill msgJsonTemplate
    [longText m.id, jsonEscape m.user (chatUserMax * 2), longText m.ts,
      jsonEscape m.body (chatBodyMax * 2)]

/-- `msg_to_json`: what is in the buffer of `outsz` bytes afterwards. -/
def msgToJson (m : ChatMsg) (outsz : Nat) : List UInt8 := (msgJsonText m).take (outsz - 1)

/-- The buffer of a frame in `handle_sse`. -/
def sseFrameMax : Nat := chatBodyMax * 2 + 128

/-- The object a message should be read back as. -/
def msgObject (id : Int) (user : List UInt8) (ts : Int) (body : List UInt8) : Json :=
  .obj [(ascii "id", .num id 0), (ascii "user", .str user), (ascii "ts", .num ts 0),
    (ascii "body", .str body)]

/-! ## §2. Escaping. -/

/-- The bytes a text takes when it is escaped in full. -/
def escaped (s : List UInt8) : List UInt8 := s.flatMap escByte

/-- The loop escapes a prefix of the text: all of it, if the bytes before the
last one leave eight bytes of the buffer. -/
theorem jsonEscapeLoop_eq (outsz : Nat) :
    ∀ (s : List UInt8) (o : Nat), ∃ p, p <+: s ∧ jsonEscapeLoop outsz s o = escaped p
      ∧ (p = s ↔ s = [] ∨ o + (escaped s.dropLast).length + 7 < outsz)
  | [], o => ⟨[], List.prefix_rfl, rfl, by simp⟩
  | [ch], o => by
      by_cases ho : o + 7 < outsz
      · refine ⟨[ch], List.prefix_rfl, ?_, ?_⟩
        · rw [jsonEscapeLoop, if_pos ho]
          rfl
        · simpa [escaped] using ho
      · refine ⟨[], List.nil_prefix, ?_, ?_⟩
        · rw [jsonEscapeLoop, if_neg ho]
          rfl
        · simpa [escaped] using ho
  | ch :: ch' :: s, o => by
      by_cases ho : o + 7 < outsz
      · obtain ⟨p, hp, hloop, hall⟩ := jsonEscapeLoop_eq outsz (ch' :: s) (o + (escByte ch).length)
        refine ⟨ch :: p, (List.prefix_cons_inj ch).mpr hp, ?_, ?_⟩
        · rw [jsonEscapeLoop, if_pos ho, hloop]
          rfl
        · have hlast : escaped (ch :: ch' :: s).dropLast
              = escByte ch ++ escaped (ch' :: s).dropLast := rfl
          rw [List.cons_inj_right, hall, hlast, List.length_append]
          simp only [reduceCtorEq, false_or]
          omega
      · refine ⟨[], List.nil_prefix, ?_, ?_⟩
        · rw [jsonEscapeLoop, if_neg ho]
          rfl
        · simp only [List.nil_eq, reduceCtorEq, false_or, false_iff]
          omega

/-- Of the printable bytes only quotes and backslashes are escaped. -/
theorem escByte_printable {ch : UInt8} (h : isPrintable ch = true) :
    (ch = 34 ∧ escByte ch = [92, 34]) ∨ (ch = 92 ∧ escByte ch = [92, 92])
      ∨ (ch ≠ 34 ∧ ch ≠ 92 ∧ ¬ ch < 32 ∧ escByte ch = [ch]) := by
  by_cases h34 : ch = 34
  · subst h34
    exact Or.inl ⟨rfl, rfl⟩
  by_cases h92 : ch = 92
  · subst h92
    exact Or.inr (Or.inl ⟨rfl, rfl⟩)
  have hcontrol : ¬ ch < 32 := by
    unfold isPrintable at h
    rw [Bool.and_eq_true, decide_eq_true_eq] at h
    exact UInt8.not_lt.mpr h.1
  have hne : ∀ b : UInt8, b < 32 → ch ≠ b := by
    rintro b hb rfl
    exact hcontrol hb
  refine Or.inr (Or.inr ⟨h34, h92, hcontrol, ?_⟩)
  unfold escByte
  rw [if_neg h34, if_neg h92, if_neg (hne 10 (by decide)), if_neg (hne 13 (by decide)),
    if_neg (hne 9 (by decide)), if_neg hcontrol]

theorem escByte_length {ch : UInt8} (h : isPrintable ch = true) : (escByte ch).length ≤ 2 := by
  rcases escByte_printable h with ⟨-, he⟩ | ⟨-, he⟩ | ⟨-, -, -, he⟩ <;> simp [he]

/-- The longest escape is the six bytes of a code point. -/
theorem escByte_length_le (ch : UInt8) : (escByte ch).length ≤ 6 := by
  unfold escByte
  repeat' split
  all_goals simp

/-- Escapes of at most `k` bytes leave `8 - k` bytes of the buffer. -/
theorem jsonEscapeLoop_length {k : Nat} (hk : k ≤ 8) (outsz : Nat) (s : List UInt8)
    (hs : ∀ b ∈ s, (escByte b).length ≤ k) :
    ∀ o, o + (8 - k) ≤ outsz → o + (jsonEscapeLoop outsz s o).length + (8 - k) ≤ outsz := by
  induction s with
  | nil => intro o ho; exact ho
  | cons ch s ih =>
    intro o ho
    rw [jsonEscapeLoop]
    split
    · rename_i hroom
      have hch := hs ch List.mem_cons_self
      have htail := ih (fun b hb => hs b (List.mem_cons_of_mem _ hb)) (o + (escByte ch).length)
        (by omega)
      rw [List.length_append]
      omega
    · exact ho

/-- The code point of a control byte is read back. -/
theorem escapeSequence_control {ch : UInt8} (h : ch < 32) (p : List UInt8) :
    Json.escapeSequence
        ([117, 48, 48, hexChar (ch.toNat / 16), hexChar (ch.toNat % 16)] ++ p) = some ([ch], p) := by
  have hlt : ch.toNat < 32 := UInt8.lt_iff_toNat_lt.mp h
  have hhex : ∀ d : Fin 16, Json.hexDigit (hexChar d.val) = some d.val := by decide
  have hhi := hhex ⟨ch.toNat / 16, by omega⟩
  have hlo := hhex ⟨ch.toNat % 16, by omega⟩
  have hzero : Json.hexDigit 48 = some 0 := by decide
  have hunit : Json.hexUnit (48 :: 48 :: hexChar (ch.toNat / 16) :: hexChar (ch.toNat % 16) :: p)
      = some (ch.toNat, p) := by
    simp only [Json.hexUnit, hzero, hhi, hlo, Option.bind_eq_bind, Option.bind_some]
    congr 2
    omega
  show Json.unicodeEscape
    (48 :: 48 :: hexChar (ch.toNat / 16) :: hexChar (ch.toNat % 16) :: p) = some ([ch], p)
  rw [Json.unicodeEscape, hunit]
  dsimp only
  rw [if_neg (by omega), if_neg (by omega), Json.utf8, if_pos (by omega), UInt8.ofNat_toNat]

/-- What is written for a byte is read back as the byte. -/
theorem spells_escByte (ch : UInt8) {t s : List UInt8} (h : Json.Spells t s) :
    Json.Spells (escByte ch ++ t) (ch :: s) := by
  unfold escByte
  by_cases h34 : ch = 34
  · subst h34
    exact h.escaped rfl
  by_cases h92 : ch = 92
  · subst h92
    exact h.escaped rfl
  by_cases h10 : ch = 10
  · subst h10
    exact h.escaped rfl
  by_cases h13 : ch = 13
  · subst h13
    exact h.escaped rfl
  by_cases h9 : ch = 9
  · subst h9
    exact h.escaped rfl
  rw [if_neg h34, if_neg h92, if_neg h10, if_neg h13, if_neg h9]
  by_cases hcontrol : ch < 32
  · rw [if_pos hcontrol]
    exact h.sequence (escapeSequence_control hcontrol)
  · rw [if_neg hcontrol]
    exact h.plain h34 h92 hcontrol

theorem spells_escaped (s : List UInt8) : Json.Spells (escaped s) s := by
  induction s with
  | nil => exact Json.spells_nil
  | cons ch s ih => exact spells_escByte ch ih

/-- No control byte is written. -/
theorem escByte_visible (ch : UInt8) : ∀ b ∈ escByte ch, ¬ b < 32 := by
  have hall : ∀ n : Fin 256, (escByte (UInt8.ofNat n.val)).all (fun b => decide (32 ≤ b)) = true := by
    decide +kernel
  intro b hb
  have hch := hall ⟨ch.toNat, ch.toNat_lt⟩
  rw [UInt8.ofNat_toNat, List.all_eq_true] at hch
  exact UInt8.not_lt.mpr (of_decide_eq_true (hch b hb))

theorem escaped_visible {s : List UInt8} {b : UInt8} (hb : b ∈ escaped s) : ¬ b < 32 := by
  obtain ⟨ch, -, hch⟩ := List.mem_flatMap.mp hb
  exact escByte_visible ch b hch

/-- **Escaping into any buffer.**  A prefix of the text is written, escape by
escape, and at least two bytes of the buffer are left for the NUL. -/
theorem jsonEscape_spec (s : List UInt8) {outsz : Nat} (h : 2 ≤ outsz) :
    ∃ p, p <+: cString s ∧ jsonEscape s outsz = escaped p
      ∧ (jsonEscape s outsz).length + 2 ≤ outsz := by
  obtain ⟨p, hp, hloop, -⟩ := jsonEscapeLoop_eq outsz (cString s) 0
  have hlen := jsonEscapeLoop_length (k := 6) (by decide) outsz (cString s)
    (fun b _ => escByte_length_le b) 0 (by omega)
  rw [Nat.zero_add] at hlen
  exact ⟨p, hp, hloop, hlen⟩

/-! ## §3. Numbers. -/

theorem digit_toNat {d : Nat} (hd : d < 10) :
    (UInt8.ofNat (48 + d)).toNat = 48 + d ∧ isDigit (UInt8.ofNat (48 + d)) = true := by
  have hall : ∀ d : Fin 10, (UInt8.ofNat (48 + d.val)).toNat = 48 + d.val
      ∧ isDigit (UInt8.ofNat (48 + d.val)) = true := by decide
  exact hall ⟨d, hd⟩

theorem decimal_numeral (n : Nat) : Json.Numeral (decimal n) := by
  unfold decimal
  by_cases hn : n = 0
  · rw [if_pos hn]
    refine ⟨by simp, ?_, fun _ => rfl⟩
    intro b hb
    rw [List.mem_singleton.mp hb]
    rfl
  rw [if_neg hn]
  have hdigits : Nat.digits 10 n ≠ [] := Nat.digits_ne_nil_iff_ne_zero.mpr hn
  refine ⟨by simpa using hdigits, ?_, ?_⟩
  · intro b hb
    obtain ⟨d, hd, rfl⟩ := List.mem_map.mp hb
    exact (digit_toNat (Nat.digits_lt_base (by decide) (List.mem_reverse.mp hd))).2
  · -- the first digit is the last of `Nat.digits`, which is not zero
    intro hhead
    rw [List.head?_map, List.head?_reverse, List.getLast?_eq_some_getLast hdigits,
      Option.map_some, Option.some.injEq] at hhead
    have hlast := Nat.getLast_digit_ne_zero 10 hn
    have hlt := Nat.digits_lt_base (b := 10) (by decide) (List.getLast_mem hdigits)
    have hnat := (digit_toNat hlt).1
    rw [hhead] at hnat
    have h48 : (48 : UInt8).toNat = 48 := rfl
    omega

theorem decimalValue_decimal (n : Nat) : decimalValue (decimal n) = n := by
  unfold decimalValue decimal
  by_cases hn : n = 0
  · rw [if_pos hn, hn]
    rfl
  rw [if_neg hn, ← List.map_reverse, List.reverse_reverse, List.map_map]
  have hid : (Nat.digits 10 n).map ((fun d : UInt8 => d.toNat - 48) ∘ fun d => UInt8.ofNat (48 + d))
      = Nat.digits 10 n := by
    conv_rhs => rw [← List.map_id (Nat.digits 10 n)]
    apply List.map_congr_left
    intro d hd
    have hnat := (digit_toNat (Nat.digits_lt_base (by decide) hd)).1
    show (UInt8.ofNat (48 + d)).toNat - 48 = d
    omega
  rw [hid, Nat.ofDigits_digits]

/-- A number that is not negative is read back. -/
theorem reads_longText {n : Int} (hn : 0 ≤ n) : Json.Reads (longText n) (.num n 0) := by
  have hreads := Json.reads_numeral (decimal_numeral n.toNat)
  rw [decimalValue_decimal, Int.toNat_of_nonneg hn] at hreads
  unfold longText
  rw [if_neg (by omega)]
  exact hreads

theorem longText_length {n : Int} (hn : 0 ≤ n) (hmax : n ≤ longMax) : (longText n).length ≤ 19 := by
  unfold longText
  rw [if_neg (by omega)]
  apply decimal_length (by decide)
  unfold longMax at hmax
  omega

/-! ## §4. The object. -/

/-- The members of the printed object; `body` is what its last text spells. -/
def msgMembers (m : ChatMsg) (body : List UInt8) : List Json.Member :=
  [⟨ascii "id", longText m.id, .num m.id 0⟩,
    ⟨ascii "user", 34 :: jsonEscape m.user 64 ++ [34], .str m.user⟩,
    ⟨ascii "ts", longText m.ts, .num m.ts 0⟩,
    ⟨ascii "body", 34 :: jsonEscape m.body 1024 ++ [34], .str body⟩]

theorem msgJsonText_eq (m : ChatMsg) (body : List UInt8) :
    msgJsonText m = Json.writeObject (msgMembers m body) := by
  have h1 : ascii "\x7b\"id\":" = [123, 34, 105, 100, 34, 58] := rfl
  have h2 : ascii ",\"user\":\"" = [44, 34, 117, 115, 101, 114, 34, 58, 34] := rfl
  have h3 : ascii "\",\"ts\":" = [34, 44, 34, 116, 115, 34, 58] := rfl
  have h4 : ascii ",\"body\":\"" = [44, 34, 98, 111, 100, 121, 34, 58, 34] := rfl
  have h5 : ascii "\"\x7d" = [34, 125] := rfl
  have k1 : ascii "id" = [105, 100] := rfl
  have k2 : ascii "user" = [117, 115, 101, 114] := rfl
  have k3 : ascii "ts" = [116, 115] := rfl
  have k4 : ascii "body" = [98, 111, 100, 121] := rfl
  simp [msgJsonText, msgMembers, msgJsonTemplate, fill, Json.writeObject, Json.writeMembers, Json.Member.write,
    h1, h2, h3, h4, h5, k1, k2, k3, k4, chatUserMax, chatBodyMax]

theorem cString_printable {s : List UInt8} (hs : ∀ b ∈ s, isPrintable b = true) : cString s = s := by
  apply cString_of_notMem
  intro h0
  exact absurd (hs 0 h0) (by decide)

/-- Nothing in a user name is escaped. -/
theorem escaped_user {u : List UInt8} (hu : ∀ b ∈ u, isUserByte b = true) : escaped u = u := by
  induction u with
  | nil => rfl
  | cons b u ih =>
    have htail := ih fun x hx => hu x (List.mem_cons_of_mem _ hx)
    have hb := hu b List.mem_cons_self
    show escByte b ++ escaped u = b :: u
    rw [htail]
    rcases escByte_printable (isPrintable_of_isUserByte hb) with ⟨rfl, -⟩ | ⟨rfl, -⟩ | ⟨-, -, -, he⟩
    · exact absurd hb (by decide)
    · exact absurd hb (by decide)
    · rw [he]
      rfl

theorem jsonEscape_user {u : List UInt8} (hu : UserClean u) : jsonEscape u 64 = u := by
  have hprint : ∀ b ∈ u, isPrintable b = true := fun b hb => isPrintable_of_isUserByte (hu.bytes b hb)
  obtain ⟨p, -, hloop, hall⟩ := jsonEscapeLoop_eq 64 u 0
  have hlast : escaped u.dropLast = u.dropLast :=
    escaped_user fun b hb => hu.bytes b (List.dropLast_subset u hb)
  have hp : p = u := by
    apply hall.mpr
    have hlen := hu.length_le
    rw [hlast, List.length_dropLast]
    exact Or.inr (by omega)
  unfold jsonEscape
  rw [cString_printable hprint, hloop, hp, escaped_user hu.bytes]

/-- The escaped body: a prefix of the body, and the whole of it exactly when
everything before its last byte takes at most 1016 bytes. -/
theorem jsonEscape_body {b : List UInt8} (hb : BodyClean b) :
    ∃ p, p <+: b ∧ jsonEscape b 1024 = escaped p ∧ (p = b ↔ (escaped b.dropLast).length ≤ 1016) := by
  obtain ⟨p, hp, hloop, hall⟩ := jsonEscapeLoop_eq 1024 b 0
  refine ⟨p, hp, ?_, ?_⟩
  · unfold jsonEscape
    rw [cString_printable hb.bytes, hloop]
  · rw [hall, or_iff_right hb.nonempty]
    omega

/-- The object fits the buffer of a frame. -/
theorem msgJsonText_fits {m : ChatMsg} (hu : UserClean m.user) (hb : BodyClean m.body)
    (hid : 0 ≤ m.id ∧ m.id ≤ longMax) (hts : 0 ≤ m.ts ∧ m.ts ≤ longMax) :
    (msgJsonText m).length < sseFrameMax := by
  have hfill := length_fill_le msgJsonTemplate [longText m.id, jsonEscape m.user (chatUserMax * 2),
    longText m.ts, jsonEscape m.body (chatBodyMax * 2)]
  have hlit : (literals msgJsonTemplate).length = 33 := rfl
  have hargs : [longText m.id, jsonEscape m.user (chatUserMax * 2), longText m.ts,
      jsonEscape m.body (chatBodyMax * 2)].flatten.length
      = (longText m.id).length + ((jsonEscape m.user 64).length
        + ((longText m.ts).length + (jsonEscape m.body 1024).length)) := by
    simp [chatUserMax, chatBodyMax]
  have hbody := jsonEscapeLoop_length (k := 2) (by decide) 1024 m.body
    (fun b hb' => escByte_length (hb.bytes b hb')) 0 (by decide)
  rw [← cString_printable hb.bytes] at hbody
  have hbody : (jsonEscape m.body 1024).length + 6 ≤ 1024 := by
    rw [← Nat.zero_add (jsonEscape m.body 1024).length]
    exact hbody
  have hidlen := longText_length hid.1 hid.2
  have htslen := longText_length hts.1 hts.2
  have huser := hu.length_le
  rw [jsonEscape_user hu] at hargs
  have hmax : sseFrameMax = 1152 := rfl
  unfold msgJsonText
  omega

theorem msgObject_inj {id ts : Int} {user p q : List UInt8} :
    msgObject id user ts p = msgObject id user ts q ↔ p = q := by
  simp [msgObject]

/-- The members are read back, the body as far as it was escaped. -/
theorem msgMembers_ok {m : ChatMsg} (hu : UserClean m.user) (hid : 0 ≤ m.id) (hts : 0 ≤ m.ts)
    {p : List UInt8} (hbody : jsonEscape m.body 1024 = escaped p) : ∀ k ∈ msgMembers m p, k.Ok := by
  -- the names of the members are spelled like user names, without escapes
  have hkey : ∀ k, (∀ b ∈ k, isUserByte b = true) → Json.Spells k k := by
    intro k hk
    have hspells := spells_escaped k
    rwa [escaped_user hk] at hspells
  intro k hk
  simp only [msgMembers, List.mem_cons, List.not_mem_nil, or_false] at hk
  rcases hk with rfl | rfl | rfl | rfl
  · exact ⟨hkey (ascii "id") (by decide +kernel), reads_longText hid⟩
  · refine ⟨hkey (ascii "user") (by decide +kernel), Json.reads_string ?_⟩
    rw [jsonEscape_user hu]
    exact hkey m.user hu.bytes
  · exact ⟨hkey (ascii "ts") (by decide +kernel), reads_longText hts⟩
  · refine ⟨hkey (ascii "body") (by decide +kernel), Json.reads_string ?_⟩
    rw [hbody]
    exact spells_escaped p

/-- What is read back is the message with the part of its body that was
escaped. -/
theorem parse_msgToJson {m : ChatMsg} (hu : UserClean m.user) (hb : BodyClean m.body)
    (hid : 0 ≤ m.id ∧ m.id ≤ longMax) (hts : 0 ≤ m.ts ∧ m.ts ≤ longMax) :
    ∃ p, (p = m.body ↔ (escaped m.body.dropLast).length ≤ 1016)
      ∧ Json.parse (msgToJson m sseFrameMax) = some (msgObject m.id m.user m.ts p) := by
  obtain ⟨p, -, hbody, hall⟩ := jsonEscape_body hb
  refine ⟨p, hall, ?_⟩
  have hfits := msgJsonText_fits hu hb hid hts
  unfold msgToJson
  rw [List.take_of_length_le (by omega), msgJsonText_eq m p,
    Json.parse_object (by simp [msgMembers]) (msgMembers_ok hu hid.1 hts.1 hbody)]
  rfl

/-- **The round trip of a message.**  For every message that can be stored, what
`msg_to_json` leaves in the buffer of a frame is read back as the message exactly
when its body, escaped without its last byte, takes at most 1016 bytes: a quote
or a backslash takes two, any other byte one. -/
theorem msgToJson_roundTrip_iff {m : ChatMsg} (hu : UserClean m.user) (hb : BodyClean m.body)
    (hid : 0 < m.id ∧ m.id ≤ longMax) (hts : 0 ≤ m.ts ∧ m.ts ≤ longMax) :
    Json.parse (msgToJson m sseFrameMax) = some (msgObject m.id m.user m.ts m.body)
      ↔ (escaped m.body.dropLast).length ≤ 1016 := by
  obtain ⟨p, hall, hparse⟩ := parse_msgToJson hu hb ⟨by omega, hid.2⟩ hts
  rw [hparse, ← hall, Option.some.injEq]
  exact msgObject_inj

theorem msgToJson_roundTrip_quoted :
    Json.parse (msgToJson ⟨7, ascii "ann", 1700000000, ascii "say \"hi\""⟩ sseFrameMax)
      = some (msgObject 7 (ascii "ann") 1700000000 (ascii "say \"hi\"")) := by
  refine (msgToJson_roundTrip_iff ⟨?_, ?_, ?_⟩ ⟨?_, ?_, ?_⟩ ?_ ?_).mpr ?_ <;> decide +kernel

/-- **A body of quotes only.**  511 of them can be stored; the frame has 509. -/
theorem msgToJson_cuts_quotes :
    ∃ m : ChatMsg, UserClean m.user ∧ BodyClean m.body ∧ (0 < m.id ∧ m.id ≤ longMax)
      ∧ (0 ≤ m.ts ∧ m.ts ≤ longMax)
      ∧ Json.parse (msgToJson m sseFrameMax) ≠ some (msgObject m.id m.user m.ts m.body) := by
  have hu : UserClean (ascii "ann") := by refine ⟨?_, ?_, ?_⟩ <;> decide +kernel
  have hb : BodyClean (List.replicate 511 34) := by
    refine ⟨by decide +kernel, List.length_replicate.le, ?_⟩
    intro c hc
    rw [List.eq_of_mem_replicate hc]
    decide
  have hid : (0 : Int) < 1 ∧ (1 : Int) ≤ longMax := by decide
  have hts : (0 : Int) ≤ 0 ∧ (0 : Int) ≤ longMax := by decide
  refine ⟨⟨1, ascii "ann", 0, List.replicate 511 34⟩, hu, hb, hid, hts, ?_⟩
  obtain ⟨p, hall, hparse⟩ := parse_msgToJson (m := ⟨1, ascii "ann", 0, List.replicate 511 34⟩) hu hb
    ⟨by decide, hid.2⟩ hts
  rw [hparse]
  intro h
  have hlen := hall.mp (msgObject_inj.mp (Option.some.inj h))
  exact absurd hlen (by decide +kernel)

end NetServer.Chat
