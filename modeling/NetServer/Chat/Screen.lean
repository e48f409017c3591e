/-
  NetServer.Chat.Screen — what `features/chat/chat.c` sends to a terminal.

  Every output of the source is a format string with substituted arguments,
  written into a fixed buffer and sent with the length `snprintf` returned.
  The format strings are templates here.  A text that does not fit its buffer
  would be sent with bytes from behind it; `bufSend` has no value then, and
  `formatMsg_fits`, `roomHeader_fits` rule it out for clean stores.

  Main results:
    • `formatMsg_control`, `roomHeader_control` — outside printable ASCII the
      output is the template's, byte for byte.
-/
import NetServer.Chat.Room
import NetServer.Lib.Template
import Mathlib.Data.Nat.Digits.Lemmas

namespace NetServer.Chat

open NetServer.Lib

/-! ## §1. Texts. -/

/-- The UTF-8 bytes of `n` horizontal line characters. -/
def rule (n : Nat) : List UInt8 := (List.replicate n [0xE2, 0x94, 0x80]).flatten

/-- `%d` and `%u` of a number that is not negative. -/
def decimal (n : Nat) : List UInt8 :=
  if n = 0 then [48] else (Nat.digits 10 n).reverse.map fun d => UInt8.ofNat (48 + d)

/-- Two digits, as `%H` and `%M` print them. -/
def twoDigits (n : Nat) : List UInt8 := [UInt8.ofNat (48 + n / 10), UInt8.ofNat (48 + n % 10)]

/-- `strftime (…, "%H:%M", gmtime (ts))`. -/
def hhmm (ts : Int) : List UInt8 :=
  twoDigits ((ts / 3600) % 24).toNat ++ 58 :: twoDigits ((ts / 60) % 60).toNat

/-- A text written by `snprintf` into a buffer of `cap` bytes and sent with
the returned length; `none` when that length is beyond the buffer. -/
def bufSend (cap : Nat) (text : List UInt8) : Option (List UInt8) :=
  if text.length < cap then some text else none

/-- `csendf`. -/
def csendf (text : List UInt8) : Option (List UInt8) := bufSend 1024 text

/-! ## §2. One message line. -/

def msgTemplate : List (Seg UInt8) :=
  [.lit (ascii "\x1b[2m["), .arg, .lit (ascii "]\x1b[0m \x1b[1m"), .arg,
    .lit (ascii "\x1b[0m: "), .arg, .lit (ascii "\r\n")]

/-- `format_msg`. -/
def formatMsg (m : ChatMsg) : List UInt8 := fill msgTemplate [hhmm m.ts, m.user, m.body]

/-! ## §3. The room screen. -/

def chatMsgLines : Nat := 18
def chatMaxWho : Nat := 16

/-- The loop that joins the active users into `wholist[256]`: the entry that
does not fit is cut off and ends the list. -/
def joinWho (sep : List UInt8) : List (List UInt8) → List UInt8 → List UInt8
  | [], wholist => wholist
  | who :: rest, wholist =>
      let piece := sep ++ who
      let room := 256 - wholist.length
      if room ≤ piece.length then wholist ++ piece.take (room - 1)
      else joinWho (ascii ", ") rest (wholist ++ piece)

/-- `wholist`: nothing before the first name, a comma and a blank before the others. -/
def wholist (who : List (List UInt8)) : List UInt8 := joinWho [] who []

def headerOpen : List UInt8 := ascii "\x1b[2J\x1b[H\x1b[1;36m  #"
def headerNamed : List UInt8 := ascii "\x1b[0m  \x1b[2m("
def headerClose : List UInt8 := ascii ")\x1b[0m\r\n\x1b[2m  " ++ rule 39 ++ ascii "\x1b[0m\r\n"

/-- The header's format string with the room's name in it. -/
def headerTemplate (name : List UInt8) : List (Seg UInt8) :=
  [.lit (headerOpen ++ name ++ headerNamed), .arg, .lit (ascii " online: "), .arg, .lit headerClose]

/-- Header and separator of `render_room`. -/
def roomHeader (name : List UInt8) (who : List (List UInt8)) : List UInt8 :=
  fill (headerTemplate name) [decimal who.length, wholist who]

/-- `term_rows`. -/
def termRows (rows : Nat) : Nat := if 6 < rows then rows else 24

/-- The three footer rows, absolutely positioned. -/
def roomFooter (r : Nat) : List (List UInt8) :=
  [ascii "\x1b[" ++ decimal (r - 2) ++ ascii ";1H\x1b[2m  " ++ rule 41 ++ ascii "\x1b[0m",
    ascii "\x1b[" ++ decimal (r - 1) ++ ascii ";1H  > ",
    ascii "\x1b[" ++ decimal r
      ++ ascii ";1H\x1b[2m  [Enter]schrijf  [p]ouder  [n]nieuwer  [q]verlaat  [Q]quit\x1b[0m"]

/-- How many message rows fit: 2 header and 3 footer rows are taken. -/
def wantRows (rows : Nat) : Nat :=
  let avail : Int := (termRows rows : Int) - 5
  if 0 < avail ∧ avail < chatMsgLines then avail.toNat else chatMsgLines

/-- Everything `render_room` sends, in order. -/
def roomScreen (name : List UInt8) (rows : Nat) (page : List ChatMsg) (who : List (List UInt8)) :
    List (Option (List UInt8)) :=
  csendf (roomHeader name who) :: page.map (fun m => bufSend 640 (formatMsg m))
    ++ (roomFooter (termRows rows)).map csendf

/-- What `render_compose` sends. -/
def composeLine (rows : Nat) (compose : List UInt8) : Option (List UInt8) :=
  csendf (ascii "\x1b[" ++ decimal (termRows rows - 1) ++ ascii ";1H\x1b[2K  \x1b[0m> " ++ compose)

/-! ## §4. Lobby and name prompt. -/

def usernameScreen (usernameBuf : List UInt8) : List (Option (List UInt8)) :=
  [some (ascii "\x1b[2J\x1b[H\x1b[1;36m  OETELX CHAT\x1b[0m\r\n\r\n"
      ++ ascii "  Kies een naam (letters, cijfers, _ " ++ [0xE2, 0x80, 0x94]
      ++ ascii " max 20).\r\n\r\n  Naam: ")]
    ++ if usernameBuf = [] then [] else [some usernameBuf]

def lobbyHead : List UInt8 :=
  ascii "\x1b[2J\x1b[H\x1b[1;36m  OETELX CHAT\x1b[0m\r\n\x1b[2m  " ++ rule 25 ++ ascii "\x1b[0m\r\n\r\n"

def lobbyFoot : List UInt8 := ascii "\r\n\x1b[2m  [1-3] kies room   [Q] terug naar menu\x1b[0m\r\n"

/-- One room of the lobby: its key, its name padded to ten, the online count. -/
def lobbyLine (i : Nat) (name : List UInt8) (online : Nat) : Option (List UInt8) :=
  csendf (ascii "  \x1b[33m[" ++ decimal (i + 1) ++ ascii "]\x1b[0m  #" ++ name
    ++ List.replicate (10 - name.length) 32 ++ ascii " \x1b[2m" ++ decimal online
    ++ ascii " online\x1b[0m\r\n")

/-! ## §5. Only printable bytes are substituted. -/

theorem isPrintable_digit {d : Nat} (hd : d < 10) : isPrintable (UInt8.ofNat (48 + d)) = true := by
  have hall : ∀ d : Fin 10, isPrintable (UInt8.ofNat (48 + d.val)) = true := by decide
  exact hall ⟨d, hd⟩

theorem decimal_printable (n : Nat) : ∀ b ∈ decimal n, isPrintable b = true := by
  intro b hb
  unfold decimal at hb
  by_cases hn : n = 0
  · rw [if_pos hn, List.mem_singleton] at hb
    rw [hb]
    decide
  · rw [if_neg hn] at hb
    obtain ⟨d, hd, rfl⟩ := List.mem_map.mp hb
    exact isPrintable_digit (Nat.digits_lt_base (by omega) (List.mem_reverse.mp hd))

theorem twoDigits_printable {n : Nat} (hn : n < 100) :
    ∀ b ∈ twoDigits n, isPrintable b = true := by
  intro b hb
  simp only [twoDigits, List.mem_cons, List.not_mem_nil, or_false] at hb
  rcases hb with rfl | rfl
  · exact isPrintable_digit (by omega)
  · exact isPrintable_digit (by omega)

theorem hhmm_printable (ts : Int) : ∀ b ∈ hhmm ts, isPrintable b = true := by
  intro b hb
  unfold hhmm at hb
  rcases List.mem_append.mp hb with hh | hm
  · exact twoDigits_printable (by omega) b hh
  · rcases List.mem_cons.mp hm with rfl | hm
    · decide
    · exact twoDigits_printable (by omega) b hm

theorem joinWho_cons (sep who wholist : List UInt8) (rest : List (List UInt8)) :
    joinWho sep (who :: rest) wholist
      = if 256 - wholist.length ≤ (sep ++ who).length then
          wholist ++ (sep ++ who).take (256 - wholist.length - 1)
        else joinWho (ascii ", ") rest (wholist ++ (sep ++ who)) := rfl

theorem joinWho_printable (who : List (List UInt8)) :
    ∀ (sep acc : List UInt8), (∀ b ∈ sep, isPrintable b = true) →
      (∀ u ∈ who, ∀ b ∈ u, isPrintable b = true) → (∀ b ∈ acc, isPrintable b = true) →
      ∀ b ∈ joinWho sep who acc, isPrintable b = true := by
  induction who with
  | nil => intro sep acc _ _ hacc; exact hacc
  | cons u who ih =>
    intro sep acc hsep hwho hacc
    have hpiece : ∀ b ∈ sep ++ u, isPrintable b = true := by
      intro b hb
      rcases List.mem_append.mp hb with hs | hu
      · exact hsep b hs
      · exact hwho u List.mem_cons_self b hu
    rw [joinWho_cons]
    split
    · -- The cut entry.
      intro b hb
      rcases List.mem_append.mp hb with ha | hp
      · exact hacc b ha
      · exact hpiece b (List.mem_of_mem_take hp)
    · apply ih (ascii ", ") (acc ++ (sep ++ u)) (by decide +kernel)
        (fun v hv => hwho v (List.mem_cons_of_mem _ hv))
      intro b hb
      rcases List.mem_append.mp hb with ha | hp
      · exact hacc b ha
      · exact hpiece b hp

theorem joinWho_length (who : List (List UInt8)) :
    ∀ (sep acc : List UInt8), acc.length ≤ 255 → (joinWho sep who acc).length ≤ 255 := by
  induction who with
  | nil => intro sep acc hacc; exact hacc
  | cons u who ih =>
    intro sep acc hacc
    rw [joinWho_cons]
    split
    · rw [List.length_append, List.length_take]
      omega
    · apply ih
      rw [List.length_append]
      omega

/-- Bytes outside printable ASCII. -/
def isControl (b : UInt8) : Bool := !isPrintable b

theorem isControl_false {b : UInt8} (h : isPrintable b = true) : isControl b = false := by
  unfold isControl
  rw [h]
  rfl

/-- A message line has exactly the template's bytes outside printable ASCII. -/
theorem formatMsg_control {m : ChatMsg} (hu : ∀ b ∈ m.user, isPrintable b = true)
    (hb : ∀ b ∈ m.body, isPrintable b = true) :
    (formatMsg m).filter isControl = (literals msgTemplate).filter isControl := by
  apply filter_fill
  intro a ha x hx
  simp only [List.mem_cons, List.not_mem_nil, or_false] at ha
  apply isControl_false
  rcases ha with rfl | rfl | rfl
  · exact hhmm_printable m.ts x hx
  · exact hu x hx
  · exact hb x hx

theorem wholist_printable {who : List (List UInt8)}
    (hwho : ∀ u ∈ who, ∀ b ∈ u, isPrintable b = true) :
    ∀ b ∈ wholist who, isPrintable b = true :=
  joinWho_printable who [] [] (by simp) hwho (by simp)

theorem roomHeader_control (name : List UInt8) {who : List (List UInt8)}
    (hwho : ∀ u ∈ who, ∀ b ∈ u, isPrintable b = true) :
    (roomHeader name who).filter isControl = (literals (headerTemplate name)).filter isControl := by
  apply filter_fill
  intro a ha x hx
  simp only [List.mem_cons, List.not_mem_nil, or_false] at ha
  apply isControl_false
  rcases ha with rfl | rfl
  · exact decimal_printable _ x hx
  · exact wholist_printable hwho x hx

/-! ## §6. Every text fits its buffer. -/

theorem formatMsg_fits {m : ChatMsg} (hu : m.user.length ≤ 31) (hb : m.body.length ≤ 511) :
    bufSend 640 (formatMsg m) = some (formatMsg m) := by
  have hlen : (formatMsg m).length
      ≤ (literals msgTemplate).length + [hhmm m.ts, m.user, m.body].flatten.length :=
    length_fill_le msgTemplate [hhmm m.ts, m.user, m.body]
  have hlit : (literals msgTemplate).length = 23 := rfl
  have hargs : [hhmm m.ts, m.user, m.body].flatten.length
      = (hhmm m.ts).length + (m.user.length + m.body.length) := by
    simp
  have htime : (hhmm m.ts).length = 5 := rfl
  unfold bufSend
  rw [if_pos (by omega)]

theorem decimal_length {n k : Nat} (hk : 0 < k) (hn : n < 10 ^ k) : (decimal n).length ≤ k := by
  unfold decimal
  by_cases h0 : n = 0
  · rw [if_pos h0]
    exact hk
  · rw [if_neg h0, List.length_map, List.length_reverse, Nat.digits_length_le_iff (by omega)]
    exact hn

theorem roomHeader_fits {name : List UInt8} {who : List (List UInt8)} (hname : name.length ≤ 31)
    (hwho : who.length ≤ chatMaxWho) :
    csendf (roomHeader name who) = some (roomHeader name who) := by
  have hlen : (roomHeader name who).length
      ≤ (literals (headerTemplate name)).length
        + [decimal who.length, wholist who].flatten.length :=
    length_fill_le (headerTemplate name) [decimal who.length, wholist who]
  have hlit : (literals (headerTemplate name)).length
      = headerOpen.length + name.length + headerNamed.length
        + ((ascii " online: ").length + headerClose.length) := by
    simp only [headerTemplate, literals, List.length_append, List.length_nil, Nat.add_zero]
  have hparts : headerOpen.length = 17 ∧ headerNamed.length = 11
      ∧ (ascii " online: ").length = 9 ∧ headerClose.length = 136 := ⟨rfl, rfl, rfl, rfl⟩
  have hargs : [decimal who.length, wholist who].flatten.length
      = (decimal who.length).length + (wholist who).length := by
    simp
  have hcount : (decimal who.length).length ≤ 5 := by
    apply decimal_length (by decide)
    unfold chatMaxWho at hwho
    omega
  have hlist : (wholist who).length ≤ 255 := joinWho_length who [] [] (by simp)
  unfold csendf bufSend
  rw [if_pos (by omega)]

end NetServer.Chat
