/-
  NetServer.Chat.RoomView — what the bytes of a room's screen look like.

  The bytes a telnet chat sends are given to a terminal (`NetServer.Lib.Vt`) that is
  as high as the session believes.  `render_room` clears the screen and draws all of
  it, `render_compose` one line of it.  So as long as no line is wider than the
  terminal, the screen is a function of the room, the page and the text being typed
  (`RoomView.lines`), whatever was on it before.

    • `feed_roomScreen`    — one full redraw;
    • `feed_composeLine`   — one redraw of the input line.
-/
import NetServer.Chat.Injection
import NetServer.Chat.Json
import NetServer.Lib.Vt

namespace NetServer.Chat

open NetServer.Lib
open NetServer.Lib.Vt

/-! ## §1. The screen of a room. -/

/-- Bytes of ASCII as characters. -/
def codes (s : List UInt8) : List Nat := s.map UInt8.toNat

/-- Two blanks and a horizontal line. -/
def ruleText (n : Nat) : List Nat := codes (ascii "  ") ++ List.replicate n 0x2500

def msgText (m : ChatMsg) : List Nat :=
  codes (ascii "[" ++ hhmm m.ts ++ ascii "] " ++ m.user ++ ascii ": " ++ m.body)

def inputText (compose : List UInt8) : List Nat := codes (ascii "  > " ++ compose)

def legendText : List Nat :=
  codes (ascii "  [Enter]schrijf  [p]ouder  [n]nieuwer  [q]verlaat  [Q]quit")

/-- What the screen of a room shows. -/
structure RoomView where
  name : List UInt8
  who : List (List UInt8)
  page : List ChatMsg
  input : List UInt8

namespace RoomView

def headerText (v : RoomView) : List Nat :=
  codes (ascii "  #" ++ v.name ++ ascii "  (" ++ decimal v.who.length ++ ascii " online: "
    ++ wholist v.who ++ ascii ")")

/-- The lines above: header, rule, one line for each message. -/
def topLines (v : RoomView) : Nat → List Nat :=
  overlay (fun _ => []) 0 (v.headerText :: ruleText 39 :: v.page.map msgText)

/-- All lines of the screen: at the bottom are rule, input line and legend. -/
def lines (v : RoomView) (rows : Nat) : Nat → List Nat := fun r =>
  if r = rows - 1 then legendText
  else if r = rows - 2 then inputText v.input
  else if r = rows - 3 then ruleText 41
  else v.topLines r

/-- No line is wider than the terminal; the legend is the widest of the fixed ones. -/
structure Narrow (v : RoomView) (cols : Nat) : Prop where
  legend : legendText.length ≤ cols
  header : v.headerText.length ≤ cols
  page : ∀ m ∈ v.page, (msgText m).length ≤ cols
  input : (inputText v.input).length ≤ cols

instance (v : RoomView) (cols : Nat) : Decidable (v.Narrow cols) :=
  decidable_of_iff (legendText.length ≤ cols ∧ v.headerText.length ≤ cols
      ∧ (∀ m ∈ v.page, (msgText m).length ≤ cols) ∧ (inputText v.input).length ≤ cols)
    ⟨fun h => ⟨h.1, h.2.1, h.2.2.1, h.2.2.2⟩, fun h => ⟨h.legend, h.header, h.page, h.input⟩⟩

/-- The texts are printable and the messages have their rows. -/
structure Proper (v : RoomView) (rows : Nat) : Prop where
  name : ∀ b ∈ v.name, isPrintable b = true
  who : ∀ u ∈ v.who, ∀ b ∈ u, isPrintable b = true
  page : ∀ m ∈ v.page, m.Clean
  height : v.page.length + 5 ≤ rows

/-- Another text in the input line. -/
theorem lines_input (v : RoomView) {rows : Nat} (hrows : 2 ≤ rows) (input : List UInt8) :
    Function.update (v.lines rows) (rows - 2) (inputText input)
      = RoomView.lines { v with input := input } rows := by
  funext r
  by_cases hr : r = rows - 2
  · subst hr
    rw [Function.update_self]
    unfold lines
    rw [if_neg (by omega), if_pos rfl]
  · rw [Function.update_of_ne hr]
    unfold lines
    rw [if_neg hr, if_neg hr]
    rfl

theorem topLines_below (v : RoomView) {r : Nat} (hr : v.page.length + 2 ≤ r) : v.topLines r = [] := by
  unfold topLines overlay
  rw [if_pos (Nat.zero_le _), Nat.sub_zero, List.getElem?_eq_none]
  · rfl
  · rw [List.length_cons, List.length_cons, List.length_map]
    exact hr

/-- The screen as it is drawn: the bottom lines over the others. -/
theorem lines_eq (v : RoomView) (k : Nat) :
    v.lines (k + 3) = Function.update (Function.update (Function.update v.topLines k (ruleText 41))
      (k + 1) (inputText v.input)) (k + 2) legendText := by
  funext r
  show (if r = k + 2 then legendText else if r = k + 1 then inputText v.input
    else if r = k then ruleText 41 else v.topLines r) = _
  by_cases h2 : r = k + 2
  · subst h2
    rw [if_pos rfl, Function.update_self]
  by_cases h1 : r = k + 1
  · subst h1
    rw [if_neg h2, if_pos rfl, Function.update_of_ne h2, Function.update_self]
  by_cases h0 : r = k
  · subst h0
    rw [if_neg h2, if_neg h1, if_pos rfl, Function.update_of_ne h2, Function.update_of_ne h1,
      Function.update_self]
  · rw [if_neg h2, if_neg h1, if_neg h0, Function.update_of_ne h2, Function.update_of_ne h1,
      Function.update_of_ne h0]

end RoomView

/-! ## §2. The bytes and their texts. -/

section Texts

variable {rows cols : Nat}

theorem draws_printable {s : List UInt8} (hs : ∀ b ∈ s, isPrintable b = true) :
    Draws rows cols s (codes s) := by
  apply draws_ascii
  intro b hb
  have hp := hs b hb
  simp only [isPrintable, Bool.and_eq_true, decide_eq_true_eq] at hp
  exact hp

theorem draws_rule (n : Nat) : Draws rows cols (rule n) (List.replicate n 0x2500) := by
  have hline : Draws rows cols [0xE2, 0x94, 0x80] [0x2500] :=
    draws_three (by decide) (by decide) (by decide)
  have h := hline.replicate n
  rwa [List.flatten_replicate_singleton] at h

theorem codes_append (s s' : List UInt8) : codes (s ++ s') = codes s ++ codes s' := List.map_append

/-- SGR 0. -/
theorem draws_reset : Draws rows cols (ascii "\x1b[0m") [] := by
  have heq : ascii "\x1b[0m" = csi [48] 109 := rfl
  rw [heq]
  exact draws_sgr [48] (by decide +kernel)

/-- The dim rules of header and footer. -/
theorem draws_dimRule (n : Nat) :
    Draws rows cols (ascii "\x1b[2m  " ++ rule n ++ ascii "\x1b[0m") (ruleText n) := by
  have hopen : Draws rows cols (ascii "\x1b[2m  ") (codes (ascii "  ")) :=
    (draws_printable (by decide +kernel)).styled [50] (by decide +kernel)
  have h := (hopen.append (draws_rule n)).append draws_reset
  rwa [List.append_nil] at h

/-- A message line without its line end. -/
def msgBytes (m : ChatMsg) : List UInt8 :=
  ascii "\x1b[2m[" ++ (hhmm m.ts ++ (ascii "]\x1b[0m \x1b[1m" ++ (m.user ++ (ascii "\x1b[0m: " ++ m.body))))

theorem formatMsg_eq (m : ChatMsg) : formatMsg m = msgBytes m ++ [13, 10] := by
  have hend : ascii "\r\n" ++ fill [] ([] : List (List UInt8)) = [13, 10] := rfl
  unfold msgBytes
  simp only [List.append_assoc]
  rw [← hend]
  rfl

theorem draws_msg {m : ChatMsg} (hm : m.Clean) : Draws rows cols (msgBytes m) (msgText m) := by
  have hopen : Draws rows cols (ascii "\x1b[2m[") (codes (ascii "[")) :=
    (draws_printable (by decide +kernel)).styled [50] (by decide +kernel)
  have hname : Draws rows cols (ascii "]\x1b[0m \x1b[1m") (codes (ascii "] ")) := by
    have hbracket : Draws rows cols (ascii "]") (codes (ascii "]")) :=
      draws_printable (by decide +kernel)
    have hblank : Draws rows cols (ascii " ") (codes (ascii " ")) :=
      draws_printable (by decide +kernel)
    exact (hbracket.append draws_reset).append (hblank.append (draws_sgr [49] (by decide +kernel)))
  have hcolon : Draws rows cols (ascii "\x1b[0m: ") (codes (ascii ": ")) :=
    (draws_printable (by decide +kernel)).styled [48] (by decide +kernel)
  have h := hopen.append ((draws_printable (hhmm_printable m.ts)).append (hname.append
    ((draws_printable hm.1.printable).append (hcolon.append (draws_printable hm.2.bytes)))))
  unfold msgText
  simp only [codes_append, List.append_assoc]
  exact h

/-- The header line behind the sequences that clear the screen, without its line end. -/
def headerBytes (name : List UInt8) (who : List (List UInt8)) : List UInt8 :=
  ascii "\x1b[1;36m  #" ++ (name ++ (headerNamed ++ (decimal who.length ++ (ascii " online: "
    ++ (wholist who ++ ascii ")\x1b[0m")))))

theorem draws_header {v : RoomView} (hname : ∀ b ∈ v.name, isPrintable b = true)
    (hwho : ∀ u ∈ v.who, ∀ b ∈ u, isPrintable b = true) :
    Draws rows cols (headerBytes v.name v.who) v.headerText := by
  have hopen : Draws rows cols (ascii "\x1b[1;36m  #") (codes (ascii "  #")) :=
    (draws_printable (by decide +kernel)).styled [49, 59, 51, 54] (by decide +kernel)
  have hnamed : Draws rows cols headerNamed (codes (ascii "  (")) := by
    have hblanks : Draws rows cols (ascii "\x1b[0m  ") (codes (ascii "  ")) :=
      (draws_printable (by decide +kernel)).styled [48] (by decide +kernel)
    have hparen : Draws rows cols (ascii "\x1b[2m(") (codes (ascii "(")) :=
      (draws_printable (by decide +kernel)).styled [50] (by decide +kernel)
    exact hblanks.append hparen
  have hclose : Draws rows cols (ascii ")\x1b[0m") (codes (ascii ")")) := by
    have hparen : Draws rows cols (ascii ")") (codes (ascii ")")) :=
      draws_printable (by decide +kernel)
    exact hparen.append draws_reset
  have honline : Draws rows cols (ascii " online: ") (codes (ascii " online: ")) :=
    draws_printable (by decide +kernel)
  have h := hopen.append ((draws_printable hname).append (hnamed.append
    ((draws_printable (decimal_printable v.who.length)).append (honline.append
      ((draws_printable (wholist_printable hwho)).append hclose)))))
  unfold RoomView.headerText
  simp only [codes_append, List.append_assoc]
  exact h

end Texts

/-! ## §3. One redraw. -/

/-- The bytes of several calls of `telnet_session_send`. -/
def sentBytes (out : List (Option (List UInt8))) : List UInt8 := (out.map (·.getD [])).flatten

theorem sentBytes_append (out out' : List (Option (List UInt8))) :
    sentBytes (out ++ out') = sentBytes out ++ sentBytes out' := by
  unfold sentBytes
  rw [List.map_append, List.flatten_append]

/-- The lines that `render_room` ends with CR LF: the bytes of each and its text. -/
def streamed (v : RoomView) : List (List UInt8 × List Nat) :=
  (headerBytes v.name v.who, v.headerText)
    :: (ascii "\x1b[2m  " ++ rule 39 ++ ascii "\x1b[0m", ruleText 39)
    :: v.page.map fun m => (msgBytes m, msgText m)

/-- Header and messages are the cleared screen and these lines. -/
theorem header_page_bytes (v : RoomView) :
    roomHeader v.name v.who ++ v.page.flatMap formatMsg
      = csi [50] 74 ++ csi [] 72 ++ (streamed v).flatMap (fun l => l.1 ++ [13, 10]) := by
  have hpage : v.page.flatMap formatMsg
      = (v.page.map fun m => (msgBytes m, msgText m)).flatMap (fun l => l.1 ++ [13, 10]) := by
    rw [List.flatMap_map]
    apply List.flatMap_congr
    intro m _
    exact formatMsg_eq m
  have hclose : headerClose
      = ascii ")\x1b[0m" ++ ([13, 10] ++ (ascii "\x1b[2m  " ++ rule 39 ++ ascii "\x1b[0m" ++ [13, 10])) := by
    have hfirst : ascii ")\x1b[0m\r\n\x1b[2m  " = ascii ")\x1b[0m" ++ ([13, 10] ++ ascii "\x1b[2m  ") := rfl
    have hlast : ascii "\x1b[0m\r\n" = ascii "\x1b[0m" ++ [13, 10] := rfl
    unfold headerClose
    rw [hfirst, hlast]
    simp only [List.append_assoc]
  have hheader : roomHeader v.name v.who
      = csi [50] 74 ++ csi [] 72 ++ (headerBytes v.name v.who ++ [13, 10]
        ++ (ascii "\x1b[2m  " ++ rule 39 ++ ascii "\x1b[0m" ++ [13, 10])) := by
    have hfill : roomHeader v.name v.who
        = (headerOpen ++ v.name ++ headerNamed) ++ (decimal v.who.length ++ (ascii " online: "
          ++ (wholist v.who ++ (headerClose ++ [])))) := rfl
    have hopen : headerOpen = csi [50] 74 ++ csi [] 72 ++ ascii "\x1b[1;36m  #" := rfl
    rw [hfill, hclose, hopen, List.append_nil]
    unfold headerBytes
    simp only [List.append_assoc]
  rw [hheader, hpage]
  unfold streamed
  rw [List.flatMap_cons, List.flatMap_cons]
  simp only [List.append_assoc]

section Redraw

variable {rows cols : Nat} {T : Term} {lines : Nat → List Nat} {row scrolled : Nat}

/-- A line that is addressed by its number. -/
def addressed (n : Nat) (bytes : List UInt8) : List UInt8 :=
  ascii "\x1b[" ++ decimal n ++ (ascii ";1H" ++ bytes)

variable (cols) in
theorem goto_line (h : Written T lines row scrolled) {k : Nat} (hk : k < rows) (bytes : List UInt8) :
    ∃ U, Shows U lines k scrolled
      ∧ T.feed rows cols (addressed (k + 1) bytes) = U.feed rows cols bytes := by
  have hbytes : addressed (k + 1) bytes = csi (decimal (k + 1) ++ [59, 49]) 72 ++ bytes := by
    have hopen : ascii "\x1b[" = [27, 91] := rfl
    have hhome : ascii ";1H" = [59, 49] ++ [72] := rfl
    unfold addressed csi
    rw [hopen, hhome]
    simp only [List.append_assoc, List.cons_append, List.nil_append]
  refine ⟨T.feed rows cols (csi (decimal (k + 1) ++ [59, 49]) 72), ?_, ?_⟩
  · exact h.goto (decimal_numeral (k + 1)).digits (decimalValue_decimal (k + 1)) hk
  · rw [hbytes, Term.feed_append]

/-- Write the addressed line, which is empty. -/
theorem write_line (h : Written T lines row scrolled) {k : Nat} (hk : k < rows)
    (hempty : lines k = []) {bytes : List UInt8} {text : List Nat}
    (hdraws : Draws rows cols bytes text) (hfits : text.length ≤ cols) :
    Written (T.feed rows cols (addressed (k + 1) bytes)) (Function.update lines k text) k
      scrolled := by
  obtain ⟨U, hU, heq⟩ := goto_line cols h hk bytes
  rw [heq]
  exact hU.write hempty hdraws hfits

/-- What `render_room` sends, when every text fits its buffer. -/
theorem sentBytes_roomScreen {v : RoomView} {r : Nat} (hname : v.name.length ≤ 31)
    (hwho : v.who.length ≤ chatMaxWho) (hpage : ∀ m ∈ v.page, m.Clean) (hr : termRows r < 65536) :
    sentBytes (roomScreen v.name r v.page v.who)
      = roomHeader v.name v.who ++ v.page.flatMap formatMsg ++ (roomFooter (termRows r)).flatten := by
  have hfoot : (roomFooter (termRows r)).map csendf = (roomFooter (termRows r)).map some := by
    apply List.map_congr_left
    intro text htext
    have hdec : ∀ k, k ≤ termRows r → (decimal k).length ≤ 5 := by
      intro k hk
      exact decimal_length (by decide) (by omega)
    have h2 := hdec (termRows r - 2) (Nat.sub_le _ _)
    have h1 := hdec (termRows r - 1) (Nat.sub_le _ _)
    have h0 := hdec (termRows r) (le_refl _)
    have hlen : text.length < 1024 := by
      simp only [roomFooter, List.mem_cons, List.not_mem_nil, or_false] at htext
      rcases htext with rfl | rfl | rfl
      · rw [List.length_append, List.length_append, List.length_append, List.length_append]
        have hparts : (ascii "\x1b[").length + (ascii ";1H\x1b[2m  ").length
            + (ascii "\x1b[0m").length = 15 := by decide +kernel
        have hrule : (rule 41).length = 123 := by decide +kernel
        omega
      · rw [List.length_append, List.length_append]
        have hparts : (ascii "\x1b[").length + (ascii ";1H  > ").length = 9 := by decide +kernel
        omega
      · rw [List.length_append, List.length_append]
        have hparts : (ascii "\x1b[").length + (ascii
            ";1H\x1b[2m  [Enter]schrijf  [p]ouder  [n]nieuwer  [q]verlaat  [Q]quit\x1b[0m").length
            = 72 := by decide +kernel
        omega
    unfold csendf bufSend
    rw [if_pos hlen]
  have hlines : v.page.map (fun m => bufSend 640 (formatMsg m))
      = v.page.map (fun m => some (formatMsg m)) := by
    apply List.map_congr_left
    intro m hm
    exact formatMsg_fits (hpage m hm).1.length_le (hpage m hm).2.length_le
  unfold roomScreen
  rw [hfoot, hlines, roomHeader_fits hname hwho]
  unfold sentBytes
  rw [List.map_append, List.map_cons, List.map_map, List.map_map, List.flatten_append,
    List.flatten_cons, List.flatMap_def]
  congr 2

/-- Header, rule and messages stream from the top. -/
theorem feed_top {v : RoomView} (hv : v.Proper rows) (hn : v.Narrow cols) (hT : T.mode = .ground) :
    Shows (T.feed rows cols (csi [50] 74 ++ csi [] 72 ++ (streamed v).flatMap fun l => l.1 ++ [13, 10]))
      v.topLines (v.page.length + 2) T.scrolled := by
  have hheight := hv.height
  have hlen : (streamed v).length = v.page.length + 2 := by
    unfold streamed
    rw [List.length_cons, List.length_cons, List.length_map]
  have htexts : (streamed v).map Prod.snd = v.headerText :: ruleText 39 :: v.page.map msgText := by
    unfold streamed
    rw [List.map_cons, List.map_cons, List.map_map]
    rfl
  have hdraws : ∀ l ∈ streamed v, Draws rows cols l.1 l.2 ∧ l.2.length ≤ cols := by
    intro l hl
    rcases List.mem_cons.mp hl with rfl | hl
    · exact ⟨draws_header hv.name hv.who, hn.header⟩
    rcases List.mem_cons.mp hl with rfl | hl
    · exact ⟨draws_dimRule 39, Nat.le_trans (by decide) hn.legend⟩
    · obtain ⟨m, hm, rfl⟩ := List.mem_map.mp hl
      exact ⟨draws_msg (hv.page m hm), hn.page m hm⟩
  rw [Term.feed_append]
  have hclear : Shows (T.feed rows cols (csi [50] 74 ++ csi [] 72)) (fun _ => []) 0 T.scrolled :=
    shows_clear hT
  have h := Shows.writeAll (streamed v) hclear (fun _ _ => rfl) hdraws (by rw [hlen]; omega)
  rw [htexts, hlen, Nat.zero_add] at h
  exact h

/-- The three lines at the bottom are addressed. -/
theorem feed_footer {k : Nat} (h : Written T lines row scrolled) (hbelow : ∀ r, k ≤ r → lines r = [])
    (hwidth : legendText.length ≤ cols) :
    Written (T.feed (k + 3) cols (roomFooter (k + 3)).flatten)
      (Function.update (Function.update (Function.update lines k (ruleText 41)) (k + 1) (inputText []))
        (k + 2) legendText) (k + 2) scrolled := by
  have hinput : Draws (k + 3) cols (ascii "  > ") (inputText []) :=
    draws_printable (by decide +kernel)
  have hlegend : Draws (k + 3) cols (ascii
      "\x1b[2m  [Enter]schrijf  [p]ouder  [n]nieuwer  [q]verlaat  [Q]quit\x1b[0m") legendText := by
    have htext : Draws (k + 3) cols (ascii
        "\x1b[2m  [Enter]schrijf  [p]ouder  [n]nieuwer  [q]verlaat  [Q]quit") legendText :=
      (draws_printable (by decide +kernel)).styled [50] (by decide +kernel)
    have hboth := htext.append draws_reset
    rw [List.append_nil] at hboth
    exact hboth
  have h1 := write_line h (by omega : k < k + 3) (hbelow k (le_refl _)) (draws_dimRule 41)
    (Nat.le_trans (by decide) hwidth)
  have h2 := write_line h1 (by omega : k + 1 < k + 3)
    (by rw [Function.update_of_ne (by omega)]; exact hbelow _ (by omega)) hinput
    (Nat.le_trans (by decide) hwidth)
  have h3 := write_line h2 (by omega : k + 2 < k + 3)
    (by
      rw [Function.update_of_ne (by omega), Function.update_of_ne (by omega)]
      exact hbelow _ (by omega)) hlegend hwidth
  have hbytes : (roomFooter (k + 3)).flatten
      = addressed (k + 1) (ascii "\x1b[2m  " ++ rule 41 ++ ascii "\x1b[0m")
        ++ (addressed (k + 2) (ascii "  > ") ++ addressed (k + 3) (ascii
          "\x1b[2m  [Enter]schrijf  [p]ouder  [n]nieuwer  [q]verlaat  [Q]quit\x1b[0m")) := by
    have hrule : ascii ";1H\x1b[2m  " = ascii ";1H" ++ ascii "\x1b[2m  " := rfl
    have hprompt : ascii ";1H  > " = ascii ";1H" ++ ascii "  > " := rfl
    have hkeys : ascii ";1H\x1b[2m  [Enter]schrijf  [p]ouder  [n]nieuwer  [q]verlaat  [Q]quit\x1b[0m"
        = ascii ";1H" ++ ascii
          "\x1b[2m  [Enter]schrijf  [p]ouder  [n]nieuwer  [q]verlaat  [Q]quit\x1b[0m" := by
      decide +kernel
    unfold roomFooter addressed
    rw [hrule, hprompt, hkeys]
    simp only [List.flatten_cons, List.flatten_nil, List.append_assoc, List.append_nil]
    rfl
  rw [hbytes, Term.feed_append, Term.feed_append]
  exact h3

/-- **One full redraw.**  Whatever was on the screen, `render_room` leaves the screen of
the room, and nothing scrolls. -/
theorem feed_roomScreen {r : Nat} {v : RoomView} (hv : v.Proper (termRows r)) (hn : v.Narrow cols)
    (hname : v.name.length ≤ 31) (hwho : v.who.length ≤ chatMaxWho) (hr : termRows r < 65536)
    (hT : T.mode = .ground) :
    Written (T.feed (termRows r) cols (sentBytes (roomScreen v.name r v.page v.who)))
      (RoomView.lines { v with input := [] } (termRows r)) (termRows r - 1) T.scrolled := by
  have hheight := hv.height
  have htop := feed_top hv hn hT
  rw [sentBytes_roomScreen hname hwho hv.page hr, header_page_bytes, Term.feed_append]
  obtain ⟨k, hk⟩ : ∃ k, termRows r = k + 3 := ⟨termRows r - 3, by omega⟩
  rw [hk] at hheight htop ⊢
  have hbelow : ∀ r, k ≤ r → v.topLines r = [] := fun r hr => v.topLines_below (by omega)
  have h := feed_footer htop.written hbelow hn.legend
  rw [RoomView.lines_eq { v with input := [] } k]
  exact h

/-- **One redraw of the input line.** -/
theorem feed_composeLine {r : Nat} {v : RoomView} {compose : List UInt8}
    (hbytes : ∀ b ∈ compose, isPrintable b = true) (hlen : compose.length ≤ 511)
    (hfits : (inputText compose).length ≤ cols) (hr : termRows r < 65536)
    (h : Written T (v.lines (termRows r)) row scrolled) :
    Written (T.feed (termRows r) cols (sentBytes [composeLine r compose]))
      (RoomView.lines { v with input := compose } (termRows r)) (termRows r - 2) scrolled := by
  have hrows : 6 < termRows r := by
    unfold termRows
    split <;> omega
  have hsent : sentBytes [composeLine r compose]
      = addressed (termRows r - 1) (csi [50] 75 ++ (ascii "  \x1b[0m> " ++ compose)) := by
    have hdec : (decimal (termRows r - 1)).length ≤ 5 := decimal_length (by decide) (by omega)
    have hseq : ascii ";1H\x1b[2K  \x1b[0m> " = ascii ";1H" ++ (csi [50] 75 ++ ascii "  \x1b[0m> ") := rfl
    have hsome : composeLine r compose = some (ascii "\x1b[" ++ decimal (termRows r - 1)
        ++ ascii ";1H\x1b[2K  \x1b[0m> " ++ compose) := by
      have hparts : (ascii "\x1b[").length + (ascii ";1H\x1b[2K  \x1b[0m> ").length = 17 := rfl
      unfold composeLine csendf bufSend
      rw [if_pos]
      rw [List.length_append, List.length_append, List.length_append]
      omega
    rw [hsome, hseq]
    unfold sentBytes addressed
    simp only [List.map_cons, List.map_nil, List.flatten_cons, List.flatten_nil, Option.getD_some,
      List.append_assoc, List.append_nil]
  have hdraws : Draws (termRows r) cols (ascii "  \x1b[0m> " ++ compose) (inputText compose) := by
    have hblanks : Draws (termRows r) cols (ascii "  ") (codes (ascii "  ")) :=
      draws_printable (by decide +kernel)
    have hprompt : Draws (termRows r) cols (ascii "\x1b[0m> ") (codes (ascii "> ")) :=
      (draws_printable (by decide +kernel)).styled [48] (by decide +kernel)
    have hall := (hblanks.append hprompt).append (draws_printable hbytes)
    unfold inputText
    rw [codes_append]
    exact hall
  obtain ⟨k, hk⟩ : ∃ k, termRows r = k + 2 := ⟨termRows r - 2, by omega⟩
  rw [hsent, ← v.lines_input (by omega) compose]
  rw [hk] at h hdraws hrows ⊢
  obtain ⟨U, hU, heq⟩ := goto_line cols h (by omega : k < k + 2)
    (csi [50] 75 ++ (ascii "  \x1b[0m> " ++ compose))
  have herase : Shows (U.feed (k + 2) cols (csi [50] 75)) (Function.update (v.lines (k + 2)) k []) k
      scrolled := hU.eraseLine
  have hwritten := herase.write (Function.update_self _ _ _) hdraws hfits
  rw [Function.update_idem] at hwritten
  show Written (T.feed (k + 2) cols (addressed (k + 1) _)) _ k scrolled
  rw [heq, Term.feed_append]
  exact hwritten

end Redraw

end NetServer.Chat
