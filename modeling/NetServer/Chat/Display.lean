/-
  NetServer.Chat.Display — what the user of a telnet session sees.

  A session draws the whole screen when it enters a room and after every message,
  and the input line after every key of a text; between them it sends nothing.  So
  its terminal shows the room, the page drawn last and the text being typed, over
  every run of the server with every other client.

    • `Displayed.step`     — every step of the session keeps the screen up to date;
    • `room_displayed`     — over every run.
-/
import NetServer.Chat.Redraw
import NetServer.Chat.RoomView

namespace NetServer.Chat

open NetServer.Lib
open NetServer.Lib.TransitionSystem
open NetServer.Lib.Vt

/-! ## §1. The session and its terminal. -/

/-- The text in the input line. -/
def ChatState.typed (c : ChatState) : List UInt8 := if c.st = .compose then c.compose else []

/-- The points of a visit at which the screen is complete. -/
def TelnetPc.drawn : TelnetPc → Bool
  | .poll | .older | .post _ | .postPresence | .drain | .drained => true
  | _ => false

/-- What a session has sent on its way from `t` to `t'`. -/
def Telnet.sends (t t' : Telnet) : List UInt8 := sentBytes (t'.out.drop t.out.length)

/-- The session is in a room. -/
def Telnet.visiting (t : Telnet) : Bool := t.chat.any (·.room.isSome)

/-- What a point of a visit has still to draw: a page within the budget, the lines of the
lobby with the names of rooms. -/
def TelnetPc.Ready (budget : Nat) : TelnetPc → Prop
  | .users msgs _ => msgs.length ≤ budget
  | .lobby rest _ => ∀ p ∈ rest, ∀ b ∈ p.2.name, isPrintable b = true
  | _ => True

/-- The terminal of a session is ready for the next byte and, while a room is shown, shows
the room, the users `who`, the page that was drawn last and the text being typed. -/
structure Displayed (rows : Nat) (T : Term) (who : List (List UInt8)) (t : Telnet) : Prop where
  mode : T.mode = .ground
  height : termRows t.termRows = rows
  named : t.username ≠ []
  ready : t.pc.Ready (wantRows t.termRows)
  view : ∀ c room, t.chat = some c → c.room = some room → t.pc.drawn = true →
    ∃ page, t.shown = some page
      ∧ T.cell = grid (RoomView.lines ⟨room.name, who, page, c.typed⟩ rows)

/-- No line that the session is about to send is wider than the terminal. -/
structure Telnet.Narrow (cols : Nat) (sh : Shared) (t : Telnet) : Prop where
  input : ∀ c, t.chat = some c → (inputText c.compose).length ≤ cols
  draw : ∀ c room msgs notified, t.chat = some c → c.room = some room →
    t.pc = .users msgs notified →
    RoomView.Narrow ⟨room.name, chatRoomUsers sh.db room.id sh.now chatMaxWho, msgs, []⟩ cols

theorem wantRows_height (rows : Nat) : wantRows rows + 5 ≤ termRows rows := by
  have h6 : 6 < termRows rows := by
    unfold termRows
    split <;> omega
  unfold wantRows chatMsgLines
  dsimp only
  split_ifs <;> omega

section Steps

variable {rooms : List ChatRoom} {t t' : Telnet} {c : ChatState} {rows cols : Nat} {T : Term}
  {who : List (List UInt8)}

theorem sends_append {ps : List (Option (List UInt8))} (h : t'.out = t.out ++ ps) :
    t.sends t' = sentBytes ps := by
  unfold Telnet.sends
  rw [h, List.drop_left]

theorem sends_nil (h : t'.out = t.out) : t.sends t' = [] := by
  have hout : t'.out = t.out ++ [] := by rw [h, List.append_nil]
  rw [sends_append hout]
  rfl

/-- A step after which the terminal shows the room, and nothing has scrolled. -/
structure ScreenStep (rows cols : Nat) (T : Term) (who : List (List UInt8)) (t t' : Telnet) : Prop where
  displayed : Displayed rows (T.feed rows cols (t.sends t')) who t'
  scrolled : t.visiting = true → t'.visiting = true →
    (T.feed rows cols (t.sends t')).scrolled = T.scrolled

/-- A step that sends nothing and changes nothing the screen shows. -/
theorem Displayed.quiet (h : Displayed rows T who t) (hout : t'.out = t.out)
    (hrows : t'.termRows = t.termRows) (hname : t'.username = t.username)
    (hready : t'.pc.Ready (wantRows t.termRows))
    (hview : ∀ c room, t'.chat = some c → c.room = some room → t'.pc.drawn = true →
      ∃ page, t'.shown = some page
        ∧ T.cell = grid (RoomView.lines ⟨room.name, who, page, c.typed⟩ rows)) : ScreenStep rows cols T who t t' := by
  have hfeed : T.feed rows cols (t.sends t') = T := by
    rw [sends_nil hout, Term.feed_nil]
  refine ⟨?_, fun _ _ => by rw [hfeed]⟩
  rw [hfeed]
  exact ⟨h.mode, by rw [hrows]; exact h.height, by rw [hname]; exact h.named,
    by rw [hrows]; exact hready, hview⟩

theorem shown_of_drawn (h : t.pc.drawn = true) :
    t.shown = t.screens.getLast?.map RoomScreen.page := by
  unfold Telnet.shown
  cases hpc : t.pc with
  | users msgs n =>
    rw [hpc] at h
    exact absurd h nofun
  | _ => rfl

/-- On with the same chat. -/
theorem Displayed.goto (h : Displayed rows T who t) {pc : TelnetPc}
    (hdrawn : pc.drawn = true → t.pc.drawn = true) (hready : pc.Ready (wantRows t.termRows)) :
    ScreenStep rows cols T who t { t with pc := pc } := by
  refine h.quiet rfl rfl rfl hready ?_
  intro c room hc hr hpc
  obtain ⟨page, hshown, hcell⟩ := h.view c room hc hr (hdrawn hpc)
  refine ⟨page, ?_, hcell⟩
  rw [shown_of_drawn hpc, ← hshown, shown_of_drawn (hdrawn hpc)]

/-- On to a point at which the screen will be drawn, or has been left. -/
theorem Displayed.leave (h : Displayed rows T who t) (hout : t'.out = t.out)
    (hrows : t'.termRows = t.termRows) (hname : t'.username = t.username)
    (hdrawn : t'.pc.drawn = false) (hready : t'.pc.Ready (wantRows t.termRows)) :
    ScreenStep rows cols T who t t' := by
  refine h.quiet hout hrows hname hready ?_
  intro c room _ _ hpc
  rw [hdrawn] at hpc
  exact absurd hpc nofun

/-- Outside the rooms, whatever whole text is sent. -/
theorem Displayed.outside (h : Displayed rows T who t) {ps : List (Option (List UInt8))}
    (hout : t'.out = t.out ++ ps) (hwhole : Whole rows cols (sentBytes ps))
    (hrows : t'.termRows = t.termRows) (hname : t'.username = t.username)
    (hroom : ∀ c, t'.chat = some c → c.room = none)
    (hready : t'.pc.Ready (wantRows t.termRows)) :
    ScreenStep rows cols T who t t' := by
  refine ⟨⟨?_, by rw [hrows]; exact h.height, by rw [hname]; exact h.named,
    by rw [hrows]; exact hready, ?_⟩, ?_⟩
  · rw [sends_append hout]
    exact hwhole T h.mode
  · intro c room hc hr
    rw [hroom c hc] at hr
    exact absurd hr nofun
  · intro _ hvisit
    unfold Telnet.visiting at hvisit
    obtain ⟨c, hc, hsome⟩ := (Option.any_eq_true _ _).mp hvisit
    rw [hroom c hc] at hsome
    exact absurd hsome nofun

/-- A key of the compose line. -/
theorem Displayed.edit (h : Displayed rows T who t) (hok : t.Ok) (hheight : rows < 65536)
    (hpc : t.pc = .poll) (hc : t.chat = some c) (hst : c.st = .inRoom ∨ c.st = .compose)
    {text : List UInt8} (hlen : text.length ≤ 511) (hbytes : ∀ b ∈ text, isPrintable b = true)
    (hfits : (inputText text).length ≤ cols) :
    ScreenStep rows cols T who t
      ({ t with chat := some { c with st := .compose, compose := text } }.send
        [composeLine t.termRows text]) := by
  have hset : c.Settled := by
    have hfit := Telnet.fits_of_ok hc hok
    rw [hpc] at hfit
    exact hfit.1
  obtain ⟨room, hroom⟩ := Option.isSome_iff_exists.mp (hset.mpr hst)
  obtain ⟨page, hshown, hcell⟩ := h.view c room hc hroom (by rw [hpc]; rfl)
  have hrows := h.height
  have hold : Written T (RoomView.lines ⟨room.name, who, page, c.typed⟩ (termRows t.termRows)) T.row
      T.scrolled := ⟨by rw [hrows]; exact hcell, rfl, h.mode, rfl⟩
  have hnew := feed_composeLine hbytes hlen hfits (by rw [hrows]; exact hheight) hold
  rw [hrows] at hnew
  have hsends : t.sends ({ t with chat := some { c with st := .compose, compose := text } }.send
      [composeLine t.termRows text]) = sentBytes [composeLine t.termRows text] := sends_append rfl
  refine ⟨⟨?_, hrows, h.named, h.ready, ?_⟩, fun _ _ => ?_⟩
  · rw [hsends]
    exact hnew.mode
  · intro c' room' hc' hr' _
    cases hc'
    cases hroom.symm.trans hr'
    refine ⟨page, ?_, ?_⟩
    · have hdrawn : t.pc.drawn = true := by rw [hpc]; rfl
      rw [shown_of_drawn hdrawn] at hshown
      rw [shown_of_drawn (by exact hdrawn)]
      exact hshown
    · rw [hsends]
      exact hnew.cell
  · rw [hsends]
    exact hnew.scrolled

theorem messagesBefore_length (db : ChatDb) (roomId beforeId : Int) (limit max : Nat) :
    (chatDbMessagesBefore db roomId beforeId limit max).length ≤ limit := by
  unfold chatDbMessagesBefore OrderedLog.sortAsc OrderedLog.sortDesc
  simp only [List.length_map, List.length_take, List.length_insertionSort]
  omega

/-- `render_room`, with the compose line for a user who is writing. -/
theorem Displayed.draw {sh : Shared} {room : ChatRoom} {msgs : List ChatMsg} {notified : Bool}
    (h : Displayed rows T who t) (hok : t.Ok) (htexts : t.Texts) (hclean : t.Clean rooms)
    (hstore : StoreClean sh.db) (hnames : ∀ room ∈ rooms, ∀ b ∈ room.name, isPrintable b = true)
    (hnarrow : t.Narrow cols sh) (hheight : rows < 65536) (hpc : t.pc = .users msgs notified)
    (hc : t.chat = some c) (hr : c.room = some room) :
    ScreenStep rows cols T (chatRoomUsers sh.db room.id sh.now chatMaxWho) t
      (t.drawRoom c room msgs (chatRoomUsers sh.db room.id sh.now chatMaxWho) notified) := by
  obtain ⟨hwho, hcount⟩ := users_clean hstore room.id sh.now chatMaxWho
  have hrows := h.height
  have hmsgs := h.ready
  rw [hpc] at hmsgs
  have hpage : ∀ m ∈ msgs, m.Clean := by
    have hpcClean := hclean.pc
    rw [hpc] at hpcClean
    exact hpcClean
  have hproper : RoomView.Proper ⟨room.name, chatRoomUsers sh.db room.id sh.now chatMaxWho, msgs, []⟩
      (termRows t.termRows) :=
    ⟨hnames room (hclean.room c room hc hr), hwho, hpage,
      Nat.le_trans (Nat.add_le_add_right hmsgs 5) (wantRows_height t.termRows)⟩
  have hdraw := feed_roomScreen hproper (hnarrow.draw c room msgs notified hc hr hpc)
    (Nat.le_of_lt_succ room.name_length) hcount (by rw [hrows]; exact hheight) h.mode
  have hfit := Telnet.fits_of_ok hc hok
  rw [hpc] at hfit
  obtain ⟨-, hst, -⟩ := hfit
  -- the compose line follows when, and only when, the user is writing
  have hlast : Written (T.feed rows cols (t.sends (t.drawRoom c room msgs
      (chatRoomUsers sh.db room.id sh.now chatMaxWho) notified)))
      (RoomView.lines ⟨room.name, chatRoomUsers sh.db room.id sh.now chatMaxWho, msgs, c.typed⟩ rows)
      (T.feed rows cols (t.sends (t.drawRoom c room msgs
      (chatRoomUsers sh.db room.id sh.now chatMaxWho) notified))).row T.scrolled := by
    by_cases hcompose : c.st = .compose
    · have hnot : notified = true := by
        rcases hst with hst | ⟨-, hnot⟩
        · exact absurd (hst.symm.trans hcompose) nofun
        · exact hnot
      have hsends : t.sends (t.drawRoom c room msgs
          (chatRoomUsers sh.db room.id sh.now chatMaxWho) notified)
          = sentBytes (roomScreen room.name t.termRows msgs
              (chatRoomUsers sh.db room.id sh.now chatMaxWho))
            ++ sentBytes [composeLine t.termRows c.compose] := by
        rw [← sentBytes_append]
        apply sends_append
        unfold Telnet.drawRoom
        dsimp only
        rw [if_pos ⟨hnot, hcompose⟩, List.append_assoc]
      have hchat := htexts.chat c hc
      have hline := feed_composeLine hchat.text_bytes hchat.text_length (hnarrow.input c hc)
        (by rw [hrows]; exact hheight) hdraw
      have htyped : c.typed = c.compose := if_pos hcompose
      rw [hsends, Term.feed_append, htyped, ← hrows]
      exact ⟨hline.cell, rfl, hline.mode, hline.scrolled⟩
    · have hsends : t.sends (t.drawRoom c room msgs
          (chatRoomUsers sh.db room.id sh.now chatMaxWho) notified)
          = sentBytes (roomScreen room.name t.termRows msgs
              (chatRoomUsers sh.db room.id sh.now chatMaxWho)) := by
        apply sends_append
        unfold Telnet.drawRoom
        dsimp only
        rw [if_neg (fun hh => hcompose hh.2), List.append_nil]
      have htyped : c.typed = [] := if_neg hcompose
      rw [hsends, htyped, ← hrows]
      exact ⟨hdraw.cell, rfl, hdraw.mode, hdraw.scrolled⟩
  refine ⟨⟨hlast.mode, hrows, h.named, trivial, ?_⟩, fun _ _ => hlast.scrolled⟩
  intro c' room' hc' hr' _
  cases hc.symm.trans hc'
  cases hr.symm.trans hr'
  refine ⟨msgs, ?_, hlast.cell⟩
  show (t.screens ++ [_]).getLast?.map RoomScreen.page = some msgs
  rw [List.getLast?_concat]
  rfl

theorem whole_lobbyHead : Whole rows cols (sentBytes [some lobbyHead]) :=
  whole_of_modes (by decide +kernel)

theorem whole_lobbyFoot : Whole rows cols (sentBytes [some lobbyFoot]) :=
  whole_of_modes (by decide +kernel)

theorem whole_lobbyLine (i online : Nat) {name : List UInt8}
    (hname : ∀ b ∈ name, isPrintable b = true) :
    Whole rows cols (sentBytes [lobbyLine i name online]) := by
  have hpad : ∀ b ∈ List.replicate (10 - name.length) (32 : UInt8), isPrintable b = true := by
    intro b hb
    rw [(List.mem_replicate.mp hb).2]
    decide
  have hline : Whole rows cols (ascii "  \x1b[33m[" ++ decimal (i + 1) ++ ascii "]\x1b[0m  #" ++ name
      ++ List.replicate (10 - name.length) 32 ++ ascii " \x1b[2m" ++ decimal online
      ++ ascii " online\x1b[0m\r\n") := by
    have hopen : Whole rows cols (ascii "  \x1b[33m[") := whole_of_modes (by decide +kernel)
    have hhash : Whole rows cols (ascii "]\x1b[0m  #") := whole_of_modes (by decide +kernel)
    have hdim : Whole rows cols (ascii " \x1b[2m") := whole_of_modes (by decide +kernel)
    have hend : Whole rows cols (ascii " online\x1b[0m\r\n") := whole_of_modes (by decide +kernel)
    exact ((((((hopen.append (draws_printable (decimal_printable _)).whole).append hhash).append
      (draws_printable hname).whole).append (draws_printable hpad).whole).append hdim).append
      (draws_printable (decimal_printable _)).whole).append hend
  unfold lobbyLine csendf bufSend
  split_ifs
  · unfold sentBytes
    simp only [List.map_cons, List.map_nil, Option.getD_some, List.flatten_cons, List.flatten_nil,
      List.append_nil]
    exact hline
  · exact draws_nil.whole

/-- `render_lobby`, up to its first query. -/
theorem Displayed.renderLobby (h : Displayed rows T who t)
    (hnames : ∀ room ∈ rooms, ∀ b ∈ room.name, isPrintable b = true) {c' : ChatState}
    (hroom : c'.room = none) (quit : Bool) :
    ScreenStep rows cols T who t ({ t with onNotify := false, chat := some c' }.renderLobby rooms quit) := by
  refine h.outside rfl whole_lobbyHead rfl rfl ?_ ?_
  · intro c hc
    cases hc
    exact hroom
  · intro p hp
    exact hnames p.2 (List.of_mem_zip hp).2

/-- The chat is closed. -/
theorem Displayed.freed (h : Displayed rows T who t) (closing : Bool) :
    ScreenStep rows cols T who t (t.chatFreed closing) := by
  refine h.quiet rfl rfl rfl ?_ ?_
  · cases closing <;> exact trivial
  · intro c room hc
    exact absurd hc nofun

/-- **One key.** -/
theorem Displayed.key {key : UInt8} (h : Displayed rows T who t) (hok : t.Ok) (htexts : t.Texts)
    (hheight : rows < 65536) (hpc : t.pc = .poll) (hc : t.chat = some c)
    (hnarrow' : ∀ c', t'.chat = some c' → (inputText c'.compose).length ≤ cols)
    (hkey : Telnet.KeyStep rooms t c key t') : ScreenStep rows cols T who t t' := by
  have hchat := htexts.chat c hc
  have hdrawn : t.pc.drawn = true := by rw [hpc]; rfl
  have hprompt : c.st ≠ .username := fun hst => h.named (hchat.chosen.mp hst)
  cases hkey with
  | ignored =>
    refine h.quiet rfl rfl rfl h.ready (fun c' room hc' hr hpc' => h.view c' room hc' hr hpc')
  | named hst hbuf => exact absurd hst hprompt
  | editName buf payload hst hbuf => exact absurd hst hprompt
  | quitLobby hst => exact h.goto nofun trivial
  | enter room hst hroom => exact h.leave rfl rfl rfl rfl trivial
  | leave quit hst => exact h.goto nofun trivial
  | compose hst =>
    exact h.edit hok hheight hpc hc (Or.inl hst) (Nat.zero_le _) nofun (hnarrow' _ rfl)
  | older hst => exact h.goto (fun _ => hdrawn) trivial
  | newest hst => exact h.leave rfl rfl rfl rfl trivial
  | cancel hst => exact h.leave rfl rfl rfl rfl trivial
  | blank hst htext => exact h.leave rfl rfl rfl rfl trivial
  | post room user body hst hroom hclean => exact h.goto (fun _ => hdrawn) trivial
  | dropped hst hdrop => exact h.goto (fun _ => hdrawn) trivial
  | editText text hst htext =>
    have hedit := @Displayed.edit t c rows cols T who h hok hheight hpc hc (Or.inr hst) text
    rw [← hst] at hedit
    refine hedit ?_ ?_ (hnarrow' _ rfl)
    · rcases htext with htext | ⟨hlen, -, htext⟩
      · rw [htext, List.length_dropLast]
        exact Nat.le_trans (Nat.sub_le _ _) hchat.text_length
      · rw [htext, List.length_append]
        exact hlen
    · intro b hb
      rcases htext with htext | ⟨-, hbyte, htext⟩
      · rw [htext] at hb
        exact hchat.text_bytes b (List.dropLast_subset _ hb)
      · rw [htext] at hb
        rcases List.mem_append.mp hb with hb | hb
        · exact hchat.text_bytes b hb
        · rw [List.mem_singleton.mp hb]
          exact hbyte

/-- **One step that does not draw a page.**  Whatever the session does next in its chat,
short of a change of the terminal's height, its terminal keeps showing the room. -/
theorem Displayed.keep {sh : Shared} {bytes : Nat} {shutdown : Bool} {choice : Choice} {op : Op}
    (h : Displayed rows T who t) (hok : t.Ok) (htexts : t.Texts)
    (hnames : ∀ room ∈ rooms, ∀ b ∈ room.name, isPrintable b = true)
    (hheight : rows < 65536) (hc : t.chat = some c) (husers : ∀ msgs n, t.pc ≠ .users msgs n)
    (hsize : ∀ n, choice ≠ .resize n)
    (hnarrow' : ∀ c', t'.chat = some c' → (inputText c'.compose).length ≤ cols)
    (hstep : t.step rooms sh bytes shutdown choice = some (t', op)) : ScreenStep rows cols T who t t' := by
  by_cases hpoll : t.pc = .poll
  · have hdrawn : t.pc.drawn = true := by rw [hpoll]; rfl
    cases (Telnet.step_poll hpoll hc hstep).2 with
    | key k hchoice =>
      exact h.key hok htexts hheight hpoll hc hnarrow' (Telnet.chatHandleKey_step rooms k)
    | resize n hchoice => exact absurd hchoice (hsize n)
    | readable hchoice => exact h.goto (fun _ => hdrawn) trivial
    | close hchoice => exact h.goto nofun trivial
  -- what a point of the handler says of the chat
  have hfits := Telnet.fits_of_ok hc hok
  cases Telnet.step_stepped hstep with
  | key k c' hpc => exact absurd hpc hpoll
  | askName hpc => exact absurd hpc hpoll
  | openLobby hpc => exact absurd hpc hpoll
  | resize n hpc => exact absurd hpc hpoll
  | readable hpc => exact absurd hpc hpoll
  | close hpc hnone => exact absurd (hc.symm.trans hnone) nofun
  | closeChat c' hpc => exact h.goto nofun trivial
  | lobbyRoom i room rest quit hpc =>
    have hready := h.ready
    rw [hpc] at hfits hready
    refine h.outside rfl (whole_lobbyLine i _ (hready (i, room) List.mem_cons_self)) rfl rfl ?_ ?_
    · intro c' hc'
      cases hc.symm.trans hc'
      exact hfits.1
    · exact fun p hp => hready p (List.mem_cons_of_mem _ hp)
  | lobbyEnd quit hpc =>
    rw [hpc] at hfits
    refine h.outside rfl whole_lobbyFoot rfl rfl ?_ ?_
    · intro c' hc'
      cases hc.symm.trans hc'
      exact hfits.1
    · cases quit <;> exact trivial
  | enterPresence c' room hpc => exact h.goto nofun trivial
  | enterSubscribe c' room hpc => exact h.leave rfl rfl rfl rfl trivial
  | page c' room notified msgs hpc hc' hr hmsgs =>
    refine h.leave rfl rfl rfl rfl ?_
    show msgs.length ≤ wantRows t.termRows
    rw [hmsgs]
    exact messagesBefore_length _ _ _ _ _
  | draw c' room notified msgs hpc hc' hr => exact absurd hpc (husers msgs notified)
  | oldest c' room hpc => exact h.goto (fun _ => by rw [hpc]; rfl) trivial
  | older c' room hpc => exact h.leave rfl rfl rfl rfl trivial
  | post p p' op hpc hpost => exact h.goto (fun _ => by rw [hpc]; rfl) trivial
  | posted p op hpc hpost => exact h.goto (fun _ => by rw [hpc]; rfl) trivial
  | postPresence c' room hpc => exact h.leave rfl rfl rfl rfl trivial
  | leave c' room quit hpc => exact h.goto nofun trivial
  | leaveNone c' quit hpc hc' hr =>
    have hroom : ({ c' with st := .lobby } : ChatState).room = none := hr
    exact h.renderLobby hnames hroom quit
  | left c' room quit hpc => exact h.renderLobby hnames rfl quit
  | drain hpc hbytes =>
    exact h.quiet rfl rfl rfl h.ready (fun c' room hc' hr hpc' => h.view c' room hc' hr hpc')
  | drainEnd hpc hbytes => exact h.goto (fun _ => by rw [hpc]; rfl) trivial
  | redraw c' hpc => exact h.goto nofun trivial
  | idle hpc => exact h.goto (fun _ => by rw [hpc]; rfl) trivial
  | destroy c' room closing hpc => exact h.goto nofun trivial
  | destroyNone c' closing hpc => exact h.freed closing
  | destroyed c' room closing hpc => exact h.freed closing

/-- The users a step of the session lists: those it has just asked for, or the last ones. -/
def Telnet.listed (sh : Shared) (who : List (List UInt8)) (t : Telnet) : List (List UInt8) :=
  match t.pc with
  | .users _ _ =>
      ((t.chat.bind ChatState.room).map fun room =>
        chatRoomUsers sh.db room.id sh.now chatMaxWho).getD who
  | _ => who

theorem Telnet.listed_users {sh : Shared} {room : ChatRoom} {msgs : List ChatMsg} {notified : Bool}
    (hpc : t.pc = .users msgs notified) (hc : t.chat = some c) (hr : c.room = some room) :
    t.listed sh who = chatRoomUsers sh.db room.id sh.now chatMaxWho := by
  unfold Telnet.listed
  rw [hpc, hc]
  show (c.room.map _).getD who = _
  rw [hr]
  rfl

theorem Telnet.listed_of_ne {sh : Shared} (hpc : ∀ msgs n, t.pc ≠ .users msgs n) :
    t.listed sh who = who := by
  unfold Telnet.listed
  split
  · rename_i msgs n heq
    exact absurd heq (hpc msgs n)
  · rfl

/-- **One step of the session.** -/
theorem Displayed.step {sh : Shared} {bytes : Nat} {shutdown : Bool} {choice : Choice} {op : Op}
    (h : Displayed rows T who t) (hok : t.Ok) (htexts : t.Texts) (hclean : t.Clean rooms)
    (hstore : StoreClean sh.db) (hnames : ∀ room ∈ rooms, ∀ b ∈ room.name, isPrintable b = true)
    (hheight : rows < 65536) (hnarrow : t.Narrow cols sh) (hc : t.chat = some c)
    (hsize : ∀ n, choice ≠ .resize n)
    (hnarrow' : ∀ c', t'.chat = some c' → (inputText c'.compose).length ≤ cols)
    (hstep : t.step rooms sh bytes shutdown choice = some (t', op)) :
    ScreenStep rows cols T (t.listed sh who) t t' := by
  by_cases husers : ∃ msgs n, t.pc = .users msgs n
  · obtain ⟨msgs, notified, hpc⟩ := husers
    unfold Telnet.step at hstep
    rw [hpc] at hstep
    obtain ⟨c', room, hc', hr, heq⟩ := Telnet.of_room hstep
    cases heq
    rw [Telnet.listed_users hpc hc' hr]
    exact h.draw hok htexts hclean hstore hnames hnarrow hheight hpc hc' hr
  · have husers : ∀ msgs n, t.pc ≠ .users msgs n := fun msgs n hpc => husers ⟨msgs, n, hpc⟩
    rw [Telnet.listed_of_ne husers]
    exact h.keep hok htexts hnames hheight hc husers hsize hnarrow' hstep

end Steps

/-! ## §2. Whole runs. -/

/-- A terminal, with the users that the server listed last. -/
structure Screen where
  term : Term
  who : List (List UInt8)

/-- What a connection has sent on its way from `p` to `p'`, if it is a telnet session. -/
def Prog.sends : Prog → Prog → List UInt8
  | .telnet t, .telnet t' => t.sends t'
  | _, _ => []

def Prog.listed (sh : Shared) (who : List (List UInt8)) : Prog → List (List UInt8)
  | .telnet t => t.listed sh who
  | _ => who

/-- The terminal of `y` receives what a step of the server sends to it. -/
def watchScreen (rooms : List ChatRoom) (y rows cols : Nat) (s : Sys) (act : Act) (S : Screen) :
    Screen :=
  { term := S.term.feed rows cols
      (((s.step rooms act).map fun s' => (s.conns y).prog.sends (s'.conns y).prog).getD [])
    who := if act.actor = some y then (s.conns y).prog.listed s.sh S.who else S.who }

/-- The server from `s` on, with the terminal of `y` beside it; `S` is the terminal at `s`. -/
def screenSystem (rooms : List ChatRoom) (y rows cols : Nat) (s : Sys) (S : Screen) :
    TransitionSystem (Sys × Screen) Act :=
  ((chatSystem rooms).startingAt s).monitored (fun _ => S) (watchScreen rooms y rows cols)

/-- The connection is a session with an open chat, and no line of it is wider than the
terminal. -/
def Prog.Chatting (cols : Nat) (sh : Shared) (p : Prog) : Prop :=
  ∃ t c, p = .telnet t ∧ t.chat = some c ∧ t.Narrow cols sh

/-- The chat of `y` is open before and after the step, and its terminal keeps its height. -/
def Watching (y cols : Nat) (p : Sys × Screen) (act : Act) (p' : Sys × Screen) : Prop :=
  (∀ n, act ≠ .run y (.resize n))
  ∧ (p.1.conns y).prog.Chatting cols p.1.sh ∧ (p'.1.conns y).prog.Chatting cols p'.1.sh

/-- What the terminal of a connection shows. -/
def Prog.Displayed (rows : Nat) (S : Screen) (p : Prog) : Prop :=
  ∃ t, p = .telnet t ∧ NetServer.Chat.Displayed rows S.term S.who t

/-- The connection is a session in a room. -/
def Prog.visiting : Prog → Bool
  | .telnet t => t.visiting
  | _ => false

/-- **One step of the server**, seen at the terminal. -/
theorem displayed_step {rooms : List ChatRoom} {y rows cols : Nat} {s s' : Sys} {act : Act}
    {S S' : Screen} (hclean : s.Clean rooms) (htexts : s.Texts)
    (hnames : ∀ room ∈ rooms, ∀ b ∈ room.name, isPrintable b = true) (hheight : rows < 65536)
    (h : (s.conns y).prog.Displayed rows S) (hstep : s.step rooms act = some s')
    (hS' : S' = watchScreen rooms y rows cols s act S) (hwatch : Watching y cols (s, S) act (s', S')) :
    (s'.conns y).prog.Displayed rows S'
    ∧ ((s.conns y).prog.visiting = true → (s'.conns y).prog.visiting = true →
        S'.term.scrolled = S.term.scrolled) := by
  obtain ⟨t, hy, hdisp⟩ := h
  obtain ⟨hsize, ⟨t1, c, hy1, hc, hnarrow⟩, ⟨t', c', hy', -, hnarrow'⟩⟩ := hwatch
  cases hy.symm.trans hy1
  have hterm : S'.term = S.term.feed rows cols (t.sends t') := by
    rw [hS']
    unfold watchScreen
    rw [hstep, hy]
    show S.term.feed rows cols ((Prog.telnet t).sends (s'.conns y).prog) = _
    rw [hy']
    rfl
  cases sessionStep hstep hy with
  | other hact hprog' =>
    cases hprog'.symm.trans hy'
    have hwho : S'.who = S.who := by
      rw [hS']
      exact if_neg hact
    rw [sends_nil rfl, Term.feed_nil] at hterm
    exact ⟨⟨t, hprog', by rw [hterm, hwho]; exact hdisp⟩, fun _ _ => by rw [hterm]⟩
  | closed hpc hprog' => exact absurd (hprog'.symm.trans hy') nofun
  | own t2 choice op s1 hact hown happly hs' hprog' =>
    cases hprog'.symm.trans hy'
    have hwho : S'.who = t.listed s.sh S.who := by
      rw [hS']
      show (if act.actor = some y then (s.conns y).prog.listed s.sh S.who else S.who) = _
      rw [if_pos (by rw [hact]; rfl), hy]
      rfl
    have hthread : t.Ok := by
      have hok := hclean.threads y
      rw [hy] at hok
      exact hok
    have htext : t.Clean rooms := by
      have hprog := hclean.progs y
      rw [hy] at hprog
      exact hprog
    have hsize' : ∀ n, choice ≠ .resize n := by
      intro n hn
      apply hsize n
      rw [hact, hn]
    have hscreen := hdisp.step hthread (htexts y t hy) htext hclean.store hnames hheight hnarrow hc
      hsize' hnarrow'.input hown
    rw [hy, hy']
    refine ⟨⟨t', rfl, ?_⟩, ?_⟩
    · rw [hterm, hwho]
      exact hscreen.displayed
    · rw [hterm]
      exact hscreen.scrolled

/-- A cleared terminal. -/
def clearScreen : Screen :=
  { term := { cell := fun _ _ => blank, row := 0, col := 0, full := false, mode := .ground, scrolled := 0 }
    who := [] }

/-- The test of `Telnet.Narrow`. -/
def Telnet.narrow (cols : Nat) (sh : Shared) (t : Telnet) (c : ChatState) : Bool :=
  decide ((inputText c.compose).length ≤ cols) && c.room.all fun room =>
    match t.pc with
    | .users msgs _ =>
        decide (RoomView.Narrow ⟨room.name, chatRoomUsers sh.db room.id sh.now chatMaxWho, msgs, []⟩ cols)
    | _ => true

theorem Telnet.narrow_chatting {cols : Nat} {sh : Shared} {p : Prog}
    (h : p.chats (Telnet.narrow cols sh) = true) : p.Chatting cols sh := by
  obtain ⟨t, c, hp, hc, htest⟩ := Prog.exists_chat h
  obtain ⟨hinput, hdraw⟩ := (Bool.and_eq_true _ _).mp htest
  refine ⟨t, c, hp, hc, ?_, ?_⟩
  · intro c' hc'
    cases hc.symm.trans hc'
    exact of_decide_eq_true hinput
  · intro c' room msgs notified hc' hr hpc
    cases hc.symm.trans hc'
    rw [hr, hpc] at hdraw
    exact of_decide_eq_true hdraw

/-- The test of `Watching` for connection 0. -/
def watchTest (cols : Nat) (p : Sys × Screen) (act : Act) : Bool :=
  let open0 := fun (s : Sys) => (s.conns 0).prog.chats (Telnet.narrow cols s.sh)
  (match act with
    | .run _ (.resize _) => false
    | _ => true) && open0 p.1 && ((p.1.step [demoRoom] act).any open0)

/-- The visitor of the lobby enters the room, reads what another posts, and types `h`. -/
def typingActs : List Act :=
  (enterActs 0).drop 6 ++ postActs 1 1 ++ redrawActs 0 ++ [.run 0 (.key 13), .run 0 (.key 104)]

end NetServer.Chat
