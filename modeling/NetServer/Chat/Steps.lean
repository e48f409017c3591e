/-
  NetServer.Chat.Steps — what a connection's thread can do next, said once.

  The programs are read back as lists of cases: `Telnet.KeyStep` for a key
  given to an open chat, `Telnet.Stepped` and `Sse.Stepped` for a step of a
  session and of an event stream, `ProgStepped` for a step of any connection,
  each case with the conditions under which the source takes it.  Invariants
  of threads split on these lists and never unfold a handler.

    • `Telnet.chatHandleKey_step` — every key is a `KeyStep`;
    • `Telnet.step_stepped` — every step of a session is a `Stepped`;
    • `Sse.step_stepped` — every step of an event stream is one;
    • `progStep_stepped` — every step of a connection is a `ProgStepped`.
-/
import NetServer.Chat.System

namespace NetServer.Chat

namespace Telnet

/-- A chat that has just been opened. -/
def chatBlank : ChatState :=
  { room := none, st := .username, compose := [], usernameBuf := [], oldestShown := 0,
    atLive := false }

/-! ## §1. Keys. -/

/-- What a key does to an open chat. -/
inductive KeyStep (rooms : List ChatRoom) (t : Telnet) (c : ChatState) (key : UInt8) :
    Telnet → Prop where
  | ignored : KeyStep rooms t c key t
  /-- Enter behind a name. -/
  | named (hst : c.st = .username) (hbuf : c.usernameBuf ≠ []) :
      KeyStep rooms t c key
        ({ t with username := c.usernameBuf.take 31, chat := some { c with st := .lobby } }.renderLobby
          rooms false)
  /-- Erase or add a byte of the name. -/
  | editName (buf : List UInt8) (payload : List UInt8) (hst : c.st = .username)
      (hbuf : buf = c.usernameBuf.dropLast
        ∨ c.usernameBuf.length < 20 ∧ isUserByte key = true ∧ buf = c.usernameBuf ++ [key]) :
      KeyStep rooms t c key ({ t with chat := some { c with usernameBuf := buf } }.send [some payload])
  /-- Quit from the lobby. -/
  | quitLobby (hst : c.st = .lobby) : KeyStep rooms t c key { t with pc := .destroyUnsubscribe false }
  | enter (room : ChatRoom) (hst : c.st = .lobby) (hroom : room ∈ rooms) :
      KeyStep rooms t c key (t.enterRoom c room)
  | leave (quit : Bool) (hst : c.st = .inRoom) :
      KeyStep rooms t c key { t with pc := .leaveUnsubscribe quit }
  | compose (hst : c.st = .inRoom) :
      KeyStep rooms t c key
        ({ t with chat := some { c with st := .compose, compose := [] } }.send
          [composeLine t.termRows []])
  | older (hst : c.st = .inRoom) : KeyStep rooms t c key { t with pc := .older }
  | newest (hst : c.st = .inRoom) :
      KeyStep rooms t c key { t with chat := some { c with atLive := true }, pc := .page false }
  | cancel (hst : c.st = .compose) :
      KeyStep rooms t c key { t with chat := some { c with st := .inRoom }, pc := .page false }
  /-- Enter without a text. -/
  | blank (hst : c.st = .compose) (htext : c.compose = []) : KeyStep rooms t c key (t.resume c)
  /-- Enter with a text. -/
  | post (room : ChatRoom) (user body : List UInt8) (hst : c.st = .compose)
      (hroom : c.room = some room) (hclean : cleanPost t.username c.compose = some (user, body)) :
      KeyStep rooms t c key { t with pc := .post (.insert room.id user body) }
  /-- Enter with a text of which nothing is left. -/
  | dropped (hst : c.st = .compose)
      (hdrop : c.room = none ∨ cleanPost t.username c.compose = none) :
      KeyStep rooms t c key { t with pc := .postPresence }
  /-- Erase or add a byte of the text. -/
  | editText (text : List UInt8) (hst : c.st = .compose)
      (htext : text = c.compose.dropLast
        ∨ c.compose.length < 511 ∧ isPrintable key = true ∧ text = c.compose ++ [key]) :
      KeyStep rooms t c key
        ({ t with chat := some { c with compose := text } }.send [composeLine t.termRows text])

section Keys

variable {t : Telnet} {c : ChatState} (rooms : List ChatRoom) (key : UInt8)

theorem handleUsername_step (hst : c.st = .username) :
    KeyStep rooms t c key (t.handleUsername rooms c key) := by
  unfold handleUsername
  split
  · split
    · exact .ignored
    · rename_i hbuf
      exact .named hst hbuf
  split
  · exact .editName _ _ hst (Or.inl rfl)
  split
  · rename_i htype
    exact .editName _ _ hst (Or.inr ⟨htype.1, htype.2, rfl⟩)
  · exact .ignored

theorem handleLobby_step (hst : c.st = .lobby) :
    KeyStep rooms t c key (t.handleLobby rooms c key) := by
  unfold handleLobby
  split
  · exact .quitLobby hst
  split
  · split
    · rename_i room hroom
      exact .enter room hst (List.mem_of_getElem? hroom)
    · exact .ignored
  · exact .ignored

theorem handleInRoom_step (hst : c.st = .inRoom) : KeyStep rooms t c key (t.handleInRoom c key) := by
  unfold handleInRoom
  split
  · exact .leave true hst
  split
  · exact .leave false hst
  split
  · exact .compose hst
  split
  · exact .older hst
  split
  · exact .newest hst
  · exact .ignored

theorem startPost_step (hst : c.st = .compose) : KeyStep rooms t c key (t.startPost c) := by
  unfold startPost
  rcases Option.eq_none_or_eq_some c.room with hr | ⟨room, hr⟩
  · rw [hr]
    exact .dropped hst (Or.inl hr)
  rw [hr]
  cases hclean : cleanPost t.username c.compose with
  | none => exact .dropped hst (Or.inr hclean)
  | some ub => exact .post room ub.1 ub.2 hst hr hclean

theorem handleCompose_step (hst : c.st = .compose) :
    KeyStep rooms t c key (t.handleCompose c key) := by
  unfold handleCompose
  split
  · exact .cancel hst
  split
  · split
    · rename_i htext
      exact .blank hst htext
    · exact startPost_step rooms key hst
  split
  · exact .editText _ hst (Or.inl rfl)
  split
  · rename_i htype
    exact .editText _ hst (Or.inr ⟨htype.1, htype.2, rfl⟩)
  · exact .ignored

/-- Every key is one of those `KeyStep` lists. -/
theorem chatHandleKey_step : KeyStep rooms t c key (t.chatHandleKey rooms c key) := by
  unfold chatHandleKey
  cases hst : c.st with
  | username => exact handleUsername_step rooms key hst
  | lobby => exact handleLobby_step rooms key hst
  | inRoom => exact handleInRoom_step rooms key hst
  | compose => exact handleCompose_step rooms key hst

end Keys

/-! ## §2. Steps of the thread. -/

/-- What a step of a session thread does, by the point it starts from. -/
inductive Stepped (rooms : List ChatRoom) (sh : Shared) (bytes : Nat) (shutdown : Bool)
    (choice : Choice) (t : Telnet) : Telnet → Op → Prop where
  | key (k : UInt8) (c : ChatState) {t' : Telnet} (hpc : t.pc = .poll) (hc : t.chat = some c)
      (hkey : KeyStep rooms t c k t') : Stepped rooms sh bytes shutdown choice t t' .skip
  /-- The chat is opened by a session without a name. -/
  | askName (hpc : t.pc = .poll) (hc : t.chat = none) (hname : t.username = []) :
      Stepped rooms sh bytes shutdown choice t
        ({ t with chat := some chatBlank }.send (usernameScreen [])) .skip
  /-- The chat is opened by a session that has one. -/
  | openLobby (hpc : t.pc = .poll) (hc : t.chat = none) (hname : t.username ≠ []) :
      Stepped rooms sh bytes shutdown choice t
        ({ t with chat := some { chatBlank with st := .lobby } }.renderLobby rooms false) .skip
  | resize (rows : Nat) (hpc : t.pc = .poll) :
      Stepped rooms sh bytes shutdown choice t { t with termRows := rows } .skip
  | readable (hpc : t.pc = .poll) (hbytes : 0 < bytes) :
      Stepped rooms sh bytes shutdown choice t { t with pc := .drain } .skip
  /-- The session ends without a chat. -/
  | close (hpc : t.pc = .poll ∨ t.pc = .drained) (hc : t.chat = none) :
      Stepped rooms sh bytes shutdown choice t { t with pc := .closing } .skip
  /-- The session ends with one. -/
  | closeChat (c : ChatState) (hpc : t.pc = .poll ∨ t.pc = .drained) (hc : t.chat = some c) :
      Stepped rooms sh bytes shutdown choice t { t with pc := .destroyUnsubscribe true } .skip
  | lobbyRoom (i : Nat) (room : ChatRoom) (rest : List (Nat × ChatRoom)) (quit : Bool)
      (hpc : t.pc = .lobby ((i, room) :: rest) quit) :
      Stepped rooms sh bytes shutdown choice t
        { t.send [lobbyLine i room.name (chatRoomUsers sh.db room.id sh.now chatMaxWho).length] with
          pc := .lobby rest quit } .skip
  | lobbyEnd (quit : Bool) (hpc : t.pc = .lobby [] quit) :
      Stepped rooms sh bytes shutdown choice t
        { t.send [some lobbyFoot] with pc := if quit then .destroyUnsubscribe false else .poll } .skip
  | enterPresence (c : ChatState) (room : ChatRoom) (hpc : t.pc = .enterPresence)
      (hc : t.chat = some c) (hr : c.room = some room) :
      Stepped rooms sh bytes shutdown choice t { t with pc := .enterSubscribe }
        (.presenceSet room.id t.username)
  | enterSubscribe (c : ChatState) (room : ChatRoom) (hpc : t.pc = .enterSubscribe)
      (hc : t.chat = some c) (hr : c.room = some room) :
      Stepped rooms sh bytes shutdown choice t { t with onNotify := true, pc := .page false }
        (.subscribe room.id)
  | page (c : ChatState) (room : ChatRoom) (notified : Bool) (msgs : List ChatMsg)
      (hpc : t.pc = .page notified) (hc : t.chat = some c) (hr : c.room = some room)
      (hmsgs : msgs = chatDbMessagesBefore sh.db room.id (if c.atLive then 0 else c.oldestShown)
        (wantRows t.termRows) chatMsgLines) :
      Stepped rooms sh bytes shutdown choice t
        { t with
          chat := some { c with oldestShown := (msgs.head?.map ChatMsg.id).getD c.oldestShown }
          pc := .users msgs notified } .skip
  | draw (c : ChatState) (room : ChatRoom) (notified : Bool) (msgs : List ChatMsg)
      (hpc : t.pc = .users msgs notified) (hc : t.chat = some c) (hr : c.room = some room) :
      Stepped rooms sh bytes shutdown choice t
        (t.drawRoom c room msgs (chatRoomUsers sh.db room.id sh.now chatMaxWho) notified) .skip
  /-- Key `p` on the oldest page. -/
  | oldest (c : ChatState) (room : ChatRoom) (hpc : t.pc = .older) (hc : t.chat = some c)
      (hr : c.room = some room)
      (hmsgs : chatDbMessagesBefore sh.db room.id c.oldestShown chatMsgLines chatMsgLines = []) :
      Stepped rooms sh bytes shutdown choice t { t with pc := .poll } .skip
  | older (c : ChatState) (room : ChatRoom) (hpc : t.pc = .older) (hc : t.chat = some c)
      (hr : c.room = some room)
      (hmsgs : chatDbMessagesBefore sh.db room.id c.oldestShown chatMsgLines chatMsgLines ≠ []) :
      Stepped rooms sh bytes shutdown choice t
        { t with chat := some { c with atLive := false }, pc := .page false } .skip
  | post (p p' : PostPc) (op : Op) (hpc : t.pc = .post p)
      (hpost : postStep sh choice p = some (some p', op)) :
      Stepped rooms sh bytes shutdown choice t { t with pc := .post p' } op
  | posted (p : PostPc) (op : Op) (hpc : t.pc = .post p)
      (hpost : postStep sh choice p = some (none, op)) :
      Stepped rooms sh bytes shutdown choice t { t with pc := .postPresence } op
  | postPresence (c : ChatState) (room : ChatRoom) (hpc : t.pc = .postPresence)
      (hc : t.chat = some c) (hr : c.room = some room) :
      Stepped rooms sh bytes shutdown choice t (t.resume c) (.presenceSet room.id t.username)
  | leave (c : ChatState) (room : ChatRoom) (quit : Bool) (hpc : t.pc = .leaveUnsubscribe quit)
      (hc : t.chat = some c) (hr : c.room = some room) :
      Stepped rooms sh bytes shutdown choice t { t with pc := .leavePresence quit }
        (.unsubscribe room.id)
  | leaveNone (c : ChatState) (quit : Bool) (hpc : t.pc = .leaveUnsubscribe quit)
      (hc : t.chat = some c) (hr : c.room = none) :
      Stepped rooms sh bytes shutdown choice t
        ({ t with onNotify := false, chat := some { c with st := .lobby } }.renderLobby rooms quit)
        .skip
  | left (c : ChatState) (room : ChatRoom) (quit : Bool) (hpc : t.pc = .leavePresence quit)
      (hc : t.chat = some c) (hr : c.room = some room) :
      Stepped rooms sh bytes shutdown choice t
        ({ t with onNotify := false, chat := some { c with room := none, st := .lobby } }.renderLobby
          rooms quit) (.presenceClear room.id t.username)
  | drain (hpc : t.pc = .drain) (hbytes : 0 < bytes) : Stepped rooms sh bytes shutdown choice t t .read
  | drainEnd (hpc : t.pc = .drain) (hbytes : ¬ 0 < bytes) :
      Stepped rooms sh bytes shutdown choice t { t with pc := .drained } .skip
  /-- A wake-up that `chat_on_notify` answers with a redraw. -/
  | redraw (c : ChatState) (hpc : t.pc = .drained) (hnot : t.onNotify = true) (hc : t.chat = some c)
      (hst : ¬ (c.st = .lobby ∨ c.st = .username)) (hat : c.atLive = true) :
      Stepped rooms sh bytes shutdown choice t { t with pc := .page true } .skip
  /-- A wake-up with nothing to draw. -/
  | idle (hpc : t.pc = .drained)
      (hidle : t.onNotify = false
        ∨ ∀ c, t.chat = some c → c.st = .lobby ∨ c.st = .username ∨ c.atLive = false) :
      Stepped rooms sh bytes shutdown choice t { t with pc := .poll } .skip
  | destroy (c : ChatState) (room : ChatRoom) (closing : Bool)
      (hpc : t.pc = .destroyUnsubscribe closing) (hc : t.chat = some c) (hr : c.room = some room) :
      Stepped rooms sh bytes shutdown choice t { t with pc := .destroyPresence closing }
        (.unsubscribe room.id)
  | destroyNone (c : ChatState) (closing : Bool) (hpc : t.pc = .destroyUnsubscribe closing)
      (hc : t.chat = some c) (hr : c.room = none) :
      Stepped rooms sh bytes shutdown choice t (t.chatFreed closing) .skip
  | destroyed (c : ChatState) (room : ChatRoom) (closing : Bool)
      (hpc : t.pc = .destroyPresence closing) (hc : t.chat = some c) (hr : c.room = some room) :
      Stepped rooms sh bytes shutdown choice t (t.chatFreed closing)
        (.presenceClear room.id t.username)

section Steps

variable {rooms : List ChatRoom} {sh : Shared} {bytes : Nat} {shutdown : Bool} {choice : Choice}
  {t t' : Telnet} {op : Op}

theorem endSession_stepped (hpc : t.pc = .poll ∨ t.pc = .drained) :
    Stepped rooms sh bytes shutdown choice t t.endSession .skip := by
  unfold endSession
  split
  · rename_i hc
    exact .close hpc hc
  · rename_i c hc
    exact .closeChat c hpc hc

theorem chatOnNotify_stepped (hpc : t.pc = .drained) (hnot : t.onNotify = true) :
    Stepped rooms sh bytes shutdown choice t t.chatOnNotify .skip := by
  unfold chatOnNotify
  split
  · rename_i hc
    exact .idle hpc (Or.inr fun c hc' => absurd (hc.symm.trans hc') nofun)
  · rename_i c hc
    have hidle : c.st = .lobby ∨ c.st = .username ∨ c.atLive = false →
        Stepped rooms sh bytes shutdown choice t { t with pc := .poll } .skip := by
      intro hst
      refine .idle hpc (Or.inr ?_)
      intro c' hc'
      cases hc.symm.trans hc'
      exact hst
    split
    · rename_i hst
      rcases hst with hst | hst
      · exact hidle (Or.inl hst)
      · exact hidle (Or.inr (Or.inl hst))
    split
    · rename_i hat
      exact hidle (Or.inr (Or.inr hat))
    · rename_i hst hat
      exact .redraw c hpc hnot hc hst (by cases h : c.atLive <;> simp_all)

theorem pollStep_stepped (hpc : t.pc = .poll)
    (h : t.pollStep rooms bytes shutdown choice = some t') :
    Stepped rooms sh bytes shutdown choice t t' .skip := by
  cases choice with
  | key k =>
    rcases Option.eq_none_or_eq_some t.chat with hc | ⟨c, hc⟩
    · unfold pollStep at h
      rw [hc] at h
      exact absurd h nofun
    · unfold pollStep at h
      rw [hc] at h
      cases h
      exact .key k c hpc hc (chatHandleKey_step rooms k)
  | openChat =>
    have h : (if t.chat = none then some (t.chatCreate rooms) else none) = some t' := h
    obtain ⟨hc, heq⟩ := Option.ite_none_right_eq_some.mp h
    cases heq
    unfold chatCreate
    dsimp only
    split
    · rename_i hname
      exact .openLobby hpc hc hname
    · rename_i hname
      exact .askName hpc hc (not_not.mp hname)
  | resize rows =>
    have h : (if rows < 2 ^ 16 then some { t with termRows := rows } else none) = some t' := h
    obtain ⟨-, heq⟩ := Option.ite_none_right_eq_some.mp h
    cases heq
    exact .resize rows hpc
  | readable =>
    have h : (if 0 < bytes then some { t with pc := .drain } else none) = some t' := h
    obtain ⟨hbytes, heq⟩ := Option.ite_none_right_eq_some.mp h
    cases heq
    exact .readable hpc hbytes
  | hangup =>
    cases h
    exact endSession_stepped (Or.inl hpc)
  | go =>
    have h : (if shutdown then some t.endSession else none) = some t' := h
    obtain ⟨-, heq⟩ := Option.ite_none_right_eq_some.mp h
    cases heq
    exact endSession_stepped (Or.inl hpc)
  | _ => exact absurd h nofun

/-- A step that uses `c->room`. -/
theorem of_room {β : Type} {f : ChatState → ChatRoom → β} {y : β}
    (h : (t.chat.bind fun c => c.room.map (f c)) = some y) :
    ∃ c room, t.chat = some c ∧ c.room = some room ∧ f c room = y := by
  obtain ⟨c, hc, hroom⟩ := Option.bind_eq_some_iff.mp h
  obtain ⟨room, hr, hy⟩ := Option.map_eq_some_iff.mp hroom
  exact ⟨c, room, hc, hr, hy⟩

/-- **Every step of a session thread** is one of those `Stepped` lists. -/
theorem step_stepped (h : t.step rooms sh bytes shutdown choice = some (t', op)) :
    Stepped rooms sh bytes shutdown choice t t' op := by
  unfold step at h
  split at h
  · -- poll
    rename_i hpc
    obtain ⟨t1, hstep, heq⟩ := Option.map_eq_some_iff.mp h
    cases heq
    exact pollStep_stepped hpc hstep
  · -- render_lobby
    rename_i i room rest quit hpc
    cases h
    exact .lobbyRoom i room rest quit hpc
  · rename_i quit hpc
    cases h
    exact .lobbyEnd quit hpc
  · -- enter_room
    rename_i hpc
    obtain ⟨room, hroom, heq⟩ := Option.map_eq_some_iff.mp h
    obtain ⟨c, hc, hr⟩ := Option.bind_eq_some_iff.mp hroom
    cases heq
    exact .enterPresence c room hpc hc hr
  · rename_i hpc
    obtain ⟨room, hroom, heq⟩ := Option.map_eq_some_iff.mp h
    obtain ⟨c, hc, hr⟩ := Option.bind_eq_some_iff.mp hroom
    cases heq
    exact .enterSubscribe c room hpc hc hr
  · -- render_room
    rename_i notified hpc
    obtain ⟨c, room, hc, hr, heq⟩ := of_room h
    cases heq
    exact .page c room notified _ hpc hc hr rfl
  · rename_i msgs notified hpc
    obtain ⟨c, room, hc, hr, heq⟩ := of_room h
    cases heq
    exact .draw c room notified msgs hpc hc hr
  · -- key p
    rename_i hpc
    obtain ⟨c, room, hc, hr, heq⟩ := of_room h
    dsimp only at heq
    split at heq
    · rename_i hmsgs
      cases heq
      exact .oldest c room hpc hc hr hmsgs
    · rename_i hmsgs
      cases heq
      exact .older c room hpc hc hr hmsgs
  · -- chat_room_post
    rename_i p hpc
    obtain ⟨⟨p', op'⟩, hpost, heq⟩ := Option.map_eq_some_iff.mp h
    cases p' with
    | none =>
      cases heq
      exact .posted p _ hpc hpost
    | some p' =>
      cases heq
      exact .post p p' _ hpc hpost
  · rename_i hpc
    obtain ⟨c, room, hc, hr, heq⟩ := of_room h
    cases heq
    exact .postPresence c room hpc hc hr
  · -- leave_room
    rename_i quit hpc
    obtain ⟨c, hc, heq⟩ := Option.bind_eq_some_iff.mp h
    have heq := Option.some.inj heq
    split at heq
    · rename_i room hr
      cases heq
      exact .leave c room quit hpc hc hr
    · rename_i hr
      cases heq
      exact .leaveNone c quit hpc hc hr
  · rename_i quit hpc
    obtain ⟨c, room, hc, hr, heq⟩ := of_room h
    cases heq
    exact .left c room quit hpc hc hr
  · -- the drain loop
    rename_i hpc
    have heq := Option.some.inj h
    split at heq
    · rename_i hbytes
      cases heq
      exact .drain hpc hbytes
    · rename_i hbytes
      cases heq
      exact .drainEnd hpc hbytes
  · rename_i hpc
    have heq := Option.some.inj h
    cases heq
    split
    · exact endSession_stepped (Or.inr hpc)
    split
    · rename_i hnot
      exact chatOnNotify_stepped hpc hnot
    · rename_i hnot
      exact .idle hpc (Or.inl (Bool.not_eq_true _ ▸ hnot))
  · -- chat_destroy
    rename_i closing hpc
    obtain ⟨c, hc, heq⟩ := Option.bind_eq_some_iff.mp h
    have heq := Option.some.inj heq
    split at heq
    · rename_i room hr
      cases heq
      exact .destroy c room closing hpc hc hr
    · rename_i hr
      cases heq
      exact .destroyNone c closing hpc hc hr
  · rename_i closing hpc
    obtain ⟨c, room, hc, hr, heq⟩ := of_room h
    cases heq
    exact .destroyed c room closing hpc hc hr
  · exact absurd h nofun

end Steps

end Telnet

/-! ## §3. Steps of an event stream. -/

namespace Sse

/-- What a step of an event stream does; `none` is the end of `handle_sse`. -/
inductive Stepped (sh : Shared) (bytes : Nat) (shutdown : Bool) (e : Sse) :
    Option Sse → Op → Prop where
  /-- The first cursor. -/
  | tail (hpc : e.pc = .tail) :
      Stepped sh bytes shutdown e
        (some { e with
          cursor := chatDbMaxMessageId sh.db e.roomId, start := chatDbMaxMessageId sh.db e.roomId,
          pc := .subscribe }) .skip
  | subscribe (hpc : e.pc = .subscribe) :
      Stepped sh bytes shutdown e (some { e with pc := .presence }) (.subscribe e.roomId)
  | presence (hpc : e.pc = .presence) :
      Stepped sh bytes shutdown e (some { e with pc := .comment })
        (if e.haveUser then .presenceSet e.roomId e.user else .skip)
  | comment (hpc : e.pc = .comment) :
      Stepped sh bytes shutdown e (some { e with pc := .wait }) .skip
  | wait (hpc : e.pc = .wait) (hdown : shutdown = false) :
      Stepped sh bytes shutdown e (some { e with pc := .poll }) .skip
  /-- `http_conn_wait` sees the shutdown flag. -/
  | stop (hpc : e.pc = .wait ∨ e.pc = .drained) (hdown : shutdown = true) :
      Stepped sh bytes shutdown e (some { e with pc := .unsubscribe }) .skip
  | hangup (hpc : e.pc = .poll) :
      Stepped sh bytes shutdown e (some { e with pc := .unsubscribe }) .skip
  | timeout (hpc : e.pc = .poll) :
      Stepped sh bytes shutdown e (some { e with pc := .beatPresence }) .skip
  | readable (hpc : e.pc = .poll) (hbytes : 0 < bytes) :
      Stepped sh bytes shutdown e (some { e with pc := .drain }) .skip
  | drain (hpc : e.pc = .drain) (hbytes : 0 < bytes) :
      Stepped sh bytes shutdown e (some e) .read
  | drainEnd (hpc : e.pc = .drain) (hbytes : ¬ 0 < bytes) :
      Stepped sh bytes shutdown e (some { e with pc := .drained }) .skip
  | drained (hpc : e.pc = .drained) (hdown : shutdown = false) :
      Stepped sh bytes shutdown e (some { e with pc := .pull }) .skip
  /-- A new batch. -/
  | pull (hpc : e.pc = .pull) :
      Stepped sh bytes shutdown e
        (some ({ e with pulled := true }.next (chatDbMessagesSince sh.db e.roomId e.cursor 64 64)))
        .skip
  /-- A message is sent. -/
  | sent (cur : ChatMsg) (rest : List ChatMsg) (hpc : e.pc = .send cur rest) :
      Stepped sh bytes shutdown e (some ({ e with sent := e.sent ++ [cur.id] }.next rest)) .skip
  /-- A message could not be sent. -/
  | sendFailed (cur : ChatMsg) (rest : List ChatMsg) (hpc : e.pc = .send cur rest) :
      Stepped sh bytes shutdown e (some { e with pc := .unsubscribe }) .skip
  | beatPresence (hpc : e.pc = .beatPresence) :
      Stepped sh bytes shutdown e (some { e with pc := .beatComment })
        (if e.haveUser then .presenceSet e.roomId e.user else .skip)
  | beat (hpc : e.pc = .beatComment) :
      Stepped sh bytes shutdown e (some { e with pc := .wait }) .skip
  | beatFailed (hpc : e.pc = .beatComment) :
      Stepped sh bytes shutdown e (some { e with pc := .unsubscribe }) .skip
  | unsubscribe (hpc : e.pc = .unsubscribe) :
      Stepped sh bytes shutdown e (some { e with pc := .clear }) (.unsubscribe e.roomId)
  | clear (hpc : e.pc = .clear) :
      Stepped sh bytes shutdown e none
        (if e.haveUser then .presenceClear e.roomId e.user else .skip)

/-- **Every step of an event stream** is one of those `Stepped` lists. -/
theorem step_stepped {sh : Shared} {bytes : Nat} {shutdown : Bool} {choice : Choice} {e : Sse}
    {e' : Option Sse} {op : Op} (h : e.step sh bytes shutdown choice = some (e', op)) :
    Stepped sh bytes shutdown e e' op := by
  unfold step at h
  split at h
  · rename_i hpc
    cases h
    exact .tail hpc
  · rename_i hpc
    cases h
    exact .subscribe hpc
  · rename_i hpc
    cases h
    exact .presence hpc
  · rename_i hpc
    cases h
    exact .comment hpc
  · -- http_conn_wait: the flag, then poll
    rename_i hpc
    cases h
    cases shutdown with
    | true => exact .stop (Or.inl hpc) rfl
    | false => exact .wait hpc rfl
  · rename_i hpc
    split at h
    · cases h
      exact .hangup hpc
    · cases h
      exact .timeout hpc
    · split at h
      · rename_i hbytes
        cases h
        exact .readable hpc hbytes
      · exact absurd h nofun
    · exact absurd h nofun
  · -- http_conn_wait: the drain loop, then the flag again
    rename_i hpc
    split at h
    · rename_i hbytes
      cases h
      exact .drain hpc hbytes
    · rename_i hbytes
      cases h
      exact .drainEnd hpc hbytes
  · rename_i hpc
    cases h
    cases shutdown with
    | true => exact .stop (Or.inr hpc) rfl
    | false => exact .drained hpc rfl
  · -- the notify branch
    rename_i hpc
    cases h
    exact .pull hpc
  · rename_i cur rest hpc
    split at h
    · cases h
      exact .sent cur rest hpc
    · cases h
      exact .sendFailed cur rest hpc
    · exact absurd h nofun
  · -- the heartbeat
    rename_i hpc
    cases h
    exact .beatPresence hpc
  · rename_i hpc
    split at h
    · cases h
      exact .beat hpc
    · cases h
      exact .beatFailed hpc
    · exact absurd h nofun
  · -- behind the loop
    rename_i hpc
    cases h
    exact .unsubscribe hpc
  · rename_i hpc
    cases h
    exact .clear hpc

end Sse

/-! ## §4. Steps of a connection. -/

/-- What a step of a connection's thread does. -/
inductive ProgStepped (rooms : List ChatRoom) (sh : Shared) (c : Conn) (choice : Choice) :
    Prog → Op → Prop where
  | telnet (t t' : Telnet) (op : Op) (hprog : c.prog = .telnet t)
      (hstep : t.step rooms sh c.bytes c.shutdown choice = some (t', op)) :
      ProgStepped rooms sh c choice (.telnet t') op
  | telnetClose (t : Telnet) (hprog : c.prog = .telnet t) (hpc : t.pc = .closing) :
      ProgStepped rooms sh c choice .closed .close
  /-- A POST to a room, with something left of its texts. -/
  | routePost (roomId : Int) (text name user body : List UInt8) (hprog : c.prog = .http .request)
      (hclean : cleanPost name text = some (user, body)) :
      ProgStepped rooms sh c choice (.http (.post (.insert roomId user body))) .skip
  /-- A GET of a room's events. -/
  | routeEvents (roomId : Int) (query : List UInt8) (hprog : c.prog = .http .request) :
      ProgStepped rooms sh c choice (.http (.events (handleSse roomId query))) .skip
  /-- Any other request. -/
  | routeClose (hprog : c.prog = .http .request) :
      ProgStepped rooms sh c choice (.http .closing) .skip
  | post (p p' : PostPc) (op : Op) (hprog : c.prog = .http (.post p))
      (hpost : postStep sh choice p = some (some p', op)) :
      ProgStepped rooms sh c choice (.http (.post p')) op
  | posted (p : PostPc) (op : Op) (hprog : c.prog = .http (.post p))
      (hpost : postStep sh choice p = some (none, op)) :
      ProgStepped rooms sh c choice (.http .closing) op
  | events (e e' : Sse) (op : Op) (hprog : c.prog = .http (.events e))
      (hstep : e.step sh c.bytes c.shutdown choice = some (some e', op)) :
      ProgStepped rooms sh c choice (.http (.events e')) op
  | eventsEnd (e : Sse) (op : Op) (hprog : c.prog = .http (.events e))
      (hstep : e.step sh c.bytes c.shutdown choice = some (none, op)) :
      ProgStepped rooms sh c choice (.http .closing) op
  | httpClose (hprog : c.prog = .http .closing) : ProgStepped rooms sh c choice .closed .close

section Prog

variable {rooms : List ChatRoom} {sh : Shared} {c : Conn} {choice : Choice}

theorem handleMessagesPost_stepped (roomId : Int) (body : List UInt8)
    (hprog : c.prog = .http .request) :
    ProgStepped rooms sh c choice (.http (handleMessagesPost roomId body)) .skip := by
  unfold handleMessagesPost
  dsimp only
  split
  · exact .routeClose hprog
  split
  · rename_i user text hclean
    exact .routePost roomId _ _ user text hprog hclean
  · exact .routeClose hprog

theorem httpRoute_stepped {h : Http} (hprog : c.prog = .http .request)
    (hroute : httpRoute rooms choice = some h) : ProgStepped rooms sh c choice (.http h) .skip := by
  cases choice with
  | postRequest roomId body =>
    simp only [httpRoute] at hroute
    split at hroute
    · cases hroute
      exact handleMessagesPost_stepped roomId body hprog
    · cases hroute
      exact .routeClose hprog
  | eventsRequest roomId query =>
    simp only [httpRoute] at hroute
    split at hroute
    · cases hroute
      exact .routeEvents roomId query hprog
    · cases hroute
      exact .routeClose hprog
  | otherRequest =>
    cases hroute
    exact .routeClose hprog
  | _ => cases hroute

theorem httpStep_stepped {h h' : Http} {op : Op} (hprog : c.prog = .http h)
    (hstep : h.step rooms sh c.bytes c.shutdown choice = some (h', op)) :
    ProgStepped rooms sh c choice (.http h') op := by
  cases h with
  | request =>
    obtain ⟨h1, hroute, heq⟩ := Option.map_eq_some_iff.mp hstep
    cases heq
    exact httpRoute_stepped hprog hroute
  | post p =>
    obtain ⟨⟨p', op'⟩, hpost, heq⟩ := Option.map_eq_some_iff.mp hstep
    cases p' with
    | none =>
      cases heq
      exact .posted p _ hprog hpost
    | some p' =>
      cases heq
      exact .post p p' _ hprog hpost
  | events e =>
    obtain ⟨⟨e', op'⟩, hevents, heq⟩ := Option.map_eq_some_iff.mp hstep
    cases e' with
    | none =>
      cases heq
      exact .eventsEnd e _ hprog hevents
    | some e' =>
      cases heq
      exact .events e e' _ hprog hevents
  | closing => cases hstep

/-- The step of a connection that streams is the stream's. -/
theorem progStep_events {e : Sse} (hprog : c.prog = .http (.events e)) :
    Sys.progStep rooms sh c choice
      = (e.step sh c.bytes c.shutdown choice).map fun (e', op) =>
          (.http ((e'.map Http.events).getD .closing), op) := by
  unfold Sys.progStep
  rw [hprog]
  show (if Http.events e = .closing then _ else ((Http.events e).step rooms sh _ _ choice).map _) = _
  rw [if_neg nofun]
  show ((e.step sh c.bytes c.shutdown choice).map _).map _ = _
  rw [Option.map_map]
  rfl

/-- **Every step of a connection** is one of those `ProgStepped` lists. -/
theorem progStep_stepped {p' : Prog} {op : Op}
    (h : Sys.progStep rooms sh c choice = some (p', op)) : ProgStepped rooms sh c choice p' op := by
  unfold Sys.progStep at h
  split at h
  · cases h
  · cases h
  · rename_i t hprog
    split at h
    · rename_i hpc
      cases h
      exact .telnetClose t hprog hpc
    · obtain ⟨⟨t', op'⟩, hstep, heq⟩ := Option.map_eq_some_iff.mp h
      cases heq
      exact .telnet t t' _ hprog hstep
  · rename_i k hprog
    split at h
    · rename_i hclosing
      cases h
      exact .httpClose (hclosing ▸ hprog)
    · obtain ⟨⟨k', op'⟩, hstep, heq⟩ := Option.map_eq_some_iff.mp h
      cases heq
      exact httpStep_stepped hprog hstep

end Prog

end NetServer.Chat
