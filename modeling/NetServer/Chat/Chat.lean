/-
  NetServer.Chat.Chat — the telnet chat feature `features/chat/chat.c` as the
  program of a session thread.

  The key handlers are the source's: they change the chat state and say where
  the thread goes on.  Everything a handler calls that touches shared state
  is a program counter of its own, in the order of the calls, so that other
  threads may run between any two of them.

  `telnet_run_session` appears as far as it matters to the chat: in `poll` a
  session gets keys, wake-ups or its end; a wake-up drains the pipe, checks
  the shutdown flag and calls `on_notify`; the end destroys an open chat and
  closes the pipe.  Keys of one `recv` buffer are keys with no other event
  between them.
-/
import NetServer.Chat.Service
import NetServer.Chat.Screen

namespace NetServer.Chat

open NetServer.Lib

/-! ## §1. State. -/

inductive ChatSt where
  | username
  | lobby
  | inRoom
  | compose
  deriving Repr, DecidableEq

/-- `chat_state_t`; the two text buffers are their first `len` bytes. -/
structure ChatState where
  room : Option ChatRoom
  st : ChatSt
  compose : List UInt8
  usernameBuf : List UInt8
  oldestShown : Int
  atLive : Bool
  deriving Repr, DecidableEq

/-- Where a telnet session thread is. -/
inductive TelnetPc where
  /-- At the loop's head, in `poll`. -/
  | poll
  /-- `render_lobby`: these rooms are still to be listed; then the key handler
  returns, with `false` if the user quit. -/
  | lobby (rest : List (Nat × ChatRoom)) (quit : Bool)
  /-- `enter_room`: before `chat_room_presence_set`. -/
  | enterPresence
  /-- `enter_room`: before `chat_room_subscribe`. -/
  | enterSubscribe
  /-- `render_room`: before `chat_room_before`.  `notified` says that
  `chat_on_notify` is the caller. -/
  | page (notified : Bool)
  /-- `render_room`: before `chat_room_users` and the output. -/
  | users (msgs : List ChatMsg) (notified : Bool)
  /-- Key `p`: before its `chat_room_before`. -/
  | older
  /-- `handle_compose`: inside `chat_room_post`. -/
  | post (p : PostPc)
  /-- `handle_compose`: before `chat_room_presence_set`. -/
  | postPresence
  /-- `leave_room`: before `chat_room_unsubscribe`. -/
  | leaveUnsubscribe (quit : Bool)
  /-- `leave_room`: before `chat_room_presence_clear`. -/
  | leavePresence (quit : Bool)
  /-- A wake-up: before the next `read` of the drain loop. -/
  | drain
  /-- A wake-up: the pipe is empty. -/
  | drained
  /-- `chat_destroy`: before `chat_room_unsubscribe`.  `closing` says that the
  session loop has ended. -/
  | destroyUnsubscribe (closing : Bool)
  /-- `chat_destroy`: before `chat_room_presence_clear`. -/
  | destroyPresence (closing : Bool)
  /-- After the session loop: before the pipe is closed. -/
  | closing
  deriving Repr, DecidableEq

/-- One drawn room screen: its messages and what was sent. -/
structure RoomScreen where
  page : List ChatMsg
  payloads : List (Option (List UInt8))
  deriving Repr, DecidableEq

/-- The part of `telnet_session_t` the chat uses, the open chat, and what the
chat has sent: `screens` are the room screens, `out` everything. -/
structure Telnet where
  username : List UInt8
  termRows : Nat
  onNotify : Bool
  chat : Option ChatState
  pc : TelnetPc
  screens : List RoomScreen
  out : List (Option (List UInt8))
  deriving Repr, DecidableEq

/-- `telnet_create_session`. -/
def telnetStart : Telnet :=
  { username := [], termRows := 24, onNotify := false, chat := none, pc := .poll, screens := [],
    out := [] }

namespace Telnet

def send (t : Telnet) (payloads : List (Option (List UInt8))) : Telnet :=
  { t with out := t.out ++ payloads }

/-! ## §2. Entering, leaving and the screens. -/

/-- `render_lobby`, up to its first query. -/
def renderLobby (t : Telnet) (rooms : List ChatRoom) (quit : Bool) : Telnet :=
  { t.send [some lobbyHead] with pc := .lobby ((List.range rooms.length).zip rooms) quit }

/-- `enter_room`, up to its first query. -/
def enterRoom (t : Telnet) (c : ChatState) (room : ChatRoom) : Telnet :=
  { t with
    chat := some { c with room := some room, oldestShown := 0, atLive := true, st := .inRoom }
    pc := .enterPresence }

/-- `handle_compose` after the post: back to the room, following the newest page. -/
def resume (t : Telnet) (c : ChatState) : Telnet :=
  { t with
    chat := some { c with st := .inRoom, compose := [], atLive := true }
    pc := .page false }

/-! ## §3. Key handlers. -/

/-- `handle_username`. -/
def handleUsername (t : Telnet) (rooms : List ChatRoom) (c : ChatState) (key : UInt8) : Telnet :=
  if key = 13 ∨ key = 10 then
    if c.usernameBuf = [] then t
    else
      { t with username := c.usernameBuf.take 31, chat := some { c with st := .lobby } }.renderLobby
        rooms false
  else if (key = 127 ∨ key = 8) ∧ c.usernameBuf ≠ [] then
    { t with chat := some { c with usernameBuf := c.usernameBuf.dropLast } }.send
      [some [8, 32, 8]]
  else if c.usernameBuf.length < 20 ∧ isUserByte key then
    { t with chat := some { c with usernameBuf := c.usernameBuf ++ [key] } }.send [some [key]]
  else t

/-- `handle_lobby`. -/
def handleLobby (t : Telnet) (rooms : List ChatRoom) (c : ChatState) (key : UInt8) : Telnet :=
  if key = 81 ∨ key = 113 then { t with pc := .destroyUnsubscribe false }
  else if 49 ≤ key.toNat ∧ key.toNat < 49 + rooms.length then
    match rooms[key.toNat - 49]? with
    | some room => t.enterRoom c room
    | none => t
  else t

/-- `handle_in_room`. -/
def handleInRoom (t : Telnet) (c : ChatState) (key : UInt8) : Telnet :=
  if key = 81 then { t with pc := .leaveUnsubscribe true }
  else if key = 113 then { t with pc := .leaveUnsubscribe false }
  else if key = 13 ∨ key = 105 then
    { t with chat := some { c with st := .compose, compose := [] } }.send [composeLine t.termRows []]
  else if key = 112 then { t with pc := .older }
  else if key = 110 then { t with chat := some { c with atLive := true }, pc := .page false }
  else t

/-- The post of `handle_compose`: the program of `chat_room_post`, or straight
behind it when the texts are empty after cleaning. -/
def startPost (t : Telnet) (c : ChatState) : Telnet :=
  match c.room, cleanPost t.username c.compose with
  | some room, some (user, body) => { t with pc := .post (.insert room.id user body) }
  | _, _ => { t with pc := .postPresence }

/-- `handle_compose`. -/
def handleCompose (t : Telnet) (c : ChatState) (key : UInt8) : Telnet :=
  if key = 27 ∨ key = 3 then { t with chat := some { c with st := .inRoom }, pc := .page false }
  else if key = 13 ∨ key = 10 then
    if c.compose = [] then t.resume c else t.startPost c
  else if (key = 127 ∨ key = 8) ∧ c.compose ≠ [] then
    { t with chat := some { c with compose := c.compose.dropLast } }.send
      [composeLine t.termRows c.compose.dropLast]
  else if c.compose.length < 511 ∧ isPrintable key then
    { t with chat := some { c with compose := c.compose ++ [key] } }.send
      [composeLine t.termRows (c.compose ++ [key])]
  else t

/-- `chat_handle_key`. -/
def chatHandleKey (t : Telnet) (rooms : List ChatRoom) (c : ChatState) (key : UInt8) : Telnet :=
  match c.st with
  | .username => t.handleUsername rooms c key
  | .lobby => t.handleLobby rooms c key
  | .inRoom => t.handleInRoom c key
  | .compose => t.handleCompose c key

/-- `chat_create`. -/
def chatCreate (t : Telnet) (rooms : List ChatRoom) : Telnet :=
  let c : ChatState :=
    { room := none, st := .username, compose := [], usernameBuf := [], oldestShown := 0,
      atLive := false }
  if t.username ≠ [] then { t with chat := some { c with st := .lobby } }.renderLobby rooms false
  else { t with chat := some c }.send (usernameScreen [])

/-- `chat_on_notify`. -/
def chatOnNotify (t : Telnet) : Telnet :=
  match t.chat with
  | none => { t with pc := .poll }
  | some c =>
      if c.st = .lobby ∨ c.st = .username then { t with pc := .poll }
      else if c.atLive = false then { t with pc := .poll }
      else { t with pc := .page true }

/-- The session loop ends: an open chat is destroyed first. -/
def endSession (t : Telnet) : Telnet :=
  match t.chat with
  | none => { t with pc := .closing }
  | some _ => { t with pc := .destroyUnsubscribe true }

/-- `chat_destroy` after its calls: the state is freed. -/
def chatFreed (t : Telnet) (closing : Bool) : Telnet :=
  { t with chat := none, onNotify := false, pc := if closing then .closing else .poll }

/-- `render_room` after its queries: the output, and the compose line when
`chat_on_notify` redraws a composing user's screen. -/
def drawRoom (t : Telnet) (c : ChatState) (room : ChatRoom) (msgs : List ChatMsg)
    (who : List (List UInt8)) (notified : Bool) : Telnet :=
  let payloads := roomScreen room.name t.termRows msgs who
  let redraw := if notified ∧ c.st = .compose then [composeLine t.termRows c.compose] else []
  { t with
    screens := t.screens ++ [{ page := msgs, payloads := payloads }]
    out := t.out ++ payloads ++ redraw
    pc := .poll }

/-! ## §4. The thread. -/

/-- What a session in `poll` does next.  The loop's test of the shutdown flag
is the choice `go`: a flag set later than the last test is seen in a later
round. -/
def pollStep (rooms : List ChatRoom) (bytes : Nat) (shutdown : Bool) (t : Telnet) :
    Choice → Option Telnet
  | .key k =>
      match t.chat with
      | some c => some (t.chatHandleKey rooms c k)
      | none => none
  | .openChat => if t.chat = none then some (t.chatCreate rooms) else none
  | .resize rows => if rows < 2 ^ 16 then some { t with termRows := rows } else none
  | .readable => if 0 < bytes then some { t with pc := .drain } else none
  | .hangup => some t.endSession
  | .go => if shutdown then some t.endSession else none
  | _ => none

/-- One step of a telnet session thread. -/
def step (rooms : List ChatRoom) (sh : Shared) (bytes : Nat) (shutdown : Bool) (t : Telnet)
    (choice : Choice) : Option (Telnet × Op) :=
  match t.pc with
  | .poll => (t.pollStep rooms bytes shutdown choice).map (·, .skip)
  | .lobby ((i, room) :: rest) quit =>
      let online := (chatRoomUsers sh.db room.id sh.now chatMaxWho).length
      some ({ t.send [lobbyLine i room.name online] with pc := .lobby rest quit }, .skip)
  | .lobby [] quit =>
      some ({ t.send [some lobbyFoot] with
        pc := if quit then .destroyUnsubscribe false else .poll }, .skip)
  | .enterPresence =>
      (t.chat.bind (·.room)).map fun room =>
        ({ t with pc := .enterSubscribe }, .presenceSet room.id t.username)
  | .enterSubscribe =>
      (t.chat.bind (·.room)).map fun room =>
        ({ t with onNotify := true, pc := .page false }, .subscribe room.id)
  | .page notified =>
      t.chat.bind fun c => c.room.map fun room =>
        let anchor := if c.atLive then 0 else c.oldestShown
        let msgs := chatDbMessagesBefore sh.db room.id anchor (wantRows t.termRows) chatMsgLines
        let oldest := (msgs.head?.map ChatMsg.id).getD c.oldestShown
        ({ t with chat := some { c with oldestShown := oldest }, pc := .users msgs notified }, .skip)
  | .users msgs notified =>
      t.chat.bind fun c => c.room.map fun room =>
        (t.drawRoom c room msgs (chatRoomUsers sh.db room.id sh.now chatMaxWho) notified, .skip)
  | .older =>
      t.chat.bind fun c => c.room.map fun room =>
        let msgs := chatDbMessagesBefore sh.db room.id c.oldestShown chatMsgLines chatMsgLines
        if msgs = [] then ({ t with pc := .poll }, .skip)
        else ({ t with chat := some { c with atLive := false }, pc := .page false }, .skip)
  | .post p =>
      (postStep sh choice p).map fun (p', op) =>
        ({ t with pc := (p'.map TelnetPc.post).getD .postPresence }, op)
  | .postPresence =>
      t.chat.bind fun c => c.room.map fun room => (t.resume c, .presenceSet room.id t.username)
  | .leaveUnsubscribe quit =>
      t.chat.bind fun c => some <|
        match c.room with
        | some room => ({ t with pc := .leavePresence quit }, .unsubscribe room.id)
        | none =>
            ({ t with onNotify := false, chat := some { c with st := .lobby } }.renderLobby rooms quit,
              .skip)
  | .leavePresence quit =>
      t.chat.bind fun c => c.room.map fun room =>
        ({ t with onNotify := false, chat := some { c with room := none, st := .lobby } }.renderLobby
          rooms quit, .presenceClear room.id t.username)
  | .drain => some (if 0 < bytes then (t, .read) else ({ t with pc := .drained }, .skip))
  | .drained =>
      some (if shutdown then t.endSession
        else if t.onNotify then t.chatOnNotify else { t with pc := .poll }, .skip)
  | .destroyUnsubscribe closing =>
      t.chat.bind fun c => some <|
        match c.room with
        | some room => ({ t with pc := .destroyPresence closing }, .unsubscribe room.id)
        | none => (t.chatFreed closing, .skip)
  | .destroyPresence closing =>
      t.chat.bind fun c => c.room.map fun room =>
        (t.chatFreed closing, .presenceClear room.id t.username)
  | .closing => none

end Telnet

end NetServer.Chat
