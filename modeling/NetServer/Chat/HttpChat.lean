/-
  NetServer.Chat.HttpChat — posting and the event stream of
  `features/chat/http_chat.c` as the program of a connection thread.

  A connection reads one request.  A post runs `chat_room_post`; an event
  stream runs `handle_sse` until the client or the server closes it; any
  other request only reads.  `http_conn_wait` is the part from `wait` to
  `drained`.

  `start`, `sent`, `taken` and `pulled` are not in the source: the cursor as
  first read, the ids whose frames were sent, the ids the cursor has been set
  to, and whether a query has been made since.
-/
import NetServer.Chat.Service
import NetServer.Http.Proto

namespace NetServer.Chat

open NetServer.Lib
open NetServer.Http

/-! ## §1. JSON values. -/

/-- The string loop of `json_get_string`, at most `room` bytes. -/
def jsonStringLoop : Nat → List UInt8 → List UInt8
  | 0, _ => []
  | _ + 1, [] => []
  | room + 1, ch :: p =>
      if ch = 34 then []
      else if ch = 92 then
        match p with
        | [] => [ch]
        | e :: p =>
            (if e = 110 then 10 else if e = 116 then 9 else if e = 114 then 13 else e)
              :: jsonStringLoop room p
      else ch :: jsonStringLoop room p

/-- The bytes behind the first occurrence of `pat` (`memmem`). -/
def afterMatch (pat : List UInt8) : List UInt8 → Option (List UInt8)
  | [] => if pat = [] then some [] else none
  | b :: body =>
      if pat.isPrefixOf (b :: body) then some ((b :: body).drop pat.length)
      else afterMatch pat body

/-- `json_get_string` with an output buffer of `outsz` bytes; `none` for 0. -/
def jsonGetString (body key : List UInt8) (outsz : Nat) : Option (List UInt8) :=
  match afterMatch (34 :: key ++ [34]) body with
  | none => none
  | some p =>
      match p.dropWhile (fun b => b == 32 || b == 9 || b == 58) with
      | 34 :: p => some (jsonStringLoop (outsz - 1) p)
      | _ => none

/-! ## §2. The event stream. -/

/-- Where an event stream thread is. -/
inductive SsePc where
  /-- Before `chat_room_tail`. -/
  | tail
  /-- Before `chat_room_subscribe`. -/
  | subscribe
  /-- Before the first `chat_room_presence_set`. -/
  | presence
  /-- Before the first comment. -/
  | comment
  /-- `http_conn_wait`: before its check of the shutdown flag. -/
  | wait
  /-- `http_conn_wait`: in `poll`. -/
  | poll
  /-- `http_conn_wait`: before the next `read` of the drain loop. -/
  | drain
  /-- `http_conn_wait`: the pipe is empty. -/
  | drained
  /-- Before `chat_room_since`. -/
  | pull
  /-- Before `http_sse_send` of `cur`; `rest` of the batch follows. -/
  | send (cur : ChatMsg) (rest : List ChatMsg)
  /-- A heartbeat: before `chat_room_presence_set`. -/
  | beatPresence
  /-- A heartbeat: before its comment. -/
  | beatComment
  /-- Before `chat_room_unsubscribe`. -/
  | unsubscribe
  /-- Before `chat_room_presence_clear`. -/
  | clear
  deriving Repr, DecidableEq

/-- The locals of `handle_sse`. -/
structure Sse where
  roomId : Int
  user : List UInt8
  haveUser : Bool
  cursor : Int
  pc : SsePc
  start : Int
  sent : List Int
  taken : List Int
  pulled : Bool
  deriving Repr, DecidableEq

/-- `handle_sse` up to its first query. -/
def handleSse (roomId : Int) (query : List UInt8) : Sse :=
  let user := (httpQueryGet query (ascii "user") chatUserMax).getD []
  { roomId := roomId, user := user, haveUser := decide (cString user ≠ []), cursor := 0, pc := .tail,
    start := 0, sent := [], taken := [], pulled := false }

namespace Sse

/-- Go on with the batch: set the cursor to the next message, or wait again. -/
def next (e : Sse) : List ChatMsg → Sse
  | [] => { e with pc := .wait }
  | m :: rest => { e with cursor := m.id, taken := e.taken ++ [m.id], pc := .send m rest }

/-- One step of an event stream thread; the end of `handle_sse` is `none`. -/
def step (sh : Shared) (bytes : Nat) (shutdown : Bool) (e : Sse) (choice : Choice) :
    Option (Option Sse × Op) :=
  match e.pc with
  | .tail =>
      let tail := chatDbMaxMessageId sh.db e.roomId
      some (some { e with cursor := tail, start := tail, pc := .subscribe }, .skip)
  | .subscribe => some (some { e with pc := .presence }, .subscribe e.roomId)
  | .presence =>
      some (some { e with pc := .comment },
        if e.haveUser then .presenceSet e.roomId e.user else .skip)
  | .comment => some (some { e with pc := .wait }, .skip)
  | .wait => some (some { e with pc := if shutdown then .unsubscribe else .poll }, .skip)
  | .poll =>
      match choice with
      | .hangup => some (some { e with pc := .unsubscribe }, .skip)
      | .timeout => some (some { e with pc := .beatPresence }, .skip)
      | .readable => if 0 < bytes then some (some { e with pc := .drain }, .skip) else none
      | _ => none
  | .drain =>
      if 0 < bytes then some (some e, .read) else some (some { e with pc := .drained }, .skip)
  | .drained =>
      some (some { e with pc := if shutdown then .unsubscribe else .pull }, .skip)
  | .pull =>
      some (some ({ e with pulled := true }.next
        (chatDbMessagesSince sh.db e.roomId e.cursor 64 64)), .skip)
  | .send cur rest =>
      match choice with
      | .sent true => some (some ({ e with sent := e.sent ++ [cur.id] }.next rest), .skip)
      | .sent false => some (some { e with pc := .unsubscribe }, .skip)
      | _ => none
  | .beatPresence =>
      some (some { e with pc := .beatComment },
        if e.haveUser then .presenceSet e.roomId e.user else .skip)
  | .beatComment =>
      match choice with
      | .sent true => some (some { e with pc := .wait }, .skip)
      | .sent false => some (some { e with pc := .unsubscribe }, .skip)
      | _ => none
  | .unsubscribe => some (some { e with pc := .clear }, .unsubscribe e.roomId)
  | .clear => some (none, if e.haveUser then .presenceClear e.roomId e.user else .skip)

end Sse

/-! ## §3. The connection. -/

/-- Where an HTTP connection thread is. -/
inductive Http where
  /-- Reading the request. -/
  | request
  /-- `handle_messages_post`: inside `chat_room_post`. -/
  | post (p : PostPc)
  /-- `handle_sse`. -/
  | events (e : Sse)
  /-- The request is handled: before the pipe is closed. -/
  | closing
  deriving Repr, DecidableEq

/-- `handle_messages_post`: the post, or the end of the request when a value
is missing, empty, or empty after cleaning. -/
def handleMessagesPost (roomId : Int) (body : List UInt8) : Http :=
  let user := cString ((jsonGetString body (ascii "user") chatUserMax).getD [])
  let text := cString ((jsonGetString body (ascii "body") chatBodyMax).getD [])
  if user = [] ∨ text = [] then .closing
  else
    match cleanPost user text with
    | some (user, text) => .post (.insert roomId user text)
    | none => .closing

/-- The part of `http_dispatch` that reaches the chat service. -/
def httpRoute (rooms : List ChatRoom) : Choice → Option Http
  | .postRequest roomId body =>
      if rooms.any (·.id = roomId) then some (handleMessagesPost roomId body) else some .closing
  | .eventsRequest roomId query =>
      if rooms.any (·.id = roomId) then some (.events (handleSse roomId query)) else some .closing
  | .otherRequest => some .closing
  | _ => none

/-- One step of an HTTP connection thread. -/
def Http.step (rooms : List ChatRoom) (sh : Shared) (bytes : Nat) (shutdown : Bool) (h : Http)
    (choice : Choice) : Option (Http × Op) :=
  match h with
  | .request => (httpRoute rooms choice).map (·, .skip)
  | .post p =>
      (postStep sh choice p).map fun (p', op) => ((p'.map Http.post).getD .closing, op)
  | .events e =>
      (e.step sh bytes shutdown choice).map fun (e', op) => ((e'.map Http.events).getD .closing, op)
  | .closing => none

end NetServer.Chat
