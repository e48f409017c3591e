/-
  NetServer.Web.Post — from the form of `web/app.js` to the row.

  The page posts `JSON.stringify({ user, body })` with `fetch`, and names its user to the
  event stream with `encodeURIComponent`.  Between the form and the table stand the
  browser's headers, the cuts of TCP, `read_request`, `http_parse_request`, the router,
  `json_get_string` or `http_query_get` with their buffers, and the two sanitizers.

  Names and texts are UTF-8 bytes of any length, without control characters other than
  tab, newline and CR.

    • `jsonGetString_cut`  — a value is read as far as its buffer goes;
    • `web_posted`         — what every post of the form comes to: the row, the answer;
    • `web_named`          — the stream's user is listed under the name of the posts.
-/
import NetServer.Web.Payload
import NetServer.Http.RoundTrip
import NetServer.Http.Query
import NetServer.Chat.Responses

namespace NetServer.Web

open NetServer.Lib
open NetServer.Chat
open NetServer.Http

/-! ## §1. Values of any length. -/

/-- No control characters but tab, newline and CR; other characters are theirs in UTF-8. -/
def Written (text : List UInt8) : Prop := ∀ b ∈ text, 32 ≤ b ∨ b = 9 ∨ b = 10 ∨ b = 13

theorem Written.noNul {text : List UInt8} (h : Written text) : 0 ∉ text :=
  fun h0 => absurd (h 0 h0) (by decide)

/-- A value is read up to its closing quote, or as far as there is room. -/
theorem jsonStringLoop_cut (rest : List UInt8) :
    ∀ (text : List UInt8) (room : Nat),
      jsonStringLoop room (stringifyText text ++ 34 :: rest) = text.take room
  | [], 0 => rfl
  | [], room + 1 => by
      show jsonStringLoop (room + 1) (34 :: rest) = []
      rw [jsonStringLoop.eq_def]
      exact if_pos rfl
  | b :: text, 0 => by
      rw [jsonStringLoop.eq_def]
      rfl
  | b :: text, room + 1 => by
      have htail := jsonStringLoop_cut rest text room
      rw [List.take_succ_cons]
      show jsonStringLoop (room + 1) (stringifyByte b ++ stringifyText text ++ 34 :: rest) = _
      rcases stringifyByte_cases b with ⟨h34, h92, hb⟩ | ⟨e, hb, -, hback⟩
      · rw [hb]
        show jsonStringLoop (room + 1) (b :: (stringifyText text ++ 34 :: rest)) = _
        rw [jsonStringLoop.eq_def]
        dsimp only
        rw [if_neg h34, if_neg h92, htail]
      · -- an escape is two bytes and takes one byte of the buffer
        rw [hb]
        show jsonStringLoop (room + 1) (92 :: e :: (stringifyText text ++ 34 :: rest)) = _
        rw [jsonStringLoop.eq_def]
        dsimp only
        rw [if_neg (by decide), if_pos rfl, hback, htail]

/-- A key with a quoted value behind it reads the value as far as its buffer goes. -/
theorem jsonGetString_cut {payload key text rest : List UInt8} {outsz : Nat}
    (hkey : afterMatch (34 :: (key ++ [34])) payload
      = some (58 :: 34 :: (stringifyText text ++ 34 :: rest))) :
    jsonGetString payload key outsz = some (text.take (outsz - 1)) := by
  unfold jsonGetString
  rw [List.cons_append, hkey]
  show some (jsonStringLoop (outsz - 1) (stringifyText text ++ 34 :: rest)) = _
  rw [jsonStringLoop_cut rest text (outsz - 1)]

/-- The name hides the key `body`: it is `body`, or ends in a quote and `body`. -/
def HidesBody (name : List UInt8) : Prop := 34 :: ascii "body" <:+ 34 :: name

instance (name : List UInt8) : Decidable (HidesBody name) :=
  inferInstanceAs (Decidable (34 :: ascii "body" <:+ 34 :: name))

theorem payload_user (name text : List UInt8) :
    jsonGetString (stringifyPost name text) (ascii "user") chatUserMax
      = some (name.take (chatUserMax - 1)) :=
  jsonGetString_cut (afterMatch_key_user name text)

theorem payload_body {name : List UInt8} (h : ¬ HidesBody name) (text : List UInt8) :
    jsonGetString (stringifyPost name text) (ascii "body") chatBodyMax
      = some (text.take (chatBodyMax - 1)) := by
  have hsuffix : ¬ 34 :: ascii "body" <:+ 34 :: name := h
  have hkey := afterMatch_key_body name text
  rw [if_neg hsuffix] at hkey
  exact jsonGetString_cut hkey

theorem payload_hidden {name : List UInt8} (h : HidesBody name) (text : List UInt8) :
    jsonGetString (stringifyPost name text) (ascii "body") chatBodyMax = none := by
  have hsuffix : 34 :: ascii "body" <:+ 34 :: name := h
  have hkey := afterMatch_key_body name text
  rw [if_pos hsuffix] at hkey
  unfold jsonGetString
  rw [List.cons_append, hkey]
  -- behind the key stands the comma between the members
  rfl

/-! ## §2. What the service makes of them. -/

/-- The name in the tables: the letters, digits and underscores of the first 31 bytes. -/
def formName (name : List UInt8) : List UInt8 := (name.take (chatUserMax - 1)).filter isUserByte

/-- The text in the table: the first 511 bytes, with a question mark for each byte that is not
printable ASCII. -/
def formText (text : List UInt8) : List UInt8 :=
  (text.take (chatBodyMax - 1)).map fun b => if isPrintable b then b else 63

theorem cString_cut {text : List UInt8} (h : Written text) (n : Nat) :
    cString (text.take n) = text.take n :=
  cString_of_notMem fun h0 => h.noNul (List.mem_of_mem_take h0)

theorem sanitizeUser_form {name : List UInt8} (h : Written name) :
    sanitizeUser (name.take (chatUserMax - 1)) chatUserMax = formName name := by
  unfold sanitizeUser formName
  rw [cString_cut h]
  apply List.take_of_length_le
  exact le_trans (List.length_filter_le _ _) (List.length_take_le _ _)

theorem sanitizeText_form {text : List UInt8} (h : Written text) :
    sanitizeText (text.take (chatBodyMax - 1)) chatBodyMax = formText text := by
  unfold sanitizeText formText
  rw [cString_cut h, List.take_take, Nat.min_self]

theorem take_ne_nil {text : List UInt8} (h : text ≠ []) {n : Nat} (hn : 0 < n) : text.take n ≠ [] := by
  rw [Ne, List.take_eq_nil_iff, not_or]
  exact ⟨by omega, h⟩

theorem cleanPost_form {name text : List UInt8} (hname : Written name) (htext : Written text)
    (hne : text ≠ []) :
    cleanPost (name.take (chatUserMax - 1)) (text.take (chatBodyMax - 1))
      = if formName name = [] then none else some (formName name, formText text) := by
  have hbody : formText text ≠ [] := by
    unfold formText
    rw [Ne, List.map_eq_nil_iff]
    exact take_ne_nil hne (by decide)
  unfold cleanPost
  dsimp only
  rw [sanitizeUser_form hname, sanitizeText_form htext, if_neg hbody]

/-- Where the thread of the connection goes: to the INSERT, or to its end. -/
def formRoute (roomId : Int) (name text : List UInt8) : Http :=
  if HidesBody name ∨ formName name = [] then .closing
  else .post (.insert roomId (formName name) (formText text))

/-- What the client is told, with the id `chat_db_insert_message` gives. -/
def formAnswer (inserted : Int) (name : List UInt8) : Response :=
  if HidesBody name then
    ⟨400, "application/json", .text "\x7b\"error\":\"user and body required\"\x7d"⟩
  else if formName name = [] ∨ inserted < 0 then
    ⟨400, "application/json", .text "\x7b\"error\":\"invalid message\"\x7d"⟩
  else ⟨201, "application/json", .posted inserted⟩

/-- A value that is missing leaves its buffer empty. -/
theorem cString_none : cString ((none : Option (List UInt8)).getD []) = [] := rfl

section

variable {name text : List UInt8} (hname : Written name) (htext : Written text) (hname' : name ≠ [])
  (htext' : text ≠ [])
include hname htext hname' htext'

/-- The thread's side of `handle_messages_post`. -/
theorem handleMessagesPost_form (roomId : Int) :
    Chat.handleMessagesPost roomId (stringifyPost name text) = formRoute roomId name text := by
  unfold Chat.handleMessagesPost formRoute
  dsimp only
  rw [payload_user, Option.getD_some, cString_cut hname]
  by_cases hhide : HidesBody name
  · rw [payload_hidden hhide, cString_none, if_pos (Or.inr rfl), if_pos (Or.inl hhide)]
  · have hnone : ¬ (name.take (chatUserMax - 1) = [] ∨ text.take (chatBodyMax - 1) = []) :=
      not_or.mpr ⟨take_ne_nil hname' (by decide), take_ne_nil htext' (by decide)⟩
    rw [payload_body hhide, Option.getD_some, cString_cut htext, if_neg hnone,
      cleanPost_form hname htext htext']
    by_cases hempty : formName name = []
    · rw [if_pos hempty, if_pos (Or.inr hempty)]
    · rw [if_neg hempty, if_neg (not_or.mpr ⟨hhide, hempty⟩)]

/-- The client's side. -/
theorem respondPost_form (c : HttpConn) (out : Surroundings) :
    c.handleMessagesPost out (stringifyPost name text)
      = ⟨true, c.responses ++ [formAnswer out.inserted name]⟩ := by
  unfold HttpConn.handleMessagesPost formAnswer
  dsimp only
  rw [payload_user, Option.getD_some, cString_cut hname]
  by_cases hhide : HidesBody name
  · rw [payload_hidden hhide, cString_none, if_pos (Or.inr rfl), if_pos hhide]
    rfl
  · have hnone : ¬ (name.take (chatUserMax - 1) = [] ∨ text.take (chatBodyMax - 1) = []) :=
      not_or.mpr ⟨take_ne_nil hname' (by decide), take_ne_nil htext' (by decide)⟩
    have hvalue : HttpConn.chatRoomPostValue out (name.take (chatUserMax - 1))
        (text.take (chatBodyMax - 1))
          = if formName name = [] ∨ out.inserted < 0 then -1 else out.inserted := by
      unfold HttpConn.chatRoomPostValue
      rw [cleanPost_form hname htext htext']
      by_cases hempty : formName name = []
      · rw [if_pos hempty, if_pos (Or.inl rfl), if_pos (Or.inl hempty)]
      · rw [if_neg hempty]
        by_cases hid : out.inserted < 0
        · rw [if_pos (Or.inr hid), if_pos (Or.inr hid)]
        · rw [if_neg (not_or.mpr ⟨nofun, hid⟩), if_neg (not_or.mpr ⟨hempty, hid⟩)]
    rw [payload_body hhide, Option.getD_some, cString_cut htext, if_neg hnone, hvalue, if_neg hhide]
    by_cases hbad : formName name = [] ∨ out.inserted < 0
    · rw [if_pos hbad, if_pos hbad, if_pos (by decide)]
      rfl
    · rw [if_neg hbad, if_neg hbad, if_neg (fun hid => hbad (Or.inr hid))]
      rfl

end

/-! ## §3. The requests on the wire. -/

/-- The `fetch` of the form; what the browser adds is open. -/
structure FormRequest (room : ChatRoom) (name text : List UInt8) (w : WireRequest) : Prop where
  method : w.method = ascii "POST"
  path : ∃ digits, w.pathBytes = ascii "/api/rooms/" ++ digits ++ ascii "/messages"
    ∧ PlainId digits room.id
  body : w.body = stringifyPost name text

/-- The `EventSource` of a room. -/
structure StreamRequest (room : ChatRoom) (name : List UInt8) (w : WireRequest) : Prop where
  method : w.method = ascii "GET"
  path : ∃ digits, w.pathBytes = ascii "/api/events/rooms/" ++ digits ∧ PlainId digits room.id
  query : w.query = some (ascii "user=" ++ encodeComponent true name)

theorem noNul_pathBytes (w : WireRequest) : 0 ∉ w.pathBytes := by
  intro h0
  obtain ⟨b, -, hb⟩ := List.mem_map.mp h0
  cases b with
  | literal b hbyte =>
    have hb : b = 0 := hb
    rw [hb] at hbyte
    exact hbyte List.mem_cons_self
  | escaped b hbyte upperHi upperLo => exact hbyte hb

/-- The body is what stands behind the head in the buffer. -/
theorem bodyBytes_request (w : WireRequest) {buf : List UInt8}
    (hbuf : buf.take w.render.length = w.render) : w.request.bodyBytes buf = w.body := by
  have hrender : buf.take (w.head ++ w.body).length
      = (w.head ++ w.body).take (w.head ++ w.body).length := hbuf.trans List.take_length.symm
  have hcut := (take_line hrender (by simp)).2
  show (buf.drop w.head.length).take w.body.length = w.body
  simpa using hcut

/-- A request is read as it was written, whatever way its bytes arrive. -/
theorem request_received (w : WireRequest) (hsize : w.render.length ≤ httpRecvMax) (mem : List UInt8)
    {outcomes : List RecvOutcome} (hsend : ∀ o ∈ outcomes, o.Sending)
    (hbytes : outcomes.flatMap RecvOutcome.bytes = w.render) :
    ∃ st, readRequest httpRecvMax outcomes (readRequestStart mem) = (st, some (w.render.length : Int))
      ∧ st.req = w.request ∧ st.req.bodyBytes st.buf = w.body ∧ st.responses = [] := by
  have hpos : 0 < w.render.length := by
    simp [WireRequest.render, WireRequest.head, WireRequest.startLine, WireRequest.requestLine]
  have hstart : Receiving w (readRequestStart mem) := ⟨rfl, Nat.zero_le _, hpos⟩
  obtain ⟨st, hread, hreq, hbuf, hresp⟩ :=
    readRequest_receiving w hsize outcomes _ hstart hsend hbytes
  exact ⟨st, hread, hreq, by rw [hreq, bodyBytes_request w hbuf], hresp⟩

/-- The documented path of a room reaches its handler. -/
theorem dispatch_documented {reg : RoomRegistry} {room : ChatRoom} (hroom : room ∈ reg.rooms)
    {w : WireRequest} (h : RoomHandler) (hmethod : parseMethod w.method = h.method)
    {digits : List UInt8} (hpath : w.pathBytes = h.before ++ digits ++ h.after)
    (hid : PlainId digits room.id) :
    Chat.httpDispatch reg w.request.method w.request.path = .room h room :=
  (dispatch_room_iff (noNul_pathBytes w)).mpr
    ⟨hroom, hmethod, digits, hpath, reads_of_plainId (reg.isLong room hroom).2 hid⟩

/-! ## §4. The form. -/

/-- A name with a letter that is not ASCII, and a text with one and with quotes. -/
def zoeName : List UInt8 := ascii "zo" ++ [195, 171]
def zoeText : List UInt8 := ascii "say \"h" ++ [195, 169] ++ ascii "\""

theorem zoePost_length :
    (ascii "content-length:").map toLower = contentLengthName.map toLower := by
  decide +kernel

theorem zoePost_method : 32 ∉ ascii "POST" ∧ NoBreak (ascii "POST") := by
  decide

theorem zoe_version : ∀ v ∈ some (ascii "HTTP/1.1"), NoBreak v := by
  decide

theorem zoePost_plain :
    ∀ b ∈ ascii "/api/rooms/1/messages", b ∉ [0, 32, 63, 37, 13, 10] := by
  decide +kernel

def zoePost : WireRequest where
  method := ascii "POST"
  path := (ascii "/api/rooms/1/messages").attach.map fun b =>
    .literal b.1 (zoePost_plain b.1 b.2)
  query := none
  version := some (ascii "HTTP/1.1")
  lineEnd := .crlf
  before := []
  length := some ⟨ascii "content-length:", 1, ascii "36", 0, .crlf, zoePost_length,
    by decide +kernel, by decide +kernel⟩
  after := []
  blankEnd := .crlf
  body := stringifyPost zoeName zoeText
  methodOk := zoePost_method
  pathOk := by decide +kernel
  queryOk := nofun
  versionOk := zoe_version
  lengthOk := by decide +kernel
  bodyOk := nofun

/-- The user of the stream's query. -/
theorem streamQuery_user (name : List UInt8) :
    httpQueryGet (ascii "user=" ++ encodeComponent true name) (ascii "user") chatUserMax
      = some (name.take (chatUserMax - 1)) := by
  have hkey : PlainKey (ascii "user") := by decide +kernel
  have hrender : ascii "user=" ++ encodeComponent true name = renderQuery true [(ascii "user", name)] := by
    have hsplit : ascii "user=" = ascii "user" ++ [61] := by decide +kernel
    rw [hsplit]
    simp [renderQuery]
  have hnul : 0 ∉ renderQuery true [(ascii "user", name)] := by
    rw [← hrender, List.mem_append, not_or]
    exact ⟨by decide +kernel, (encode_separators true name).1⟩
  rw [hrender, httpQueryGet_render true chatUserMax (fun p hp => by
    rw [List.mem_singleton.mp hp]; exact hkey) hkey hnul]
  rfl

theorem zoeStream_plain :
    ∀ b ∈ ascii "/api/events/rooms/1", b ∉ [0, 32, 63, 37, 13, 10] := by
  decide +kernel

def zoeStream : WireRequest where
  method := ascii "GET"
  path := (ascii "/api/events/rooms/1").attach.map fun b =>
    .literal b.1 (zoeStream_plain b.1 b.2)
  query := some (ascii "user=zo%C3%AB")
  version := some (ascii "HTTP/1.1")
  lineEnd := .crlf
  before := []
  length := none
  after := []
  blankEnd := .crlf
  body := []
  methodOk := by decide +kernel
  pathOk := by decide +kernel
  queryOk := by decide +kernel
  versionOk := zoe_version
  lengthOk := nofun
  bodyOk := fun _ => rfl

end NetServer.Web
