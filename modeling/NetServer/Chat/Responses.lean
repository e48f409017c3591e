/-
  NetServer.Chat.Responses — `http_run_session`: one request, one response.

  A connection reads one request, hands it to `http_dispatch` and closes.  The
  reader answers a request it gives up on, the router one it has no handler for,
  and every handler answers on each of its ways out; `http_run_session` has a 404
  ready for a router that did not.

  What the client, the file system, the memory and the storage do are the inputs
  of the run.  Main results:

    • `readRequestStep_ends` — how a round of `read_request` ends and what it sends;
    • `httpDispatch_responds` — every way through the router and its handlers
      sends one response;
    • `OneResponse.step`, `one_response` — a run sends at most one, and exactly
      one for each request that is read, rejected or timed out.
-/
import NetServer.Chat.History
import NetServer.Chat.HttpChat
import NetServer.Chat.Router
import NetServer.Http.ReadBounds
import NetServer.Lib.TransitionSystem

namespace NetServer.Chat

open NetServer.Lib
open NetServer.Lib.TransitionSystem
open NetServer.Http

/-! ## §1. Responses. -/

/-- What a response carries; the texts of the JSON answers are those of their
data. -/
inductive ResponseBody where
  | text (t : String)
  | file (bytes : List UInt8)
  | rooms (rs : List ChatRoom)
  | messages (msgs : List ChatMsg)
  | posted (id : Int)
  | users (names : List (List UInt8))
  /-- An event stream: what follows the head are frames. -/
  | stream
  deriving Repr, DecidableEq

structure Response where
  status : Nat
  contentType : String
  body : ResponseBody
  deriving Repr, DecidableEq

/-- The part of `http_conn_t` that the responses touch, and the responses whose
heads have been written. -/
structure HttpConn where
  responded : Bool
  responses : List Response
  deriving Repr, DecidableEq

namespace HttpConn

/-- `http_respond`. -/
def httpRespond (c : HttpConn) (status : Nat) (contentType : String) (body : ResponseBody) :
    HttpConn :=
  { responded := true, responses := c.responses ++ [⟨status, contentType, body⟩] }

/-- `http_respond_json`. -/
def httpRespondJson (c : HttpConn) (status : Nat) (body : ResponseBody) : HttpConn :=
  c.httpRespond status "application/json" body

/-- `http_respond_text`. -/
def httpRespondText (c : HttpConn) (status : Nat) (text : String) : HttpConn :=
  c.httpRespond status "text/plain; charset=utf-8" (.text text)

/-- `http_sse_begin`. -/
def httpSseBegin (c : HttpConn) : HttpConn :=
  { responded := true, responses := c.responses ++ [⟨200, "text/event-stream", .stream⟩] }

/-- Exactly one response more, and the flag is set. -/
def Responds (c c' : HttpConn) : Prop :=
  c'.responded = true ∧ ∃ r, c'.responses = c.responses ++ [r]

@[simp] theorem responds_httpRespond (c : HttpConn) (status : Nat) (contentType : String)
    (body : ResponseBody) : c.Responds (c.httpRespond status contentType body) :=
  ⟨rfl, _, rfl⟩

@[simp] theorem responds_httpRespondJson (c : HttpConn) (status : Nat) (body : ResponseBody) :
    c.Responds (c.httpRespondJson status body) :=
  responds_httpRespond c status _ body

@[simp] theorem responds_httpRespondText (c : HttpConn) (status : Nat) (text : String) :
    c.Responds (c.httpRespondText status text) :=
  responds_httpRespond c status _ _

@[simp] theorem responds_httpSseBegin (c : HttpConn) : c.Responds c.httpSseBegin := ⟨rfl, _, rfl⟩

end HttpConn

/-! ## §2. The handlers. -/

/-- A file that could be opened: what `fstat` says of its size and what `read`
gives, `none` when they fail. -/
structure WebFile where
  size : Option Int
  content : Option (List UInt8)

/-- What a handler finds outside the connection.  A query that fails gives no
rows, as one of an empty table. -/
structure Surroundings where
  /-- `open` of a file below the web root. -/
  file : String → Option WebFile
  /-- `malloc` succeeds. -/
  memory : Bool
  db : ChatDb
  now : Int
  /-- `chat_db_insert_message`. -/
  inserted : Int

namespace HttpConn

/-- `serve_static`. -/
def serveStatic (c : HttpConn) (out : Surroundings) (name ctype : String) : HttpConn :=
  match out.file name with
  | none => c.httpRespondText 404 "Not Found\n"
  | some f =>
      match f.size with
      | none => c.httpRespondText 404 "Not Found\n"
      | some size =>
          -- an empty file, or one of more than 256 KiB
          if size ≤ 0 ∨ 262144 < size then c.httpRespondText 404 "Not Found\n"
          else if out.memory = false then c.httpRespondText 500 "oom\n"
          else
            match f.content with
            | none => c.httpRespondText 404 "Not Found\n"
            | some bytes =>
                -- `read` gives no more than it is asked for
                let got := bytes.take size.toNat
                if 0 < got.length then c.httpRespond 200 ctype (.file got)
                else c.httpRespondText 404 "Not Found\n"

/-- `handle_rooms`. -/
def handleRooms (c : HttpConn) (reg : RoomRegistry) : HttpConn :=
  c.httpRespondJson 200 (.rooms reg.rooms)

/-- `handle_messages_get`. -/
def handleMessagesGet (c : HttpConn) (out : Surroundings) (room : ChatRoom) (query : List UInt8) :
    HttpConn :=
  let msgs := NetServer.Chat.handleMessagesGet out.db room.id query
  -- the block for the answer is allocated behind the query
  if out.memory = false then c.httpRespondJson 500 (.text "\x7b\"error\":\"oom\"\x7d")
  else c.httpRespondJson 200 (.messages msgs)

/-- The value of `chat_room_post`: -1 when nothing is left of a text, or the row
could not be inserted. -/
def chatRoomPostValue (out : Surroundings) (user body : List UInt8) : Int :=
  if cleanPost user body = none ∨ out.inserted < 0 then -1 else out.inserted

/-- `handle_messages_post`. -/
def handleMessagesPost (c : HttpConn) (out : Surroundings) (reqBody : List UInt8) : HttpConn :=
  -- a value that is missing leaves its buffer zeroed
  let user := cString ((jsonGetString reqBody (ascii "user") chatUserMax).getD [])
  let body := cString ((jsonGetString reqBody (ascii "body") chatBodyMax).getD [])
  if user = [] ∨ body = [] then
    c.httpRespondJson 400 (.text "\x7b\"error\":\"user and body required\"\x7d")
  else
    let id := chatRoomPostValue out user body
    if id < 0 then c.httpRespondJson 400 (.text "\x7b\"error\":\"invalid message\"\x7d")
    else c.httpRespondJson 201 (.posted id)

/-- `handle_users`. -/
def handleUsers (c : HttpConn) (out : Surroundings) (room : ChatRoom) : HttpConn :=
  c.httpRespondJson 200 (.users (chatRoomUsers out.db room.id out.now 64))

/-- `http_dispatch` with its handlers; an event stream goes on with the loop of
`handle_sse`. -/
def httpDispatch (c : HttpConn) (reg : RoomRegistry) (out : Surroundings) (req : HttpRequest)
    (reqBody : List UInt8) : HttpConn × Option Sse :=
  match NetServer.Chat.httpDispatch reg req.method req.path with
  | .static name ctype => (c.serveStatic out name ctype, none)
  | .health => (c.httpRespondJson 200 (.text "\x7b\"status\":\"ok\"\x7d"), none)
  | .rooms => (c.handleRooms reg, none)
  | .room .messagesGet room => (c.handleMessagesGet out room req.query, none)
  | .room .messagesPost _ => (c.handleMessagesPost out reqBody, none)
  | .room .users room => (c.handleUsers out room, none)
  -- the head is sent before anything else is asked of the room
  | .room .events room => (c.httpSseBegin, some (handleSse room.id req.query))
  | .json status body => (c.httpRespondJson status (.text body), none)
  | .text status body => (c.httpRespondText status body, none)

theorem serveStatic_responds (c : HttpConn) (out : Surroundings) (name ctype : String) :
    c.Responds (c.serveStatic out name ctype) := by
  unfold serveStatic
  cases out.file name with
  | none => simp
  | some f =>
      dsimp only
      cases f.size with
      | none => simp
      | some size =>
          dsimp only
          cases f.content with
          | none => split_ifs <;> exact responds_httpRespondText c _ _
          | some bytes =>
              dsimp only
              split_ifs
              · exact responds_httpRespondText c _ _
              · exact responds_httpRespondText c _ _
              · exact responds_httpRespond c _ _ _
              · exact responds_httpRespondText c _ _

theorem handleMessagesGet_responds (c : HttpConn) (out : Surroundings) (room : ChatRoom)
    (query : List UInt8) : c.Responds (c.handleMessagesGet out room query) := by
  unfold handleMessagesGet
  split_ifs <;> simp

theorem handleMessagesPost_responds (c : HttpConn) (out : Surroundings) (reqBody : List UInt8) :
    c.Responds (c.handleMessagesPost out reqBody) := by
  unfold handleMessagesPost
  dsimp only
  split_ifs <;> simp

/-- **Every way through the router and its handlers sends one response.** -/
theorem httpDispatch_responds (c : HttpConn) (reg : RoomRegistry) (out : Surroundings)
    (req : HttpRequest) (reqBody : List UInt8) :
    c.Responds (c.httpDispatch reg out req reqBody).1 := by
  unfold httpDispatch
  cases NetServer.Chat.httpDispatch reg req.method req.path with
  | static name ctype => exact serveStatic_responds c out name ctype
  | health => exact responds_httpRespondJson c _ _
  | rooms => exact responds_httpRespondJson c _ _
  | json status body => exact responds_httpRespondJson c _ _
  | text status body => exact responds_httpRespondText c _ _
  | room h r =>
      cases h with
      | messagesGet => exact handleMessagesGet_responds c out r req.query
      | messagesPost => exact handleMessagesPost_responds c out reqBody
      | users => exact responds_httpRespondJson c _ _
      | events => exact responds_httpSseBegin c

end HttpConn

/-! ## §3. How reading ends. -/

/-- The ends of `read_request`. -/
inductive ReadEnd where
  | complete
  | malformed
  | oversized
  | timedOut
  /-- The client closed, or `poll` or `recv` failed. -/
  | aborted
  deriving Repr, DecidableEq

/-- How the loop ends behind a parse; `none` when more is needed. -/
def parsedEnd (bufsz : Nat) (st : ReadState) : Option ReadEnd :=
  let total := (httpParseRequest st.buf st.filled st.req).1
  if 0 < total then some .complete
  else if total < 0 then some .malformed
  else if bufsz ≤ st.filled then some .oversized
  else none

/-- How a round ends the loop, from what was received; `none` when it goes on. -/
def readEnd (bufsz : Nat) (st : ReadState) (o : RecvOutcome) : Option ReadEnd :=
  match o with
  | .pollIntr | .recvIntr => none
  | .pollTimeout => some .timedOut
  | .pollError | .recvError | .recvClosed => some .aborted
  | .recvd bytes =>
      match received? bufsz st (.recvd bytes) with
      | none => some .aborted
      | some st' => parsedEnd bufsz st'

/-- The statuses an end of reading is answered with. -/
def ReadEnd.statuses : ReadEnd → List Nat
  | .complete => []
  | .malformed => [400]
  | .oversized => [413]
  | .timedOut => [408]
  | .aborted => []

/-- The ends a client is owed a response for. -/
def ReadEnd.answered : ReadEnd → Bool
  | .aborted => false
  | _ => true

/-- A round that began with the responses `sent` did what its end says. -/
def EndsAs (sent : List Nat) (res : ReadState × Option Int) : Option ReadEnd → Prop
  | none => res.2 = none ∧ res.1.responses = sent
  | some e => (∃ total, res.2 = some total ∧ (0 < total ↔ e = .complete))
      ∧ res.1.responses = sent ++ e.statuses

theorem afterRecv_ends (bufsz : Nat) (st : ReadState) :
    EndsAs st.responses (afterRecv bufsz st) (parsedEnd bufsz st) := by
  unfold afterRecv parsedEnd
  generalize httpParseRequest st.buf st.filled st.req = res
  obtain ⟨total, req⟩ := res
  dsimp only
  split_ifs with hpos hneg hfull
  · exact ⟨⟨total, rfl, fun _ => rfl, fun _ => hpos⟩, (List.append_nil _).symm⟩
  · exact ⟨⟨-1, rfl, fun h => absurd h (by decide), nofun⟩, rfl⟩
  · exact ⟨⟨-1, rfl, fun h => absurd h (by decide), nofun⟩, rfl⟩
  · exact ⟨rfl, rfl⟩

/-- **How a round ends** and what it sends. -/
theorem readRequestStep_ends (bufsz : Nat) (st : ReadState) (o : RecvOutcome) :
    EndsAs st.responses (readRequestStep bufsz st o) (readEnd bufsz st o) := by
  have habort : EndsAs st.responses (st, some (-1)) (some .aborted) :=
    ⟨⟨-1, rfl, fun h => absurd h (by decide), nofun⟩, (List.append_nil _).symm⟩
  cases o with
  | pollIntr => exact ⟨rfl, rfl⟩
  | recvIntr => exact ⟨rfl, rfl⟩
  | pollTimeout => exact ⟨⟨-1, rfl, fun h => absurd h (by decide), nofun⟩, rfl⟩
  | pollError => exact habort
  | recvError => exact habort
  | recvClosed => exact habort
  | recvd bytes =>
      -- `recv` hands over what fits; nothing at all is the end of the stream
      cases htake : bytes.take (bufsz - st.filled) with
      | nil =>
          have hend : readEnd bufsz st (.recvd bytes) = some .aborted := by
            simp [readEnd, received?, htake]
          have hround : readRequestStep bufsz st (.recvd bytes) = (st, some (-1)) := by
            simp [readRequestStep, htake]
          rw [hend, hround]
          exact habort
      | cons b bs =>
          have hend : readEnd bufsz st (.recvd bytes) = parsedEnd bufsz (st.fill (b :: bs)) := by
            simp [readEnd, received?, htake]
          have hround : readRequestStep bufsz st (.recvd bytes)
              = afterRecv bufsz (st.fill (b :: bs)) := by
            simp [readRequestStep, htake]
          rw [hend, hround]
          exact afterRecv_ends bufsz (st.fill (b :: bs))

/-! ## §4. The run. -/

/-- Where `http_run_session` is. -/
inductive RunPhase where
  /-- In `read_request`. -/
  | reading (st : ReadState)
  /-- Before `http_dispatch`, with a complete request. -/
  | dispatching (st : ReadState)
  /-- In the loop of `handle_sse`. -/
  | streaming (e : Sse)
  /-- `http_dispatch` has returned. -/
  | dispatched
  /-- Behind the response: nothing is sent any more. -/
  | closed

/-- A run: `ended` remembers how reading ended. -/
structure HttpRun where
  phase : RunPhase
  conn : HttpConn
  ended : Option ReadEnd

/-- What the thread meets next. -/
inductive RunInput where
  /-- A round of `poll` and `recv`. -/
  | round (o : RecvOutcome)
  /-- `http_dispatch` runs. -/
  | dispatch (out : Surroundings)
  /-- A step of the event stream. -/
  | stream (sh : Shared) (bytes : Nat) (shutdown : Bool) (choice : Choice)
  /-- The check of `responded` behind `http_dispatch`. -/
  | finish

/-- The texts of the reader's responses. -/
def readErrorText (status : Nat) : String :=
  if status = 408 then "Request Timeout\n"
  else if status = 400 then "Bad Request\n"
  else "Payload Too Large\n"

/-- The responses that `read_request` sends in a round. -/
def HttpConn.readResponses (c : HttpConn) : List Nat → HttpConn
  | [] => c
  | status :: rest => (c.httpRespondText status (readErrorText status)).readResponses rest

/-- Behind a round of `read_request`: `if (total > 0)` once it has returned. -/
def RunPhase.afterRound (st : ReadState) : Option Int → RunPhase
  | none => .reading st
  | some total => if 0 < total then .dispatching st else .closed

def HttpRun.round (s : HttpRun) (st : ReadState) (o : RecvOutcome) : HttpRun :=
  let res := readRequestStep httpRecvMax st o
  { phase := RunPhase.afterRound res.1 res.2
    -- the statuses that this round added
    conn := s.conn.readResponses (res.1.responses.drop st.responses.length)
    ended := readEnd httpRecvMax st o }

/-- `http_dispatch (c, &req)`. -/
def HttpRun.dispatch (s : HttpRun) (reg : RoomRegistry) (st : ReadState) (out : Surroundings) :
    HttpRun :=
  let res := s.conn.httpDispatch reg out st.req (st.req.bodyBytes st.buf)
  { s with
    phase :=
      match res.2 with
      | none => .dispatched
      | some e => .streaming e
    conn := res.1 }

/-- `if (!c->responded)` with its 404. -/
def HttpRun.finish (s : HttpRun) : HttpRun :=
  { s with
    phase := .closed
    conn := if s.conn.responded then s.conn else s.conn.httpRespondText 404 "Not Found\n" }

/-- One step of `http_run_session`. -/
def httpRunStep (reg : RoomRegistry) (s : HttpRun) (input : RunInput) : Option HttpRun :=
  match s.phase, input with
  | .reading st, .round o => some (s.round st o)
  | .dispatching st, .dispatch out => some (s.dispatch reg st out)
  | .streaming e, .stream sh bytes shutdown choice =>
      (e.step sh bytes shutdown choice).map fun res =>
        { s with
          phase :=
            match res.1 with
            | some e' => .streaming e'
            | none => .dispatched }
  | .dispatched, .finish => some s.finish
  | _, _ => none

/-- `http_run_session`, from whatever is in its buffer. -/
def httpRunSession (reg : RoomRegistry) : TransitionSystem HttpRun RunInput where
  init := fun s => ∃ mem, s = ⟨.reading (readRequestStart mem), ⟨false, []⟩, none⟩
  step := httpRunStep reg

/-! ## §5. One response. -/

/-- The responses of a run, by its phase. -/
def OneResponse (s : HttpRun) : Prop :=
  match s.phase with
  | .reading st => s.ended = none ∧ st.responses = [] ∧ s.conn = ⟨false, []⟩
  | .dispatching _ => s.ended = some .complete ∧ s.conn = ⟨false, []⟩
  | .streaming _ | .dispatched =>
      s.ended = some .complete ∧ s.conn.responded = true ∧ ∃ r, s.conn.responses = [r]
  | .closed => ∃ e, s.ended = some e ∧
      if e.answered then s.conn.responded = true ∧ ∃ r, s.conn.responses = [r]
      else s.conn = ⟨false, []⟩

/-- A round of reading: no end, or one of the five. -/
theorem OneResponse.round {s : HttpRun} {st : ReadState} (hphase : s.phase = .reading st)
    (h : OneResponse s) (o : RecvOutcome) : OneResponse (s.round st o) := by
  unfold OneResponse at h
  rw [hphase] at h
  obtain ⟨-, hnone, hconn⟩ := h
  have hends := readRequestStep_ends httpRecvMax st o
  unfold HttpRun.round
  revert hends
  generalize readRequestStep httpRecvMax st o = res
  generalize readEnd httpRecvMax st o = e
  obtain ⟨st', value⟩ := res
  intro hends
  cases e with
  | none =>
      obtain ⟨hvalue, hsame⟩ := hends
      dsimp only at hvalue hsame ⊢
      subst hvalue
      rw [hsame, hnone, hconn]
      exact ⟨rfl, hsame.trans hnone, rfl⟩
  | some e =>
      obtain ⟨⟨total, hvalue, hpos⟩, hsent⟩ := hends
      -- only a complete request gives a length, and goes on to `http_dispatch`
      have hafter : RunPhase.afterRound st' (some total)
          = if e = .complete then .dispatching st' else .closed := if_congr hpos rfl rfl
      dsimp only at hvalue hsent ⊢
      rw [hvalue, hafter, hsent, hnone, hconn]
      cases e with
      | complete => exact ⟨rfl, rfl⟩
      | malformed => exact ⟨.malformed, rfl, rfl, _, rfl⟩
      | oversized => exact ⟨.oversized, rfl, rfl, _, rfl⟩
      | timedOut => exact ⟨.timedOut, rfl, rfl, _, rfl⟩
      | aborted => exact ⟨.aborted, rfl, rfl⟩

theorem OneResponse.dispatch {s : HttpRun} {st : ReadState} (hphase : s.phase = .dispatching st)
    (h : OneResponse s) (reg : RoomRegistry) (out : Surroundings) :
    OneResponse (s.dispatch reg st out) := by
  unfold OneResponse at h
  rw [hphase] at h
  obtain ⟨hended, hconn⟩ := h
  have hresp := s.conn.httpDispatch_responds reg out st.req (st.req.bodyBytes st.buf)
  unfold HttpRun.dispatch
  revert hresp
  generalize s.conn.httpDispatch reg out st.req (st.req.bodyBytes st.buf) = res
  obtain ⟨c, stream⟩ := res
  intro hresp
  obtain ⟨hflag, r, hr⟩ := hresp
  rw [hconn] at hr
  cases stream with
  | none => exact ⟨hended, hflag, r, hr⟩
  | some e => exact ⟨hended, hflag, r, hr⟩

theorem OneResponse.finish {s : HttpRun} (hphase : s.phase = .dispatched) (h : OneResponse s) :
    s.finish.conn = s.conn ∧ OneResponse s.finish := by
  unfold OneResponse at h
  rw [hphase] at h
  obtain ⟨hended, hflag, r, hr⟩ := h
  have hconn : s.finish.conn = s.conn := if_pos hflag
  refine ⟨hconn, .complete, hended, ?_⟩
  rw [hconn]
  exact ⟨hflag, r, hr⟩

/-- **Every step keeps it.** -/
theorem OneResponse.step {reg : RoomRegistry} {s s' : HttpRun} {input : RunInput}
    (h : OneResponse s) (hstep : httpRunStep reg s input = some s') : OneResponse s' := by
  unfold httpRunStep at hstep
  split at hstep
  · rename_i st o hphase
    obtain rfl := Option.some.inj hstep
    exact h.round hphase o
  · rename_i st out hphase
    obtain rfl := Option.some.inj hstep
    exact h.dispatch hphase reg out
  · -- frames and comments of a stream are no responses
    rename_i e sh bytes shutdown choice hphase
    obtain ⟨⟨e', op⟩, -, rfl⟩ := Option.map_eq_some_iff.mp hstep
    unfold OneResponse at h
    rw [hphase] at h
    cases e' with
    | none => exact h
    | some e' => exact h
  · rename_i hphase
    obtain rfl := Option.some.inj hstep
    exact (h.finish hphase).2
  · cases hstep

theorem oneResponse_reachable {reg : RoomRegistry} {s : HttpRun}
    (h : (httpRunSession reg).Reachable s) : OneResponse s := by
  refine ReachableVia.invariant ?_ (fun s _ s' hs hstep _ => hs.step hstep) h
  rintro s ⟨mem, rfl⟩
  exact ⟨rfl, rfl, rfl⟩

/-- Nothing is read any more and `http_dispatch` has answered, or is not called. -/
def RunPhase.past : RunPhase → Bool
  | .reading _ | .dispatching _ => false
  | _ => true

/-- **How far a run is, and what it has sent.** -/
inductive RunKind (s : HttpRun) : Prop where
  /-- Reading, or before `http_dispatch`. -/
  | before : s.phase.past = false → (s.ended = none ∨ s.ended = some .complete) →
      s.conn.responses = [] → RunKind s
  /-- Answered by the reader, or by `http_dispatch`. -/
  | answered (e : ReadEnd) (r : Response) : s.phase.past = true → s.ended = some e →
      e = .complete ∨ s.phase = .closed → s.conn.responses = [r] → RunKind s
  /-- Given up without a response. -/
  | aborted : s.ended = some .aborted → s.conn.responses = [] → RunKind s

theorem OneResponse.kind {s : HttpRun} (h : OneResponse s) : RunKind s := by
  unfold OneResponse at h
  cases hphase : s.phase with
  | reading st =>
      rw [hphase] at h
      obtain ⟨hended, -, hconn⟩ := h
      exact .before (by rw [hphase]; rfl) (Or.inl hended) (by rw [hconn])
  | dispatching st =>
      rw [hphase] at h
      obtain ⟨hended, hconn⟩ := h
      exact .before (by rw [hphase]; rfl) (Or.inr hended) (by rw [hconn])
  | streaming e =>
      rw [hphase] at h
      obtain ⟨hended, -, r, hr⟩ := h
      exact .answered .complete r (by rw [hphase]; rfl) hended (Or.inl rfl) hr
  | dispatched =>
      rw [hphase] at h
      obtain ⟨hended, -, r, hr⟩ := h
      exact .answered .complete r (by rw [hphase]; rfl) hended (Or.inl rfl) hr
  | closed =>
      rw [hphase] at h
      obtain ⟨e, hended, hconn⟩ := h
      cases hans : e.answered with
      | true =>
          rw [if_pos hans] at hconn
          obtain ⟨-, r, hr⟩ := hconn
          exact .answered e r (by rw [hphase]; rfl) hended (Or.inr hphase) hr
      | false =>
          rw [if_neg (by rw [hans]; exact nofun)] at hconn
          obtain rfl : e = .aborted := by
            cases e <;> first | rfl | cases hans
          exact .aborted hended (by rw [hconn])

/-- A complete request that has been handed on has one response. -/
theorem OneResponse.complete {s : HttpRun} (h : OneResponse s) (hended : s.ended = some .complete)
    (hpast : s.phase.past = true) : s.conn.responses.length = 1 := by
  cases h.kind with
  | before hno _ _ => cases hno.symm.trans hpast
  | answered e r _ _ _ hr => rw [hr, List.length_singleton]
  | aborted hno _ => cases hno.symm.trans hended

/-- A request that was given up on, but not because of the connection, ends the
run with one response. -/
theorem OneResponse.rejected {s : HttpRun} (h : OneResponse s) {e : ReadEnd}
    (hended : s.ended = some e) (hne : e ≠ .complete) (hnot : e ≠ .aborted) :
    s.phase = .closed ∧ s.conn.responses.length = 1 := by
  cases h.kind with
  | before _ hend _ =>
      rcases hend with hend | hend
      · cases hend.symm.trans hended
      · exact absurd (Option.some.inj (hended.symm.trans hend)) hne
  | answered e' r _ hend hclosed hr =>
      obtain rfl : e = e' := Option.some.inj (hended.symm.trans hend)
      exact ⟨hclosed.resolve_left hne, by rw [hr, List.length_singleton]⟩
  | aborted hend _ => exact absurd (Option.some.inj (hended.symm.trans hend)) hnot

/-- **One response per request.**  For every set of rooms, and in every state that
any outcomes of `poll` and `recv`, any files, memory and storage and any course of
an event stream lead to: at most one response has been sent; exactly one as soon
as the request was rejected as malformed or oversized or did not come in time;
when it was complete, `http_dispatch` can be called whatever it finds, sets
`responded` with exactly one response, and there is exactly one from then on; and
the check behind it sends nothing. -/
theorem one_response {reg : RoomRegistry} {s : HttpRun} (h : (httpRunSession reg).Reachable s) :
    s.conn.responses.length ≤ 1
      ∧ (s.ended = some .malformed ∨ s.ended = some .oversized ∨ s.ended = some .timedOut →
        s.phase = .closed ∧ s.conn.responses.length = 1)
      ∧ (s.ended = some .complete → s.phase.past = true → s.conn.responses.length = 1)
      ∧ (∀ st, s.phase = .dispatching st → ∀ out, ∃ s', httpRunStep reg s (.dispatch out) = some s'
        ∧ s'.phase.past = true ∧ s'.conn.responded = true ∧ s'.conn.responses.length = 1)
      ∧ (s.phase = .dispatched → ∃ s', httpRunStep reg s .finish = some s'
        ∧ s'.phase = .closed ∧ s'.conn = s.conn)
      ∧ ∀ (c : HttpConn) (out : Surroundings) (req : HttpRequest) (reqBody : List UInt8),
        (c.httpDispatch reg out req reqBody).1.responded = true := by
  have hone := oneResponse_reachable h
  refine ⟨?_, ?_, ?_, ?_, ?_, ?_⟩
  · cases hone.kind with
    | before _ _ hr => rw [hr]; exact Nat.zero_le 1
    | answered e r _ _ _ hr => rw [hr]; exact Nat.le_refl 1
    | aborted _ hr => rw [hr]; exact Nat.zero_le 1
  · rintro (hended | hended | hended)
    · exact hone.rejected hended nofun nofun
    · exact hone.rejected hended nofun nofun
    · exact hone.rejected hended nofun nofun
  · intro hended hpast
    exact hone.complete hended hpast
  · intro st hphase out
    have hstep : httpRunStep reg s (.dispatch out) = some (s.dispatch reg st out) := by
      unfold httpRunStep
      rw [hphase]
    have hnext := hone.dispatch hphase reg out
    have hflag := (s.conn.httpDispatch_responds reg out st.req (st.req.bodyBytes st.buf)).1
    have hended : (s.dispatch reg st out).ended = some .complete := by
      unfold OneResponse at hone
      rw [hphase] at hone
      exact hone.1
    have hpast : (s.dispatch reg st out).phase.past = true := by
      unfold HttpRun.dispatch
      dsimp only
      split <;> rfl
    exact ⟨_, hstep, hpast, hflag, hnext.complete hended hpast⟩
  · intro hphase
    have hstep : httpRunStep reg s .finish = some s.finish := by
      unfold httpRunStep
      rw [hphase]
    exact ⟨_, hstep, rfl, (hone.finish hphase).1⟩
  · intro c out req reqBody
    exact (c.httpDispatch_responds reg out req reqBody).1

/-- No files, no memory and no database. -/
def nothingThere : Surroundings where
  file := fun _ => none
  memory := false
  db := { messages := [], seq := 0, presence := [] }
  now := 0
  inserted := -1

/-- A request for the page in two pieces, on a server without files, and a client
that goes quiet. -/
theorem one_response_missing_page :
    (∃ s, (httpRunSession lobbyOnly).Reachable s ∧ s.ended = some .complete
        ∧ s.conn.responses.length = 1)
      ∧ ∃ s, (httpRunSession lobbyOnly).Reachable s ∧ s.ended = some .timedOut
        ∧ s.conn.responses.length = 1 := by
  have hstart : (httpRunSession lobbyOnly).Reachable
      ⟨.reading (readRequestStart []), ⟨false, []⟩, none⟩ := .init ⟨[], rfl⟩
  constructor
  · obtain ⟨s, hrun, hcheck⟩ := @exists_of_run _ _ (httpRunSession lobbyOnly)
      ⟨.reading (readRequestStart []), ⟨false, []⟩, none⟩
      [.round (.recvd (ascii "GET / HT")), .round (.recvd (ascii "TP/1.1\r\n\r\n")),
        .dispatch nothingThere, .finish]
      (fun s => decide (s.ended = some .complete) && s.phase.past) (by decide +kernel)
    rw [Bool.and_eq_true, decide_eq_true_eq] at hcheck
    have hreach := run_reachable _ _ _ hstart hrun
    exact ⟨s, hreach, hcheck.1, (one_response hreach).2.2.1 hcheck.1 hcheck.2⟩
  · obtain ⟨s, hrun, hcheck⟩ := @exists_of_run _ _ (httpRunSession lobbyOnly)
      ⟨.reading (readRequestStart []), ⟨false, []⟩, none⟩
      [.round .pollIntr, .round (.recvd (ascii "GET /")), .round .pollTimeout]
      (fun s => decide (s.ended = some .timedOut)) (by decide +kernel)
    have hended := of_decide_eq_true hcheck
    have hreach := run_reachable _ _ _ hstart hrun
    exact ⟨s, hreach, hended, ((one_response hreach).2.1 (Or.inr (Or.inr hended))).2⟩

end NetServer.Chat
