/-
  NetServer.Http.Session — reading one request in `protocol/http/http_session.c`.

  `read_request` polls, receives into the rest of its buffer and re-parses
  everything received so far.  The outcome of each poll/recv pair is an input,
  so a run is a list of outcomes and any client, network and signal timing is
  one such list.
-/
import NetServer.Http.Proto

namespace NetServer.Http

/-- Max request size, headers and body. -/
def httpRecvMax : Nat := 16384

/-- What one round of `read_request`'s `poll` and `recv` gives. -/
inductive RecvOutcome where
  /-- `poll` fails with EINTR. -/
  | pollIntr
  /-- `poll` fails otherwise. -/
  | pollError
  /-- `poll` times out after HTTP_READ_TIMEOUT. -/
  | pollTimeout
  /-- `recv` fails with EINTR. -/
  | recvIntr
  /-- `recv` fails otherwise. -/
  | recvError
  /-- `recv` returns 0. -/
  | recvClosed
  /-- `recv` has these bytes to give; it hands over as many as were asked for. -/
  | recvd (bytes : List UInt8)
  deriving Repr, DecidableEq

/-- The locals of `read_request`, the request it fills and the statuses of
the error responses it has sent.  `buf` is the memory from the buffer on. -/
structure ReadState where
  buf : List UInt8
  filled : Nat
  req : HttpRequest
  responses : List Nat
  deriving Repr, DecidableEq

/-- On entry: `have = 0`, an uninitialised buffer and a zeroed request. -/
def readRequestStart (buf : List UInt8) : ReadState :=
  { buf := buf, filled := 0, req := httpRequestZero, responses := [] }

/-- `recv (sockfd, buf + have, …)` writing `bytes`. -/
def ReadState.fill (st : ReadState) (bytes : List UInt8) : ReadState :=
  { st with
    buf := st.buf.take st.filled ++ bytes ++ st.buf.drop (st.filled + bytes.length)
    filled := st.filled + bytes.length }

/-- What follows a `recv` that returned data: parse, then return, reject or go on. -/
def afterRecv (bufsz : Nat) (st : ReadState) : ReadState × Option Int :=
  let (total, req) := httpParseRequest st.buf st.filled st.req
  let st := { st with req := req }
  if total > 0 then (st, some total)
  else if total < 0 then ({ st with responses := st.responses ++ [400] }, some (-1))
  else if bufsz ≤ st.filled then ({ st with responses := st.responses ++ [413] }, some (-1))
  else (st, none)

/-- One round of the loop; `none` when it goes on. -/
def readRequestStep (bufsz : Nat) (st : ReadState) : RecvOutcome → ReadState × Option Int
  | .pollIntr | .recvIntr => (st, none)
  | .pollError | .recvError | .recvClosed => (st, some (-1))
  | .pollTimeout => ({ st with responses := st.responses ++ [408] }, some (-1))
  | .recvd bytes =>
      match bytes.take (bufsz - st.filled) with
      | [] => (st, some (-1))
      | b :: bs => afterRecv bufsz (st.fill (b :: bs))

/-- `read_request`; `none` when the outcomes end before it returns. -/
def readRequest (bufsz : Nat) : List RecvOutcome → ReadState → ReadState × Option Int
  | [], st => (st, none)
  | o :: os, st =>
      match readRequestStep bufsz st o with
      | (st, some r) => (st, some r)
      | (st, none) => readRequest bufsz os st

end NetServer.Http
