/-
  NetServer.Http.Proto — the request parser of `protocol/http/http_proto.c`.

  A region `[p, p + n)` is the list of its bytes.  `httpParseRequest` gets the
  memory from `buf` on and the number `len` of bytes received: what lies
  behind them is there too, because `strtol` is called with no length.

  `out` is passed in and handed back, since the caller's request keeps what
  an incomplete call has written.  `body` points into the caller's buffer
  and is the offset from `buf`.
-/
import NetServer.Lib.CString
import Mathlib.Data.List.Infix

namespace NetServer.Http

open NetServer.Lib

/-! ## §1. The parsed request. -/

def httpPathMax : Nat := 1024
def httpQueryMax : Nat := 1024

/-- Request method (`http_method_t`). -/
inductive HttpMethod where
  | get
  | post
  | put
  | delete
  | other
  deriving Repr, DecidableEq

/-- `http_request_t`.  `path` and `query` are the bytes written before the
terminating NUL. -/
structure HttpRequest where
  method : HttpMethod
  path : List UInt8
  query : List UInt8
  contentLength : Int
  body : Nat
  bodyLen : Nat
  keepAlive : Bool
  deriving Repr, DecidableEq

/-- `memset (&req, 0, sizeof (req))` in `http_run_session`. -/
def httpRequestZero : HttpRequest :=
  { method := .get, path := [], query := [], contentLength := 0, body := 0, bodyLen := 0,
    keepAlive := false }

/-! ## §2. Percent decoding. -/

/-- Hex digit → value 0–15, `none` for the source's -1. -/
def hexval (c : UInt8) : Option Nat :=
  if 48 ≤ c ∧ c ≤ 57 then some (c.toNat - 48)
  else if 97 ≤ c ∧ c ≤ 102 then some (c.toNat - 97 + 10)
  else if 65 ≤ c ∧ c ≤ 70 then some (c.toNat - 65 + 10)
  else none

/-- The first condition of `url_decode`'s loop: `ch` starts an escape whose
two digits are inside the region. -/
def urlEscape (ch : UInt8) (rest : List UInt8) : Option UInt8 :=
  match rest with
  | c1 :: c2 :: _ =>
      if ch = 37 then
        match hexval c1, hexval c2 with
        | some h, some l => some (UInt8.ofNat (h <<< 4 ||| l))
        | _, _ => none
      else none
  | _ => none

/-- `url_decode`.  Every round writes one byte, so the recursion is on the
room left: `dsz - 1` at the start, the last byte being kept for the NUL. -/
def urlDecode (plusSpace : Bool) : Nat → List UInt8 → List UInt8
  | 0, _ => []
  | _ + 1, [] => []
  | room + 1, ch :: rest =>
      match urlEscape ch rest with
      | some b => b :: urlDecode plusSpace room (rest.drop 2)
      | none =>
          if ch = 43 ∧ plusSpace then 32 :: urlDecode plusSpace room rest
          else ch :: urlDecode plusSpace room rest

/-! ## §3. Lines. -/

/-- `get_line` on `[p, end)`: the length of the line without its ending and
the offset just past the `\n`; `none` while the line is not complete. -/
def getLine (s : List UInt8) : Option (Nat × Nat) :=
  match s.idxOf? 10 with
  | none => none
  | some nl =>
      let l := if 0 < nl ∧ s[nl - 1]? = some 13 then nl - 1 else nl
      some (l, nl + 1)

/-- `http_method_name`. -/
def httpMethodName : HttpMethod → List UInt8
  | .get => ascii "GET"
  | .post => ascii "POST"
  | .put => ascii "PUT"
  | .delete => ascii "DELETE"
  | .other => ascii "OTHER"

/-- The method whose token stands before the first space. -/
def parseMethod (token : List UInt8) : HttpMethod :=
  if token = ascii "GET" then .get
  else if token = ascii "POST" then .post
  else if token = ascii "PUT" then .put
  else if token = ascii "DELETE" then .delete
  else .other

/-- `[target, target_end)`: up to the next space, or the rest of the line
when no version is given. -/
def requestTarget (rest : List UInt8) : List UInt8 :=
  match rest.idxOf? 32 with
  | some sp2 => rest.take sp2
  | none => rest

/-- `parse_request_line` on `[line, line + llen)`; `none` for -1. -/
def parseRequestLine (line : List UInt8) (out : HttpRequest) : Option HttpRequest :=
  match line.idxOf? 32 with
  | none => none
  | some sp1 =>
      let target := requestTarget (line.drop (sp1 + 1))
      let out := { out with method := parseMethod (line.take sp1) }
      match target.idxOf? 63 with
      | some q =>
          some { out with
            path := urlDecode false (httpPathMax - 1) (target.take q)
            query := (target.drop (q + 1)).take (httpQueryMax - 1) }
      | none =>
          some { out with
            path := urlDecode false (httpPathMax - 1) target
            query := [] }

/-! ## §4. Headers and body. -/

def contentLengthName : List UInt8 := ascii "Content-Length:"
def connectionName : List UInt8 := ascii "Connection:"
def keepAliveToken : List UInt8 := ascii "keep-alive"

/-- What one non-blank header line of length `llen` at `p` does. -/
def parseHeader (p : List UInt8) (llen : Nat) (out : HttpRequest) : HttpRequest :=
  if 15 ≤ llen ∧ strncaseEq 15 p contentLengthName then
    let v := strtol (p.drop 15)
    { out with contentLength := if v < 0 then 0 else v }
  else if 11 ≤ llen ∧ strncaseEq 11 p connectionName then
    -- `memmem` over the rest of the line
    if keepAliveToken <:+: (p.drop 11).take (llen - 11) then { out with keepAlive := true }
    else out
  else out

/-- The header loop with `n` bytes between `p` and `end`; the number of bytes
left after the blank line, or `none` when it has not come yet.  A round
consumes at least one byte, so `n` rounds are enough. -/
def headerLoop : Nat → List UInt8 → Nat → HttpRequest → HttpRequest × Option Nat
  | 0, _, _, out => (out, none)
  | fuel + 1, p, n, out =>
      match getLine (p.take n) with
      | none => (out, none)
      | some (0, next) => (out, some (n - next))
      | some (llen + 1, next) =>
          headerLoop fuel (p.drop next) (n - next) (parseHeader p (llen + 1) out)

/-- `http_parse_request`: 0 for "need more", -1 for malformed, otherwise the
length of the request. -/
def httpParseRequest (buf : List UInt8) (len : Nat) (out : HttpRequest) : Int × HttpRequest :=
  match getLine (buf.take len) with
  | none => (0, out)
  | some (llen, next) =>
      match parseRequestLine (buf.take llen) out with
      | none => (-1, out)
      | some out =>
          let out := { out with contentLength := 0, keepAlive := false }
          match headerLoop (len - next) (buf.drop next) (len - next) out with
          | (out, none) => (0, out)
          | (out, some left) =>
              let headerLen := len - left
              -- `size_t` sum, returned as an `int`
              let total := (headerLen + out.contentLength.toNat) % 2 ^ 64
              if len < total then (0, out)
              else
                (Int.bmod total (2 ^ 32),
                  { out with body := headerLen, bodyLen := out.contentLength.toNat })

/-- The bytes of the body that `body` and `body_len` delimit. -/
def HttpRequest.bodyBytes (req : HttpRequest) (buf : List UInt8) : List UInt8 :=
  (buf.drop req.body).take req.bodyLen

/-! ## §5. Query parameters. -/

/-- The segment `key=value` of `http_query_get`'s loop. -/
def querySegment (key seg : List UInt8) : Option (List UInt8) :=
  if key.length < seg.length ∧ seg[key.length]? = some 61 ∧ seg.take key.length = key then
    some (seg.drop (key.length + 1))
  else none

/-- `http_query_get`: the decoded value of the first segment for `key`, cut to
`outsz - 1` bytes; `none` when no segment has the key. -/
def httpQueryGet (query key : List UInt8) (outsz : Nat) : Option (List UInt8) :=
  (((cString query).splitOn 38).findSome? (querySegment key)).map (urlDecode true (outsz - 1))

end NetServer.Http
