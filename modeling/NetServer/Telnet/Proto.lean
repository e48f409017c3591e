/-
  NetServer.Telnet.Proto — the IAC parser and the outgoing sequence
  builders of `protocol/telnet/telnet_proto.c`.

  `iacParserFeed` is the source's loop with its three locals: the index,
  the start of the pending data slice and its length.  A slice is handed to
  `on_data` as a window of the buffer that was passed in, so the model keeps
  the buffer and cuts the window out of it at each flush, instead of
  accumulating bytes.

  Callbacks become a list of events in the order of the calls.  A NULL
  callback drops its events and changes nothing else, so the list is what
  the three sinks together can see.
-/
import Mathlib.Data.List.Basic

namespace NetServer.Telnet

/-! ## §1. Command and option bytes. -/

def telnetIac : UInt8 := 255
def telnetDont : UInt8 := 254
def telnetDo : UInt8 := 253
def telnetWont : UInt8 := 252
def telnetWill : UInt8 := 251
def telnetSb : UInt8 := 250
def telnetSe : UInt8 := 240

def teloptEcho : UInt8 := 1
def teloptSga : UInt8 := 3
def teloptNaws : UInt8 := 31

/-! ## §2. Parser state and events. -/

/-- Parser states (`iac_parse_state_t`). -/
inductive IacParseState where
  /-- Plain data stream. -/
  | data
  /-- Seen IAC; expecting a command byte. -/
  | iac
  /-- Seen WILL/WONT/DO/DONT; expecting the option byte. -/
  | cmd
  /-- Inside a subnegotiation payload. -/
  | sb
  /-- Seen IAC inside SB; expecting SE. -/
  | sbIac
  deriving Repr, DecidableEq

/-- Option negotiation event (IAC WILL/WONT/DO/DONT opt). -/
structure IacOptionEvent where
  opt : UInt8
  cmd : UInt8
  deriving Repr, DecidableEq

/-- Subnegotiation event.  `data` holds the `len` bytes that `memcpy` sets;
the rest of the C array is indeterminate and no callback reads it. -/
structure IacSbEvent where
  opt : UInt8
  data : List UInt8
  len : UInt8
  deriving Repr, DecidableEq

/-- One callback invocation. -/
inductive IacEvent where
  | onData (buf : List UInt8)
  | onOption (ev : IacOptionEvent)
  | onSubneg (ev : IacSbEvent)
  deriving Repr, DecidableEq

/-- Parser instance (`iac_parser_t`); persists across feeds. -/
structure IacParser where
  state : IacParseState
  cmd : UInt8
  sbBuf : Vector UInt8 255
  sbLen : UInt8
  sbOpt : UInt8
  deriving DecidableEq

/-- `iac_parser_init`: all fields zero, state `IAC_DATA`. -/
def iacParserInit : IacParser :=
  { state := .data, cmd := 0, sbBuf := Vector.replicate 255 0, sbLen := 0, sbOpt := 0 }

/-! ## §3. The feed loop. -/

/-- What one call of `iac_parser_feed` works on: the parser, the pending
data slice (`data_start` as an index into `raw`) and the callbacks made. -/
structure Feed where
  parser : IacParser
  dataStart : Option Nat
  dataLen : Nat
  events : List IacEvent

/-- The `FLUSH_DATA` macro: deliver the pending window of `raw`, if any. -/
def flushData (raw : List UInt8) (f : Feed) : Feed :=
  { f with
    dataStart := none
    dataLen := 0
    events := f.events ++
      (if f.dataLen > 0
        then [IacEvent.onData ((raw.drop (f.dataStart.getD 0)).take f.dataLen)]
        else []) }

/-- The subnegotiation event built on IAC SE. -/
def sbEvent (p : IacParser) : IacSbEvent :=
  let len : UInt8 := if p.sbLen > 1 then p.sbLen - 1 else 0
  { opt := p.sbOpt, data := p.sbBuf.toList.take len.toNat, len := len }

/-- The payload branch of state `IAC_SB`: the first byte is the option, up
to 254 more are stored, the rest is dropped. -/
def sbPush (p : IacParser) (b : UInt8) : IacParser :=
  if p.sbLen = 0 then
    { p with sbOpt := b, sbLen := p.sbLen + 1 }
  else if p.sbLen < 255 then
    { p with
      sbBuf := p.sbBuf.setIfInBounds (p.sbLen.toNat - 1) b
      sbLen := p.sbLen + 1 }
  else p

/-- One iteration of the loop: byte `b = raw[i]`. -/
def feedByte (raw : List UInt8) (i : Nat) (b : UInt8) (f : Feed) : Feed :=
  match f.parser.state with
  | .data =>
      if b = telnetIac then
        let f := flushData raw f
        { f with parser := { f.parser with state := .iac } }
      else
        { f with
          dataStart := some (f.dataStart.getD i)
          dataLen := f.dataLen + 1 }
  | .iac =>
      if b = telnetIac then
        { f with
          parser := { f.parser with state := .data }
          events := f.events ++ [.onData [0xFF]] }
      else if b = telnetSb then
        { f with parser := { f.parser with sbLen := 0, state := .sb } }
      else if b = telnetWill ∨ b = telnetWont ∨ b = telnetDo ∨ b = telnetDont then
        { f with parser := { f.parser with cmd := b, state := .cmd } }
      else
        { f with parser := { f.parser with state := .data } }
  | .cmd =>
      { f with
        parser := { f.parser with state := .data }
        events := f.events ++ [.onOption { opt := b, cmd := f.parser.cmd }] }
  | .sb =>
      if b = telnetIac then
        { f with parser := { f.parser with state := .sbIac } }
      else
        { f with parser := sbPush f.parser b }
  | .sbIac =>
      if b = telnetSe then
        { f with
          parser := { f.parser with state := .data }
          events := f.events ++ [.onSubneg (sbEvent f.parser)] }
      else
        { f with parser := { f.parser with state := .sb } }

/-- The `for` loop from index `i` on; the list holds the bytes `raw[i..]`. -/
def feedLoop (raw : List UInt8) : Nat → List UInt8 → Feed → Feed
  | _, [], f => f
  | i, b :: rest, f => feedLoop raw (i + 1) rest (feedByte raw i b f)

/-- `iac_parser_feed`: the parser after the call and the callbacks made. -/
def iacParserFeed (p : IacParser) (raw : List UInt8) : IacParser × List IacEvent :=
  if raw.length = 0 then (p, [])
  else
    let f := flushData raw
      (feedLoop raw 0 raw { parser := p, dataStart := none, dataLen := 0, events := [] })
    (f.parser, f.events)

/-- One call per received chunk, as the session loop makes them. -/
def iacParserFeedChunks : IacParser → List (List UInt8) → IacParser × List IacEvent
  | p, [] => (p, [])
  | p, c :: cs =>
      let r := iacParserFeed p c
      let q := iacParserFeedChunks r.1 cs
      (q.1, r.2 ++ q.2)

/-! ## §4. Outgoing sequence builders. -/

/-- The shared body of `iac_write_*`: three bytes, or -1 when `buf` is too
small. -/
def iacWrite (cmd : UInt8) (sz : Nat) (opt : UInt8) : Option (List UInt8) :=
  if sz < 3 then none else some [telnetIac, cmd, opt]

def iacWriteWill : Nat → UInt8 → Option (List UInt8) := iacWrite telnetWill
def iacWriteWont : Nat → UInt8 → Option (List UInt8) := iacWrite telnetWont
def iacWriteDo : Nat → UInt8 → Option (List UInt8) := iacWrite telnetDo
def iacWriteDont : Nat → UInt8 → Option (List UInt8) := iacWrite telnetDont

end NetServer.Telnet
