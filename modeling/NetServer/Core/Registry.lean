/-
  NetServer.Core.Registry — the session registries of `telnet_session.c` and
  `http_session.c`, and the loops that shutdown has to reach.

  Each protocol has a lock, a list through the sessions' `reg_next` fields
  and a flag `s_shutting_down`.  `session_register` and the statements between
  lock and unlock that only touch the list are one step; `session_unregister`
  walks the list with a pointer to a pointer, one step per node;
  `shutdown_all` goes through the list node by node, flag first and byte
  second, and any session may run in between.

  The two loops, `telnet_run_session` and the `http_conn_wait` calls of an
  event stream, are two programs.  What is not about the flag, the pipe and
  the list is a choice of the environment: what the socket brings, whether
  the state machine ends, whether a send fails.  A request that is not a
  stream ends at `begin`.

  Memory is sequentially consistent and `pipe2` succeeds.  `passed` and `swept`
  are not in the source: the shutdown code has been at the session, and has
  been through the list.
-/
import NetServer.Lib.Intrusive
import NetServer.Lib.TransitionSystem
import NetServer.Lib.WakeUp

namespace NetServer.Core

open NetServer.Lib

/-! ## §1. Sessions. -/

/-- The two protocols. -/
inductive Kind where
  | telnet
  | http
  deriving Repr, DecidableEq

/-- Where a session's thread is.  `sock` says that `poll` reported the socket as
well. -/
inductive SessPc where
  /-- No session yet. -/
  | unused
  /-- Created: before `session_register`. -/
  | created
  /-- Telnet: the first dispatch.  HTTP: the request, up to the first
  `http_conn_wait`. -/
  | begin
  /-- Telnet: the loop's condition.  HTTP: the first test of `http_conn_wait`. -/
  | check
  /-- In `poll`. -/
  | poll
  /-- Before the next `read` of the drain loop. -/
  | drain (sock : Bool)
  /-- The pipe is empty: before the second look at the flag. -/
  | drained (sock : Bool)
  /-- A wake-up is handled: `on_notify`, or the flush of new messages. -/
  | notify (sock : Bool)
  /-- Before `recv`. -/
  | recv
  /-- HTTP: a heartbeat. -/
  | heartbeat
  /-- Behind the loop: before `session_unregister`. -/
  | leave
  /-- `session_unregister`: the lock is held and `pp` points to this location. -/
  | scan (pp : Loc Nat)
  /-- `session_unregister`: before the lock is released. -/
  | unlinked
  /-- Before the pipe is closed. -/
  | closing
  /-- The session is freed. -/
  | gone
  deriving Repr, DecidableEq

/-- What the environment decides when a session runs. -/
inductive Outcome where
  | go
  /-- The state machine has ended, the request was no stream, or a send failed. -/
  | quit
  /-- `poll` is interrupted. -/
  | eintr
  /-- `poll` or `recv` fails, or the client has closed. -/
  | error
  /-- `poll` times out. -/
  | timeout
  /-- `poll` reports something; `sock` says whether the socket. -/
  | ready (sock : Bool)
  deriving Repr, DecidableEq

/-- Behind `poll`: the notify pipe first, then the socket. -/
def afterPoll (bytes : Nat) (sock : Bool) : Option SessPc :=
  if 0 < bytes then some (.drain sock) else if sock then some .recv else none

/-- The loop of `telnet_run_session`, but for the reads of its drain loop. -/
def telnetLoop (flag : Bool) (bytes : Nat) : SessPc → Outcome → Option SessPc
  | .begin, .go => some .check
  | .check, .quit => some .leave
  | .check, .go => some (if flag then .leave else .poll)
  | .poll, .eintr => some .check
  | .poll, .error => some .leave
  | .poll, .timeout => if bytes = 0 then some .check else none
  | .poll, .ready sock => afterPoll bytes sock
  | .drained sock, .go => some (if flag then .leave else .notify sock)
  | .notify sock, .go => some (if sock then .recv else .check)
  | .recv, .error => some .leave
  | .recv, .go => some .check
  | _, _ => none

/-- `http_run_session` and the `http_conn_wait` loop of `handle_sse`, but for the
reads of its drain loop. -/
def httpLoop (flag : Bool) (bytes : Nat) : SessPc → Outcome → Option SessPc
  | .begin, .go => some .check
  | .begin, .quit => some .leave
  | .check, .go => some (if flag then .leave else .poll)
  | .poll, .eintr => some .heartbeat
  | .poll, .error => some .leave
  | .poll, .timeout => if bytes = 0 then some .heartbeat else none
  | .poll, .ready sock => afterPoll bytes sock
  | .drained _, .go => some (if flag then .leave else .notify false)
  | .notify _, .go => some .check
  | .notify _, .quit => some .leave
  | .recv, .error => some .leave
  | .recv, .go => some .heartbeat
  | .heartbeat, .go => some .check
  | .heartbeat, .quit => some .leave
  | _, _ => none

def Kind.loop : Kind → Bool → Nat → SessPc → Outcome → Option SessPc
  | .telnet => telnetLoop
  | .http => httpLoop

/-- A session. -/
structure Session where
  kind : Kind
  pc : SessPc
  shutdownRequested : Bool
  bytes : Nat
  pipeOpen : Bool
  passed : Bool
  deriving Repr, DecidableEq

/-! ## §2. The registries. -/

/-- Who is inside a registry's lock. -/
inductive Holder where
  | session (x : Nat)
  | sweep
  deriving Repr, DecidableEq

/-- Where `shutdown_all` is. -/
inductive SweepPc where
  /-- Not called, or returned. -/
  | idle
  /-- The lock is held: before `s_shutting_down = true`. -/
  | start
  /-- At the loop's head with the pointer `cur`. -/
  | at (cur : Option Nat)
  /-- The session is flagged: before the write to its pipe. -/
  | flagged (x : Nat)
  deriving Repr, DecidableEq

structure Registry where
  lock : Option Holder
  head : Option Nat
  shuttingDown : Bool
  sweep : SweepPc
  swept : Bool
  deriving Repr, DecidableEq

/-- All sessions, their `reg_next` fields, and the two registries. -/
structure Net where
  sess : Nat → Session
  next : Nat → Option Nat
  reg : Kind → Registry

/-- Bytes a pipe holds. -/
def pipeSize : Nat := 65536

namespace Net

def setSess (s : Net) (x : Nat) (c : Session) : Net := { s with sess := Function.update s.sess x c }

def setReg (s : Net) (k : Kind) (r : Registry) : Net := { s with reg := Function.update s.reg k r }

/-- The list of a registry. -/
def list (s : Net) (k : Kind) : PtrList Nat := { head := (s.reg k).head, next := s.next }

def setList (s : Net) (k : Kind) (l : PtrList Nat) : Net :=
  { s.setReg k { s.reg k with head := l.head } with next := l.next }

/-- Go on at `pc`. -/
def goto (s : Net) (x : Nat) (pc : SessPc) : Net := s.setSess x { s.sess x with pc := pc }

/-- A byte for a session's pipe, if it is open; a full pipe stays as it is. -/
def addByte (s : Net) (x : Nat) : Net :=
  if (s.sess x).pipeOpen then
    s.setSess x { s.sess x with bytes := min pipeSize ((s.sess x).bytes + 1) }
  else s

/-- `session_register`. -/
def register (s : Net) (x : Nat) : Net :=
  let c := s.sess x
  let down := (s.reg c.kind).shuttingDown
  (s.setList c.kind ((s.list c.kind).push x)).setSess x
    { c with
      shutdownRequested := down || c.shutdownRequested
      passed := down || c.passed
      pc := .begin }

/-- One node of `session_unregister`'s loop. -/
def scan (s : Net) (x : Nat) (pp : Loc Nat) : Net :=
  let k := (s.sess x).kind
  match (s.list k).get pp with
  | none => s.goto x .unlinked
  | some b =>
      if b = x then (s.setList k ((s.list k).set pp (s.next x))).goto x .unlinked
      else s.goto x (.scan (.next b))

/-- One step of a session's thread; `none` when it waits. -/
def run (s : Net) (x : Nat) (out : Outcome) : Option Net :=
  let c := s.sess x
  let r := s.reg c.kind
  match c.pc with
  | .created => if r.lock = none then some (s.register x) else none
  | .drain sock =>
      if 0 < c.bytes then some (s.setSess x { c with bytes := c.bytes - 64 })
      else some (s.goto x (.drained sock))
  | .leave =>
      if r.lock = none then
        some ((s.setReg c.kind { r with lock := some (.session x) }).goto x (.scan .head))
      else none
  | .scan pp => some (s.scan x pp)
  | .unlinked => some ((s.setReg c.kind { r with lock := none }).goto x .closing)
  | .closing => some (s.setSess x { c with pc := .gone, pipeOpen := false })
  | pc => (c.kind.loop c.shutdownRequested c.bytes pc out).map (s.goto x)

/-- One step of `shutdown_all`; `none` when it waits for the lock. -/
def sweep (s : Net) (k : Kind) : Option Net :=
  let r := s.reg k
  match r.sweep with
  | .idle =>
      if r.lock = none then some (s.setReg k { r with lock := some .sweep, sweep := .start })
      else none
  | .start => some (s.setReg k { r with shuttingDown := true, sweep := .at r.head })
  | .at (some x) =>
      some ((s.setReg k { r with sweep := .flagged x }).setSess x
        { s.sess x with shutdownRequested := true })
  | .flagged x =>
      let s1 := s.addByte x
      some ((s1.setReg k { r with sweep := .at (s.next x) }).setSess x
        { s1.sess x with passed := true })
  | .at none => some (s.setReg k { r with lock := none, sweep := .idle, swept := true })

end Net

/-- The scheduler's choice. -/
inductive NetAct where
  /-- `create_session` succeeds. -/
  | create (x : Nat) (k : Kind)
  | run (x : Nat) (out : Outcome)
  /-- A publisher writes a byte to a session's pipe. -/
  | publish (x : Nat)
  /-- `request_shutdown` of one session. -/
  | request (x : Nat)
  /-- `shutdown_all` of a protocol goes on, or is called. -/
  | sweep (k : Kind)
  deriving Repr, DecidableEq

def Net.step (s : Net) : NetAct → Option Net
  | .create x k =>
      if (s.sess x).pc = .unused then
        some (s.setSess x
          { kind := k, pc := .created, shutdownRequested := false, bytes := 0, pipeOpen := true,
            passed := false })
      else none
  | .run x out => s.run x out
  | .publish x => some (s.addByte x)
  | .request x => some (s.setSess x { s.sess x with shutdownRequested := true })
  | .sweep k => s.sweep k

/-- Nothing has been created and nothing shut down. -/
def netStart : Net where
  sess := fun _ =>
    { kind := .telnet, pc := .unused, shutdownRequested := false, bytes := 0, pipeOpen := false,
      passed := false }
  next := fun _ => none
  reg := fun _ =>
    { lock := none, head := none, shuttingDown := false, sweep := .idle, swept := false }

def netSystem : TransitionSystem Net NetAct where
  init := fun s => s = netStart
  step := Net.step

end NetServer.Core
