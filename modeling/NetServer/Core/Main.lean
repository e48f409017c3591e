/-
  NetServer.Core.Main — `main.c`, `args.c`, `priv.c` and `server.c`.

  The main thread goes from the command line over the signal handlers, the listening
  sockets and the drop of privileges into the accept loop, and out of it through
  `server_destroy`.  A point of the program (`Phase`) makes one call; what the call
  returns is a choice of the environment (`Outcome`), as far as the kernel leaves it one:
  whether ids may be changed is the kernel's rule (`NetServer.Lib.Credentials`).

  Behind `server_init` the process has the connector of `NetServer.Core.Connector` in it:
  its semaphore, its connections and the descriptors.  The listening sockets are
  descriptors that are not a connection's.

  Beside the main thread there are signals and, from the first connection on, the threads
  of the connections, other descriptors that are opened and closed, and whatever ids the
  process may ask for.

  `argp` itself is not modelled: it hands the options to `parse_opt` one by one, and ends
  the process when `parse_opt` complains.
-/
import NetServer.Lib.Credentials
import NetServer.Lib.CString
import NetServer.Core.Connector

namespace NetServer.Core.Main

open NetServer.Lib

/-! ## §1. The command line. -/

/-- An option, as `argp` hands it over. -/
inductive Opt where
  | port (arg : List UInt8)
  | httpPort (arg : List UInt8)
  | maxConn (arg : List UInt8)
  | stack (arg : List UInt8)
  | user (arg : List UInt8)
  | foreground
  /-- An option that is not in the table, or an argument that is no option. -/
  | unknown
  deriving Repr, DecidableEq

/-- `server_args_t`. -/
structure ServerArgs where
  port : UInt16
  httpPort : UInt16
  maxConn : UInt32
  stackKb : UInt32
  dropUser : Option (List UInt8)
  foreground : Bool
  deriving Repr, DecidableEq

/-- The values before the command line is read. -/
def defaults : ServerArgs where
  port := 23
  httpPort := 8080
  maxConn := 2000
  stackKb := 256
  dropUser := none
  foreground := true

/-- What ends the process with a usage message. -/
inductive ArgError where
  /-- The text of `argp_error`. -/
  | complaint (text : List UInt8)
  /-- ARGP_ERR_UNKNOWN. -/
  | unknown
  deriving Repr, DecidableEq

/-- A number with bounds; the text is that of the complaint. -/
structure Bounds where
  low : Int
  high : Int
  text : String

def Bounds.holds (b : Bounds) (arg : List UInt8) : Bool :=
  decide (b.low ≤ strtol arg ∧ strtol arg ≤ b.high)

def Bounds.read (b : Bounds) (arg : List UInt8) : Except ArgError Nat :=
  if b.holds arg then .ok (strtol arg).toNat else .error (.complaint (ascii b.text ++ arg))

def portBounds : Bounds := ⟨1, 65535, "port must be 1-65535, got: "⟩
def httpPortBounds : Bounds := ⟨0, 65535, "http-port must be 0-65535, got: "⟩
def maxConnBounds : Bounds := ⟨1, 100000, "max-conn must be 1-100000, got: "⟩
def stackBounds : Bounds := ⟨64, 8192, "stack must be 64-8192 KB, got: "⟩

def parseOpt (a : ServerArgs) : Opt → Except ArgError ServerArgs
  | .port arg => (portBounds.read arg).map fun v => { a with port := v.toUInt16 }
  | .httpPort arg => (httpPortBounds.read arg).map fun v => { a with httpPort := v.toUInt16 }
  | .maxConn arg => (maxConnBounds.read arg).map fun v => { a with maxConn := v.toUInt32 }
  | .stack arg => (stackBounds.read arg).map fun v => { a with stackKb := v.toUInt32 }
  | .user arg => .ok { a with dropUser := some arg }
  | .foreground => .ok { a with foreground := true }
  | .unknown => .error .unknown

/-- `args_parse`. -/
def argsParse (opts : List Opt) : Except ArgError ServerArgs := opts.foldlM parseOpt defaults

/-! ## §2. The process. -/

inductive Signal where
  | int
  | term
  | hup
  | pipe
  deriving Repr, DecidableEq

/-- The handlers that `server_install_signals` installs, in its order. -/
def installed : List Signal := [.int, .term, .hup, .pipe]

inductive Protocol where
  | telnet
  | http
  deriving Repr, DecidableEq

/-- `listener_t`. -/
structure Listener where
  port : UInt16
  proto : Protocol
  listenFd : Nat
  deriving Repr, DecidableEq

/-- SERVER_MAX_LISTENERS. -/
def serverMaxListeners : Nat := 8

/-- The errors that `NS_ERROR_CHECK` aborts on. -/
inductive NsErr where
  | thread
  | invalidState
  | bindFailed
  | listenFailed
  | privDrop
  deriving Repr, DecidableEq

structure Passwd where
  uid : Nat
  gid : Nat
  deriving Repr, DecidableEq

/-- The user database. -/
structure Users where
  getpwnam : List UInt8 → Option Passwd
  /-- The groups of a user, with its own. -/
  getgrouplist : List UInt8 → Nat → List Nat

/-- Inside `server_run`. -/
inductive LoopPc where
  /-- Before `while (!s_shutdown)`. -/
  | top
  /-- In `select`. -/
  | select
  /-- `server_reload` has returned: before `s_reload = 0`. -/
  | reloading
  /-- Before the `i`-th listener is looked at; `ready` is what is left in `rfds`. -/
  | each (i : Nat) (ready : List Nat)
  /-- `accept` of the `i`-th listener has returned a connection. -/
  | serving (i : Nat) (ready : List Nat)
  deriving Repr, DecidableEq

/-- Where the main thread is. -/
inductive Phase where
  /-- Before `args_parse`. -/
  | start (opts : List Opt)
  /-- `server_install_signals`, with these handlers to go. -/
  | signals (rest : List Signal)
  /-- Before `server_init`. -/
  | init
  /-- Before the telnet listener is added. -/
  | telnet
  /-- Before `if (args.http_port)`. -/
  | http
  /-- Before `if (args.drop_user)`. -/
  | drop
  /-- `drop_privileges`: before `initgroups`. -/
  | groups (user : List UInt8) (pw : Passwd)
  /-- Before `setgid`. -/
  | gid (pw : Passwd)
  /-- Before `setuid`. -/
  | uid (pw : Passwd)
  /-- Before `if (getuid () == 0)`. -/
  | verify
  /-- Before `server_run`. -/
  | run
  | loop (pc : LoopPc)
  /-- `server_destroy`: before the `i`-th `shutdown_all`. -/
  | shutting (i : Nat)
  /-- In `connector_destroy`. -/
  | joining
  /-- Before the `i`-th listening socket is closed. -/
  | closing (i : Nat)
  /-- `main` has returned EXIT_SUCCESS. -/
  | stopped
  | usage (e : ArgError)
  /-- `abort` of `NS_ERROR_CHECK`. -/
  | aborted (e : NsErr)
  /-- The default action of a signal. -/
  | killed (sig : Signal)
  /-- A failed `assert`. -/
  | faulted
  deriving Repr, DecidableEq

/-- There is a process. -/
def Phase.alive : Phase → Bool
  | .stopped | .usage _ | .aborted _ | .killed _ | .faulted => false
  | _ => true

/-- In `server_run` or `server_destroy`. -/
def Phase.inService : Phase → Bool
  | .loop _ | .shutting _ | .joining | .closing _ => true
  | _ => false

structure Proc where
  phase : Phase
  args : ServerArgs
  cred : Cred
  /-- The signals that have a handler, or are ignored. -/
  handled : List Signal
  /-- `s_shutdown`. -/
  shutdown : Bool
  /-- `s_reload`. -/
  reload : Bool
  listeners : List Listener
  srv : Srv

/-- What the calls of a step return. -/
structure Outcome where
  /-- The call succeeds. -/
  ok : Bool := true
  /-- It fails with EINTR. -/
  eintr : Bool := false
  /-- `bind` and `listen` succeed. -/
  bound : Bool := true
  listening : Bool := true
  /-- The descriptor of `socket` or `accept`. -/
  fd : Nat := 0
  /-- The readable descriptors. -/
  ready : List Nat := []
  deriving Repr, DecidableEq

namespace Proc

/-- The descriptors of the listening sockets that are open. -/
def listening (s : Proc) : List Nat :=
  match s.phase with
  | .closing i => (s.listeners.drop i).map Listener.listenFd
  | .stopped => []
  | _ => s.listeners.map Listener.listenFd

def goto (s : Proc) (phase : Phase) : Proc := { s with phase := phase }

/-! ## §3. The start. -/

/-- `server_init`, with `connector_init`. -/
def serverInit (s : Proc) (out : Outcome) : Proc :=
  if s.args.maxConn = 0 ∨ s.args.stackKb.toNat * 1024 < 65536 then s.goto .faulted
  else if out.ok then
    { s with srv := srvStart s.args.maxConn, listeners := [], phase := .telnet }
  else s.goto (.aborted .thread)

/-- `server_add_listener`; `socket` returns a descriptor that is free. -/
def serverAddListener (s : Proc) (port : UInt16) (proto : Protocol) (out : Outcome)
    (next : Phase) : Option Proc :=
  if port = 0 then some (s.goto .faulted)
  else if serverMaxListeners ≤ s.listeners.length then some (s.goto (.aborted .invalidState))
  else if out.ok = false then some (s.goto (.aborted .bindFailed))
  else if s.srv.fds out.fd ≠ none then none
  else if out.bound = false then some (s.goto (.aborted .bindFailed))
  else if out.listening = false then some (s.goto (.aborted .listenFailed))
  else some
    { s with
      srv := { s.srv with fds := Function.update s.srv.fds out.fd (some .other) }
      listeners := s.listeners ++ [⟨port, proto, out.fd⟩]
      phase := next }

/-- A call of `drop_privileges` that may be refused, or fail in another way. -/
def privCall (s : Proc) (out : Outcome) (k : Cred.Call) (next : Phase) : Proc :=
  match out.ok, s.cred.call k with
  | true, some c => { s with cred := c, phase := next }
  | _, _ => s.goto (.aborted .privDrop)

/-! ## §4. The accept loop. -/

/-- `rfds` and `maxfd` before `select`. -/
def selectSet (listeners : List Listener) : List Nat × Int :=
  listeners.foldl (fun acc l => (acc.1 ++ [l.listenFd], max acc.2 l.listenFd)) ([], -1)

/-- What `select` leaves in `rfds`. -/
def selected (listeners : List Listener) (ready : List Nat) : List Nat :=
  (selectSet listeners).1.filter fun fd =>
    decide ((fd : Int) < (selectSet listeners).2 + 1 ∧ fd ∈ ready)

/-- `server_run`. -/
def serverRun (s : Proc) (out : Outcome) : LoopPc → Option Proc
  | .top => some (s.goto (if s.shutdown then .shutting 0 else .loop .select))
  | .select =>
      if out.eintr then some (s.goto (.loop (if s.reload then .reloading else .top)))
      else if out.ok then some (s.goto (.loop (.each 0 (selected s.listeners out.ready))))
      else some (s.goto (.shutting 0))
  | .reloading => some { s with reload := false, phase := .loop .top }
  | .each i ready =>
      match s.listeners[i]? with
      | none => some (s.goto (.loop .top))
      | some l =>
          if l.listenFd ∈ ready ∧ out.ok = true then
            (s.srv.step s.args.maxConn (.accept out.fd)).map fun srv =>
              { s with srv := srv, phase := .loop (.serving i ready) }
          else some (s.goto (.loop (.each (i + 1) ready)))
  | .serving i ready =>
      (s.srv.step s.args.maxConn (.serve out.ok)).map fun srv =>
        { s with
          srv := srv
          phase := .loop (if srv.main = .accept then .each (i + 1) ready else .serving i ready) }

/-- The main thread goes on. -/
def main (users : Users) (s : Proc) (out : Outcome) : Option Proc :=
  match s.phase with
  | .start opts =>
      match argsParse opts with
      | .ok a => some { s with args := a, phase := .signals installed }
      | .error e => some (s.goto (.usage e))
  | .signals [] => some (s.goto .init)
  | .signals (sig :: rest) => some { s with handled := sig :: s.handled, phase := .signals rest }
  | .init => some (s.serverInit out)
  | .telnet => s.serverAddListener s.args.port .telnet out .http
  | .http =>
      if s.args.httpPort = 0 then some (s.goto .drop)
      else s.serverAddListener s.args.httpPort .http out .drop
  | .drop =>
      match s.args.dropUser with
      | none => some (s.goto .run)
      | some user =>
          match users.getpwnam user with
          | none => some (s.goto (.aborted .privDrop))
          | some pw => some (s.goto (.groups user pw))
  | .groups user pw =>
      some (s.privCall out (.setgroups (users.getgrouplist user pw.gid)) (.gid pw))
  | .gid pw => some (s.privCall out (.setgid pw.gid) (.uid pw))
  | .uid pw => some (s.privCall out (.setuid pw.uid) .verify)
  | .verify => some (s.goto (if s.cred.user.real = 0 then .aborted .privDrop else .run))
  | .run => some (s.goto (if s.listeners = [] then .faulted else .loop .top))
  | .loop pc => s.serverRun out pc
  | .shutting i =>
      if i < s.listeners.length then some (s.goto (.shutting (i + 1)))
      else (s.srv.step s.args.maxConn .stop).map fun srv => { s with srv := srv, phase := .joining }
  | .joining =>
      (s.srv.step s.args.maxConn (if out.eintr then .interrupt else .destroy)).map fun srv =>
        { s with srv := srv, phase := if srv.main = .done then .closing 0 else .joining }
  | .closing i =>
      match s.listeners[i]? with
      | none => some (s.goto .stopped)
      | some l => some
          { s with
            srv := { s.srv with fds := Function.update s.srv.fds l.listenFd none }
            phase := .closing (i + 1) }
  | .stopped | .usage _ | .aborted _ | .killed _ | .faulted => none

/-! ## §5. Everything together. -/

/-- `sig_handler`, or the default action. -/
def deliver (s : Proc) (sig : Signal) : Proc :=
  if sig ∈ s.handled then
    match sig with
    | .int | .term => { s with shutdown := true }
    | .hup => { s with reload := true }
    | .pipe => s
  else s.goto (.killed sig)

end Proc

/-- The scheduler's choice. -/
inductive Act where
  | main (out : Outcome)
  | signal (sig : Signal)
  /-- The thread of a connection. -/
  | thread (x : Nat) (ok : Bool)
  /-- The rest of the process. -/
  | openFd (fd : Nat)
  | closeFd (fd : Nat)
  | call (k : Cred.Call)

/-- A step of the connector that is not the main thread's. -/
def Proc.beside (s : Proc) (act : SrvAct) : Option Proc :=
  (s.srv.step s.args.maxConn act).map fun srv => { s with srv := srv }

def Proc.step (users : Users) (s : Proc) (act : Act) : Option Proc :=
  if s.phase.alive then
    match act with
    | .main out => s.main users out
    | .signal sig => some (s.deliver sig)
    | .thread x ok => s.beside (.thread x ok)
    | .openFd fd => if s.srv.conns = [] then none else s.beside (.openFd fd)
    | .closeFd fd =>
        -- the rest of the process closes its own descriptors
        if s.srv.conns = [] ∨ fd ∈ s.listening then none else s.beside (.closeFd fd)
    | .call k => if s.srv.conns = [] then none else some { s with cred := s.cred.attempt k }
  else none

/-- A process that has been started with a command line, by whatever user. -/
def born (opts : List Opt) (cred : Cred) : Proc where
  phase := .start opts
  args := defaults
  cred := cred
  handled := []
  shutdown := false
  reload := false
  listeners := []
  srv := srvStart 0

def mainSystem (users : Users) (opts : List Opt) : TransitionSystem Proc Act where
  init := fun s => ∃ cred, s = born opts cred
  step := Proc.step users

end NetServer.Core.Main
