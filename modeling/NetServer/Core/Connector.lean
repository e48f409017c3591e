/-
  NetServer.Core.Connector — `connector.c`, the accept path of `server_run` and
  `connection_run`.

  A connection is handled by the accept loop until its thread is created, and
  by the thread from there on: one program point for both.  A point does one
  thing with the semaphore, a counter, the socket or the heap (`Res`) and goes
  on; what `malloc`, `pthread_create` and `create_session` return is a choice
  of the environment.  `run_session` is the point `running`: it ends with the
  `close` of the socket, in both protocols.

  Descriptors are numbers.  `accept` returns any number that is free, the rest
  of the process opens and closes numbers too, and `close` closes whatever is
  open under the number.

  The signal handlers are installed without `SA_RESTART`, and
  `connector_destroy` does not look at what `sem_wait` returns: a signal that
  arrives while it waits ends the call without a slot.

  `waited`, `made`, `gone` and `strayCloses` are not in the source: the slots
  taken by `connector_destroy`, what has been allocated, who has closed or freed
  it, and the calls of `close` that did not hit a connection's socket.
-/
import NetServer.Lib.Holding
import NetServer.Lib.TransitionSystem
import Mathlib.Logic.Function.Basic

namespace NetServer.Core

open NetServer.Lib

/-! ## §1. The handling of a connection. -/

/-- What a connection takes and gives back. -/
inductive Res where
  /-- `sem_trywait` and `sem_post` of `slots`. -/
  | slot
  /-- `atomic_fetch_add` and `atomic_fetch_sub` of the connector's `active`. -/
  | active
  /-- The same of the server's `active_connections`. -/
  | activeConnections
  /-- The descriptor; acquired by `accept`. -/
  | socket
  /-- `malloc` and `free` of the `connection_t`. -/
  | conn
  /-- `malloc` and `free` of the `conn_wrap_t`. -/
  | wrap
  deriving Repr, DecidableEq

/-- Where the handling of a connection is. -/
inductive ConnPc where
  /-- Before `connection_create`. -/
  | accepted
  /-- `connection_create` has failed: before `close (cfd)`. -/
  | unmade
  /-- Over, without a `connection_t`. -/
  | turnedAway
  /-- `connector_spawn`: before `sem_trywait`. -/
  | made
  /-- Before the `malloc` of the wrapper. -/
  | reserved
  /-- No wrapper: before `sem_post`. -/
  | unwrapped
  /-- Before `pthread_create`. -/
  | wrapped
  /-- No thread: before `free (w)`. -/
  | unstarted
  /-- No thread: before `sem_post`. -/
  | unposted
  /-- `connector_spawn` has returned an error: before `close (cfd)`. -/
  | rejecting
  /-- Before `free (conn)`. -/
  | dropping
  /-- Over, rejected. -/
  | rejected
  /-- `thread_entry`: before `free (w)`. -/
  | started
  /-- Before `active` is counted up. -/
  | entered
  /-- `connection_run`: before `active_connections` is counted up. -/
  | calling
  /-- Before `create_session`. -/
  | counted
  /-- No session: before `close (conn->sockfd)`. -/
  | sessionless
  /-- In `run_session`, up to its `close` of the socket. -/
  | running
  /-- Before `active_connections` is counted down. -/
  | leaving
  /-- Before `free (conn)`. -/
  | unlisted
  /-- `connection_run` has returned: before `active` is counted down. -/
  | returned
  /-- Before `sem_post`. -/
  | inactive
  /-- Over, and the thread has ended. -/
  | finished
  deriving Repr, DecidableEq

/-- `connector_spawn`, up to the new thread or the error. -/
def connectorSpawn (ok : Bool) : ConnPc → Option (Op Res × ConnPc)
  | .made => some (if ok then (.acquire .slot, .reserved) else (.pass, .rejecting))
  | .reserved => some (if ok then (.acquire .wrap, .wrapped) else (.pass, .unwrapped))
  | .unwrapped => some (.release .slot, .rejecting)
  | .wrapped => some (.pass, if ok then .started else .unstarted)
  | .unstarted => some (.release .wrap, .unposted)
  | .unposted => some (.release .slot, .rejecting)
  | _ => none

/-- `server_run` behind `accept`, with `connection_create`. -/
def serverRun (ok : Bool) : ConnPc → Option (Op Res × ConnPc)
  | .accepted => some (if ok then (.acquire .conn, .made) else (.pass, .unmade))
  | .unmade => some (.release .socket, .turnedAway)
  | .rejecting => some (.release .socket, .dropping)
  | .dropping => some (.release .conn, .rejected)
  | pc => connectorSpawn ok pc

/-- `connection_run`. -/
def connectionRun (ok : Bool) : ConnPc → Option (Op Res × ConnPc)
  | .calling => some (.acquire .activeConnections, .counted)
  | .counted => some (.pass, if ok then .running else .sessionless)
  | .sessionless => some (.release .socket, .leaving)
  | .running => some (.release .socket, .leaving)
  | .leaving => some (.release .activeConnections, .unlisted)
  | .unlisted => some (.release .conn, .returned)
  | _ => none

/-- `thread_entry`. -/
def threadEntry (ok : Bool) : ConnPc → Option (Op Res × ConnPc)
  | .started => some (.release .wrap, .entered)
  | .entered => some (.acquire .active, .calling)
  | .returned => some (.release .active, .inactive)
  | .inactive => some (.release .slot, .finished)
  | pc => connectionRun ok pc

/-- Inside `connection_run`. -/
def ConnPc.inConnectionRun : ConnPc → Bool
  | .calling | .counted | .sessionless | .running | .leaving | .unlisted => true
  | _ => false

/-- The accept loop still has this connection. -/
def ConnPc.onMain : ConnPc → Bool
  | .accepted | .unmade | .made | .reserved | .unwrapped | .wrapped | .unstarted | .unposted
  | .rejecting | .dropping => true
  | _ => false

/-! ## §2. The server. -/

/-- Who closes or frees. -/
inductive Who where
  | acceptLoop
  | thread (x : Nat)
  deriving Repr, DecidableEq

/-- What is closed or freed: the socket, `connection_t` and wrapper of the `x`-th
accepted connection. -/
inductive Obj where
  | socket (x : Nat)
  | conn (x : Nat)
  | wrap (x : Nat)
  deriving Repr, DecidableEq

/-- What is open under a descriptor. -/
inductive Owner where
  | socket (x : Nat)
  | other
  deriving Repr, DecidableEq

structure Conn where
  fd : Nat
  pc : ConnPc
  deriving Repr, DecidableEq

/-- Where the main thread is. -/
inductive MainPc where
  /-- In `server_run`, between two connections. -/
  | accept
  /-- Handling the `x`-th connection. -/
  | serve (x : Nat)
  /-- In `connector_destroy`, with `i` calls of `sem_wait` made. -/
  | destroy (i : Nat)
  /-- Behind the loop of `connector_destroy`. -/
  | done
  deriving Repr, DecidableEq

structure Srv where
  slots : Nat
  active : UInt32
  activeConnections : UInt32
  conns : List Conn
  fds : Nat → Option Owner
  main : MainPc
  waited : Nat
  strayCloses : Nat
  made : Obj → Nat
  gone : Obj → List Who

namespace Srv

def make (s : Srv) (o : Obj) : Srv := { s with made := Function.update s.made o (s.made o + 1) }

def dispose (s : Srv) (who : Who) (o : Obj) : Srv :=
  { s with gone := Function.update s.gone o (s.gone o ++ [who]) }

/-- `close`. -/
def close (s : Srv) (who : Who) (fd : Nat) : Srv :=
  let s1 := { s with fds := Function.update s.fds fd none }
  match s.fds fd with
  | some (.socket y) => s1.dispose who (.socket y)
  | _ => { s1 with strayCloses := s1.strayCloses + 1 }

/-- What a step of connection `x` does. -/
def perform (s : Srv) (who : Who) (x fd : Nat) : Op Res → Srv
  | .pass => s
  | .acquire .slot => { s with slots := s.slots - 1 }
  | .release .slot => { s with slots := s.slots + 1 }
  | .acquire .active => { s with active := s.active + 1 }
  | .release .active => { s with active := s.active - 1 }
  | .acquire .activeConnections => { s with activeConnections := s.activeConnections + 1 }
  | .release .activeConnections => { s with activeConnections := s.activeConnections - 1 }
  | .acquire .socket => s.make (.socket x)
  | .release .socket => s.close who fd
  | .acquire .conn => s.make (.conn x)
  | .release .conn => s.dispose who (.conn x)
  | .acquire .wrap => s.make (.wrap x)
  | .release .wrap => s.dispose who (.wrap x)

/-- Connection `x` goes on to `pc`. -/
def move (s : Srv) (who : Who) (x : Nat) (c : Conn) (op : Op Res) (pc : ConnPc) : Srv :=
  let s1 := s.perform who x c.fd op
  { s1 with conns := s1.conns.set x { c with pc := pc } }

/-- `accept` returns `fd`. -/
def accept (s : Srv) (fd : Nat) : Srv :=
  let x := s.conns.length
  let s1 := s.make (.socket x)
  { s1 with
    conns := s1.conns ++ [{ fd := fd, pc := .accepted }]
    fds := Function.update s1.fds fd (some (.socket x))
    main := .serve x }

/-- The main thread goes on with its connection; `sem_trywait` succeeds when there
is a slot. -/
def serve (s : Srv) (x : Nat) (ok : Bool) : Option Srv :=
  match s.conns[x]? with
  | none => none
  | some c =>
      let ok := if c.pc = .made then decide (0 < s.slots) else ok
      (serverRun ok c.pc).map fun next =>
        let s1 := s.move .acceptLoop x c next.1 next.2
        { s1 with main := if next.2.onMain then .serve x else .accept }

/-- The thread of connection `x` goes on. -/
def thread (s : Srv) (x : Nat) (ok : Bool) : Option Srv :=
  match s.conns[x]? with
  | none => none
  | some c => (threadEntry ok c.pc).map fun next => s.move (.thread x) x c next.1 next.2

/-- The loop of `connector_destroy`; `none` when `sem_wait` waits. -/
def connectorDestroy (maxConnections : UInt32) (s : Srv) (i : Nat) : Option Srv :=
  if i < maxConnections.toNat then
    if 0 < s.slots then
      some { s with slots := s.slots - 1, waited := s.waited + 1, main := .destroy (i + 1) }
    else none
  else some { s with main := .done }

end Srv

/-- The scheduler's choice. -/
inductive SrvAct where
  | accept (fd : Nat)
  | serve (ok : Bool)
  | thread (x : Nat) (ok : Bool)
  /-- `server_run` returns. -/
  | stop
  | destroy
  /-- A signal arrives while `connector_destroy` waits. -/
  | interrupt
  /-- The rest of the process. -/
  | openFd (fd : Nat)
  | closeFd (fd : Nat)
  deriving Repr, DecidableEq

def Srv.step (maxConnections : UInt32) (s : Srv) : SrvAct → Option Srv
  | .accept fd => if s.main = .accept ∧ s.fds fd = none then some (s.accept fd) else none
  | .serve ok =>
      match s.main with
      | .serve x => s.serve x ok
      | _ => none
  | .thread x ok => s.thread x ok
  | .stop => if s.main = .accept then some { s with main := .destroy 0 } else none
  | .destroy =>
      match s.main with
      | .destroy i => s.connectorDestroy maxConnections i
      | _ => none
  | .interrupt =>
      match s.main with
      | .destroy i =>
          if i < maxConnections.toNat ∧ s.slots = 0 then some { s with main := .destroy (i + 1) }
          else none
      | _ => none
  | .openFd fd =>
      if s.fds fd = none then some { s with fds := Function.update s.fds fd (some .other) } else none
  | .closeFd fd =>
      if s.fds fd = some .other then some { s with fds := Function.update s.fds fd none } else none

/-- Behind `server_init` and `connector_init`. -/
def srvStart (maxConnections : UInt32) : Srv where
  slots := maxConnections.toNat
  active := 0
  activeConnections := 0
  conns := []
  fds := fun _ => none
  main := .accept
  waited := 0
  strayCloses := 0
  made := fun _ => 0
  gone := fun _ => []

def connectorSystem (maxConnections : UInt32) : TransitionSystem Srv SrvAct where
  init := fun s => s = srvStart maxConnections
  step := Srv.step maxConnections

end NetServer.Core
