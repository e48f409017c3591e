/-
  NetServer.Chat.System — all connections of the server on one chat service.

  A state is the shared state, one record per connection and a log of the
  wake-ups; a step lets one thread run one operation, opens a connection,
  advances the clock, or lets the shutdown code reach a connection.  Any
  number of telnet and HTTP connections run in any order.

  Connections are numbered and a number is used once; descriptors are what
  the kernel gives and are used again after `close`.

  `accepted` and `wakes` are not in the source: whether the connection's last
  `chat_room_subscribe` found room in the list, and for every `write` of a
  notify loop the message and the connection whose pipe it reached (or found
  full).
-/
import NetServer.Chat.Chat
import NetServer.Chat.HttpChat
import NetServer.Lib.TransitionSystem
import Mathlib.Logic.Function.Basic

namespace NetServer.Chat

open NetServer.Lib

/-! ## §1. States. -/

/-- What a connection number stands for. -/
inductive Prog where
  /-- No connection yet. -/
  | unused
  | telnet (t : Telnet)
  | http (h : Http)
  /-- The connection has ended and its pipe is closed. -/
  | closed
  deriving Repr, DecidableEq

/-- A connection: its notify descriptor, the bytes in its pipe, its shutdown
flag and its thread. -/
structure Conn where
  fd : Nat
  bytes : Nat
  shutdown : Bool
  accepted : Bool
  prog : Prog
  deriving Repr, DecidableEq

structure Sys where
  sh : Shared
  conns : Nat → Conn
  wakes : List (Int × Nat)

/-- Bytes a pipe holds. -/
def pipeCap : Nat := 65536

def connUnused : Conn := { fd := 0, bytes := 0, shutdown := false, accepted := false, prog := .unused }

/-- A server that has just started on a database. -/
def sysStart (db : ChatDb) (now : Int) : Sys :=
  { sh := { db := db, now := now, subFds := fun _ => [], lock := fun _ => none,
            fdOwner := fun _ => none }
    conns := fun _ => connUnused
    wakes := [] }

/-- What the scheduler and the environment do next. -/
inductive Act where
  /-- A client connects; `pipe2` gives `fd`. -/
  | connectTelnet (x fd : Nat)
  | connectHttp (x fd : Nat)
  /-- Connection `x`'s thread runs its next operation. -/
  | run (x : Nat) (choice : Choice)
  /-- Time passes. -/
  | tick (secs : Nat)
  /-- The shutdown code sets `x`'s flag. -/
  | flag (x : Nat)
  /-- The shutdown code writes a byte to `x`'s pipe. -/
  | wake (x : Nat)
  deriving Repr, DecidableEq

/-! ## §2. Operations on the state. -/

namespace Sys

/-- Change connection `x`. -/
def modify (s : Sys) (x : Nat) (f : Conn → Conn) : Sys :=
  { s with conns := Function.update s.conns x (f (s.conns x)) }

def setProg (s : Sys) (x : Nat) (p : Prog) : Sys := s.modify x fun c => { c with prog := p }

/-- A byte for connection `y`'s pipe; a full pipe stays as it is. -/
def addByte (s : Sys) (y : Nat) : Sys :=
  s.modify y fun c => { c with bytes := min pipeCap (c.bytes + 1) }

def setDb (s : Sys) (db : ChatDb) : Sys := { s with sh := { s.sh with db := db } }

def setSubFds (s : Sys) (r : Int) (l : List Nat) : Sys :=
  { s with sh := { s.sh with subFds := Function.update s.sh.subFds r l } }

def setLock (s : Sys) (r : Int) (x : Option Nat) : Sys :=
  { s with sh := { s.sh with lock := Function.update s.sh.lock r x } }

def setOwner (s : Sys) (fd : Nat) (x : Option Nat) : Sys :=
  { s with sh := { s.sh with fdOwner := Function.update s.sh.fdOwner fd x } }

/-- One operation by connection `x`; `none` when it has to wait for a lock, or
when SQLite would not give that id. -/
def apply (s : Sys) (x : Nat) : Op → Option Sys
  | .skip => some s
  | .insert r user body id =>
      if s.sh.db.MayAssign id then
        some (s.setDb (chatDbInsertMessage s.sh.db r user body s.sh.now id))
      else none
  | .presenceSet r user => some (s.setDb (chatRoomPresenceSet s.sh.db r user s.sh.now))
  | .presenceClear r user => some (s.setDb (chatRoomPresenceClear s.sh.db r user))
  | .subscribe r =>
      if s.sh.lock r = none then
        let found := decide ((s.sh.subFds r).length < chatMaxSubscribers)
        some ((s.setSubFds r (chatRoomSubscribe (s.sh.subFds r) (s.conns x).fd)).modify x
          fun c => { c with accepted := found })
      else none
  | .unsubscribe r =>
      if s.sh.lock r = none then
        some (s.setSubFds r (chatRoomUnsubscribe (s.sh.subFds r) (s.conns x).fd))
      else none
  | .lock r => if s.sh.lock r = none then some (s.setLock r (some x)) else none
  | .write id fd =>
      match s.sh.fdOwner fd with
      | some y => some { s.addByte y with wakes := s.wakes ++ [(id, y)] }
      -- EBADF: the result of `write` is not used
      | none => some s
  | .unlock r => some (s.setLock r none)
  | .read => some (s.modify x fun c => { c with bytes := c.bytes - 64 })
  | .close => some (s.setOwner (s.conns x).fd none)

/-- The next operation of a thread. -/
def progStep (rooms : List ChatRoom) (sh : Shared) (c : Conn) (choice : Choice) :
    Option (Prog × Op) :=
  match c.prog with
  | .unused | .closed => none
  | .telnet t =>
      if t.pc = .closing then some (.closed, .close)
      else (t.step rooms sh c.bytes c.shutdown choice).map fun (t', op) => (.telnet t', op)
  | .http h =>
      if h = .closing then some (.closed, .close)
      else (h.step rooms sh c.bytes c.shutdown choice).map fun (h', op) => (.http h', op)

/-- A new connection on a number and a descriptor that are free. -/
def connect (s : Sys) (x fd : Nat) (p : Prog) : Option Sys :=
  if (s.conns x).prog = .unused ∧ s.sh.fdOwner fd = none then
    some ((s.setOwner fd (some x)).modify x fun _ =>
      { fd := fd, bytes := 0, shutdown := false, accepted := false, prog := p })
  else none

/-- The connection's pipe is open. -/
def Open (s : Sys) (x : Nat) : Prop := s.sh.fdOwner (s.conns x).fd = some x

instance (s : Sys) (x : Nat) : Decidable (s.Open x) := inferInstanceAs (Decidable (_ = _))

def step (rooms : List ChatRoom) (s : Sys) : Act → Option Sys
  | .connectTelnet x fd => s.connect x fd (.telnet telnetStart)
  | .connectHttp x fd => s.connect x fd (.http .request)
  | .run x choice =>
      match progStep rooms s.sh (s.conns x) choice with
      | some (p, op) => (s.apply x op).map (·.setProg x p)
      | none => none
  | .tick secs => some { s with sh := { s.sh with now := s.sh.now + secs } }
  | .flag x => some (s.modify x fun c => { c with shutdown := true })
  | .wake x => if s.Open x then some (s.addByte x) else none

end Sys

/-- The server on any database whose message ids were given in order. -/
def chatSystem (rooms : List ChatRoom) : TransitionSystem Sys Act where
  init := fun s => ∃ db now, db.Wf ∧ s = sysStart db now
  step := Sys.step rooms

end NetServer.Chat
