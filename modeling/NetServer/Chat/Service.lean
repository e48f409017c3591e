/-
  NetServer.Chat.Service — what the threads of the chat service share, and the
  critical sections they run on it.

  A thread's program is a sequence of atomic operations: each SQL statement
  (under the storage lock), each subscription change and each part of
  `chat_room_post` (under the room's lock), each `write` and `read` of a
  notify pipe.  An `Op` is one of them; between two of them a thread only
  touches its own memory.

  `chat_room_post` itself is the program `PostPc`: insert the row, take the
  room's lock, write one byte to every subscriber, release the lock.  The
  list cannot change while the lock is held, but pipes are read without it.
-/
import NetServer.Chat.Room

namespace NetServer.Chat

/-! ## §1. Shared state. -/

/-- What all connection threads share.  `lock r` is the thread inside the
room's lock; `fdOwner fd` is the connection whose notify pipe has `fd` as its
write end. -/
structure Shared where
  db : ChatDb
  now : Int
  subFds : Int → List Nat
  lock : Int → Option Nat
  fdOwner : Nat → Option Nat

/-- One atomic operation of a thread. -/
inductive Op where
  /-- Only the thread's own memory. -/
  | skip
  /-- A successful `chat_db_insert_message` that SQLite gave `id`. -/
  | insert (roomId : Int) (user body : List UInt8) (id : Int)
  | presenceSet (roomId : Int) (user : List UInt8)
  | presenceClear (roomId : Int) (user : List UInt8)
  /-- `chat_room_subscribe` of the thread's own descriptor. -/
  | subscribe (roomId : Int)
  /-- `chat_room_unsubscribe` of the thread's own descriptor. -/
  | unsubscribe (roomId : Int)
  /-- Take the room's lock to notify. -/
  | lock (roomId : Int)
  /-- One `write` of the notify loop for message `id`. -/
  | write (id : Int) (fd : Nat)
  /-- Release the room's lock. -/
  | unlock (roomId : Int)
  /-- One `read` of at most 64 bytes from the thread's own pipe. -/
  | read
  /-- Close the thread's pipe. -/
  | close
  deriving Repr, DecidableEq

/-- What the environment decides when a thread runs. -/
inductive Choice where
  /-- Nothing to decide. -/
  | go
  /-- The INSERT succeeds with an id, or fails. -/
  | inserted (id : Option Int)
  /-- Telnet, in `poll`: a key for the chat. -/
  | key (k : UInt8)
  /-- Telnet, in `poll`: the chat is opened from the menu. -/
  | openChat
  /-- Telnet, in `poll`: the client reports its height. -/
  | resize (rows : Nat)
  /-- `poll` reports the notify pipe. -/
  | readable
  /-- `poll` times out, or is interrupted. -/
  | timeout
  /-- Disconnect, poll error, idle timeout or shutdown: the session ends. -/
  | hangup
  /-- HTTP: the request was `POST /api/rooms/{id}/messages` with this body. -/
  | postRequest (roomId : Int) (body : List UInt8)
  /-- HTTP: the request was `GET /api/events/rooms/{id}` with this query. -/
  | eventsRequest (roomId : Int) (query : List UInt8)
  /-- HTTP: any other request, or none. -/
  | otherRequest
  /-- `http_sse_send` or `http_sse_comment` succeeds or fails. -/
  | sent (ok : Bool)
  deriving Repr, DecidableEq

/-! ## §2. `chat_room_post`. -/

/-- Where a thread is inside `chat_room_post`. -/
inductive PostPc where
  /-- The texts are clean; the row is not inserted yet. -/
  | insert (roomId : Int) (user body : List UInt8)
  /-- The row is in the table; the room's lock is not taken yet. -/
  | lock (roomId id : Int)
  /-- The lock is held and these descriptors are still to be written. -/
  | write (roomId id : Int) (rest : List Nat)
  deriving Repr, DecidableEq

/-- One step of `chat_room_post`; `none` for the program when it returns. -/
def postStep (sh : Shared) (choice : Choice) : PostPc → Option (Option PostPc × Op)
  | .insert r user body =>
      match choice with
      | .inserted (some id) => some (some (.lock r id), .insert r user body id)
      | .inserted none => some (none, .skip)
      | _ => none
  | .lock r id => some (some (.write r id (sh.subFds r)), .lock r)
  | .write r id (fd :: rest) => some (some (.write r id rest), .write id fd)
  | .write r _ [] => some (none, .unlock r)

/-- Message `id` of room `r` is in the table and its poster has not written to
`fd` yet. -/
def PostPc.Pending (r id : Int) (fd : Nat) : PostPc → Prop
  | .insert .. => False
  | .lock r' id' => r' = r ∧ id' = id
  | .write r' id' rest => r' = r ∧ id' = id ∧ fd ∈ rest

/-- The poster of message `id` of room `r` has not finished. -/
def PostPc.Posting (r id : Int) : PostPc → Prop
  | .insert .. => False
  | .lock r' id' => r' = r ∧ id' = id
  | .write r' id' _ => r' = r ∧ id' = id

end NetServer.Chat
