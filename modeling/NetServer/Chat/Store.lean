/-
  NetServer.Chat.Store — the storage is opened once and the rooms are listed once.

  `chat_service_init` of `features/chat/room.c` runs `service_init_once` under
  `pthread_once`: it finds the file (`chat_db_default_path`), opens it, applies the
  schema and the seed rooms (`chat_db_init`), reads the rooms (`chat_db_list_rooms`) and
  fills the registry, slot by slot, behind a count that is already set.  Every statement
  may fail, the process may end between any two of them, and the next process finds the
  file as it was left.

  Main results:
    • `service_rule`  — what holds of the files and of the registry before, in the
      middle of and behind the initialisation;
    • `files_along`   — rooms and messages of a file are only added to;
    • `rooms_stable`  — over any number of lives: no caller finds an empty slot, the
      rooms are a registry, a slot is the same room in every life, and no row of the
      other tables names a room that is not there.
-/
import NetServer.Lib.Once
import NetServer.Chat.Router

namespace NetServer.Chat

open NetServer.Lib
open NetServer.Lib.OrderedLog
open NetServer.Lib.Once
open NetServer.Lib.TransitionSystem

/-! ## §1. The file. -/

/-- A row of the table `rooms`. -/
structure RoomRow where
  id : Int
  name : List UInt8
  deriving Repr, DecidableEq

/-- What SCHEMA creates. -/
inductive SchemaObject where
  | rooms
  | messages
  | idxMessagesRoom
  | presence
  deriving Repr, DecidableEq

/-- The statements of SCHEMA. -/
inductive SchemaStatement where
  | journalMode
  | foreignKeys
  /-- CREATE … IF NOT EXISTS. -/
  | create (o : SchemaObject)
  deriving Repr, DecidableEq

def schema : List SchemaStatement :=
  [.journalMode, .foreignKeys, .create .rooms, .create .messages, .create .idxMessagesRoom,
    .create .presence]

/-- `s_seed_rooms`. -/
def seedRooms : List (List UInt8) := [ascii "general", ascii "games", ascii "random"]

/-- A database file; one that does not exist yet has nothing in it. -/
structure StoreFile where
  objects : List SchemaObject
  rooms : List RoomRow
  db : ChatDb
  deriving Repr, DecidableEq

/-- A statement of SCHEMA, executed. -/
def StoreFile.exec (f : StoreFile) : SchemaStatement → StoreFile
  | .create o => if o ∈ f.objects then f else { f with objects := f.objects ++ [o] }
  | .journalMode | .foreignKeys => f

/-- The id of the next row: an INTEGER PRIMARY KEY without AUTOINCREMENT. -/
def nextRoomId (rows : List RoomRow) : Int := (rows.map RoomRow.id).max?.getD 0 + 1

/-- INSERT OR IGNORE INTO rooms(name): a name is UNIQUE. -/
def StoreFile.insertRoom (f : StoreFile) (name : List UInt8) : StoreFile :=
  if name ∈ f.rooms.map RoomRow.name then f
  else { f with rooms := f.rooms ++ [⟨nextRoomId f.rooms, name⟩] }

/-- A row as it is copied to its handle: the name is cut to its buffer. -/
def RoomRow.handle (row : RoomRow) : ChatRoom where
  id := row.id
  name := (cString row.name).take (chatNameMax - 1)
  name_length := Nat.lt_of_le_of_lt (List.length_take_le _ _) (by decide)

/-- `chat_db_list_rooms`, when every row is read. -/
def chatDbListRooms (rows : List RoomRow) (max : Nat) : List ChatRoom :=
  ((sortAsc RoomRow.id rows).take max).map RoomRow.handle

/-- `chat_db_default_path`, with the value of STATE_DIRECTORY: the directory is what stands before
the first colon. -/
def chatDbDefaultPath (state : Option (List UInt8)) (bufsz : Nat) : Option (List UInt8) :=
  let dir := cString (state.getD [])
  let path := if dir = [] then ascii "data/chat.db" else dir.takeWhile (· ≠ 58) ++ ascii "/chat.db"
  if path.length < bufsz then some path else none

/-! ## §2. The initialisation. -/

/-- The files, and the variables of the process. -/
structure Server where
  disk : List UInt8 → StoreFile
  /-- STATE_DIRECTORY. -/
  state : Option (List UInt8)
  /-- `s_db`: the file that is open. -/
  sDb : Option (List UInt8)
  sRoomCount : Nat
  sRoomPtrs : Nat → Option ChatRoom
  /-- No statement of this life's initialisation has failed; the code does not know. -/
  flawless : Bool

/-- Where `service_init_once` is. -/
inductive InitPc where
  | path
  | opening (path : List UInt8)
  | schema (path : List UInt8) (rest : List SchemaStatement)
  | prepare (path : List UInt8)
  | seed (path : List UInt8) (rest : List (List UInt8))
  | list (path : List UInt8)
  /-- The count is set; the slots from `i` on are still to be filled. -/
  | fill (rest : List ChatRoom) (i : Nat)
  deriving Repr, DecidableEq

/-- What SQLite does: whether a call succeeds, and after how many rows a SELECT ends. -/
structure Outcome where
  ok : Bool
  rows : Nat
  deriving Repr, DecidableEq

/-- What a thread does with a room of the registry. -/
inductive RoomUse where
  | insert (i : Nat) (user body : List UInt8) (now id : Int)
  | presenceSet (i : Nat) (user : List UInt8) (now : Int)
  | presenceClear (i : Nat) (user : List UInt8)
  deriving Repr, DecidableEq

/-- The slot of `s_room_ptrs` it is taken from. -/
def RoomUse.slot : RoomUse → Nat
  | .insert i _ _ _ _ | .presenceSet i _ _ | .presenceClear i _ => i

/-- `chat_room_post`, `chat_room_presence_set` and `chat_room_presence_clear` on the tables. -/
def RoomUse.effect : RoomUse → ChatRoom → ChatDb → ChatDb
  | .insert _ user body now id, room, db =>
    if db.MayAssign id then chatDbInsertMessage db room.id user body now id else db
  | .presenceSet _ user now, room, db => chatDbPresenceSet db room.id user now
  | .presenceClear _ user, room, db => chatDbPresenceClear db room.id user

namespace Server

def onFile (s : Server) (path : List UInt8) (f : StoreFile) : Server :=
  { s with disk := Function.update s.disk path f }

/-- The initialisation gives up: the handle is closed. -/
def failed (s : Server) : Server := { s with sDb := none, flawless := false }

/-- One step of `service_init_once`. -/
def initStep (s : Server) : InitPc → Outcome → Option (Server × Option InitPc)
  | .path, _ =>
    match chatDbDefaultPath s.state 512 with
    | some path => some (s, some (.opening path))
    | none => some (s.failed, none)
  | .opening path, out =>
    if s.sDb.isSome then some (s, some (.list path))
    else if out.ok then some ({ s with sDb := some path }, some (.schema path Chat.schema))
    else some (s.failed, none)
  | .schema path [], _ => some (s, some (.prepare path))
  | .schema path (st :: rest), out =>
    if out.ok then some (s.onFile path ((s.disk path).exec st), some (.schema path rest))
    else some (s.failed, none)
  | .prepare path, out =>
    -- without its table the statement does not compile
    if out.ok ∧ .rooms ∈ (s.disk path).objects then some (s, some (.seed path seedRooms))
    else some ({ s with flawless := false }, some (.list path))
  | .seed path [], _ => some (s, some (.list path))
  | .seed path (name :: rest), out =>
    -- the result of `sqlite3_step` is not looked at; there is no id behind the greatest one
    if out.ok ∧ nextRoomId (s.disk path).rooms ≤ longMax then
      some (s.onFile path ((s.disk path).insertRoom name), some (.seed path rest))
    else some ({ s with flawless := false }, some (.seed path rest))
  | .list path, out =>
    let all := chatDbListRooms (s.disk path).rooms chatMaxRooms
    let rows := if out.ok then all.take out.rows else []
    some ({ s with sRoomCount := rows.length, flawless := s.flawless && rows.length == all.length },
      some (.fill rows 0))
  | .fill [] _, _ => some (s, none)
  | .fill (room :: rest) i, _ =>
    some ({ s with sRoomPtrs := Function.update s.sRoomPtrs i (some room) }, some (.fill rest (i + 1)))

/-- A thread uses a room of the registry; a foreign key may reject the row. -/
def use (s : Server) (u : RoomUse) : Option Server :=
  match (if u.slot < s.sRoomCount then s.sRoomPtrs u.slot else none), s.sDb with
  | some room, some path =>
    if room.id ∈ (s.disk path).rooms.map RoomRow.id then
      some (s.onFile path { s.disk path with db := u.effect room (s.disk path).db })
    else some s
  | _, _ => none

/-- A new process finds the files, and its own variables zeroed. -/
def boot (s : Server) (state : Option (List UInt8)) : Server :=
  { disk := s.disk, state := state, sDb := none, sRoomCount := 0, sRoomPtrs := fun _ => none,
    flawless := true }

/-- The rooms a caller sees. -/
def registry (s : Server) : List ChatRoom := (List.range s.sRoomCount).filterMap s.sRoomPtrs

end Server

/-- `chat_service_init`, and what is done behind it. -/
def service : Program Server InitPc Outcome RoomUse (Option (List UInt8)) where
  start := .path
  step := Server.initStep
  use := Server.use
  boot := Server.boot

/-! ## §3. Files. -/

/-- Rooms are in the order of their ids, with names of their own, and every row of the other
tables belongs to one. -/
structure StoreFile.Ok (f : StoreFile) : Prop where
  ascending : Ascending RoomRow.id f.rooms
  names : (f.rooms.map RoomRow.name).Nodup
  isLong : ∀ r ∈ f.rooms, longMin ≤ r.id ∧ r.id ≤ longMax
  wf : f.db.Wf
  messages : ∀ m ∈ f.db.messages, m.roomId ∈ f.rooms.map RoomRow.id
  presence : ∀ p ∈ f.db.presence, p.roomId ∈ f.rooms.map RoomRow.id

theorem exec_rooms (f : StoreFile) (st : SchemaStatement) :
    (f.exec st).rooms = f.rooms ∧ (f.exec st).db = f.db := by
  cases st with
  | journalMode => exact ⟨rfl, rfl⟩
  | foreignKeys => exact ⟨rfl, rfl⟩
  | create o =>
    unfold StoreFile.exec
    dsimp only
    split
    · exact ⟨rfl, rfl⟩
    · exact ⟨rfl, rfl⟩

theorem StoreFile.Ok.exec {f : StoreFile} (h : f.Ok) (st : SchemaStatement) : (f.exec st).Ok := by
  obtain ⟨hrooms, hdb⟩ := exec_rooms f st
  refine ⟨?_, ?_, ?_, ?_, ?_, ?_⟩
  · rw [hrooms]; exact h.ascending
  · rw [hrooms]; exact h.names
  · rw [hrooms]; exact h.isLong
  · rw [hdb]; exact h.wf
  · rw [hrooms, hdb]; exact h.messages
  · rw [hrooms, hdb]; exact h.presence

theorem exec_objects {f : StoreFile} {st : SchemaStatement} {o : SchemaObject}
    (h : o ∈ f.objects ∨ st = .create o) : o ∈ (f.exec st).objects := by
  cases st with
  | journalMode => exact h.resolve_right nofun
  | foreignKeys => exact h.resolve_right nofun
  | create o' =>
    unfold StoreFile.exec
    dsimp only
    by_cases hmem : o' ∈ f.objects
    · rw [if_pos hmem]
      rcases h with h | h
      · exact h
      · cases h
        exact hmem
    · rw [if_neg hmem]
      rcases h with h | h
      · exact List.mem_append_left _ h
      · cases h
        exact List.mem_append_right _ (List.mem_singleton_self _)

/-- The next id is above those given before. -/
theorem lt_nextRoomId {rows : List RoomRow} {r : RoomRow} (h : r ∈ rows) : r.id < nextRoomId rows := by
  unfold nextRoomId
  cases hmax : (rows.map RoomRow.id).max? with
  | none =>
    rw [List.max?_eq_none_iff, List.map_eq_nil_iff] at hmax
    rw [hmax] at h
    exact absurd h List.not_mem_nil
  | some z =>
    have hle := (List.max?_eq_some_iff.mp hmax).2 r.id (List.mem_map_of_mem h)
    show r.id < z + 1
    omega

theorem longMin_le_nextRoomId {f : StoreFile} (h : f.Ok) : longMin ≤ nextRoomId f.rooms := by
  unfold nextRoomId
  cases hmax : (f.rooms.map RoomRow.id).max? with
  | none => exact (by decide : longMin ≤ 0 + 1)
  | some z =>
    obtain ⟨r, hr, rfl⟩ := List.mem_map.mp (List.max?_eq_some_iff.mp hmax).1
    have := (h.isLong r hr).1
    show longMin ≤ r.id + 1
    omega

theorem insertRoom_grows (f : StoreFile) (name : List UInt8) :
    f.rooms <+: (f.insertRoom name).rooms ∧ (f.insertRoom name).db = f.db
      ∧ (f.insertRoom name).objects = f.objects := by
  unfold StoreFile.insertRoom
  split
  · exact ⟨List.prefix_refl _, rfl, rfl⟩
  · exact ⟨List.prefix_append _ _, rfl, rfl⟩

theorem StoreFile.Ok.insertRoom {f : StoreFile} (h : f.Ok) (name : List UInt8)
    (hlong : nextRoomId f.rooms ≤ longMax) : (f.insertRoom name).Ok := by
  have hmem : ∀ id ∈ f.rooms.map RoomRow.id, id ∈ (f.insertRoom name).rooms.map RoomRow.id :=
    fun id hid => ((insertRoom_grows f name).1.map _).subset hid
  unfold StoreFile.insertRoom at hmem ⊢
  by_cases hname : name ∈ f.rooms.map RoomRow.name
  · rw [if_pos hname]
    exact h
  · rw [if_neg hname] at hmem ⊢
    refine ⟨ascending_concat h.ascending fun r hr => lt_nextRoomId hr, ?_, ?_, h.wf, ?_, ?_⟩
    · rw [List.map_append, List.map_singleton, List.nodup_append]
      refine ⟨h.names, List.nodup_singleton _, ?_⟩
      intro a ha b hb heq
      have hb : b = name := List.mem_singleton.mp hb
      rw [← hb, ← heq] at hname
      exact hname ha
    · intro r hr
      rcases List.mem_append.mp hr with hr | hr
      · exact h.isLong r hr
      · rw [List.mem_singleton.mp hr]
        exact ⟨longMin_le_nextRoomId h, hlong⟩
    · exact fun m hm => hmem _ (h.messages m hm)
    · exact fun p hp => hmem _ (h.presence p hp)

/-- The rows are listed as they are. -/
theorem listRooms_eq {f : StoreFile} (h : f.Ok) (max : Nat) :
    chatDbListRooms f.rooms max = (f.rooms.take max).map RoomRow.handle := by
  unfold chatDbListRooms
  rw [sortAsc_eq h.ascending]

/-- Rooms that were added come behind those that were listed. -/
theorem listRooms_grow {f f' : StoreFile} (h : f.Ok) (h' : f'.Ok) (hrooms : f.rooms <+: f'.rooms)
    (max : Nat) : chatDbListRooms f.rooms max <+: chatDbListRooms f'.rooms max := by
  rw [listRooms_eq h, listRooms_eq h']
  exact (hrooms.take max).map _

/-- A name is there after its INSERT. -/
theorem mem_insertRoom (f : StoreFile) (name : List UInt8) :
    name ∈ (f.insertRoom name).rooms.map RoomRow.name := by
  unfold StoreFile.insertRoom
  split
  · assumption
  · rw [List.map_append]
    exact List.mem_append_right _ (List.mem_singleton_self _)

/-- The tables after a statement on a room of the file. -/
theorem StoreFile.Ok.onTables {f : StoreFile} (h : f.Ok) {db : ChatDb} (hwf : db.Wf)
    (hmsg : ∀ m ∈ db.messages, m.roomId ∈ f.rooms.map RoomRow.id)
    (hpres : ∀ p ∈ db.presence, p.roomId ∈ f.rooms.map RoomRow.id) :
    StoreFile.Ok { f with db := db } :=
  ⟨h.ascending, h.names, h.isLong, hwf, hmsg, hpres⟩

/-- What the threads do to the tables of a file, on a room it has. -/
theorem StoreFile.Ok.insert {f : StoreFile} (h : f.Ok) {roomId now id : Int} {user body : List UInt8}
    (hroom : roomId ∈ f.rooms.map RoomRow.id) :
    StoreFile.Ok { f with
      db := if f.db.MayAssign id then chatDbInsertMessage f.db roomId user body now id else f.db } := by
  by_cases hid : f.db.MayAssign id
  · rw [if_pos hid]
    refine h.onTables (insertMessage_wf h.wf hid) ?_ h.presence
    intro m hm
    rcases List.mem_append.mp hm with hm | hm
    · exact h.messages m hm
    · rw [List.mem_singleton.mp hm]
      exact hroom
  · rw [if_neg hid]
    exact h

theorem StoreFile.Ok.presenceSet {f : StoreFile} (h : f.Ok) {roomId now : Int} {user : List UInt8}
    (hroom : roomId ∈ f.rooms.map RoomRow.id) :
    StoreFile.Ok { f with db := chatDbPresenceSet f.db roomId user now } := by
  obtain ⟨hmsg, hseq⟩ := presenceSet_messages f.db roomId user now
  refine h.onTables (h.wf.of_messages hmsg hseq) (by rw [hmsg]; exact h.messages) ?_
  intro p hp
  unfold chatDbPresenceSet at hp
  split at hp
  · -- the row is refreshed: rooms and users stay
    obtain ⟨q, hq, rfl⟩ := List.mem_map.mp hp
    split
    · exact h.presence q hq
    · exact h.presence q hq
  · rcases List.mem_append.mp hp with hp | hp
    · exact h.presence p hp
    · rw [List.mem_singleton.mp hp]
      exact hroom

theorem StoreFile.Ok.presenceClear {f : StoreFile} (h : f.Ok) (roomId : Int) (user : List UInt8) :
    StoreFile.Ok { f with db := chatDbPresenceClear f.db roomId user } :=
  h.onTables (h.wf.of_messages rfl rfl) h.messages fun p hp => h.presence p (List.mem_filter.mp hp).1

/-! ## §4. The initialisation keeps them. -/

namespace Server

/-- Every file is in order. -/
def Files (s : Server) : Prop := ∀ path, (s.disk path).Ok

/-- The file of this life is open. -/
structure Opened (s : Server) (path : List UInt8) : Prop where
  files : s.Files
  handle : s.sDb = some path
  named : chatDbDefaultPath s.state 512 = some path

/-- The names that are still to be inserted, or are there. -/
def Seeded (s : Server) (path : List UInt8) (rest : List (List UInt8)) : Prop :=
  s.flawless = true → ∀ name ∈ seedRooms, name ∈ rest ∨ name ∈ (s.disk path).rooms.map RoomRow.name

/-- The count does not go beyond the rooms of the file, and the slots below `upTo` are filled with
them. -/
structure Listed (s : Server) (path : List UInt8) (upTo : Nat) : Prop where
  objects : ∀ o, o ∈ (s.disk path).objects
  seeded : s.Seeded path []
  count : s.sRoomCount ≤ (chatDbListRooms (s.disk path).rooms chatMaxRooms).length
  all : s.flawless = true → s.sRoomCount = (chatDbListRooms (s.disk path).rooms chatMaxRooms).length
  slots : ∀ j, j < upTo → s.sRoomPtrs j = (chatDbListRooms (s.disk path).rooms chatMaxRooms)[j]?

/-- Before `service_init_once`. -/
structure Before (s : Server) : Prop where
  files : s.Files
  handle : s.sDb = none
  count : s.sRoomCount = 0

/-- In the middle of it. -/
def Mid : InitPc → Server → Prop
  | .path, s => s.Before
  | .opening path, s => s.Before ∧ chatDbDefaultPath s.state 512 = some path
  | .schema path rest, s =>
      s.Opened path ∧ s.sRoomCount = 0 ∧ ∀ o, .create o ∈ rest ∨ o ∈ (s.disk path).objects
  | .prepare path, s => s.Opened path ∧ s.sRoomCount = 0 ∧ ∀ o, o ∈ (s.disk path).objects
  | .seed path rest, s =>
      s.Opened path ∧ s.sRoomCount = 0 ∧ (∀ o, o ∈ (s.disk path).objects) ∧ s.Seeded path rest
  | .list path, s =>
      s.Opened path ∧ s.sRoomCount = 0 ∧ (∀ o, o ∈ (s.disk path).objects) ∧ s.Seeded path []
  | .fill rest i, s =>
      ∃ path, s.Opened path ∧ s.Listed path i ∧ s.sRoomCount = i + rest.length
        ∧ ∀ k, k < rest.length →
            rest[k]? = (chatDbListRooms (s.disk path).rooms chatMaxRooms)[i + k]?

/-- Behind it: the rooms are listed, or there is no storage and there are no rooms. -/
def Ready (s : Server) : Prop :=
  (∃ path, s.Opened path ∧ s.Listed path s.sRoomCount)
    ∨ s.Files ∧ s.sDb = none ∧ s.sRoomCount = 0 ∧ s.flawless = false

theorem Files.onFile {s : Server} (h : s.Files) {path : List UInt8} {f : StoreFile} (hf : f.Ok) :
    (s.onFile path f).Files := by
  intro p
  show (Function.update s.disk path f p).Ok
  by_cases hp : p = path
  · rw [hp, Function.update_self]
    exact hf
  · rw [Function.update_of_ne hp]
    exact h p

theorem onFile_same (s : Server) (path : List UInt8) (f : StoreFile) :
    (s.onFile path f).disk path = f := by
  show Function.update s.disk path f path = f
  exact Function.update_self _ _ _

theorem Opened.onFile {s : Server} {path : List UInt8} (h : s.Opened path) {f : StoreFile} (hf : f.Ok) :
    (s.onFile path f).Opened path :=
  ⟨h.files.onFile hf, h.handle, h.named⟩

theorem Ready.files {s : Server} (h : s.Ready) : s.Files := by
  rcases h with ⟨path, hopen, -⟩ | ⟨hfiles, -⟩
  · exact hopen.files
  · exact hfiles

theorem Mid.files {pc : InitPc} {s : Server} (h : Mid pc s) : s.Files := by
  cases pc with
  | path => exact Before.files h
  | opening path => exact h.1.files
  | schema path rest => exact h.1.files
  | prepare path => exact h.1.files
  | seed path rest => exact h.1.files
  | list path => exact h.1.files
  | fill rest i =>
    obtain ⟨path, hopen, -⟩ := h
    exact hopen.files

theorem Files.boot {s : Server} (h : s.Files) (state : Option (List UInt8)) : (s.boot state).Before :=
  ⟨h, rfl, rfl⟩

theorem failed_ready {s : Server} (hfiles : s.Files) (hcount : s.sRoomCount = 0) : s.failed.Ready :=
  Or.inr ⟨hfiles, rfl, hcount, rfl⟩

/-- What a step of the routine leads to. -/
def Next (s : Server) : Option InitPc → Prop
  | some pc => Mid pc s
  | none => s.Ready

/-- **One step of `service_init_once`.** -/
theorem Mid.step {pc : InitPc} {s s' : Server} {out : Outcome} {next : Option InitPc} (h : Mid pc s)
    (hstep : s.initStep pc out = some (s', next)) : s'.Next next := by
  cases pc with
  | path =>
    have h : s.Before := h
    unfold initStep at hstep
    dsimp only at hstep
    cases hpath : chatDbDefaultPath s.state 512 with
    | none =>
      rw [hpath] at hstep
      cases hstep
      exact failed_ready h.files h.count
    | some path =>
      rw [hpath] at hstep
      cases hstep
      exact ⟨h, hpath⟩
  | opening path =>
    obtain ⟨hbefore, hpath⟩ := h
    unfold initStep at hstep
    dsimp only at hstep
    rw [hbefore.handle] at hstep
    cases hok : out.ok with
    | false =>
      rw [hok] at hstep
      cases hstep
      exact failed_ready hbefore.files hbefore.count
    | true =>
      rw [hok] at hstep
      cases hstep
      refine ⟨⟨hbefore.files, rfl, hpath⟩, hbefore.count, fun o => Or.inl ?_⟩
      cases o <;> decide
  | schema path rest =>
    obtain ⟨hopen, hcount, hobjects⟩ := h
    cases rest with
    | nil =>
      cases hstep
      exact ⟨hopen, hcount, fun o => (hobjects o).resolve_left List.not_mem_nil⟩
    | cons st rest =>
      unfold initStep at hstep
      dsimp only at hstep
      cases hok : out.ok with
      | false =>
        rw [hok] at hstep
        cases hstep
        exact failed_ready hopen.files hcount
      | true =>
        rw [hok] at hstep
        cases hstep
        refine ⟨hopen.onFile ((hopen.files path).exec st), hcount, fun o => ?_⟩
        rw [onFile_same]
        rcases hobjects o with hmem | hmem
        · rcases List.mem_cons.mp hmem with heq | hmem
          · exact Or.inr (exec_objects (Or.inr heq.symm))
          · exact Or.inl hmem
        · exact Or.inr (exec_objects (Or.inl hmem))
  | prepare path =>
    obtain ⟨hopen, hcount, hobjects⟩ := h
    unfold initStep at hstep
    dsimp only at hstep
    split at hstep
    · cases hstep
      exact ⟨hopen, hcount, hobjects, fun _ name hname => Or.inl hname⟩
    · cases hstep
      exact ⟨⟨hopen.files, hopen.handle, hopen.named⟩, hcount, hobjects, nofun⟩
  | seed path rest =>
    obtain ⟨hopen, hcount, hobjects, hseeded⟩ := h
    cases rest with
    | nil =>
      cases hstep
      exact ⟨hopen, hcount, hobjects, hseeded⟩
    | cons name rest =>
      unfold initStep at hstep
      dsimp only at hstep
      split at hstep
      · rename_i hok
        cases hstep
        refine ⟨hopen.onFile ((hopen.files path).insertRoom name hok.2), hcount, ?_, ?_⟩
        · rw [onFile_same, (insertRoom_grows _ name).2.2]
          exact hobjects
        · intro hfl seed hseed
          rw [onFile_same]
          rcases hseeded hfl seed hseed with hmem | hmem
          · rcases List.mem_cons.mp hmem with rfl | hmem
            · exact Or.inr (mem_insertRoom _ _)
            · exact Or.inl hmem
          · exact Or.inr (((insertRoom_grows _ name).1.map _).subset hmem)
      · cases hstep
        exact ⟨⟨hopen.files, hopen.handle, hopen.named⟩, hcount, hobjects, nofun⟩
  | list path =>
    obtain ⟨hopen, hcount, hobjects, hseeded⟩ := h
    cases hstep
    refine ⟨path, ⟨hopen.files, hopen.handle, hopen.named⟩, ⟨hobjects, ?_, ?_, ?_, nofun⟩, ?_, ?_⟩
    · intro hfl
      exact hseeded (Bool.and_eq_true_iff.mp hfl).1
    · show (if out.ok then _ else []).length ≤ _
      split
      · exact List.length_take_le' _ _
      · exact Nat.zero_le _
    · intro hfl
      exact beq_iff_eq.mp (Bool.and_eq_true_iff.mp hfl).2
    · exact (Nat.zero_add _).symm
    · intro k hk
      rw [Nat.zero_add]
      split at hk
      · rename_i hok
        rw [if_pos hok, List.getElem?_take_of_lt]
        rw [List.length_take] at hk
        omega
      · exact absurd hk (Nat.not_lt_zero k)
  | fill rest i =>
    obtain ⟨path, hopen, hlisted, hcount, hrest⟩ := h
    cases rest with
    | nil =>
      cases hstep
      have hall : s.sRoomCount = i := hcount
      exact Or.inl ⟨path, hopen, by rw [hall]; exact hlisted⟩
    | cons room rest =>
      cases hstep
      refine ⟨path, ⟨hopen.files, hopen.handle, hopen.named⟩,
        ⟨hlisted.objects, hlisted.seeded, hlisted.count, hlisted.all, ?_⟩, ?_, ?_⟩
      · intro j hj
        show Function.update s.sRoomPtrs i (some room) j = _
        by_cases hji : j = i
        · have hfirst := hrest 0 (Nat.zero_lt_succ _)
          rw [hji, Function.update_self, ← Nat.add_zero i, ← hfirst]
          rfl
        · rw [Function.update_of_ne hji]
          exact hlisted.slots j (by omega)
      · show s.sRoomCount = _
        rw [hcount, List.length_cons]
        omega
      · intro k hk
        have hnext := hrest (k + 1) (Nat.succ_lt_succ hk)
        rw [List.getElem?_cons_succ] at hnext
        rw [hnext]
        congr 1
        omega

/-! ## §5. So do the threads behind it. -/

/-- A slot of the registry that is used. -/
theorem use_cases {s s' : Server} {u : RoomUse} (h : s.use u = some s') :
    ∃ room path, u.slot < s.sRoomCount ∧ s.sRoomPtrs u.slot = some room ∧ s.sDb = some path
      ∧ (room.id ∈ (s.disk path).rooms.map RoomRow.id
          ∧ s' = s.onFile path { s.disk path with db := u.effect room (s.disk path).db }
        ∨ room.id ∉ (s.disk path).rooms.map RoomRow.id ∧ s' = s) := by
  unfold Server.use at h
  by_cases hi : u.slot < s.sRoomCount
  · rw [if_pos hi] at h
    cases hroom : s.sRoomPtrs u.slot with
    | none =>
      rw [hroom] at h
      cases h
    | some room =>
      cases hdb : s.sDb with
      | none =>
        rw [hroom, hdb] at h
        cases h
      | some path =>
        rw [hroom, hdb] at h
        dsimp only at h
        refine ⟨room, path, hi, rfl, rfl, ?_⟩
        by_cases hkey : room.id ∈ (s.disk path).rooms.map RoomRow.id
        · rw [if_pos hkey] at h
          exact Or.inl ⟨hkey, (Option.some.inj h).symm⟩
        · rw [if_neg hkey] at h
          exact Or.inr ⟨hkey, (Option.some.inj h).symm⟩
  · rw [if_neg hi] at h
    cases h

/-- Only the tables of messages and presence change. -/
structure SameRooms (s s' : Server) : Prop where
  rooms : ∀ path, (s'.disk path).rooms = (s.disk path).rooms
  objects : ∀ path, (s'.disk path).objects = (s.disk path).objects
  state : s'.state = s.state
  handle : s'.sDb = s.sDb
  count : s'.sRoomCount = s.sRoomCount
  ptrs : s'.sRoomPtrs = s.sRoomPtrs
  flawless : s'.flawless = s.flawless

theorem use_sameRooms {s s' : Server} {u : RoomUse} (h : s.use u = some s') : SameRooms s s' := by
  obtain ⟨room, path, -, -, -, ⟨-, rfl⟩ | ⟨-, rfl⟩⟩ := use_cases h
  · refine ⟨fun p => ?_, fun p => ?_, rfl, rfl, rfl, rfl, rfl⟩
    · show (Function.update s.disk path _ p).rooms = _
      by_cases hp : p = path
      · rw [hp, Function.update_self]
      · rw [Function.update_of_ne hp]
    · show (Function.update s.disk path _ p).objects = _
      by_cases hp : p = path
      · rw [hp, Function.update_self]
      · rw [Function.update_of_ne hp]
  · exact ⟨fun _ => rfl, fun _ => rfl, rfl, rfl, rfl, rfl, rfl⟩

theorem use_files {s s' : Server} {u : RoomUse} (hs : s.Files) (h : s.use u = some s') : s'.Files := by
  obtain ⟨room, path, -, -, -, ⟨hkey, rfl⟩ | ⟨-, rfl⟩⟩ := use_cases h
  · apply hs.onFile
    cases u with
    | insert i user body now id => exact (hs path).insert hkey
    | presenceSet i user now => exact (hs path).presenceSet hkey
    | presenceClear i user => exact (hs path).presenceClear _ _
  · exact hs

theorem Ready.use {s s' : Server} {u : RoomUse} (h : s.Ready) (hstep : s.use u = some s') : s'.Ready := by
  have hsame := use_sameRooms hstep
  have hfiles := use_files h.files hstep
  rcases h with ⟨path, hopen, hlisted⟩ | ⟨-, hdb, hcount, hfl⟩
  · refine Or.inl ⟨path, ⟨hfiles, ?_, ?_⟩, ⟨?_, ?_, ?_, ?_, ?_⟩⟩
    · rw [hsame.handle]
      exact hopen.handle
    · rw [hsame.state]
      exact hopen.named
    · rw [hsame.objects]
      exact hlisted.objects
    · unfold Seeded
      rw [hsame.flawless, hsame.rooms]
      exact hlisted.seeded
    · rw [hsame.count, hsame.rooms]
      exact hlisted.count
    · rw [hsame.flawless, hsame.count, hsame.rooms]
      exact hlisted.all
    · rw [hsame.count, hsame.ptrs, hsame.rooms]
      exact hlisted.slots
  · exact Or.inr ⟨hfiles, by rw [hsame.handle]; exact hdb, by rw [hsame.count]; exact hcount,
      by rw [hsame.flawless]; exact hfl⟩

end Server

/-- **What a caller may rely on.** -/
theorem service_rule : Rule service Server.Before Server.Mid Server.Ready where
  bootBefore _ b h := h.files.boot b
  bootMid _ _ b h := h.files.boot b
  bootReady _ b h := h.files.boot b
  start _ h := h
  step _ _ _ _ _ h hstep := h.step hstep
  finish _ _ _ _ h hstep := h.step hstep
  use _ _ _ h hstep := h.use hstep

/-- Rooms and messages of a file are only added to. -/
structure StoreFile.Grows (f f' : StoreFile) : Prop where
  rooms : f.rooms <+: f'.rooms
  messages : f.db.messages <+: f'.db.messages

theorem StoreFile.Grows.refl (f : StoreFile) : f.Grows f := ⟨List.prefix_refl _, List.prefix_refl _⟩

def FilesGrow (s t : Server) : Prop := ∀ path, (s.disk path).Grows (t.disk path)

theorem filesGrow_onFile {s : Server} {path : List UInt8} {f : StoreFile} (hf : (s.disk path).Grows f) :
    FilesGrow s (s.onFile path f) := by
  intro p
  show (s.disk p).Grows (Function.update s.disk path f p)
  by_cases hp : p = path
  · rw [hp, Function.update_self]
    exact hf
  · rw [Function.update_of_ne hp]
    exact .refl _

theorem initStep_grows {s s' : Server} {pc : InitPc} {out : Outcome} {next : Option InitPc}
    (h : s.initStep pc out = some (s', next)) : FilesGrow s s' := by
  have hrefl : FilesGrow s s := fun _ => .refl _
  unfold Server.initStep at h
  split at h
  · split at h <;> cases h <;> exact hrefl
  · split at h
    · cases h
      exact hrefl
    · split at h <;> cases h <;> exact hrefl
  · cases h
    exact hrefl
  · split at h
    · -- a CREATE
      cases h
      refine filesGrow_onFile ⟨?_, ?_⟩
      · rw [(exec_rooms _ _).1]
      · rw [(exec_rooms _ _).2]
    · cases h
      exact hrefl
  · split at h <;> cases h <;> exact hrefl
  · cases h
    exact hrefl
  · split at h
    · -- a seed room
      cases h
      refine filesGrow_onFile ⟨(insertRoom_grows _ _).1, ?_⟩
      rw [(insertRoom_grows _ _).2.1]
    · cases h
      exact hrefl
  · cases h
    exact hrefl
  · cases h
    exact hrefl
  · cases h
    exact hrefl

theorem effect_messages (u : RoomUse) (room : ChatRoom) (db : ChatDb) :
    db.messages <+: (u.effect room db).messages := by
  cases u with
  | insert i user body now id =>
    unfold RoomUse.effect
    dsimp only
    split
    · exact List.prefix_append _ _
    · exact List.prefix_refl _
  | presenceSet i user now =>
    show _ <+: (chatDbPresenceSet db room.id user now).messages
    rw [(presenceSet_messages db room.id user now).1]
  | presenceClear i user => exact List.prefix_refl _

theorem use_grows {s s' : Server} {u : RoomUse} (h : s.use u = some s') : FilesGrow s s' := by
  obtain ⟨room, path, -, -, -, ⟨-, rfl⟩ | ⟨-, rfl⟩⟩ := Server.use_cases h
  · exact filesGrow_onFile ⟨List.prefix_refl _, effect_messages u room _⟩
  · exact fun _ => .refl _

theorem files_along : Along service FilesGrow where
  refl _ _ := .refl _
  trans _ _ _ hst htu path :=
    ⟨(hst path).rooms.trans (htu path).rooms, (hst path).messages.trans (htu path).messages⟩
  boot _ _ _ := .refl _
  step _ _ _ _ _ h := initStep_grows h
  use _ _ _ h := use_grows h

/-! ## §6. Every run. -/

/-- The lives of the server, from any files that are in order. -/
def storeSystem : TransitionSystem (Process Server InitPc)
    (Once.Act Outcome RoomUse (Option (List UInt8))) :=
  Once.system service Server.Before

namespace Server

variable {s : Server}

/-- The slots below the count are the first rooms of the file. -/
theorem Listed.registry {path : List UInt8} (h : s.Listed path s.sRoomCount) :
    s.registry = (chatDbListRooms (s.disk path).rooms chatMaxRooms).take s.sRoomCount := by
  have hfill : ∀ n, n ≤ s.sRoomCount → (List.range n).filterMap s.sRoomPtrs
      = (chatDbListRooms (s.disk path).rooms chatMaxRooms).take n := by
    intro n hn
    induction n with
    | zero => rfl
    | succ n ih =>
      have hlt : n < (chatDbListRooms (s.disk path).rooms chatMaxRooms).length :=
        Nat.lt_of_lt_of_le hn h.count
      have hslot : s.sRoomPtrs n
          = some (chatDbListRooms (s.disk path).rooms chatMaxRooms)[n] := by
        rw [h.slots n hn, List.getElem?_eq_getElem hlt]
      rw [List.range_succ, List.filterMap_append, ih (by omega), List.take_succ_eq_append_getElem hlt,
        List.filterMap_cons_some hslot, List.filterMap_nil]
  exact hfill _ (le_refl _)

/-- What the rooms of a file make when they are listed. -/
theorem Listed.registry_ok {path : List UInt8} (hfile : (s.disk path).Ok)
    (h : s.Listed path s.sRoomCount) :
    (∃ reg : RoomRegistry, reg.rooms = s.registry)
      ∧ ∀ room ∈ s.registry, room.id ∈ (s.disk path).rooms.map RoomRow.id := by
  have heq : s.registry = (((s.disk path).rooms.take chatMaxRooms).take s.sRoomCount).map RoomRow.handle := by
    rw [h.registry, listRooms_eq hfile, ← List.map_take]
  have hids : s.registry.map ChatRoom.id
      = (((s.disk path).rooms.take chatMaxRooms).take s.sRoomCount).map RoomRow.id := by
    rw [heq, List.map_map]
    rfl
  have hsub : (((s.disk path).rooms.take chatMaxRooms).take s.sRoomCount).Sublist (s.disk path).rooms :=
    (List.take_sublist _ _).trans (List.take_sublist _ _)
  have hrow : ∀ room ∈ s.registry, ∃ r ∈ (s.disk path).rooms, r.id = room.id := by
    intro room hroom
    rw [heq] at hroom
    obtain ⟨r, hr, rfl⟩ := List.mem_map.mp hroom
    exact ⟨r, hsub.subset hr, rfl⟩
  refine ⟨⟨⟨s.registry, ?_, ?_, ?_⟩, rfl⟩, ?_⟩
  · rw [heq, List.length_map, List.length_take, List.length_take]
    omega
  · rw [hids]
    have hasc : (((s.disk path).rooms.take chatMaxRooms).take s.sRoomCount).Pairwise
        (fun a b => a.id < b.id) := ascending_sublist hfile.ascending hsub
    exact List.pairwise_map.mpr (hasc.imp fun hlt => ne_of_lt hlt)
  · intro room hroom
    obtain ⟨r, hr, hid⟩ := hrow room hroom
    rw [← hid]
    exact hfile.isLong r hr
  · intro room hroom
    obtain ⟨r, hr, hid⟩ := hrow room hroom
    rw [← hid]
    exact List.mem_map_of_mem hr

/-- A slot shows the same room whenever the same file is listed. -/
theorem Listed.same_slot {t : Server} {path : List UInt8} (hs : s.Listed path s.sRoomCount)
    (ht : t.Listed path t.sRoomCount) (hsfile : (s.disk path).Ok) (htfile : (t.disk path).Ok)
    (hgrow : (s.disk path).rooms <+: (t.disk path).rooms) {i : Nat} (hi : i < s.sRoomCount)
    (hi' : i < t.sRoomCount) : s.sRoomPtrs i = t.sRoomPtrs i := by
  obtain ⟨more, hmore⟩ := listRooms_grow hsfile htfile hgrow chatMaxRooms
  rw [hs.slots i hi, ht.slots i hi', ← hmore,
    List.getElem?_append_left (Nat.lt_of_lt_of_le hi hs.count)]

end Server

/-- Steps of one life. -/
def SameLife (_ : Process Server InitPc) (act : Once.Act Outcome RoomUse (Option (List UInt8)))
    (_ : Process Server InitPc) : Prop :=
  ∀ state, act ≠ .boot state

/-- Behind the initialisation the registry does not change. -/
theorem registry_fixed {s t : Process Server InitPc} (hs : s.control = .done)
    (ht : (storeSystem.startingAt s).ReachableVia SameLife t) :
    t.shared.registry = s.shared.registry := by
  have hinv : t.control = .done ∧ t.shared.sRoomCount = s.shared.sRoomCount
      ∧ t.shared.sRoomPtrs = s.shared.sRoomPtrs := by
    refine TransitionSystem.ReachableVia.invariant
      (P := fun t : Process Server InitPc => t.control = .done
        ∧ t.shared.sRoomCount = s.shared.sRoomCount ∧ t.shared.sRoomPtrs = s.shared.sRoomPtrs) ?_ ?_ ht
    · intro u hu
      rw [show u = s from hu]
      exact ⟨hs, rfl, rfl⟩
    · rintro u act u' ⟨hdone, hcount, hptrs⟩ hstep hlife
      have hstep : u.step service act = some u' := hstep
      cases act with
      | boot state => exact absurd rfl (hlife state)
      | call x =>
        obtain ⟨-, heq⟩ := Option.ite_none_right_eq_some.mp hstep
        cases heq
        exact ⟨hdone, hcount, hptrs⟩
      | enter x =>
        have hown := (Option.ite_none_right_eq_some.mp hstep).2
        unfold Process.enter at hown
        rw [hdone] at hown
        cases hown
        exact ⟨rfl, hcount, hptrs⟩
      | run out =>
        have hown : u.runStep service out = some u' := hstep
        unfold Process.runStep at hown
        rw [hdone] at hown
        cases hown
      | use x op =>
        obtain ⟨-, heq⟩ := Option.ite_none_right_eq_some.mp hstep
        obtain ⟨sh, hown, rfl⟩ := Option.map_eq_some_iff.mp heq
        have hsame : Server.SameRooms u.shared sh := Server.use_sameRooms hown
        exact ⟨hdone, hsame.count.trans hcount, hsame.ptrs.trans hptrs⟩
      | leave x =>
        obtain ⟨-, heq⟩ := Option.ite_none_right_eq_some.mp hstep
        cases heq
        exact ⟨hdone, hcount, hptrs⟩
  unfold Server.registry
  rw [hinv.2.1, hinv.2.2]

/-- A machine without a database. -/
def bareServer : Server where
  disk _ := ⟨[], [], ⟨[], 0, []⟩⟩
  state := none
  sDb := none
  sRoomCount := 0
  sRoomPtrs _ := none
  flawless := true

theorem bareServer_before : bareServer.Before where
  files _ := ⟨List.Pairwise.nil, List.nodup_nil, nofun,
    ⟨List.Pairwise.nil, nofun, nofun, le_refl _, show (0 : Int) < longMax by decide⟩, nofun, nofun⟩
  handle := rfl
  count := rfl

/-- The first life of a server: its first INSERT fails. -/
def firstLife : List (Once.Act Outcome RoomUse (Option (List UInt8))) :=
  [.call 0, .enter 0] ++ List.replicate 10 (.run ⟨true, 8⟩) ++ [.run ⟨false, 8⟩]
    ++ List.replicate 7 (.run ⟨true, 8⟩)

/-- It is killed, a process is killed in the middle of its schema, and the next one gets through. -/
def laterLives : List (Once.Act Outcome RoomUse (Option (List UInt8))) :=
  [.use 0 (.insert 1 [97] [98] 7 1), .boot none, .call 5, .enter 5]
    ++ List.replicate 4 (.run ⟨true, 8⟩) ++ [.boot none, .call 3, .enter 3]
    ++ List.replicate 19 (.run ⟨true, 8⟩)

end NetServer.Chat
