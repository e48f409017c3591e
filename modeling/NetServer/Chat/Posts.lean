/-
  NetServer.Chat.Posts — `chat_room_post` called by any number of threads.

  In `NetServer.Chat.Service` the insertion of a row is one operation that
  gives the id.  Here it is what the source does: `chat_db_insert_message`
  takes the storage lock, prepares the statement, steps it, asks the shared
  SQLite connection for its last rowid and releases the lock.  The rowid
  belongs to the connection, not to the call, so every other insertion, also
  one into `presence`, overwrites it.

  Each call has a number; `added` and `wrote` are not in the source: the ids
  of the rows that the call's own statement has inserted, and the descriptors
  it has written to.

    • `sanitizeUserLoop_eq`, `sanitizeTextLoop_eq` — the two copy loops;
    • `posts_atomic` — a call that returns an id has inserted exactly that row,
      cleaned; no two calls return one id; a call that returns -1 has left no
      trace;
    • `run_refines` — seen from outside, a call is the program `postStep`.
-/
import NetServer.Chat.Subscribers

namespace NetServer.Chat

open NetServer.Lib

/-! ## §1. The copy loops. -/

/-- The loop of `sanitize_user` with `room` bytes left in the buffer. -/
def sanitizeUserLoop : List UInt8 → Nat → List UInt8
  | [], _ => []
  | _ :: _, 0 => []
  | ch :: src, room + 1 =>
      if ch = 0 then []
      else if isUserByte ch then ch :: sanitizeUserLoop src room
      else sanitizeUserLoop src (room + 1)

/-- The loop of `sanitize_text` with `room` bytes left in the buffer. -/
def sanitizeTextLoop : List UInt8 → Nat → List UInt8
  | [], _ => []
  | _ :: _, 0 => []
  | ch :: src, room + 1 =>
      if ch = 0 then []
      else (if isPrintable ch then ch else 63) :: sanitizeTextLoop src room

theorem sanitizeUserLoop_eq (src : List UInt8) (room : Nat) :
    sanitizeUserLoop src room = ((cString src).filter isUserByte).take room := by
  induction src generalizing room with
  | nil => rw [sanitizeUserLoop]; exact List.take_nil.symm
  | cons ch src ih =>
    cases room with
    | zero => rw [List.take_zero, sanitizeUserLoop]
    | succ room =>
      rw [sanitizeUserLoop, cString_cons]
      by_cases hzero : ch = 0
      · rw [if_pos hzero, if_pos hzero]
        exact List.take_nil.symm
      · rw [if_neg hzero, if_neg hzero, List.filter_cons]
        split
        · rw [List.take_succ_cons, ih]
        · rw [ih]

theorem sanitizeTextLoop_eq (src : List UInt8) (room : Nat) :
    sanitizeTextLoop src room
      = ((cString src).map fun ch => if isPrintable ch then ch else 63).take room := by
  induction src generalizing room with
  | nil => rw [sanitizeTextLoop]; exact List.take_nil.symm
  | cons ch src ih =>
    cases room with
    | zero => rw [List.take_zero, sanitizeTextLoop]
    | succ room =>
      rw [sanitizeTextLoop, cString_cons]
      by_cases hzero : ch = 0
      · rw [if_pos hzero, if_pos hzero]
        exact List.take_nil.symm
      · rw [if_neg hzero, if_neg hzero, List.map_cons, List.take_succ_cons, ih]

/-! ## §2. A call. -/

/-- Where a call of `chat_room_post` is. -/
inductive CallPc where
  /-- Not made yet. -/
  | idle
  /-- `chat_db_insert_message`: before the storage lock. -/
  | insertLock (user body : List UInt8)
  /-- Before `sqlite3_prepare_v2`. -/
  | prepare (user body : List UInt8)
  /-- Before `sqlite3_step`. -/
  | step (user body : List UInt8)
  /-- Before `sqlite3_last_insert_rowid`. -/
  | readBack
  /-- Before the storage lock is released, with the value to return. -/
  | insertUnlock (id : Int)
  /-- Before the room's lock. -/
  | lock (id : Int)
  /-- The room's lock is held and these descriptors are still to be written. -/
  | write (id : Int) (rest : List Nat)
  | returned (id : Int)
  deriving Repr, DecidableEq

/-- A call: its arguments, and where it is. -/
structure PostCall where
  roomId : Int
  user : List UInt8
  body : List UInt8
  pc : CallPc
  added : List Int
  wrote : List Nat
  deriving Repr, DecidableEq

/-- `chat_room_post` up to its first lock. -/
def chatRoomPost (roomId : Int) (user body : List UInt8) : PostCall :=
  let cleanUser := sanitizeUserLoop user (chatUserMax - 1)
  let cleanBody := sanitizeTextLoop body (chatBodyMax - 1)
  { roomId := roomId, user := user, body := body, added := [], wrote := []
    pc :=
      if cleanUser = [] then .returned (-1)
      else if cleanBody = [] then .returned (-1)
      else .insertLock cleanUser cleanBody }

/-- What the calls share: the tables, the connection's last rowid, the storage
lock, and the rooms' locks and subscriber lists. -/
structure PostSys where
  db : ChatDb
  now : Int
  lastRowid : Int
  dbLock : Option Nat
  roomLock : Int → Option Nat
  subFds : Int → List Nat
  calls : Nat → PostCall

/-- What SQLite does when a call runs. -/
inductive CallChoice where
  | go
  /-- `sqlite3_prepare_v2` succeeds, or fails (also when the database is not
  open). -/
  | prepared (ok : Bool)
  /-- `sqlite3_step` gives `SQLITE_DONE` for a row with this id, or fails. -/
  | stepped (id : Option Int)
  deriving Repr, DecidableEq

/-- The scheduler's and the other threads' actions. -/
inductive PostAct where
  /-- A thread calls `chat_room_post`. -/
  | call (x : Nat) (roomId : Int) (user body : List UInt8)
  | run (x : Nat) (choice : CallChoice)
  /-- `chat_room_presence_set`; the connection's rowid is `rowid` afterwards. -/
  | presenceSet (roomId : Int) (user : List UInt8) (rowid : Int)
  | presenceClear (roomId : Int) (user : List UInt8)
  | subscribe (roomId : Int) (fd : Nat)
  | unsubscribe (roomId : Int) (fd : Nat)
  | tick (secs : Nat)
  deriving Repr, DecidableEq

namespace PostSys

def setCall (s : PostSys) (x : Nat) (c : PostCall) : PostSys :=
  { s with calls := Function.update s.calls x c }

/-- Go on at `pc`. -/
def goto (s : PostSys) (x : Nat) (pc : CallPc) : PostSys :=
  s.setCall x { s.calls x with pc := pc }

/-- One step of call `x`; `none` when it has to wait for a lock, or when SQLite
would not give that id. -/
def runCall (s : PostSys) (x : Nat) (choice : CallChoice) : Option PostSys :=
  let c := s.calls x
  match c.pc, choice with
  | .insertLock user body, .go =>
      if s.dbLock = none then some ({ s with dbLock := some x }.goto x (.prepare user body)) else none
  | .prepare user body, .prepared true => some (s.goto x (.step user body))
  | .prepare _ _, .prepared false => some (s.goto x (.insertUnlock (-1)))
  | .step user body, .stepped (some id) =>
      if s.db.MayAssign id then
        some ({ s with
          db := chatDbInsertMessage s.db c.roomId user body s.now id, lastRowid := id }.setCall x
            { c with pc := .readBack, added := c.added ++ [id] })
      else none
  | .step _ _, .stepped none => some (s.goto x (.insertUnlock (-1)))
  | .readBack, .go => some (s.goto x (.insertUnlock s.lastRowid))
  | .insertUnlock id, .go =>
      some ({ s with dbLock := none }.goto x (if id < 0 then .returned (-1) else .lock id))
  | .lock id, .go =>
      if s.roomLock c.roomId = none then
        some ({ s with roomLock := Function.update s.roomLock c.roomId (some x) }.goto x
          (.write id (s.subFds c.roomId)))
      else none
  | .write id (fd :: rest), .go =>
      some (s.setCall x { c with pc := .write id rest, wrote := c.wrote ++ [fd] })
  | .write id [], .go =>
      some ({ s with roomLock := Function.update s.roomLock c.roomId none }.goto x (.returned id))
  | _, _ => none

def step (s : PostSys) : PostAct → Option PostSys
  | .call x roomId user body =>
      if (s.calls x).pc = .idle then some (s.setCall x (chatRoomPost roomId user body)) else none
  | .run x choice => s.runCall x choice
  | .presenceSet roomId user rowid =>
      if s.dbLock = none then
        some { s with db := chatRoomPresenceSet s.db roomId user s.now, lastRowid := rowid }
      else none
  | .presenceClear roomId user =>
      if s.dbLock = none then some { s with db := chatRoomPresenceClear s.db roomId user } else none
  | .subscribe roomId fd =>
      if s.roomLock roomId = none then
        some { s with subFds :=
          Function.update s.subFds roomId (chatRoomSubscribe (s.subFds roomId) fd) }
      else none
  | .unsubscribe roomId fd =>
      if s.roomLock roomId = none then
        some { s with subFds :=
          Function.update s.subFds roomId (chatRoomUnsubscribe (s.subFds roomId) fd) }
      else none
  | .tick secs => some { s with now := s.now + secs }

end PostSys

/-- A call that has not been made. -/
def callIdle : PostCall :=
  { roomId := 0, user := [], body := [], pc := .idle, added := [], wrote := [] }

/-- Nobody posts yet; the tables, the lists and the last rowid are as they may be. -/
def postStart (db : ChatDb) (now lastRowid : Int) (subFds : Int → List Nat) : PostSys :=
  { db := db, now := now, lastRowid := lastRowid, dbLock := none, roomLock := fun _ => none,
    subFds := subFds, calls := fun _ => callIdle }

/-- All runs on a database. -/
def postSystem (db : ChatDb) : TransitionSystem PostSys PostAct where
  init := fun s => ∃ now lastRowid subFds, s = postStart db now lastRowid subFds
  step := PostSys.step

/-! ## §3. What one step does. -/

/-- The cases of `runCall`. -/
inductive CallStep (s : PostSys) (x : Nat) : PostSys → Prop where
  | insertLock (user body : List UInt8) (hpc : (s.calls x).pc = .insertLock user body)
      (hfree : s.dbLock = none) :
      CallStep s x ({ s with dbLock := some x }.goto x (.prepare user body))
  | prepared (user body : List UInt8) (hpc : (s.calls x).pc = .prepare user body) :
      CallStep s x (s.goto x (.step user body))
  /-- The statement is not prepared, or fails. -/
  | failed (user body : List UInt8)
      (hpc : (s.calls x).pc = .prepare user body ∨ (s.calls x).pc = .step user body) :
      CallStep s x (s.goto x (.insertUnlock (-1)))
  | inserted (user body : List UInt8) (id : Int) (hpc : (s.calls x).pc = .step user body)
      (hid : s.db.MayAssign id) :
      CallStep s x ({ s with
        db := chatDbInsertMessage s.db (s.calls x).roomId user body s.now id,
        lastRowid := id }.setCall x
          { s.calls x with pc := .readBack, added := (s.calls x).added ++ [id] })
  | readBack (hpc : (s.calls x).pc = .readBack) :
      CallStep s x (s.goto x (.insertUnlock s.lastRowid))
  | insertUnlock (id : Int) (hpc : (s.calls x).pc = .insertUnlock id) :
      CallStep s x
        ({ s with dbLock := none }.goto x (if id < 0 then .returned (-1) else .lock id))
  | lock (id : Int) (hpc : (s.calls x).pc = .lock id) (hfree : s.roomLock (s.calls x).roomId = none) :
      CallStep s x ({ s with
        roomLock := Function.update s.roomLock (s.calls x).roomId (some x) }.goto x
          (.write id (s.subFds (s.calls x).roomId)))
  | write (id : Int) (fd : Nat) (rest : List Nat) (hpc : (s.calls x).pc = .write id (fd :: rest)) :
      CallStep s x
        (s.setCall x { s.calls x with pc := .write id rest, wrote := (s.calls x).wrote ++ [fd] })
  | unlock (id : Int) (hpc : (s.calls x).pc = .write id []) :
      CallStep s x ({ s with
        roomLock := Function.update s.roomLock (s.calls x).roomId none }.goto x (.returned id))

theorem runCall_step {s s' : PostSys} {x : Nat} {choice : CallChoice}
    (h : s.runCall x choice = some s') : CallStep s x s' := by
  unfold PostSys.runCall at h
  dsimp only at h
  split at h
  · rename_i user body hpc
    obtain ⟨hfree, heq⟩ := Option.ite_none_right_eq_some.mp h
    cases heq
    exact .insertLock user body hpc hfree
  · rename_i user body hpc
    cases h
    exact .prepared user body hpc
  · rename_i user body hpc
    cases h
    exact .failed user body (Or.inl hpc)
  · rename_i user body id hpc
    obtain ⟨hid, heq⟩ := Option.ite_none_right_eq_some.mp h
    cases heq
    exact .inserted user body id hpc hid
  · rename_i user body hpc
    cases h
    exact .failed user body (Or.inr hpc)
  · rename_i hpc
    cases h
    exact .readBack hpc
  · rename_i id hpc
    cases h
    exact .insertUnlock id hpc
  · rename_i id hpc
    obtain ⟨hfree, heq⟩ := Option.ite_none_right_eq_some.mp h
    cases heq
    exact .lock id hpc hfree
  · rename_i id fd rest hpc
    cases h
    exact .write id fd rest hpc
  · rename_i id hpc
    cases h
    exact .unlock id hpc
  · cases h

/-! ## §4. The invariant. -/

/-- The call is inside `chat_db_insert_message`'s critical section. -/
def CallPc.critical : CallPc → Bool
  | .prepare .. | .step .. | .readBack | .insertUnlock _ => true
  | _ => false

namespace PostCall

/-- The call has inserted row `id`, with its own room and its cleaned texts. -/
structure Inserted (c : PostCall) (db : ChatDb) (id : Int) : Prop where
  pos : 0 < id
  added : c.added = [id]
  row : ∃ m ∈ db.messages, m.id = id ∧ m.roomId = c.roomId
    ∧ m.user = sanitizeUserLoop c.user (chatUserMax - 1)
    ∧ m.body = sanitizeTextLoop c.body (chatBodyMax - 1)

/-- The call has neither inserted nor written anything. -/
structure Traceless (c : PostCall) : Prop where
  added : c.added = []
  wrote : c.wrote = []

/-- What a call has done, by where it is; `last` is the connection's rowid. -/
def Good (c : PostCall) (last : Int) (db : ChatDb) : Prop :=
  match c.pc with
  | .idle => c.Traceless
  | .insertLock user body | .prepare user body | .step user body =>
      c.Traceless ∧ user = sanitizeUserLoop c.user (chatUserMax - 1)
        ∧ body = sanitizeTextLoop c.body (chatBodyMax - 1)
  | .readBack => c.Inserted db last ∧ c.wrote = []
  | .insertUnlock id => id = -1 ∧ c.Traceless ∨ c.Inserted db id ∧ c.wrote = []
  | .lock id => c.Inserted db id ∧ c.wrote = []
  | .write id _ => c.Inserted db id
  | .returned id => id = -1 ∧ c.Traceless ∨ c.Inserted db id

theorem Inserted.mono {c : PostCall} {db db' : ChatDb} {id : Int} (h : c.Inserted db id)
    (hsub : db.messages ⊆ db'.messages) : c.Inserted db' id := by
  obtain ⟨m, hm, hrow⟩ := h.row
  exact ⟨h.pos, h.added, m, hsub hm, hrow⟩

/-- A call does not mind new rows, nor a new rowid outside its critical section. -/
theorem Good.mono {c : PostCall} {last last' : Int} {db db' : ChatDb} (h : c.Good last db)
    (hsub : db.messages ⊆ db'.messages) (hlast : c.pc.critical = true → last' = last) :
    c.Good last' db' := by
  unfold Good at h ⊢
  split
  · rename_i hpc
    rw [hpc] at h
    exact h
  · rename_i user body hpc
    rw [hpc] at h
    exact h
  · rename_i user body hpc
    rw [hpc] at h
    exact h
  · rename_i user body hpc
    rw [hpc] at h
    exact h
  · rename_i hpc
    rw [hpc] at h hlast
    rw [hlast rfl]
    exact ⟨h.1.mono hsub, h.2⟩
  · rename_i id hpc
    rw [hpc] at h
    exact h.imp_right fun h => ⟨h.1.mono hsub, h.2⟩
  · rename_i id hpc
    rw [hpc] at h
    exact ⟨h.1.mono hsub, h.2⟩
  · rename_i id rest hpc
    rw [hpc] at h
    exact h.mono hsub
  · rename_i id hpc
    rw [hpc] at h
    exact h.imp_right fun h => h.mono hsub

end PostCall

/-- **The invariant**: whoever is in the critical section has the storage lock;
every call is as far as it looks; no row has two calls, and every new row has
one. -/
structure PostSys.Inv (s : PostSys) (db0 : ChatDb) : Prop where
  wf : s.db.Wf
  locked : ∀ x, (s.calls x).pc.critical = true → s.dbLock = some x
  good : ∀ x, (s.calls x).Good s.lastRowid s.db
  distinct : ∀ x y id, id ∈ (s.calls x).added → id ∈ (s.calls y).added → x = y
  origin : ∀ m ∈ s.db.messages, m ∈ db0.messages ∨ ∃ x, m.id ∈ (s.calls x).added

namespace PostSys

theorem setCall_self (s : PostSys) (x : Nat) (c : PostCall) : (s.setCall x c).calls x = c :=
  Function.update_self ..

theorem setCall_of_ne (s : PostSys) {x y : Nat} (hy : y ≠ x) (c : PostCall) :
    (s.setCall x c).calls y = s.calls y :=
  Function.update_of_ne hy ..

variable {s s' : PostSys} {db0 : ChatDb} {x : Nat}

/-- A step that inserts nothing. -/
theorem Inv.of_same (hs : s.Inv db0) (hdb : s'.db.messages = s.db.messages ∧ s'.db.seq = s.db.seq)
    (hlast : ∀ y, (s.calls y).pc.critical = true → s'.lastRowid = s.lastRowid)
    (hcalls : ∀ y, y ≠ x → s'.calls y = s.calls y)
    (hlocked : ∀ y, y ≠ x → (s.calls y).pc.critical = true → s'.dbLock = some y)
    (hadded : (s'.calls x).added = (s.calls x).added)
    (hlockedx : (s'.calls x).pc.critical = true → s'.dbLock = some x)
    (hgood : (s'.calls x).Good s'.lastRowid s'.db) : s'.Inv db0 := by
  have hall : ∀ y, (s'.calls y).added = (s.calls y).added := by
    intro y
    by_cases hy : y = x
    · rw [hy, hadded]
    · rw [hcalls y hy]
  refine ⟨hs.wf.of_messages hdb.1 hdb.2, ?_, ?_, ?_, ?_⟩
  · intro y hcrit
    by_cases hy : y = x
    · rw [hy] at hcrit ⊢
      exact hlockedx hcrit
    · rw [hcalls y hy] at hcrit
      exact hlocked y hy hcrit
  · intro y
    by_cases hy : y = x
    · rw [hy]
      exact hgood
    · rw [hcalls y hy]
      exact (hs.good y).mono (by rw [hdb.1]; exact List.Subset.refl _) (hlast y)
  · intro y z id hy hz
    rw [hall] at hy hz
    exact hs.distinct y z id hy hz
  · intro m hm
    rw [hdb.1] at hm
    rcases hs.origin m hm with hold | ⟨y, hy⟩
    · exact Or.inl hold
    · exact Or.inr ⟨y, by rw [hall]; exact hy⟩

/-- A call that goes on without inserting. -/
theorem Inv.of_call (hs : s.Inv db0) {c : PostCall} (hcalls : s'.calls = Function.update s.calls x c)
    (hdb : s'.db = s.db) (hlast : s'.lastRowid = s.lastRowid)
    (hlocked : ∀ y, y ≠ x → (s.calls y).pc.critical = true → s'.dbLock = some y)
    (hadded : c.added = (s.calls x).added)
    (hlockedx : c.pc.critical = true → s'.dbLock = some x) (hgood : c.Good s.lastRowid s.db) :
    s'.Inv db0 := by
  have hx : s'.calls x = c := by rw [hcalls, Function.update_self]
  refine hs.of_same (x := x) (by rw [hdb]; exact ⟨rfl, rfl⟩) (fun _ _ => hlast) ?_ hlocked ?_ ?_ ?_
  · intro y hy
    rw [hcalls, Function.update_of_ne hy]
  · rw [hx, hadded]
  · rw [hx]
    exact hlockedx
  · rw [hx, hdb, hlast]
    exact hgood

/-- An id that a call has inserted is in the table. -/
theorem Inv.added_row (hs : s.Inv db0) (y : Nat) {id : Int} (h : id ∈ (s.calls y).added) :
    ∃ m ∈ s.db.messages, m.id = id := by
  have hgood := hs.good y
  have hrow : ∀ {id'}, (s.calls y).Inserted s.db id' → ∃ m ∈ s.db.messages, m.id = id := by
    intro id' hins
    obtain ⟨m, hm, hid, -⟩ := hins.row
    rw [hins.added] at h
    exact ⟨m, hm, hid.trans (List.mem_singleton.mp h).symm⟩
  have hbare : (s.calls y).Traceless → ∃ m ∈ s.db.messages, m.id = id := by
    intro hbare
    rw [hbare.added] at h
    exact absurd h List.not_mem_nil
  unfold PostCall.Good at hgood
  split at hgood
  · exact hbare hgood
  · exact hbare hgood.1
  · exact hbare hgood.1
  · exact hbare hgood.1
  · exact hrow hgood.1
  · exact hgood.elim (fun h => hbare h.2) fun h => hrow h.1
  · exact hrow hgood.1
  · exact hrow hgood
  · exact hgood.elim (fun h => hbare h.2) hrow

/-- The INSERT: SQLite gives an id above all others, so the row is the call's own. -/
theorem Inv.insert (hs : s.Inv db0) {user body : List UInt8} {id : Int}
    (hpc : (s.calls x).pc = .step user body) (hid : s.db.MayAssign id) :
    (({ s with
        db := chatDbInsertMessage s.db (s.calls x).roomId user body s.now id,
        lastRowid := id } : PostSys).setCall x
          { s.calls x with pc := .readBack, added := (s.calls x).added ++ [id] }).Inv db0 := by
  have hgood := hs.good x
  unfold PostCall.Good at hgood
  rw [hpc] at hgood
  obtain ⟨hbare, huser, hbody⟩ := hgood
  have hadded : (s.calls x).added ++ [id] = [id] := by rw [hbare.added, List.nil_append]
  have hlock : s.dbLock = some x := hs.locked x (by rw [hpc]; rfl)
  have hnonneg := hs.wf.seq_nonneg
  -- ids given before are at most the counter
  have hold : ∀ y id', id' ∈ (s.calls y).added → id' < id := by
    intro y id' hy
    obtain ⟨m, hm, hmid⟩ := hs.added_row y hy
    have := hs.wf.le_seq m hm
    have := hid.1
    omega
  refine ⟨insertMessage_wf hs.wf hid, ?_, ?_, ?_, ?_⟩
  · intro y hcrit
    by_cases hy : y = x
    · rw [hy]
      exact hlock
    · rw [setCall_of_ne _ hy] at hcrit
      exact hs.locked y hcrit
  · intro y
    by_cases hy : y = x
    · rw [hy, setCall_self]
      show PostCall.Inserted _ _ id ∧ _
      refine ⟨⟨by have := hid.1; omega, hadded, ?_⟩, hbare.wrote⟩
      exact ⟨_, List.mem_append_right _ List.mem_cons_self, rfl, rfl, huser, hbody⟩
    · rw [setCall_of_ne _ hy]
      refine (hs.good y).mono (List.subset_append_left _ _) fun hcrit => ?_
      exact absurd (Option.some.inj ((hs.locked y hcrit).symm.trans hlock)) hy
  · intro y z id' hy hz
    by_cases hyx : y = x
    · by_cases hzx : z = x
      · rw [hyx, hzx]
      · rw [hyx, setCall_self] at hy
        rw [setCall_of_ne _ hzx] at hz
        have hy : id' ∈ (s.calls x).added ++ [id] := hy
        rw [hadded] at hy
        exact absurd (List.mem_singleton.mp hy) (hold z id' hz).ne
    · rw [setCall_of_ne _ hyx] at hy
      by_cases hzx : z = x
      · rw [hzx, setCall_self] at hz
        have hz : id' ∈ (s.calls x).added ++ [id] := hz
        rw [hadded] at hz
        exact absurd (List.mem_singleton.mp hz) (hold y id' hy).ne
      · rw [setCall_of_ne _ hzx] at hz
        exact hs.distinct y z id' hy hz
  · intro m hm
    rcases List.mem_append.mp hm with hm | hm
    · rcases hs.origin m hm with hdb0 | ⟨y, hy⟩
      · exact Or.inl hdb0
      · have hyx : y ≠ x := by
          rintro rfl
          rw [hbare.added] at hy
          exact absurd hy List.not_mem_nil
        exact Or.inr ⟨y, by rw [setCall_of_ne _ hyx]; exact hy⟩
    · rw [List.mem_singleton.mp hm]
      refine Or.inr ⟨x, ?_⟩
      rw [setCall_self]
      exact List.mem_append_right _ List.mem_cons_self

/-- Every step of a call keeps the invariant. -/
theorem Inv.call (hs : s.Inv db0) (h : CallStep s x s') : s'.Inv db0 := by
  have hgood := hs.good x
  unfold PostCall.Good at hgood
  cases h with
  | insertLock user body hpc hfree =>
    rw [hpc] at hgood
    refine hs.of_call rfl rfl rfl ?_ rfl (fun _ => rfl) ⟨⟨hgood.1.added, hgood.1.wrote⟩, hgood.2⟩
    intro y _ hcrit
    exact absurd (hfree.symm.trans (hs.locked y hcrit)) nofun
  | prepared user body hpc =>
    rw [hpc] at hgood
    refine hs.of_call rfl rfl rfl (fun y _ => hs.locked y) rfl
      (fun _ => hs.locked x (by rw [hpc]; rfl)) ?_
    exact ⟨⟨hgood.1.added, hgood.1.wrote⟩, hgood.2⟩
  | failed user body hpc =>
    have hcrit : (s.calls x).pc.critical = true := by
      rcases hpc with hpc | hpc <;> (rw [hpc]; rfl)
    have hbare : (s.calls x).Traceless := by
      rcases hpc with hpc | hpc
      · rw [hpc] at hgood
        exact hgood.1
      · rw [hpc] at hgood
        exact hgood.1
    refine hs.of_call rfl rfl rfl (fun y _ => hs.locked y) rfl (fun _ => hs.locked x hcrit) ?_
    exact Or.inl ⟨rfl, hbare.added, hbare.wrote⟩
  | inserted user body id hpc hid => exact hs.insert hpc hid
  | readBack hpc =>
    rw [hpc] at hgood
    obtain ⟨hins, hwrote⟩ := hgood
    refine hs.of_call rfl rfl rfl (fun y _ => hs.locked y) rfl
      (fun _ => hs.locked x (by rw [hpc]; rfl)) ?_
    exact Or.inr ⟨⟨hins.pos, hins.added, hins.row⟩, hwrote⟩
  | insertUnlock id hpc =>
    have hlock : s.dbLock = some x := hs.locked x (by rw [hpc]; rfl)
    rw [hpc] at hgood
    refine hs.of_call rfl rfl rfl ?_ rfl ?_ ?_
    · intro y hy hcrit
      exact absurd (Option.some.inj ((hs.locked y hcrit).symm.trans hlock)) hy
    · intro hcrit
      exact absurd hcrit (by split <;> exact nofun)
    · rcases hgood with ⟨rfl, hbare⟩ | ⟨hins, hwrote⟩
      · exact Or.inl ⟨rfl, hbare.added, hbare.wrote⟩
      · rw [if_neg (by have := hins.pos; omega)]
        exact ⟨⟨hins.pos, hins.added, hins.row⟩, hwrote⟩
  | lock id hpc hfree =>
    rw [hpc] at hgood
    refine hs.of_call rfl rfl rfl (fun y _ => hs.locked y) rfl nofun ?_
    exact ⟨hgood.1.pos, hgood.1.added, hgood.1.row⟩
  | write id fd rest hpc =>
    rw [hpc] at hgood
    refine hs.of_call rfl rfl rfl (fun y _ => hs.locked y) rfl nofun ?_
    exact ⟨hgood.pos, hgood.added, hgood.row⟩
  | unlock id hpc =>
    rw [hpc] at hgood
    refine hs.of_call rfl rfl rfl (fun y _ => hs.locked y) rfl nofun ?_
    exact Or.inr ⟨hgood.pos, hgood.added, hgood.row⟩

/-- A call that is made: `chat_room_post` up to its first lock. -/
theorem chatRoomPost_good (roomId : Int) (user body : List UInt8) (last : Int) (db : ChatDb) :
    (chatRoomPost roomId user body).Good last db ∧ (chatRoomPost roomId user body).added = []
      ∧ (chatRoomPost roomId user body).pc.critical = false := by
  unfold chatRoomPost
  dsimp only
  refine ⟨?_, rfl, ?_⟩
  · unfold PostCall.Good
    dsimp only
    split_ifs
    · exact Or.inl ⟨rfl, rfl, rfl⟩
    · exact Or.inl ⟨rfl, rfl, rfl⟩
    · exact ⟨⟨rfl, rfl⟩, rfl, rfl⟩
  · split_ifs <;> rfl

/-- **Every step keeps the invariant.** -/
theorem Inv.step (hs : s.Inv db0) {act : PostAct} (h : s.step act = some s') : s'.Inv db0 := by
  -- a step that leaves every call as it is
  have hquiet : ∀ {s1 : PostSys}, (s1.db.messages = s.db.messages ∧ s1.db.seq = s.db.seq) →
      (s.dbLock ≠ none → s1.lastRowid = s.lastRowid) → s1.calls = s.calls →
      s1.dbLock = s.dbLock → s1.Inv db0 := by
    intro s1 hdb hlast hcalls hlock
    have hlast' : ∀ y, (s.calls y).pc.critical = true → s1.lastRowid = s.lastRowid := by
      intro y hcrit
      exact hlast (by rw [hs.locked y hcrit]; exact nofun)
    refine hs.of_same (x := 0) hdb hlast' (fun y _ => by rw [hcalls]) ?_ (by rw [hcalls]) ?_ ?_
    · intro y _ hcrit
      rw [hlock]
      exact hs.locked y hcrit
    · rw [hcalls, hlock]
      exact hs.locked 0
    · rw [hcalls]
      exact (hs.good 0).mono (by rw [hdb.1]; exact List.Subset.refl _) (hlast' 0)
  cases act with
  | call x roomId user body =>
    obtain ⟨hidle, heq⟩ := Option.ite_none_right_eq_some.mp h
    cases heq
    have hgood := hs.good x
    unfold PostCall.Good at hgood
    rw [hidle] at hgood
    obtain ⟨hpost, hadded, hcrit⟩ := chatRoomPost_good roomId user body s.lastRowid s.db
    refine hs.of_call rfl rfl rfl (fun y _ => hs.locked y) ?_ ?_ hpost
    · rw [hadded, hgood.added]
    · rw [hcrit]
      exact nofun
  | run x choice => exact hs.call (runCall_step h)
  | presenceSet roomId user rowid =>
    obtain ⟨hfree, heq⟩ := Option.ite_none_right_eq_some.mp h
    cases heq
    exact hquiet (presenceSet_keeps _ _ _ _) (fun hne => absurd hfree hne) rfl rfl
  | presenceClear roomId user =>
    obtain ⟨hfree, heq⟩ := Option.ite_none_right_eq_some.mp h
    cases heq
    exact hquiet (presenceClear_keeps _ _ _) (fun _ => rfl) rfl rfl
  | subscribe roomId fd =>
    obtain ⟨-, heq⟩ := Option.ite_none_right_eq_some.mp h
    cases heq
    exact hquiet ⟨rfl, rfl⟩ (fun _ => rfl) rfl rfl
  | unsubscribe roomId fd =>
    obtain ⟨-, heq⟩ := Option.ite_none_right_eq_some.mp h
    cases heq
    exact hquiet ⟨rfl, rfl⟩ (fun _ => rfl) rfl rfl
  | tick secs =>
    cases h
    exact hquiet ⟨rfl, rfl⟩ (fun _ => rfl) rfl rfl

end PostSys

theorem reachable_inv {db0 : ChatDb} (hdb : db0.Wf) {s : PostSys} (h : (postSystem db0).Reachable s) :
    s.Inv db0 := by
  refine TransitionSystem.ReachableVia.invariant (P := fun s => s.Inv db0) ?_ ?_ h
  · rintro s ⟨now, last, subFds, rfl⟩
    exact ⟨hdb, nofun, fun _ => ⟨rfl, rfl⟩, fun x y id hx => absurd hx List.not_mem_nil,
      fun m hm => Or.inl hm⟩
  · intro s act s' hs hstep _
    exact hs.step hstep

/-- Exactly one row has the id of a call that inserted one. -/
theorem PostSys.Inv.one_row {s : PostSys} {db0 : ChatDb} (hs : s.Inv db0) {c : PostCall} {id : Int}
    (hins : c.Inserted s.db id) :
    ∃ m, s.db.messages.filter (fun m => m.id = id) = [m] ∧ m.roomId = c.roomId
      ∧ m.user = ((cString c.user).filter isUserByte).take 31
      ∧ m.body = ((cString c.body).map fun b => if isPrintable b then b else 63).take 511 := by
  obtain ⟨m, hm, hid, hroom, huser, hbody⟩ := hins.row
  refine ⟨m, ?_, hroom, ?_, ?_⟩
  · rw [← hid]
    exact OrderedLog.filter_key_eq hs.wf.ascending hm
  · rw [huser, sanitizeUserLoop_eq]
    rfl
  · rw [hbody, sanitizeTextLoop_eq]
    rfl

/-- **Concurrent posts.**  In every reachable state: a call that returned an id
has inserted exactly the row with that id, in its room, with its user and body
cleaned and cut; no two calls return one id; a call that returned anything
else returned -1 and has inserted no row and written to no pipe; and every new
row was inserted by a call. -/
theorem posts_atomic {db0 : ChatDb} (hdb : db0.Wf) {s : PostSys} (h : (postSystem db0).Reachable s) :
    (∀ x id, (s.calls x).pc = .returned id → 0 < id →
      (s.calls x).added = [id]
        ∧ ∃ m, s.db.messages.filter (fun m => m.id = id) = [m] ∧ m.roomId = (s.calls x).roomId
          ∧ m.user = ((cString (s.calls x).user).filter isUserByte).take 31
          ∧ m.body = ((cString (s.calls x).body).map fun b =>
              if isPrintable b then b else 63).take 511)
    ∧ (∀ x y id, (s.calls x).pc = .returned id → (s.calls y).pc = .returned id → 0 < id → x = y)
    ∧ (∀ x id, (s.calls x).pc = .returned id → ¬ 0 < id →
        id = -1 ∧ (s.calls x).added = [] ∧ (s.calls x).wrote = [])
    ∧ ∀ m ∈ s.db.messages, m ∈ db0.messages ∨ ∃ x, m.id ∈ (s.calls x).added := by
  have hs := reachable_inv hdb h
  have hreturned : ∀ {x id}, (s.calls x).pc = .returned id →
      id = -1 ∧ (s.calls x).Traceless ∨ (s.calls x).Inserted s.db id := by
    intro x id hpc
    have hgood := hs.good x
    unfold PostCall.Good at hgood
    rw [hpc] at hgood
    exact hgood
  have hinserted : ∀ {x id}, (s.calls x).pc = .returned id → 0 < id →
      (s.calls x).Inserted s.db id := by
    intro x id hpc hpos
    rcases hreturned hpc with ⟨rfl, -⟩ | hins
    · exact absurd hpos (by decide)
    · exact hins
  refine ⟨?_, ?_, ?_, hs.origin⟩
  · intro x id hpc hpos
    have hins := hinserted hpc hpos
    exact ⟨hins.added, hs.one_row hins⟩
  · intro x y id hx hy hpos
    have hx := hinserted hx hpos
    have hy := hinserted hy hpos
    exact hs.distinct x y id (by rw [hx.added]; exact List.mem_cons_self)
      (by rw [hy.added]; exact List.mem_cons_self)
  · intro x id hpc hpos
    rcases hreturned hpc with ⟨hid, hbare⟩ | hins
    · exact ⟨hid, hbare.added, hbare.wrote⟩
    · exact absurd hins.pos hpos

/-- One post that is inserted, one whose user is empty after cleaning, and a
presence row in between. -/
def twoPostsActs : List PostAct :=
  [.call 0 1 (ascii "ann") (ascii "hi\t!"), .call 1 1 (ascii "??") (ascii "hi"), .run 0 .go,
    .run 0 (.prepared true), .run 0 (.stepped (some 1)), .run 0 .go, .run 0 .go,
    .presenceSet 1 (ascii "bob") 7, .run 0 .go, .run 0 .go]

theorem posts_atomic_two :
    ∃ s, (postSystem emptyDb).Reachable s ∧ (s.calls 0).pc = .returned 1
      ∧ (s.calls 1).pc = .returned (-1)
      ∧ (∃ m, s.db.messages.filter (fun m => m.id = 1) = [m] ∧ m.roomId = (s.calls 0).roomId)
      ∧ (s.calls 1).added = [] ∧ (s.calls 1).wrote = [] := by
  let check : PostSys → Bool := fun s =>
    decide ((s.calls 0).pc = .returned 1 ∧ (s.calls 1).pc = .returned (-1))
  have heval : ((postSystem emptyDb).run (postStart emptyDb 0 0 fun _ => []) twoPostsActs).any check
      = true := by
    decide +kernel
  have hstart : (postSystem emptyDb).Reachable (postStart emptyDb 0 0 fun _ => []) :=
    .init ⟨0, 0, _, rfl⟩
  obtain ⟨s, hrun, hcheck⟩ := TransitionSystem.exists_of_run check heval
  have hs := TransitionSystem.run_reachable _ _ _ hstart hrun
  obtain ⟨h0, h1⟩ := of_decide_eq_true hcheck
  obtain ⟨hok, -, hfail, -⟩ := posts_atomic emptyDb_wf hs
  obtain ⟨-, m, hm, hroom, -⟩ := hok 0 1 h0 (by decide)
  exact ⟨s, hs, h0, h1, ⟨m, hm, hroom⟩, (hfail 1 (-1) h1 (by decide)).2⟩

/-! ## §5. The program of `chat_room_post`. -/

/-- A call as the rest of the development sees it. -/
def PostCall.program (c : PostCall) (last : Int) : Option PostPc :=
  match c.pc with
  | .insertLock user body | .prepare user body | .step user body =>
      some (.insert c.roomId user body)
  | .readBack => some (.lock c.roomId last)
  | .insertUnlock id => if id < 0 then none else some (.lock c.roomId id)
  | .lock id => some (.lock c.roomId id)
  | .write id rest => some (.write c.roomId id rest)
  | .idle | .returned _ => none

def PostSys.shared (s : PostSys) : Shared :=
  { db := s.db, now := s.now, subFds := s.subFds, lock := s.roomLock, fdOwner := fun _ => none }

/-- What an operation of a post by `x` does to what all threads share. -/
def Op.onShared (sh : Shared) (x : Nat) (op : Op) : Shared :=
  { sh with
    db := op.onDb sh.db sh.now
    lock := match op with
      | .lock r => Function.update sh.lock r (some x)
      | .unlock r => Function.update sh.lock r none
      | _ => sh.lock }

/-- The rowid matters only to a call that is about to read it. -/
theorem PostCall.program_last {c : PostCall} {last last' : Int}
    (h : c.pc.critical = true → last' = last) : c.program last' = c.program last := by
  unfold program
  split
  case h_4 hpc =>
    rw [hpc] at h
    rw [h rfl]
  all_goals rfl

/-- What a step of call `x` is for the rest of the development. -/
def RefinesStep (s s' : PostSys) (x : Nat) : Prop :=
  (s'.calls x).program s'.lastRowid = (s.calls x).program s.lastRowid ∧ s'.shared = s.shared
    ∨ ∃ p p' choice op, (s.calls x).program s.lastRowid = some p
        ∧ postStep s.shared choice p = some (p', op)
        ∧ (s'.calls x).program s'.lastRowid = p' ∧ s'.shared = op.onShared s.shared x

/-- **The critical section is one operation**: every step of a call is a step of
`postStep` with its effect, or nothing that another thread could see; and no
other call changes. -/
theorem run_refines {s s' : PostSys} {db0 : ChatDb} {x : Nat} (hs : s.Inv db0) (h : CallStep s x s') :
    RefinesStep s s' x
      ∧ ∀ y, y ≠ x → (s'.calls y).program s'.lastRowid = (s.calls y).program s.lastRowid := by
  have hothers : ∀ {s1 : PostSys} {c : PostCall}, s1.calls = Function.update s.calls x c →
      (s1.lastRowid = s.lastRowid ∨ s.dbLock = some x) →
      ∀ y, y ≠ x → (s1.calls y).program s1.lastRowid = (s.calls y).program s.lastRowid := by
    intro s1 c hcalls hlast y hy
    rw [hcalls, Function.update_of_ne hy]
    refine PostCall.program_last fun hcrit => ?_
    rcases hlast with hlast | hlock
    · exact hlast
    · exact absurd (Option.some.inj ((hs.locked y hcrit).symm.trans hlock)) hy
  have hprogram : ∀ {pc}, (s.calls x).pc = pc →
      (s.calls x).program s.lastRowid = ({ s.calls x with pc := pc } : PostCall).program s.lastRowid := by
    intro pc hpc
    rw [← hpc]
  have hself : ∀ {s1 : PostSys} {c : PostCall}, s1.calls = Function.update s.calls x c →
      s1.calls x = c := by
    intro s1 c hcalls
    rw [hcalls, Function.update_self]
  cases h with
  | insertLock user body hpc hfree =>
    refine ⟨Or.inl ⟨?_, rfl⟩, hothers rfl (Or.inl rfl)⟩
    rw [hself rfl, hprogram hpc]
    rfl
  | prepared user body hpc =>
    refine ⟨Or.inl ⟨?_, rfl⟩, hothers rfl (Or.inl rfl)⟩
    rw [hself rfl, hprogram hpc]
    rfl
  | failed user body hpc =>
    refine ⟨Or.inr ⟨.insert (s.calls x).roomId user body, none, .inserted none, .skip, ?_, rfl, ?_, rfl⟩,
      hothers rfl (Or.inl rfl)⟩
    · rcases hpc with hpc | hpc
      · rw [hprogram hpc]
        rfl
      · rw [hprogram hpc]
        rfl
    · rw [hself rfl]
      rfl
  | inserted user body id hpc hid =>
    refine ⟨Or.inr ⟨.insert (s.calls x).roomId user body, some (.lock (s.calls x).roomId id),
      .inserted (some id), .insert (s.calls x).roomId user body id, ?_, rfl, ?_, rfl⟩,
      hothers rfl (Or.inr (hs.locked x (by rw [hpc]; rfl)))⟩
    · rw [hprogram hpc]
      rfl
    · rw [hself rfl]
      rfl
  | readBack hpc =>
    refine ⟨Or.inl ⟨?_, rfl⟩, hothers rfl (Or.inl rfl)⟩
    have hgood := hs.good x
    unfold PostCall.Good at hgood
    rw [hpc] at hgood
    have hpos := hgood.1.pos
    rw [hself rfl, hprogram hpc]
    show (if s.lastRowid < 0 then none else some _) = _
    rw [if_neg (by omega)]
    rfl
  | insertUnlock id hpc =>
    refine ⟨Or.inl ⟨?_, rfl⟩, hothers rfl (Or.inl rfl)⟩
    rw [hself rfl, hprogram hpc]
    show PostCall.program { s.calls x with pc := if id < 0 then _ else _ } _
      = if id < 0 then none else some _
    split <;> rfl
  | lock id hpc hfree =>
    refine ⟨Or.inr ⟨.lock (s.calls x).roomId id,
      some (.write (s.calls x).roomId id (s.subFds (s.calls x).roomId)), .go,
      .lock (s.calls x).roomId, ?_, rfl, ?_, rfl⟩, hothers rfl (Or.inl rfl)⟩
    · rw [hprogram hpc]
      rfl
    · rw [hself rfl]
      rfl
  | write id fd rest hpc =>
    refine ⟨Or.inr ⟨.write (s.calls x).roomId id (fd :: rest),
      some (.write (s.calls x).roomId id rest), .go, .write id fd, ?_, rfl, ?_, rfl⟩,
      hothers rfl (Or.inl rfl)⟩
    · rw [hprogram hpc]
      rfl
    · rw [hself rfl]
      rfl
  | unlock id hpc =>
    refine ⟨Or.inr ⟨.write (s.calls x).roomId id [], none, .go, .unlock (s.calls x).roomId, ?_, rfl,
      ?_, rfl⟩, hothers rfl (Or.inl rfl)⟩
    · rw [hprogram hpc]
      rfl
    · rw [hself rfl]
      rfl

end NetServer.Chat
