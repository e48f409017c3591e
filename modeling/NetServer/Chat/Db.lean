/-
  NetServer.Chat.Db — the storage layer `features/chat/chat_db.c`.

  Every function of the source runs one SQL statement under the one lock, so
  each is one atomic operation on the tables.  What SQLite does with the
  statement is assumed: a SELECT gives the rows that meet its condition in
  the order of its ORDER BY, cut to its LIMIT; an INSERT into `messages`
  takes an id above every id given before, or fails.

  Main results, for tables whose ids were given that way:
    • `messagesSince_eq`, `messagesBefore_newest`, `messagesBefore_eq`,
      `maxMessageId_eq` — the three queries as slices of the room's rows in
      commit order;
    • `insertMessage_wf` — the order is kept.
-/
import NetServer.Lib.CString
import NetServer.Lib.OrderedLog

namespace NetServer.Chat

open NetServer.Lib
open NetServer.Lib.OrderedLog

/-! ## §1. Records and tables. -/

/-- Room name buffer, the NUL included. -/
def chatNameMax : Nat := 32

/-- Username buffer, the NUL included. -/
def chatUserMax : Nat := 32

/-- Message body buffer, the NUL included. -/
def chatBodyMax : Nat := 512

/-- A message record (`chat_msg_t`). -/
structure ChatMsg where
  id : Int
  user : List UInt8
  ts : Int
  body : List UInt8
  deriving Repr, DecidableEq

/-- A row of the table `messages`. -/
structure MessageRow where
  id : Int
  roomId : Int
  user : List UInt8
  ts : Int
  body : List UInt8
  deriving Repr, DecidableEq

/-- A row of the table `presence`, keyed by room and user. -/
structure PresenceRow where
  roomId : Int
  user : List UInt8
  lastSeen : Int
  deriving Repr, DecidableEq

/-- The tables.  `messages` is in commit order; `seq` is the greatest message
id ever given (`sqlite_sequence`). -/
structure ChatDb where
  messages : List MessageRow
  seq : Int
  presence : List PresenceRow
  deriving Repr, DecidableEq

/-! ## §2. Messages. -/

/-- The id SQLite may give to the next row.  An AUTOINCREMENT key is above
every earlier one; the greatest 64-bit rowid is out of reach. -/
def ChatDb.MayAssign (db : ChatDb) (id : Int) : Prop := db.seq < id ∧ id < longMax

instance (db : ChatDb) (id : Int) : Decidable (db.MayAssign id) :=
  inferInstanceAs (Decidable (_ ∧ _))

/-- `chat_db_insert_message` when the INSERT succeeds with `id` at time `now`. -/
def chatDbInsertMessage (db : ChatDb) (roomId : Int) (user body : List UInt8) (now id : Int) :
    ChatDb :=
  { db with
    messages := db.messages ++ [{ id := id, roomId := roomId, user := user, ts := now, body := body }]
    seq := id }

/-- `row_to_msg`: the texts are cut to their buffers. -/
def rowToMsg (row : MessageRow) : ChatMsg :=
  { id := row.id
    user := (cString row.user).take (chatUserMax - 1)
    ts := row.ts
    body := (cString row.body).take (chatBodyMax - 1) }

/-- `chat_db_messages_since`. -/
def chatDbMessagesSince (db : ChatDb) (roomId afterId : Int) (limit max : Nat) : List ChatMsg :=
  let rows := db.messages.filter (fun m => m.roomId = roomId ∧ afterId < m.id)
  (((sortAsc MessageRow.id rows).take (min limit max)).take max).map rowToMsg

/-- `chat_db_messages_before`; a `before_id` of 0 or less asks for the newest
page. -/
def chatDbMessagesBefore (db : ChatDb) (roomId beforeId : Int) (limit max : Nat) : List ChatMsg :=
  let beforeId := if beforeId ≤ 0 then longMax else beforeId
  let rows := db.messages.filter (fun m => m.roomId = roomId ∧ m.id < beforeId)
  let newest := (sortDesc MessageRow.id rows).take (min limit max)
  ((sortAsc MessageRow.id newest).take max).map rowToMsg

/-- `chat_db_max_message_id`. -/
def chatDbMaxMessageId (db : ChatDb) (roomId : Int) : Int :=
  ((db.messages.filter (fun m => m.roomId = roomId)).map MessageRow.id).max?.getD 0

/-! ## §3. Presence. -/

/-- `chat_db_presence_set`: insert the row, or refresh it. -/
def chatDbPresenceSet (db : ChatDb) (roomId : Int) (user : List UInt8) (now : Int) : ChatDb :=
  if db.presence.any (fun p => p.roomId = roomId ∧ p.user = user) then
    { db with
      presence := db.presence.map fun p =>
        if p.roomId = roomId ∧ p.user = user then { p with lastSeen := now } else p }
  else
    { db with presence := db.presence ++ [{ roomId := roomId, user := user, lastSeen := now }] }

/-- `chat_db_presence_clear`. -/
def chatDbPresenceClear (db : ChatDb) (roomId : Int) (user : List UInt8) : ChatDb :=
  { db with presence := db.presence.filter (fun p => ¬ (p.roomId = roomId ∧ p.user = user)) }

/-- `chat_db_active_users` at time `now`. -/
def chatDbActiveUsers (db : ChatDb) (roomId withinSecs now : Int) (max : Nat) :
    List (List UInt8) :=
  let rows := db.presence.filter (fun p => p.roomId = roomId ∧ now - withinSecs ≤ p.lastSeen)
  ((rows.map PresenceRow.user).insertionSort (· ≤ ·)).take max
    |>.map fun u => (cString u).take (chatUserMax - 1)

/-! ## §4. The order of the ids. -/

/-- Ids increase in commit order and none is above the counter. -/
structure ChatDb.Wf (db : ChatDb) : Prop where
  ascending : Ascending MessageRow.id db.messages
  pos : ∀ m ∈ db.messages, 0 < m.id
  le_seq : ∀ m ∈ db.messages, m.id ≤ db.seq
  seq_nonneg : 0 ≤ db.seq
  seq_lt : db.seq < longMax

theorem insertMessage_wf {db : ChatDb} (h : db.Wf) {roomId now id : Int} {user body : List UInt8}
    (hid : db.MayAssign id) : (chatDbInsertMessage db roomId user body now id).Wf := by
  obtain ⟨hseq, hmax⟩ := hid
  have hnonneg := h.seq_nonneg
  refine ⟨?_, ?_, ?_, ?_, hmax⟩
  · apply ascending_concat h.ascending
    intro x hx
    exact lt_of_le_of_lt (h.le_seq x hx) hseq
  · intro m hm
    rcases List.mem_append.mp hm with hold | hnew
    · exact h.pos m hold
    · rw [List.mem_singleton.mp hnew]
      show 0 < id
      omega
  · intro m hm
    show m.id ≤ id
    rcases List.mem_append.mp hm with hold | hnew
    · have := h.le_seq m hold
      omega
    · rw [List.mem_singleton.mp hnew]
  · show 0 ≤ id
    omega

theorem presenceSet_messages (db : ChatDb) (roomId : Int) (user : List UInt8) (now : Int) :
    (chatDbPresenceSet db roomId user now).messages = db.messages
      ∧ (chatDbPresenceSet db roomId user now).seq = db.seq := by
  unfold chatDbPresenceSet
  split <;> exact ⟨rfl, rfl⟩

theorem ChatDb.Wf.of_messages {db db' : ChatDb} (h : db.Wf) (hmsg : db'.messages = db.messages)
    (hseq : db'.seq = db.seq) : db'.Wf :=
  ⟨by rw [hmsg]; exact h.ascending, by rw [hmsg]; exact h.pos, by rw [hmsg, hseq]; exact h.le_seq,
    by rw [hseq]; exact h.seq_nonneg, by rw [hseq]; exact h.seq_lt⟩

/-! ## §5. The queries on ordered tables. -/

/-- The rows of a room, in commit order. -/
def ChatDb.roomRows (db : ChatDb) (roomId : Int) : List MessageRow :=
  db.messages.filter (fun m => m.roomId = roomId)

theorem mem_roomRows {db : ChatDb} {roomId : Int} {m : MessageRow} :
    m ∈ db.roomRows roomId ↔ m ∈ db.messages ∧ m.roomId = roomId := by
  unfold ChatDb.roomRows
  rw [List.mem_filter, decide_eq_true_eq]

theorem roomRows_ascending {db : ChatDb} (h : db.Wf) (roomId : Int) :
    Ascending MessageRow.id (db.roomRows roomId) :=
  ascending_sublist h.ascending List.filter_sublist

theorem roomRows_insert (db : ChatDb) (roomId r now id : Int) (user body : List UInt8) :
    (chatDbInsertMessage db roomId user body now id).roomRows r
      = db.roomRows r ++ if roomId = r then [⟨id, roomId, user, now, body⟩] else [] := by
  unfold ChatDb.roomRows chatDbInsertMessage
  rw [List.filter_append]
  by_cases h : roomId = r
  · simp [h]
  · simp [h]

/-- The ids of a room's messages, in commit order. -/
def ChatDb.roomIds (db : ChatDb) (roomId : Int) : List Int := (db.roomRows roomId).map MessageRow.id

theorem mem_roomIds {db : ChatDb} {roomId id : Int} :
    id ∈ db.roomIds roomId ↔ ∃ m ∈ db.messages, m.roomId = roomId ∧ m.id = id := by
  unfold ChatDb.roomIds
  rw [List.mem_map]
  constructor
  · rintro ⟨m, hm, rfl⟩
    exact ⟨m, (mem_roomRows.mp hm).1, (mem_roomRows.mp hm).2, rfl⟩
  · rintro ⟨m, hm, hr, rfl⟩
    exact ⟨m, mem_roomRows.mpr ⟨hm, hr⟩, rfl⟩

theorem roomIds_pairwise {db : ChatDb} (h : db.Wf) (roomId : Int) :
    (db.roomIds roomId).Pairwise (· < ·) :=
  List.pairwise_map.mpr (roomRows_ascending h roomId)

theorem roomIds_insert (db : ChatDb) (roomId r now id : Int) (user body : List UInt8) :
    (chatDbInsertMessage db roomId user body now id).roomIds r
      = db.roomIds r ++ if roomId = r then [id] else [] := by
  unfold ChatDb.roomIds
  rw [roomRows_insert, List.map_append]
  split <;> rfl

theorem messagesSince_eq {db : ChatDb} (h : db.Wf) (roomId afterId : Int) (limit max : Nat) :
    chatDbMessagesSince db roomId afterId limit max
      = (((db.roomRows roomId).filter (fun m => afterId < m.id)).take (min limit max)).map
          rowToMsg := by
  have hrows : db.messages.filter (fun m => m.roomId = roomId ∧ afterId < m.id)
      = (db.roomRows roomId).filter (fun m => afterId < m.id) := by
    unfold ChatDb.roomRows
    rw [List.filter_filter]
    congr 1
    funext m
    by_cases h1 : m.roomId = roomId <;> by_cases h2 : afterId < m.id <;> simp [h1, h2]
  unfold chatDbMessagesSince
  simp only [hrows]
  rw [sortAsc_eq (ascending_sublist (roomRows_ascending h roomId) List.filter_sublist),
    List.take_take]
  congr 2
  omega

/-- The ids of a batch: the next ones above the cursor. -/
theorem messagesSince_ids {db : ChatDb} (h : db.Wf) (roomId afterId : Int) (limit max : Nat) :
    (chatDbMessagesSince db roomId afterId limit max).map ChatMsg.id
      = (above afterId (db.roomIds roomId)).take (min limit max) := by
  rw [messagesSince_eq h, List.map_map]
  show List.map MessageRow.id _ = _
  rw [List.map_take]
  unfold above ChatDb.roomIds
  rw [List.filter_map]
  rfl

/-- The newest page: the last rows of the room. -/
theorem messagesBefore_newest {db : ChatDb} (h : db.Wf) (roomId : Int) (limit max : Nat) :
    chatDbMessagesBefore db roomId 0 limit max
      = ((db.roomRows roomId).drop ((db.roomRows roomId).length - min limit max)).map
          rowToMsg := by
  have hrows : db.messages.filter (fun m => m.roomId = roomId ∧ m.id < longMax)
      = db.roomRows roomId := by
    unfold ChatDb.roomRows
    apply List.filter_congr
    intro m hm
    have hlt : m.id < longMax := lt_of_le_of_lt (h.le_seq m hm) h.seq_lt
    by_cases h1 : m.roomId = roomId <;> simp [h1, hlt]
  unfold chatDbMessagesBefore
  simp only [le_refl, if_true, hrows]
  rw [newest_eq (roomRows_ascending h roomId), List.take_of_length_le]
  rw [List.length_drop]
  omega

/-- The messages of a room, as the queries return them. -/
def ChatDb.roomMsgs (db : ChatDb) (roomId : Int) : List ChatMsg := (db.roomRows roomId).map rowToMsg

theorem roomMsgs_ascending {db : ChatDb} (h : db.Wf) (roomId : Int) :
    Ascending ChatMsg.id (db.roomMsgs roomId) :=
  List.pairwise_map.mpr (roomRows_ascending h roomId)

theorem roomMsgs_pos {db : ChatDb} (h : db.Wf) {roomId : Int} {m : ChatMsg}
    (hm : m ∈ db.roomMsgs roomId) : 0 < m.id := by
  obtain ⟨row, hrow, rfl⟩ := List.mem_map.mp hm
  exact h.pos row (mem_roomRows.mp hrow).1

/-- A page below an id: the newest of the room's messages below it. -/
theorem messagesBefore_eq {db : ChatDb} (h : db.Wf) (roomId : Int) {beforeId : Int}
    (hpos : 0 < beforeId) (limit max : Nat) :
    chatDbMessagesBefore db roomId beforeId limit max
      = pageBelow ChatMsg.id beforeId (min limit max) (db.roomMsgs roomId) := by
  have hrows : db.messages.filter (fun m => m.roomId = roomId ∧ m.id < beforeId)
      = below MessageRow.id beforeId (db.roomRows roomId) := by
    unfold below ChatDb.roomRows
    rw [List.filter_filter]
    congr 1
    funext m
    by_cases h1 : m.roomId = roomId <;> by_cases h2 : m.id < beforeId <;> simp [h1, h2]
  have hmsgs : below ChatMsg.id beforeId (db.roomMsgs roomId)
      = (below MessageRow.id beforeId (db.roomRows roomId)).map rowToMsg := by
    unfold below ChatDb.roomMsgs
    rw [List.filter_map]
    rfl
  have hasc : Ascending MessageRow.id (below MessageRow.id beforeId (db.roomRows roomId)) :=
    ascending_sublist (roomRows_ascending h roomId) List.filter_sublist
  unfold chatDbMessagesBefore pageBelow
  simp only [if_neg (not_le.mpr hpos), hrows]
  rw [newest_eq hasc, List.take_of_length_le, hmsgs, List.map_drop, List.length_map]
  rw [List.length_drop]
  omega

theorem maxMessageId_eq {db : ChatDb} (h : db.Wf) (roomId : Int) :
    chatDbMaxMessageId db roomId = ((db.roomRows roomId).getLast?.map MessageRow.id).getD 0 := by
  unfold chatDbMaxMessageId
  rw [← max?_key_eq (roomRows_ascending h roomId)]
  rfl

/-- No row of a room is above its greatest id. -/
theorem le_maxMessageId {db : ChatDb} (h : db.Wf) {roomId : Int} {m : MessageRow}
    (hm : m ∈ db.roomRows roomId) : m.id ≤ chatDbMaxMessageId db roomId := by
  rw [maxMessageId_eq h]
  cases hz : (db.roomRows roomId).getLast? with
  | none =>
    rw [List.getLast?_eq_none_iff] at hz
    rw [hz] at hm
    exact absurd hm (List.not_mem_nil)
  | some z => exact key_le_getLast (roomRows_ascending h roomId) hz m hm

end NetServer.Chat
