/-
  NetServer.Chat.Room — the chat service `features/chat/room.c`.

  The service cleans every text before it is stored, keeps a bounded list of
  notify descriptors per room and passes queries on to the storage layer.
  `chat_room_post` is not one operation: it cleans, inserts, and then holds
  the room's lock while it writes to the subscribers.  The cleaning is here;
  the two critical sections are steps of the running system.

  Main results:
    • `sanitizeUser_clean`, `sanitizeText_clean` — what the cleaning gives.
    • `StoreClean` and the lemmas that each storage operation of the service
      keeps it.
-/
import NetServer.Chat.Db
import NetServer.Lib.SlotList

namespace NetServer.Chat

open NetServer.Lib

/-! ## §1. Rooms and subscribers. -/

/-- Max live subscribers per room. -/
def chatMaxSubscribers : Nat := 256

/-- Users are active if seen within this many seconds. -/
def chatPresenceTtl : Int := 300

/-- Public handle for a room (`chat_room_t`); the name is cut to its buffer. -/
structure ChatRoom where
  id : Int
  name : List UInt8
  name_length : name.length < chatNameMax
  deriving Repr, DecidableEq

/-- The critical section of `chat_room_subscribe`: silently refused when full. -/
def chatRoomSubscribe (subFds : List Nat) (notifyWfd : Nat) : List Nat :=
  SlotList.insert chatMaxSubscribers subFds notifyWfd

/-- The critical section of `chat_room_unsubscribe`. -/
def chatRoomUnsubscribe (subFds : List Nat) (notifyWfd : Nat) : List Nat :=
  SlotList.remove subFds notifyWfd

/-! ## §2. Input sanitization. -/

/-- Printable ASCII. -/
def isPrintable (b : UInt8) : Bool := 0x20 ≤ b && b ≤ 0x7E

/-- `[A-Za-z0-9_]`. -/
def isUserByte (b : UInt8) : Bool :=
  (97 ≤ b && b ≤ 122) || (65 ≤ b && b ≤ 90) || (48 ≤ b && b ≤ 57) || b == 95

/-- `sanitize_text` into a buffer of `dstsz` bytes. -/
def sanitizeText (src : List UInt8) (dstsz : Nat) : List UInt8 :=
  ((cString src).take (dstsz - 1)).map fun ch => if isPrintable ch then ch else 63

/-- `sanitize_user` into a buffer of `dstsz` bytes. -/
def sanitizeUser (src : List UInt8) (dstsz : Nat) : List UInt8 :=
  ((cString src).filter isUserByte).take (dstsz - 1)

/-- The first half of `chat_room_post`: the cleaned user and body, or `none`
when one of them is empty and the post returns -1. -/
def cleanPost (user body : List UInt8) : Option (List UInt8 × List UInt8) :=
  let cleanUser := sanitizeUser user chatUserMax
  let cleanBody := sanitizeText body chatBodyMax
  if cleanUser = [] then none
  else if cleanBody = [] then none
  else some (cleanUser, cleanBody)

/-! ## §3. Presence. -/

/-- `chat_room_presence_set`. -/
def chatRoomPresenceSet (db : ChatDb) (roomId : Int) (user : List UInt8) (now : Int) : ChatDb :=
  let clean := sanitizeUser user chatUserMax
  if clean = [] then db else chatDbPresenceSet db roomId clean now

/-- `chat_room_presence_clear`. -/
def chatRoomPresenceClear (db : ChatDb) (roomId : Int) (user : List UInt8) : ChatDb :=
  let clean := sanitizeUser user chatUserMax
  if clean = [] then db else chatDbPresenceClear db roomId clean

/-- `chat_room_users` at time `now`. -/
def chatRoomUsers (db : ChatDb) (roomId now : Int) (max : Nat) : List (List UInt8) :=
  chatDbActiveUsers db roomId chatPresenceTtl now max

@[simp] theorem presenceSet_keeps (db : ChatDb) (roomId : Int) (user : List UInt8) (now : Int) :
    (chatRoomPresenceSet db roomId user now).messages = db.messages
      ∧ (chatRoomPresenceSet db roomId user now).seq = db.seq := by
  unfold chatRoomPresenceSet
  by_cases h : sanitizeUser user chatUserMax = []
  · simp [h]
  · simp only [h, if_false]
    exact presenceSet_messages db roomId _ now

@[simp] theorem presenceClear_keeps (db : ChatDb) (roomId : Int) (user : List UInt8) :
    (chatRoomPresenceClear db roomId user).messages = db.messages
      ∧ (chatRoomPresenceClear db roomId user).seq = db.seq := by
  unfold chatRoomPresenceClear
  by_cases h : sanitizeUser user chatUserMax = []
  · simp [h]
  · simp only [h, if_false]
    exact ⟨rfl, rfl⟩

/-! ## §4. Clean texts. -/

/-- A user name matching `[A-Za-z0-9_]{1,31}`. -/
structure UserClean (u : List UInt8) : Prop where
  nonempty : u ≠ []
  length_le : u.length ≤ 31
  bytes : ∀ b ∈ u, isUserByte b = true

/-- A body of 1 to 511 printable bytes. -/
structure BodyClean (b : List UInt8) : Prop where
  nonempty : b ≠ []
  length_le : b.length ≤ 511
  bytes : ∀ c ∈ b, isPrintable c = true

/-- A name's bytes are printable. -/
theorem isPrintable_of_isUserByte {b : UInt8} (h : isUserByte b = true) : isPrintable b = true := by
  simp only [isUserByte, isPrintable, Bool.or_eq_true, Bool.and_eq_true, decide_eq_true_eq,
    beq_iff_eq, UInt8.le_iff_toNat_le] at h ⊢
  have h32 : (32 : UInt8).toNat = 32 := rfl
  have h126 : (126 : UInt8).toNat = 126 := rfl
  have h48 : (48 : UInt8).toNat = 48 := rfl
  have h57 : (57 : UInt8).toNat = 57 := rfl
  have h65 : (65 : UInt8).toNat = 65 := rfl
  have h90 : (90 : UInt8).toNat = 90 := rfl
  have h97 : (97 : UInt8).toNat = 97 := rfl
  have h122 : (122 : UInt8).toNat = 122 := rfl
  rcases h with ((h | h) | h) | h
  · omega
  · omega
  · omega
  · subst h
    decide

theorem sanitizeUser_clean {u : List UInt8} (h : sanitizeUser u chatUserMax ≠ []) :
    UserClean (sanitizeUser u chatUserMax) := by
  refine ⟨h, List.length_take_le _ _, ?_⟩
  intro b hb
  exact (List.mem_filter.mp (List.mem_of_mem_take hb)).2

theorem sanitizeText_clean {b : List UInt8} (h : sanitizeText b chatBodyMax ≠ []) :
    BodyClean (sanitizeText b chatBodyMax) := by
  refine ⟨h, ?_, ?_⟩
  · unfold sanitizeText
    rw [List.length_map]
    exact List.length_take_le _ _
  · intro c hc
    obtain ⟨x, -, rfl⟩ := List.mem_map.mp hc
    by_cases hx : isPrintable x = true
    · rw [if_pos hx]
      exact hx
    · rw [if_neg hx]
      decide

theorem cleanPost_clean {user body u b : List UInt8} (h : cleanPost user body = some (u, b)) :
    UserClean u ∧ BodyClean b := by
  unfold cleanPost at h
  by_cases hu : sanitizeUser user chatUserMax = []
  · simp [hu] at h
  · by_cases hb : sanitizeText body chatBodyMax = []
    · simp [hu, hb] at h
    · simp only [hu, hb, if_false, Option.some.injEq, Prod.mk.injEq] at h
      obtain ⟨rfl, rfl⟩ := h
      exact ⟨sanitizeUser_clean hu, sanitizeText_clean hb⟩

/-! ## §5. A store of clean texts. -/

/-- Every stored text is clean. -/
structure StoreClean (db : ChatDb) : Prop where
  messages : ∀ m ∈ db.messages, UserClean m.user ∧ BodyClean m.body
  presence : ∀ p ∈ db.presence, UserClean p.user

theorem StoreClean.insert {db : ChatDb} (h : StoreClean db) {roomId now id : Int}
    {user body : List UInt8} (hu : UserClean user) (hb : BodyClean body) :
    StoreClean (chatDbInsertMessage db roomId user body now id) := by
  refine ⟨?_, h.presence⟩
  intro m hm
  rcases List.mem_append.mp hm with hold | hnew
  · exact h.messages m hold
  · rw [List.mem_singleton.mp hnew]
    exact ⟨hu, hb⟩

theorem StoreClean.presenceSet {db : ChatDb} (h : StoreClean db) (roomId : Int)
    (user : List UInt8) (now : Int) : StoreClean (chatRoomPresenceSet db roomId user now) := by
  unfold chatRoomPresenceSet
  by_cases hu : sanitizeUser user chatUserMax = []
  · simpa [hu] using h
  · simp only [hu, if_false]
    refine ⟨by rw [(presenceSet_messages _ _ _ _).1]; exact h.messages, ?_⟩
    unfold chatDbPresenceSet
    split
    · -- An existing row keeps its name.
      intro p hp
      obtain ⟨q, hq, rfl⟩ := List.mem_map.mp hp
      have hclean := h.presence q hq
      split
      · exact hclean
      · exact hclean
    · intro p hp
      rcases List.mem_append.mp hp with hold | hnew
      · exact h.presence p hold
      · rw [List.mem_singleton.mp hnew]
        exact sanitizeUser_clean hu

theorem StoreClean.presenceClear {db : ChatDb} (h : StoreClean db) (roomId : Int)
    (user : List UInt8) : StoreClean (chatRoomPresenceClear db roomId user) := by
  unfold chatRoomPresenceClear
  by_cases hu : sanitizeUser user chatUserMax = []
  · simpa [hu] using h
  · simp only [hu, if_false]
    refine ⟨h.messages, ?_⟩
    intro p hp
    exact h.presence p (List.mem_of_mem_filter hp)

end NetServer.Chat
