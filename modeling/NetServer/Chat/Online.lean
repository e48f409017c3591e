/-
  NetServer.Chat.Online — how many users the protocols say are online.

  The lobby and the header of a room on telnet and `GET /api/rooms/{id}/users`
  ask `chat_room_users` for the names and show how many were written.  The
  telnet screens have room for CHAT_MAX_WHO names, the handler for 64, and the
  query stops when the room is used up.

  A count is read off what was sent, behind the text in front of it.

    • `chatRoomUsers_length` — how many names a caller gets;
    • `lobbyShown_eq`, `headerShown_eq`, `usersShown_eq` — what each of the three
      shows, whatever is in the table;
    • `online_counts_iff` — when the three agree with the table.
-/
import NetServer.Chat.Chat
import NetServer.Chat.Json
import NetServer.Chat.Router
import NetServer.Lib.PrintBuffer

namespace NetServer.Chat

open NetServer.Lib

/-! ## §1. The answer of `handle_users`. -/

/-- `buf` of `handle_users`. -/
def usersBufSize : Nat := 64 * (chatUserMax * 2 + 4) + 64

/-- The names `handle_users` has room for. -/
def usersMax : Nat := 64

/-- The text in front of the count. -/
def usersOpen : List UInt8 := ascii "\x7b\"count\":"

/-- One name of the answer, from the second on with a comma. -/
def userText (i : Nat) (user : List UInt8) : List UInt8 :=
  (if i = 0 then [] else ascii ",") ++ (34 :: jsonEscape user (chatUserMax * 2) ++ [34])

/-- The loop over the names, from name `i` on. -/
def usersLoop : Nat → List (List UInt8) → PrintBuffer → Option PrintBuffer
  | _, [], b => some b
  | i, user :: rest, b => do
      let b ← b.print (userText i user)
      usersLoop (i + 1) rest b

/-- The buffer when `handle_users` answers; `mem` is what was in it before. -/
def handleUsers (mem : List UInt8) (users : List (List UInt8)) : Option PrintBuffer := do
  let b ← PrintBuffer.print ⟨mem, 0, []⟩
    (usersOpen ++ decimal users.length ++ ascii ",\"users\":[")
  -- the offset is advanced by what each call would have written
  let b ← usersLoop 0 users b
  b.print (ascii "]\x7d")

/-- The pieces printed from name `i` on. -/
def userTexts : Nat → List (List UInt8) → List (List UInt8)
  | _, [] => []
  | i, user :: rest => userText i user :: userTexts (i + 1) rest

/-- Everything that is printed. -/
def usersTexts (users : List (List UInt8)) : List (List UInt8) :=
  (usersOpen ++ decimal users.length ++ ascii ",\"users\":[") :: (userTexts 0 users ++ [ascii "]\x7d"])

theorem usersLoop_eq (users : List (List UInt8)) :
    ∀ i b, usersLoop i users b = PrintBuffer.printAll (userTexts i users) b := by
  induction users with
  | nil => intro i b; rfl
  | cons user rest ih =>
    intro i b
    unfold usersLoop userTexts
    simp only [ih]
    rfl

theorem handleUsers_eq (mem : List UInt8) (users : List (List UInt8)) :
    handleUsers mem users = PrintBuffer.printAll (usersTexts users) ⟨mem, 0, []⟩ := by
  unfold handleUsers usersTexts
  simp only [usersLoop_eq]
  rw [PrintBuffer.printAll]
  simp only [PrintBuffer.printAll_append, PrintBuffer.printAll_singleton]
  rfl

/-- A name takes at most 65 bytes with its quotes and its comma. -/
theorem userText_bounds (i : Nat) (user : List UInt8) :
    (userText i user).length ≤ 65 ∧ 0 ∉ userText i user := by
  obtain ⟨p, -, hp, hlen⟩ := jsonEscape_spec user (show 2 ≤ chatUserMax * 2 by decide)
  have hcomma : (if i = 0 then [] else ascii ",").length ≤ 1
      ∧ 0 ∉ (if i = 0 then [] else ascii ",") := by
    split <;> decide +kernel
  unfold chatUserMax at hlen
  unfold userText
  constructor
  · rw [List.length_append, List.length_append, List.length_cons, List.length_singleton]
    unfold chatUserMax
    omega
  · intro h0
    rcases List.mem_append.mp h0 with h0 | h0
    · exact hcomma.2 h0
    · rcases List.mem_append.mp h0 with h0 | h0
      · rcases List.mem_cons.mp h0 with h0 | h0
        · exact absurd h0 (by decide)
        · rw [hp] at h0
          exact escaped_visible h0 (by decide)
      · exact absurd (List.mem_singleton.mp h0) (by decide)

theorem userTexts_bounds :
    ∀ (users : List (List UInt8)) (i : Nat),
      (userTexts i users).flatten.length ≤ users.length * 65 ∧ 0 ∉ (userTexts i users).flatten
  | [], _ => ⟨Nat.le_refl 0, nofun⟩
  | user :: rest, i => by
      obtain ⟨hlen, hnul⟩ := userText_bounds i user
      obtain ⟨hlens, hnuls⟩ := userTexts_bounds rest (i + 1)
      rw [userTexts, List.flatten_cons, List.length_append, List.length_cons, List.mem_append]
      exact ⟨by omega, fun h0 => h0.elim hnul hnuls⟩

/-- **The answer fits its buffer**, whatever the names are. -/
theorem handleUsers_printed {users : List (List UInt8)} (hn : users.length ≤ usersMax)
    {mem : List UInt8} (hmem : mem.length = usersBufSize) :
    ∃ b, handleUsers mem users = some b ∧ cString b.mem = (usersTexts users).flatten := by
  obtain ⟨hlen, hnul⟩ := userTexts_bounds users 0
  have hdigits : (decimal users.length).length ≤ 2 := by
    apply decimal_length (by decide)
    unfold usersMax at hn
    omega
  have hnodigit : (0 : UInt8) ∉ decimal users.length := by
    intro h0
    exact absurd ((decimal_numeral users.length).digits 0 h0) (by decide)
  have hparts : usersOpen.length = 9 ∧ (ascii ",\"users\":[").length = 10
      ∧ (ascii "]\x7d").length = 2 ∧ 0 ∉ usersOpen ∧ 0 ∉ ascii ",\"users\":["
      ∧ 0 ∉ ascii "]\x7d" := by decide +kernel
  obtain ⟨hopen, hnames, hclose, hopen0, hnames0, hclose0⟩ := hparts
  have htotal : (usersTexts users).flatten.length
      = usersOpen.length + (decimal users.length).length + (ascii ",\"users\":[").length
        + ((userTexts 0 users).flatten.length + (ascii "]\x7d").length) := by
    unfold usersTexts
    rw [List.flatten_cons, List.flatten_append, List.length_append, List.length_append,
      List.length_append, List.length_append, List.flatten_cons, List.flatten_nil, List.append_nil]
  have hsize : mem.length = 4416 := hmem
  have hword : UInt64.size = 18446744073709551616 := rfl
  unfold usersMax at hn
  obtain ⟨b, hb, hprints⟩ := PrintBuffer.printAll_fits (usersTexts users) ⟨mem, 0, []⟩
    (List.cons_ne_nil _ _) (by rw [htotal]; dsimp only; omega) (by dsimp only; omega)
  refine ⟨b, (handleUsers_eq mem users).trans hb, hprints.cString_eq rfl ?_⟩
  intro h0
  unfold usersTexts at h0
  simp only [List.flatten_cons, List.flatten_append, List.mem_append, List.flatten_nil,
    List.append_nil] at h0
  tauto

/-! ## §2. What is shown. -/

/-- The number behind the text in front of it. -/
def shownBehind (front text : List UInt8) : Nat :=
  decimalValue ((text.drop front.length).takeWhile isDigit)

theorem shownBehind_decimal (front : List UInt8) (n : Nat) {rest : List UInt8}
    (hrest : rest.head?.all (fun b => !isDigit b) = true) :
    shownBehind front (front ++ decimal n ++ rest) = n := by
  unfold shownBehind
  rw [List.append_assoc, List.drop_left, List.takeWhile_append_of_pos (decimal_numeral n).digits]
  have hnone : rest.takeWhile isDigit = [] := by
    cases rest with
    | nil => rfl
    | cons b bs =>
        have hb : (!isDigit b) = true := hrest
        rw [List.takeWhile_cons, if_neg (by simpa using hb)]
  rw [hnone, List.append_nil, decimalValue_decimal]

/-- In front of the count on a line of the lobby. -/
def lobbyFront (i : Nat) (name : List UInt8) : List UInt8 :=
  ascii "  \x1b[33m[" ++ decimal (i + 1) ++ ascii "]\x1b[0m  #" ++ name
    ++ List.replicate (10 - name.length) 32 ++ ascii " \x1b[2m"

/-- The count on the line that `render_lobby` sends for room `i`. -/
def lobbyShown (db : ChatDb) (now : Int) (i : Nat) (room : ChatRoom) : Option Nat :=
  (lobbyLine i room.name (chatRoomUsers db room.id now chatMaxWho).length).map
    (shownBehind (lobbyFront i room.name))

/-- The count in the header that `render_room` sends. -/
def headerShown (db : ChatDb) (now : Int) (room : ChatRoom) : Option Nat :=
  (csendf (roomHeader room.name (chatRoomUsers db room.id now chatMaxWho))).map
    (shownBehind (headerOpen ++ room.name ++ headerNamed))

/-- The count in the answer of `handle_users`. -/
def usersShown (mem : List UInt8) (db : ChatDb) (now : Int) (room : ChatRoom) : Option Nat :=
  (handleUsers mem (chatRoomUsers db room.id now usersMax)).map
    fun b => shownBehind usersOpen (cString b.mem)

/-- The rows of a room seen within CHAT_PRESENCE_TTL. -/
def activeRows (db : ChatDb) (now : Int) (roomId : Int) : Nat :=
  (db.presence.filter fun p => p.roomId = roomId ∧ now - chatPresenceTtl ≤ p.lastSeen).length

/-- **The names a caller gets**: all of them, up to its room. -/
theorem chatRoomUsers_length (db : ChatDb) (roomId now : Int) (max : Nat) :
    (chatRoomUsers db roomId now max).length = min max (activeRows db now roomId) := by
  unfold chatRoomUsers chatDbActiveUsers activeRows
  dsimp only
  rw [List.length_map, List.length_take, List.length_insertionSort, List.length_map]

theorem lobbyShown_eq (db : ChatDb) (now : Int) {i : Nat} (hi : i < chatMaxRooms)
    (room : ChatRoom) :
    lobbyShown db now i room = some (min chatMaxWho (activeRows db now room.id)) := by
  have hname : room.name.length < 32 := room.name_length
  have hindex : (decimal (i + 1)).length ≤ 1 := by
    apply decimal_length (by decide)
    unfold chatMaxRooms at hi
    omega
  have hcount : (decimal (min chatMaxWho (activeRows db now room.id))).length ≤ 2 := by
    apply decimal_length (by decide)
    unfold chatMaxWho
    omega
  have hparts : (ascii "  \x1b[33m[").length = 8 ∧ (ascii "]\x1b[0m  #").length = 8
      ∧ (ascii " \x1b[2m").length = 5 ∧ (ascii " online\x1b[0m\r\n").length = 13 := by
    decide +kernel
  unfold lobbyShown
  rw [chatRoomUsers_length]
  have hline : lobbyLine i room.name (min chatMaxWho (activeRows db now room.id))
      = some (lobbyFront i room.name ++ decimal (min chatMaxWho (activeRows db now room.id))
          ++ ascii " online\x1b[0m\r\n") := by
    unfold lobbyLine csendf bufSend lobbyFront
    rw [if_pos]
    simp only [List.length_append, List.length_replicate]
    omega
  rw [hline, Option.map_some, shownBehind_decimal _ _ (by decide +kernel)]

theorem headerShown_eq (db : ChatDb) (now : Int) (room : ChatRoom) :
    headerShown db now room = some (min chatMaxWho (activeRows db now room.id)) := by
  have hname : room.name.length ≤ 31 := Nat.le_of_lt_succ room.name_length
  have hlen := chatRoomUsers_length db room.id now chatMaxWho
  unfold headerShown
  rw [roomHeader_fits hname (hlen ▸ Nat.min_le_left _ _), Option.map_some]
  have htext : roomHeader room.name (chatRoomUsers db room.id now chatMaxWho)
      = (headerOpen ++ room.name ++ headerNamed)
        ++ decimal (min chatMaxWho (activeRows db now room.id))
        ++ (ascii " online: " ++ (wholist (chatRoomUsers db room.id now chatMaxWho)
          ++ headerClose)) := by
    unfold roomHeader headerTemplate
    rw [hlen]
    simp only [fill, List.append_nil, List.append_assoc]
  rw [htext, shownBehind_decimal]
  rfl

theorem usersShown_eq (db : ChatDb) (now : Int) (room : ChatRoom) {mem : List UInt8}
    (hmem : mem.length = usersBufSize) :
    usersShown mem db now room = some (min usersMax (activeRows db now room.id)) := by
  have hlen := chatRoomUsers_length db room.id now usersMax
  obtain ⟨b, hb, htext⟩ := handleUsers_printed (hlen ▸ Nat.min_le_left _ _) hmem
  unfold usersShown
  rw [hb, Option.map_some, htext]
  unfold usersTexts
  rw [List.flatten_cons, hlen, List.append_assoc, shownBehind_decimal]
  rfl

/-! ## §3. The screens. -/

/-- The step of `render_lobby` that lists a room sends the line with its count. -/
theorem step_lobby_shows {t : Telnet} {i : Nat} {room : ChatRoom} {rest : List (Nat × ChatRoom)}
    {quit : Bool} (hpc : t.pc = .lobby ((i, room) :: rest) quit) (rooms : List ChatRoom)
    (sh : Shared) (bytes : Nat) (shutdown : Bool) (choice : Choice) :
    ∃ t' line, t.step rooms sh bytes shutdown choice = some (t', .skip)
      ∧ t'.out = t.out ++ [line]
      ∧ line.map (shownBehind (lobbyFront i room.name)) = lobbyShown sh.db sh.now i room := by
  unfold Telnet.step
  rw [hpc]
  exact ⟨_, _, rfl, rfl, rfl⟩

/-- The step of `render_room` that draws the screen sends the header with its
count first. -/
theorem step_room_shows {t : Telnet} {c : ChatState} {room : ChatRoom} {msgs : List ChatMsg}
    {notified : Bool} (hpc : t.pc = .users msgs notified) (hchat : t.chat = some c)
    (hroom : c.room = some room) (rooms : List ChatRoom) (sh : Shared) (bytes : Nat)
    (shutdown : Bool) (choice : Choice) :
    ∃ t' header screen, t.step rooms sh bytes shutdown choice = some (t', .skip)
      ∧ t'.out = t.out ++ header :: screen
      ∧ header.map (shownBehind (headerOpen ++ room.name ++ headerNamed))
          = headerShown sh.db sh.now room := by
  unfold Telnet.step
  rw [hpc, hchat]
  dsimp only [Option.bind_some]
  rw [hroom]
  exact ⟨_, _, _, rfl, List.append_assoc _ _ _, rfl⟩

/-! ## §4. The three counts. -/

/-- **The online counts.**  For every room of the registry, every table and every
instant: the lobby, the header and the HTTP answer all show the number of rows seen
within CHAT_PRESENCE_TTL exactly when CHAT_MAX_WHO names are enough for them. -/
theorem online_counts_iff {reg : RoomRegistry} {i : Nat} {room : ChatRoom}
    (hroom : reg.rooms[i]? = some room) (db : ChatDb) (now : Int) {mem : List UInt8}
    (hmem : mem.length = usersBufSize) :
    (lobbyShown db now i room = headerShown db now room
        ∧ headerShown db now room = usersShown mem db now room
        ∧ usersShown mem db now room = some (activeRows db now room.id))
      ↔ activeRows db now room.id ≤ chatMaxWho := by
  have hi : i < chatMaxRooms :=
    Nat.lt_of_lt_of_le (List.getElem?_eq_some_iff.mp hroom).1 reg.bounded
  rw [lobbyShown_eq db now hi room, headerShown_eq, usersShown_eq db now room hmem]
  unfold chatMaxWho usersMax
  constructor
  · -- telnet shows at most 16, so the three agree only below that
    rintro ⟨-, hsame, hall⟩
    have hsame := Option.some.inj hsame
    have hall := Option.some.inj hall
    omega
  · intro hle
    refine ⟨rfl, congrArg some ?_, congrArg some ?_⟩
    · omega
    · omega

/-- `n` users in room 1, all seen at second 0. -/
def crowd (n : Nat) : ChatDb where
  messages := []
  seq := 0
  presence := (List.range n).map fun k => ⟨1, ascii "u" ++ decimal k, 0⟩

/-- Sixteen users are sixteen everywhere. -/
theorem online_counts_sixteen :
    lobbyShown (crowd 16) 300 0 lobbyRoom = headerShown (crowd 16) 300 lobbyRoom
      ∧ headerShown (crowd 16) 300 lobbyRoom
          = usersShown (List.replicate usersBufSize 0) (crowd 16) 300 lobbyRoom
      ∧ usersShown (List.replicate usersBufSize 0) (crowd 16) 300 lobbyRoom
          = some (activeRows (crowd 16) 300 lobbyRoom.id) :=
  (@online_counts_iff lobbyOnly 0 lobbyRoom rfl (crowd 16) 300 (List.replicate usersBufSize 0)
    List.length_replicate).mpr (by decide +kernel)

/-- The seventeenth is seen over HTTP only. -/
theorem online_counts_seventeen :
    lobbyShown (crowd 17) 300 0 lobbyRoom = some 16
      ∧ headerShown (crowd 17) 300 lobbyRoom = some 16
      ∧ usersShown (List.replicate usersBufSize 0) (crowd 17) 300 lobbyRoom = some 17
      ∧ activeRows (crowd 17) 300 lobbyRoom.id = 17 := by
  have hrows : activeRows (crowd 17) 300 lobbyRoom.id = 17 := by decide +kernel
  rw [lobbyShown_eq _ _ (by decide), headerShown_eq, usersShown_eq _ _ _ List.length_replicate,
    hrows]
  decide +kernel

end NetServer.Chat
