/-
  NetServer.Chat.Typing — what a user types is what is posted.

  A user at a telnet terminal has a picture of the chat: a menu, a question for a
  name, a lobby, a room that is read, a line that is written.  `typist` is that
  picture: it follows the keys and knows of nothing else, no other users, no
  screens, no storage, no threads.

  The session thread of `features/chat/chat.c` runs between the steps of any number
  of others, is woken up and redraws in the middle of a line, and keeps its state in
  fields that outlive their use.  It does what `typist` does:

    • `handleKey_typist`  — a key does to the session what it does to the picture;
    • `Telnet.Follows.step` — every step of the thread keeps the two together;
    • `typed_posted`      — over every run: where the user is, and what has been
      stored, are functions of the user's own keys.
-/
import NetServer.Chat.Paging
import NetServer.Lib.Transducer

namespace NetServer.Chat

open NetServer.Lib
open NetServer.Lib.TransitionSystem

/-! ## §1. The user's picture. -/

/-- A line that is typed: two keys erase, the others are added while there is room. -/
def editLine (max : Nat) (accepts : UInt8 → Bool) (line : List UInt8) (key : UInt8) : List UInt8 :=
  if key = 127 ∨ key = 8 then line.dropLast
  else if line.length < max ∧ accepts key then line ++ [key]
  else line

/-- What a user does. -/
inductive Typed where
  | openChat
  | key (k : UInt8)
  deriving Repr, DecidableEq

/-- Where a user is. -/
inductive Typist where
  /-- In the menu; the name is empty before it has been chosen. -/
  | menu (name : List UInt8)
  | naming (line : List UInt8)
  | lobby (name : List UInt8)
  | reading (name : List UInt8) (room : ChatRoom)
  | writing (name : List UInt8) (room : ChatRoom) (line : List UInt8)
  deriving Repr, DecidableEq

/-- A line that was entered. -/
structure Submission where
  roomId : Int
  user : List UInt8
  body : List UInt8
  deriving Repr, DecidableEq

/-- What a key does, and the line it enters. -/
def Typist.press (rooms : List ChatRoom) (k : UInt8) : Typist → Typist × List Submission
  | .menu name => (.menu name, [])
  | .naming line =>
      if k = 13 ∨ k = 10 then (if line = [] then .naming [] else .lobby line, [])
      else (.naming (editLine 20 isUserByte line k), [])
  | .lobby name =>
      if k = 81 ∨ k = 113 then (.menu name, [])
      else if 49 ≤ k.toNat then
        match rooms[k.toNat - 49]? with
        | some room => (.reading name room, [])
        | none => (.lobby name, [])
      else (.lobby name, [])
  | .reading name room =>
      if k = 81 then (.menu name, [])
      else if k = 113 then (.lobby name, [])
      else if k = 13 ∨ k = 105 then (.writing name room [], [])
      else (.reading name room, [])
  | .writing name room line =>
      if k = 27 ∨ k = 3 then (.reading name room, [])
      else if k = 13 ∨ k = 10 then
        (.reading name room, if line = [] then [] else [⟨room.id, name, line⟩])
      else (.writing name room (editLine 511 isPrintable line k), [])

/-- The chat is opened. -/
def Typist.openChat : Typist → Typist
  | .menu name => if name = [] then .naming [] else .lobby name
  | t => t

/-- The user's picture of the chat. -/
def typist (rooms : List ChatRoom) : Transducer Typist Typed Submission where
  step
    | t, .openChat => (t.openChat, [])
    | t, .key k => t.press rooms k

/-! ## §2. The picture of a session. -/

/-- Where a handler that is still running will leave the user. -/
inductive Heading where
  | stay
  | room
  | lobby
  | menu
  deriving Repr, DecidableEq

def TelnetPc.heading : TelnetPc → Heading
  | .post _ | .postPresence => .room
  | .leaveUnsubscribe quit | .leavePresence quit => if quit then .menu else .lobby
  | .lobby _ quit => if quit then .menu else .stay
  | .destroyUnsubscribe _ | .destroyPresence _ => .menu
  | _ => .stay

def ChatState.doing (name : List UInt8) (c : ChatState) : Typist :=
  match c.st, c.room with
  | .username, _ => .naming c.usernameBuf
  | .inRoom, some room => .reading name room
  | .compose, some room => .writing name room c.compose
  | _, _ => .lobby name

/-- The user's picture, read off the session. -/
def Telnet.picture (t : Telnet) : Typist :=
  match t.chat with
  | none => .menu t.username
  | some c =>
      match t.pc.heading with
      | .menu => .menu t.username
      | .lobby => .lobby t.username
      | .room => (c.room.map (Typist.reading t.username)).getD (.lobby t.username)
      | .stay => c.doing t.username

/-- The line whose row is not inserted yet. -/
def Telnet.pending (t : Telnet) : List Submission :=
  match t.pc with
  | .post (.insert r user body) => [⟨r, user, body⟩]
  | _ => []

namespace Telnet

variable {t t' : Telnet} {c : ChatState} {rooms : List ChatRoom} {k : UInt8}

theorem picture_noChat (hc : t.chat = none) : t.picture = .menu t.username := by
  unfold picture
  rw [hc]

theorem picture_stay (hc : t.chat = some c) (hpc : t.pc.heading = .stay) :
    t.picture = c.doing t.username := by
  unfold picture
  rw [hc]
  dsimp only
  rw [hpc]

theorem picture_menu (hc : t.chat = some c) (hpc : t.pc.heading = .menu) :
    t.picture = .menu t.username := by
  unfold picture
  rw [hc]
  dsimp only
  rw [hpc]

theorem picture_lobby (hc : t.chat = some c) (hpc : t.pc.heading = .lobby) :
    t.picture = .lobby t.username := by
  unfold picture
  rw [hc]
  dsimp only
  rw [hpc]

theorem picture_room {room : ChatRoom} (hc : t.chat = some c) (hpc : t.pc.heading = .room)
    (hr : c.room = some room) : t.picture = .reading t.username room := by
  unfold picture
  rw [hc]
  dsimp only
  rw [hpc, hr]
  rfl

theorem pending_of_ne (h : ∀ p, t.pc ≠ .post p) : t.pending = [] := by
  unfold pending
  split
  · rename_i r user body hpc
    exact absurd hpc (h _)
  · rfl

end Telnet

/-! ## §3. Keys. -/


/-- The texts of a telnet user need no cleaning. -/
theorem cleanPost_typed {user body : List UInt8} (hu : UserClean user) (hb : BodyClean body) :
    cleanPost user body = some (user, body) := by
  have huser : sanitizeUser user chatUserMax = user := by
    have hstr : cString user = user := cString_of_notMem fun h0 => absurd (hu.bytes 0 h0) (by decide)
    unfold sanitizeUser
    rw [hstr, List.filter_eq_self.mpr hu.bytes]
    exact List.take_of_length_le hu.length_le
  have hbody : sanitizeText body chatBodyMax = body := by
    have hstr : cString body = body := cString_of_notMem fun h0 => absurd (hb.bytes 0 h0) (by decide)
    have htake : body.take (chatBodyMax - 1) = body := List.take_of_length_le hb.length_le
    have hmap : body.map (fun ch => if isPrintable ch then ch else 63) = body.map id :=
      List.map_congr_left fun ch hch => if_pos (hb.bytes ch hch)
    unfold sanitizeText
    rw [hstr, htake, hmap, List.map_id]
  unfold cleanPost
  dsimp only
  rw [huser, hbody, if_neg hu.nonempty, if_neg hb.nonempty]

namespace Telnet

variable {t : Telnet} {c : ChatState} {rooms : List ChatRoom} {k : UInt8}

theorem handleUsername_typist (hc : t.chat = some c) (hpc : t.pc = .poll) (hst : c.st = .username)
    (hlen : c.usernameBuf.length ≤ 20) :
    ((t.handleUsername rooms c k).picture, (t.handleUsername rooms c k).pending)
      = (Typist.naming c.usernameBuf).press rooms k := by
  have hsame : t.picture = .naming c.usernameBuf := by
    rw [picture_stay hc (by rw [hpc]; rfl)]
    unfold ChatState.doing
    rw [hst]
  have hnone : t.pending = [] := pending_of_ne (by rw [hpc]; exact nofun)
  have hedit : ∀ buf payload, (({ t with chat := some { c with usernameBuf := buf } }.send payload).picture,
      ({ t with chat := some { c with usernameBuf := buf } }.send payload).pending)
        = (Typist.naming buf, []) := by
    intro buf payload
    have hpic := @picture_stay ({ t with chat := some { c with usernameBuf := buf } }.send payload)
      { c with usernameBuf := buf } rfl (by show t.pc.heading = _; rw [hpc]; rfl)
    have hpend := @pending_of_ne ({ t with chat := some { c with usernameBuf := buf } }.send payload)
      (by show ∀ p, t.pc ≠ _; rw [hpc]; exact nofun)
    rw [hpic, hpend]
    unfold ChatState.doing
    dsimp only
    rw [hst]
  unfold handleUsername Typist.press editLine
  dsimp only
  by_cases henter : k = 13 ∨ k = 10
  · rw [if_pos henter, if_pos henter]
    by_cases hbuf : c.usernameBuf = []
    · rw [if_pos hbuf, if_pos hbuf, hsame, hnone, hbuf]
    · rw [if_neg hbuf, if_neg hbuf]
      have htake : c.usernameBuf.take 31 = c.usernameBuf := List.take_of_length_le (by omega)
      rw [htake]
      rfl
  rw [if_neg henter, if_neg henter]
  by_cases herase : k = 127 ∨ k = 8
  · rw [if_pos herase]
    by_cases hbuf : c.usernameBuf = []
    · -- nothing to erase, and the byte is none of a name
      have hno : ¬ (c.usernameBuf.length < 20 ∧ isUserByte k = true) := by
        rintro ⟨-, hbyte⟩
        rcases herase with rfl | rfl
        · exact absurd hbyte (by decide)
        · exact absurd hbyte (by decide)
      rw [if_neg (fun h => h.2 hbuf), if_neg hno, hsame, hnone, hbuf]
      rfl
    · rw [if_pos ⟨herase, hbuf⟩]
      exact hedit _ _
  rw [if_neg (fun h => herase h.1), if_neg herase]
  by_cases htype : c.usernameBuf.length < 20 ∧ isUserByte k = true
  · rw [if_pos htype, if_pos htype]
    exact hedit _ _
  · rw [if_neg htype, if_neg htype, hsame, hnone]

theorem handleLobby_typist (hc : t.chat = some c) (hpc : t.pc = .poll) (hst : c.st = .lobby) :
    ((t.handleLobby rooms c k).picture, (t.handleLobby rooms c k).pending)
      = (Typist.lobby t.username).press rooms k := by
  have hsame : t.picture = .lobby t.username := by
    rw [picture_stay hc (by rw [hpc]; rfl)]
    unfold ChatState.doing
    rw [hst]
  have hnone : t.pending = [] := pending_of_ne (by rw [hpc]; exact nofun)
  unfold handleLobby Typist.press
  dsimp only
  by_cases hquit : k = 81 ∨ k = 113
  · rw [if_pos hquit, if_pos hquit, @picture_menu { t with pc := .destroyUnsubscribe false } c hc rfl]
    rfl
  rw [if_neg hquit, if_neg hquit]
  by_cases hdigit : 49 ≤ k.toNat
  · rw [if_pos hdigit]
    by_cases hroom : k.toNat < 49 + rooms.length
    · have hget : rooms[k.toNat - 49]? = some rooms[k.toNat - 49] := List.getElem?_eq_getElem (by omega)
      rw [if_pos ⟨hdigit, hroom⟩, hget]
      rfl
    · have hget : rooms[k.toNat - 49]? = none := List.getElem?_eq_none (by omega)
      rw [if_neg (fun h => hroom h.2), hget, hsame, hnone]
  · rw [if_neg hdigit, if_neg (fun h => hdigit h.1), hsame, hnone]

theorem handleInRoom_typist {room : ChatRoom} (hc : t.chat = some c) (hpc : t.pc = .poll)
    (hst : c.st = .inRoom) (hr : c.room = some room) :
    ((t.handleInRoom c k).picture, (t.handleInRoom c k).pending)
      = (Typist.reading t.username room).press rooms k := by
  have hdoing : c.doing t.username = .reading t.username room := by
    unfold ChatState.doing
    rw [hst, hr]
  have hsame : t.picture = .reading t.username room := by
    rw [picture_stay hc (by rw [hpc]; rfl), hdoing]
  have hnone : t.pending = [] := pending_of_ne (by rw [hpc]; exact nofun)
  unfold handleInRoom Typist.press
  dsimp only
  by_cases hmenu : k = 81
  · rw [if_pos hmenu, if_pos hmenu, @picture_menu { t with pc := .leaveUnsubscribe true } c hc rfl]
    rfl
  rw [if_neg hmenu, if_neg hmenu]
  by_cases hleave : k = 113
  · rw [if_pos hleave, if_pos hleave, @picture_lobby { t with pc := .leaveUnsubscribe false } c hc rfl]
    rfl
  rw [if_neg hleave, if_neg hleave]
  by_cases hwrite : k = 13 ∨ k = 105
  · rw [if_pos hwrite, if_pos hwrite]
    have hpic := @picture_stay ({ t with chat := some { c with st := .compose, compose := [] } }.send
      [composeLine t.termRows []]) { c with st := .compose, compose := [] } rfl
      (by show t.pc.heading = _; rw [hpc]; rfl)
    have hpend := @pending_of_ne ({ t with chat := some { c with st := .compose, compose := [] } }.send
      [composeLine t.termRows []]) (by show ∀ p, t.pc ≠ _; rw [hpc]; exact nofun)
    rw [hpic, hpend]
    unfold ChatState.doing
    dsimp only
    rw [hr]
    rfl
  rw [if_neg hwrite, if_neg hwrite]
  -- paging changes what is shown, not where the user is
  by_cases holder : k = 112
  · rw [if_pos holder, @picture_stay { t with pc := .older } c hc rfl, hdoing]
    rfl
  rw [if_neg holder]
  by_cases hnewest : k = 110
  · rw [if_pos hnewest]
    have hpic := @picture_stay { t with chat := some { c with atLive := true }, pc := .page false }
      { c with atLive := true } rfl rfl
    rw [hpic]
    exact congrArg (·, _) hdoing
  · rw [if_neg hnewest, hsame, hnone]

theorem handleCompose_typist {room : ChatRoom} (hc : t.chat = some c) (hpc : t.pc = .poll)
    (hst : c.st = .compose) (hr : c.room = some room) (htexts : t.Texts) :
    ((t.handleCompose c k).picture, (t.handleCompose c k).pending)
      = (Typist.writing t.username room c.compose).press rooms k := by
  have hchat := htexts.chat c hc
  have hsame : t.picture = .writing t.username room c.compose := by
    rw [picture_stay hc (by rw [hpc]; rfl)]
    unfold ChatState.doing
    rw [hst, hr]
  have hnone : t.pending = [] := pending_of_ne (by rw [hpc]; exact nofun)
  have hedit : ∀ text payload, (({ t with chat := some { c with compose := text } }.send payload).picture,
      ({ t with chat := some { c with compose := text } }.send payload).pending)
        = (Typist.writing t.username room text, []) := by
    intro text payload
    have hpic := @picture_stay ({ t with chat := some { c with compose := text } }.send payload)
      { c with compose := text } rfl (by show t.pc.heading = _; rw [hpc]; rfl)
    have hpend := @pending_of_ne ({ t with chat := some { c with compose := text } }.send payload)
      (by show ∀ p, t.pc ≠ _; rw [hpc]; exact nofun)
    rw [hpic, hpend]
    unfold ChatState.doing
    dsimp only
    rw [hst, hr]
    rfl
  unfold handleCompose Typist.press editLine
  dsimp only
  by_cases hcancel : k = 27 ∨ k = 3
  · rw [if_pos hcancel, if_pos hcancel]
    have hpic := @picture_stay { t with chat := some { c with st := .inRoom }, pc := .page false }
      { c with st := .inRoom } rfl rfl
    rw [hpic]
    unfold ChatState.doing
    dsimp only
    rw [hr]
    rfl
  rw [if_neg hcancel, if_neg hcancel]
  by_cases henter : k = 13 ∨ k = 10
  · rw [if_pos henter, if_pos henter]
    by_cases htext : c.compose = []
    · rw [if_pos htext, if_pos htext]
      have hpic := @picture_stay (t.resume c) { c with st := .inRoom, compose := [], atLive := true } rfl rfl
      rw [hpic]
      unfold ChatState.doing
      dsimp only
      rw [hr]
      rfl
    · -- the name and the line are stored as they are
      have hname : t.username ≠ [] := by
        intro hnil
        have hst' := hchat.chosen.mpr hnil
        rw [hst] at hst'
        cases hst'
      have hclean := cleanPost_typed ⟨hname, by have := htexts.length; omega, htexts.bytes⟩
        ⟨htext, hchat.text_length, hchat.text_bytes⟩
      rw [if_neg htext, if_neg htext]
      unfold startPost
      rw [hr, hclean]
      dsimp only
      rw [@picture_room { t with pc := .post (.insert room.id t.username c.compose) } c room hc rfl hr]
      rfl
  rw [if_neg henter, if_neg henter]
  by_cases herase : k = 127 ∨ k = 8
  · rw [if_pos herase]
    by_cases htext : c.compose = []
    · have hno : ¬ (c.compose.length < 511 ∧ isPrintable k = true) := by
        rintro ⟨-, hbyte⟩
        rcases herase with rfl | rfl
        · exact absurd hbyte (by decide)
        · exact absurd hbyte (by decide)
      rw [if_neg (fun h => h.2 htext), if_neg hno, hsame, hnone, htext]
      rfl
    · rw [if_pos ⟨herase, htext⟩]
      exact hedit _ _
  rw [if_neg (fun h => herase h.1), if_neg herase]
  by_cases htype : c.compose.length < 511 ∧ isPrintable k = true
  · rw [if_pos htype, if_pos htype]
    exact hedit _ _
  · rw [if_neg htype, if_neg htype, hsame, hnone]

/-- **A key does to the session what it does to the picture.** -/
theorem handleKey_typist (hc : t.chat = some c) (hpc : t.pc = .poll) (hok : t.Ok) (htexts : t.Texts) :
    ((t.chatHandleKey rooms c k).picture, (t.chatHandleKey rooms c k).pending)
      = t.picture.press rooms k := by
  have hfits := fits_of_ok hc hok
  rw [hpc] at hfits
  have hsettled : c.Settled := hfits.1
  have hroom : c.st = .inRoom ∨ c.st = .compose → ∃ room, c.room = some room := by
    intro hst
    exact Option.isSome_iff_exists.mp (hsettled.mpr hst)
  have hpic : t.picture = c.doing t.username := picture_stay hc (by rw [hpc]; rfl)
  unfold chatHandleKey
  rw [hpic]
  unfold ChatState.doing
  cases hst : c.st with
  | username => exact handleUsername_typist hc hpc hst (htexts.chat c hc).name_length
  | lobby => exact handleLobby_typist hc hpc hst
  | inRoom =>
    obtain ⟨room, hr⟩ := hroom (Or.inl hst)
    rw [hr]
    exact handleInRoom_typist hc hpc hst hr
  | compose =>
    obtain ⟨room, hr⟩ := hroom (Or.inr hst)
    rw [hr]
    exact handleCompose_typist hc hpc hst hr htexts

end Telnet

/-! ## §4. Steps of the thread. -/

/-- What was typed at a connection, and the rows its thread has tried to insert, with the ids of
those that are in the table. -/
structure Typing where
  typed : List Typed
  tried : List (Submission × Option Int)
  deriving Repr, DecidableEq

/-- A step of the session, seen by an observer. -/
def Typing.add (m : Typing) (t : Telnet) (choice : Choice) : Typing :=
  match t.pc, choice with
  | .poll, .key k => { m with typed := m.typed ++ [.key k] }
  | .poll, .openChat => { m with typed := m.typed ++ [.openChat] }
  | .post (.insert r user body), .inserted id => { m with tried := m.tried ++ [(⟨r, user, body⟩, id)] }
  | _, _ => m

/-- The session is where its user's keys have led, and the lines entered are those tried and the
one that is next. -/
structure Telnet.Follows (rooms : List ChatRoom) (t : Telnet) (m : Typing) : Prop where
  picture : t.pc.ending = false → t.picture = ((typist rooms).run (.menu []) m.typed).1
  lines : m.tried.map Prod.fst ++ t.pending = ((typist rooms).run (.menu []) m.typed).2

namespace Telnet

variable {rooms : List ChatRoom} {t t' : Telnet} {m : Typing}

/-- One more thing typed, with nothing left to insert before. -/
theorem Follows.type (h : t.Follows rooms m) (hpc : t.pc = .poll) {a : Typed}
    (hstep : (t'.picture, t'.pending) = (typist rooms).step t.picture a) :
    t'.Follows rooms { m with typed := m.typed ++ [a] } := by
  have hpic := h.picture (by rw [hpc]; rfl)
  have hlines := h.lines
  rw [pending_of_ne (by rw [hpc]; exact nofun), List.append_nil] at hlines
  have hfst : t'.picture = ((typist rooms).step t.picture a).1 := congrArg Prod.fst hstep
  have hsnd : t'.pending = ((typist rooms).step t.picture a).2 := congrArg Prod.snd hstep
  refine ⟨fun _ => ?_, ?_⟩
  · show t'.picture = ((typist rooms).run (.menu []) (m.typed ++ [a])).1
    rw [Transducer.run_append, ← hpic, hfst]
    rfl
  · show m.tried.map Prod.fst ++ t'.pending = ((typist rooms).run (.menu []) (m.typed ++ [a])).2
    rw [Transducer.run_append, ← hpic, ← hlines, hsnd]
    simp

/-- Nothing typed and nothing inserted. -/
theorem Follows.keep (h : t.Follows rooms m) (hpic : t'.pc.ending = false → t'.picture = t.picture)
    (hend : t.pc.ending = true → t'.pc.ending = true) (hpend : t'.pending = t.pending) :
    t'.Follows rooms m := by
  refine ⟨fun hnot => ?_, ?_⟩
  · rw [hpic hnot]
    apply h.picture
    cases hlast : t.pc.ending with
    | false => rfl
    | true => rw [hend hlast] at hnot; cases hnot
  · rw [hpend]
    exact h.lines

/-- The thread moves on with the same heading. -/
theorem Follows.move (h : t.Follows rooms m) (hname : t'.username = t.username)
    (hchat : t'.chat = t.chat) (hhead : t'.pc.heading = t.pc.heading)
    (hend : t.pc.ending = true → t'.pc.ending = true) (hpost : ∀ p, t.pc ≠ .post p)
    (hpost' : ∀ p, t'.pc ≠ .post p) : t'.Follows rooms m := by
  refine h.keep (fun _ => ?_) hend ?_
  · unfold Telnet.picture
    rw [hname, hchat, hhead]
  · rw [pending_of_ne hpost, pending_of_ne hpost']

theorem add_key (m : Typing) (hpc : t.pc = .poll) (k : UInt8) :
    m.add t (.key k) = { m with typed := m.typed ++ [.key k] } := by
  unfold Typing.add
  rw [hpc]

theorem add_openChat (m : Typing) (hpc : t.pc = .poll) :
    m.add t .openChat = { m with typed := m.typed ++ [.openChat] } := by
  unfold Typing.add
  rw [hpc]

theorem add_inserted (m : Typing) {r : Int} {user body : List UInt8}
    (hpc : t.pc = .post (.insert r user body)) (id : Option Int) :
    m.add t (.inserted id) = { m with tried := m.tried ++ [(⟨r, user, body⟩, id)] } := by
  unfold Typing.add
  rw [hpc]

theorem add_quiet (m : Typing) {choice : Choice} (hpc : t.pc ≠ .poll)
    (hpost : ∀ r user body, t.pc ≠ .post (.insert r user body)) : m.add t choice = m := by
  unfold Typing.add
  cases hp : t.pc with
  | poll => exact absurd hp hpc
  | post p =>
    cases p with
    | insert r user body => exact absurd hp (hpost r user body)
    | _ => rfl
  | _ => rfl

/-- The session loop ends. -/
theorem Follows.endSession (h : t.Follows rooms m) (hpost : ∀ p, t.pc ≠ .post p) :
    t.endSession.Follows rooms m := by
  have hending : t.endSession.pc.ending = true ∧ ∀ p, t.endSession.pc ≠ .post p := by
    unfold Telnet.endSession
    cases t.chat with
    | none => exact ⟨rfl, nofun⟩
    | some c => exact ⟨rfl, nofun⟩
  refine h.keep (fun hnot => ?_) (fun _ => hending.1) ?_
  · rw [hending.1] at hnot
    cases hnot
  · rw [pending_of_ne hpost, pending_of_ne hending.2]

/-- The chat is freed: back in the menu, or at the end. -/
theorem Follows.freed (h : t.Follows rooms m) {c : ChatState} (hc : t.chat = some c) (closing : Bool)
    (hpc : t.pc = .destroyUnsubscribe closing ∨ t.pc = .destroyPresence closing)
    (hpend : t.pending = []) : (t.chatFreed closing).Follows rooms m := by
  have hhead : t.pc.heading = .menu := by
    rcases hpc with hpc | hpc <;> rw [hpc] <;> rfl
  refine h.keep (fun _ => ?_) (fun hend => ?_) ?_
  · rw [picture_menu hc hhead]
    rfl
  · have hclosing : closing = true := by
      cases closing with
      | true => rfl
      | false => rcases hpc with hpc | hpc <;> rw [hpc] at hend <;> exact hend
    rw [hclosing]
    rfl
  · rw [hpend]
    cases closing <;> rfl

/-- A step from `poll`. -/
theorem Follows.poll {bytes : Nat} {shutdown : Bool} {choice : Choice} (h : t.Follows rooms m)
    (hpc : t.pc = .poll) (hok : t.Ok) (htexts : t.Texts)
    (hstep : t.pollStep rooms bytes shutdown choice = some t') :
    t'.Follows rooms (m.add t choice) := by
  have hpost : ∀ p, t.pc ≠ .post p := by
    rw [hpc]
    exact nofun
  have hend : t.endSession.Follows rooms m := h.endSession hpost
  cases choice with
  | key k =>
    rw [add_key m hpc]
    rcases Option.eq_none_or_eq_some t.chat with hc | ⟨c, hc⟩
    · unfold pollStep at hstep
      rw [hc] at hstep
      exact absurd hstep nofun
    · unfold pollStep at hstep
      rw [hc] at hstep
      cases hstep
      exact h.type hpc (handleKey_typist hc hpc hok htexts)
  | openChat =>
    have hstep : (if t.chat = none then some (t.chatCreate rooms) else none) = some t' := hstep
    obtain ⟨hc, heq⟩ := Option.ite_none_right_eq_some.mp hstep
    cases heq
    rw [add_openChat m hpc]
    refine h.type hpc ?_
    rw [picture_noChat hc]
    show _ = ((Typist.menu t.username).openChat, [])
    unfold chatCreate Typist.openChat
    dsimp only
    by_cases hname : t.username = []
    · rw [if_pos hname, if_neg (not_not.mpr hname)]
      have hpend := @pending_of_ne ({ t with chat := some chatBlank }.send (usernameScreen [])) hpost
      have hpic := @picture_stay ({ t with chat := some chatBlank }.send (usernameScreen [])) chatBlank
        rfl (by show t.pc.heading = _; rw [hpc]; rfl)
      exact Prod.ext hpic hpend
    · rw [if_neg hname, if_pos hname]
      rfl
  | resize rows =>
    have hstep : (if rows < 2 ^ 16 then some { t with termRows := rows } else none) = some t' := hstep
    obtain ⟨-, heq⟩ := Option.ite_none_right_eq_some.mp hstep
    cases heq
    have hadd : m.add t (.resize rows) = m := by
      unfold Typing.add
      rw [hpc]
    rw [hadd]
    exact h.keep (fun _ => rfl) id rfl
  | readable =>
    have hstep : (if 0 < bytes then some { t with pc := .drain } else none) = some t' := hstep
    obtain ⟨-, heq⟩ := Option.ite_none_right_eq_some.mp hstep
    cases heq
    have hadd : m.add t .readable = m := by
      unfold Typing.add
      rw [hpc]
    rw [hadd]
    exact h.move rfl rfl (by rw [hpc]; rfl) (by rw [hpc]; exact nofun) hpost nofun
  | hangup =>
    cases hstep
    have hadd : m.add t .hangup = m := by
      unfold Typing.add
      rw [hpc]
    rw [hadd]
    exact hend
  | go =>
    have hstep : (if shutdown then some t.endSession else none) = some t' := hstep
    obtain ⟨-, heq⟩ := Option.ite_none_right_eq_some.mp hstep
    cases heq
    have hadd : m.add t .go = m := by
      unfold Typing.add
      rw [hpc]
    rw [hadd]
    exact hend
  | _ => exact absurd hstep nofun

/-- A step of `chat_room_post`: the row is inserted, or what follows. -/
theorem Follows.post {sh : Shared} {choice : Choice} {p : PostPc} {p' : Option PostPc} {op : Op}
    (h : t.Follows rooms m) (hpc : t.pc = .post p) (hstep : postStep sh choice p = some (p', op)) :
    ({ t with pc := (p'.map TelnetPc.post).getD .postPresence } : Telnet).Follows rooms
      (m.add t choice) := by
  have hhead : ((p'.map TelnetPc.post).getD .postPresence).heading = t.pc.heading := by
    rw [hpc]
    cases p' with
    | none => rfl
    | some q => rfl
  have hend : t.pc.ending = true → ((p'.map TelnetPc.post).getD .postPresence).ending = true := by
    rw [hpc]
    exact nofun
  have hpic : ({ t with pc := (p'.map TelnetPc.post).getD .postPresence } : Telnet).picture = t.picture := by
    unfold Telnet.picture
    dsimp only
    rw [hhead]
  -- behind the insertion nothing is pending
  have hpast : ∀ q, p' = some q → ∀ r user body, q ≠ .insert r user body := by
    rintro q rfl r user body rfl
    cases p with
    | insert r' user' body' =>
      cases choice with
      | inserted id =>
        cases id with
        | none => exact absurd hstep nofun
        | some id => exact absurd hstep nofun
      | _ => exact absurd hstep nofun
    | lock r' id' => exact absurd hstep nofun
    | write r' id' rest =>
      cases rest with
      | nil => exact absurd hstep nofun
      | cons fd rest => exact absurd hstep nofun
  have hnone : ({ t with pc := (p'.map TelnetPc.post).getD .postPresence } : Telnet).pending = [] := by
    cases p' with
    | none => rfl
    | some q =>
      cases q with
      | insert r user body => exact absurd rfl (hpast _ rfl r user body)
      | lock r id => rfl
      | write r id rest => rfl
  cases p with
  | insert r user body =>
    cases choice with
    | inserted id =>
      rw [add_inserted m hpc]
      have hlines := h.lines
      have hpend : t.pending = [⟨r, user, body⟩] := by
        unfold pending
        rw [hpc]
      refine ⟨fun _ => ?_, ?_⟩
      · rw [hpic]
        exact h.picture (by rw [hpc]; rfl)
      · rw [hnone, List.append_nil, ← hlines, hpend]
        simp
    | _ => exact absurd hstep nofun
  | lock r id =>
    rw [add_quiet m (by rw [hpc]; exact nofun) (by rw [hpc]; exact nofun)]
    refine h.keep (fun _ => hpic) hend ?_
    rw [hnone]
    unfold pending
    rw [hpc]
  | write r id rest =>
    rw [add_quiet m (by rw [hpc]; exact nofun) (by rw [hpc]; exact nofun)]
    refine h.keep (fun _ => hpic) hend ?_
    rw [hnone]
    unfold pending
    rw [hpc]

/-- **Every step of the thread** keeps session and picture together. -/
theorem Follows.step {sh : Shared} {bytes : Nat} {shutdown : Bool} {choice : Choice} {op : Op}
    (h : t.Follows rooms m) (hok : t.Ok) (htexts : t.Texts)
    (hstep : t.step rooms sh bytes shutdown choice = some (t', op)) :
    t'.Follows rooms (m.add t choice) := by
  by_cases hpoll : t.pc = .poll
  · unfold Telnet.step at hstep
    rw [hpoll] at hstep
    dsimp only at hstep
    obtain ⟨t1, hnext, heq⟩ := Option.map_eq_some_iff.mp hstep
    cases heq
    exact h.poll hpoll hok htexts hnext
  by_cases hpost : ∃ p, t.pc = .post p
  · obtain ⟨p, hpc⟩ := hpost
    unfold Telnet.step at hstep
    rw [hpc] at hstep
    dsimp only at hstep
    obtain ⟨⟨p', op'⟩, hnext, heq⟩ := Option.map_eq_some_iff.mp hstep
    cases heq
    exact h.post hpc hnext
  have hpost : ∀ p, t.pc ≠ .post p := fun p hpc => hpost ⟨p, hpc⟩
  rw [add_quiet m hpoll fun r user body => hpost _]
  have hpend : t.pending = [] := pending_of_ne hpost
  cases step_stepped hstep with
  | key k c hpc hc hkey => exact absurd hpc hpoll
  | askName hpc hc hname => exact absurd hpc hpoll
  | openLobby hpc hc hname => exact absurd hpc hpoll
  | resize rows hpc => exact absurd hpc hpoll
  | readable hpc hbytes => exact absurd hpc hpoll
  | close hpc hc =>
    have heq : t.endSession = { t with pc := .closing } := by
      unfold Telnet.endSession
      rw [hc]
    rw [← heq]
    exact h.endSession hpost
  | closeChat c hpc hc =>
    have heq : t.endSession = { t with pc := .destroyUnsubscribe true } := by
      unfold Telnet.endSession
      rw [hc]
    rw [← heq]
    exact h.endSession hpost
  | lobbyRoom i room rest quit hpc =>
    exact h.move rfl rfl (by rw [hpc]; rfl) (by rw [hpc]; exact nofun) hpost nofun
  | lobbyEnd quit hpc =>
    cases quit with
    | false => exact h.move rfl rfl (by rw [hpc]; rfl) (by rw [hpc]; exact nofun) hpost nofun
    | true => exact h.move rfl rfl (by rw [hpc]; rfl) (by rw [hpc]; exact nofun) hpost nofun
  | enterPresence c room hpc hc hr =>
    exact h.move rfl rfl (by rw [hpc]; rfl) (by rw [hpc]; exact nofun) hpost nofun
  | enterSubscribe c room hpc hc hr =>
    exact h.move rfl rfl (by rw [hpc]; rfl) (by rw [hpc]; exact nofun) hpost nofun
  | page c room notified msgs hpc hc hr hmsgs =>
    refine h.keep (fun _ => ?_) (by rw [hpc]; exact nofun) (by rw [hpend]; rfl)
    rw [picture_stay hc (by rw [hpc]; rfl)]
    rfl
  | draw c room notified msgs hpc hc hr =>
    exact h.move rfl rfl (by rw [hpc]; rfl) (by rw [hpc]; exact nofun) hpost nofun
  | oldest c room hpc hc hr hmsgs =>
    exact h.move rfl rfl (by rw [hpc]; rfl) (by rw [hpc]; exact nofun) hpost nofun
  | older c room hpc hc hr hmsgs =>
    refine h.keep (fun _ => ?_) (by rw [hpc]; exact nofun) (by rw [hpend]; rfl)
    rw [picture_stay hc (by rw [hpc]; rfl)]
    rfl
  | post p p' op hpc hpost' => exact absurd hpc (hpost p)
  | posted p op hpc hpost' => exact absurd hpc (hpost p)
  | postPresence c room hpc hc hr =>
    refine h.keep (fun _ => ?_) (by rw [hpc]; exact nofun) (by rw [hpend]; rfl)
    rw [picture_room hc (by rw [hpc]; rfl) hr, picture_stay (t := t.resume c) rfl rfl]
    unfold ChatState.doing
    dsimp only
    rw [hr]
    rfl
  | leave c room quit hpc hc hr =>
    exact h.move rfl rfl (by rw [hpc]; rfl) (by rw [hpc]; exact nofun) hpost nofun
  | leaveNone c quit hpc hc hr =>
    refine h.keep (fun _ => ?_) (by rw [hpc]; exact nofun) (by rw [hpend]; rfl)
    cases quit with
    | false => rw [picture_lobby hc (by rw [hpc]; rfl)]; rfl
    | true => rw [picture_menu hc (by rw [hpc]; rfl)]; rfl
  | left c room quit hpc hc hr =>
    refine h.keep (fun _ => ?_) (by rw [hpc]; exact nofun) (by rw [hpend]; rfl)
    cases quit with
    | false => rw [picture_lobby hc (by rw [hpc]; rfl)]; rfl
    | true => rw [picture_menu hc (by rw [hpc]; rfl)]; rfl
  | drain hpc hbytes => exact h
  | drainEnd hpc hbytes =>
    exact h.move rfl rfl (by rw [hpc]; rfl) (by rw [hpc]; exact nofun) hpost nofun
  | redraw c hpc hnot hc hst hat =>
    exact h.move rfl rfl (by rw [hpc]; rfl) (by rw [hpc]; exact nofun) hpost nofun
  | idle hpc hidle =>
    exact h.move rfl rfl (by rw [hpc]; rfl) (by rw [hpc]; exact nofun) hpost nofun
  | destroy c room closing hpc hc hr =>
    exact h.move rfl rfl (by rw [hpc]; rfl) (by rw [hpc]; cases closing <;> exact id) hpost nofun
  | destroyNone c closing hpc hc hr => exact h.freed hc closing (Or.inl hpc) hpend
  | destroyed c room closing hpc hc hr => exact h.freed hc closing (Or.inr hpc) hpend

end Telnet

/-! ## §5. Every run. -/

/-- What an observer of connection `x` notes of a step. -/
def watchTyping (x : Nat) (s : Sys) (act : Act) (m : Typing) : Typing :=
  match (s.conns x).prog, act with
  | .telnet t, .run y choice => if y = x then m.add t choice else m
  | _, _ => m

/-- The server, with an observer of connection `x`. -/
def typingSystem (rooms : List ChatRoom) (x : Nat) : TransitionSystem (Sys × Typing) Act :=
  (chatSystem rooms).monitored (fun _ => ⟨[], []⟩) (watchTyping x)

theorem watchTyping_own {x : Nat} {s : Sys} {t : Telnet} (hprog : (s.conns x).prog = .telnet t)
    (choice : Choice) (m : Typing) : watchTyping x s (.run x choice) m = m.add t choice := by
  unfold watchTyping
  rw [hprog]
  exact if_pos rfl

theorem watchTyping_noSession {x : Nat} {s : Sys} (hprog : ∀ t, (s.conns x).prog ≠ .telnet t)
    (act : Act) (m : Typing) : watchTyping x s act m = m := by
  unfold watchTyping
  split
  · rename_i t y choice h
    exact absurd h (hprog t)
  · rfl

theorem watchTyping_other {x : Nat} {s : Sys} {act : Act} (hact : act.actor ≠ some x) (m : Typing) :
    watchTyping x s act m = m := by
  unfold watchTyping
  split
  · rename_i t y choice h
    exact if_neg fun heq => hact (congrArg some heq)
  · rfl

/-- The observer's notes fit the connection's program. -/
def Prog.Follows (rooms : List ChatRoom) (m : Typing) : Prog → Prop
  | .unused => m = ⟨[], []⟩
  | .telnet t => t.Follows rooms m
  | .http _ | .closed => m.tried.map Prod.fst = ((typist rooms).run (.menu []) m.typed).2

theorem telnetStart_follows (rooms : List ChatRoom) : telnetStart.Follows rooms ⟨[], []⟩ :=
  ⟨fun _ => rfl, rfl⟩

/-- **One step of the server.** -/
theorem follows_step {rooms : List ChatRoom} {x : Nat} {s s' : Sys} {act : Act} {m : Typing}
    (hs : s.Sound) (htexts : s.Texts) (h : (s.conns x).prog.Follows rooms m)
    (hstep : s.step rooms act = some s') :
    (s'.conns x).prog.Follows rooms (watchTyping x s act m) := by
  cases Sys.step_conn hstep x with
  | other n down hact hconn hn =>
    rw [watchTyping_other hact, hconn]
    exact h
  | connect p hp hunused hprog =>
    rw [watchTyping_noSession (fun t ht => Prog.noConfusion (hunused.symm.trans ht)), hprog]
    rw [hunused] at h
    have hm : m = ⟨[], []⟩ := h
    rw [hm]
    rcases hp with rfl | rfl
    · exact telnetStart_follows rooms
    · exact rfl
  | run choice p' op s1 hact hprog happly hs' =>
    have hprog' : (s'.conns x).prog = p' := by rw [hs', Sys.setProg_conn]
    rw [hprog']
    unfold Sys.progStep at hprog
    split at hprog
    · exact absurd hprog nofun
    · exact absurd hprog nofun
    · rename_i t ht
      rw [hact, watchTyping_own ht]
      rw [ht] at h
      have h : t.Follows rooms m := h
      split at hprog
      · -- the pipe is closed
        rename_i hpc
        cases hprog
        have hlines := h.lines
        rw [Telnet.pending_of_ne (by rw [hpc]; exact nofun), List.append_nil] at hlines
        rw [Telnet.add_quiet m (by rw [hpc]; exact nofun) (by rw [hpc]; exact nofun)]
        exact hlines
      · obtain ⟨⟨t', op'⟩, hown, heq⟩ := Option.map_eq_some_iff.mp hprog
        cases heq
        exact h.step (hs.telnet ht) (htexts x t ht) hown
    · rename_i e he
      rw [watchTyping_noSession fun t ht => Prog.noConfusion (he.symm.trans ht)]
      rw [he] at h
      have h : m.tried.map Prod.fst = ((typist rooms).run (.menu []) m.typed).2 := h
      split at hprog
      · cases hprog
        exact h
      · obtain ⟨⟨e', op'⟩, -, heq⟩ := Option.map_eq_some_iff.mp hprog
        cases heq
        exact h

/-- The rows that were inserted are in the table, in the order in which they were entered. -/
structure Typing.Stored (m : Typing) (db : ChatDb) : Prop where
  rows : ∀ sub id, (sub, some id) ∈ m.tried →
    ∃ ts, (⟨id, sub.roomId, sub.user, ts, sub.body⟩ : MessageRow) ∈ db.messages
  order : (m.tried.filterMap Prod.snd).Pairwise (· < ·)
  bound : ∀ id ∈ m.tried.filterMap Prod.snd, id ≤ db.seq

/-- The table grows. -/
theorem Typing.Stored.grow {m : Typing} {db db' : ChatDb} (h : m.Stored db)
    (hrows : ∀ row ∈ db.messages, row ∈ db'.messages) (hseq : db.seq ≤ db'.seq) : m.Stored db' where
  rows sub id hmem := by
    obtain ⟨ts, hrow⟩ := h.rows sub id hmem
    exact ⟨ts, hrows _ hrow⟩
  order := h.order
  bound id hid := le_trans (h.bound id hid) hseq

theorem add_tried (m : Typing) (t : Telnet) (choice : Choice) :
    (m.add t choice).tried = m.tried
      ∨ ∃ r user body id, t.pc = .post (.insert r user body) ∧ choice = .inserted id
        ∧ (m.add t choice).tried = m.tried ++ [(⟨r, user, body⟩, id)] := by
  by_cases hpost : ∃ r user body, t.pc = .post (.insert r user body)
  · obtain ⟨r, user, body, hpc⟩ := hpost
    unfold Typing.add
    rw [hpc]
    cases choice with
    | inserted id => exact Or.inr ⟨r, user, body, id, rfl, rfl, rfl⟩
    | _ => exact Or.inl rfl
  · by_cases hpoll : t.pc = .poll
    · unfold Typing.add
      rw [hpoll]
      cases choice <;> exact Or.inl rfl
    · rw [Telnet.add_quiet m hpoll fun r user body hpc => hpost ⟨r, user, body, hpc⟩]
      exact Or.inl rfl

theorem stored_step {rooms : List ChatRoom} {x : Nat} {s s' : Sys} {act : Act} {m : Typing}
    (hs : s.Sound) (h : m.Stored s.sh.db) (hstep : s.step rooms act = some s') :
    (watchTyping x s act m).Stored s'.sh.db := by
  have hgrow : (∀ row ∈ s.sh.db.messages, row ∈ s'.sh.db.messages) ∧ s.sh.db.seq ≤ s'.sh.db.seq := by
    rcases Sys.step_messages hs.threads hstep with hsame | ⟨y, r, id, user, body, -, hins⟩
    · rw [hsame.1, hsame.2]
      exact ⟨fun _ h => h, le_refl _⟩
    · rw [hins.db]
      exact ⟨fun row hrow => List.mem_append_left _ hrow, le_of_lt hins.assign.1⟩
  have hold := h.grow hgrow.1 hgrow.2
  by_cases hown : ∃ t choice, (s.conns x).prog = .telnet t ∧ act = .run x choice
  · obtain ⟨t, choice, ht, rfl⟩ := hown
    rw [watchTyping_own ht]
    rcases add_tried m t choice with htried | ⟨r, user, body, id, hpc, rfl, htried⟩
    · exact ⟨by rw [htried]; exact hold.rows, by rw [htried]; exact hold.order,
        by rw [htried]; exact hold.bound⟩
    · -- the INSERT of the line that was entered last
      cases id with
      | none =>
        refine ⟨?_, ?_, ?_⟩
        · intro sub id hmem
          rw [htried, List.mem_append, List.mem_singleton] at hmem
          rcases hmem with hmem | hmem
          · exact hold.rows sub id hmem
          · cases hmem
        · rw [htried, List.filterMap_append]
          simpa using hold.order
        · rw [htried, List.filterMap_append]
          simpa using hold.bound
      | some id =>
        have hdb : s.sh.db.MayAssign id
            ∧ s'.sh.db = chatDbInsertMessage s.sh.db r user body s.sh.now id := by
          have hrun : Sys.progStep rooms s.sh (s.conns x) (.inserted (some id))
              = some (.telnet { t with pc := .post (.lock r id) }, .insert r user body id) := by
            unfold Sys.progStep Telnet.step
            rw [ht]
            dsimp only
            rw [if_neg (by rw [hpc]; exact nofun), hpc]
            rfl
          obtain ⟨p', op, s1, hprog, happly, rfl⟩ := Sys.step_run hstep
          rw [hrun] at hprog
          cases hprog
          obtain ⟨hid, hs1⟩ := Option.ite_none_right_eq_some.mp happly
          cases hs1
          exact ⟨hid, rfl⟩
        obtain ⟨⟨hid, -⟩, hdb⟩ := hdb
        refine ⟨?_, ?_, ?_⟩
        · intro sub id' hmem
          rw [htried, List.mem_append, List.mem_singleton] at hmem
          rcases hmem with hmem | hmem
          · exact hold.rows sub id' hmem
          · cases hmem
            rw [hdb]
            exact ⟨s.sh.now, List.mem_append_right _ (List.mem_singleton_self _)⟩
        · rw [htried, List.filterMap_append, List.pairwise_append]
          refine ⟨h.order, List.pairwise_singleton _ _, ?_⟩
          intro a ha b hb
          have hb : b = id := by simpa using hb
          rw [hb]
          exact lt_of_le_of_lt (h.bound a ha) hid
        · rw [htried, List.filterMap_append]
          intro a ha
          rcases List.mem_append.mp ha with ha | ha
          · exact hold.bound a ha
          · have ha : a = id := by simpa using ha
            rw [ha, hdb]
            exact le_refl _
  · have hsame : watchTyping x s act m = m := by
      by_cases hact : act.actor = some x
      · apply watchTyping_noSession
        intro t ht
        cases act with
        | run y choice =>
          cases hact
          exact hown ⟨t, choice, ht, rfl⟩
        | connectTelnet y fd =>
          cases hact
          have hunused := (Sys.connect_conn hstep).1
          rw [ht] at hunused
          cases hunused
        | connectHttp y fd =>
          cases hact
          have hunused := (Sys.connect_conn hstep).1
          rw [ht] at hunused
          cases hunused
        | tick secs => cases hact
        | flag y => cases hact
        | wake y => cases hact
      · exact watchTyping_other hact m
    rw [hsame]
    exact hold

/-- **What is typed is what is posted.**  Over every run of the server, with any number of other
sessions, streams and posts between any two steps of a telnet session: as long as the session
lasts, its user is where the keys typed there have led, with the name and the line that were
typed and nobody else can change; the rows the session has tried to insert are, in order and
once each, the lines that were entered, under the room that was chosen and the name that was
typed, uncut and unchanged, and none is left out when the connection ends; those that SQLite took
are in the table, with ids in the order in which they were entered. -/
theorem typed_posted {rooms : List ChatRoom} {x : Nat} {p : Sys × Typing}
    (h : (typingSystem rooms x).Reachable p) :
    (∀ t, (p.1.conns x).prog = .telnet t →
        (t.pc.ending = false → t.picture = ((typist rooms).run (.menu []) p.2.typed).1)
          ∧ p.2.tried.map Prod.fst ++ t.pending = ((typist rooms).run (.menu []) p.2.typed).2)
      ∧ ((p.1.conns x).prog = .closed →
        p.2.tried.map Prod.fst = ((typist rooms).run (.menu []) p.2.typed).2)
      ∧ (∀ sub id, (sub, some id) ∈ p.2.tried →
        ∃ ts, (⟨id, sub.roomId, sub.user, ts, sub.body⟩ : MessageRow) ∈ p.1.sh.db.messages)
      ∧ (p.2.tried.filterMap Prod.snd).Pairwise (· < ·) := by
  have hinv : (p.1.conns x).prog.Follows rooms p.2 ∧ p.2.Stored p.1.sh.db := by
    refine ReachableVia.strengthen (Q := fun p => (chatSystem rooms).Reachable p.1)
      (P := fun p : Sys × Typing => (p.1.conns x).prog.Follows rooms p.2 ∧ p.2.Stored p.1.sh.db)
      (fun p hp => monitored_reachable hp) ?_ ?_ h
    · rintro ⟨s, m⟩ ⟨⟨db, now, -, rfl⟩, hm⟩
      have hm : m = ⟨[], []⟩ := hm
      subst hm
      exact ⟨rfl, ⟨nofun, List.Pairwise.nil, nofun⟩⟩
    · intro q act q' hq hinv hstep _
      obtain ⟨hstep, hwatch⟩ := monitored_step hstep
      rw [hwatch]
      exact ⟨follows_step (reachable_sound hq) (reachable_texts hq) hinv.1 hstep,
        stored_step (reachable_sound hq) hinv.2 hstep⟩
  obtain ⟨hfollows, hstored⟩ := hinv
  refine ⟨?_, ?_, hstored.rows, hstored.order⟩
  · intro t ht
    rw [ht] at hfollows
    exact ⟨Telnet.Follows.picture hfollows, Telnet.Follows.lines hfollows⟩
  · intro hclosed
    rw [hclosed] at hfollows
    exact hfollows

/-- A user enters the room, writes a line with a typo in it while another post comes in, and enters
it. -/
def correctedActs : List Act :=
  enterActs 0 ++ [.run 0 (.key 105), .run 0 (.key 104), .run 0 (.key 120)] ++ postActs 1 1
    ++ redrawActs 0 ++ [.run 0 (.key 127), .run 0 (.key 105), .run 0 (.key 13),
      .run 0 (.inserted (some 2))]

theorem typed_posted_corrected :
    ∃ p, (typingSystem [demoRoom] 0).Reachable p
      ∧ ((typist [demoRoom]).run (.menu []) p.2.typed).2 = [⟨1, ascii "a", ascii "hi"⟩]
      ∧ ∃ ts, (⟨2, 1, ascii "a", ts, ascii "hi"⟩ : MessageRow) ∈ p.1.sh.db.messages := by
  obtain ⟨p, hrun, hcheck⟩ := @exists_of_run _ _ (typingSystem [demoRoom] 0)
    (sysStart emptyDb 0, ⟨[], []⟩) correctedActs
    (fun p => decide (((typist [demoRoom]).run (.menu []) p.2.typed).2 = [⟨1, ascii "a", ascii "hi"⟩]
      ∧ p.2.tried = [(⟨1, ascii "a", ascii "hi"⟩, some 2)])) (by decide +kernel)
  obtain ⟨hlines, htried⟩ := of_decide_eq_true hcheck
  have hstart : (typingSystem [demoRoom] 0).Reachable (sysStart emptyDb 0, ⟨[], []⟩) :=
    .init ⟨⟨emptyDb, 0, emptyDb_wf, rfl⟩, rfl⟩
  have hreach := run_reachable _ _ _ hstart hrun
  have hrows := (typed_posted hreach).2.2.1 ⟨1, ascii "a", ascii "hi"⟩ 2
    (by rw [htried]; exact List.mem_singleton_self _)
  exact ⟨p, hreach, hlines, hrows⟩

end NetServer.Chat
