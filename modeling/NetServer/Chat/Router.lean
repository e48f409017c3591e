/-
  NetServer.Chat.Router — `http_dispatch` on the bytes of the path.

  Two routes read a room's id with `strtol`, which takes blanks, a sign and
  any number of digits.  `match_room_sub` looks at where the number ends;
  the route of the event stream does not.

  The README's table is `RoomHandler`: a method and what stands before and
  after the id.  Main results:

    • `matchRoomSub_eq_some` — the paths `match_room_sub` takes;
    • `dispatch_room_iff` — the requests that reach a room's handler;
    • `dispatch_clientError` — everything else that is no fixed route is
      answered with a 4xx;
    • `router_documented_iff` — when that is what the table says.
-/
import NetServer.Chat.Room
import NetServer.Http.Proto

namespace NetServer.Chat

open NetServer.Lib
open NetServer.Http

/-! ## §1. The registry. -/

/-- `CHAT_MAX_ROOMS`. -/
def chatMaxRooms : Nat := 8

/-- The rooms loaded at start: at most `CHAT_MAX_ROOMS`, each with its own id,
which is a `long`. -/
structure RoomRegistry where
  rooms : List ChatRoom
  bounded : rooms.length ≤ chatMaxRooms
  distinct : (rooms.map ChatRoom.id).Nodup
  isLong : ∀ r ∈ rooms, longMin ≤ r.id ∧ r.id ≤ longMax

/-- `chat_room_by_id`. -/
def chatRoomById (reg : RoomRegistry) (id : Int) : Option ChatRoom :=
  reg.rooms.find? (fun r => r.id = id)

theorem chatRoomById_eq_some {reg : RoomRegistry} {id : Int} {r : ChatRoom} :
    chatRoomById reg id = some r ↔ r ∈ reg.rooms ∧ r.id = id := by
  unfold chatRoomById
  constructor
  · intro h
    have hid := List.find?_some h
    rw [decide_eq_true_eq] at hid
    exact ⟨List.mem_of_find?_eq_some h, hid⟩
  · rintro ⟨hmem, hid⟩
    cases hfind : reg.rooms.find? (fun r => r.id = id) with
    | none =>
        have hno := List.find?_eq_none.mp hfind r hmem
        exact absurd (decide_eq_true hid) hno
    | some r' =>
        have hid' := List.find?_some hfind
        rw [decide_eq_true_eq] at hid'
        exact congrArg some
          (List.inj_on_of_nodup_map reg.distinct (List.mem_of_find?_eq_some hfind) hmem
            (hid'.trans hid.symm))

/-! ## §2. The router. -/

/-- The handlers that are given a room. -/
inductive RoomHandler where
  | messagesGet
  | messagesPost
  | users
  | events
  deriving Repr, DecidableEq

/-- What `http_dispatch` does with a request. -/
inductive Route where
  /-- `serve_static`. -/
  | static (name ctype : String)
  /-- The health check. -/
  | health
  /-- `handle_rooms`. -/
  | rooms
  | room (h : RoomHandler) (r : ChatRoom)
  /-- `http_respond_json` with an error. -/
  | json (status : Nat) (body : String)
  /-- `http_respond_text` with an error. -/
  | text (status : Nat) (body : String)
  deriving Repr, DecidableEq

def roomsPath : List UInt8 := ascii "/api/rooms/"
def eventsPath : List UInt8 := ascii "/api/events/rooms/"

def noSuchRoom : Route := .json 404 "\x7b\"error\":\"no such room\"\x7d"
def notFound : Route := .text 404 "Not Found\n"

/-- `match_room_sub`: the id and what follows its slash. -/
def matchRoomSub (path : List UInt8) : Option (Int × List UInt8) :=
  if roomsPath.isPrefixOf path then
    let p := path.drop roomsPath.length
    let e := strtolEnd p
    if e = 0 ∨ p[e]? ≠ some 47 then none else some (strtol p, p.drop (e + 1))
  else none

/-- The last route of `http_dispatch`: the end of the number is not looked at. -/
def dispatchEvents (reg : RoomRegistry) (method : HttpMethod) (path : List UInt8) : Route :=
  if method = .get ∧ eventsPath.isPrefixOf path then
    match chatRoomById reg (strtol (path.drop eventsPath.length)) with
    | none => noSuchRoom
    | some r => .room .events r
  else notFound

/-- The routes below a room that was found. -/
def dispatchSub (reg : RoomRegistry) (method : HttpMethod) (path sub : List UInt8) (r : ChatRoom) :
    Route :=
  if sub = ascii "messages" then
    if method = .get then .room .messagesGet r
    else if method = .post then .room .messagesPost r
    else .text 405 "Method Not Allowed\n"
  else if sub = ascii "users" ∧ method = .get then .room .users r
  else dispatchEvents reg method path

/-- The routes with a room, tried after the fixed ones. -/
def dispatchRoom (reg : RoomRegistry) (method : HttpMethod) (path : List UInt8) : Route :=
  match matchRoomSub path with
  | some (id, sub) =>
      match chatRoomById reg id with
      | none => noSuchRoom
      | some r => dispatchSub reg method path sub r
  | none => dispatchEvents reg method path

/-- `http_dispatch`, up to the handlers. -/
def httpDispatch (reg : RoomRegistry) (method : HttpMethod) (path : List UInt8) : Route :=
  if method = .get ∧ (cString path = ascii "/" ∨ cString path = ascii "/index.html") then
    .static "index.html" "text/html; charset=utf-8"
  else if method = .get ∧ cString path = ascii "/app.js" then
    .static "app.js" "application/javascript; charset=utf-8"
  else if method = .get ∧ cString path = ascii "/api/health" then .health
  else if method = .get ∧ cString path = ascii "/api/rooms" then .rooms
  else dispatchRoom reg method (cString path)

/-! ## §3. What is documented. -/

/-- The fixed routes. -/
def fixedPaths : List (List UInt8) :=
  [ascii "/", ascii "/index.html", ascii "/app.js", ascii "/api/health", ascii "/api/rooms"]

def RoomHandler.method : RoomHandler → HttpMethod
  | .messagesGet => .get
  | .messagesPost => .post
  | .users => .get
  | .events => .get

/-- What stands before the id. -/
def RoomHandler.before : RoomHandler → List UInt8
  | .events => ascii "/api/events/rooms/"
  | _ => ascii "/api/rooms/"

/-- What stands behind it. -/
def RoomHandler.after : RoomHandler → List UInt8
  | .messagesGet => ascii "/messages"
  | .messagesPost => ascii "/messages"
  | .users => ascii "/users"
  | .events => []

/-- A non-empty string of decimal digits with the value `id`. -/
def PlainId (text : List UInt8) (id : Int) : Prop :=
  text ≠ [] ∧ (∀ d ∈ text, isDigit d = true) ∧ (decimalValue text : Int) = id

/-- The request is the documented one for the handler and the room. -/
def Documented (reg : RoomRegistry) (method : HttpMethod) (path : List UInt8) (h : RoomHandler)
    (r : ChatRoom) : Prop :=
  r ∈ reg.rooms ∧ method = h.method
    ∧ ∃ text, path = h.before ++ text ++ h.after ∧ PlainId text r.id

/-- A 4xx response. -/
def Route.ClientError : Route → Prop
  | .json status _ => 400 ≤ status ∧ status < 500
  | .text status _ => 400 ≤ status ∧ status < 500
  | _ => False

/-- How the source reads the id: to the slash, or as far as `strtol` gets. -/
def RoomHandler.Reads (h : RoomHandler) (text : List UInt8) (id : Int) : Prop :=
  if h = .events then strtol text = id else Numeral text id

/-- The source reads a room's id from a text that is not the documented one. -/
def Lenient (reg : RoomRegistry) (method : HttpMethod) (path : List UInt8) : Prop :=
  ∃ (h : RoomHandler) (r : ChatRoom) (text : List UInt8), r ∈ reg.rooms ∧ method = h.method
    ∧ path = h.before ++ text ++ h.after ∧ h.Reads text r.id ∧ ¬ PlainId text r.id

/-! ## §4. Which requests reach a room's handler. -/

/-- The paths that `match_room_sub` takes. -/
theorem matchRoomSub_eq_some {path sub : List UInt8} {id : Int} :
    matchRoomSub path = some (id, sub)
      ↔ ∃ text, path = roomsPath ++ text ++ 47 :: sub ∧ Numeral text id := by
  unfold matchRoomSub
  constructor
  · intro h
    dsimp only at h
    split_ifs at h with hpre hbad
    obtain ⟨p, rfl⟩ := List.isPrefixOf_iff_prefix.mp hpre
    rw [List.drop_left] at h hbad
    rw [not_or, not_not] at hbad
    obtain ⟨hend, hslash⟩ := hbad
    obtain ⟨rfl, rfl⟩ := Prod.mk.inj (Option.some.inj h)
    refine ⟨p.take (strtolEnd p), ?_, numeral_of_strtolEnd hend⟩
    have hlt : strtolEnd p < p.length := (List.getElem?_eq_some_iff.mp hslash).1
    have hget : p[strtolEnd p] = 47 := (List.getElem?_eq_some_iff.mp hslash).2
    rw [List.append_assoc]
    congr 1
    calc p = p.take (strtolEnd p) ++ p.drop (strtolEnd p) := (List.take_append_drop _ _).symm
      _ = p.take (strtolEnd p) ++ 47 :: p.drop (strtolEnd p + 1) := by
          rw [List.drop_eq_getElem_cons hlt, hget]
  · rintro ⟨text, rfl, hnum⟩
    -- the slash ends the number
    obtain ⟨hval, hend⟩ := @strtol_numeral text (47 :: sub) id hnum rfl
    have hne : text.length ≠ 0 := by
      obtain ⟨blanks, sign, ds, rfl, -, -, hds, -⟩ := hnum
      intro hz
      rw [List.length_append, List.length_append] at hz
      exact hds (List.length_eq_zero_iff.mp (by omega))
    rw [List.append_assoc, List.drop_left]
    rw [if_pos (List.isPrefixOf_iff_prefix.mpr (List.prefix_append _ _))]
    dsimp only
    rw [hval, hend, List.getElem?_append_right (Nat.le_refl _), Nat.sub_self]
    rw [if_neg (by simp [hne])]
    congr 2
    rw [← List.drop_drop, List.drop_left]
    rfl

theorem messages_after : ascii "/messages" = 47 :: ascii "messages" := by decide +kernel

theorem users_after : ascii "/users" = 47 :: ascii "users" := by decide +kernel

/-- No path is of both kinds. -/
theorem roomsPath_ne_events (a b : List UInt8) : roomsPath ++ a ≠ eventsPath ++ b := by
  intro h
  have htake := congrArg (List.take 6) h
  rw [List.take_append_of_le_length (by decide +kernel),
    List.take_append_of_le_length (by decide +kernel)] at htake
  exact absurd htake (by decide +kernel)

theorem matchRoomSub_events (text : List UInt8) : matchRoomSub (eventsPath ++ text) = none := by
  cases h : matchRoomSub (eventsPath ++ text) with
  | none => rfl
  | some m =>
      obtain ⟨id, sub⟩ := m
      obtain ⟨num, heq, -⟩ := matchRoomSub_eq_some.mp h
      rw [List.append_assoc] at heq
      exact absurd heq.symm (roomsPath_ne_events _ _)

/-- A path below `/api/rooms/` does not reach the event stream. -/
theorem dispatchEvents_rooms (reg : RoomRegistry) (method : HttpMethod) (p : List UInt8) :
    dispatchEvents reg method (roomsPath ++ p) = notFound := by
  unfold dispatchEvents
  rw [if_neg]
  rintro ⟨-, hpre⟩
  obtain ⟨q, hq⟩ := List.isPrefixOf_iff_prefix.mp hpre
  exact roomsPath_ne_events _ _ hq.symm

/-- The event stream route. -/
theorem dispatchEvents_room {reg : RoomRegistry} {method : HttpMethod} {path : List UInt8}
    {h : RoomHandler} {r : ChatRoom} :
    dispatchEvents reg method path = .room h r
      ↔ h = .events ∧ method = .get ∧ ∃ text, path = eventsPath ++ text
          ∧ r ∈ reg.rooms ∧ r.id = strtol text := by
  unfold dispatchEvents
  constructor
  · intro heq
    split_ifs at heq with hroute
    · obtain ⟨hget, hpre⟩ := hroute
      obtain ⟨text, rfl⟩ := List.isPrefixOf_iff_prefix.mp hpre
      rw [List.drop_left] at heq
      cases hroom : chatRoomById reg (strtol text) with
      | none =>
          rw [hroom] at heq
          cases heq
      | some r' =>
          rw [hroom] at heq
          cases heq
          exact ⟨rfl, hget, text, rfl, chatRoomById_eq_some.mp hroom⟩
    · cases heq
  · rintro ⟨rfl, hget, text, rfl, hroom⟩
    rw [if_pos ⟨hget, List.isPrefixOf_iff_prefix.mpr (List.prefix_append _ _)⟩, List.drop_left,
      chatRoomById_eq_some.mpr hroom]

/-- A path with a numeral of a registered room goes on to the routes below it. -/
theorem dispatchRoom_found {reg : RoomRegistry} {r : ChatRoom} {text : List UInt8}
    (hmem : r ∈ reg.rooms) (hnum : Numeral text r.id) (method : HttpMethod) (sub : List UInt8) :
    dispatchRoom reg method (roomsPath ++ text ++ 47 :: sub)
      = dispatchSub reg method (roomsPath ++ text ++ 47 :: sub) sub r := by
  unfold dispatchRoom
  rw [matchRoomSub_eq_some.mpr ⟨text, rfl, hnum⟩]
  dsimp only
  rw [chatRoomById_eq_some.mpr ⟨hmem, rfl⟩]

/-- The routes below a room. -/
theorem dispatchSub_room {reg : RoomRegistry} {method : HttpMethod} {p sub : List UInt8}
    {h : RoomHandler} {r r' : ChatRoom}
    (heq : dispatchSub reg method (roomsPath ++ p) sub r' = .room h r) :
    r = r' ∧ method = h.method ∧ h ≠ .events ∧ h.after = 47 :: sub := by
  unfold dispatchSub at heq
  rw [dispatchEvents_rooms] at heq
  split_ifs at heq with hmsg hget hpost husers
  · cases heq
    exact ⟨rfl, hget, nofun, hmsg ▸ messages_after⟩
  · cases heq
    exact ⟨rfl, hpost, nofun, hmsg ▸ messages_after⟩
  · cases heq
    exact ⟨rfl, husers.2, nofun, husers.1 ▸ users_after⟩
  · cases heq

/-- **The requests that reach a room's handler**, behind the fixed routes. -/
theorem dispatchRoom_room {reg : RoomRegistry} {method : HttpMethod} {path : List UInt8}
    {h : RoomHandler} {r : ChatRoom} :
    dispatchRoom reg method path = .room h r
      ↔ r ∈ reg.rooms ∧ method = h.method
        ∧ ∃ text, path = h.before ++ text ++ h.after ∧ h.Reads text r.id := by
  constructor
  · intro heq
    unfold dispatchRoom at heq
    cases hsub : matchRoomSub path with
    | none =>
        rw [hsub] at heq
        obtain ⟨rfl, hget, text, rfl, hmem, hid⟩ := dispatchEvents_room.mp heq
        exact ⟨hmem, hget, text, (List.append_nil _).symm, hid.symm⟩
    | some m =>
        obtain ⟨id, sub⟩ := m
        obtain ⟨text, rfl, hnum⟩ := matchRoomSub_eq_some.mp hsub
        rw [hsub] at heq
        dsimp only at heq
        cases hroom : chatRoomById reg id with
        | none =>
            rw [hroom] at heq
            cases heq
        | some r' =>
            rw [hroom, List.append_assoc] at heq
            obtain ⟨hmem, hid⟩ := chatRoomById_eq_some.mp hroom
            obtain ⟨rfl, hmethod, hne, hafter⟩ := dispatchSub_room heq
            refine ⟨hmem, hmethod, text, ?_, ?_⟩
            · rw [hafter]
              cases h <;> first | rfl | exact absurd rfl hne
            · unfold RoomHandler.Reads
              rw [if_neg hne, hid]
              exact hnum
  · rintro ⟨hmem, hmethod, text, rfl, hreads⟩
    cases h with
    | messagesGet =>
        show dispatchRoom reg method (roomsPath ++ text ++ ascii "/messages") = _
        rw [messages_after, dispatchRoom_found hmem hreads, hmethod]
        rfl
    | messagesPost =>
        show dispatchRoom reg method (roomsPath ++ text ++ ascii "/messages") = _
        rw [messages_after, dispatchRoom_found hmem hreads, hmethod]
        rfl
    | users =>
        show dispatchRoom reg method (roomsPath ++ text ++ ascii "/users") = _
        rw [users_after, dispatchRoom_found hmem hreads, hmethod]
        rfl
    | events =>
        have hpath : RoomHandler.events.before ++ text ++ RoomHandler.events.after
            = eventsPath ++ text := List.append_nil _
        rw [hpath]
        unfold dispatchRoom
        rw [matchRoomSub_events]
        exact dispatchEvents_room.mpr ⟨rfl, hmethod, text, rfl, hmem, Eq.symm hreads⟩

/-- A path that starts as a room's does is no fixed one. -/
theorem before_not_fixed (h : RoomHandler) (p : List UInt8) : h.before ++ p ∉ fixedPaths := by
  intro hmem
  have hpre : h.before <+: h.before ++ p := List.prefix_append _ _
  have hno : ∀ f ∈ fixedPaths, ¬ h.before <+: f := by
    cases h <;> decide +kernel
  exact hno _ hmem hpre

theorem httpDispatch_room {reg : RoomRegistry} {method : HttpMethod} {path : List UInt8}
    (hfixed : path ∉ fixedPaths) (hnul : 0 ∉ path) :
    httpDispatch reg method path = dispatchRoom reg method path := by
  unfold fixedPaths at hfixed
  simp only [List.mem_cons, List.not_mem_nil, or_false, not_or] at hfixed
  obtain ⟨hroot, hindex, happ, hhealth, hrooms⟩ := hfixed
  unfold httpDispatch
  rw [cString_of_notMem hnul, if_neg, if_neg, if_neg, if_neg]
  · exact fun hc => hrooms hc.2
  · exact fun hc => hhealth hc.2
  · exact fun hc => happ hc.2
  · exact fun hc => hc.2.elim hroot hindex

/-- **The requests that reach a room's handler.** -/
theorem dispatch_room_iff {reg : RoomRegistry} {method : HttpMethod} {path : List UInt8}
    (hnul : 0 ∉ path) {h : RoomHandler} {r : ChatRoom} :
    httpDispatch reg method path = .room h r
      ↔ r ∈ reg.rooms ∧ method = h.method
        ∧ ∃ text, path = h.before ++ text ++ h.after ∧ h.Reads text r.id := by
  constructor
  · intro heq
    unfold httpDispatch at heq
    rw [cString_of_notMem hnul] at heq
    split_ifs at heq
    exact dispatchRoom_room.mp heq
  · rintro ⟨hmem, hmethod, text, rfl, hreads⟩
    have hfixed : h.before ++ text ++ h.after ∉ fixedPaths := by
      rw [List.append_assoc]
      exact before_not_fixed h _
    rw [httpDispatch_room hfixed hnul]
    exact dispatchRoom_room.mpr ⟨hmem, hmethod, text, rfl, hreads⟩

/-! ## §5. Everything else. -/

theorem dispatchEvents_kind (reg : RoomRegistry) (method : HttpMethod) (path : List UInt8) :
    (∃ h r, dispatchEvents reg method path = .room h r)
      ∨ (dispatchEvents reg method path).ClientError := by
  unfold dispatchEvents
  split_ifs
  · cases chatRoomById reg (strtol (path.drop eventsPath.length)) with
    | none => exact Or.inr (show 400 ≤ 404 ∧ 404 < 500 by decide)
    | some r => exact Or.inl ⟨.events, r, rfl⟩
  · exact Or.inr (show 400 ≤ 404 ∧ 404 < 500 by decide)

theorem dispatchRoom_kind (reg : RoomRegistry) (method : HttpMethod) (path : List UInt8) :
    (∃ h r, dispatchRoom reg method path = .room h r)
      ∨ (dispatchRoom reg method path).ClientError := by
  unfold dispatchRoom
  cases matchRoomSub path with
  | none => exact dispatchEvents_kind reg method path
  | some m =>
      obtain ⟨id, sub⟩ := m
      dsimp only
      cases chatRoomById reg id with
      | none => exact Or.inr (show 400 ≤ 404 ∧ 404 < 500 by decide)
      | some r =>
          dsimp only
          unfold dispatchSub
          split_ifs
          · exact Or.inl ⟨.messagesGet, r, rfl⟩
          · exact Or.inl ⟨.messagesPost, r, rfl⟩
          · exact Or.inr (show 400 ≤ 405 ∧ 405 < 500 by decide)
          · exact Or.inl ⟨.users, r, rfl⟩
          · exact dispatchEvents_kind reg method path

/-- **A request that reaches no room and is no fixed route gets a 4xx.** -/
theorem dispatch_clientError {reg : RoomRegistry} {method : HttpMethod} {path : List UInt8}
    (hnul : 0 ∉ path) (hfixed : path ∉ fixedPaths)
    (hroom : ∀ h r, httpDispatch reg method path ≠ .room h r) :
    (httpDispatch reg method path).ClientError := by
  rw [httpDispatch_room hfixed hnul] at hroom ⊢
  rcases dispatchRoom_kind reg method path with ⟨h, r, heq⟩ | herr
  · exact absurd heq (hroom h r)
  · exact herr

/-! ## §6. The documented paths. -/

/-- The documented text of an id is read as the id. -/
theorem reads_of_plainId {h : RoomHandler} {text : List UInt8} {id : Int} (hid : id ≤ longMax)
    (hplain : PlainId text id) : h.Reads text id := by
  obtain ⟨hne, hdigits, hval⟩ := hplain
  have hnum : Numeral text id := by
    refine ⟨[], [], text, rfl, nofun, Or.inl rfl, hne, hdigits, ?_⟩
    rw [if_neg (by decide), hval, min_eq_left hid]
  unfold RoomHandler.Reads
  split_ifs
  · have hread := (@strtol_numeral text [] id hnum rfl).1
    rwa [List.append_nil] at hread
  · exact hnum

/-- **The router and its documentation.**  For every NUL-free path, method and
set of rooms: a room's handler is run exactly for the documented requests, and
every other path that is no fixed route gets a 4xx, exactly when the source does
not read a registered id from a text that is not a string of digits with that
value. -/
theorem router_documented_iff (reg : RoomRegistry) (method : HttpMethod) (path : List UInt8)
    (hnul : 0 ∉ path) :
    ((∀ h r, httpDispatch reg method path = .room h r ↔ Documented reg method path h r)
        ∧ ((∀ h r, ¬ Documented reg method path h r) → path ∉ fixedPaths →
          (httpDispatch reg method path).ClientError))
      ↔ ¬ Lenient reg method path := by
  constructor
  · rintro ⟨hexact, -⟩ ⟨h, r, text, hmem, hmethod, hpath, hreads, hplain⟩
    have hrun := (dispatch_room_iff hnul).mpr ⟨hmem, hmethod, text, hpath, hreads⟩
    obtain ⟨-, -, text', hpath', hplain'⟩ := (hexact h r).mp hrun
    -- the table leaves one text for the id
    have htext : text = text' := by
      rw [hpath] at hpath'
      exact List.append_cancel_left (List.append_cancel_right hpath')
    exact hplain (htext ▸ hplain')
  · intro hstrict
    have hexact : ∀ h r, httpDispatch reg method path = .room h r
        ↔ Documented reg method path h r := by
      intro h r
      rw [dispatch_room_iff hnul]
      constructor
      · rintro ⟨hmem, hmethod, text, hpath, hreads⟩
        refine ⟨hmem, hmethod, text, hpath, ?_⟩
        by_contra hplain
        exact hstrict ⟨h, r, text, hmem, hmethod, hpath, hreads, hplain⟩
      · rintro ⟨hmem, hmethod, text, hpath, hplain⟩
        exact ⟨hmem, hmethod, text, hpath, reads_of_plainId (reg.isLong r hmem).2 hplain⟩
    refine ⟨hexact, ?_⟩
    intro hnone hfixed
    exact dispatch_clientError hnul hfixed fun h r heq => hnone h r ((hexact h r).mp heq)

/-- Room number 1. -/
def lobbyRoom : ChatRoom := ⟨1, ascii "lobby", by decide +kernel⟩

/-- A registry with that room only. -/
def lobbyOnly : RoomRegistry where
  rooms := [lobbyRoom]
  bounded := by decide
  distinct := by simp
  isLong := by
    intro r hr
    rw [List.mem_singleton] at hr
    subst hr
    exact ⟨by decide, by decide⟩

/-- A leading zero is documented, and it is the only reading of the path. -/
theorem router_documented_leadingZero :
    httpDispatch lobbyOnly .get (ascii "/api/rooms/01/messages") = .room .messagesGet lobbyRoom := by
  have hplain : PlainId (ascii "01") lobbyRoom.id :=
    ⟨by decide +kernel, by decide +kernel, by decide +kernel⟩
  have hpath : ascii "/api/rooms/01/messages"
      = RoomHandler.messagesGet.before ++ ascii "01" ++ RoomHandler.messagesGet.after := by
    decide +kernel
  have hstrict : ¬ Lenient lobbyOnly .get (ascii "/api/rooms/01/messages") := by
    rintro ⟨h, r, text, hmem, hmethod, htext, -, hno⟩
    obtain rfl : r = lobbyRoom := List.mem_singleton.mp hmem
    have hafter : h.after <:+ ascii "/api/rooms/01/messages" := ⟨_, htext.symm⟩
    have hbefore : h.before <+: ascii "/api/rooms/01/messages" := by
      rw [htext, List.append_assoc]
      exact List.prefix_append _ _
    cases h with
    | messagesGet =>
        have hsame := List.append_cancel_left (List.append_cancel_right (htext.symm.trans hpath))
        exact hno (hsame ▸ hplain)
    | messagesPost => cases hmethod
    | users => exact absurd hafter (by decide +kernel)
    | events => exact absurd hbefore (by decide +kernel)
  have hrun := (router_documented_iff lobbyOnly .get _ (by decide +kernel)).mpr hstrict
  exact (hrun.1 .messagesGet lobbyRoom).mpr
    ⟨List.mem_singleton.mpr rfl, rfl, ascii "01", hpath, hplain⟩

/-- The event stream of room 1 under `1abc`, and its messages under `+1`. -/
theorem router_lenient_paths :
    httpDispatch lobbyOnly .get (ascii "/api/events/rooms/1abc") = .room .events lobbyRoom
      ∧ ¬ Documented lobbyOnly .get (ascii "/api/events/rooms/1abc") .events lobbyRoom
      ∧ httpDispatch lobbyOnly .get (ascii "/api/rooms/+1/messages")
          = .room .messagesGet lobbyRoom
      ∧ ¬ Documented lobbyOnly .get (ascii "/api/rooms/+1/messages") .messagesGet lobbyRoom := by
  refine ⟨by decide +kernel, ?_, by decide +kernel, ?_⟩
  · rintro ⟨-, -, text, htext, -, hdigits, -⟩
    have hpath : ascii "/api/events/rooms/1abc"
        = RoomHandler.events.before ++ ascii "1abc" ++ RoomHandler.events.after := by decide +kernel
    have hsame := List.append_cancel_left (List.append_cancel_right (htext.symm.trans hpath))
    rw [hsame] at hdigits
    exact absurd (hdigits 97 (by decide +kernel)) (by decide)
  · rintro ⟨-, -, text, htext, -, hdigits, -⟩
    have hpath : ascii "/api/rooms/+1/messages"
        = RoomHandler.messagesGet.before ++ ascii "+1" ++ RoomHandler.messagesGet.after := by
      decide +kernel
    have hsame := List.append_cancel_left (List.append_cancel_right (htext.symm.trans hpath))
    rw [hsame] at hdigits
    exact absurd (hdigits 43 (by decide +kernel)) (by decide)

end NetServer.Chat
