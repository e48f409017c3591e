/-
  NetServer.Chat.Injection — no bytes of a client reach a terminal as control
  bytes.

  Every text that is stored goes through one of the two sanitizers: names and
  bodies of posts before the INSERT (`PostPc.insert` holds clean texts only),
  names of presence rows in `chat_room_presence_set`.  What `render_room` prints
  from such a store is its templates with printable arguments.

    • `reachable_clean`  — the invariant, over every run;
    • `no_escape_injection` — the store and every room screen drawn.
-/
import NetServer.Chat.Freshness

namespace NetServer.Chat

open NetServer.Lib
open NetServer.Lib.OrderedLog

/-! ## §1. What is read from a clean store. -/

def Printable (text : List UInt8) : Prop := ∀ b ∈ text, isPrintable b = true

theorem UserClean.printable {u : List UInt8} (h : UserClean u) : Printable u :=
  fun b hb => isPrintable_of_isUserByte (h.bytes b hb)

theorem cString_of_printable {text : List UInt8} (h : Printable text) : cString text = text :=
  cString_of_notMem fun hzero => absurd (h 0 hzero) (by decide)

/-- A clean message record. -/
def ChatMsg.Clean (m : ChatMsg) : Prop := UserClean m.user ∧ BodyClean m.body

/-- The copy of a clean row into its buffers loses nothing. -/
theorem rowToMsg_clean {row : MessageRow} (hu : UserClean row.user) (hb : BodyClean row.body) :
    (rowToMsg row).Clean := by
  have huser : (rowToMsg row).user = row.user := by
    show (cString row.user).take (chatUserMax - 1) = row.user
    rw [cString_of_printable hu.printable]
    exact List.take_of_length_le hu.length_le
  have hbody : (rowToMsg row).body = row.body := by
    show (cString row.body).take (chatBodyMax - 1) = row.body
    rw [cString_of_printable hb.bytes]
    exact List.take_of_length_le hb.length_le
  unfold ChatMsg.Clean
  rw [huser, hbody]
  exact ⟨hu, hb⟩

/-- A page holds rows of the table. -/
theorem messagesBefore_clean {db : ChatDb} (h : StoreClean db) {r anchor : Int} {limit max : Nat} :
    ∀ m ∈ chatDbMessagesBefore db r anchor limit max, m.Clean := by
  intro m hm
  unfold chatDbMessagesBefore at hm
  obtain ⟨row, hrow, rfl⟩ := List.mem_map.mp hm
  have hmem : row ∈ db.messages := by
    have h1 := List.mem_of_mem_take hrow
    unfold sortAsc at h1
    rw [List.mem_insertionSort] at h1
    have h2 := List.mem_of_mem_take h1
    unfold sortDesc at h2
    rw [List.mem_insertionSort] at h2
    exact List.mem_of_mem_filter h2
  obtain ⟨hu, hb⟩ := h.messages row hmem
  exact rowToMsg_clean hu hb

/-- The names of the header line. -/
theorem users_clean {db : ChatDb} (h : StoreClean db) (r now : Int) (max : Nat) :
    (∀ u ∈ chatRoomUsers db r now max, Printable u)
      ∧ (chatRoomUsers db r now max).length ≤ max := by
  unfold chatRoomUsers chatDbActiveUsers
  refine ⟨?_, ?_⟩
  · intro u hu
    obtain ⟨name, hname, rfl⟩ := List.mem_map.mp hu
    have h1 := List.mem_of_mem_take hname
    rw [List.mem_insertionSort] at h1
    obtain ⟨p, hp, rfl⟩ := List.mem_map.mp h1
    have hclean := h.presence p (List.mem_of_mem_filter hp)
    rw [cString_of_printable hclean.printable]
    intro b hb
    exact hclean.printable b (List.mem_of_mem_take hb)
  · rw [List.length_map]
    exact List.length_take_le _ _

/-! ## §2. What is drawn. -/

/-- A text is a template with printable arguments; outside printable ASCII it has
the template's bytes and no others. -/
def Rendered (template : List (Seg UInt8)) (text : List UInt8) : Prop :=
  (∃ args, text = fill template args ∧ ∀ a ∈ args, Printable a)
    ∧ text.filter isControl = (literals template).filter isControl

/-- Everything `render_room` sent for a screen: the header of a configured room,
one line per message and the fixed footer. -/
def RoomScreen.Clean (rooms : List ChatRoom) (screen : RoomScreen) : Prop :=
  ∃ room ∈ rooms, ∃ (rows : Nat) (header : List UInt8),
    screen.payloads = some header :: screen.page.map (fun m => some (formatMsg m))
        ++ (roomFooter (termRows rows)).map csendf
      ∧ Rendered (headerTemplate room.name) header
      ∧ ∀ m ∈ screen.page, Rendered msgTemplate (formatMsg m)

theorem formatMsg_rendered {m : ChatMsg} (h : m.Clean) : Rendered msgTemplate (formatMsg m) := by
  refine ⟨⟨_, rfl, ?_⟩, formatMsg_control h.1.printable h.2.bytes⟩
  intro a ha
  simp only [List.mem_cons, List.not_mem_nil, or_false] at ha
  rcases ha with rfl | rfl | rfl
  · exact hhmm_printable m.ts
  · exact h.1.printable
  · exact h.2.bytes

/-- A drawn screen is clean. -/
theorem roomScreen_clean {rooms : List ChatRoom} {room : ChatRoom} (hroom : room ∈ rooms)
    (rows : Nat) {page : List ChatMsg} {who : List (List UInt8)} (hpage : ∀ m ∈ page, m.Clean)
    (hwho : ∀ u ∈ who, Printable u) (hcount : who.length ≤ chatMaxWho) :
    RoomScreen.Clean rooms { page := page, payloads := roomScreen room.name rows page who } := by
  refine ⟨room, hroom, rows, roomHeader room.name who, ?_,
    ⟨⟨_, rfl, ?_⟩, roomHeader_control _ hwho⟩, ?_⟩
  · have hname : room.name.length ≤ 31 := Nat.le_of_lt_succ room.name_length
    have hlines : page.map (fun m => bufSend 640 (formatMsg m))
        = page.map (fun m => some (formatMsg m)) := by
      apply List.map_congr_left
      intro m hm
      exact formatMsg_fits (hpage m hm).1.length_le (hpage m hm).2.length_le
    show roomScreen room.name rows page who = _
    unfold roomScreen
    rw [roomHeader_fits hname hcount, hlines]
  · intro a ha
    simp only [List.mem_cons, List.not_mem_nil, or_false] at ha
    rcases ha with rfl | rfl
    · exact decimal_printable _
    · exact wholist_printable hwho
  · intro m hm
    exact formatMsg_rendered (hpage m hm)

/-! ## §3. The threads. -/

/-- The texts of a post are clean before the row is inserted. -/
def PostPc.Clean : PostPc → Prop
  | .insert _ user body => UserClean user ∧ BodyClean body
  | _ => True

def TelnetPc.Clean : TelnetPc → Prop
  | .users msgs _ => ∀ m ∈ msgs, m.Clean
  | .post p => p.Clean
  | _ => True

/-- What a telnet session holds: a configured room, clean texts on their way to
the store or to the screen, clean screens. -/
structure Telnet.Clean (rooms : List ChatRoom) (t : Telnet) : Prop where
  room : ∀ c room, t.chat = some c → c.room = some room → room ∈ rooms
  pc : t.pc.Clean
  screens : ∀ screen ∈ t.screens, screen.Clean rooms

def Http.Clean : Http → Prop
  | .post p => p.Clean
  | _ => True

def Prog.Clean (rooms : List ChatRoom) : Prog → Prop
  | .telnet t => t.Clean rooms
  | .http h => h.Clean
  | _ => True

/-- `chat_room_post` never goes back to an insertion. -/
theorem postStep_clean {sh : Shared} {choice : Choice} {p p' : PostPc} {op : Op}
    (h : postStep sh choice p = some (some p', op)) : p'.Clean := by
  cases p with
  | insert r u b =>
    cases choice with
    | inserted id =>
      cases id with
      | none => exact absurd h nofun
      | some id =>
        cases h
        trivial
    | _ => exact absurd h nofun
  | lock r id =>
    cases h
    trivial
  | write r id rest =>
    cases rest with
    | nil => exact absurd h nofun
    | cons fd rest =>
      cases h
      trivial

namespace Telnet

section Steps

variable {rooms : List ChatRoom} {t t' : Telnet} {c c' : ChatState} (h : t.Clean rooms)

include h

/-- On with the same chat. -/
theorem Clean.goto (hc' : t'.chat = t.chat) (hscreens : t'.screens = t.screens)
    (hpc : t'.pc.Clean) : t'.Clean rooms := by
  refine ⟨?_, hpc, ?_⟩
  · rw [hc']
    exact h.room
  · rw [hscreens]
    exact h.screens

/-- On with a chat in the same room. -/
theorem Clean.same (hc : t.chat = some c) (hc' : t'.chat = some c') (hroom : c'.room = c.room)
    (hscreens : t'.screens = t.screens) (hpc : t'.pc.Clean) : t'.Clean rooms := by
  refine ⟨?_, hpc, ?_⟩
  · intro c1 room hc1 hr
    cases hc'.symm.trans hc1
    exact h.room c room hc (hroom ▸ hr)
  · rw [hscreens]
    exact h.screens

/-- On without a room. -/
theorem Clean.leave (hc' : ∀ c', t'.chat = some c' → c'.room = none)
    (hscreens : t'.screens = t.screens) (hpc : t'.pc.Clean) : t'.Clean rooms := by
  refine ⟨?_, hpc, ?_⟩
  · intro c1 room hc1 hr
    rw [hc' c1 hc1] at hr
    exact absurd hr nofun
  · rw [hscreens]
    exact h.screens

theorem keyStep_clean {key : UInt8} (hc : t.chat = some c) (hkey : KeyStep rooms t c key t') :
    t'.Clean rooms := by
  cases hkey with
  | ignored => exact h
  | named hst hbuf => exact h.same hc rfl rfl rfl trivial
  | editName buf payload hst hbuf => exact h.same hc rfl rfl rfl h.pc
  | quitLobby hst => exact h.goto rfl rfl trivial
  | enter room hst hroom =>
    -- the only key that sets a room takes it from the configured ones
    refine ⟨?_, trivial, h.screens⟩
    intro c' room' hc' hr
    cases hc'
    cases hr
    exact hroom
  | leave quit hst => exact h.goto rfl rfl trivial
  | compose hst => exact h.same hc rfl rfl rfl h.pc
  | older hst => exact h.goto rfl rfl trivial
  | newest hst => exact h.same hc rfl rfl rfl trivial
  | cancel hst => exact h.same hc rfl rfl rfl trivial
  | blank hst htext => exact h.same hc rfl rfl rfl trivial
  | post room user body hst hroom hclean =>
    -- what goes to the store has been sanitized
    exact h.goto rfl rfl (cleanPost_clean hclean)
  | dropped hst hdrop => exact h.goto rfl rfl trivial
  | editText text hst htext => exact h.same hc rfl rfl rfl h.pc

/-- One step on a clean store. -/
theorem step_clean {sh : Shared} {bytes : Nat} {shutdown : Bool} {choice : Choice} {op : Op}
    (hdb : StoreClean sh.db) (heq : t.step rooms sh bytes shutdown choice = some (t', op)) :
    t'.Clean rooms := by
  cases step_stepped heq with
  | key k c hpc hc hkey => exact keyStep_clean h hc hkey
  | askName hpc hc hname => exact h.leave (fun c' hc' => by cases hc'; rfl) rfl h.pc
  | openLobby hpc hc hname => exact h.leave (fun c' hc' => by cases hc'; rfl) rfl trivial
  | resize rows hpc => exact h.goto rfl rfl h.pc
  | lobbyEnd quit hpc =>
    refine h.goto rfl rfl ?_
    cases quit <;> trivial
  | page c room notified msgs hpc hc hr hmsgs =>
    -- the page is read from the store
    rw [hmsgs]
    exact h.same hc rfl rfl rfl (messagesBefore_clean hdb)
  | draw c room notified msgs hpc hc hr =>
    have hpage : ∀ m ∈ msgs, m.Clean := by
      have hclean := h.pc
      rw [hpc] at hclean
      exact hclean
    obtain ⟨hwho, hcount⟩ := users_clean hdb room.id sh.now chatMaxWho
    refine ⟨h.room, trivial, ?_⟩
    intro screen hmem
    rcases List.mem_append.mp hmem with hold | hnew
    · exact h.screens screen hold
    · rw [List.mem_singleton.mp hnew]
      exact roomScreen_clean (h.room c room hc hr) _ hpage hwho hcount
  | older c room hpc hc hr hmsgs => exact h.same hc rfl rfl rfl trivial
  | post p p' op hpc hpost => exact h.goto rfl rfl (postStep_clean hpost)
  | postPresence c room hpc hc hr => exact h.same hc rfl rfl rfl trivial
  | leaveNone c quit hpc hc hr => exact h.same hc rfl rfl rfl trivial
  | left c room quit hpc hc hr => exact h.leave (fun c' hc' => by cases hc'; rfl) rfl trivial
  | drain hpc hbytes => exact h
  | destroyNone c closing hpc hc hr =>
    exact h.leave nofun rfl (by unfold chatFreed; cases closing <;> trivial)
  | destroyed c room closing hpc hc hr =>
    exact h.leave nofun rfl (by unfold chatFreed; cases closing <;> trivial)
  | _ => exact h.goto rfl rfl trivial

end Steps

end Telnet

theorem progStep_clean {rooms : List ChatRoom} {sh : Shared} {c : Conn} {choice : Choice}
    {p' : Prog} {op : Op} (hdb : StoreClean sh.db) (h : c.prog.Clean rooms)
    (heq : Sys.progStep rooms sh c choice = some (p', op)) : p'.Clean rooms := by
  cases progStep_stepped heq with
  | telnet t t' op hprog hstep =>
    rw [hprog] at h
    exact Telnet.step_clean h hdb hstep
  | routePost roomId text name user body hprog hclean => exact cleanPost_clean hclean
  | post p p' op hprog hpost => exact postStep_clean hpost
  | _ => trivial

/-- A thread inside `chat_room_post` holds clean texts. -/
theorem Prog.Clean.posting {rooms : List ChatRoom} {p : Prog} {q : PostPc} (h : p.Clean rooms)
    (hq : p.posting = some q) : q.Clean := by
  cases p with
  | telnet t =>
    have hclean : t.pc.Clean := h.pc
    have hq : t.posting = some q := hq
    unfold Telnet.posting at hq
    split at hq
    · rename_i p hpc
      rw [hpc] at hclean
      cases hq
      exact hclean
    · exact absurd hq nofun
  | http k =>
    cases k with
    | post p =>
      cases hq
      exact h
    | _ => exact absurd hq nofun
  | _ => exact absurd hq nofun

/-! ## §4. Every run. -/

/-- Clean texts in the store and in every thread. -/
structure Sys.Clean (rooms : List ChatRoom) (s : Sys) : Prop where
  threads : ∀ y, (s.conns y).prog.Ok
  store : StoreClean s.sh.db
  progs : ∀ y, (s.conns y).prog.Clean rooms

/-- The store after one step: an insertion takes its texts from a thread inside
`chat_room_post`, the presence queries sanitize theirs. -/
theorem Sys.Clean.step_store {rooms : List ChatRoom} {s s' : Sys} {act : Act} (hs : s.Clean rooms)
    (h : s.step rooms act = some s') : StoreClean s'.sh.db := by
  rcases Sys.step_db h with hdb | ⟨x, choice, p', op, s1, -, hprog, happly, rfl⟩
  · rw [hdb]
    exact hs.store
  show StoreClean s1.sh.db
  rw [Sys.apply_db happly]
  cases op with
  | insert r user body id =>
    obtain ⟨hpost, -⟩ := progStep_insert (hs.threads x) hprog
    obtain ⟨huser, hbody⟩ := (hs.progs x).posting hpost
    exact hs.store.insert huser hbody
  | presenceSet r user => exact hs.store.presenceSet r user s.sh.now
  | presenceClear r user => exact hs.store.presenceClear r user
  | _ => exact hs.store

theorem telnetStart_clean (rooms : List ChatRoom) : telnetStart.Clean rooms :=
  ⟨fun _ _ hc => absurd hc nofun, trivial, fun _ hmem => absurd hmem List.not_mem_nil⟩

theorem Sys.Clean.step {rooms : List ChatRoom} {s s' : Sys} {act : Act} (hs : s.Clean rooms)
    (h : s.step rooms act = some s') : s'.Clean rooms := by
  refine ⟨(Sys.step_bus hs.threads h).1, hs.step_store h, ?_⟩
  intro y
  cases Sys.step_conn h y with
  | other n down hact hconn hn =>
    rw [hconn]
    exact hs.progs y
  | connect p hp hunused hprog =>
    rw [hprog]
    rcases hp with rfl | rfl
    · exact telnetStart_clean rooms
    · trivial
  | run choice p' op s1 hact hprog happly hs' =>
    rw [hs', Sys.setProg_conn]
    exact progStep_clean hs.store (hs.progs y) hprog

/-- The server started on a clean store. -/
theorem reachable_clean {rooms : List ChatRoom} {db : ChatDb} {now : Int} (hdb : StoreClean db)
    {s : Sys} (hs : ((chatSystem rooms).startingAt (sysStart db now)).Reachable s) :
    s.Clean rooms := by
  refine TransitionSystem.ReachableVia.invariant ?_ ?_ hs
  · rintro s rfl
    exact ⟨fun _ => trivial, hdb, fun _ => trivial⟩
  · intro s act s' hs hstep _
    exact hs.step hstep

/-- **No escape sequence gets through the store.**  Started on a store of clean
texts, and whatever the clients send, the server's store stays one, and every
room screen a telnet session was ever sent is the templates of `render_room`
and `format_msg` with printable arguments: no control byte in it is a client's. -/
theorem no_escape_injection {rooms : List ChatRoom} {db : ChatDb} {now : Int} (hdb : StoreClean db)
    {s : Sys} (hs : ((chatSystem rooms).startingAt (sysStart db now)).Reachable s) :
    StoreClean s.sh.db
      ∧ ∀ y t, (s.conns y).prog = .telnet t → ∀ screen ∈ t.screens, screen.Clean rooms := by
  have hclean := reachable_clean hdb hs
  refine ⟨hclean.store, ?_⟩
  intro y t hy
  have ht := hclean.progs y
  rw [hy] at ht
  exact ht.screens

theorem emptyDb_clean : StoreClean emptyDb :=
  ⟨fun _ hm => absurd hm List.not_mem_nil, fun _ hp => absurd hp List.not_mem_nil⟩

/-- A post whose text would clear the screen. -/
def hostileBody : List UInt8 := ascii "\"user\":\"ann\",\"body\":\"" ++ 27 :: ascii "[2J\""

/-- The post is made while connection 0 watches the room. -/
def hostileActs : List Act :=
  enterActs 0 ++ [.connectHttp 1 1, .run 1 (.postRequest 1 hostileBody), .run 1 (.inserted (some 1)),
    .run 1 .go, .run 1 .go, .run 1 .go] ++ redrawActs 0

theorem no_escape_injection_hostile_post :
    ∃ s t, ((chatSystem [demoRoom]).startingAt (sysStart emptyDb 0)).Reachable s
      ∧ (s.conns 0).prog = .telnet t ∧ s.sh.db.messages.map MessageRow.body = [ascii "?[2J"]
      ∧ StoreClean s.sh.db
      ∧ ∃ screen ∈ t.screens, screen.page.map ChatMsg.body = [ascii "?[2J"]
          ∧ screen.Clean [demoRoom] := by
  have hends : (((chatSystem [demoRoom]).startingAt (sysStart emptyDb 0)).run (sysStart emptyDb 0)
      hostileActs).any (fun s => s.sh.db.messages.map MessageRow.body == [ascii "?[2J"]
        && (s.conns 0).prog.chats fun t _ => t.screens.any fun screen =>
          screen.page.map ChatMsg.body == [ascii "?[2J"]) = true := by
    decide +kernel
  obtain ⟨s, hrun, hcheck⟩ := TransitionSystem.exists_of_run _ hends
  obtain ⟨hstored, hscreens⟩ := (Bool.and_eq_true _ _).mp hcheck
  obtain ⟨t, -, ht, -, hany⟩ := Prog.exists_chat hscreens
  obtain ⟨screen, hmem, hpage⟩ := List.any_eq_true.mp hany
  have hs := TransitionSystem.run_reachable _ _ _ (.init rfl) hrun
  obtain ⟨hstore, hclean⟩ := no_escape_injection emptyDb_clean hs
  exact ⟨s, t, hs, ht, beq_iff_eq.mp hstored, hstore, screen, hmem, beq_iff_eq.mp hpage,
    hclean 0 t ht screen hmem⟩

end NetServer.Chat
