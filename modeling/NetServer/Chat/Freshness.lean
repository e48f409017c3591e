/-
  NetServer.Chat.Freshness — the live view of a telnet session.

  A session that follows the newest page of a room draws it again whenever it
  is woken.  Wake-ups are merged, and some are consumed without a redraw; the
  view is fresh all the same.  The invariant has three ways to hold: the page
  shown ends with the newest message, or the session's pipe holds a byte, or a
  message is still on its way to the pipe (`Fresh`).

    • `Telnet.step_shows` — between two redraws a session keeps what it shows;
                            every redraw shows the newest page;
    • `live_view_fresh`   — over every run.
-/
import NetServer.Chat.Subscribers

namespace NetServer.Chat

open NetServer.Lib
open NetServer.Lib.PubSub

/-! ## §1. What a session shows. -/

/-- The greatest message id of a page, 0 for an empty one. -/
def newestId (page : List ChatMsg) : Int := (page.getLast?.map ChatMsg.id).getD 0

theorem wantRows_pos (rows : Nat) : 0 < wantRows rows := by
  unfold wantRows
  dsimp only
  split
  · omega
  · decide

theorem roomIds_getLast {db : ChatDb} (h : db.Wf) (r : Int) :
    chatDbMaxMessageId db r = (db.roomIds r).getLast?.getD 0 := by
  rw [maxMessageId_eq h]
  unfold ChatDb.roomIds
  rw [List.getLast?_map]

/-- The newest page ends with the room's newest message. -/
theorem newestId_newest {db : ChatDb} (h : db.Wf) (r : Int) {limit : Nat} (hlimit : 0 < limit) :
    newestId (chatDbMessagesBefore db r 0 limit chatMsgLines) = chatDbMaxMessageId db r := by
  rw [messagesBefore_newest h, maxMessageId_eq h]
  unfold newestId
  have hmin : 0 < min limit chatMsgLines := by unfold chatMsgLines; omega
  rw [List.getLast?_map, Option.map_map]
  cases hrows : db.roomRows r with
  | nil =>
    rw [List.drop_nil]
    rfl
  | cons m rows =>
    rw [List.getLast?_drop, if_neg]
    · rfl
    · simp only [List.length_cons]
      omega

/-- The session follows the newest page of room `r`. -/
def Telnet.Live (t : Telnet) (r : Int) : Prop :=
  ∃ c, t.chat = some c ∧ c.room.map ChatRoom.id = some r ∧ c.atLive = true

/-- The points at which a session has a page to show, or to keep. -/
def Telnet.showing (t : Telnet) : Bool :=
  match t.pc with
  | .poll | .older | .users _ _ => true
  | _ => false

/-- The page being drawn, or the last one drawn. -/
def Telnet.shown (t : Telnet) : Option (List ChatMsg) :=
  match t.pc with
  | .users msgs _ => some msgs
  | _ => t.screens.getLast?.map RoomScreen.page

/-- A step keeps the page of room `r`, or reads its newest page. -/
def Telnet.Shows (sh : Shared) (t : Telnet) (r : Int) (t' : Telnet) : Prop :=
  (t.Live r ∧ t.showing = true ∧ t'.shown = t.shown)
    ∨ ∃ limit, 0 < limit ∧ t'.shown = some (chatDbMessagesBefore sh.db r 0 limit chatMsgLines)

namespace Telnet

/-- Without a room there is nothing to follow. -/
theorem not_live_of_room {t' : Telnet} {c' : ChatState} {r : Int} (hc' : t'.chat = some c')
    (hroom : c'.room = none) : ¬ t'.Live r := by
  rintro ⟨c0, hc0, hr, -⟩
  cases hc'.symm.trans hc0
  rw [hroom] at hr
  exact absurd hr nofun

section Steps

variable {t t' : Telnet} {c : ChatState} {r : Int} (sh : Shared)

/-- A step in the chat that leaves room, page and `at_live` as they are. -/
theorem keeps_shows {c' : ChatState} (hc : t.chat = some c) (hpc : t.pc = .poll)
    (hc' : t'.chat = some c') (hroom : c'.room = c.room) (hlive : c'.atLive = c.atLive)
    (hpc' : t'.pc = .poll ∨ t'.pc = .older) (hscreens : t'.screens = t.screens)
    (h : t'.Live r) : Shows sh t r t' := by
  obtain ⟨c0, hc0, hr, hat⟩ := h
  cases hc'.symm.trans hc0
  refine Or.inl ⟨⟨c, hc, by rw [← hroom]; exact hr, by rw [← hlive]; exact hat⟩, ?_, ?_⟩
  · unfold showing
    rw [hpc]
  · unfold shown
    rw [hpc, hscreens]
    rcases hpc' with hp | hp <;> rw [hp]

/-- A key leaves the page alone, or leaves `poll` to have it drawn again. -/
theorem keyStep_shows {rooms : List ChatRoom} {key : UInt8} (hpc : t.pc = .poll)
    (hc : t.chat = some c) (hkey : KeyStep rooms t c key t') (h : t'.Live r)
    (hshow : t'.showing = true) : Shows sh t r t' := by
  cases hkey with
  | ignored => exact keeps_shows sh hc hpc hc rfl rfl (Or.inl hpc) rfl h
  | editName buf payload hst hbuf => exact keeps_shows sh hc hpc rfl rfl rfl (Or.inl hpc) rfl h
  | compose hst =>
    -- the compose line is drawn below the page
    exact keeps_shows sh hc hpc rfl rfl rfl (Or.inl hpc) rfl h
  | older hst => exact keeps_shows sh hc hpc hc rfl rfl (Or.inr rfl) rfl h
  | editText text hst htext => exact keeps_shows sh hc hpc rfl rfl rfl (Or.inl hpc) rfl h
  | _ => exact absurd hshow nofun

/-- A wake-up that draws nothing finds no room followed. -/
theorem idle_not_live (hok : t.Ok) (hpc : t.pc = .drained)
    (hidle : t.onNotify = false
      ∨ ∀ c, t.chat = some c → c.st = .lobby ∨ c.st = .username ∨ c.atLive = false) :
    ¬ t.Live r := by
  rintro ⟨c, hc, hr, hat⟩
  have hfits := fits_of_ok hc hok
  rw [hpc] at hfits
  obtain ⟨hset, hnot⟩ := hfits
  have hroom : c.room.isSome = true := by
    obtain ⟨room, hroom, -⟩ := Option.map_eq_some_iff.mp hr
    rw [hroom]
    rfl
  rcases hidle with hidle | hidle
  · -- no handler, so no room
    rw [hidle, hroom] at hnot
    exact absurd hnot nofun
  · have hin := hset.mp hroom
    rcases hidle c hc with hst | hst | hlive
    · rw [hst] at hin
      exact absurd hin (by simp)
    · rw [hst] at hin
      exact absurd hin (by simp)
    · rw [hlive] at hat
      exact absurd hat nofun

end Steps

/-- **Between two redraws a session keeps its page; every redraw reads the newest
one.**  A step to a point where a session follows a room and has a page touches
only the session's own memory. -/
theorem step_shows {t t' : Telnet} {rooms : List ChatRoom} {sh : Shared} {bytes : Nat}
    {shutdown : Bool} {choice : Choice} {op : Op} {r : Int} (hok : t.Ok)
    (heq : t.step rooms sh bytes shutdown choice = some (t', op)) (h : t'.Live r)
    (hshow : t'.showing = true) : op = .skip ∧ Shows sh t r t' := by
  cases step_stepped heq with
  | key k c hpc hc hkey => exact ⟨rfl, keyStep_shows sh hpc hc hkey h hshow⟩
  | askName hpc hc hname => exact absurd h (not_live_of_room rfl rfl)
  | resize rows hpc =>
    obtain ⟨c, hc, hr, hat⟩ := h
    exact ⟨rfl, keeps_shows sh hc hpc hc rfl rfl (Or.inl hpc) rfl ⟨c, hc, hr, hat⟩⟩
  | lobbyEnd quit hpc =>
    obtain ⟨c, hc⟩ := exists_chat hok hpc nofun nofun nofun nofun
    have hfits := fits_of_ok hc hok
    rw [hpc] at hfits
    exact absurd h (not_live_of_room hc hfits.1)
  | page c room notified msgs hpc hc hr hmsgs =>
    -- render_room reads its page
    obtain ⟨c', hc', hr', hat⟩ := h
    cases hc'
    have hat : c.atLive = true := hat
    have hroom : room.id = r := by
      have hr' : c.room.map ChatRoom.id = some r := hr'
      rw [hr] at hr'
      exact Option.some.inj hr'
    refine ⟨rfl, Or.inr ⟨wantRows t.termRows, wantRows_pos _, ?_⟩⟩
    show some msgs = _
    rw [hmsgs, hat, hroom]
    rfl
  | draw c room notified msgs hpc hc hr =>
    refine ⟨rfl, Or.inl ⟨h, ?_, ?_⟩⟩
    · unfold showing
      rw [hpc]
    · show (t.screens ++ [_]).getLast?.map RoomScreen.page = t.shown
      unfold shown
      rw [hpc, List.getLast?_concat]
      rfl
  | oldest c room hpc hc hr hmsgs =>
    refine ⟨rfl, Or.inl ⟨h, ?_, ?_⟩⟩
    · unfold showing
      rw [hpc]
    · unfold shown
      rw [hpc]
  | drain hpc hbytes =>
    unfold showing at hshow
    rw [hpc] at hshow
    exact absurd hshow nofun
  | idle hpc hidle =>
    have h : t.Live r := h
    exact absurd h (idle_not_live hok hpc hidle)
  | destroyNone c closing hpc hc hr =>
    obtain ⟨c', hc', -⟩ := h
    exact absurd hc' nofun
  | destroyed c room closing hpc hc hr =>
    obtain ⟨c', hc', -⟩ := h
    exact absurd hc' nofun
  | _ => exact absurd hshow nofun

end Telnet

/-! ## §2. Fresh views. -/

/-- The view of room `r` on `y`'s screen is fresh: it ends with the newest
message, or `y` will be woken. -/
def Fresh (s : Sys) (y : Nat) (r : Int) (page : List ChatMsg) : Prop :=
  newestId page = chatDbMaxMessageId s.sh.db r ∨ 0 < (s.conns y).bytes
    ∨ ∃ id, OnWay s.bus r id (s.conns y).fd

/-- A step that takes no byte from the pipe of an accepted visitor keeps its view
fresh. -/
theorem Fresh.step {rooms : List ChatRoom} {s s' : Sys} {act : Act} {y : Nat} {r : Int}
    {page : List ChatMsg} (hs : s.Sound) (h : s.step rooms act = some s')
    (hvisits : (s.conns y).prog.visits = some r) (hacc : (s.conns y).accepted = true)
    (halive : (s.conns y).prog.alive = true)
    (hbytes : (s'.conns y).bytes = (s.conns y).bytes ∨ 0 < (s'.conns y).bytes)
    (hf : Fresh s y r page) : Fresh s' y r page := by
  have hbus := (Sys.step_bus hs.threads h).2
  have hwf' := (hs.step h).db
  rcases hf with htail | hpos | ⟨id, hway⟩
  · rcases Sys.step_roomIds hs.threads h r with heq | ⟨x, id, user, body, -, hins, -⟩
    · left
      rw [htail, roomIds_getLast hs.db, roomIds_getLast hwf', heq]
    · -- a new message is on its way
      exact Or.inr (Or.inr ⟨id, Or.inl ⟨x, congrArg postOf hins.after⟩⟩)
  · right
    left
    omega
  · rcases hway.step pipeCap_pos hs.bus hbus hvisits hacc with hway' | ⟨-, hpos⟩
    · refine Or.inr (Or.inr ⟨id, ?_⟩)
      rw [Sys.step_fd h halive]
      exact hway'
    · exact Or.inr (Or.inl hpos)

/-! ## §3. Every run. -/

/-- The last step of a run, seen from a connection that is a telnet session. -/
inductive TelnetStep (rooms : List ChatRoom) (s s' : Sys) (act : Act) (y : Nat) (t' : Telnet) :
    Prop where
  /-- Another connection, or the environment. -/
  | other (hact : act.actor ≠ some y) (hprog : (s.conns y).prog = .telnet t')
  /-- The client connects. -/
  | started (ht : t' = telnetStart)
  /-- The session's own step. -/
  | own (t : Telnet) (choice : Choice) (op : Op) (s1 : Sys) (hact : act = .run y choice)
      (hprog : (s.conns y).prog = .telnet t)
      (hstep : t.step rooms s.sh (s.conns y).bytes (s.conns y).shutdown choice = some (t', op))
      (happly : s.apply y op = some s1) (hs' : s' = s1.setProg y (.telnet t'))

theorem telnetStep {rooms : List ChatRoom} {s s' : Sys} {act : Act} {y : Nat} {t' : Telnet}
    (h : s.step rooms act = some s') (hy : (s'.conns y).prog = .telnet t') :
    TelnetStep rooms s s' act y t' := by
  cases Sys.step_conn h y with
  | other n down hact hconn hn =>
    rw [hconn] at hy
    exact .other hact hy
  | connect p hp hunused hprog =>
    rw [hprog] at hy
    rcases hp with rfl | rfl
    · cases hy
      exact .started rfl
    · exact absurd hy nofun
  | run choice p' op s1 hact hprog happly hs' =>
    rw [hs', Sys.setProg_conn] at hy
    have hp' : p' = .telnet t' := hy
    subst hp'
    cases progStep_stepped hprog with
    | telnet t t' op ht hstep => exact .own t choice op s1 hact ht hstep happly hs'

/-- A session that follows a room and has a page is subscribed to the room. -/
theorem Telnet.visits_of_showing {t : Telnet} {r : Int} (h : t.Live r) (hshow : t.showing = true) :
    t.visits = some r := by
  obtain ⟨c, hc, hr, -⟩ := h
  have hin : t.pc.outside = false := by
    unfold showing at hshow
    cases hpc : t.pc with
    | poll => rfl
    | older => rfl
    | users msgs notified => rfl
    | _ =>
      rw [hpc] at hshow
      exact absurd hshow nofun
  rw [visits_inside hin hc]
  exact hr

/-- Every accepted session that follows a room has a fresh view. -/
def FreshViews (s : Sys) : Prop :=
  ∀ y t r, (s.conns y).prog = .telnet t → t.Live r → t.showing = true →
    (s.conns y).accepted = true → ∃ page, t.shown = some page ∧ Fresh s y r page

theorem FreshViews.step {rooms : List ChatRoom} {s s' : Sys} {act : Act} (hs : s.Sound)
    (h : s.step rooms act = some s') (hf : FreshViews s) : FreshViews s' := by
  intro y t' r hy' hlive' hshow' hacc'
  cases telnetStep h hy' with
  | other hact hprog =>
    obtain ⟨n, down, heq, hn⟩ := Sys.step_others h hact
    have hacc : (s.conns y).accepted = true := by
      rw [heq] at hacc'
      exact hacc'
    have hvisits : (s.conns y).prog.visits = some r := by
      rw [hprog]
      exact Telnet.visits_of_showing hlive' hshow'
    obtain ⟨page, hpage, hfresh⟩ := hf y t' r hprog hlive' hshow' hacc
    refine ⟨page, hpage, hfresh.step hs h hvisits hacc (by rw [hprog]; rfl) ?_⟩
    rw [heq]
    exact hn
  | started ht =>
    rw [ht] at hlive'
    obtain ⟨c, hc, -⟩ := hlive'
    exact absurd hc nofun
  | own t choice op s1 _ hprog hstep happly hs' =>
    obtain ⟨rfl, hshows⟩ := Telnet.step_shows (hs.telnet hprog) hstep hlive' hshow'
    cases happly
    have hconn : s'.conns y = { s.conns y with prog := .telnet t' } := by
      rw [hs', Sys.setProg_conn]
    rcases hshows with ⟨hlive, hshow, heq⟩ | ⟨limit, hlimit, heq⟩
    · rw [heq]
      have hacc : (s.conns y).accepted = true := by
        rw [hconn] at hacc'
        exact hacc'
      have hvisits : (s.conns y).prog.visits = some r := by
        rw [hprog]
        exact Telnet.visits_of_showing hlive hshow
      obtain ⟨page, hpage, hfresh⟩ := hf y t r hprog hlive hshow hacc
      refine ⟨page, hpage, hfresh.step hs h hvisits hacc (by rw [hprog]; rfl) ?_⟩
      rw [hconn]
      exact Or.inl rfl
    · -- the newest page has just been read
      refine ⟨_, heq, Or.inl ?_⟩
      rw [newestId_newest hs.db r hlimit, hs']
      rfl

theorem reachable_fresh {rooms : List ChatRoom} {ok : Sys → Act → Sys → Prop} {s : Sys}
    (h : (chatSystem rooms).ReachableVia ok s) : FreshViews s := by
  refine TransitionSystem.ReachableVia.strengthen (fun s hs => reachable_sound hs) ?_ ?_ h
  · rintro s ⟨db, now, -, rfl⟩ y t r hy
    exact absurd hy nofun
  · intro s act s' hs hf hstep _
    exact hf.step hs hstep

/-- **The live view is never stale.**  A telnet session that is back in `poll`,
is in a room (reading or composing) whose newest page it follows, and has its
descriptor on the room's list: when its pipe is empty and no poster has still
to write to it, the last screen it drew ends with the room's newest message. -/
theorem live_view_fresh {rooms : List ChatRoom} {s : Sys} (hs : (chatSystem rooms).Reachable s)
    {y : Nat} {t : Telnet} {c : ChatState} {room : ChatRoom}
    (hy : (s.conns y).prog = .telnet t) (hpc : t.pc = .poll) (hc : t.chat = some c)
    (hat : c.atLive = true) (hroom : c.room = some room)
    (hfd : (s.conns y).fd ∈ s.sh.subFds room.id) (hempty : (s.conns y).bytes = 0)
    (hnone : ∀ x p id, (s.conns x).prog.posting = some p → ¬ p.Pending room.id id (s.conns y).fd) :
    ∃ screen, t.screens.getLast? = some screen
      ∧ newestId screen.page = chatDbMaxMessageId s.sh.db room.id := by
  have hlive : t.Live room.id := ⟨c, hc, by rw [hroom]; rfl, hat⟩
  have hshow : t.showing = true := by
    unfold Telnet.showing
    rw [hpc]
  have hvisits : (s.conns y).prog.visits = some room.id := by
    rw [hy]
    exact Telnet.visits_of_showing hlive hshow
  have hacc := (reachable_sound hs).accepted_of_mem hvisits hfd
  obtain ⟨page, hpage, hfresh⟩ := reachable_fresh hs y t room.id hy hlive hshow hacc
  unfold Telnet.shown at hpage
  rw [hpc] at hpage
  obtain ⟨screen, hscreen, rfl⟩ := Option.map_eq_some_iff.mp hpage
  refine ⟨screen, hscreen, ?_⟩
  -- The pipe is empty and no poster has still to write, so the page is the newest.
  rcases hfresh with htail | hpos | ⟨id, ⟨x, hx⟩ | ⟨x, rest, hx, hmem⟩⟩
  · exact htail
  · omega
  · exact absurd ⟨rfl, rfl⟩ (hnone x _ id (postOf_recorded hx))
  · exact absurd ⟨rfl, rfl, hmem⟩ (hnone x _ id (postOf_notifying hx))

/-- A client connects by telnet, opens the chat as `a` and enters the first of
one room. -/
def enterActs (y : Nat) : List Act :=
  [.connectTelnet y y, .run y .openChat, .run y (.key 97), .run y (.key 13), .run y .go, .run y .go,
    .run y (.key 49), .run y .go, .run y .go, .run y .go, .run y .go]

/-- A woken session drains its pipe and draws the room again. -/
def redrawActs (y : Nat) : List Act :=
  [.run y .readable, .run y .go, .run y .go, .run y .go, .run y .go, .run y .go]

/-- A test of a telnet session with an open chat. -/
def Prog.chats (test : Telnet → ChatState → Bool) : Prog → Bool
  | .telnet t => t.chat.any (test t)
  | _ => false

theorem Prog.exists_chat {test : Telnet → ChatState → Bool} {p : Prog}
    (h : p.chats test = true) : ∃ t c, p = .telnet t ∧ t.chat = some c ∧ test t c = true := by
  cases p with
  | telnet t =>
    have h : t.chat.any (test t) = true := h
    rcases Option.eq_none_or_eq_some t.chat with hc | ⟨c, hc⟩
    · rw [hc] at h
      exact absurd h nofun
    · rw [hc] at h
      exact ⟨t, c, rfl, hc, h⟩
  | _ => exact absurd h nofun

theorem live_view_fresh_after_post :
    ∃ s t screen, (chatSystem [demoRoom]).Reachable s ∧ (s.conns 0).prog = .telnet t
      ∧ t.screens.getLast? = some screen ∧ newestId screen.page = chatDbMaxMessageId s.sh.db 1
      ∧ s.sh.db.roomIds 1 = [1] := by
  obtain ⟨s, hs, hfew, hcheck⟩ := exists_few [demoRoom] (n := 2) (by decide)
    (enterActs 0 ++ postActs 1 1 ++ redrawActs 0)
    (fun s => (s.conns 0).prog.chats fun t c =>
      decide (t.pc = .poll ∧ c.atLive = true ∧ c.room = some demoRoom
        ∧ (s.conns 0).fd ∈ s.sh.subFds 1 ∧ (s.conns 0).bytes = 0
        ∧ (s.conns 1).prog = .http .closing ∧ s.sh.db.roomIds 1 = [1])) (by decide +kernel)
  obtain ⟨t, c, hprog, hc, hcheck⟩ := Prog.exists_chat hcheck
  obtain ⟨hpc, hat, hroom, hfd, hempty, hposter, hids⟩ := of_decide_eq_true hcheck
  have hnone : ∀ x p id, (s.conns x).prog.posting = some p →
      ¬ p.Pending demoRoom.id id (s.conns 0).fd := by
    intro x p id hpost
    match x with
    | 0 =>
      rw [hprog, show (Prog.telnet t).posting = none from
        Telnet.posting_of_ne (by rw [hpc]; exact nofun)] at hpost
      exact absurd hpost nofun
    | 1 =>
      rw [hposter] at hpost
      exact absurd hpost nofun
    | x + 2 =>
      rw [hfew (x + 2) (by omega)] at hpost
      exact absurd hpost nofun
  obtain ⟨screen, hscreen, hnewest⟩ :=
    live_view_fresh hs.reachable hprog hpc hc hat hroom hfd hempty hnone
  exact ⟨s, t, screen, hs.reachable, hprog, hscreen, hnewest, hids⟩

end NetServer.Chat
