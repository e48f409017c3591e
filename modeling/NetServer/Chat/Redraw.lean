/-
  NetServer.Chat.Redraw — what an event does to a reader of history.

  Between two events a session runs a handler to its end, while other threads
  run too.  `follow_session` turns a property that every step of a handler keeps
  into one of the session's next wait, and every event of a reader starts one of
  three handlers: one that draws no page (`Telnet.Still`), the redraw after a
  cancelled text (`Telnet.Redraws`), and the way back to the newest page after a
  text was sent (`Telnet.Returns`).

  Main results:
    • `redraw_unmoved_iff`  — which events leave page, anchor and `at_live` alone;
    • `redraw_moves_reader` — a cancelled text moves the reader a page back.
-/
import NetServer.Chat.Paging

namespace NetServer.Chat

open NetServer.Lib
open NetServer.Lib.OrderedLog
open NetServer.Lib.TransitionSystem

/-! ## §1. From one event to the next. -/

/-- Connection `y` does not take its next event. -/
def NoEvent (y : Nat) : Sys → Act → Sys → Prop := fun s act _ =>
  ∀ t, (s.conns y).prog = .telnet t → t.pc = .poll → act.actor ≠ some y

/-- **The handler's rule.**  What the steps of a session's handler keep, and what
messages of others leave alone, holds when the session waits again. -/
theorem follow_session {rooms : List ChatRoom} {P : ChatDb → Telnet → Prop} {y : Nat} {s s' : Sys}
    {t t' : Telnet} (hs : (chatSystem rooms).Reachable s) (hy : (s.conns y).prog = .telnet t)
    (hP : P s.sh.db t)
    (hgrow : ∀ {z z' : Sys} {act u}, z.Sound → z.step rooms act = some z' →
      P z.sh.db u → P z'.sh.db u)
    (hown : ∀ {sh : Shared} {bytes shutdown choice u u' op}, sh.db.Wf → u.pc ≠ .poll →
      u.step rooms sh bytes shutdown choice = some (u', op) → P sh.db u → P sh.db u')
    (hrun : ((chatSystem rooms).startingAt s).ReachableVia (NoEvent y) s')
    (hy' : (s'.conns y).prog = .telnet t') : P s'.sh.db t' := by
  have hplace : (s'.conns y).prog = .closed
      ∨ ∃ u, (s'.conns y).prog = .telnet u ∧ P s'.sh.db u := by
    refine ReachableVia.strengthen (Q := Sys.Sound) (P := fun z => (z.conns y).prog = .closed
      ∨ ∃ u, (z.conns y).prog = .telnet u ∧ P z.sh.db u)
      (fun z hz => reachable_sound (hs.trans hz.reachable)) ?_ ?_ hrun
    · rintro z rfl
      exact Or.inr ⟨t, hy, hP⟩
    · intro z act z' hz hplace hstep hno
      have hstep : z.step rooms act = some z' := hstep
      rcases hplace with hclosed | ⟨u, hu, hPu⟩
      · exact Or.inl (closed_stays hstep hclosed)
      cases sessionStep hstep hu with
      | other hact hprog' => exact Or.inr ⟨u, hprog', hgrow hz hstep hPu⟩
      | closed hpc hprog' => exact Or.inl hprog'
      | own u' choice op s1 hact hown' happly hs1 hprog' =>
        have hpoll : u.pc ≠ .poll := by
          intro hpc
          apply hno u hu hpc
          rw [hact]
          rfl
        exact Or.inr ⟨u', hprog', hgrow hz hstep (hown hz.db hpoll hown' hPu)⟩
  rcases hplace with hclosed | ⟨u, hu, hPu⟩
  · exact absurd (hclosed.symm.trans hy') nofun
  · cases hu.symm.trans hy'
    exact hPu

/-! ## §2. Handlers that draw no page. -/

/-- The points of a handler that draws no page. -/
def TelnetPc.still : TelnetPc → Bool
  | .poll | .drain | .drained | .lobby _ _ | .leaveUnsubscribe _ | .leavePresence _
  | .destroyUnsubscribe _ | .destroyPresence _ | .closing => true
  | _ => false

/-- Since `t`, with chat `c`, no page was drawn. -/
structure Telnet.Still (t : Telnet) (c : ChatState) (u : Telnet) : Prop where
  pc : u.pc.still = true
  screens : u.screens = t.screens
  chat : ∀ c', u.chat = some c' → c'.oldestShown = c.oldestShown ∧ c'.atLive = c.atLive

namespace Telnet

variable {rooms : List ChatRoom} {sh : Shared} {bytes : Nat} {shutdown : Bool} {choice : Choice}
  {t u u' : Telnet} {c : ChatState} {op : Op}

theorem Still.step (hat : c.atLive = false) (hpoll : u.pc ≠ .poll)
    (heq : u.step rooms sh bytes shutdown choice = some (u', op)) (h : t.Still c u) :
    t.Still c u' := by
  have hpc := h.pc
  -- the same chat at another such point
  have hkeep : ∀ {v : Telnet}, v.screens = u.screens → v.chat = u.chat → v.pc.still = true →
      t.Still c v := by
    intro v hscreens hchat hstill
    refine ⟨hstill, hscreens.trans h.screens, ?_⟩
    rw [hchat]
    exact h.chat
  -- back in the lobby
  have hlobby : ∀ {v : Telnet} {c1 c2 : ChatState}, u.chat = some c1 → v.screens = u.screens →
      v.chat = some c2 → v.pc.still = true → c2.oldestShown = c1.oldestShown →
      c2.atLive = c1.atLive → t.Still c v := by
    intro v c1 c2 hc1 hscreens hc2 hstill hold hlive
    refine ⟨hstill, hscreens.trans h.screens, ?_⟩
    intro c' hc'
    cases hc2.symm.trans hc'
    rw [hold, hlive]
    exact h.chat c1 hc1
  cases step_stepped heq with
  | lobbyRoom i room rest quit hpc => exact hkeep rfl rfl rfl
  | lobbyEnd quit hpc =>
    refine hkeep rfl rfl ?_
    cases quit <;> rfl
  | leave c1 room quit hpc hc1 hr => exact hkeep rfl rfl rfl
  | leaveNone c1 quit hpc hc1 hr => exact hlobby hc1 rfl rfl rfl rfl rfl
  | left c1 room quit hpc hc1 hr => exact hlobby hc1 rfl rfl rfl rfl rfl
  | drain hpc hbytes => exact h
  | drainEnd hpc hbytes => exact hkeep rfl rfl rfl
  | redraw c1 hpc hnot hc1 hst hlive =>
    -- `chat_on_notify` draws only for a session that follows
    have hsame := (h.chat c1 hc1).2
    rw [hlive, hat] at hsame
    exact absurd hsame nofun
  | idle hpc hidle => exact hkeep rfl rfl rfl
  | close hpc hc1 => exact hkeep rfl rfl rfl
  | closeChat c1 hpc hc1 => exact hkeep rfl rfl rfl
  | destroy c1 room closing hpc hc1 hr => exact hkeep rfl rfl rfl
  | destroyNone c1 closing hpc hc1 hr =>
    refine ⟨?_, h.screens, nofun⟩
    cases closing <;> rfl
  | destroyed c1 room closing hpc hc1 hr =>
    refine ⟨?_, h.screens, nofun⟩
    cases closing <;> rfl
  | key _ _ hpoll' | askName hpoll' | openLobby hpoll' | resize _ hpoll' | readable hpoll' =>
    exact absurd hpoll' hpoll
  | enterPresence _ _ hpc' | enterSubscribe _ _ hpc' | page _ _ _ _ hpc' | draw _ _ _ _ hpc'
  | oldest _ _ hpc' | older _ _ hpc' | post _ _ _ hpc' | posted _ _ hpc' | postPresence _ _ hpc' =>
    rw [hpc'] at hpc
    exact absurd hpc nofun

end Telnet

/-! ## §3. The redraw after a cancelled text. -/

/-- `render_room` after Esc: the page below the anchor is read, then drawn. -/
structure Telnet.Redraws (t : Telnet) (c : ChatState) (room : ChatRoom) (page : List ChatMsg)
    (db : ChatDb) (u : Telnet) : Prop where
  view : c.View (db.roomMsgs room.id) page
  place : (u.pc = .page false ∧ u.screens = t.screens ∧ u.chat = some { c with st := .inRoom })
    ∨ ∃ msgs, (msgs = page ↔ page = [])
      ∧ u.chat = some { c with
          st := .inRoom, oldestShown := (msgs.head?.map ChatMsg.id).getD c.oldestShown }
      ∧ ((u.pc = .users msgs false ∧ u.screens = t.screens)
        ∨ u.pc = .poll ∧ ∃ payloads,
          u.screens = t.screens ++ [{ page := msgs, payloads := payloads }])

/-- Below the first message of a page there is another page, or none. -/
theorem ChatState.View.next_page {db : ChatDb} (hdb : db.Wf) {c : ChatState} {room : ChatRoom}
    {page : List ChatMsg} (h : c.View (db.roomMsgs room.id) page) (hat : c.atLive = false) {w : Nat}
    (hw : 0 < w) :
    chatDbMessagesBefore db room.id c.oldestShown w chatMsgLines = page ↔ page = [] := by
  obtain ⟨hne, hnil⟩ := h.past hat
  obtain ⟨m, hm, hid⟩ := h.anchor.resolve_left hne
  have hpos : 0 < c.oldestShown := by
    rw [← hid]
    exact roomMsgs_pos hdb hm
  rw [messagesBefore_eq hdb room.id hpos]
  constructor
  · intro hsame
    by_contra hpage
    -- the first message would be below itself
    obtain ⟨m', rest, rfl⟩ := List.exists_cons_of_ne_nil hpage
    have hlt : m'.id < c.oldestShown := mem_pageBelow_lt (by rw [hsame]; exact List.mem_cons_self)
    rw [h.head m' rfl] at hlt
    exact lt_irrefl _ hlt
  · intro hpage
    rw [hpage]
    exact (pageBelow_eq_nil (by unfold chatMsgLines; omega)).mpr (hnil hpage)

namespace Telnet

variable {rooms : List ChatRoom} {sh : Shared} {bytes : Nat} {shutdown : Bool} {choice : Choice}
  {t u u' : Telnet} {c : ChatState} {room : ChatRoom} {page : List ChatMsg} {op : Op}

theorem Redraws.step (hat : c.atLive = false) (hr : c.room = some room) (hdb : sh.db.Wf)
    (hpoll : u.pc ≠ .poll) (heq : u.step rooms sh bytes shutdown choice = some (u', op))
    (h : t.Redraws c room page sh.db u) : t.Redraws c room page sh.db u' := by
  refine ⟨h.view, Or.inr ?_⟩
  rcases h.place with ⟨hpc, hscreens, hc⟩ | ⟨msgs, hmsgs, hc, ⟨hpc, hscreens⟩ | ⟨hpc, -⟩⟩
  · unfold Telnet.step at heq
    rw [hpc] at heq
    obtain ⟨c1, room1, hc1, hr1, heq⟩ := of_room heq
    cases hc.symm.trans hc1
    cases hr.symm.trans hr1
    cases heq
    refine ⟨_, ?_, rfl, Or.inl ⟨rfl, hscreens⟩⟩
    show chatDbMessagesBefore sh.db room.id (if c.atLive then 0 else c.oldestShown)
      (wantRows u.termRows) chatMsgLines = page ↔ page = []
    rw [hat, if_neg nofun]
    exact h.view.next_page hdb hat (wantRows_pos _)
  · unfold Telnet.step at heq
    rw [hpc] at heq
    obtain ⟨c1, room1, hc1, hr1, heq⟩ := of_room heq
    cases hc.symm.trans hc1
    cases hr.symm.trans hr1
    cases heq
    refine ⟨msgs, hmsgs, hc, Or.inr ⟨rfl, roomScreen room.name u.termRows msgs
      (chatRoomUsers sh.db room.id sh.now chatMaxWho), ?_⟩⟩
    show u.screens ++ [_] = t.screens ++ [_]
    rw [hscreens]
  · exact absurd hpc hpoll

theorem Redraws.grow {s s' : Sys} {act : Act} (hs : s.Sound) (hstep : s.step rooms act = some s')
    (h : t.Redraws c room page s.sh.db u) : t.Redraws c room page s'.sh.db u := by
  obtain ⟨suf, hsuf⟩ := Sys.step_roomMsgs hs hstep room.id
  have hasc := roomMsgs_ascending (hs.step hstep).db room.id
  rw [hsuf] at hasc
  refine ⟨?_, h.place⟩
  rw [hsuf]
  exact h.view.grow hasc

end Telnet

/-! ## §4. Back to the newest page. -/

/-- The points between Enter and the newest page. -/
def TelnetPc.Returns (c : ChatState) : TelnetPc → Prop
  | .post _ | .postPresence => True
  | .page _ | .users _ _ | .poll => c.atLive = true
  | _ => False

/-- The way back to the newest page. -/
def Telnet.Returns (u : Telnet) : Prop := ∃ c, u.chat = some c ∧ u.pc.Returns c

namespace Telnet

variable {rooms : List ChatRoom} {sh : Shared} {bytes : Nat} {shutdown : Bool} {choice : Choice}
  {u u' : Telnet} {op : Op}

theorem Returns.step (hpoll : u.pc ≠ .poll)
    (heq : u.step rooms sh bytes shutdown choice = some (u', op)) (h : u.Returns) : u'.Returns := by
  obtain ⟨c, hc, hplace⟩ := h
  cases step_stepped heq with
  | page c1 room notified msgs hpc hc1 hr hmsgs =>
    cases hc.symm.trans hc1
    rw [hpc] at hplace
    exact ⟨_, rfl, hplace⟩
  | draw c1 room notified msgs hpc hc1 hr =>
    rw [hpc] at hplace
    exact ⟨c, hc, hplace⟩
  | post p p' op hpc hpost => exact ⟨c, hc, trivial⟩
  | posted p op hpc hpost => exact ⟨c, hc, trivial⟩
  | postPresence c1 room hpc hc1 hr => exact ⟨_, rfl, rfl⟩
  | key _ _ hpc | askName hpc | openLobby hpc | resize _ hpc | readable hpc => exact absurd hpc hpoll
  | close hpc | closeChat _ hpc =>
    rw [hpc.resolve_left hpoll] at hplace
    exact hplace.elim
  | lobbyRoom _ _ _ _ hpc | lobbyEnd _ hpc | enterPresence _ _ hpc | enterSubscribe _ _ hpc
  | oldest _ _ hpc | older _ _ hpc | leave _ _ _ hpc | leaveNone _ _ hpc | left _ _ _ hpc | drain hpc
  | drainEnd hpc | redraw _ hpc | idle hpc | destroy _ _ _ hpc | destroyNone _ _ hpc
  | destroyed _ _ _ hpc =>
    rw [hpc] at hplace
    exact hplace.elim

end Telnet

/-! ## §5. The events of a reader. -/

/-- The events that move a reader of history: a text is sent, or it is cancelled
while a page is on the screen. -/
def Moves (c : ChatState) (page : List ChatMsg) (choice : Choice) : Prop :=
  c.st = .compose
    ∧ (choice ∈ [.key 13, .key 10] ∨ choice ∈ [.key 27, .key 3] ∧ page ≠ [])

/-- What an event of a reader starts. -/
inductive ReaderEvent (t : Telnet) (c : ChatState) (choice : Choice) (u : Telnet) : Prop where
  /-- No page is drawn. -/
  | still (h : t.Still c u)
      (hkey : c.st = .compose → choice ∉ [.key 13, .key 10] ∧ choice ∉ [.key 27, .key 3])
  /-- The text is cancelled. -/
  | cancel (hst : c.st = .compose) (hkey : choice ∈ [.key 27, .key 3])
      (hu : u = { t with chat := some { c with st := .inRoom }, pc := .page false })
  /-- The text is sent. -/
  | send (hst : c.st = .compose) (hkey : choice ∈ [.key 13, .key 10]) (h : u.Returns)

namespace Telnet

variable {rooms : List ChatRoom} {t : Telnet} {c : ChatState}

theorem still_of_poll {u : Telnet} (hpc : t.pc = .poll) (hc : t.chat = some c)
    (hpc' : u.pc.still = true ∨ u.pc = t.pc) (hscreens : u.screens = t.screens)
    (hchat : u.chat = t.chat ∨ ∃ c', u.chat = some c' ∧ c'.oldestShown = c.oldestShown
      ∧ c'.atLive = c.atLive) : t.Still c u := by
  refine ⟨?_, hscreens, ?_⟩
  · rcases hpc' with h | h
    · exact h
    · rw [h, hpc]
      rfl
  · intro c' hc'
    rcases hchat with h | ⟨c1, hc1, hold, hlive⟩
    · cases hc.symm.trans (h.symm.trans hc')
      exact ⟨rfl, rfl⟩
    · cases hc1.symm.trans hc'
      exact ⟨hold, hlive⟩

theorem handleInRoom_event (hpc : t.pc = .poll) (hc : t.chat = some c) (hst : c.st = .inRoom)
    {k : UInt8} (holder : k ≠ 112) (hnewest : k ≠ 110) :
    ReaderEvent t c (.key k) (t.handleInRoom c k) := by
  refine .still ?_ fun hcompose => absurd (hst.symm.trans hcompose) nofun
  unfold handleInRoom
  split
  · exact still_of_poll hpc hc (Or.inl rfl) rfl (Or.inl rfl)
  split
  · exact still_of_poll hpc hc (Or.inl rfl) rfl (Or.inl rfl)
  split
  · exact still_of_poll hpc hc (Or.inr rfl) rfl (Or.inr ⟨_, rfl, rfl, rfl⟩)
  · exact still_of_poll hpc hc (Or.inr rfl) rfl (Or.inl rfl)

theorem handleCompose_event (hpc : t.pc = .poll) (hc : t.chat = some c) (hst : c.st = .compose)
    (k : UInt8) : ReaderEvent t c (.key k) (t.handleCompose c k) := by
  unfold handleCompose
  by_cases hcancel : k = 27 ∨ k = 3
  · rw [if_pos hcancel]
    refine .cancel hst ?_ rfl
    rcases hcancel with rfl | rfl <;> decide
  rw [if_neg hcancel]
  by_cases hsend : k = 13 ∨ k = 10
  · rw [if_pos hsend]
    refine .send hst ?_ ?_
    · rcases hsend with rfl | rfl <;> decide
    · split
      · exact ⟨_, rfl, rfl⟩
      · unfold startPost
        split
        · exact ⟨c, hc, trivial⟩
        · exact ⟨c, hc, trivial⟩
  rw [if_neg hsend]
  have hkey : Choice.key k ∉ [.key 13, .key 10] ∧ Choice.key k ∉ [.key 27, .key 3] := by
    simp only [List.mem_cons, Choice.key.injEq, List.not_mem_nil, or_false]
    exact ⟨hsend, hcancel⟩
  refine .still ?_ fun _ => hkey
  split
  · exact still_of_poll hpc hc (Or.inr rfl) rfl (Or.inr ⟨_, rfl, rfl, rfl⟩)
  split
  · exact still_of_poll hpc hc (Or.inr rfl) rfl (Or.inr ⟨_, rfl, rfl, rfl⟩)
  · exact still_of_poll hpc hc (Or.inr rfl) rfl (Or.inl rfl)

/-- **Every event of a reader** but the keys `p` and `n` of a room. -/
theorem step_readerEvent {sh : Shared} {bytes : Nat} {shutdown : Bool} {choice : Choice}
    {u : Telnet} {op : Op} {room : ChatRoom} (hok : t.Ok) (hpc : t.pc = .poll) (hc : t.chat = some c)
    (hr : c.room = some room)
    (hchoice : ¬ (c.st = .inRoom ∧ (choice = .key 112 ∨ choice = .key 110)))
    (heq : t.step rooms sh bytes shutdown choice = some (u, op)) : ReaderEvent t c choice u := by
  have hother : (∀ k, choice ≠ .key k) → choice ∉ [.key 13, .key 10] ∧ choice ∉ [.key 27, .key 3] := by
    intro hne
    simp [hne]
  cases (step_poll hpc hc heq).2 with
  | key k hk =>
    have hsettled : c.st = .inRoom ∨ c.st = .compose := by
      have hfits := fits_of_ok hc hok
      rw [hpc] at hfits
      exact hfits.1.mp (by rw [hr]; rfl)
    unfold chatHandleKey
    rw [hk] at hchoice ⊢
    rcases hsettled with hst | hst
    · rw [hst]
      refine handleInRoom_event hpc hc hst ?_ ?_
      · intro h
        exact hchoice ⟨hst, Or.inl (by rw [h])⟩
      · intro h
        exact hchoice ⟨hst, Or.inr (by rw [h])⟩
    · rw [hst]
      exact handleCompose_event hpc hc hst k
  | resize rows hk =>
    exact .still (still_of_poll hpc hc (Or.inr rfl) rfl (Or.inl rfl)) fun _ =>
      hother (by rw [hk]; nofun)
  | readable hk =>
    exact .still (still_of_poll hpc hc (Or.inl rfl) rfl (Or.inl rfl)) fun _ =>
      hother (by rw [hk]; nofun)
  | close hk =>
    refine .still (still_of_poll hpc hc (Or.inl rfl) rfl (Or.inl rfl)) fun _ => hother ?_
    rcases hk with hk | hk <;> rw [hk] <;> nofun

end Telnet

/-- The reader was not moved between `t`, with chat `c`, and `t'`: every page drawn
since is the one that was on the screen, and anchor and `at_live` are the same. -/
def Unmoved (page : List ChatMsg) (t : Telnet) (c : ChatState) (t' : Telnet) : Prop :=
  (∃ drawn : List RoomScreen, t'.screens = t.screens ++ drawn ∧ ∀ screen ∈ drawn, screen.page = page)
    ∧ ∀ c', t'.chat = some c' → c'.oldestShown = c.oldestShown ∧ c'.atLive = c.atLive

theorem moves_cancel_iff {c : ChatState} {page : List ChatMsg} {choice : Choice}
    (hst : c.st = .compose) (hkey : choice ∈ [.key 27, .key 3]) :
    Moves c page choice ↔ page ≠ [] := by
  constructor
  · rintro ⟨-, hsend | ⟨-, hne⟩⟩
    · simp only [List.mem_cons, List.not_mem_nil, or_false] at hsend hkey
      rcases hkey with rfl | rfl <;> exact absurd hsend (by decide)
    · exact hne
  · intro hne
    exact ⟨hst, Or.inr ⟨hkey, hne⟩⟩

namespace Telnet

variable {t t' : Telnet} {c : ChatState} {page : List ChatMsg}

theorem Still.unmoved (h : t.Still c t') : Unmoved page t c t' := by
  refine ⟨⟨[], ?_, nofun⟩, h.chat⟩
  rw [h.screens, List.append_nil]

/-- Who is back at the newest page has been moved. -/
theorem Returns.moved (hpc : t'.pc = .poll) (hat : c.atLive = false) (h : t'.Returns) :
    ¬ Unmoved page t c t' := by
  obtain ⟨c', hc', hlive⟩ := h
  rw [hpc] at hlive
  rintro ⟨-, hchat⟩
  have hsame := (hchat c' hc').2
  rw [show c'.atLive = true from hlive, hat] at hsame
  exact absurd hsame nofun

/-- The redraw after a cancelled text is of the same page only when that is empty. -/
theorem Redraws.unmoved_iff {room : ChatRoom} {db : ChatDb} (hpc : t'.pc = .poll)
    (h : t.Redraws c room page db t') : Unmoved page t c t' ↔ page = [] := by
  rcases h.place with ⟨hpage, -⟩ | ⟨msgs, hmsgs, hc', ⟨husers, -⟩ | ⟨-, payloads, hscreens⟩⟩
  · exact absurd (hpc.symm.trans hpage) nofun
  · exact absurd (hpc.symm.trans husers) nofun
  constructor
  · rintro ⟨⟨drawn, hdrawn, hsame⟩, -⟩
    -- the page drawn is the one below
    have heq := List.append_cancel_left (hscreens.symm.trans hdrawn)
    refine hmsgs.mp (hsame { page := msgs, payloads := payloads } ?_)
    rw [← heq]
    exact List.mem_cons_self
  · intro hnil
    have hsame := hmsgs.mpr hnil
    refine ⟨⟨_, hscreens, ?_⟩, ?_⟩
    · intro screen hmem
      rw [List.mem_singleton.mp hmem]
      exact hsame
    · intro c1 hc1
      cases hc'.symm.trans hc1
      rw [hsame, hnil]
      exact ⟨rfl, rfl⟩

end Telnet

/-- **Which events move a reader.**  A session shows a page of a room's history; an
event comes that is not key `p` or `n` of the room, and its handler runs, among
other threads, until the session waits again.  Then page, `oldest_shown` and
`at_live` are the same exactly unless a text was being typed and was sent, or was
cancelled while the page had messages. -/
theorem redraw_unmoved_iff {rooms : List ChatRoom} {s s1 s' : Sys}
    (hs : (chatSystem rooms).Reachable s) {y : Nat} {t t' : Telnet} {c : ChatState}
    {room : ChatRoom} {screen : RoomScreen} {choice : Choice}
    (hy : (s.conns y).prog = .telnet t) (hpc : t.pc = .poll) (hc : t.chat = some c)
    (hroom : c.room = some room) (hat : c.atLive = false)
    (hscreen : t.screens.getLast? = some screen)
    (hchoice : ¬ (c.st = .inRoom ∧ (choice = .key 112 ∨ choice = .key 110)))
    (hstep : s.step rooms (.run y choice) = some s1)
    (hrun : ((chatSystem rooms).startingAt s1).ReachableVia (NoEvent y) s')
    (hy' : (s'.conns y).prog = .telnet t') (hpc' : t'.pc = .poll) :
    Unmoved screen.page t c t' ↔ ¬ Moves c screen.page choice := by
  have hsound := reachable_sound hs
  have hstep1 : (chatSystem rooms).step s (.run y choice) = some s1 := hstep
  have hs1 : (chatSystem rooms).Reachable s1 := .step hs hstep1 trivial
  have hok := hsound.telnet hy
  have hv := (reachable_anchored hs hy).waiting hpc hc hroom hscreen
  cases sessionStep hstep hy with
  | other hact => exact absurd rfl hact
  | closed hclosing => exact absurd (hpc.symm.trans hclosing) nofun
  | own u choice' op s2 hact hown happly hs2 hprog' =>
    cases hact
    cases Telnet.step_readerEvent hok hpc hc hroom hchoice hown with
    | still h hkey =>
      have hend : t.Still c t' := follow_session (P := fun _ u => t.Still c u) hs1 hprog' h
        (fun _ _ h => h) (fun _ hpoll heq h => h.step hat hpoll heq) hrun hy'
      refine iff_of_true hend.unmoved ?_
      rintro ⟨hst, hkeys | ⟨hkeys, -⟩⟩
      · exact (hkey hst).1 hkeys
      · exact (hkey hst).2 hkeys
    | send hst hkey h =>
      have hend : t'.Returns := follow_session (P := fun _ u => u.Returns) hs1 hprog' h
        (fun _ _ h => h) (fun _ hpoll heq h => h.step hpoll heq) hrun hy'
      exact iff_of_false (hend.moved hpc' hat) (not_not.mpr ⟨hst, Or.inl hkey⟩)
    | cancel hst hkey hu =>
      have hstart : t.Redraws c room screen.page s.sh.db u := by
        rw [hu]
        exact ⟨hv, Or.inl ⟨rfl, rfl, rfl⟩⟩
      have hend : t.Redraws c room screen.page s'.sh.db t' :=
        follow_session hs1 hprog' (hstart.grow hsound hstep) (fun hz hzstep h => h.grow hz hzstep)
          (fun hdb hpoll heq h => h.step hat hroom hdb hpoll heq) hrun hy'
      rw [moves_cancel_iff hst hkey, not_not]
      exact hend.unmoved_iff hpc'

/-- A client reads the second page of six messages and opens the compose line. -/
def composeActs : List Act := historyActs 6 ++ olderActs 0 ++ [.run 0 (.key 105)]

theorem redraw_unmoved_typing :
    ∃ s s' t t' c screen, (chatSystem [demoRoom]).Reachable s ∧ (s.conns 0).prog = .telnet t
      ∧ t.chat = some c ∧ c.st = .compose ∧ c.atLive = false ∧ t.screens.getLast? = some screen
      ∧ screen.page.map ChatMsg.id = [3, 4] ∧ s.step [demoRoom] (.run 0 (.key 104)) = some s'
      ∧ (s'.conns 0).prog = .telnet t' ∧ Unmoved screen.page t c t' := by
  obtain ⟨s, hs, hcheck⟩ := exists_reachable [demoRoom] composeActs
    (fun s => (s.conns 0).prog.chats fun t c =>
      decide (t.pc = .poll ∧ c.room = some demoRoom ∧ c.st = .compose ∧ c.atLive = false)
        && (t.screens.getLast?.any fun (screen : RoomScreen) =>
          decide (screen.page.map ChatMsg.id = [3, 4]))
        && (s.step [demoRoom] (.run 0 (.key 104))).any fun (s' : Sys) =>
          (s'.conns 0).prog.chats fun t' _ => decide (t'.pc = .poll)) (by decide +kernel)
  obtain ⟨t, c, hy, hc, hcheck⟩ := Prog.exists_chat hcheck
  obtain ⟨hcheck, hstep⟩ := (Bool.and_eq_true _ _).mp hcheck
  obtain ⟨hcheck, hscreen⟩ := (Bool.and_eq_true _ _).mp hcheck
  obtain ⟨hpc, hroom, hst, hat⟩ := of_decide_eq_true hcheck
  obtain ⟨screen, hscreen, hpage⟩ := (Option.any_eq_true _ _).mp hscreen
  obtain ⟨s', hstep, hcheck⟩ := (Option.any_eq_true _ _).mp hstep
  obtain ⟨t', -, hy', -, hpc'⟩ := Prog.exists_chat hcheck
  have hunmoved := (redraw_unmoved_iff hs hy hpc hc hroom hat hscreen
    (fun h => absurd (hst.symm.trans h.1) nofun) hstep (.init rfl) hy' (of_decide_eq_true hpc')).mpr
    (fun h => absurd h.2 (by simp))
  exact ⟨s, s', t, t', c, screen, hs, hy, hc, hst, hat, hscreen, of_decide_eq_true hpage, hstep, hy',
    hunmoved⟩

/-- Connection 0 does not take its next event. -/
def Sys.noEvent (s : Sys) (act : Act) : Bool :=
  match (s.conns 0).prog with
  | .telnet t => decide (t.pc = .poll → act.actor ≠ some 0)
  | _ => true

/-- **A cancelled text moves the reader a page back.**  Of six messages, two on a
page, the reader has the second page on the screen and is composing; Esc draws the
first page, with the height unchanged. -/
theorem redraw_moves_reader :
    ∃ s s1 s' t t' c screen, (chatSystem [demoRoom]).Reachable s ∧ (s.conns 0).prog = .telnet t
      ∧ t.pc = .poll ∧ t.chat = some c ∧ c.st = .compose ∧ c.atLive = false
      ∧ t.screens.getLast? = some screen ∧ screen.page.map ChatMsg.id = [3, 4]
      ∧ s.step [demoRoom] (.run 0 (.key 27)) = some s1
      ∧ ((chatSystem [demoRoom]).startingAt s1).ReachableVia (NoEvent 0) s'
      ∧ (s'.conns 0).prog = .telnet t' ∧ t'.pc = .poll ∧ t'.termRows = t.termRows
      ∧ t'.screens.getLast?.map (fun screen => screen.page.map ChatMsg.id) = some [1, 2]
      ∧ ¬ Unmoved screen.page t c t' := by
  obtain ⟨s, hs, hcheck⟩ := exists_reachable [demoRoom] composeActs
    (fun s => (s.conns 0).prog.chats fun t c =>
      decide (t.pc = .poll ∧ c.st = .compose ∧ c.atLive = false)
        && (t.screens.getLast?.any fun (screen : RoomScreen) =>
          decide (screen.page.map ChatMsg.id = [3, 4]))
        && (s.step [demoRoom] (.run 0 (.key 27))).any fun (s1 : Sys) =>
          ((((chatSystem [demoRoom]).startingAt s1).guarded Sys.noEvent).run s1
            [.run 0 .go, .run 0 .go]).any fun (s' : Sys) => (s'.conns 0).prog.chats fun t' c' =>
              decide (t'.pc = .poll ∧ t'.termRows = t.termRows
                ∧ t'.screens.getLast?.map (fun screen => screen.page.map ChatMsg.id) = some [1, 2]
                ∧ c'.oldestShown ≠ c.oldestShown)) (by decide +kernel)
  obtain ⟨t, c, hy, hc, hcheck⟩ := Prog.exists_chat hcheck
  obtain ⟨hcheck, hstep⟩ := (Bool.and_eq_true _ _).mp hcheck
  obtain ⟨hcheck, hscreen⟩ := (Bool.and_eq_true _ _).mp hcheck
  obtain ⟨hpc, hst, hat⟩ := of_decide_eq_true hcheck
  obtain ⟨screen, hscreen, hpage⟩ := (Option.any_eq_true _ _).mp hscreen
  obtain ⟨s1, hstep, heval⟩ := (Option.any_eq_true _ _).mp hstep
  obtain ⟨s', hrun, hcheck⟩ := exists_of_run _ heval
  obtain ⟨t', c', hy', hc', hcheck⟩ := Prog.exists_chat hcheck
  obtain ⟨hpc', hrows, hpage', hold⟩ := of_decide_eq_true hcheck
  have hno : ∀ (z : Sys) (act : Act) (z' : Sys), True → z.noEvent act = true →
      ((chatSystem [demoRoom]).startingAt s1).step z act = some z' → True ∧ NoEvent 0 z act z' := by
    intro z act z' _ htest _
    refine ⟨trivial, fun u hu hpoll => ?_⟩
    unfold Sys.noEvent at htest
    rw [hu] at htest
    exact of_decide_eq_true htest hpoll
  have hinit : ((chatSystem [demoRoom]).startingAt s1).ReachableVia (NoEvent 0) s1 := .init rfl
  obtain ⟨hreach, -⟩ := run_guarded hno _ _ _ hinit trivial hrun
  exact ⟨s, s1, s', t, t', c, screen, hs, hy, hpc, hc, hst, hat, hscreen, of_decide_eq_true hpage,
    hstep, hreach, hy', hpc', hrows, hpage', fun h => hold (h.2 c' hc').1⟩

end NetServer.Chat
