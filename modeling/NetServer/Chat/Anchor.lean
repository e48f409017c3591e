/-
  NetServer.Chat.Anchor — the anchor of a room's page, `oldest_shown`.

  `oldest_shown` is the id below which a session has not read yet: key `p` asks
  for messages below it, and `render_room` draws the page below it and moves it
  to the first message drawn.  The invariant ties the field to the screen
  (`ChatState.View`): the page shown is a part of the room's messages and, when
  it is not empty, the field is its first id.  New messages are above all of
  them, so a room that grows leaves the page and the field as they are.

  Main results:
    • `ChatState.Held.view`  — `render_room` ties the field to its page;
    • `Telnet.step_anchored` — every step keeps field and screen together;
    • `reachable_anchored`   — over every run.
-/
import NetServer.Chat.Ui

namespace NetServer.Chat

open NetServer.Lib
open NetServer.Lib.OrderedLog
open NetServer.Lib.TransitionSystem

/-! ## §1. The anchor. -/

namespace ChatState

/-- What the anchor stands for before a page is read: nothing yet, or a message
of the room.  History is asked for only where there is some. -/
structure Held (log : List ChatMsg) (c : ChatState) : Prop where
  anchor : c.oldestShown = 0 ∨ ∃ m ∈ log, m.id = c.oldestShown
  past : c.atLive = false → log ≠ []

/-- The anchor and the page on the screen. -/
structure View (log : List ChatMsg) (c : ChatState) (page : List ChatMsg) : Prop where
  part : page <:+: log
  anchor : c.oldestShown = 0 ∨ ∃ m ∈ log, m.id = c.oldestShown
  head : ∀ m, page.head? = some m → m.id = c.oldestShown
  past : c.atLive = false →
    c.oldestShown ≠ 0 ∧ (page = [] → below ChatMsg.id c.oldestShown log = [])

variable {log page : List ChatMsg} {c c' : ChatState}

/-- New messages are above the anchor. -/
theorem below_anchor {suf : List ChatMsg} (hasc : Ascending ChatMsg.id (log ++ suf))
    (hanchor : ∃ m ∈ log, m.id = c.oldestShown) :
    below ChatMsg.id c.oldestShown (log ++ suf) = below ChatMsg.id c.oldestShown log := by
  obtain ⟨m, hm, heq⟩ := hanchor
  rw [← heq]
  exact below_append hasc hm

theorem anchor_grow (suf : List ChatMsg)
    (h : c.oldestShown = 0 ∨ ∃ m ∈ log, m.id = c.oldestShown) :
    c.oldestShown = 0 ∨ ∃ m ∈ log ++ suf, m.id = c.oldestShown := by
  rcases h with h | ⟨m, hm, heq⟩
  · exact Or.inl h
  · exact Or.inr ⟨m, List.mem_append_left _ hm, heq⟩

theorem Held.grow (h : c.Held log) (suf : List ChatMsg) : c.Held (log ++ suf) where
  anchor := anchor_grow suf h.anchor
  past := fun hat => List.append_ne_nil_of_left_ne_nil (h.past hat) suf

theorem View.grow {suf : List ChatMsg} (hasc : Ascending ChatMsg.id (log ++ suf))
    (h : c.View log page) : c.View (log ++ suf) page where
  part := h.part.trans (List.prefix_append log suf).isInfix
  anchor := anchor_grow suf h.anchor
  head := h.head
  past := fun hat => by
    obtain ⟨hne, hnil⟩ := h.past hat
    refine ⟨hne, fun hpage => ?_⟩
    rw [below_anchor hasc (h.anchor.resolve_left hne)]
    exact hnil hpage

/-- Only the anchor and `at_live` matter. -/
theorem View.congr (h : c.View log page) (hold : c'.oldestShown = c.oldestShown)
    (hlive : c'.atLive = c.atLive) : c'.View log page where
  part := h.part
  anchor := by
    rw [hold]
    exact h.anchor
  head := by
    rw [hold]
    exact h.head
  past := by
    rw [hold, hlive]
    exact h.past

/-- A page is asked for: the newest one, or one where there is a past. -/
theorem View.held (h : c.View log page) (hold : c'.oldestShown = c.oldestShown)
    (hlive : c'.atLive = true ∨ log ≠ []) : c'.Held log where
  anchor := by
    rw [hold]
    exact h.anchor
  past := fun hat => by
    rcases hlive with hlive | hlog
    · rw [hat] at hlive
      exact absurd hlive nofun
    · exact hlog

/-- History on the screen is history in the room. -/
theorem View.log_ne_nil (h : c.View log page) (hat : c.atLive = false) : log ≠ [] := by
  obtain ⟨m, hm, -⟩ := h.anchor.resolve_left (h.past hat).1
  exact List.ne_nil_of_mem hm

/-- A session that reads the newest page of a room with messages gets some. -/
theorem newest_ne_nil {db : ChatDb} (hdb : db.Wf) {r : Int} (hlog : db.roomMsgs r ≠ []) {w : Nat}
    (hw : 0 < w) : chatDbMessagesBefore db r 0 w chatMsgLines ≠ [] := by
  rw [messagesBefore_newest hdb, List.map_drop]
  intro hnil
  have hlen := List.drop_eq_nil_iff.mp hnil
  have hpos : 0 < (db.roomMsgs r).length := List.length_pos_iff.mpr hlog
  unfold ChatDb.roomMsgs at hpos
  rw [List.length_map] at hlen hpos
  unfold chatMsgLines at hlen
  omega

/-- Every page is a part of the room's messages. -/
theorem messagesBefore_contiguous {db : ChatDb} (hdb : db.Wf) (r : Int) {a : Int}
    (ha : a = 0 ∨ ∃ m ∈ db.roomMsgs r, m.id = a) (w max : Nat) :
    chatDbMessagesBefore db r a w max <:+: db.roomMsgs r := by
  rcases ha with rfl | ⟨m, hm, rfl⟩
  · rw [messagesBefore_newest hdb, List.map_drop]
    exact (List.drop_suffix _ _).isInfix
  · rw [messagesBefore_eq hdb r (roomMsgs_pos hdb hm)]
    obtain ⟨pre, suf, hlog⟩ := List.append_of_mem hm
    have hpart : [m] <:+: db.roomMsgs r := ⟨pre, suf, by rw [hlog, List.append_assoc]; rfl⟩
    exact (List.prefix_append _ _).isInfix.trans
      (pageBelow_contiguous (roomMsgs_ascending hdb r) hpart (min w max))

/-- **`render_room` keeps the anchor and the page together.** -/
theorem Held.view {db : ChatDb} (hdb : db.Wf) {r : Int} {w : Nat} (hw : 0 < w)
    (h : c.Held (db.roomMsgs r)) {msgs : List ChatMsg}
    (hmsgs : msgs = chatDbMessagesBefore db r (if c.atLive then 0 else c.oldestShown) w chatMsgLines) :
    { c with oldestShown := (msgs.head?.map ChatMsg.id).getD c.oldestShown }.View
      (db.roomMsgs r) msgs := by
  have hpart : msgs <:+: db.roomMsgs r := by
    rw [hmsgs]
    apply messagesBefore_contiguous hdb
    cases c.atLive with
    | true => exact Or.inl rfl
    | false => exact h.anchor
  cases msgs with
  | cons m rest =>
    have hm : m ∈ db.roomMsgs r := hpart.subset List.mem_cons_self
    refine ⟨hpart, Or.inr ⟨m, hm, rfl⟩, ?_, ?_⟩
    · intro m' hm'
      cases hm'
      rfl
    · intro _
      exact ⟨(roomMsgs_pos hdb hm).ne', nofun⟩
  | nil =>
    refine ⟨hpart, h.anchor, nofun, ?_⟩
    intro hat
    have hat : c.atLive = false := hat
    rw [hat] at hmsgs
    have hmsgs : [] = chatDbMessagesBefore db r c.oldestShown w chatMsgLines := hmsgs
    rcases h.anchor with h0 | ⟨m, hm, heq⟩
    · -- no anchor asks for the newest page, and there is one
      rw [h0] at hmsgs
      exact absurd hmsgs.symm (newest_ne_nil hdb (h.past hat) hw)
    · have hpos : 0 < c.oldestShown := by
        rw [← heq]
        exact roomMsgs_pos hdb hm
      refine ⟨hpos.ne', fun _ => ?_⟩
      show below ChatMsg.id c.oldestShown (db.roomMsgs r) = []
      rw [messagesBefore_eq hdb r hpos] at hmsgs
      exact (pageBelow_eq_nil (by unfold chatMsgLines; omega)).mp hmsgs.symm

end ChatState

/-- The points of a visit at which a page is on the screen, or being drawn. -/
def TelnetPc.viewing : TelnetPc → Bool
  | .poll | .users _ _ | .older | .post _ | .postPresence | .drain | .drained => true
  | _ => false

/-- The points of a visit before a page is read. -/
def TelnetPc.asking : TelnetPc → Bool
  | .enterPresence | .enterSubscribe | .page _ => true
  | _ => false

/-- The anchor of a session that is in a room. -/
def Telnet.Anchored (db : ChatDb) (t : Telnet) : Prop :=
  ∀ c room, t.chat = some c → c.room = some room →
    (t.pc.viewing = true → ∃ page, t.shown = some page ∧ c.View (db.roomMsgs room.id) page)
    ∧ (t.pc.asking = true → c.Held (db.roomMsgs room.id))

namespace Telnet

section Steps

variable {db : ChatDb} {t t' : Telnet} {c c' : ChatState}

/-- Outside the room there is nothing to anchor. -/
theorem anchored_outside (hview : t'.pc.viewing = false) (hask : t'.pc.asking = false) :
    t'.Anchored db := by
  intro c room hc hr
  refine ⟨fun h => ?_, fun h => ?_⟩
  · rw [hview] at h
    exact absurd h nofun
  · rw [hask] at h
    exact absurd h nofun

theorem anchored_noRoom (hc' : ∀ c', t'.chat = some c' → c'.room = none) : t'.Anchored db := by
  intro c room hc hr
  rw [hc' c hc] at hr
  exact absurd hr nofun

variable (h : t.Anchored db)

include h

/-- The page a session waits with. -/
theorem Anchored.waiting {room : ChatRoom} {screen : RoomScreen} (hpc : t.pc = .poll)
    (hc : t.chat = some c) (hr : c.room = some room) (hscreen : t.screens.getLast? = some screen) :
    c.View (db.roomMsgs room.id) screen.page := by
  obtain ⟨page, hshown, hv⟩ := (h c room hc hr).1 (by rw [hpc]; rfl)
  unfold shown at hshown
  rw [hpc, hscreen] at hshown
  cases hshown
  exact hv

/-- The page being drawn. -/
theorem Anchored.drawing {room : ChatRoom} {msgs : List ChatMsg} {notified : Bool}
    (hpc : t.pc = .users msgs notified) (hc : t.chat = some c) (hr : c.room = some room) :
    c.View (db.roomMsgs room.id) msgs := by
  obtain ⟨page, hshown, hv⟩ := (h c room hc hr).1 (by rw [hpc]; rfl)
  unfold shown at hshown
  rw [hpc] at hshown
  cases hshown
  exact hv

/-- On with the same page on the screen. -/
theorem Anchored.keep (hview : t.pc.viewing = true) (hask' : t'.pc.asking = false)
    (hshown : t'.shown = t.shown)
    (hchat : ∀ c', t'.chat = some c' → ∃ c, t.chat = some c ∧ c'.room = c.room
      ∧ c'.oldestShown = c.oldestShown ∧ c'.atLive = c.atLive) : t'.Anchored db := by
  intro c' room hc' hr'
  obtain ⟨c, hc, hroom, hold, hlive⟩ := hchat c' hc'
  refine ⟨fun _ => ?_, fun hask => ?_⟩
  · obtain ⟨page, hpage, hv⟩ := (h c room hc (by rw [← hroom]; exact hr')).1 hview
    exact ⟨page, by rw [hshown]; exact hpage, hv.congr hold hlive⟩
  · rw [hask'] at hask
    exact absurd hask nofun

/-- On to draw a page. -/
theorem Anchored.ask (hc : t.chat = some c) (hview : t.pc.viewing = true)
    (hview' : t'.pc.viewing = false) (hc' : t'.chat = some c') (hroom : c'.room = c.room)
    (hold : c'.oldestShown = c.oldestShown)
    (hlive : ∀ room, c.room = some room →
      c'.atLive = true ∨ c.atLive = false ∨ db.roomMsgs room.id ≠ []) : t'.Anchored db := by
  intro c1 room hc1 hr1
  cases hc'.symm.trans hc1
  have hr : c.room = some room := by rw [← hroom]; exact hr1
  refine ⟨fun hv => ?_, fun _ => ?_⟩
  · rw [hview'] at hv
    exact absurd hv nofun
  · obtain ⟨page, -, hv⟩ := (h c room hc hr).1 hview
    refine hv.held hold ?_
    rcases hlive room hr with hat | hat | hlog
    · exact Or.inl hat
    · exact Or.inr (hv.log_ne_nil hat)
    · exact Or.inr hlog

theorem keyStep_anchored {rooms : List ChatRoom} {key : UInt8} (hpc : t.pc = .poll)
    (hc : t.chat = some c) (hkey : KeyStep rooms t c key t') : t'.Anchored db := by
  have hview : t.pc.viewing = true := by rw [hpc]; rfl
  have hask : t.pc.asking = false := by rw [hpc]; rfl
  -- a key that changes only texts and the state leaves the page alone
  have hkeep : ∀ {c' : ChatState} {u : Telnet}, u.chat = some c' → u.pc = t.pc →
      u.screens = t.screens → c'.room = c.room → c'.oldestShown = c.oldestShown →
      c'.atLive = c.atLive → u.Anchored db := by
    intro c' u hu hpc' hscreens hroom hold hlive
    refine h.keep hview (by rw [hpc']; exact hask) ?_ ?_
    · unfold shown
      rw [hpc', hscreens]
    · intro c1 hc1
      cases hu.symm.trans hc1
      exact ⟨c, hc, hroom, hold, hlive⟩
  cases hkey with
  | ignored => exact h
  | editName buf payload hst hbuf => exact hkeep rfl rfl rfl rfl rfl rfl
  | compose hst => exact hkeep rfl rfl rfl rfl rfl rfl
  | editText text hst htext => exact hkeep rfl rfl rfl rfl rfl rfl
  | enter room hst hroom =>
    intro c' room' hc' hr'
    cases hc'
    exact ⟨nofun, fun _ => ⟨Or.inl rfl, nofun⟩⟩
  | older hst =>
    refine h.keep hview rfl ?_ fun c' hc' => ⟨c', hc', rfl, rfl, rfl⟩
    unfold shown
    rw [hpc]
  | newest hst => exact h.ask hc hview rfl rfl rfl rfl fun _ _ => Or.inl rfl
  | cancel hst =>
    refine h.ask hc hview rfl rfl rfl rfl fun _ _ => ?_
    show c.atLive = true ∨ c.atLive = false ∨ _
    cases c.atLive with
    | true => exact Or.inl rfl
    | false => exact Or.inr (Or.inl rfl)
  | blank hst htext => exact h.ask hc hview rfl rfl rfl rfl fun _ _ => Or.inl rfl
  | post room user body hst hroom hclean =>
    refine h.keep hview rfl ?_ fun c' hc' => ⟨c', hc', rfl, rfl, rfl⟩
    unfold shown
    rw [hpc]
  | dropped hst hdrop =>
    refine h.keep hview rfl ?_ fun c' hc' => ⟨c', hc', rfl, rfl, rfl⟩
    unfold shown
    rw [hpc]
  | _ => exact anchored_outside rfl rfl

end Steps

/-- **Every step keeps the anchor and the screen together.** -/
theorem step_anchored {rooms : List ChatRoom} {sh : Shared} {bytes : Nat} {shutdown : Bool}
    {choice : Choice} {t t' : Telnet} {op : Op} (hok : t.Ok) (hdb : sh.db.Wf)
    (h : t.Anchored sh.db) (heq : t.step rooms sh bytes shutdown choice = some (t', op)) :
    t'.Anchored sh.db := by
  -- a step between two screens that leaves the chat as it is
  have hkeep : ∀ {u : Telnet}, t.pc.viewing = true → u.chat = t.chat → u.pc.asking = false →
      u.shown = t.shown → u.Anchored sh.db := by
    intro u hview hchat hask hshown
    refine h.keep hview hask hshown fun c' hc' => ⟨c', ?_, rfl, rfl, rfl⟩
    rw [← hchat]
    exact hc'
  cases step_stepped heq with
  | key k c hpc hc hkey => exact keyStep_anchored h hpc hc hkey
  | askName hpc hc hname =>
    refine anchored_noRoom fun c' hc' => ?_
    cases hc'
    rfl
  | resize rows hpc =>
    refine hkeep (by rw [hpc]; rfl) rfl ?_ rfl
    show t.pc.asking = false
    rw [hpc]
    rfl
  | readable hpc hbytes =>
    refine hkeep (by rw [hpc]; rfl) rfl rfl ?_
    unfold shown
    rw [hpc]
  | lobbyEnd quit hpc =>
    refine anchored_noRoom fun c hc => ?_
    have hc : t.chat = some c := hc
    have hfits := fits_of_ok hc hok
    rw [hpc] at hfits
    exact hfits.1
  | enterPresence c room hpc hc hr =>
    intro c' room' hc' hr'
    refine ⟨nofun, fun _ => ?_⟩
    exact (h c' room' hc' hr').2 (by rw [hpc]; rfl)
  | enterSubscribe c room hpc hc hr =>
    intro c' room' hc' hr'
    refine ⟨nofun, fun _ => ?_⟩
    exact (h c' room' hc' hr').2 (by rw [hpc]; rfl)
  | page c room notified msgs hpc hc hr hmsgs =>
    intro c' room' hc' hr'
    cases hc'
    cases hr.symm.trans hr'
    refine ⟨fun _ => ⟨msgs, rfl, ?_⟩, nofun⟩
    exact ((h c room hc hr).2 (by rw [hpc]; rfl)).view hdb (wantRows_pos _) hmsgs
  | draw c room notified msgs hpc hc hr =>
    refine hkeep (by rw [hpc]; rfl) rfl rfl ?_
    show (t.screens ++ [_]).getLast?.map RoomScreen.page = t.shown
    unfold shown
    rw [hpc, List.getLast?_concat]
    rfl
  | oldest c room hpc hc hr hmsgs =>
    refine hkeep (by rw [hpc]; rfl) rfl rfl ?_
    unfold shown
    rw [hpc]
  | older c room hpc hc hr hmsgs =>
    refine h.ask hc (by rw [hpc]; rfl) rfl rfl rfl rfl fun room' hr' => ?_
    cases hr.symm.trans hr'
    refine Or.inr (Or.inr fun hnil => hmsgs ?_)
    obtain ⟨page, -, hv⟩ := (h c room hc hr).1 (by rw [hpc]; rfl)
    have hpart := ChatState.messagesBefore_contiguous hdb room.id hv.anchor chatMsgLines chatMsgLines
    rw [hnil] at hpart
    exact List.infix_nil.mp hpart
  | post p p' op hpc hpost =>
    refine hkeep (by rw [hpc]; rfl) rfl rfl ?_
    unfold shown
    rw [hpc]
  | posted p op hpc hpost =>
    refine hkeep (by rw [hpc]; rfl) rfl rfl ?_
    unfold shown
    rw [hpc]
  | postPresence c room hpc hc hr =>
    exact h.ask hc (by rw [hpc]; rfl) rfl rfl rfl rfl fun _ _ => Or.inl rfl
  | drain hpc hbytes => exact h
  | drainEnd hpc hbytes =>
    refine hkeep (by rw [hpc]; rfl) rfl rfl ?_
    unfold shown
    rw [hpc]
  | redraw c hpc hnot hc hst hat =>
    exact h.ask hc (by rw [hpc]; rfl) rfl hc rfl rfl fun _ _ => Or.inl hat
  | idle hpc hidle =>
    refine hkeep (by rw [hpc]; rfl) rfl rfl ?_
    unfold shown
    rw [hpc]
  | destroyNone c closing hpc hc hr => exact anchored_noRoom nofun
  | destroyed c room closing hpc hc hr => exact anchored_noRoom nofun
  | _ => exact anchored_outside rfl rfl

end Telnet

/-! ## §2. The anchor on every run. -/

/-- A room's messages only grow, at the end. -/
theorem Sys.step_roomMsgs {rooms : List ChatRoom} {s s' : Sys} {act : Act} (hs : s.Sound)
    (h : s.step rooms act = some s') (r : Int) :
    ∃ suf, s'.sh.db.roomMsgs r = s.sh.db.roomMsgs r ++ suf := by
  rcases Sys.step_messages hs.threads h with hsame | ⟨x, r', id, user, body, -, hins⟩
  · refine ⟨[], ?_⟩
    unfold ChatDb.roomMsgs ChatDb.roomRows
    rw [hsame.1, List.append_nil]
  · unfold ChatDb.roomMsgs
    rw [hins.db, roomRows_insert, List.map_append]
    exact ⟨_, rfl⟩

/-- Messages of others do not move a session. -/
theorem Telnet.Anchored.step_db {rooms : List ChatRoom} {s s' : Sys} {act : Act} (hs : s.Sound)
    (hstep : s.step rooms act = some s') {t : Telnet} (h : t.Anchored s.sh.db) :
    t.Anchored s'.sh.db := by
  intro c room hc hr
  obtain ⟨suf, hsuf⟩ := Sys.step_roomMsgs hs hstep room.id
  have hasc := roomMsgs_ascending (hs.step hstep).db room.id
  rw [hsuf] at hasc ⊢
  obtain ⟨hview, hheld⟩ := h c room hc hr
  refine ⟨fun hpc => ?_, fun hpc => (hheld hpc).grow suf⟩
  obtain ⟨page, hpage, hv⟩ := hview hpc
  exact ⟨page, hpage, hv.grow hasc⟩

theorem reachable_anchored {rooms : List ChatRoom} {ok : Sys → Act → Sys → Prop} {s : Sys}
    (h : (chatSystem rooms).ReachableVia ok s) {y : Nat} {t : Telnet}
    (hy : (s.conns y).prog = .telnet t) : t.Anchored s.sh.db := by
  refine ReachableVia.strengthen (P := fun s => ∀ t, (s.conns y).prog = .telnet t →
    t.Anchored s.sh.db) (fun s hs => reachable_sound hs) ?_ ?_ h t hy
  · rintro s ⟨db, now, -, rfl⟩ t hy
    exact absurd hy nofun
  · intro s act s' hs hanch hstep _ t' hy'
    have hstep : s.step rooms act = some s' := hstep
    cases telnetStep hstep hy' with
    | other hact hprog => exact (hanch t' hprog).step_db hs hstep
    | started ht =>
      rw [ht]
      exact Telnet.anchored_noRoom nofun
    | own t choice op s1 hact hprog hown happly hs' =>
      exact (Telnet.step_anchored (hs.telnet hprog) hs.db (hanch t hprog) hown).step_db hs hstep

/-! ## §3. The next event of a session. -/

namespace Telnet

/-- A step from `poll` with an open chat, by what the environment chose. -/
inductive PollStep (rooms : List ChatRoom) (t : Telnet) (c : ChatState) (choice : Choice) :
    Telnet → Prop where
  | key (k : UInt8) (hchoice : choice = .key k) : PollStep rooms t c choice (t.chatHandleKey rooms c k)
  | resize (rows : Nat) (hchoice : choice = .resize rows) :
      PollStep rooms t c choice { t with termRows := rows }
  | readable (hchoice : choice = .readable) : PollStep rooms t c choice { t with pc := .drain }
  | close (hchoice : choice = .hangup ∨ choice = .go) :
      PollStep rooms t c choice { t with pc := .destroyUnsubscribe true }

theorem step_poll {rooms : List ChatRoom} {sh : Shared} {bytes : Nat} {shutdown : Bool}
    {choice : Choice} {t t' : Telnet} {c : ChatState} {op : Op} (hpc : t.pc = .poll) (hc : t.chat = some c)
    (heq : t.step rooms sh bytes shutdown choice = some (t', op)) :
    op = .skip ∧ PollStep rooms t c choice t' := by
  have hend : t.endSession = { t with pc := .destroyUnsubscribe true } := by
    unfold endSession
    rw [hc]
  unfold step at heq
  rw [hpc] at heq
  obtain ⟨t1, hstep, hpair⟩ := Option.map_eq_some_iff.mp heq
  cases hpair
  refine ⟨rfl, ?_⟩
  cases choice with
  | key k =>
    unfold pollStep at hstep
    rw [hc] at hstep
    cases hstep
    exact .key k rfl
  | openChat =>
    unfold pollStep at hstep
    rw [hc] at hstep
    exact absurd hstep nofun
  | resize rows =>
    obtain ⟨-, heq⟩ := Option.ite_none_right_eq_some.mp hstep
    cases heq
    exact .resize rows rfl
  | readable =>
    obtain ⟨-, heq⟩ := Option.ite_none_right_eq_some.mp hstep
    cases heq
    exact .readable rfl
  | hangup =>
    cases hstep
    rw [hend]
    exact .close (Or.inl rfl)
  | go =>
    obtain ⟨-, heq⟩ := Option.ite_none_right_eq_some.mp hstep
    cases heq
    rw [hend]
    exact .close (Or.inr rfl)
  | _ => exact absurd hstep nofun

end Telnet

end NetServer.Chat
