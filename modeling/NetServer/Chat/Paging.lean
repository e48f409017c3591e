/-
  NetServer.Chat.Paging — key `p`: how a telnet session reads a room's history.

  A reader goes through `older`, `page` and `users` for each page, and other
  threads may post between any two of these points.  What ties the points
  together is the last page shown (`TelnetPc.Turns`); the pages of a run are
  collected beside it (`pagesSince`), from the last live one on.

  Main results:
    • `Telnet.step_reads` — one step of a reader keeps the last page or draws the
                            one below it;
    • `Reading.step`      — the pages shown stay one run of the room's messages;
    • `paging_contiguous` — over every run.
-/
import NetServer.Chat.Anchor

namespace NetServer.Chat

open NetServer.Lib
open NetServer.Lib.OrderedLog
open NetServer.Lib.TransitionSystem

/-! ## §1. The pages of a reader. -/

/-- The room screens on a connection's terminal. -/
def Prog.screens : Prog → List RoomScreen
  | .telnet t => t.screens
  | _ => []

/-- The rows `render_room` has for messages. -/
def Prog.budget : Prog → Nat
  | .telnet t => wantRows t.termRows
  | _ => 0

/-- The session follows the newest page. -/
def Prog.live : Prog → Bool
  | .telnet t => t.chat.any ChatState.atLive
  | _ => false

/-- The pages shown to `y` since its last live one, the last shown in front, each
with the row budget at that moment. -/
def pagesSince (rooms : List ChatRoom) (y : Nat) (s : Sys) (act : Act)
    (shown : List (Nat × List ChatMsg)) : List (Nat × List ChatMsg) :=
  let prog := (s.conns y).prog
  let drawn := ((s.step rooms act).map fun s' => (s'.conns y).prog.screens.drop prog.screens.length)
  match drawn with
  | some (screen :: _) =>
      if prog.live then [(prog.budget, screen.page)] else (prog.budget, screen.page) :: shown
  | _ => shown

/-- The server from `s` on, with the pages shown to `y` beside it; `first` is on the
screen at `s`. -/
def pagedSystem (rooms : List ChatRoom) (y : Nat) (s : Sys) (first : Nat × List ChatMsg) :
    TransitionSystem (Sys × List (Nat × List ChatMsg)) Act :=
  ((chatSystem rooms).startingAt s).monitored (fun _ => [first]) (pagesSince rooms y)

/-- The only key of connection `y` is `p`. -/
def OnlyOlder (y : Nat) : Sys × List (Nat × List ChatMsg) → Act →
    Sys × List (Nat × List ChatMsg) → Prop :=
  fun _ act _ => ∀ k, act = .run y (.key k) → k = 112

/-- The end of a session, from the moment the loop is left. -/
def TelnetPc.ending : TelnetPc → Bool
  | .destroyUnsubscribe true | .destroyPresence true | .closing => true
  | _ => false

/-- Where a reader is between two pages, of which `last` is the last one shown. -/
def TelnetPc.Turns (log : List ChatMsg) (rows : Nat) (c : ChatState) (last : List ChatMsg) :
    TelnetPc → Prop
  | .poll | .drain | .drained | .older => last.head?.map ChatMsg.id = some c.oldestShown
  | .page _ =>
      last.head?.map ChatMsg.id = some c.oldestShown
        ∧ (c.atLive = false → below ChatMsg.id c.oldestShown log ≠ [])
  | .users msgs _ =>
      msgs ≠ [] ∧ (c.atLive = false → ∃ m, last.head? = some m
        ∧ msgs = pageBelow ChatMsg.id m.id (wantRows rows) log)
  | _ => False

/-- A session that reads a room. -/
def Telnet.Reads (log : List ChatMsg) (room : ChatRoom) (last : List ChatMsg) (t : Telnet) : Prop :=
  ∃ c, t.chat = some c ∧ c.room = some room ∧ c.st = .inRoom ∧ t.pc.Turns log t.termRows c last

theorem wantRows_le (rows : Nat) : wantRows rows ≤ chatMsgLines := by
  unfold wantRows
  dsimp only
  split
  · rename_i havail
    omega
  · exact Nat.le_refl _

namespace Telnet

section Steps

variable {rooms : List ChatRoom} {sh : Shared} {bytes : Nat} {shutdown : Bool} {choice : Choice}
  {t t' : Telnet} {c : ChatState} {op : Op}

/-- Key `p` in a room. -/
theorem chatHandleKey_older (hst : c.st = .inRoom) :
    t.chatHandleKey rooms c 112 = { t with pc := .older } := by
  unfold chatHandleKey
  rw [hst]
  rfl

variable {room : ChatRoom} {last : List ChatMsg}

/-- The anchor of a reader is an id. -/
theorem anchor_pos {db : ChatDb} (hdb : db.Wf) (hlast : ∀ m ∈ last, m ∈ db.roomMsgs room.id)
    (h : last.head?.map ChatMsg.id = some c.oldestShown) : 0 < c.oldestShown := by
  obtain ⟨m, hm, heq⟩ := Option.map_eq_some_iff.mp h
  rw [← heq]
  exact roomMsgs_pos hdb (hlast m (List.mem_of_head? hm))

/-- `render_room` reads the page below the last one, or the newest. -/
theorem page_turns {db : ChatDb} {rows : Nat} {notified : Bool} {msgs : List ChatMsg} (hdb : db.Wf)
    (hlast : ∀ m ∈ last, m ∈ db.roomMsgs room.id)
    (h : (TelnetPc.page notified).Turns (db.roomMsgs room.id) rows c last)
    (hmsgs : msgs = chatDbMessagesBefore db room.id (if c.atLive then 0 else c.oldestShown)
      (wantRows rows) chatMsgLines) (oldest : Int) :
    (TelnetPc.users msgs notified).Turns (db.roomMsgs room.id) rows
      { c with oldestShown := oldest } last := by
  obtain ⟨hhead, hpast⟩ := h
  obtain ⟨m, hm, hid⟩ := Option.map_eq_some_iff.mp hhead
  have hmem := hlast m (List.mem_of_head? hm)
  cases hat : c.atLive with
  | true =>
    rw [hat] at hmsgs
    refine ⟨?_, nofun⟩
    rw [hmsgs]
    exact ChatState.newest_ne_nil hdb (List.ne_nil_of_mem hmem) (wantRows_pos rows)
  | false =>
    have hpage : msgs = pageBelow ChatMsg.id m.id (wantRows rows) (db.roomMsgs room.id) := by
      rw [hmsgs, hat, hid, if_neg nofun, messagesBefore_eq hdb _ (anchor_pos hdb hlast hhead),
        Nat.min_eq_left (wantRows_le rows)]
    refine ⟨?_, fun _ => ⟨m, hm, hpage⟩⟩
    rw [hpage, hid]
    exact fun hnil => hpast hat ((pageBelow_eq_nil (wantRows_pos rows)).mp hnil)

/-- **One step of a reader** whose only key is `p`: it keeps the last page, or ends,
or draws the page that it read. -/
theorem step_reads (hdb : sh.db.Wf) (hanch : t.Anchored sh.db)
    (hlast : ∀ m ∈ last, m ∈ sh.db.roomMsgs room.id)
    (h : t.Reads (sh.db.roomMsgs room.id) room last) (hkeys : ∀ k, choice = .key k → k = 112)
    (heq : t.step rooms sh bytes shutdown choice = some (t', op)) :
    (t'.screens = t.screens
      ∧ (t'.pc.ending = true ∨ t'.Reads (sh.db.roomMsgs room.id) room last))
    ∨ ∃ msgs notified payloads, t.pc = .users msgs notified
        ∧ t'.screens = t.screens ++ [{ page := msgs, payloads := payloads }]
        ∧ t'.Reads (sh.db.roomMsgs room.id) room msgs := by
  obtain ⟨c, hc, hr, hst, hturns⟩ := h
  -- the same chat at another point
  have hkeep : ∀ {u : Telnet}, u.chat = t.chat → u.screens = t.screens →
      u.pc.Turns (sh.db.roomMsgs room.id) u.termRows c last →
      u.screens = t.screens
        ∧ (u.pc.ending = true ∨ u.Reads (sh.db.roomMsgs room.id) room last) := by
    intro u hchat hscreens hturns'
    exact ⟨hscreens, Or.inr ⟨c, by rw [hchat]; exact hc, hr, hst, hturns'⟩⟩
  by_cases hpoll : t.pc = .poll
  · rw [hpoll] at hturns
    cases (step_poll hpoll hc heq).2 with
    | key k hchoice =>
      rw [hkeys k hchoice, chatHandleKey_older hst]
      exact Or.inl (hkeep rfl rfl hturns)
    | resize rows hchoice =>
      refine Or.inl (hkeep rfl rfl ?_)
      rw [show ({ t with termRows := rows } : Telnet).pc = .poll from hpoll]
      exact hturns
    | readable hchoice => exact Or.inl (hkeep rfl rfl hturns)
    | close hchoice => exact Or.inl ⟨rfl, Or.inl rfl⟩
  · cases step_stepped heq with
    | page c1 room1 notified msgs hpc hc1 hr1 hmsgs =>
      cases hc.symm.trans hc1
      cases hr.symm.trans hr1
      rw [hpc] at hturns
      refine Or.inl ⟨rfl, Or.inr ⟨_, rfl, hr, hst, ?_⟩⟩
      exact page_turns hdb hlast hturns hmsgs _
    | draw c1 room1 notified msgs hpc hc1 hr1 =>
      cases hc.symm.trans hc1
      cases hr.symm.trans hr1
      have hv := hanch.drawing hpc hc hr
      rw [hpc] at hturns
      refine Or.inr ⟨msgs, notified, _, hpc, rfl, c, hc, hr, hst, ?_⟩
      obtain ⟨m, rest, rfl⟩ := List.exists_cons_of_ne_nil hturns.1
      exact congrArg some (hv.head m rfl)
    | oldest c1 room1 hpc hc1 hr1 hmsgs =>
      rw [hpc] at hturns
      exact Or.inl (hkeep rfl rfl hturns)
    | older c1 room1 hpc hc1 hr1 hmsgs =>
      cases hc.symm.trans hc1
      cases hr.symm.trans hr1
      rw [hpc] at hturns
      refine Or.inl ⟨rfl, Or.inr ⟨_, rfl, hr, hst, hturns, fun _ hnil => hmsgs ?_⟩⟩
      rw [messagesBefore_eq hdb room.id (anchor_pos hdb hlast hturns)]
      exact (pageBelow_eq_nil (by decide)).mpr hnil
    | drain hpc hbytes => exact Or.inl (hkeep rfl rfl hturns)
    | drainEnd hpc hbytes =>
      rw [hpc] at hturns
      exact Or.inl (hkeep rfl rfl hturns)
    | redraw c1 hpc hnot hc1 hst1 hat =>
      cases hc.symm.trans hc1
      rw [hpc] at hturns
      refine Or.inl (hkeep rfl rfl ⟨hturns, fun hpast => ?_⟩)
      rw [hat] at hpast
      exact absurd hpast nofun
    | idle hpc hidle =>
      rw [hpc] at hturns
      exact Or.inl (hkeep rfl rfl hturns)
    | close hpc hc1 => exact absurd (hc.symm.trans hc1) nofun
    | closeChat c1 hpc hc1 => exact Or.inl ⟨rfl, Or.inl rfl⟩
    | key _ _ hpc | askName hpc | openLobby hpc | resize _ hpc | readable hpc => exact absurd hpc hpoll
    | lobbyRoom _ _ _ _ hpc | lobbyEnd _ hpc | enterPresence _ _ hpc | enterSubscribe _ _ hpc
    | post _ _ _ hpc | posted _ _ hpc | postPresence _ _ hpc | leave _ _ _ hpc | leaveNone _ _ hpc
    | left _ _ _ hpc | destroy _ _ _ hpc | destroyNone _ _ hpc | destroyed _ _ _ hpc =>
      -- not where a reader is
      rw [hpc] at hturns
      exact hturns.elim

/-- A session that ends draws nothing more. -/
theorem step_ending (h : t.pc.ending = true)
    (heq : t.step rooms sh bytes shutdown choice = some (t', op)) :
    t'.screens = t.screens ∧ t'.pc.ending = true := by
  cases step_stepped heq with
  | destroy c room closing hpc hc hr =>
    rw [hpc] at h
    cases closing with
    | true => exact ⟨rfl, rfl⟩
    | false => exact absurd h nofun
  | destroyNone c closing hpc hc hr =>
    rw [hpc] at h
    cases closing with
    | true => exact ⟨rfl, rfl⟩
    | false => exact absurd h nofun
  | destroyed c room closing hpc hc hr =>
    rw [hpc] at h
    cases closing with
    | true => exact ⟨rfl, rfl⟩
    | false => exact absurd h nofun
  | close hpc | closeChat _ hpc =>
    rcases hpc with hpc | hpc <;> rw [hpc] at h <;> exact absurd h nofun
  | key _ _ hpc | askName hpc | openLobby hpc | resize _ hpc | readable hpc | lobbyRoom _ _ _ _ hpc
  | lobbyEnd _ hpc | enterPresence _ _ hpc | enterSubscribe _ _ hpc | page _ _ _ _ hpc
  | draw _ _ _ _ hpc | oldest _ _ hpc | older _ _ hpc | post _ _ _ hpc | posted _ _ hpc
  | postPresence _ _ hpc | leave _ _ _ hpc | leaveNone _ _ hpc | left _ _ _ hpc | drain hpc
  | drainEnd hpc | redraw _ hpc | idle hpc =>
    rw [hpc] at h
    exact absurd h nofun

end Steps

/-- Messages of others leave a reader where it is. -/
theorem Reads.grow {log suf last : List ChatMsg} {room : ChatRoom} {t : Telnet}
    (hasc : Ascending ChatMsg.id (log ++ suf)) (hlast : ∀ m ∈ last, m ∈ log)
    (h : t.Reads log room last) : t.Reads (log ++ suf) room last := by
  obtain ⟨c, hc, hr, hst, hturns⟩ := h
  refine ⟨c, hc, hr, hst, ?_⟩
  cases hpc : t.pc with
  | page notified =>
    rw [hpc] at hturns
    obtain ⟨hhead, hpast⟩ := hturns
    obtain ⟨m, hm, hid⟩ := Option.map_eq_some_iff.mp hhead
    refine ⟨hhead, fun hat => ?_⟩
    rw [ChatState.below_anchor hasc ⟨m, hlast m (List.mem_of_head? hm), hid⟩]
    exact hpast hat
  | users msgs notified =>
    rw [hpc] at hturns
    obtain ⟨hne, hpast⟩ := hturns
    refine ⟨hne, fun hat => ?_⟩
    obtain ⟨m, hm, hpage⟩ := hpast hat
    exact ⟨m, hm, by rw [pageBelow_append hasc (hlast m (List.mem_of_head? hm)), hpage]⟩
  | _ =>
    rw [hpc] at hturns
    exact hturns

end Telnet

/-! ## §2. The pages of a run. -/

section Pages

variable {rooms : List ChatRoom} {s s' : Sys} {act : Act} {y : Nat}
  {shown : List (Nat × List ChatMsg)}

/-- A step that draws nothing. -/
theorem pagesSince_same (h : s.step rooms act = some s')
    (hscreens : (s'.conns y).prog.screens = (s.conns y).prog.screens
      ∨ (s'.conns y).prog.screens = []) : pagesSince rooms y s act shown = shown := by
  have hnil : (s'.conns y).prog.screens.drop (s.conns y).prog.screens.length = [] := by
    rcases hscreens with heq | heq
    · rw [heq, List.drop_length]
    · rw [heq, List.drop_nil]
  unfold pagesSince
  rw [h]
  dsimp only [Option.map_some]
  rw [hnil]

/-- A step that draws a screen. -/
theorem pagesSince_drawn (h : s.step rooms act = some s') {screen : RoomScreen}
    (hscreens : (s'.conns y).prog.screens = (s.conns y).prog.screens ++ [screen]) :
    pagesSince rooms y s act shown
      = if (s.conns y).prog.live then [((s.conns y).prog.budget, screen.page)]
        else ((s.conns y).prog.budget, screen.page) :: shown := by
  unfold pagesSince
  rw [h]
  dsimp only [Option.map_some]
  rw [hscreens, List.drop_left]

/-- The last page of a list of pages. -/
def lastPage (shown : List (Nat × List ChatMsg)) : List ChatMsg := (shown.head?.map Prod.snd).getD []

/-- The pages shown, and where the session that shows them is. -/
structure Reading (db : ChatDb) (room : ChatRoom) (prog : Prog)
    (shown : List (Nat × List ChatMsg)) : Prop where
  pages : Pages ChatMsg.id (db.roomMsgs room.id) shown
  budget : ∀ p ∈ shown, 1 ≤ p.1 ∧ p.1 ≤ 18
  place : prog = .closed ∨ ∃ t, prog = .telnet t
    ∧ (t.pc.ending = true ∨ t.Reads (db.roomMsgs room.id) room (lastPage shown))

variable {db : ChatDb} {room : ChatRoom} {prog : Prog}

theorem Reading.last_contiguous (h : Reading db room prog shown) :
    lastPage shown <:+: db.roomMsgs room.id := by
  have hpart := h.pages.contiguous
  cases shown with
  | nil => exact List.nil_infix
  | cons p rest => exact (List.prefix_append _ _).isInfix.trans hpart

theorem Reading.grow (hs : s.Sound) (hstep : s.step rooms act = some s')
    (h : Reading s.sh.db room prog shown) : Reading s'.sh.db room prog shown := by
  obtain ⟨suf, hsuf⟩ := Sys.step_roomMsgs hs hstep room.id
  have hasc := roomMsgs_ascending (hs.step hstep).db room.id
  rw [hsuf] at hasc
  refine ⟨?_, h.budget, ?_⟩
  · rw [hsuf]
    exact h.pages.grow hasc
  · rw [hsuf]
    rcases h.place with hclosed | ⟨t, ht, hplace⟩
    · exact Or.inl hclosed
    · refine Or.inr ⟨t, ht, ?_⟩
      rcases hplace with hend | hreads
      · exact Or.inl hend
      · exact Or.inr (hreads.grow hasc fun m hm => h.last_contiguous.subset hm)

/-- The first page shown. -/
theorem Reading.single {c : ChatState} {t : Telnet} {page : List ChatMsg} {w : Nat}
    (hv : c.View (db.roomMsgs room.id) page) (hne : page ≠ []) (hw : 1 ≤ w ∧ w ≤ 18)
    (hprog : prog = .telnet t) (hreads : t.Reads (db.roomMsgs room.id) room page) :
    Reading db room prog [(w, page)] := by
  refine ⟨Pages.start hv.part hne, ?_, Or.inr ⟨t, hprog, Or.inr hreads⟩⟩
  intro p hp
  rw [List.mem_singleton.mp hp]
  exact hw

/-- The page below the last one. -/
theorem Reading.older {prog' : Prog} {t : Telnet} {msgs : List ChatMsg} {w : Nat} {m : ChatMsg}
    (hdb : db.Wf) (h : Reading db room prog shown) (hm : (lastPage shown).head? = some m)
    (hpage : msgs = pageBelow ChatMsg.id m.id w (db.roomMsgs room.id)) (hne : msgs ≠ [])
    (hw : 1 ≤ w ∧ w ≤ 18) (hprog : prog' = .telnet t)
    (hreads : t.Reads (db.roomMsgs room.id) room msgs) :
    Reading db room prog' ((w, msgs) :: shown) := by
  obtain ⟨w', last, rest, rfl⟩ : ∃ w' last rest, shown = (w', last) :: rest := by
    cases shown with
    | nil => exact absurd hm nofun
    | cons p rest => exact ⟨p.1, p.2, rest, rfl⟩
  obtain ⟨tail, rfl⟩ : ∃ tail, last = m :: tail := List.head?_eq_some_iff.mp hm
  refine ⟨?_, ?_, Or.inr ⟨t, hprog, Or.inr hreads⟩⟩
  · rw [hpage] at hne ⊢
    exact h.pages.older (roomMsgs_ascending hdb room.id) hne
  · intro p hp
    rcases List.mem_cons.mp hp with rfl | hp
    · exact hw
    · exact h.budget p hp

/-- **One step of the server** while `y` reads: the pages shown stay one run of the
room's messages. -/
theorem Reading.step (hs : s.Sound)
    (hanch : ∀ t, (s.conns y).prog = .telnet t → t.Anchored s.sh.db)
    (hkeys : ∀ k, act = .run y (.key k) → k = 112) (hstep : s.step rooms act = some s')
    (h : Reading s.sh.db room (s.conns y).prog shown) :
    Reading s'.sh.db room (s'.conns y).prog (pagesSince rooms y s act shown) := by
  refine Reading.grow hs hstep ?_
  rcases h.place with hclosed | ⟨t, ht, hplace⟩
  · have hclosed' := closed_stays hstep hclosed
    rw [pagesSince_same hstep (Or.inr (by rw [hclosed']; rfl))]
    exact ⟨h.pages, h.budget, Or.inl hclosed'⟩
  cases sessionStep hstep ht with
  | other hact hprog' =>
    rw [pagesSince_same hstep (Or.inl (by rw [hprog', ht]))]
    exact ⟨h.pages, h.budget, Or.inr ⟨t, hprog', hplace⟩⟩
  | closed hpc hprog' =>
    rw [pagesSince_same hstep (Or.inr (by rw [hprog']; rfl))]
    exact ⟨h.pages, h.budget, Or.inl hprog'⟩
  | own t' choice op s1 hact hown happly hs1 hprog' =>
    have hscreens : ∀ {l}, t'.screens = l → (s'.conns y).prog.screens = l := by
      intro l hl
      rw [hprog']
      exact hl
    have hscreens_t : (s.conns y).prog.screens = t.screens := by
      rw [ht]
      rfl
    rcases hplace with hend | hreads
    · obtain ⟨hsame, hend'⟩ := Telnet.step_ending hend hown
      rw [pagesSince_same hstep (Or.inl (by rw [hscreens hsame, hscreens_t]))]
      exact ⟨h.pages, h.budget, Or.inr ⟨t', hprog', Or.inl hend'⟩⟩
    have hlast : ∀ m ∈ lastPage shown, m ∈ s.sh.db.roomMsgs room.id :=
      fun m hm => h.last_contiguous.subset hm
    have hstepped := Telnet.step_reads hs.db (hanch t ht) hlast hreads
      (fun k hk => hkeys k (by rw [hact, hk])) hown
    rcases hstepped with ⟨hsame, hplace'⟩ | ⟨msgs, notified, payloads, hpc, hdrawn, hreads'⟩
    · rw [pagesSince_same hstep (Or.inl (by rw [hscreens hsame, hscreens_t]))]
      exact ⟨h.pages, h.budget, Or.inr ⟨t', hprog', hplace'⟩⟩
    · rw [pagesSince_drawn hstep (by rw [hscreens hdrawn, hscreens_t])]
      have hbudget : (s.conns y).prog.budget = wantRows t.termRows := by
        rw [ht]
        rfl
      have hbound : 1 ≤ wantRows t.termRows ∧ wantRows t.termRows ≤ 18 :=
        ⟨wantRows_pos _, wantRows_le _⟩
      obtain ⟨c, hc, hr, -, hturns⟩ := hreads
      have hlive : (s.conns y).prog.live = c.atLive := by
        rw [ht]
        show t.chat.any ChatState.atLive = c.atLive
        rw [hc]
        rfl
      rw [hpc] at hturns
      obtain ⟨hne, hpast⟩ := hturns
      rw [hbudget, hlive]
      cases hat : c.atLive with
      | true =>
        -- a live page starts over
        exact Reading.single ((hanch t ht).drawing hpc hc hr) hne hbound hprog' hreads'
      | false =>
        obtain ⟨m, hm, hpage⟩ := hpast hat
        exact h.older hs.db hm hpage hne hbound hprog' hreads'

end Pages

/-- A session's step that touches only its own memory. -/
theorem Sys.step_own {rooms : List ChatRoom} {s : Sys} {y : Nat} {t t' : Telnet} {choice : Choice}
    (hy : (s.conns y).prog = .telnet t) (hpc : t.pc ≠ .closing)
    (hstep : t.step rooms s.sh (s.conns y).bytes (s.conns y).shutdown choice = some (t', .skip)) :
    s.step rooms (.run y choice) = some (s.setProg y (.telnet t')) := by
  have hprog : Sys.progStep rooms s.sh (s.conns y) choice = some (.telnet t', .skip) := by
    unfold Sys.progStep
    rw [hy]
    dsimp only
    rw [if_neg hpc, hstep]
    rfl
  unfold Sys.step
  dsimp only
  rw [hprog]
  rfl

/-- Key `p` changes nothing for session `t` on `y`: it looks below its page, while
others may run, and is back as it was. -/
def OlderIgnored (rooms : List ChatRoom) (s : Sys) (y : Nat) (t : Telnet) : Prop :=
  ∃ s1, s.step rooms (.run y (.key 112)) = some s1
    ∧ ∀ s2, ((chatSystem rooms).startingAt s1).ReachableVia (fun _ act _ => act.actor ≠ some y) s2 →
      ∀ choice, ∃ s3, s2.step rooms (.run y choice) = some s3 ∧ (s3.conns y).prog = .telnet t

/-- Nothing is below the room's first message, now or later. -/
theorem messagesBefore_first {db : ChatDb} (hdb : db.Wf) {r : Int} {m : ChatMsg}
    (hm : (db.roomMsgs r).head? = some m) (limit max : Nat) :
    chatDbMessagesBefore db r m.id limit max = [] := by
  obtain ⟨rest, hlog⟩ := List.head?_eq_some_iff.mp hm
  have hasc := roomMsgs_ascending hdb r
  have hpos : 0 < m.id := roomMsgs_pos hdb (List.mem_of_head? hm)
  have hbelow : below ChatMsg.id m.id (db.roomMsgs r) = [] := by
    rw [hlog] at hasc ⊢
    exact @below_split ChatMsg Int _ ChatMsg.id [] rest m hasc
  rw [messagesBefore_eq hdb r hpos]
  unfold pageBelow
  rw [hbelow, List.drop_nil]

/-- On the room's first message key `p` finds nothing. -/
theorem olderIgnored {rooms : List ChatRoom} {s : Sys} (hs : (chatSystem rooms).Reachable s) {y : Nat}
    {t : Telnet} {c : ChatState} {room : ChatRoom} {m : ChatMsg}
    (hy : (s.conns y).prog = .telnet t) (hpc : t.pc = .poll) (hc : t.chat = some c)
    (hroom : c.room = some room) (hst : c.st = .inRoom) (hold : c.oldestShown = m.id)
    (hm : (s.sh.db.roomMsgs room.id).head? = some m) : OlderIgnored rooms s y t := by
  have hkey : (chatSystem rooms).step s (.run y (.key 112))
      = some (s.setProg y (.telnet { t with pc := .older })) := by
    have hpoll : ∀ bytes shutdown, t.pollStep rooms bytes shutdown (.key 112)
        = some (t.chatHandleKey rooms c 112) := by
      intro bytes shutdown
      unfold Telnet.pollStep
      rw [hc]
    refine Sys.step_own hy (by rw [hpc]; exact nofun) ?_
    unfold Telnet.step
    rw [hpc]
    dsimp only
    rw [hpoll, Telnet.chatHandleKey_older hst]
    rfl
  refine ⟨_, hkey, ?_⟩
  intro s2 hs2 choice
  have hs1 : (chatSystem rooms).Reachable (s.setProg y (.telnet { t with pc := .older })) :=
    .step hs hkey trivial
  -- meanwhile the room may grow, at its end
  have hwait : (s2.conns y).prog = .telnet { t with pc := .older }
      ∧ (s2.sh.db.roomMsgs room.id).head? = some m := by
    refine ReachableVia.strengthen (P := fun z => (z.conns y).prog = .telnet { t with pc := .older }
      ∧ (z.sh.db.roomMsgs room.id).head? = some m) (Q := Sys.Sound)
      (fun z hz => reachable_sound (hs1.trans hz.reachable)) ?_ ?_ hs2
    · rintro z rfl
      exact ⟨by rw [Sys.setProg_conn], hm⟩
    · rintro z act z' hz ⟨hprog, hfirst⟩ hstep hact
      have hstep : z.step rooms act = some z' := hstep
      constructor
      · obtain ⟨n, down, hconn, -⟩ := Sys.step_others hstep hact
        rw [hconn]
        exact hprog
      · obtain ⟨suf, hsuf⟩ := Sys.step_roomMsgs hz hstep room.id
        rw [hsuf, List.head?_append, hfirst]
        rfl
  obtain ⟨hprog, hfirst⟩ := hwait
  have hdb : s2.sh.db.Wf := (reachable_sound (hs1.trans hs2.reachable)).db
  refine ⟨s2.setProg y (.telnet t), Sys.step_own hprog nofun ?_, by rw [Sys.setProg_conn]⟩
  unfold Telnet.step
  dsimp only
  rw [hc, Option.bind_some, hroom, Option.map_some, hold, messagesBefore_first hdb hfirst, if_pos rfl,
    ← hc, ← hpc]

/-- **Paging back skips nothing and repeats nothing.**  A session stands in a room
with a page, live or not, on its screen that is not empty; from then on its only key
is `p`, while everything else may happen: posts, wake-ups, changes of its height, its
end.  At any time: each page shown since then, or since the last live page, is the
newest part, up to the row budget at that moment, of the messages below the smallest
id of the page before it; put together the pages are one ascending run of the room's
messages; and once the room's first message is on the screen, key `p` changes
nothing. -/
theorem paging_contiguous {rooms : List ChatRoom} {s : Sys} (hs : (chatSystem rooms).Reachable s)
    {y : Nat} {t : Telnet} {c : ChatState} {room : ChatRoom} {screen : RoomScreen}
    (hy : (s.conns y).prog = .telnet t) (hpc : t.pc = .poll) (hc : t.chat = some c)
    (hroom : c.room = some room) (hst : c.st = .inRoom)
    (hscreen : t.screens.getLast? = some screen) (hpage : screen.page ≠ [])
    {s' : Sys} {shown : List (Nat × List ChatMsg)}
    (hrun : (pagedSystem rooms y s (wantRows t.termRows, screen.page)).ReachableVia (OnlyOlder y)
      (s', shown)) :
    shown.IsChain (OlderPage ChatMsg.id (s'.sh.db.roomMsgs room.id))
    ∧ (∀ p ∈ shown, 1 ≤ p.1 ∧ p.1 ≤ 18)
    ∧ (shown.map Prod.snd).flatten <:+: s'.sh.db.roomMsgs room.id
    ∧ (shown.map Prod.snd).flatten.Pairwise (fun m m' => m.id < m'.id)
    ∧ ∀ t' m, (s'.conns y).prog = .telnet t' → t'.pc = .poll →
        (s'.sh.db.roomMsgs room.id).head? = some m → m ∈ lastPage shown →
        OlderIgnored rooms s' y t' := by
  have hstart : Reading s.sh.db room (s.conns y).prog [(wantRows t.termRows, screen.page)] := by
    have hv := (reachable_anchored hs hy).waiting hpc hc hroom hscreen
    refine Reading.single hv hpage ⟨wantRows_pos _, wantRows_le _⟩ hy ⟨c, hc, hroom, hst, ?_⟩
    obtain ⟨m, rest, hm⟩ := List.exists_cons_of_ne_nil hpage
    have hhead : screen.page.head? = some m := by
      rw [hm]
      rfl
    rw [hpc]
    show screen.page.head?.map ChatMsg.id = some c.oldestShown
    rw [hhead, Option.map_some, hv.head m hhead]
  have hreach : ∀ {p}, (pagedSystem rooms y s (wantRows t.termRows, screen.page)).ReachableVia
      (OnlyOlder y) p → (chatSystem rooms).Reachable p.1 :=
    fun hp => hs.trans (monitored_reachable hp)
  have hreading : Reading s'.sh.db room (s'.conns y).prog shown := by
    refine ReachableVia.strengthen (P := fun p => Reading p.1.sh.db room (p.1.conns y).prog p.2)
      (Q := fun p => (chatSystem rooms).Reachable p.1) (fun p hp => hreach hp) ?_ ?_ hrun
    · rintro ⟨z, l⟩ ⟨hz, hl⟩
      have hz : z = s := hz
      have hl : l = [(wantRows t.termRows, screen.page)] := hl
      rw [hz, hl]
      exact hstart
    · rintro ⟨z, l⟩ act ⟨z', l'⟩ hz hread hstep hok
      obtain ⟨hstep, hl'⟩ := monitored_step hstep
      have hstep : z.step rooms act = some z' := hstep
      have hl' : l' = pagesSince rooms y z act l := hl'
      rw [hl']
      exact hread.step (reachable_sound hz) (fun u hu => reachable_anchored hz hu) hok hstep
  have hs' := hreach hrun
  have hasc := roomMsgs_ascending (reachable_sound hs').db room.id
  refine ⟨hreading.pages.chain, hreading.budget, hreading.pages.contiguous,
    ascending_sublist hasc hreading.pages.contiguous.sublist, ?_⟩
  intro t' m hy' hpc' hfirst hm
  rcases hreading.place with hclosed | ⟨u, hu, hplace⟩
  · exact absurd (hclosed.symm.trans hy') nofun
  cases hu.symm.trans hy'
  rcases hplace with hend | ⟨c', hc', hroom', hst', hturns⟩
  · rw [hpc'] at hend
    exact absurd hend nofun
  · rw [hpc'] at hturns
    have hhead := head?_of_contiguous hasc hreading.last_contiguous hfirst hm
    have hturns : (lastPage shown).head?.map ChatMsg.id = some c'.oldestShown := hturns
    rw [hhead] at hturns
    exact olderIgnored hs' hy' hpc' hc' hroom' hst' (Option.some.inj hturns).symm hfirst

/-- A client with room for two messages enters a room of `n`. -/
def historyActs (n : Nat) : List Act :=
  (List.range n).flatMap (fun i => postActs (i + 1) (i + 1))
    ++ .connectTelnet 0 0 :: .run 0 (.resize 7) :: (enterActs 0).tail

/-- Key `p`, up to the redraw. -/
def olderActs (y : Nat) : List Act := [.run y (.key 112), .run y .go, .run y .go, .run y .go]

/-- The key of connection `y`, if it is one, is `p`. -/
def Act.onlyOlder (y : Nat) (act : Act) : Bool :=
  match act with
  | .run x (.key k) => decide (x = y → k = 112)
  | _ => true

theorem paging_contiguous_two_pages :
    ∃ (s : Sys) (t : Telnet) (shown : List (Nat × List ChatMsg)), (s.conns 0).prog = .telnet t
      ∧ shown.map (fun p => p.2.map ChatMsg.id) = [[1, 2], [3, 4]]
      ∧ shown.IsChain (OlderPage ChatMsg.id (s.sh.db.roomMsgs 1))
      ∧ (shown.map Prod.snd).flatten <:+: s.sh.db.roomMsgs 1 ∧ OlderIgnored [demoRoom] s 0 t := by
  obtain ⟨s, hs, hcheck⟩ := exists_reachable [demoRoom] (historyActs 4)
    (fun s => (s.conns 0).prog.chats fun t c =>
      decide (t.pc = .poll ∧ c.room = some demoRoom ∧ c.st = .inRoom)
        && t.screens.getLast?.any fun (screen : RoomScreen) => decide (screen.page ≠ [])
          && (((pagedSystem [demoRoom] 0 s (wantRows t.termRows, screen.page)).guarded
            fun _ act => act.onlyOlder 0).run (s, [(wantRows t.termRows, screen.page)])
              (olderActs 0)).any fun (p : Sys × List (Nat × List ChatMsg)) =>
                (p.1.conns 0).prog.chats fun t' _ =>
                  decide (t'.pc = .poll ∧ p.2.map (fun p => p.2.map ChatMsg.id) = [[1, 2], [3, 4]])
                    && (p.1.sh.db.roomMsgs 1).head?.any fun m => decide (m ∈ lastPage p.2))
    (by decide +kernel)
  obtain ⟨t, c, hy, hc, hcheck⟩ := Prog.exists_chat hcheck
  obtain ⟨hcheck, hscreen⟩ := (Bool.and_eq_true _ _).mp hcheck
  obtain ⟨hpc, hroom, hst⟩ := of_decide_eq_true hcheck
  obtain ⟨screen, hscreen, hcheck⟩ := (Option.any_eq_true _ _).mp hscreen
  obtain ⟨hpage, heval⟩ := (Bool.and_eq_true _ _).mp hcheck
  obtain ⟨⟨s', shown⟩, hrun, hcheck⟩ := exists_of_run _ heval
  obtain ⟨t', -, hy', -, hcheck⟩ := Prog.exists_chat hcheck
  obtain ⟨hcheck, hfirst⟩ := (Bool.and_eq_true _ _).mp hcheck
  obtain ⟨hpc', hids⟩ := of_decide_eq_true hcheck
  obtain ⟨m, hm, hlast⟩ := (Option.any_eq_true _ _).mp hfirst
  have hkeys : ∀ (p : Sys × List (Nat × List ChatMsg)) (act : Act) p', True →
      act.onlyOlder 0 = true →
      (pagedSystem [demoRoom] 0 s (wantRows t.termRows, screen.page)).step p act = some p' →
      True ∧ OnlyOlder 0 p act p' := by
    intro p act p' _ htest _
    refine ⟨trivial, fun k hk => ?_⟩
    rw [hk] at htest
    exact of_decide_eq_true htest rfl
  have hinit : (pagedSystem [demoRoom] 0 s (wantRows t.termRows, screen.page)).ReachableVia
      (OnlyOlder 0) (s, [(wantRows t.termRows, screen.page)]) := .init ⟨rfl, rfl⟩
  obtain ⟨hreach, -⟩ := run_guarded hkeys _ _ _ hinit trivial hrun
  obtain ⟨hchain, -, hpart, -, hstop⟩ :=
    paging_contiguous hs hy hpc hc hroom hst hscreen (of_decide_eq_true hpage) hreach
  exact ⟨s', t', shown, hy', hids, hchain, hpart, hstop t' m hy' hpc' hm (of_decide_eq_true hlast)⟩

end NetServer.Chat
