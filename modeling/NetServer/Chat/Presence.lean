/-
  NetServer.Chat.Presence — who is listed in a room.

  A thread holds a presence from the `chat_room_presence_set` of its visit to
  the `chat_room_presence_clear` that ends it, under the room and its cleaned
  name.  The table `presence` has one row per room and name, so two visits
  under one name share a row.  `step_roster` says that the server is a roster
  (`NetServer.Lib.Roster`): every step writes or deletes the row of the thread
  that takes it, or leaves the table alone.

    • `no_ghost_presence` — every row belongs to a visit, and with the last
      visit the table is empty;
    • `presence_complete` — every visit has its row, in the runs in which no
      visit ends while another one holds the same room and name.
-/
import NetServer.Chat.Freshness
import NetServer.Lib.Roster

namespace NetServer.Chat

open NetServer.Lib

/-! ## §1. What a thread holds. -/

/-- The key of the row that `chat_room_presence_set` writes, if any. -/
def heldName (roomId : Int) (user : List UInt8) : Option (Int × List UInt8) :=
  let clean := sanitizeUser user chatUserMax
  if clean = [] then none else some (roomId, clean)

/-- A telnet session holds its presence as long as the chat has a room, but for
the call that sets it. -/
def Telnet.holds (t : Telnet) : Option (Int × List UInt8) :=
  if t.pc = .enterPresence then none
  else (t.chat.bind (·.room)).bind fun room => heldName room.id t.username

/-- An event stream with a user holds it from its first set to its clear. -/
def Sse.holds (e : Sse) : Option (Int × List UInt8) :=
  match e.pc with
  | .tail | .subscribe | .presence => none
  | _ => if e.haveUser then heldName e.roomId e.user else none

def Http.holds : Http → Option (Int × List UInt8)
  | .events e => e.holds
  | _ => none

/-- The room and name under which a connection is present: it has completed
`chat_room_presence_set` and not yet called `chat_room_presence_clear`. -/
def Prog.holds : Prog → Option (Int × List UInt8)
  | .telnet t => t.holds
  | .http h => h.holds
  | _ => none

/-- The thread is about to call `chat_room_presence_clear`. -/
def Prog.clears : Prog → Bool
  | .telnet t =>
      match t.pc with
      | .leavePresence _ | .destroyPresence _ => true
      | _ => false
  | .http (.events e) => e.pc = .clear
  | _ => false

/-- Operations that do not touch the table. -/
def Op.NoPresence : Op → Prop
  | .presenceSet .. | .presenceClear .. => False
  | _ => True

/-- What a step of a thread does to what it holds; `clears` says that the thread
is about to call `chat_room_presence_clear`. -/
inductive HoldStep (clears : Bool) :
    Option (Int × List UInt8) → Op → Option (Int × List UInt8) → Prop where
  | set {held} (roomId : Int) (user : List UInt8) (h : held = none ∨ held = heldName roomId user) :
      HoldStep clears held (.presenceSet roomId user) (heldName roomId user)
  | clear (roomId : Int) (user : List UInt8) (h : clears = true) :
      HoldStep clears (heldName roomId user) (.presenceClear roomId user) none
  | other {held op} (h : op.NoPresence) : HoldStep clears held op held

theorem HoldStep.of_eq {clears : Bool} {held held' : Option (Int × List UInt8)} {op : Op}
    (h : op.NoPresence) (heq : held' = held) : HoldStep clears held op held' := by
  rw [heq]
  exact .other h

/-- Only a clear ends what is held. -/
theorem HoldStep.clears_of_end {clears : Bool} {k : Int × List UInt8} {held held' : Option _} {op : Op}
    (h : HoldStep clears held op held') (hheld : held = some k) (hheld' : held' = none) :
    clears = true := by
  cases h with
  | set roomId user hbefore =>
    rw [hheld, hheld'] at hbefore
    exact absurd hbefore (by rintro (h | h) <;> exact absurd h nofun)
  | clear roomId user hclr => exact hclr
  | other hop => exact absurd (hheld.symm.trans hheld') nofun

theorem postStep_noPresence {sh : Shared} {choice : Choice} {p : PostPc} {p' : Option PostPc}
    {op : Op} (h : postStep sh choice p = some (p', op)) : op.NoPresence := by
  cases p with
  | insert r user body =>
    cases choice with
    | inserted id =>
      cases id with
      | none =>
        cases h
        trivial
      | some id =>
        cases h
        trivial
    | _ => cases h
  | lock r id =>
    cases h
    trivial
  | write r id rest =>
    cases rest with
    | nil =>
      cases h
      trivial
    | cons fd rest =>
      cases h
      trivial

/-! ## §2. The telnet program. -/

namespace Telnet

theorem holds_room {t : Telnet} {c : ChatState} {room : ChatRoom} (hpc : t.pc ≠ .enterPresence)
    (hc : t.chat = some c) (hr : c.room = some room) : t.holds = heldName room.id t.username := by
  unfold holds
  rw [if_neg hpc, hc]
  show (c.room.bind fun room => heldName room.id t.username) = _
  rw [hr]
  rfl

theorem holds_none {t : Telnet} (h : ∀ c, t.chat = some c → c.room = none) : t.holds = none := by
  unfold holds
  split
  · rfl
  · rcases Option.eq_none_or_eq_some t.chat with hc | ⟨c, hc⟩
    · rw [hc]
      rfl
    · rw [hc]
      show (c.room.bind fun room => heldName room.id t.username) = none
      rw [h c hc]
      rfl

/-- On to another point with the same room and name. -/
theorem holds_same {t t' : Telnet} (hpc : t.pc ≠ .enterPresence) (hpc' : t'.pc ≠ .enterPresence)
    (hroom : t'.chat.bind (·.room) = t.chat.bind (·.room)) (hname : t'.username = t.username) :
    t'.holds = t.holds := by
  unfold holds
  rw [if_neg hpc, if_neg hpc', hroom, hname]

theorem keyStep_holds {rooms : List ChatRoom} {t t' : Telnet} {c : ChatState} {key : UInt8}
    (hpc : t.pc = .poll) (hc : t.chat = some c) (hset : c.Settled) (h : KeyStep rooms t c key t') :
    t'.holds = t.holds := by
  have hne : t.pc ≠ .enterPresence := by rw [hpc]; exact nofun
  have hroom : t.chat.bind (·.room) = c.room := by rw [hc]; rfl
  have houtside : c.st = .username ∨ c.st = .lobby → c.room = none := by
    rintro (hst | hst)
    · exact room_none_of_st hset (by rw [hst]; exact nofun) (by rw [hst]; exact nofun)
    · exact room_none_of_st hset (by rw [hst]; exact nofun) (by rw [hst]; exact nofun)
  -- outside a room nothing is held, and the name may change
  have hnone : c.st = .username ∨ c.st = .lobby → t.holds = none := by
    intro hst
    apply holds_none
    intro c' hc'
    cases hc.symm.trans hc'
    exact houtside hst
  cases h with
  | ignored => rfl
  | named hst hbuf =>
    rw [hnone (Or.inl hst)]
    apply holds_none
    intro c' hc'
    cases hc'
    exact houtside (Or.inl hst)
  | editName buf payload hst hbuf => exact holds_same hne (by exact hne) hroom.symm rfl
  | enter room hst hroom =>
    rw [hnone (Or.inr hst)]
    rfl
  | compose hst => exact holds_same hne (by exact hne) hroom.symm rfl
  | editText text hst htext => exact holds_same hne (by exact hne) hroom.symm rfl
  | newest hst => exact holds_same hne nofun hroom.symm rfl
  | cancel hst => exact holds_same hne nofun hroom.symm rfl
  | blank hst htext => exact holds_same hne nofun hroom.symm rfl
  | quitLobby hst => exact holds_same hne nofun rfl rfl
  | leave quit hst => exact holds_same hne nofun rfl rfl
  | older hst => exact holds_same hne nofun rfl rfl
  | post room user body hst hroom hclean => exact holds_same hne nofun rfl rfl
  | dropped hst hdrop => exact holds_same hne nofun rfl rfl

/-- Every step of a session thread. -/
theorem step_holds {t t' : Telnet} {rooms : List ChatRoom} {sh : Shared} {bytes : Nat}
    {shutdown : Bool} {choice : Choice} {op : Op} (hok : t.Ok)
    (h : t.step rooms sh bytes shutdown choice = some (t', op)) :
    HoldStep (Prog.telnet t).clears t.holds op t'.holds := by
  have hfits : ∀ {c pc}, t.chat = some c → t.pc = pc → pc.Fits c t.onNotify := by
    intro c pc hc hpc
    rw [← hpc]
    exact fits_of_ok hc hok
  -- a step inside the room, or one outside every room
  have hgoto : ∀ {pc : TelnetPc} {t'' : Telnet} {op' : Op}, t.pc = pc → pc ≠ .enterPresence →
      t''.pc ≠ .enterPresence → op'.NoPresence → t''.chat.bind (·.room) = t.chat.bind (·.room) →
      t''.username = t.username → HoldStep (Prog.telnet t).clears t.holds op' t''.holds := by
    intro pc t'' op' hpc hne hne' hop hroom hname
    exact .of_eq hop (holds_same (by rw [hpc]; exact hne) hne' hroom hname)
  cases step_stepped h with
  | key k c hpc hc hkey =>
    exact .of_eq trivial (keyStep_holds hpc hc (hfits hc hpc).1 hkey)
  | askName hpc hc hname =>
    exact hgoto hpc nofun (by show t.pc ≠ _; rw [hpc]; exact nofun) trivial (by rw [hc]; rfl) rfl
  | openLobby hpc hc hname => exact hgoto hpc nofun nofun trivial (by rw [hc]; rfl) rfl
  | resize rows hpc =>
    exact hgoto hpc nofun (by show t.pc ≠ _; rw [hpc]; exact nofun) trivial rfl rfl
  | readable hpc hbytes => exact hgoto hpc nofun nofun trivial rfl rfl
  | close hpc hc =>
    rcases hpc with hpc | hpc
    · exact hgoto hpc nofun nofun trivial rfl rfl
    · exact hgoto hpc nofun nofun trivial rfl rfl
  | closeChat c hpc hc =>
    rcases hpc with hpc | hpc
    · exact hgoto hpc nofun nofun trivial rfl rfl
    · exact hgoto hpc nofun nofun trivial rfl rfl
  | lobbyRoom i room rest quit hpc => exact hgoto hpc nofun nofun trivial rfl rfl
  | lobbyEnd quit hpc => exact hgoto hpc nofun (by cases quit <;> exact nofun) trivial rfl rfl
  | enterPresence c room hpc hc hr =>
    have hbefore : t.holds = none := by
      unfold holds
      rw [if_pos hpc]
    have hafter : ({ t with pc := .enterSubscribe } : Telnet).holds = heldName room.id t.username :=
      holds_room nofun hc hr
    rw [hbefore, hafter]
    exact .set room.id t.username (Or.inl rfl)
  | enterSubscribe c room hpc hc hr => exact hgoto hpc nofun nofun trivial rfl rfl
  | page c room notified msgs hpc hc hr hmsgs =>
    exact hgoto hpc nofun nofun trivial (by rw [hc]; rfl) rfl
  | draw c room notified msgs hpc hc hr => exact hgoto hpc nofun nofun trivial rfl rfl
  | oldest c room hpc hc hr hmsgs => exact hgoto hpc nofun nofun trivial rfl rfl
  | older c room hpc hc hr hmsgs => exact hgoto hpc nofun nofun trivial (by rw [hc]; rfl) rfl
  | post p p' op hpc hpost => exact hgoto hpc nofun nofun (postStep_noPresence hpost) rfl rfl
  | posted p op hpc hpost => exact hgoto hpc nofun nofun (postStep_noPresence hpost) rfl rfl
  | postPresence c room hpc hc hr =>
    have hbefore := holds_room (by rw [hpc]; exact nofun) hc hr
    have hafter : (t.resume c).holds = heldName room.id t.username := by
      have hroom : (t.resume c).chat = some { c with st := .inRoom, compose := [], atLive := true } :=
        rfl
      exact holds_room nofun hroom hr
    rw [hafter]
    exact .set room.id t.username (Or.inr hbefore)
  | leave c room quit hpc hc hr => exact hgoto hpc nofun nofun trivial rfl rfl
  | leaveNone c quit hpc hc hr => exact hgoto hpc nofun nofun trivial (by rw [hc]; rfl) rfl
  | left c room quit hpc hc hr =>
    have hbefore := holds_room (by rw [hpc]; exact nofun) hc hr
    rw [hbefore]
    refine .clear room.id t.username ?_
    show (match t.pc with | .leavePresence _ | .destroyPresence _ => true | _ => false) = true
    rw [hpc]
  | drain hpc hbytes => exact .other trivial
  | drainEnd hpc hbytes => exact hgoto hpc nofun nofun trivial rfl rfl
  | redraw c hpc hnot hc hst hat => exact hgoto hpc nofun nofun trivial rfl rfl
  | idle hpc hidle => exact hgoto hpc nofun nofun trivial rfl rfl
  | destroy c room closing hpc hc hr => exact hgoto hpc nofun nofun trivial rfl rfl
  | destroyNone c closing hpc hc hr =>
    exact hgoto hpc nofun (by unfold chatFreed; cases closing <;> exact nofun) trivial
      (by rw [hc]; exact hr.symm) rfl
  | destroyed c room closing hpc hc hr =>
    have hbefore := holds_room (by rw [hpc]; exact nofun) hc hr
    have hafter : (t.chatFreed closing).holds = none := holds_none nofun
    rw [hbefore, hafter]
    refine .clear room.id t.username ?_
    show (match t.pc with | .leavePresence _ | .destroyPresence _ => true | _ => false) = true
    rw [hpc]

end Telnet

/-! ## §3. The event stream, and any connection. -/

namespace Sse

theorem holds_of_user {e : Sse} (hpc : e.pc ≠ .tail ∧ e.pc ≠ .subscribe ∧ e.pc ≠ .presence) :
    e.holds = if e.haveUser then heldName e.roomId e.user else none := by
  obtain ⟨h1, h2, h3⟩ := hpc
  unfold holds
  split
  · rename_i h
    exact absurd h h1
  · rename_i h
    exact absurd h h2
  · rename_i h
    exact absurd h h3
  · rfl

theorem next_holds (e : Sse) (l : List ChatMsg) :
    (e.next l).holds = if e.haveUser then heldName e.roomId e.user else none := by
  cases l with
  | nil => rfl
  | cons m rest => rfl

/-- Every step of an event stream; its end holds nothing. -/
theorem step_holds {e : Sse} {e' : Option Sse} {sh : Shared} {bytes : Nat} {shutdown : Bool}
    {choice : Choice} {op : Op} (h : e.step sh bytes shutdown choice = some (e', op)) :
    HoldStep (decide (e.pc = .clear)) e.holds op (e'.bind Sse.holds) := by
  -- between the first set and the clear nothing changes
  have hstay : ∀ {e1 : Sse} {op1 : Op}, (e.pc ≠ .tail ∧ e.pc ≠ .subscribe ∧ e.pc ≠ .presence) →
      op1.NoPresence → e1.holds = (if e.haveUser then heldName e.roomId e.user else none) →
      HoldStep (decide (e.pc = .clear)) e.holds op1 ((some e1).bind Sse.holds) := by
    intro e1 op1 hpc hop h1
    exact .of_eq hop (h1.trans (holds_of_user hpc).symm)
  have hin : ∀ {pc : SsePc}, e.pc = pc → pc ≠ .tail → pc ≠ .subscribe → pc ≠ .presence →
      e.pc ≠ .tail ∧ e.pc ≠ .subscribe ∧ e.pc ≠ .presence := by
    intro pc hpc h1 h2 h3
    rw [hpc]
    exact ⟨h1, h2, h3⟩
  -- a set writes the row of the stream's user, if it has one
  have hset : ∀ {e1 : Sse}, e1.holds = (if e.haveUser then heldName e.roomId e.user else none) →
      (e.holds = none ∨ e.holds = if e.haveUser then heldName e.roomId e.user else none) →
      HoldStep (decide (e.pc = .clear)) e.holds
        (if e.haveUser then .presenceSet e.roomId e.user else .skip) ((some e1).bind Sse.holds) := by
    intro e1 h1 hheld
    rw [Option.bind_some, h1]
    cases huser : e.haveUser with
    | true =>
      rw [huser] at hheld
      exact .set e.roomId e.user hheld
    | false =>
      rw [huser] at hheld
      exact .of_eq trivial (hheld.elim Eq.symm Eq.symm)
  cases step_stepped h with
  | tail hpc =>
    refine .of_eq trivial ?_
    unfold holds
    rw [hpc]
    rfl
  | subscribe hpc =>
    refine .of_eq trivial ?_
    unfold holds
    rw [hpc]
    rfl
  | presence hpc =>
    refine hset rfl (Or.inl ?_)
    unfold holds
    rw [hpc]
  | comment hpc => exact hstay (hin hpc nofun nofun nofun) trivial rfl
  | wait hpc hdown => exact hstay (hin hpc nofun nofun nofun) trivial rfl
  | stop hpc hdown =>
    rcases hpc with hpc | hpc
    · exact hstay (hin hpc nofun nofun nofun) trivial rfl
    · exact hstay (hin hpc nofun nofun nofun) trivial rfl
  | hangup hpc => exact hstay (hin hpc nofun nofun nofun) trivial rfl
  | timeout hpc => exact hstay (hin hpc nofun nofun nofun) trivial rfl
  | readable hpc hbytes => exact hstay (hin hpc nofun nofun nofun) trivial rfl
  | drain hpc hbytes => exact .other trivial
  | drainEnd hpc hbytes => exact hstay (hin hpc nofun nofun nofun) trivial rfl
  | drained hpc hdown => exact hstay (hin hpc nofun nofun nofun) trivial rfl
  | pull hpc => exact hstay (hin hpc nofun nofun nofun) trivial (next_holds _ _)
  | sent cur rest hpc => exact hstay (hin hpc nofun nofun nofun) trivial (next_holds _ _)
  | sendFailed cur rest hpc => exact hstay (hin hpc nofun nofun nofun) trivial rfl
  | beatPresence hpc =>
    exact hset rfl (Or.inr (holds_of_user (hin hpc nofun nofun nofun)))
  | beat hpc => exact hstay (hin hpc nofun nofun nofun) trivial rfl
  | beatFailed hpc => exact hstay (hin hpc nofun nofun nofun) trivial rfl
  | unsubscribe hpc => exact hstay (hin hpc nofun nofun nofun) trivial rfl
  | clear hpc =>
    rw [holds_of_user (hin hpc nofun nofun nofun)]
    cases huser : e.haveUser with
    | true => exact .clear e.roomId e.user (decide_eq_true hpc)
    | false => exact .other trivial

end Sse

theorem Telnet.holds_closing {t : Telnet} (hok : t.Ok) (hpc : t.pc = .closing) : t.holds = none := by
  apply holds_none
  intro c hc
  have hfits := fits_of_ok hc hok
  rw [hpc] at hfits
  exact absurd hfits id

/-- **Every step of a connection** sets, clears or keeps what it holds. -/
theorem progStep_holds {rooms : List ChatRoom} {sh : Shared} {c : Conn} {choice : Choice} {p' : Prog}
    {op : Op} (hok : c.prog.Ok) (h : Sys.progStep rooms sh c choice = some (p', op)) :
    HoldStep c.prog.clears c.prog.holds op p'.holds := by
  cases progStep_stepped h with
  | telnet t t' op hprog hstep =>
    rw [hprog] at hok ⊢
    exact Telnet.step_holds hok hstep
  | telnetClose t hprog hpc =>
    rw [hprog] at hok ⊢
    exact .of_eq trivial (Telnet.holds_closing hok hpc).symm
  | routePost roomId text name user body hprog hclean =>
    rw [hprog]
    exact .other trivial
  | routeEvents roomId query hprog =>
    rw [hprog]
    exact .other trivial
  | routeClose hprog =>
    rw [hprog]
    exact .other trivial
  | post p p' op hprog hpost =>
    rw [hprog]
    exact .other (postStep_noPresence hpost)
  | posted p op hprog hpost =>
    rw [hprog]
    exact .other (postStep_noPresence hpost)
  | events e e' op hprog hstep =>
    rw [hprog]
    exact Sse.step_holds hstep
  | eventsEnd e op hprog hstep =>
    rw [hprog]
    exact Sse.step_holds hstep
  | httpClose hprog =>
    rw [hprog]
    exact .other trivial

/-! ## §4. The table is a roster. -/

/-- The row of a room and name, if there is one. -/
def ChatDb.row (db : ChatDb) (k : Int × List UInt8) : Option PresenceRow :=
  db.presence.find? fun p => p.roomId = k.1 ∧ p.user = k.2

/-- When that row was last written. -/
def ChatDb.seen (db : ChatDb) (k : Int × List UInt8) : Option Int := (db.row k).map PresenceRow.lastSeen

theorem ChatDb.row_key {db : ChatDb} {k : Int × List UInt8} {p : PresenceRow}
    (h : db.row k = some p) : p.roomId = k.1 ∧ p.user = k.2 := by
  have hfound := List.find?_some (p := fun p : PresenceRow => decide (p.roomId = k.1 ∧ p.user = k.2)) h
  exact of_decide_eq_true hfound

theorem ChatDb.row_isSome {db : ChatDb} {k : Int × List UInt8} :
    (db.row k).isSome = true ↔ ∃ p ∈ db.presence, p.roomId = k.1 ∧ p.user = k.2 := by
  unfold row
  rw [List.find?_isSome]
  simp only [decide_eq_true_eq]

theorem ChatDb.seen_of_mem {db : ChatDb} {p : PresenceRow} (h : p ∈ db.presence) :
    ∃ t, db.seen (p.roomId, p.user) = some t := by
  have hsome : (db.row (p.roomId, p.user)).isSome = true := ChatDb.row_isSome.mpr ⟨p, h, rfl, rfl⟩
  obtain ⟨q, hq⟩ := Option.isSome_iff_exists.mp hsome
  exact ⟨q.lastSeen, by unfold seen; rw [hq]; rfl⟩

theorem ChatDb.mem_of_seen {db : ChatDb} {k : Int × List UInt8} {t : Int} (h : db.seen k = some t) :
    { roomId := k.1, user := k.2, lastSeen := t } ∈ db.presence := by
  obtain ⟨p, hp, rfl⟩ := Option.map_eq_some_iff.mp h
  obtain ⟨hroom, huser⟩ := ChatDb.row_key hp
  rw [← hroom, ← huser]
  exact List.mem_of_find?_eq_some hp

/-- Refreshing a row that is there. -/
theorem presenceSet_seen_refresh {db : ChatDb} {k : Int × List UInt8} (now : Int)
    (hany : db.presence.any (fun p => p.roomId = k.1 ∧ p.user = k.2) = true)
    (k' : Int × List UInt8) :
    (chatDbPresenceSet db k.1 k.2 now).seen k' = if k' = k then some now else db.seen k' := by
  let refresh : PresenceRow → PresenceRow := fun p =>
    if p.roomId = k.1 ∧ p.user = k.2 then { p with lastSeen := now } else p
  have hkey : ∀ p, (refresh p).roomId = p.roomId ∧ (refresh p).user = p.user := by
    intro p
    show (if _ then _ else _ : PresenceRow).roomId = _ ∧ (if _ then _ else _ : PresenceRow).user = _
    split <;> exact ⟨rfl, rfl⟩
  have hrow : (chatDbPresenceSet db k.1 k.2 now).row k' = (db.row k').map refresh := by
    unfold chatDbPresenceSet
    rw [if_pos hany]
    show (db.presence.map refresh).find? _ = _
    rw [List.find?_map]
    unfold ChatDb.row
    congr 2
    funext p
    show decide ((refresh p).roomId = k'.1 ∧ (refresh p).user = k'.2) = _
    rw [(hkey p).1, (hkey p).2]
  unfold ChatDb.seen
  rw [hrow, Option.map_map]
  rcases Option.eq_none_or_eq_some (db.row k') with hnone | ⟨p, hp⟩
  · have hk : k' ≠ k := by
      rintro rfl
      have hsome : (db.row k').isSome = true := by
        unfold ChatDb.row
        rw [List.find?_isSome]
        exact List.any_eq_true.mp hany
      rw [hnone] at hsome
      exact absurd hsome nofun
    rw [if_neg hk, hnone]
    rfl
  · obtain ⟨hroom, huser⟩ := ChatDb.row_key hp
    rw [hp]
    show some (if p.roomId = k.1 ∧ p.user = k.2 then { p with lastSeen := now } else p).lastSeen = _
    rw [hroom, huser]
    by_cases hk : k' = k
    · rw [if_pos hk, hk, if_pos ⟨rfl, rfl⟩]
    · rw [if_neg hk, if_neg fun h => hk (Prod.ext h.1 h.2)]
      rfl

theorem presenceSet_seen (db : ChatDb) (k : Int × List UInt8) (now : Int) :
    (chatDbPresenceSet db k.1 k.2 now).seen = Function.update db.seen k (some now) := by
  funext k'
  rw [Function.update_apply]
  by_cases hany : db.presence.any (fun p => p.roomId = k.1 ∧ p.user = k.2) = true
  · exact presenceSet_seen_refresh now hany k'
  · -- a new row
    have hrow : (chatDbPresenceSet db k.1 k.2 now).row k'
        = (db.row k').or (if k' = k then some ⟨k.1, k.2, now⟩ else none) := by
      unfold chatDbPresenceSet
      rw [if_neg hany]
      show (db.presence ++ [_]).find? _ = _
      rw [List.find?_append, List.find?_singleton]
      unfold ChatDb.row
      congr 1
      by_cases hk : k' = k
      · rw [if_pos hk, hk, if_pos (decide_eq_true ⟨rfl, rfl⟩)]
      · rw [if_neg hk, if_neg]
        intro h
        obtain ⟨hroom, huser⟩ := of_decide_eq_true h
        exact hk (Prod.ext hroom.symm huser.symm)
    unfold ChatDb.seen
    rw [hrow]
    by_cases hk : k' = k
    · have hnone : db.row k' = none := by
        rw [hk]
        unfold ChatDb.row
        rw [List.find?_eq_none]
        intro p hp hkey
        exact hany (List.any_eq_true.mpr ⟨p, hp, hkey⟩)
      rw [if_pos hk, if_pos hk, hnone]
      rfl
    · rw [if_neg hk, if_neg hk, Option.or_none]

theorem presenceClear_seen (db : ChatDb) (k : Int × List UInt8) :
    (chatDbPresenceClear db k.1 k.2).seen = Function.update db.seen k none := by
  funext k'
  rw [Function.update_apply]
  have hrow : (chatDbPresenceClear db k.1 k.2).row k' = if k' = k then none else db.row k' := by
    show (db.presence.filter _).find? _ = _
    rw [List.find?_filter]
    by_cases hk : k' = k
    · rw [if_pos hk, hk, List.find?_eq_none]
      intro p hp hkey
      obtain ⟨hother, hsame⟩ := of_decide_eq_true hkey
      exact of_decide_eq_true hother (of_decide_eq_true hsame)
    · rw [if_neg hk]
      unfold ChatDb.row
      congr 1
      funext p
      by_cases hp : p.roomId = k'.1 ∧ p.user = k'.2
      · have hother : ¬ (p.roomId = k.1 ∧ p.user = k.2) := by
          rw [hp.1, hp.2]
          exact fun h => hk (Prod.ext h.1 h.2)
        rw [decide_eq_true hp, decide_eq_true hother]
        rfl
      · rw [decide_eq_false hp]
        exact decide_eq_false fun h => absurd h.2 nofun
  unfold ChatDb.seen
  rw [hrow]
  split <;> rfl

/-- What an operation does to the rows, by what the thread holds. -/
theorem HoldStep.roster {clears : Bool} {held held' : Option (Int × List UInt8)} {op : Op}
    (h : HoldStep clears held op held') {ro : Roster Nat (Int × List UInt8) Int} {x : Nat}
    {db : ChatDb} {now : Int} (hheld : ro.holds x = held) (hrows : ro.rows = db.seen) :
    ro.Step now
      { holds := Function.update ro.holds x held', rows := (op.onDb db now).seen } := by
  have hstay : ∀ rows', ro.holds x = held' → rows' = db.seen →
      ro.Step now { holds := Function.update ro.holds x held', rows := rows' } := by
    intro rows' hheld' hrows'
    rw [← hheld', Function.update_eq_self, hrows', ← hrows]
    exact .stay
  cases h with
  | set roomId user hbefore =>
    show ro.Step now { holds := _, rows := (chatRoomPresenceSet db roomId user now).seen }
    unfold chatRoomPresenceSet
    unfold heldName at hbefore hstay ⊢
    dsimp only at hbefore hstay ⊢
    split
    · rename_i hclean
      rw [if_pos hclean] at hbefore hstay
      exact hstay _ (hheld.trans (or_self_iff.mp hbefore)) rfl
    · rename_i hclean
      rw [if_neg hclean] at hbefore
      have hset := presenceSet_seen db (roomId, sanitizeUser user chatUserMax) now
      rw [hset, ← hrows]
      rw [← hheld] at hbefore
      exact .set x _ hbefore
  | clear roomId user _ =>
    show ro.Step now { holds := _, rows := (chatRoomPresenceClear db roomId user).seen }
    unfold chatRoomPresenceClear
    unfold heldName at hheld
    dsimp only at hheld ⊢
    split
    · rename_i hclean
      rw [if_pos hclean] at hheld
      exact hstay _ hheld rfl
    · rename_i hclean
      rw [if_neg hclean] at hheld
      have hclear := presenceClear_seen db (roomId, sanitizeUser user chatUserMax)
      rw [hclear, ← hrows]
      exact .clear x _ hheld
  | other hop =>
    refine hstay _ hheld ?_
    cases op with
    | presenceSet r u => exact absurd hop id
    | presenceClear r u => exact absurd hop id
    | _ => rfl

/-- Who holds what, and the table. -/
def Sys.roster (s : Sys) : Roster Nat (Int × List UInt8) Int where
  holds := fun y => (s.conns y).prog.holds
  rows := s.sh.db.seen

section Steps

variable {rooms : List ChatRoom} {s s' : Sys} {act : Act}

/-- Connecting, the clock and the shutdown code leave the roster as it is. -/
theorem step_roster_env (hact : ∀ x choice, act ≠ .run x choice) (h : s.step rooms act = some s') :
    s'.roster = s.roster := by
  have hholds : ∀ y, (s'.conns y).prog.holds = (s.conns y).prog.holds := by
    intro y
    cases Sys.step_conn h y with
    | other n down hact hconn hn => rw [hconn]
    | connect p hp hunused hprog =>
      rw [hprog, hunused]
      rcases hp with rfl | rfl <;> rfl
    | run choice p' op s1 hrun hprog happly hs' => exact absurd hrun (hact y choice)
  have hdb : s'.sh.db = s.sh.db := by
    rcases Sys.step_db h with hdb | ⟨x, choice, p', op, s1, hrun, -⟩
    · exact hdb
    · exact absurd hrun (hact x choice)
  unfold Sys.roster
  rw [hdb]
  congr 1
  funext y
  exact hholds y

theorem setProg_roster (s1 : Sys) (x : Nat) (p : Prog) :
    (s1.setProg x p).roster = { s1.roster with holds := Function.update s1.roster.holds x p.holds } := by
  unfold Sys.roster
  congr 1
  funext y
  rw [Sys.setProg, Sys.modify_conns, Function.update_apply]
  split <;> rfl

theorem apply_roster {x : Nat} {op : Op} {s1 : Sys} (h : s.apply x op = some s1) :
    s1.roster = { s.roster with rows := (op.onDb s.sh.db s.sh.now).seen } := by
  unfold Sys.roster
  rw [Sys.apply_db h]
  congr 1
  funext y
  rw [Sys.apply_prog h]

/-- **Every step of the server is a step of the roster.** -/
theorem step_roster (hok : ∀ y, (s.conns y).prog.Ok) (h : s.step rooms act = some s') :
    s.roster.Step s.sh.now s'.roster := by
  by_cases hrun : ∃ x choice, act = .run x choice
  · obtain ⟨x, choice, rfl⟩ := hrun
    obtain ⟨p', op, s1, hprog, happly, rfl⟩ := Sys.step_run h
    rw [setProg_roster, apply_roster happly]
    exact (progStep_holds (hok x) hprog).roster rfl rfl
  · rw [step_roster_env (fun x choice heq => hrun ⟨x, choice, heq⟩) h]
    exact .stay

/-- The step is no `chat_room_presence_clear` of a room and name that another
connection holds as well. -/
def Sys.ClearsOwn (s : Sys) (act : Act) : Prop :=
  ∀ x choice k, act = .run x choice → (s.conns x).prog.clears = true →
    (s.conns x).prog.holds = some k → ∀ y, y ≠ x → (s.conns y).prog.holds ≠ some k

theorem step_goesAlone (hok : ∀ y, (s.conns y).prog.Ok) (h : s.step rooms act = some s')
    (hclears : s.ClearsOwn act) : s.roster.GoesAlone s'.roster := by
  intro x k hx hx' y hyx
  have hx : (s.conns x).prog.holds = some k := hx
  have hx' : (s'.conns x).prog.holds = none := hx'
  cases Sys.step_conn h x with
  | other n down hact hconn hn =>
    rw [hconn] at hx'
    exact absurd (hx.symm.trans hx') nofun
  | connect p hp hunused hprog =>
    rw [hunused] at hx
    exact absurd hx nofun
  | run choice p' op s1 hact hprog happly hs' =>
    rw [hs', Sys.setProg_conn] at hx'
    have hclr := (progStep_holds (hok x) hprog).clears_of_end hx hx'
    exact hclears x choice k hact hclr hx y hyx

end Steps

/-! ## §5. Whole runs. -/

/-- The server on a database without presence rows. -/
def presenceSystem (rooms : List ChatRoom) : TransitionSystem Sys Act where
  init := fun s => ∃ db now, db.presence = [] ∧ s = sysStart db now
  step := Sys.step rooms

theorem presence_threads {rooms : List ChatRoom} {ok : Sys → Act → Sys → Prop} {s : Sys}
    (h : (presenceSystem rooms).ReachableVia ok s) : ∀ y, (s.conns y).prog.Ok := by
  refine TransitionSystem.ReachableVia.invariant (P := fun s => ∀ y, (s.conns y).prog.Ok) ?_ ?_ h
  · rintro s ⟨db, now, -, rfl⟩ y
    trivial
  · intro s act s' hok hstep _
    exact (Sys.step_bus hok hstep).1

/-- **No ghosts.**  However sessions and streams come, go and share names, every
row of the table belongs to a connection that visits its room under its name;
when every connection has ended the table is empty. -/
theorem no_ghost_presence {rooms : List ChatRoom} {s : Sys} (h : (presenceSystem rooms).Reachable s) :
    (∀ p ∈ s.sh.db.presence, ∃ x, (s.conns x).prog.holds = some (p.roomId, p.user))
      ∧ ((∀ x, (s.conns x).prog = .unused ∨ (s.conns x).prog = .closed) → s.sh.db.presence = []) := by
  have hghost : s.roster.NoGhost := by
    refine TransitionSystem.ReachableVia.strengthen (P := fun s => s.roster.NoGhost)
      (fun s hs => presence_threads hs) ?_ ?_ h
    · rintro s ⟨db, now, hempty, rfl⟩ k t hrow
      have hmem := ChatDb.mem_of_seen hrow
      rw [show (sysStart db now).sh.db.presence = [] from hempty] at hmem
      exact absurd hmem List.not_mem_nil
    · intro s act s' hok hno hstep _
      exact hno.step (step_roster hok hstep)
  have hrows : ∀ p ∈ s.sh.db.presence, ∃ x, (s.conns x).prog.holds = some (p.roomId, p.user) := by
    intro p hp
    obtain ⟨t, ht⟩ := ChatDb.seen_of_mem hp
    exact hghost _ t ht
  refine ⟨hrows, ?_⟩
  intro hended
  rw [List.eq_nil_iff_forall_not_mem]
  intro p hp
  obtain ⟨x, hx⟩ := hrows p hp
  rcases hended x with hprog | hprog
  · rw [hprog] at hx
    exact absurd hx nofun
  · rw [hprog] at hx
    exact absurd hx nofun

/-- A stream of room 1 that lists its user. -/
def visitActs (x : Nat) (query : List UInt8) : List Act :=
  [.connectHttp x x, .run x (.eventsRequest 1 query), .run x .go, .run x .go, .run x .go, .run x .go,
    .run x .go]

/-- The client of the stream goes away. -/
def hangupActs (x : Nat) : List Act := [.run x .hangup, .run x .go, .run x .go, .run x .go]

theorem exists_presence (rooms : List ChatRoom) (acts : List Act) (check : Sys → Bool)
    (h : ((presenceSystem rooms).run (sysStart emptyDb 0) acts).any check = true) :
    ∃ s, (presenceSystem rooms).Reachable s ∧ check s = true := by
  obtain ⟨s, hrun, hcheck⟩ := TransitionSystem.exists_of_run check h
  exact ⟨s, TransitionSystem.run_reachable _ _ _ (.init ⟨emptyDb, 0, rfl, rfl⟩) hrun, hcheck⟩

theorem no_ghost_presence_two :
    ∃ s, (presenceSystem [demoRoom]).Reachable s
      ∧ s.sh.db.presence.map PresenceRow.user = [ascii "a"]
      ∧ ∀ p ∈ s.sh.db.presence, ∃ x, (s.conns x).prog.holds = some (p.roomId, p.user) := by
  obtain ⟨s, hreach, hcheck⟩ := exists_presence [demoRoom]
    (enterActs 0 ++ visitActs 1 (ascii "user=bob") ++ hangupActs 1)
    (fun s => decide (s.sh.db.presence.map PresenceRow.user = [ascii "a"])) (by decide +kernel)
  exact ⟨s, hreach, of_decide_eq_true hcheck, (no_ghost_presence hreach).1⟩

/-- **Every visitor is listed**, in the runs in which nobody clears the presence
of a room and name that another connection holds as well. -/
theorem presence_complete {rooms : List ChatRoom} {s : Sys}
    (h : (presenceSystem rooms).ReachableVia (fun s act _ => s.ClearsOwn act) s) :
    ∀ x r u, (s.conns x).prog.holds = some (r, u) →
      ∃ p ∈ s.sh.db.presence, p.roomId = r ∧ p.user = u := by
  have hall : s.roster.Complete := by
    refine TransitionSystem.ReachableVia.strengthen (P := fun s => s.roster.Complete)
      (fun s hs => presence_threads hs) ?_ ?_ h
    · rintro s ⟨db, now, -, rfl⟩ x k hx
      exact absurd hx nofun
    · intro s act s' hok hall hstep hclears
      exact hall.step (step_roster hok hstep) (step_goesAlone hok hstep hclears)
  intro x r u hx
  obtain ⟨t, ht⟩ := hall x (r, u) hx
  exact ⟨_, ChatDb.mem_of_seen ht, rfl, rfl⟩

/-- The step is no clear of what another of the first `n` connections holds. -/
def Sys.clearsOwnBelow (n : Nat) (s : Sys) (act : Act) : Bool :=
  act.within n && match act with
    | .run x _ => !(s.conns x).prog.clears
        || (List.range n).all fun y => y = x || (s.conns y).prog.holds ≠ (s.conns x).prog.holds
    | _ => true

theorem Sys.Few.clearsOwn {n : Nat} {s : Sys} {act : Act} (hfew : s.Few n)
    (h : s.clearsOwnBelow n act = true) : s.ClearsOwn act := by
  rintro x choice k rfl hclr hx y hyx hy
  obtain ⟨-, h⟩ := Bool.and_eq_true_iff.mp h
  have h : (!(s.conns x).prog.clears || (List.range n).all fun y =>
      y = x || (s.conns y).prog.holds ≠ (s.conns x).prog.holds) = true := h
  rw [hclr] at h
  have hall := List.all_eq_true.mp h
  have hlt : y < n := by
    by_contra hge
    rw [hfew y (by omega)] at hy
    exact absurd hy nofun
  rcases Bool.or_eq_true_iff.mp (hall y (List.mem_range.mpr hlt)) with heq | hne
  · exact hyx (of_decide_eq_true heq)
  · exact of_decide_eq_true hne (hy.trans hx.symm)

theorem presence_complete_two :
    ∃ s, (presenceSystem [demoRoom]).ReachableVia (fun s act _ => s.ClearsOwn act) s
      ∧ (s.conns 0).prog.holds = some (1, ascii "a")
      ∧ ∃ p ∈ s.sh.db.presence, p.roomId = 1 ∧ p.user = ascii "a" := by
  have hstep : ∀ (u : Sys) (act : Act) (u' : Sys), u.Few 2 → u.clearsOwnBelow 2 act = true →
      (presenceSystem [demoRoom]).step u act = some u' → u'.Few 2 ∧ u.ClearsOwn act := by
    intro u act u' hfew htest hu
    obtain ⟨hwithin, -⟩ := Bool.and_eq_true_iff.mp htest
    exact ⟨hfew.step (fun x hx => Act.lt_of_within hwithin hx) hu, hfew.clearsOwn htest⟩
  let test : Sys → Act → Bool := fun s act => s.clearsOwnBelow 2 act
  let acts := enterActs 0 ++ visitActs 1 (ascii "user=bob") ++ hangupActs 1
  let check : Sys → Bool := fun s => decide ((s.conns 0).prog.holds = some (1, ascii "a"))
  have heval : (((presenceSystem [demoRoom]).guarded test).run (sysStart emptyDb 0) acts).any check
      = true := by
    decide +kernel
  obtain ⟨s, hrun, hcheck⟩ := TransitionSystem.exists_of_run check heval
  obtain ⟨hs, -⟩ := TransitionSystem.run_guarded hstep _ _ _ (.init ⟨emptyDb, 0, rfl, rfl⟩)
    (fun _ _ => rfl) hrun
  have hholds := of_decide_eq_true hcheck
  exact ⟨s, hs, hholds, presence_complete hs 0 1 (ascii "a") hholds⟩

/-- A telnet session and an event stream of one user: when the stream ends, the
session is still in the room and no longer listed. -/
theorem presence_lost :
    ∃ s, (presenceSystem [demoRoom]).Reachable s
      ∧ (s.conns 0).prog.holds = some (1, ascii "a") ∧ s.sh.db.presence = [] := by
  obtain ⟨s, hreach, hcheck⟩ := exists_presence [demoRoom]
    (enterActs 0 ++ visitActs 1 (ascii "user=a") ++ hangupActs 1)
    (fun s => decide ((s.conns 0).prog.holds = some (1, ascii "a") ∧ s.sh.db.presence = []))
    (by decide +kernel)
  exact ⟨s, hreach, of_decide_eq_true hcheck⟩

end NetServer.Chat
