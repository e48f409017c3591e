/-
  NetServer.Chat.Terminal — a telnet session together with the chat it runs, one
  key after another.

  `on_data` gives each byte to the FSM of the session, and the FSM gives it to
  the active feature.  What a key makes of an open chat is taken from the thread
  (`Telnet.chatHandleKey`): the handler still has to run through queries and
  notifications, but name, state, room and texts at its end are decided
  (`Telnet.outcome`), and `key_outcome` says that every run of the thread gets
  there.  The other features end at any key.

  A client may send Enter as CR NUL or as CR LF.  NUL is dropped and LF is a key
  of its own, so the two are the same only where LF means nothing.

  Main results:
    • `key_outcome`         — a handler's end, among other threads;
    • `Terminal.onDataByte_eq` — one byte, feature and session, in one equation;
    • `enter_encodings_iff` — when the two encodings of Enter agree.
-/
import NetServer.Chat.Redraw
import NetServer.Telnet.Lifecycle

namespace NetServer.Chat

open NetServer.Lib
open NetServer.Lib.TransitionSystem

/-! ## §1. What a key makes of the chat. -/

/-- An open chat without its page. -/
structure ChatForm where
  st : ChatSt
  room : Option ChatRoom
  compose : List UInt8
  usernameBuf : List UInt8
  deriving Repr, DecidableEq

def ChatState.form (c : ChatState) : ChatForm :=
  { st := c.st, room := c.room, compose := c.compose, usernameBuf := c.usernameBuf }

/-- The name of a session and its open chat. -/
structure ChatView where
  username : List UInt8
  chat : Option ChatForm
  deriving Repr, DecidableEq

/-- What is left of a handler at a point does this to the view. -/
def TelnetPc.rest : TelnetPc → ChatView → ChatView
  | .post _, v | .postPresence, v =>
      { v with chat := v.chat.map fun f => { f with st := .inRoom, compose := [] } }
  | .leaveUnsubscribe quit, v | .leavePresence quit, v =>
      { v with
        chat := if quit then none else v.chat.map fun f => { f with st := .lobby, room := none } }
  | .lobby _ quit, v => { v with chat := if quit then none else v.chat }
  | .destroyUnsubscribe _, v | .destroyPresence _, v => { v with chat := none }
  | _, v => v

/-- The points of a key's handler. -/
def TelnetPc.handling : TelnetPc → Bool
  | .drain | .drained | .closing | .destroyUnsubscribe true | .destroyPresence true => false
  | _ => true

namespace Telnet

def view (t : Telnet) : ChatView := { username := t.username, chat := t.chat.map ChatState.form }

/-- The view when the running handler returns. -/
def outcome (t : Telnet) : ChatView := t.pc.rest t.view

/-- The message that the handler gives to `chat_room_post`. -/
def posts (t : Telnet) : List (Int × List UInt8 × List UInt8) :=
  match t.pc with
  | .post (.insert r user body) => [(r, user, body)]
  | _ => []

theorem view_of_chat {t : Telnet} {c : ChatState} (hc : t.chat = some c) :
    t.view = { username := t.username, chat := some c.form } := by
  unfold view
  rw [hc]
  rfl

/-- **The outcome of a handler stays what it is** from step to step. -/
theorem step_outcome {rooms : List ChatRoom} {sh : Shared} {bytes : Nat} {shutdown : Bool}
    {choice : Choice} {u u' : Telnet} {op : Op} (hpoll : u.pc ≠ .poll)
    (hpc : u.pc.handling = true) (heq : u.step rooms sh bytes shutdown choice = some (u', op)) :
    u'.pc.handling = true ∧ u'.outcome = u.outcome := by
  have houtcome : ∀ {pc}, u.pc = pc → u.outcome = pc.rest u.view := by
    intro pc h
    unfold outcome
    rw [h]
  cases step_stepped heq with
  | lobbyRoom i room rest quit h => exact ⟨rfl, (houtcome h).symm⟩
  | lobbyEnd quit h =>
    rw [houtcome h]
    cases quit <;> exact ⟨rfl, rfl⟩
  | enterPresence c room h hc hr => exact ⟨rfl, (houtcome h).symm⟩
  | enterSubscribe c room h hc hr => exact ⟨rfl, (houtcome h).symm⟩
  | page c room notified msgs h hc hr hmsgs =>
    rw [houtcome h, view_of_chat hc]
    exact ⟨rfl, rfl⟩
  | draw c room notified msgs h hc hr => exact ⟨rfl, (houtcome h).symm⟩
  | oldest c room h hc hr hmsgs => exact ⟨rfl, (houtcome h).symm⟩
  | older c room h hc hr hmsgs =>
    rw [houtcome h, view_of_chat hc]
    exact ⟨rfl, rfl⟩
  | post p p' op h hpost => exact ⟨rfl, (houtcome h).symm⟩
  | posted p op h hpost => exact ⟨rfl, (houtcome h).symm⟩
  | postPresence c room h hc hr =>
    rw [houtcome h, view_of_chat hc]
    exact ⟨rfl, rfl⟩
  | leave c room quit h hc hr => exact ⟨rfl, (houtcome h).symm⟩
  | leaveNone c quit h hc hr =>
    -- there was no room to leave
    rw [houtcome h, view_of_chat hc]
    refine ⟨rfl, ?_⟩
    unfold outcome view ChatState.form
    rw [hr]
    rfl
  | left c room quit h hc hr =>
    rw [houtcome h, view_of_chat hc]
    exact ⟨rfl, rfl⟩
  | destroy c room closing h hc hr =>
    rw [h] at hpc
    cases closing with
    | true => exact absurd hpc nofun
    | false => exact ⟨rfl, (houtcome h).symm⟩
  | destroyNone c closing h hc hr =>
    rw [h] at hpc
    cases closing with
    | true => exact absurd hpc nofun
    | false => exact ⟨rfl, (houtcome h).symm⟩
  | destroyed c room closing h hc hr =>
    rw [h] at hpc
    cases closing with
    | true => exact absurd hpc nofun
    | false => exact ⟨rfl, (houtcome h).symm⟩
  | key _ _ h | askName h | openLobby h | resize _ h | readable h => exact absurd h hpoll
  | close h | closeChat _ h =>
    rw [h.resolve_left hpoll] at hpc
    exact absurd hpc nofun
  | drain h | drainEnd h | redraw _ h | idle h =>
    rw [h] at hpc
    exact absurd hpc nofun

/-- A key starts a handler. -/
theorem keyStep_handling {rooms : List ChatRoom} {t t' : Telnet} {c : ChatState} {key : UInt8}
    (hpc : t.pc = .poll) (h : KeyStep rooms t c key t') : t'.pc.handling = true := by
  have hstay : t.pc.handling = true := by
    rw [hpc]
    rfl
  cases h with
  | ignored => exact hstay
  | editName buf payload hst hbuf => exact hstay
  | compose hst => exact hstay
  | editText text hst htext => exact hstay
  | _ => rfl

end Telnet

/-! ## §2. A key, without the thread. -/

namespace ChatForm

/-- A chat of this form; which page it shows does not matter to keys. -/
def state (f : ChatForm) : ChatState :=
  { room := f.room, st := f.st, compose := f.compose, usernameBuf := f.usernameBuf,
    oldestShown := 0, atLive := true }

/-- A session that waits with a chat of this form. -/
def waiting (username : List UInt8) (f : ChatForm) : Telnet :=
  { telnetStart with username := username, chat := some f.state }

/-- A key for a chat of this form, up to the first call the handler makes. -/
def key (rooms : List ChatRoom) (username : List UInt8) (f : ChatForm) (k : UInt8) : Telnet :=
  (f.waiting username).chatHandleKey rooms f.state k

/-- Keys see only the form. -/
theorem key_outcome_eq (rooms : List ChatRoom) {t : Telnet} {c : ChatState} (hpc : t.pc = .poll)
    (hc : t.chat = some c) (k : UInt8) :
    (t.chatHandleKey rooms c k).outcome = (c.form.key rooms t.username k).outcome
      ∧ (t.chatHandleKey rooms c k).posts = (c.form.key rooms t.username k).posts := by
  obtain ⟨username, termRows, onNotify, chat, pc, screens, out⟩ := t
  obtain ⟨room, st, compose, usernameBuf, oldest, live⟩ := c
  cases hpc
  cases hc
  unfold key Telnet.chatHandleKey
  dsimp only [ChatState.form, waiting, state]
  -- both sides now test the same texts
  cases st with
  | username =>
    dsimp only
    unfold Telnet.handleUsername
    dsimp only
    split_ifs <;> exact ⟨rfl, rfl⟩
  | lobby =>
    dsimp only
    unfold Telnet.handleLobby
    dsimp only
    split_ifs
    · exact ⟨rfl, rfl⟩
    · cases rooms[k.toNat - 49]? <;> exact ⟨rfl, rfl⟩
    · exact ⟨rfl, rfl⟩
  | inRoom =>
    dsimp only
    unfold Telnet.handleInRoom
    split_ifs <;> exact ⟨rfl, rfl⟩
  | compose =>
    dsimp only
    unfold Telnet.handleCompose
    dsimp only
    split_ifs
    · exact ⟨rfl, rfl⟩
    · exact ⟨rfl, rfl⟩
    · unfold Telnet.startPost
      dsimp only
      cases room with
      | none => exact ⟨rfl, rfl⟩
      | some room => cases cleanPost username compose <;> exact ⟨rfl, rfl⟩
    · exact ⟨rfl, rfl⟩
    · exact ⟨rfl, rfl⟩
    · exact ⟨rfl, rfl⟩

end ChatForm

/-- **Every key ends as foreseen.**  A key for a session with an open chat starts the
post that it starts for any chat of this form; and when the session waits again, after
any steps of other threads, its name and its chat are what the key makes of this form. -/
theorem key_outcome {rooms : List ChatRoom} {s s1 s' : Sys} (hs : (chatSystem rooms).Reachable s)
    {y : Nat} {t t' : Telnet} {c : ChatState} {key : UInt8} (hy : (s.conns y).prog = .telnet t)
    (hpc : t.pc = .poll) (hc : t.chat = some c) (hstep : s.step rooms (.run y (.key key)) = some s1)
    (hrun : ((chatSystem rooms).startingAt s1).ReachableVia (NoEvent y) s')
    (hy' : (s'.conns y).prog = .telnet t') (hpc' : t'.pc = .poll) :
    (∃ u, (s1.conns y).prog = .telnet u ∧ u.posts = (c.form.key rooms t.username key).posts)
      ∧ t'.view = (c.form.key rooms t.username key).outcome := by
  have hstep1 : (chatSystem rooms).step s (.run y (.key key)) = some s1 := hstep
  cases sessionStep hstep hy with
  | other hact => exact absurd rfl hact
  | closed hclosing => exact absurd (hpc.symm.trans hclosing) nofun
  | own u choice op s2 hact hown happly hs2 hprog' =>
    cases hact
    have hu : u = t.chatHandleKey rooms c key := by
      cases (Telnet.step_poll hpc hc hown).2 with
      | key k hk =>
        cases hk
        rfl
      | resize _ hk | readable hk => exact absurd hk nofun
      | close hk => rcases hk with hk | hk <;> exact absurd hk nofun
    have hhandling : u.pc.handling = true := by
      rw [hu]
      exact Telnet.keyStep_handling hpc (Telnet.chatHandleKey_step rooms key)
    have hend := follow_session (P := fun _ v => v.pc.handling = true ∧ v.outcome = u.outcome)
      (.step hs hstep1 trivial) hprog' ⟨hhandling, rfl⟩ (fun _ _ h => h)
      (fun _ hpoll heq h => by
        obtain ⟨hnext, hsame⟩ := Telnet.step_outcome hpoll h.1 heq
        exact ⟨hnext, hsame.trans h.2⟩) hrun hy'
    obtain ⟨houtcome, hposts⟩ := ChatForm.key_outcome_eq rooms hpc hc key
    refine ⟨⟨u, hprog', hu ▸ hposts⟩, ?_⟩
    rw [← houtcome, ← hu, ← hend.2]
    unfold Telnet.outcome
    rw [hpc']
    rfl

/-! ## §3. Session and chat. -/

/-- A telnet session and what its feature keeps.  `posted` are the messages given to
`chat_room_post`, `creates` counts the calls of `chat_create`. -/
structure Terminal where
  session : Telnet.Session
  view : ChatView
  posted : List (Int × List UInt8 × List UInt8)
  creates : Nat

namespace Terminal

section Bytes

variable (rooms : List ChatRoom) (alloc : Nat → Bool)

/-- What the callbacks return that this key may lead to.  Only `chat_create` can
fail, when its allocation does, and only the chat goes on after a key. -/
def games (T : Terminal) (key : UInt8) : Telnet.GameEnv where
  create := fun _ =>
    if Telnet.menuChoice T.session.mainMenu key = some .chat ∧ alloc T.creates = false then none
    else some 1
  handleKey := fun _ =>
    match T.session.activeGame, T.view.chat with
    | some .chat, some f => (f.key rooms T.view.username key).outcome.chat.isSome
    | _, _ => false

/-- `chat_create`. -/
def created (T : Terminal) : Terminal :=
  { T with
    view := ({ telnetStart with username := T.view.username }.chatCreate rooms).view
    creates := T.creates + 1 }

/-- `chat_handle_key` of a chat of form `f`, and `chat_destroy` when it returns false. -/
def chatKey (T : Terminal) (f : ChatForm) (key : UInt8) : Terminal :=
  { T with
    view := (f.key rooms T.view.username key).outcome
    posted := T.posted ++ (f.key rooms T.view.username key).posts }

/-- The chat's part of a key that has taken the session to `session`.  A key leads to
one callback at most; the chat has it when it was active, or has become active. -/
def follow (T : Terminal) (key : UInt8) (session : Telnet.Session) : Terminal :=
  if session.calls = T.session.calls then { T with session := session }
  else
    match T.session.activeGame, T.view.chat with
    | some .chat, some f => { T.chatKey rooms f key with session := session }
    | some _, _ => { T with session := session }
    | none, _ =>
        match session.activeGame with
        | some .chat => { T.created rooms with session := session }
        | some _ => { T with session := session }
        -- `chat_create` has returned NULL
        | none => { T with session := session, creates := T.creates + 1 }

/-- One iteration of the loop in `on_data`. -/
def onDataByte (T : Terminal) (key : UInt8) : Terminal :=
  T.follow rooms key (Telnet.onDataByte (T.games rooms alloc key) T.session key)

/-- `on_data`. -/
def onData (T : Terminal) (buf : List UInt8) : Terminal := buf.foldl (onDataByte rooms alloc) T

end Bytes

end Terminal

/-- What reaches a session. -/
inductive TerminalInput where
  | data (key : UInt8)
  | option (ev : Telnet.IacOptionEvent)
  | subneg (ev : Telnet.IacSbEvent)
  /-- `poll` gives nothing in time. -/
  | timeout

/-- A session that has just been accepted. -/
def terminalStart (rooms : List ChatRoom) (alloc : Nat → Bool) : Terminal :=
  let T : Terminal :=
    { session := Telnet.telnetCreateSession { create := fun _ => none, handleKey := fun _ => false }
      view := { username := [], chat := none }
      posted := []
      creates := 0 }
  { T with session := Telnet.dispatch (T.games rooms alloc 0) T.session .connected .null }

/-- All sessions, with any outcomes of the allocations. -/
def terminalSystem (rooms : List ChatRoom) (alloc : Nat → Bool) :
    TransitionSystem Terminal TerminalInput where
  init := fun T => T = terminalStart rooms alloc
  step := fun T input =>
    let env := T.games rooms alloc 0
    match input with
    | .data key => some (T.onDataByte rooms alloc key)
    | .option ev => some { T with session := Telnet.onOption env T.session ev }
    | .subneg ev => some { T with session := Telnet.onSubneg env T.session ev }
    | .timeout =>
        let run : Telnet.TelnetRun :=
          { session := T.session, negoDeadline := 0, timeoutMs := 0, phase := .head }
        some { T with session := (Telnet.afterPoll env run .timeout).session }

/-! ## §4. One byte in one equation. -/

namespace Terminal

/-- The chat is there while it is the active feature. -/
structure Inv (T : Terminal) : Prop where
  head : Telnet.HeadInv T.session
  chat : T.session.activeGame = some .chat → T.view.chat.isSome = true

section Bytes

variable (rooms : List ChatRoom) (alloc : Nat → Bool)

/-- A feature was selected from the menu. -/
def started (T : Terminal) : Telnet.GameOps → Terminal
  | .chat =>
      if alloc T.creates then { T.created rooms with session := T.session.started .chat (some 1) }
      else { T with session := T.session.started .chat none, creates := T.creates + 1 }
  | g => { T with session := T.session.started g (some 1) }

/-- The active feature gets a key. -/
def played (T : Terminal) (key : UInt8) : Telnet.GameOps → Terminal
  | .chat => T.view.chat.elim T fun f =>
      { T.chatKey rooms f key with
        session := T.session.played .chat
          (f.key rooms T.view.username key).outcome.chat.isSome }
  | g => { T with session := T.session.played g false }

/-- What a key does to a session at a loop head and to its chat. -/
def onKey (T : Terminal) (key : UInt8) : Terminal :=
  match T.session.fsm with
  | .negotiating => { T with session := { T.session with fsm := .mainMenu } }
  | .mainMenu =>
      if key = 'q'.toUInt8 ∨ key = 'Q'.toUInt8 ∨ key = 3 then
        { T with session := { T.session with fsm := .closed } }
      else (Telnet.menuChoice T.session.mainMenu key).elim T (T.started rooms alloc)
  | .inGame => T.session.activeGame.elim T (T.played rooms key)
  | _ => T

variable {T : Terminal} (key : UInt8)

theorem follow_quiet {session : Telnet.Session} (h : session.calls = T.session.calls) :
    T.follow rooms key session = { T with session := session } := by
  unfold follow
  rw [if_pos h]

theorem started_calls (s : Telnet.Session) (g : Telnet.GameOps) (created : Option Nat) :
    (s.started g created).calls ≠ s.calls := by
  cases created with
  | none => exact Nat.succ_ne_self _
  | some p => exact Nat.succ_ne_self _

theorem played_calls (s : Telnet.Session) (g : Telnet.GameOps) (running : Bool) :
    (s.played g running).calls ≠ s.calls := by
  cases running with
  | true => exact Nat.succ_ne_self _
  | false => exact Nat.succ_ne_self _

theorem started_other {g : Telnet.GameOps} (hg : g ≠ .chat) :
    T.started rooms alloc g = { T with session := T.session.started g (some 1) } := by
  cases g <;> first | rfl | exact absurd rfl hg

theorem played_other {g : Telnet.GameOps} (hg : g ≠ .chat) :
    T.played rooms key g = { T with session := T.session.played g false } := by
  cases g <;> first | rfl | exact absurd rfl hg

theorem follow_started {g : Telnet.GameOps} (hact : T.session.activeGame = none)
    (hchoice : Telnet.menuChoice T.session.mainMenu key = some g) :
    T.follow rooms key (T.session.started g ((T.games rooms alloc key).create T.session.calls))
      = T.started rooms alloc g := by
  unfold follow
  rw [if_neg (started_calls _ _ _), hact]
  dsimp only [games]
  rw [hchoice]
  by_cases hg : g = .chat
  · subst hg
    unfold started
    cases halloc : alloc T.creates with
    | true =>
      rw [if_neg (fun h => absurd h.2 nofun), if_pos rfl]
      rfl
    | false =>
      rw [if_pos ⟨rfl, rfl⟩, if_neg nofun,
        show (T.session.started .chat none).activeGame = none from hact]
  · rw [if_neg (fun h => hg (Option.some.inj h.1)), started_other rooms alloc hg]
    cases g <;> first | rfl | exact absurd rfl hg

theorem follow_played {g : Telnet.GameOps} (h : T.Inv) (hact : T.session.activeGame = some g) :
    T.follow rooms key (T.session.played g ((T.games rooms alloc key).handleKey T.session.calls))
      = T.played rooms key g := by
  unfold follow
  rw [if_neg (played_calls _ _ _), hact]
  dsimp only [games]
  rw [hact]
  by_cases hg : g = .chat
  · subst hg
    obtain ⟨f, hf⟩ := Option.isSome_iff_exists.mp (h.chat hact)
    unfold played
    rw [hf]
    rfl
  · rw [played_other rooms key hg]
    cases g <;> first | rfl | exact absurd rfl hg

/-- **One byte**, of session and chat together. -/
theorem onDataByte_eq (h : T.Inv) (hz : key ≠ 0) :
    T.onDataByte rooms alloc key = T.onKey rooms alloc key := by
  unfold onDataByte onKey
  rw [Telnet.onDataByte_eq _ h.head hz]
  unfold Telnet.Session.onKey
  have hgames := h.head.games
  unfold Telnet.GamesMatch at hgames
  cases hst : T.session.fsm with
  | negotiating => exact follow_quiet rooms key rfl
  | mainMenu =>
    rw [hst] at hgames
    obtain ⟨hact, -, -⟩ := hgames
    dsimp only
    by_cases hquit : key = 'q'.toUInt8 ∨ key = 'Q'.toUInt8 ∨ key = 3
    · rw [if_pos hquit, if_pos hquit]
      exact follow_quiet rooms key rfl
    rw [if_neg hquit, if_neg hquit]
    cases hchoice : Telnet.menuChoice T.session.mainMenu key with
    | none => exact follow_quiet rooms key rfl
    | some g => exact follow_started rooms alloc key hact hchoice
  | inGame =>
    rw [hst] at hgames
    obtain ⟨g, p, games, hact, -, -⟩ := hgames
    dsimp only
    rw [hact]
    exact follow_played rooms alloc key h hact
  | _ => exact follow_quiet rooms key rfl

/-! ## §5. Every session. -/

theorem session_follow (T : Terminal) (session : Telnet.Session) :
    (T.follow rooms key session).session = session := by
  unfold follow
  split
  · rfl
  split
  · rfl
  · rfl
  · split <;> rfl

/-- `chat_create` leaves an open chat. -/
theorem created_chat (T : Terminal) : (T.created rooms).view.chat.isSome = true := by
  show ((({ telnetStart with username := T.view.username } : Telnet).chatCreate rooms).view).chat.isSome
    = true
  unfold Telnet.chatCreate
  dsimp only
  split <;> rfl

theorem onKey_chat (h : T.Inv)
    (hact : (T.onKey rooms alloc key).session.activeGame = some .chat) :
    (T.onKey rooms alloc key).view.chat.isSome = true := by
  revert hact
  unfold onKey
  cases T.session.fsm with
  | mainMenu =>
    dsimp only
    split
    · exact h.chat
    cases Telnet.menuChoice T.session.mainMenu key with
    | none => exact h.chat
    | some g =>
      by_cases hg : g = .chat
      · subst hg
        show (T.started rooms alloc .chat).session.activeGame = _ →
          (T.started rooms alloc .chat).view.chat.isSome = _
        unfold started
        dsimp only
        split
        · exact fun _ => created_chat rooms T
        · exact h.chat
      · show (T.started rooms alloc g).session.activeGame = _ → _
        rw [started_other rooms alloc hg]
        exact fun hact => absurd (Option.some.inj hact) hg
  | inGame =>
    cases hgame : T.session.activeGame with
    | none =>
      intro hact
      exact absurd (hgame.symm.trans hact) nofun
    | some g =>
      by_cases hg : g = .chat
      · subst hg
        obtain ⟨f, hf⟩ := Option.isSome_iff_exists.mp (h.chat hgame)
        show (T.played rooms key .chat).session.activeGame = _ →
          (T.played rooms key .chat).view.chat.isSome = _
        unfold played
        rw [hf]
        show (T.session.played .chat (f.key rooms T.view.username key).outcome.chat.isSome).activeGame
          = _ → (f.key rooms T.view.username key).outcome.chat.isSome = true
        cases (f.key rooms T.view.username key).outcome.chat.isSome with
        | true => exact fun _ => rfl
        | false => exact nofun
      · show (T.played rooms key g).session.activeGame = _ → _
        rw [played_other rooms key hg]
        exact nofun
  | _ => exact h.chat

/-- `on_data` skips a NUL. -/
theorem onDataByte_nul (T : Terminal) : T.onDataByte rooms alloc 0 = T := by
  unfold onDataByte Telnet.onDataByte
  rw [if_pos rfl]
  exact follow_quiet rooms 0 rfl

theorem onDataByte_inv (h : T.Inv) : (T.onDataByte rooms alloc key).Inv := by
  by_cases hz : key = 0
  · rw [hz, onDataByte_nul]
    exact h
  · refine ⟨?_, ?_⟩
    · show Telnet.HeadInv (T.follow rooms key _).session
      rw [session_follow]
      exact Telnet.onDataByte_inv _ _ key h.head
    · rw [onDataByte_eq rooms alloc key h hz]
      exact onKey_chat rooms alloc key h

end Bytes

end Terminal

section Games

variable (env : Telnet.GameEnv) (s : Telnet.Session)

theorem negoDone_activeGame :
    (Telnet.dispatch env s .negoDone .null).activeGame = s.activeGame := by
  by_cases hst : s.fsm = .negotiating
  · rw [Telnet.dispatch_showMenu _ (Or.inl ⟨hst, Or.inl rfl⟩)]
  · rw [Telnet.dispatch_ignored (by cases hs : s.fsm <;> first | rfl | exact absurd hs hst)]

theorem timeout_activeGame :
    (Telnet.dispatch env s .timeout .null).activeGame = s.activeGame := by
  by_cases hst : s.fsm = .mainMenu ∨ s.fsm = .inGame
  · rw [Telnet.dispatch_close _ (Or.inr ⟨rfl, hst⟩)]
  · rw [Telnet.dispatch_ignored (by cases hs : s.fsm <;> first | rfl | exact absurd hs (by tauto))]

theorem onOption_activeGame (ev : Telnet.IacOptionEvent) :
    (Telnet.onOption env s ev).activeGame = s.activeGame := by
  unfold Telnet.onOption
  extract_lets s1 s2 s3 s4 s5
  have h4 : s4.activeGame = s.activeGame := by
    unfold s4 s3 s2 s1
    split_ifs <;> rfl
  split
  · split
    · rw [negoDone_activeGame]
      exact h4
    · exact h4
  · exact h4

theorem onSubneg_activeGame (ev : Telnet.IacSbEvent) :
    (Telnet.onSubneg env s ev).activeGame = s.activeGame := by
  unfold Telnet.onSubneg
  split
  · rw [Telnet.dispatch_naws]
  · rfl

end Games

theorem terminal_reachable_inv {rooms : List ChatRoom} {alloc : Nat → Bool} {T : Terminal}
    (h : (terminalSystem rooms alloc).Reachable T) : T.Inv := by
  refine ReachableVia.invariant (P := Terminal.Inv) ?_ ?_ h
  · rintro T rfl
    exact ⟨Telnet.telnetRunStart_inv _ 0, nofun⟩
  · intro T input T' hT hstep _
    cases input with
    | data key =>
      cases hstep
      exact Terminal.onDataByte_inv rooms alloc key hT
    | option ev =>
      cases hstep
      refine ⟨Telnet.onOption_inv _ _ ev hT.head, ?_⟩
      dsimp only
      rw [onOption_activeGame]
      exact hT.chat
    | subneg ev =>
      cases hstep
      refine ⟨Telnet.onSubneg_inv _ _ ev hT.head, ?_⟩
      dsimp only
      rw [onSubneg_activeGame]
      exact hT.chat
    | timeout =>
      cases hstep
      unfold Telnet.afterPoll
      dsimp only
      split
      · refine ⟨Telnet.negoDone_inv _ _
          (Telnet.headInv_of_eq hT.head rfl rfl rfl rfl rfl rfl rfl rfl), ?_⟩
        dsimp only
        rw [negoDone_activeGame]
        exact hT.chat
      · refine ⟨Telnet.timeout_inv _ _ hT.head, ?_⟩
        dsimp only
        rw [timeout_activeGame]
        exact hT.chat

/-! ## §6. The two encodings of Enter. -/

namespace ChatForm

variable (rooms : List ChatRoom) (username : List UInt8) {f : ChatForm}

/-- Line feed means nothing to a chat of this form. -/
def IgnoresLf (f : ChatForm) : Prop :=
  f.st = .lobby ∨ f.st = .inRoom ∨ f.st = .username ∧ f.usernameBuf = []

theorem waiting_outcome (f : ChatForm) :
    (f.waiting username).outcome = { username := username, chat := some f } := rfl

theorem waiting_posts (f : ChatForm) : (f.waiting username).posts = [] := rfl

theorem key_lf (h : f.IgnoresLf) : f.key rooms username 10 = f.waiting username := by
  unfold key Telnet.chatHandleKey
  rcases h with hst | hst | ⟨hst, hbuf⟩
  · rw [show f.state.st = .lobby from hst]
    show (f.waiting username).handleLobby rooms f.state 10 = _
    unfold Telnet.handleLobby
    rw [if_neg (by decide), if_neg (fun h => absurd h.1 (by decide))]
  · rw [show f.state.st = .inRoom from hst]
    rfl
  · rw [show f.state.st = .username from hst]
    show (f.waiting username).handleUsername rooms f.state 10 = _
    unfold Telnet.handleUsername
    rw [if_pos (by decide), if_pos (show f.state.usernameBuf = [] from hbuf)]

/-- Carriage return, outside a room, leaves a chat to which line feed means nothing. -/
theorem key_cr (hst : f.st ≠ .inRoom) :
    ∃ name f', (f.key rooms username 13).outcome = { username := name, chat := some f' }
      ∧ f'.IgnoresLf := by
  unfold key Telnet.chatHandleKey
  cases h : f.st with
  | inRoom => exact absurd h hst
  | username =>
    rw [show f.state.st = .username from h]
    show ∃ name f', ((f.waiting username).handleUsername rooms f.state 13).outcome = _ ∧ _
    unfold Telnet.handleUsername
    rw [if_pos (by decide)]
    split
    · rename_i hbuf
      exact ⟨username, f, rfl, Or.inr (Or.inr ⟨h, hbuf⟩)⟩
    · exact ⟨_, _, rfl, Or.inl rfl⟩
  | lobby =>
    rw [show f.state.st = .lobby from h]
    show ∃ name f', ((f.waiting username).handleLobby rooms f.state 13).outcome = _ ∧ _
    unfold Telnet.handleLobby
    rw [if_neg (by decide), if_neg (fun h => absurd h.1 (by decide))]
    exact ⟨username, f, rfl, Or.inl h⟩
  | compose =>
    rw [show f.state.st = .compose from h]
    show ∃ name f', ((f.waiting username).handleCompose f.state 13).outcome = _ ∧ _
    unfold Telnet.handleCompose
    rw [if_neg (by decide), if_pos (by decide)]
    split
    · exact ⟨_, _, rfl, Or.inr (Or.inl rfl)⟩
    · unfold Telnet.startPost
      split
      · exact ⟨_, _, rfl, Or.inr (Or.inl rfl)⟩
      · exact ⟨_, _, rfl, Or.inr (Or.inl rfl)⟩

/-- In a room, carriage return opens the compose line and line feed closes it again. -/
theorem key_cr_inRoom (hst : f.st = .inRoom) :
    (f.key rooms username 13).outcome
      = { username := username, chat := some { f with st := .compose, compose := [] } } := by
  unfold key Telnet.chatHandleKey
  rw [show f.state.st = .inRoom from hst]
  rfl

theorem key_lf_compose (hst : f.st = .compose) (htext : f.compose = []) :
    (f.key rooms username 10).outcome
      = { username := username, chat := some { f with st := .inRoom, compose := [] } } := by
  unfold key Telnet.chatHandleKey
  rw [show f.state.st = .compose from hst]
  show ((f.waiting username).handleCompose f.state 10).outcome = _
  unfold Telnet.handleCompose
  rw [if_neg (by decide), if_pos (by decide), if_pos (show f.state.compose = [] from htext)]
  rfl

end ChatForm

namespace Terminal

/-- What the source has of a terminal: `calls` is a count of the model. -/
def seen (T : Terminal) : Terminal := { T with session := { T.session with calls := 0 } }

/-- The chat is active and shows a room. -/
def InRoom (T : Terminal) : Prop :=
  T.session.fsm = .inGame ∧ T.session.activeGame = some .chat
    ∧ T.view.chat.map ChatForm.st = some .inRoom

section Enter

variable (rooms : List ChatRoom) (alloc : Nat → Bool) {T : Terminal}

/-- The count of callbacks decides nothing. -/
theorem onKey_seen (T : Terminal) (key : UInt8) :
    (T.seen.onKey rooms alloc key).seen = (T.onKey rooms alloc key).seen := by
  have hstarted : ∀ g, (T.seen.started rooms alloc g).seen = (T.started rooms alloc g).seen := by
    intro g
    by_cases hg : g = .chat
    · subst hg
      unfold started
      rw [show alloc T.seen.creates = alloc T.creates from rfl]
      cases alloc T.creates with
      | true => rfl
      | false => rfl
    · rw [started_other rooms alloc hg, started_other rooms alloc hg]
      rfl
  have hplayed : ∀ g, (T.seen.played rooms key g).seen = (T.played rooms key g).seen := by
    intro g
    by_cases hg : g = .chat
    · subst hg
      unfold played
      rw [show T.seen.view = T.view from rfl]
      cases T.view.chat with
      | none => rfl
      | some f =>
        dsimp only [Option.elim_some]
        cases (f.key rooms T.view.username key).outcome.chat.isSome with
        | true => rfl
        | false => rfl
    · rw [played_other rooms key hg, played_other rooms key hg]
      rfl
  unfold onKey
  rw [show T.seen.session.fsm = T.session.fsm from rfl]
  cases T.session.fsm with
  | mainMenu =>
    dsimp only
    split
    · rfl
    · rw [show T.seen.session.mainMenu = T.session.mainMenu from rfl]
      cases Telnet.menuChoice T.session.mainMenu key with
      | none => rfl
      | some g => exact hstarted g
  | inGame =>
    rw [show T.seen.session.activeGame = T.session.activeGame from rfl]
    cases T.session.activeGame with
    | none => rfl
    | some g => exact hplayed g
  | _ => rfl

theorem onKey_congr {T' : Terminal} (h : T.seen = T'.seen) (key : UInt8) :
    (T.onKey rooms alloc key).seen = (T'.onKey rooms alloc key).seen := by
  rw [← onKey_seen rooms alloc T, h, onKey_seen]

/-- A key for the chat that does not end it. -/
theorem onKey_goesOn {f f' : ChatForm} {name : List UInt8} {key : UInt8}
    (hst : T.session.fsm = .inGame) (hact : T.session.activeGame = some .chat)
    (hf : T.view.chat = some f)
    (hout : (f.key rooms T.view.username key).outcome = { username := name, chat := some f' }) :
    T.onKey rooms alloc key
      = { T.chatKey rooms f key with
          session := { T.session with calls := T.session.calls + 1 } } := by
  unfold onKey
  rw [hst, hact]
  show T.played rooms key .chat = _
  unfold played
  rw [hf]
  dsimp only [Option.elim_some]
  rw [hout]
  rfl

/-- A chat to which line feed means nothing is the same after it. -/
theorem onKey_lf_chat {f : ChatForm} (hst : T.session.fsm = .inGame)
    (hact : T.session.activeGame = some .chat) (hf : T.view.chat = some f) (hlf : f.IgnoresLf) :
    (T.onKey rooms alloc 10).seen = T.seen := by
  have hkey := f.key_lf rooms T.view.username hlf
  have hout : (f.key rooms T.view.username 10).outcome
      = { username := T.view.username, chat := some f } := by
    rw [hkey]
    rfl
  rw [onKey_goesOn rooms alloc hst hact hf hout]
  unfold chatKey seen
  rw [hkey, ChatForm.waiting_outcome, ChatForm.waiting_posts, List.append_nil, ← hf]

/-- The menu has nothing under line feed. -/
theorem onKey_lf_menu (h : T.Inv) (hst : T.session.fsm = .mainMenu) :
    T.onKey rooms alloc 10 = T := by
  unfold onKey
  rw [hst]
  dsimp only
  rw [if_neg (by decide), h.head.menu,
    show Telnet.menuChoice Telnet.setupMainMenu 10 = none by decide +kernel]
  rfl

theorem onKey_inv (h : T.Inv) {key : UInt8} (hz : key ≠ 0) : (T.onKey rooms alloc key).Inv := by
  rw [← onDataByte_eq rooms alloc key h hz]
  exact onDataByte_inv rooms alloc key h

/-- **Outside a room, line feed after carriage return changes nothing.** -/
theorem enter_elsewhere (h : T.Inv) (hroom : ¬ T.InRoom) :
    ((T.onKey rooms alloc 13).onKey rooms alloc 10).seen = (T.onKey rooms alloc 13).seen := by
  -- most often carriage return leads to the menu, or finds it
  have hmenu : (T.onKey rooms alloc 13).session.fsm = .mainMenu →
      ((T.onKey rooms alloc 13).onKey rooms alloc 10).seen = (T.onKey rooms alloc 13).seen := by
    intro hst
    rw [onKey_lf_menu rooms alloc (onKey_inv rooms alloc h (by decide)) hst]
  cases hst : T.session.fsm with
  | negotiating =>
    apply hmenu
    unfold onKey
    rw [hst]
  | mainMenu =>
    apply hmenu
    unfold onKey
    rw [hst]
    dsimp only
    rw [if_neg (by decide), h.head.menu,
      show Telnet.menuChoice Telnet.setupMainMenu 13 = none by decide +kernel]
    exact hst
  | inGame =>
    have hgames := h.head.games
    unfold Telnet.GamesMatch at hgames
    rw [hst] at hgames
    obtain ⟨g, p, games, hact, -, -⟩ := hgames
    by_cases hg : g = .chat
    · subst hg
      obtain ⟨f, hf⟩ := Option.isSome_iff_exists.mp (h.chat hact)
      have hin : f.st ≠ .inRoom := by
        intro hin
        refine hroom ⟨hst, hact, ?_⟩
        rw [hf]
        exact congrArg some hin
      obtain ⟨name, f', hout, hlf⟩ := f.key_cr rooms T.view.username hin
      rw [onKey_goesOn rooms alloc hst hact hf hout]
      exact onKey_lf_chat rooms alloc hst hact (congrArg ChatView.chat hout) hlf
    · apply hmenu
      unfold onKey
      rw [hst, hact]
      show (T.played rooms 13 g).session.fsm = _
      rw [played_other rooms 13 hg]
      rfl
  | _ =>
    unfold onKey
    rw [hst]
    dsimp only
    rw [hst]

/-- **In a room, line feed after carriage return** closes what carriage return opened. -/
theorem enter_room (h : T.InRoom) :
    (T.onKey rooms alloc 13).view.chat.map ChatForm.st = some .compose
      ∧ ((T.onKey rooms alloc 13).onKey rooms alloc 10).view.chat.map ChatForm.st
        = some .inRoom := by
  obtain ⟨hst, hact, hin⟩ := h
  obtain ⟨f, hf, hin⟩ := Option.map_eq_some_iff.mp hin
  have hcr := f.key_cr_inRoom rooms T.view.username hin
  have hopen := onKey_goesOn rooms alloc hst hact hf hcr
  have hview : (T.onKey rooms alloc 13).view = _ :=
    (congrArg Terminal.view hopen).trans hcr
  have hlf := ChatForm.key_lf_compose rooms (T.onKey rooms alloc 13).view.username
    (f := { f with st := .compose, compose := [] }) rfl rfl
  have hclose : ((T.onKey rooms alloc 13).onKey rooms alloc 10).view = _ :=
    (congrArg Terminal.view (onKey_goesOn rooms alloc (by rw [hopen]; exact hst)
      (by rw [hopen]; exact hact) (congrArg ChatView.chat hview) hlf)).trans hlf
  rw [hclose, hview]
  exact ⟨rfl, rfl⟩

end Enter

end Terminal

/-- A key of the user. -/
inductive Keystroke where
  | enter
  | key (b : UInt8) (hb : b ∉ [0, 13, 10])

/-- What a client sends for a key, with `second` after the carriage return of Enter. -/
def Keystroke.encode (second : UInt8) : Keystroke → List UInt8
  | .enter => [13, second]
  | .key b _ => [b]

/-- A session after some typing. -/
def Terminal.typed (rooms : List ChatRoom) (alloc : Nat → Bool) (second : UInt8) (T : Terminal)
    (ks : List Keystroke) : Terminal :=
  T.onData rooms alloc (ks.flatMap (Keystroke.encode second))

section Typing

variable (rooms : List ChatRoom) (alloc : Nat → Bool) {T : Terminal}

theorem typed_concat (second : UInt8) (T : Terminal) (ks : List Keystroke) (k : Keystroke) :
    T.typed rooms alloc second (ks ++ [k])
      = (T.typed rooms alloc second ks).onData rooms alloc (k.encode second) := by
  unfold Terminal.typed Terminal.onData
  rw [List.flatMap_append, List.flatMap_singleton, List.foldl_append]

theorem onData_inv (h : T.Inv) (buf : List UInt8) : (T.onData rooms alloc buf).Inv := by
  unfold Terminal.onData
  induction buf generalizing T with
  | nil => exact h
  | cons b buf ih => exact ih (Terminal.onDataByte_inv rooms alloc b h)

/-- `on_data` drops the NUL after a carriage return. -/
theorem onData_crNul (h : T.Inv) :
    T.onData rooms alloc [13, 0] = T.onKey rooms alloc 13 := by
  show (T.onDataByte rooms alloc 13).onDataByte rooms alloc 0 = _
  rw [Terminal.onDataByte_nul, Terminal.onDataByte_eq rooms alloc 13 h (by decide)]

/-- It does not drop a line feed. -/
theorem onData_crLf (h : T.Inv) :
    T.onData rooms alloc [13, 10] = (T.onKey rooms alloc 13).onKey rooms alloc 10 := by
  have h13 : (T.onKey rooms alloc 13).Inv := Terminal.onKey_inv rooms alloc h (by decide)
  show (T.onDataByte rooms alloc 13).onDataByte rooms alloc 10 = _
  rw [Terminal.onDataByte_eq rooms alloc 13 h (by decide),
    Terminal.onDataByte_eq rooms alloc 10 h13 (by decide)]

theorem inRoom_congr {T' : Terminal} (h : T.seen = T'.seen) : T.InRoom ↔ T'.InRoom := by
  show T.seen.InRoom ↔ T'.seen.InRoom
  rw [h]

/-- **One keystroke**, from two states that look the same. -/
theorem keystroke_iff {T' : Terminal} (h : T.Inv) (h' : T'.Inv) (hsame : T.seen = T'.seen)
    (k : Keystroke) :
    (T.onData rooms alloc (k.encode 0)).seen = (T'.onData rooms alloc (k.encode 10)).seen
      ↔ ¬ (k = .enter ∧ T.InRoom) := by
  cases k with
  | key b hb =>
    have hz : b ≠ 0 := fun hb0 => hb (hb0 ▸ List.mem_cons_self)
    show (T.onDataByte rooms alloc b).seen = (T'.onDataByte rooms alloc b).seen ↔ _
    rw [Terminal.onDataByte_eq rooms alloc b h hz, Terminal.onDataByte_eq rooms alloc b h' hz]
    exact iff_of_true (Terminal.onKey_congr rooms alloc hsame b) (fun hk => absurd hk.1 nofun)
  | enter =>
    show (T.onData rooms alloc [13, 0]).seen = (T'.onData rooms alloc [13, 10]).seen ↔ _
    rw [onData_crNul rooms alloc h, onData_crLf rooms alloc h']
    have hcr := Terminal.onKey_congr rooms alloc hsame 13
    rw [hcr]
    by_cases hroom : T.InRoom
    · -- one is composing, the other is not
      refine iff_of_false (fun heq => ?_) (fun hk => hk ⟨rfl, hroom⟩)
      obtain ⟨hcompose, hback⟩ := Terminal.enter_room rooms alloc ((inRoom_congr hsame).mp hroom)
      have hst := congrArg (fun U : Terminal => U.view.chat.map ChatForm.st) heq
      exact absurd (hcompose.symm.trans (hst.trans hback)) nofun
    · refine iff_of_true ?_ (fun hk => hroom hk.2)
      exact (Terminal.enter_elsewhere rooms alloc h' ((inRoom_congr hsame).not.mp hroom)).symm

end Typing

/-- **The two encodings of Enter.**  From any reachable state, typing with CR NUL and
typing with CR LF show the same session, the same chat and the same messages posted,
key after key, exactly when no Enter is typed while the chat shows a room. -/
theorem enter_encodings_iff {rooms : List ChatRoom} {alloc : Nat → Bool} {T : Terminal}
    (h : (terminalSystem rooms alloc).Reachable T) (ks : List Keystroke) :
    (∀ typed, typed <+: ks →
        (T.typed rooms alloc 0 typed).seen = (T.typed rooms alloc 10 typed).seen)
      ↔ ∀ typed, typed ++ [.enter] <+: ks → ¬ (T.typed rooms alloc 0 typed).InRoom := by
  have hinv := terminal_reachable_inv h
  constructor
  · intro hsame typed hpre hroom
    have hnext := hsame _ hpre
    rw [typed_concat, typed_concat] at hnext
    have hbefore := hsame typed ((List.prefix_append _ _).trans hpre)
    exact (keystroke_iff rooms alloc (onData_inv rooms alloc hinv _) (onData_inv rooms alloc hinv _)
      hbefore .enter).mp hnext ⟨rfl, hroom⟩
  · intro hroom typed
    -- the two stay the same from key to key
    induction typed using List.reverseRecOn with
    | nil => exact fun _ => rfl
    | append_singleton typed k ih =>
      intro hpre
      have hbefore := ih ((List.prefix_append _ _).trans hpre)
      rw [typed_concat, typed_concat]
      refine (keystroke_iff rooms alloc (onData_inv rooms alloc hinv _)
        (onData_inv rooms alloc hinv _) hbefore k).mpr ?_
      rintro ⟨rfl, hin⟩
      exact hroom typed hpre hin

theorem reachable_onData {rooms : List ChatRoom} {alloc : Nat → Bool} {T : Terminal}
    (h : (terminalSystem rooms alloc).Reachable T) (buf : List UInt8) :
    (terminalSystem rooms alloc).Reachable (T.onData rooms alloc buf) := by
  induction buf generalizing T with
  | nil => exact h
  | cons b buf ih =>
    have hstep : (terminalSystem rooms alloc).step T (.data b) = some (T.onDataByte rooms alloc b) :=
      rfl
    exact ih (.step h hstep trivial)

/-- A session of a server with one room, after some bytes. -/
def demoTerminal (buf : List UInt8) : Terminal :=
  (terminalStart [demoRoom] fun _ => true).onData [demoRoom] (fun _ => true) buf

theorem demoTerminal_reachable (buf : List UInt8) :
    (terminalSystem [demoRoom] fun _ => true).Reachable (demoTerminal buf) :=
  reachable_onData (.init rfl) buf

/-- The name "a" and Enter, at the prompt of the chat. -/
theorem enter_encodings_name :
    ((demoTerminal [13, 103]).typed [demoRoom] (fun _ => true) 0
        [.key 97 (by decide), .enter]).seen
      = ((demoTerminal [13, 103]).typed [demoRoom] (fun _ => true) 10
        [.key 97 (by decide), .enter]).seen
    ∧ ((demoTerminal [13, 103]).typed [demoRoom] (fun _ => true) 0
        [.key 97 (by decide), .enter]).view.username = [97] := by
  refine ⟨(enter_encodings_iff (demoTerminal_reachable [13, 103]) _).mpr ?_ _ List.prefix_rfl,
    by decide +kernel⟩
  intro typed hpre hroom
  cases typed with
  | nil => exact absurd (List.cons_prefix_cons.mp hpre).1 nofun
  | cons k typed =>
    obtain ⟨rfl, hpre⟩ := List.cons_prefix_cons.mp hpre
    have hlen := hpre.length_le
    rw [List.length_append] at hlen
    rw [List.eq_nil_of_length_eq_zero (l := typed) (by simpa using hlen)] at hroom
    exact absurd hroom.2.2 (by decide +kernel)

/-- **Enter in a room.**  The user "a" presses Enter, types "hi" and presses Enter.
With CR NUL the message is posted; with CR LF the first Enter opens the compose
line and closes it, and nothing is posted. -/
theorem enter_encodings_differ :
    ∃ T ks, (terminalSystem [demoRoom] fun _ => true).Reachable T
      ∧ (T.typed [demoRoom] (fun _ => true) 0 ks).posted = [(1, [97], [104, 105])]
      ∧ (T.typed [demoRoom] (fun _ => true) 10 ks).posted = []
      ∧ (T.typed [demoRoom] (fun _ => true) 0 [.enter]).view.chat.map ChatForm.st = some .compose
      ∧ (T.typed [demoRoom] (fun _ => true) 10 [.enter]).view.chat.map ChatForm.st
        = some .inRoom := by
  refine ⟨demoTerminal [13, 103, 97, 13, 49],
    [.enter, .key 104 (by decide), .key 105 (by decide), .enter], demoTerminal_reachable _, ?_⟩
  decide +kernel

end NetServer.Chat
