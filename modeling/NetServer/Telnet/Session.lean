/-
  NetServer.Telnet.Session — the telnet session of
  `protocol/telnet/telnet_session.c`: FSM actions and table, the IAC
  callbacks, the main menu and the event loop.

  The engine is not re-entrant, so a transition that calls for another one is
  split: the action raises a flag, and `on_data` dispatches the follow-up
  event after the outer dispatch has returned, in a fixed order.

  Two things come from outside and are inputs of the model: what each game's
  `create` and `handle_key` return (`GameEnv`, indexed by the number of
  calls made so far, so that every combination of outcomes is covered), and
  what `poll` and `recv` deliver (`LoopInput`, one per loop iteration, with
  the moments at which another thread may raise `shutdown_requested`).

  The log records what the run does with game states and every arrival at a
  place the source treats as impossible: the assertion on the selection
  index, the NULL-game branch of `act_start_game` and the recovery branch of
  `act_game_key`.
-/
import NetServer.Core.Fsm
import NetServer.Lib.TransitionSystem
import NetServer.Telnet.Proto

namespace NetServer.Telnet

open NetServer.Core NetServer.Lib

/-! ## §1. Games and the main menu. -/

/-- The static vtables linked into the menu (`game_ops_t` instances). -/
inductive GameOps where
  | chess
  | backgammon
  | textAdventure
  | trivia
  | reversi
  | whosonline
  | profile
  | alias
  | chat
  | messageboard
  | help
  deriving Repr, DecidableEq

/-- One selectable entry (`menu_item_t`); `userData = none` is NULL. -/
structure MenuItem where
  key : UInt8
  label : String
  userData : Option GameOps
  deriving Repr, DecidableEq

/-- `menu_add`. -/
def menuAdd (items : List MenuItem) (key : Char) (label : String) (ops : Option GameOps) :
    List MenuItem :=
  items ++ [{ key := key.toUInt8, label := label, userData := ops }]

/-- `setup_main_menu`: games, features, quit. -/
def setupMainMenu : List MenuItem :=
  let m := menuAdd [] 'c' "Chess" (some .chess)
  let m := menuAdd m 'b' "Backgammon" (some .backgammon)
  let m := menuAdd m 'a' "Text Adventure" (some .textAdventure)
  let m := menuAdd m 't' "Trivia" (some .trivia)
  let m := menuAdd m 'r' "Reversi" (some .reversi)
  let m := menuAdd m 'w' "Who's Online" (some .whosonline)
  let m := menuAdd m 'p' "Profiel" (some .profile)
  let m := menuAdd m 'n' "Alias instellen" (some .alias)
  let m := menuAdd m 'g' "Chat rooms" (some .chat)
  let m := menuAdd m 'm' "Message board" (some .messageboard)
  let m := menuAdd m 'h' "Help" (some .help)
  menuAdd m 'q' "Uitloggen" none

/-- `menu_handle_key`: index of the first item with this key, or -1. -/
def menuHandleKey (items : List MenuItem) (key : UInt8) : Int :=
  match items.findIdx? (fun it => it.key = key) with
  | some i => i
  | none => -1

/-! ## §2. Session state. -/

/-- Session lifecycle states (`telnet_state_t`). -/
inductive TelnetState where
  | init
  | negotiating
  | mainMenu
  | inGame
  | closing
  | closed
  deriving Repr, DecidableEq

/-- Session events (`telnet_event_t`). -/
inductive TelnetEvent where
  | connected
  | negoDone
  | keyInput
  | menuSelect
  | gameOver
  | naws
  | disconnect
  | timeout
  deriving Repr, DecidableEq

/-- Event payload: NULL, `char *` or `int *`. -/
inductive EventData where
  | null
  | key (k : UInt8)
  | sel (i : Int)
  deriving Repr, DecidableEq

/-- What the run does with game states, and arrivals at places the source
takes for impossible. -/
inductive LogEntry where
  /-- `create` of `g` returned the non-NULL state `p`. -/
  | created (g : GameOps) (p : Nat)
  /-- `destroy` of `g` was called on `p`. -/
  | destroyed (g : GameOps) (p : Option Nat)
  /-- The assertion on the selection index failed. -/
  | selAssertFailed (sel : Int)
  /-- The NULL-game branch of `act_start_game` was taken. -/
  | nullGame
  /-- The NULL `active_game` guard of `act_game_key` was taken. -/
  | nullActiveGame
  deriving Repr, DecidableEq

/-- Per-connection state (`telnet_session_t`), without the socket, the send
buffer and the chat extensions. -/
structure Session where
  fsm : TelnetState
  iac : IacParser
  mainMenu : List MenuItem
  activeGame : Option GameOps
  gameState : Option Nat
  termCols : UInt16
  termRows : UInt16
  echoOk : Bool
  sgaOk : Bool
  nawsOk : Bool
  negoPending : UInt8
  pendingSelection : Int
  gameOverPending : Bool
  quitPending : Bool
  shutdownRequested : Bool
  /-- Game callbacks made so far. -/
  calls : Nat
  log : List LogEntry

/-- Outcomes of the game callbacks, by call number: `create` returns a state
or NULL, `handle_key` says whether the game goes on. -/
structure GameEnv where
  create : Nat → Option Nat
  handleKey : Nat → Bool

/-! ## §3. FSM actions. -/

/-- `act_send_negotiations`: three replies are awaited. -/
def actSendNegotiations (s : Session) (_ev : TelnetEvent) (_data : EventData) :
    Session × FsmActionResult :=
  ({ s with negoPending := 3 }, .ok)

/-- `act_show_main_menu`. -/
def actShowMainMenu (s : Session) (_ev : TelnetEvent) (_data : EventData) :
    Session × FsmActionResult :=
  ({ s with pendingSelection := -1, gameOverPending := false }, .ok)

/-- `act_handle_menu_key`: resolve a keystroke to a selection or quit. -/
def actHandleMenuKey (s : Session) (_ev : TelnetEvent) (data : EventData) :
    Session × FsmActionResult :=
  match data with
  | .key key =>
      if key = 'q'.toUInt8 ∨ key = 'Q'.toUInt8 ∨ key = 3 then
        ({ s with quitPending := true }, .ok)
      else
        let sel := menuHandleKey s.mainMenu key
        if sel ≥ 0 then ({ s with pendingSelection := sel }, .ok) else (s, .ok)
  | _ => (s, .ok)

/-- `act_start_game`: instantiate the selected game. -/
def actStartGame (env : GameEnv) (s : Session) (_ev : TelnetEvent) (data : EventData) :
    Session × FsmActionResult :=
  match data with
  | .sel sel =>
      if 0 ≤ sel ∧ sel < s.mainMenu.length then
        match (s.mainMenu[sel.toNat]?).bind MenuItem.userData with
        | none => ({ s with log := s.log ++ [.nullGame] }, .error)
        | some game =>
            match env.create s.calls with
            | none =>
                ({ s with activeGame := none, gameState := none, calls := s.calls + 1 },
                  .error)
            | some p =>
                ({ s with
                    activeGame := some game
                    gameState := some p
                    calls := s.calls + 1
                    log := s.log ++ [.created game p] }, .ok)
      else ({ s with log := s.log ++ [.selAssertFailed sel] }, .error)
  | _ => (s, .error)

/-- `act_game_key`: forward a keystroke to the active game. -/
def actGameKey (env : GameEnv) (s : Session) (_ev : TelnetEvent) (_data : EventData) :
    Session × FsmActionResult :=
  match s.activeGame with
  | none => ({ s with gameOverPending := true, log := s.log ++ [.nullActiveGame] }, .ok)
  | some g =>
      if env.handleKey s.calls then ({ s with calls := s.calls + 1 }, .ok)
      else
        ({ s with
            activeGame := none
            gameState := none
            gameOverPending := true
            calls := s.calls + 1
            log := s.log ++ [.destroyed g s.gameState] }, .ok)

/-- `act_close`: says goodbye and shuts the socket down; no session field
changes. -/
def actClose (s : Session) (_ev : TelnetEvent) (_data : EventData) :
    Session × FsmActionResult :=
  (s, .ok)

/-! ## §4. The transition table. -/

/-- `telnet_fsm_table`. -/
def telnetFsmTable (env : GameEnv) :
    List (FsmTransition TelnetState TelnetEvent Session EventData) :=
  [ ⟨.init, .connected, some actSendNegotiations, .negotiating, .closing⟩,
    ⟨.negotiating, .negoDone, some actShowMainMenu, .mainMenu, .closing⟩,
    ⟨.negotiating, .keyInput, some actShowMainMenu, .mainMenu, .closing⟩,
    ⟨.mainMenu, .keyInput, some actHandleMenuKey, .mainMenu, .closing⟩,
    ⟨.mainMenu, .menuSelect, some (actStartGame env), .inGame, .mainMenu⟩,
    ⟨.inGame, .keyInput, some (actGameKey env), .inGame, .closing⟩,
    ⟨.inGame, .gameOver, some actShowMainMenu, .mainMenu, .closing⟩,
    ⟨.init, .disconnect, some actClose, .closed, .closed⟩,
    ⟨.negotiating, .disconnect, some actClose, .closed, .closed⟩,
    ⟨.mainMenu, .disconnect, some actClose, .closed, .closed⟩,
    ⟨.inGame, .disconnect, some actClose, .closed, .closed⟩,
    ⟨.closing, .disconnect, some actClose, .closed, .closed⟩,
    ⟨.mainMenu, .timeout, some actClose, .closed, .closed⟩,
    ⟨.inGame, .timeout, some actClose, .closed, .closed⟩ ]

/-- `telnet_fsm_def`. -/
def telnetFsmDef (env : GameEnv) : FsmDef TelnetState TelnetEvent Session EventData :=
  { table := telnetFsmTable env, initialState := .init, terminalState := .closed }

/-- `fsm_dispatch (&s->fsm, ev, s, data)`. -/
def dispatch (env : GameEnv) (s : Session) (ev : TelnetEvent) (data : EventData) : Session :=
  let r := fsmDispatch (telnetFsmDef env) s.fsm ev s data
  { r.2.1 with fsm := r.1 }

/-- `fsm_is_terminal (&s->fsm)`. -/
def isTerminal (env : GameEnv) (s : Session) : Bool := fsmIsTerminal (telnetFsmDef env) s.fsm

/-! ## §5. IAC callbacks. -/

/-- `on_data`: consume the flag raised by `act_game_key`. -/
def consumeGameOver (env : GameEnv) (s : Session) : Session :=
  if s.gameOverPending ∧ ¬ isTerminal env s then
    dispatch env { s with gameOverPending := false } .gameOver .null
  else s

/-- `on_data`: consume the flag raised by `act_handle_menu_key` on quit. -/
def consumeQuit (env : GameEnv) (s : Session) : Session :=
  if s.quitPending ∧ ¬ isTerminal env s then
    dispatch env { s with quitPending := false } .disconnect .null
  else s

/-- `on_data`: consume a menu selection, once. -/
def consumeSelection (env : GameEnv) (s : Session) : Session :=
  if s.pendingSelection ≥ 0 ∧ ¬ isTerminal env s then
    dispatch env { s with pendingSelection := -1 } .menuSelect (.sel s.pendingSelection)
  else s

/-- One iteration of the loop in `on_data`. -/
def onDataByte (env : GameEnv) (s : Session) (key : UInt8) : Session :=
  if key = 0 then s
  else if isTerminal env s then s
  else
    let s := dispatch env s .keyInput (.key key)
    consumeSelection env (consumeQuit env (consumeGameOver env s))

/-- `on_data`. -/
def onData (env : GameEnv) (s : Session) (buf : List UInt8) : Session :=
  buf.foldl (onDataByte env) s

/-- `on_option`: record negotiated options, end the negotiation. -/
def onOption (env : GameEnv) (s : Session) (ev : IacOptionEvent) : Session :=
  let s := if ev.cmd = telnetWill ∧ ev.opt = teloptNaws then { s with nawsOk := true } else s
  let s := if ev.cmd = telnetDo ∧ ev.opt = teloptEcho then { s with echoOk := true } else s
  let s := if ev.cmd = telnetDo ∧ ev.opt = teloptSga then { s with sgaOk := true } else s
  let s := if ev.cmd = telnetDont ∧ ev.opt = teloptEcho then { s with echoOk := false } else s
  if s.negoPending > 0 then
    let s := { s with negoPending := s.negoPending - 1 }
    if s.negoPending = 0 ∧ ¬ isTerminal env s then dispatch env s .negoDone .null else s
  else s

/-- Two bytes of a NAWS payload, big-endian. -/
def nawsWord (hi lo : UInt8) : UInt16 := (hi.toUInt16 <<< 8) ||| lo.toUInt16

/-- `on_subneg`: parse the NAWS window size. -/
def onSubneg (env : GameEnv) (s : Session) (ev : IacSbEvent) : Session :=
  if ev.opt = teloptNaws ∧ ev.len ≥ 4 then
    let s := { s with
      termCols := nawsWord (ev.data.getD 0 0) (ev.data.getD 1 0)
      termRows := nawsWord (ev.data.getD 2 0) (ev.data.getD 3 0) }
    dispatch env s .naws .null
  else s

/-- The callback table `iac_cbs`. -/
def onIacEvent (env : GameEnv) (s : Session) : IacEvent → Session
  | .onData buf => onData env s buf
  | .onOption ev => onOption env s ev
  | .onSubneg ev => onSubneg env s ev

/-- `iac_parser_feed (&s->iac, recv_buf, n, s, &iac_cbs)`.  No callback reads
or writes `s->iac`, so running them after the parse is the same. -/
def feedSession (env : GameEnv) (s : Session) (raw : List UInt8) : Session :=
  let r := iacParserFeed s.iac raw
  r.2.foldl (onIacEvent env) { s with iac := r.1 }

/-! ## §6. The event loop. -/

def telnetIdleTimeout : Int := 300
def telnetNegoTimeout : Int := 3

/-- `telnet_create_session`: a fresh session (the self-pipe is not a field
of this layer). -/
def telnetCreateSession (env : GameEnv) : Session :=
  { fsm := fsmInit (telnetFsmDef env)
    iac := iacParserInit
    mainMenu := setupMainMenu
    activeGame := none
    gameState := none
    termCols := 80
    termRows := 24
    echoOk := false
    sgaOk := false
    nawsOk := false
    negoPending := 0
    pendingSelection := -1
    gameOverPending := false
    quitPending := false
    shutdownRequested := false
    calls := 0
    log := [] }

/-- Where a run of `telnet_run_session` stands. -/
inductive RunPhase where
  /-- At the head of the `while` loop. -/
  | head
  /-- The function has returned. -/
  | returned
  deriving Repr, DecidableEq

/-- The locals of `telnet_run_session`. -/
structure TelnetRun where
  session : Session
  negoDeadline : Int
  /-- The timeout of the last `poll` call. -/
  timeoutMs : Int
  phase : RunPhase

/-- What `recv` returns: `n ≤ 0`, or `n > 0` bytes. -/
inductive RecvOutcome where
  | gone
  | bytes (b : UInt8) (rest : List UInt8)

/-- What one `poll` call returns, with what is found afterwards. -/
inductive PollOutcome where
  /-- `EINTR`. -/
  | interrupted
  /-- Another error. -/
  | failed
  /-- No descriptor became ready in time. -/
  | timeout
  /-- Ready: was the notify pipe readable, did another thread raise
  `shutdown_requested` before the check after the drain, and what does
  `recv` give if the socket is readable. -/
  | ready (notify : Bool) (shutdownRaised : Bool) (sock : Option RecvOutcome)

/-- One input of the loop. -/
inductive LoopInput where
  /-- Another thread sets `shutdown_requested`. -/
  | requestShutdown
  /-- The next iteration, at clock reading `now`. -/
  | iterate (now : Int) (o : PollOutcome)

/-- The statements after the loop: destroy a running game, release, return.
The registry, the pipe and the socket are not fields of this layer. -/
def returnFrom (r : TelnetRun) : TelnetRun :=
  let s := r.session
  let s :=
    match s.activeGame, s.gameState with
    | some g, some p =>
        { s with gameState := none, activeGame := none,
                 log := s.log ++ [.destroyed g (some p)] }
    | _, _ => s
  { r with session := s, phase := .returned }

/-- `timeout_ms` of one iteration. -/
def pollTimeoutMs (s : Session) (negoDeadline now : Int) : Int :=
  let wait := negoDeadline - now
  if s.negoPending > 0 ∧ wait > 0 then wait * 1000 else telnetIdleTimeout * 1000

/-- The body of the loop after `poll` has returned. -/
def afterPoll (env : GameEnv) (r : TelnetRun) : PollOutcome → TelnetRun
  | .interrupted => r
  | .failed => returnFrom r
  | .timeout =>
      if r.session.negoPending > 0 then
        { r with
          session := dispatch env { r.session with negoPending := 0 } .negoDone .null
          negoDeadline := 0 }
      else { r with session := dispatch env r.session .timeout .null }
  | .ready notify shutdownRaised sock =>
      let r := { r with session :=
        { r.session with shutdownRequested := r.session.shutdownRequested || shutdownRaised } }
      if notify ∧ r.session.shutdownRequested then returnFrom r
      else
        -- `on_notify` only redraws: no field of this layer changes
        match sock with
        | none => r
        | some .gone =>
            returnFrom { r with session := dispatch env r.session .disconnect .null }
        | some (.bytes b rest) => { r with session := feedSession env r.session (b :: rest) }

/-- One step of a run of `telnet_run_session`. -/
def telnetRunStep (env : GameEnv) (r : TelnetRun) (i : LoopInput) : Option TelnetRun :=
  match r.phase with
  | .returned => none
  | .head =>
      match i with
      | .requestShutdown =>
          some { r with session := { r.session with shutdownRequested := true } }
      | .iterate now o =>
          if isTerminal env r.session ∨ r.session.shutdownRequested then some (returnFrom r)
          else
            some (afterPoll env
              { r with timeoutMs := pollTimeoutMs r.session r.negoDeadline now } o)

/-- The state at the first loop head: `TEV_CONNECTED` has been dispatched
and the deadline is set from the clock reading `now`. -/
def telnetRunStart (env : GameEnv) (now : Int) : TelnetRun :=
  { session := dispatch env (telnetCreateSession env) .connected .null
    negoDeadline := now + telnetNegoTimeout
    timeoutMs := 0
    phase := .head }

/-- All runs of `telnet_run_session` for one choice of game outcomes. -/
def telnetRunSession (env : GameEnv) : TransitionSystem TelnetRun LoopInput :=
  { init := fun r => ∃ now, r = telnetRunStart env now
    step := telnetRunStep env }

end NetServer.Telnet
