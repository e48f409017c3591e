/-
  NetServer.Telnet.Lifecycle — the lifecycle invariant of a telnet session.

  Many keys can arrive in one buffer and cross several state changes, a game
  can fail to start, and a session can end in the middle of a game.  What
  holds at every loop head of every run (`HeadInv`):

    • the FSM is in NEGOTIATING, MAIN_MENU, IN_GAME or CLOSED,
    • a game is running exactly in IN_GAME (or was, when the session was
      closed from there),
    • no deferred flag is left over.

  The log is carried along: game states are created and destroyed in
  strict alternation, and no place the source takes for impossible is ever
  reached.

  Main results:
    • `onDataByte_eq`    — a key, the dispatch and the deferred events after it
      in one equation;
    • `telnet_lifecycle` — the statement about runs.
-/
import NetServer.Telnet.Session

namespace NetServer.Telnet

open NetServer.Core NetServer.Lib

/-! ## §1. The invariant. -/

/-- The log of games that were created and destroyed, one after another. -/
def pairLog (games : List (GameOps × Nat)) : List LogEntry :=
  games.flatMap (fun g => [.created g.1 g.2, .destroyed g.1 (some g.2)])

theorem pairLog_snoc (games : List (GameOps × Nat)) (g : GameOps) (p : Nat) :
    pairLog games ++ [.created g p] ++ [.destroyed g (some p)] = pairLog (games ++ [(g, p)]) := by
  simp [pairLog]

/-- No game: both pointers NULL, and every game of the log is over. -/
def GamesSettled (s : Session) : Prop :=
  s.activeGame = none ∧ s.gameState = none ∧ ∃ games, s.log = pairLog games

/-- A game is running: both pointers set, its creation is the last entry. -/
def GameRunning (s : Session) : Prop :=
  ∃ g p games, s.activeGame = some g ∧ s.gameState = some p
    ∧ s.log = pairLog games ++ [.created g p]

/-- The games of a session, by FSM state. -/
def GamesMatch (s : Session) : Prop :=
  match s.fsm with
  | .negotiating => GamesSettled s
  | .mainMenu => GamesSettled s
  | .inGame => GameRunning s
  | .closed => GamesSettled s ∨ GameRunning s
  | .init => False
  | .closing => False

/-- **The invariant at a loop head.** -/
structure HeadInv (s : Session) : Prop where
  menu : s.mainMenu = setupMainMenu
  noSelection : s.pendingSelection = -1
  noGameOver : s.gameOverPending = false
  noQuit : s.quitPending = false
  games : GamesMatch s

/-- Fields the invariant does not look at may change. -/
theorem headInv_of_eq {s s' : Session} (h : HeadInv s) (hfsm : s'.fsm = s.fsm)
    (hmenu : s'.mainMenu = s.mainMenu) (hact : s'.activeGame = s.activeGame)
    (hgs : s'.gameState = s.gameState) (hsel : s'.pendingSelection = s.pendingSelection)
    (hover : s'.gameOverPending = s.gameOverPending) (hquit : s'.quitPending = s.quitPending)
    (hlog : s'.log = s.log) : HeadInv s' := by
  refine ⟨by rw [hmenu, h.menu], by rw [hsel, h.noSelection], by rw [hover, h.noGameOver],
    by rw [hquit, h.noQuit], ?_⟩
  have hg := h.games
  unfold GamesMatch GamesSettled GameRunning at *
  rw [hfsm, hact, hgs, hlog]
  exact hg

/-! ## §2. Single dispatches. -/

theorem dispatch_row {env : GameEnv} {s : Session} {ev : TelnetEvent}
    {t : FsmTransition TelnetState TelnetEvent Session EventData}
    (h : fsmLookup (telnetFsmDef env) s.fsm ev = some t) (data : EventData) :
    dispatch env s ev data
      = { (fsmTake t ev s data).2 with fsm := (fsmTake t ev s data).1 } := by
  unfold dispatch
  rw [fsmDispatch_row h]

theorem dispatch_ignored {env : GameEnv} {s : Session} {ev : TelnetEvent}
    (h : fsmLookup (telnetFsmDef env) s.fsm ev = none) (data : EventData) :
    dispatch env s ev data = s := by
  unfold dispatch
  rw [fsmDispatch_ignored h]

/-- The actions of the table.  Only CONNECTED leads to NEGOTIATING. -/
theorem row_action {env : GameEnv} {t : FsmTransition TelnetState TelnetEvent Session EventData}
    (ht : t ∈ telnetFsmTable env) :
    ∃ act, t.action = some act
      ∧ (act = actSendNegotiations ∧ t.event = .connected
        ∨ act ∈ [actShowMainMenu, actHandleMenuKey, actStartGame env, actGameKey env, actClose]
          ∧ t.nextState ≠ .negotiating ∧ t.errorState ≠ .negotiating) := by
  simp only [telnetFsmTable, List.mem_cons, List.not_mem_nil, or_false] at ht
  rcases ht with rfl | rfl | rfl | rfl | rfl | rfl | rfl | rfl | rfl | rfl | rfl | rfl | rfl | rfl
  · exact ⟨_, rfl, Or.inl ⟨rfl, rfl⟩⟩
  all_goals exact ⟨_, rfl, Or.inr ⟨by simp, nofun, nofun⟩⟩

theorem isTerminal_iff (env : GameEnv) (s : Session) :
    isTerminal env s = true ↔ s.fsm = .closed := by
  unfold isTerminal fsmIsTerminal
  exact decide_eq_true_iff

/-- The window-size event has no row: it is ignored in every state. -/
theorem dispatch_naws (env : GameEnv) (s : Session) (data : EventData) :
    dispatch env s .naws data = s := by
  apply dispatch_ignored
  cases s.fsm <;> rfl

/-- Leaving NEGOTIATING or a finished game shows the menu. -/
theorem dispatch_showMenu {env : GameEnv} {s : Session} {ev : TelnetEvent} (data : EventData)
    (h : (s.fsm = .negotiating ∧ (ev = .negoDone ∨ ev = .keyInput))
      ∨ (s.fsm = .inGame ∧ ev = .gameOver)) :
    dispatch env s ev data
      = { s with pendingSelection := -1, gameOverPending := false, fsm := .mainMenu } := by
  obtain ⟨t, hl, hact, hnext⟩ : ∃ t, fsmLookup (telnetFsmDef env) s.fsm ev = some t
      ∧ t.action = some actShowMainMenu ∧ t.nextState = .mainMenu := by
    rcases h with ⟨hs, hev | hev⟩ | ⟨hs, hev⟩ <;> rw [hs, hev] <;>
      exact ⟨_, rfl, rfl, rfl⟩
  rw [dispatch_row hl]
  simp [fsmTake, hact, hnext, actShowMainMenu]

/-- `TEV_DISCONNECT` closes the session from every state, and `TEV_TIMEOUT`
from the menu and from a game. -/
theorem dispatch_close {env : GameEnv} {s : Session} {ev : TelnetEvent} (data : EventData)
    (h : (ev = .disconnect ∧ s.fsm ≠ .closed)
      ∨ (ev = .timeout ∧ (s.fsm = .mainMenu ∨ s.fsm = .inGame))) :
    dispatch env s ev data = { s with fsm := .closed } := by
  obtain ⟨t, hl, hact, hnext⟩ : ∃ t, fsmLookup (telnetFsmDef env) s.fsm ev = some t
      ∧ t.action = some actClose ∧ t.nextState = .closed := by
    rcases h with ⟨hev, hs⟩ | ⟨hev, hs | hs⟩
    · rw [hev]
      cases hfsm : s.fsm <;> first
        | exact ⟨_, rfl, rfl, rfl⟩
        | exact absurd hfsm hs
    · rw [hev, hs]; exact ⟨_, rfl, rfl, rfl⟩
    · rw [hev, hs]; exact ⟨_, rfl, rfl, rfl⟩
  rw [dispatch_row hl]
  simp [fsmTake, hact, hnext, actClose]

theorem dispatch_menuKey {env : GameEnv} {s : Session} (data : EventData)
    (h : s.fsm = .mainMenu) :
    dispatch env s .keyInput data
      = { (actHandleMenuKey s .keyInput data).1 with
          fsm := if (actHandleMenuKey s .keyInput data).2 = .ok then .mainMenu else .closing } := by
  have hl : fsmLookup (telnetFsmDef env) s.fsm .keyInput
      = some ⟨.mainMenu, .keyInput, some actHandleMenuKey, .mainMenu, .closing⟩ := by
    rw [h]; rfl
  rw [dispatch_row hl]
  simp [fsmTake]

theorem dispatch_menuSelect {env : GameEnv} {s : Session} (data : EventData)
    (h : s.fsm = .mainMenu) :
    dispatch env s .menuSelect data
      = { (actStartGame env s .menuSelect data).1 with
          fsm := if (actStartGame env s .menuSelect data).2 = .ok
                 then .inGame else .mainMenu } := by
  have hl : fsmLookup (telnetFsmDef env) s.fsm .menuSelect
      = some ⟨.mainMenu, .menuSelect, some (actStartGame env), .inGame, .mainMenu⟩ := by
    rw [h]; rfl
  rw [dispatch_row hl]
  simp [fsmTake]

theorem dispatch_gameKey {env : GameEnv} {s : Session} (data : EventData)
    (h : s.fsm = .inGame) :
    dispatch env s .keyInput data
      = { (actGameKey env s .keyInput data).1 with
          fsm := if (actGameKey env s .keyInput data).2 = .ok then .inGame else .closing } := by
  have hl : fsmLookup (telnetFsmDef env) s.fsm .keyInput
      = some ⟨.inGame, .keyInput, some (actGameKey env), .inGame, .closing⟩ := by
    rw [h]; rfl
  rw [dispatch_row hl]
  simp [fsmTake]

/-! ## §3. Menu selections are games. -/

/-- The game under a key of the menu. -/
def menuChoice (items : List MenuItem) (key : UInt8) : Option GameOps :=
  (items.find? (fun it => it.key = key)).bind MenuItem.userData

/-- **A key that selects an item and is not a quit key selects a game**: the
one item without a game is under 'q', which `act_handle_menu_key` takes for
itself. -/
theorem menuHandleKey_game (key : UInt8) (hq : key ≠ 'q'.toUInt8) :
    (menuHandleKey setupMainMenu key = -1 ∧ menuChoice setupMainMenu key = none)
      ∨ ∃ g, menuChoice setupMainMenu key = some g ∧ 0 ≤ menuHandleKey setupMainMenu key
          ∧ menuHandleKey setupMainMenu key < setupMainMenu.length
          ∧ (setupMainMenu[(menuHandleKey setupMainMenu key).toNat]?).bind MenuItem.userData
            = some g := by
  have hchoice : menuChoice setupMainMenu key
      = ((setupMainMenu.findIdx? (fun it => it.key = key)).bind (setupMainMenu[·]?)).bind
          MenuItem.userData := by
    unfold menuChoice
    rw [List.find?_eq_bind_findIdx?_getElem?]
  unfold menuHandleKey
  cases hf : setupMainMenu.findIdx? (fun it => it.key = key) with
  | none =>
      rw [hf] at hchoice
      exact Or.inl ⟨rfl, hchoice⟩
  | some i =>
      right
      obtain ⟨hlt, hkey, _⟩ := List.findIdx?_eq_some_iff_getElem.mp hf
      simp only [decide_eq_true_eq] at hkey
      have hall : ∀ it ∈ setupMainMenu, it.key ≠ 'q'.toUInt8 → it.userData.isSome := by
        decide
      have hsome := hall setupMainMenu[i] (List.getElem_mem hlt) (by rw [hkey]; exact hq)
      obtain ⟨g, hg⟩ := Option.isSome_iff_exists.mp hsome
      have hitem : (setupMainMenu[i]?).bind MenuItem.userData = some g := by
        rw [List.getElem?_eq_getElem hlt]
        exact hg
      refine ⟨g, ?_, Int.natCast_nonneg i, by simpa using hlt, hitem⟩
      rw [hchoice, hf]
      exact hitem

/-! ## §4. One key. -/

theorem consumeGameOver_none {env : GameEnv} {s : Session} (h : s.gameOverPending = false) :
    consumeGameOver env s = s := by
  simp [consumeGameOver, h]

theorem consumeQuit_none {env : GameEnv} {s : Session} (h : s.quitPending = false) :
    consumeQuit env s = s := by
  simp [consumeQuit, h]

theorem consumeSelection_none {env : GameEnv} {s : Session} (h : s.pendingSelection = -1) :
    consumeSelection env s = s := by
  simp [consumeSelection, h]

/-- A state in which the invariant holds has nothing to consume. -/
theorem consume_idle {env : GameEnv} {s : Session} (h : HeadInv s) :
    consumeSelection env (consumeQuit env (consumeGameOver env s)) = s := by
  rw [consumeGameOver_none h.noGameOver, consumeQuit_none h.noQuit,
    consumeSelection_none h.noSelection]

/-- A game was selected: it runs, or `create` failed and the menu stays. -/
def Session.started (s : Session) (g : GameOps) : Option Nat → Session
  | none => { s with calls := s.calls + 1 }
  | some p =>
      { s with
        fsm := .inGame
        activeGame := some g
        gameState := some p
        calls := s.calls + 1
        log := s.log ++ [.created g p] }

/-- The game has had a key: it goes on, or it was destroyed and the menu shown. -/
def Session.played (s : Session) (g : GameOps) (running : Bool) : Session :=
  if running then { s with calls := s.calls + 1 }
  else
    { s with
      fsm := .mainMenu
      activeGame := none
      gameState := none
      calls := s.calls + 1
      log := s.log ++ [.destroyed g s.gameState] }

/-- What a key does to a session at a loop head, given what the game callback
returns if one is made: the deferred events are part of it. -/
def Session.onKey (created : Option Nat) (running : Bool) (s : Session) (key : UInt8) : Session :=
  match s.fsm with
  | .negotiating => { s with fsm := .mainMenu }
  | .mainMenu =>
      if key = 'q'.toUInt8 ∨ key = 'Q'.toUInt8 ∨ key = 3 then { s with fsm := .closed }
      else (menuChoice s.mainMenu key).elim s fun g => s.started g created
  | .inGame => s.activeGame.elim s fun g => s.played g running
  | _ => s

/-- A quit key in the menu closes the session. -/
theorem menuQuit_eq {env : GameEnv} {s : Session} (h : HeadInv s) :
    consumeSelection env (consumeQuit env (consumeGameOver env
      { s with quitPending := true, fsm := .mainMenu })) = { s with fsm := .closed } := by
  have hq : consumeQuit env { s with quitPending := true, fsm := .mainMenu }
      = { s with fsm := .closed } := by
    unfold consumeQuit
    rw [if_pos ⟨rfl, by simp [isTerminal_iff]⟩, dispatch_close _ (Or.inl ⟨rfl, by simp⟩),
      ← h.noQuit]
  rw [consumeGameOver_none (by exact h.noGameOver), hq, consumeSelection_none (by exact h.noSelection)]

/-- A selecting key in the menu starts the game, or leaves the menu. -/
theorem menuSelect_eq {env : GameEnv} {s : Session} {key : UInt8} {g : GameOps} (h : HeadInv s)
    (hst : s.fsm = .mainMenu) (hsel : 0 ≤ menuHandleKey setupMainMenu key)
    (hlt : menuHandleKey setupMainMenu key < setupMainMenu.length)
    (hg : (setupMainMenu[(menuHandleKey setupMainMenu key).toNat]?).bind MenuItem.userData
      = some g) :
    consumeSelection env (consumeQuit env (consumeGameOver env
      { s with pendingSelection := menuHandleKey setupMainMenu key, fsm := .mainMenu }))
      = s.started g (env.create s.calls) := by
  have hgames := h.games
  simp only [GamesMatch, hst] at hgames
  obtain ⟨hact, hgs, -⟩ := hgames
  have hback : ({ s with pendingSelection := -1, fsm := .mainMenu } : Session) = s := by
    rw [← h.noSelection, ← hst]
  rw [consumeGameOver_none (by exact h.noGameOver), consumeQuit_none (by exact h.noQuit)]
  unfold consumeSelection
  rw [if_pos ⟨hsel, by simp [isTerminal_iff]⟩]
  show dispatch env { s with pendingSelection := -1, fsm := .mainMenu } .menuSelect
    (.sel (menuHandleKey setupMainMenu key)) = _
  rw [hback, dispatch_menuSelect _ hst]
  rw [← h.menu] at hlt hg hsel ⊢
  cases hc : env.create s.calls with
  | none =>
      -- `create` failed: the error row leads back to the menu
      have hres : actStartGame env s .menuSelect (.sel (menuHandleKey s.mainMenu key))
          = ({ s with activeGame := none, gameState := none, calls := s.calls + 1 }, .error) := by
        simp only [actStartGame]
        rw [if_pos ⟨hsel, hlt⟩, hg]
        simp only [hc]
      rw [hres]
      show ({ s with fsm := .mainMenu, activeGame := none, gameState := none, calls := s.calls + 1 }
        : Session) = { s with calls := s.calls + 1 }
      congr 1
      · exact hst.symm
      · exact hact.symm
      · exact hgs.symm
  | some p =>
      -- the game runs, and its `destroy` is owed
      have hres : actStartGame env s .menuSelect (.sel (menuHandleKey s.mainMenu key))
          = ({ s with activeGame := some g, gameState := some p, calls := s.calls + 1,
                      log := s.log ++ [.created g p] }, .ok) := by
        simp only [actStartGame]
        rw [if_pos ⟨hsel, hlt⟩, hg]
        simp only [hc]
      rw [hres]
      rfl

/-- A key that ends the game: it was destroyed in the action, the menu is
shown after it. -/
theorem gameOver_eq {env : GameEnv} {s : Session} (hsel : s.pendingSelection = -1)
    (hquit : s.quitPending = false) (hst : s.fsm = .inGame) (hover : s.gameOverPending = true) :
    consumeSelection env (consumeQuit env (consumeGameOver env s))
      = { s with gameOverPending := false, fsm := .mainMenu } := by
  have hgo : consumeGameOver env s = { s with gameOverPending := false, fsm := .mainMenu } := by
    unfold consumeGameOver
    rw [if_pos ⟨hover, by simp [isTerminal_iff, hst]⟩,
      dispatch_showMenu (s := { s with gameOverPending := false }) _ (Or.inr ⟨hst, rfl⟩), ← hsel]
  rw [hgo, consumeQuit_none (by exact hquit), consumeSelection_none (by exact hsel)]

/-- **One key**: the dispatch and the deferred events after it, in one equation. -/
theorem onDataByte_eq (env : GameEnv) {s : Session} {key : UInt8} (h : HeadInv s) (hz : key ≠ 0) :
    onDataByte env s key = s.onKey (env.create s.calls) (env.handleKey s.calls) key := by
  unfold onDataByte
  rw [if_neg hz]
  have hgames := h.games
  unfold GamesMatch at hgames
  unfold Session.onKey
  by_cases hterm : isTerminal env s = true
  · rw [if_pos hterm, (isTerminal_iff env s).mp hterm]
  rw [if_neg hterm]
  cases hst : s.fsm with
  | init => exact absurd hgames (by simp [hst])
  | closing => exact absurd hgames (by simp [hst])
  | closed => exact absurd ((isTerminal_iff env s).mpr hst) hterm
  | negotiating =>
      -- typing during the negotiation goes straight to the menu
      rw [dispatch_showMenu _ (Or.inl ⟨hst, Or.inr rfl⟩), ← h.noSelection, ← h.noGameOver]
      simp only [hst] at hgames
      have hinv : HeadInv { s with fsm := .mainMenu } :=
        ⟨h.menu, h.noSelection, h.noGameOver, h.noQuit, hgames⟩
      exact consume_idle hinv
  | mainMenu =>
      rw [dispatch_menuKey _ hst]
      dsimp only
      by_cases hk : key = 'q'.toUInt8 ∨ key = 'Q'.toUInt8 ∨ key = 3
      · have hres : actHandleMenuKey s .keyInput (.key key)
            = ({ s with quitPending := true }, .ok) := by
          simp [actHandleMenuKey, hk]
        rw [hres, if_pos hk]
        exact menuQuit_eq h
      rw [if_neg hk]
      have hmenu : menuChoice s.mainMenu key = menuChoice setupMainMenu key := by rw [h.menu]
      rcases menuHandleKey_game key (fun he => hk (Or.inl he)) with
        ⟨hsel, hnone⟩ | ⟨g, hg, hsel, hlt, hitem⟩
      · -- no item under this key
        have hres : actHandleMenuKey s .keyInput (.key key) = (s, .ok) := by
          simp only [actHandleMenuKey]
          rw [if_neg hk, h.menu, hsel, if_neg (by decide)]
        have hsame : ({ s with fsm := .mainMenu } : Session) = s := by rw [← hst]
        rw [hres, hmenu, hnone]
        show consumeSelection env (consumeQuit env (consumeGameOver env { s with fsm := .mainMenu })) = s
        rw [hsame, consume_idle h]
      · have hres : actHandleMenuKey s .keyInput (.key key)
            = ({ s with pendingSelection := menuHandleKey setupMainMenu key }, .ok) := by
          simp only [actHandleMenuKey]
          rw [if_neg hk, h.menu, if_pos hsel]
        rw [hres, hmenu, hg]
        exact menuSelect_eq h hst hsel hlt hitem
  | inGame =>
      simp only [hst] at hgames
      obtain ⟨g, p, games, hact, hgs, hlog⟩ := hgames
      rw [dispatch_gameKey _ hst, hact]
      show consumeSelection env (consumeQuit env (consumeGameOver env _)) = s.played g _
      unfold Session.played
      cases hrun : env.handleKey s.calls with
      | true =>
          have hres : actGameKey env s .keyInput (.key key)
              = ({ s with calls := s.calls + 1 }, .ok) := by
            simp [actGameKey, hact, hrun]
          have hinv : HeadInv { s with calls := s.calls + 1 } :=
            headInv_of_eq h rfl rfl rfl rfl rfl rfl rfl rfl
          have hsame : ({ s with calls := s.calls + 1, fsm := .inGame } : Session)
              = { s with calls := s.calls + 1 } := by rw [← hst]
          rw [hres]
          show consumeSelection env (consumeQuit env (consumeGameOver env
            { s with calls := s.calls + 1, fsm := .inGame })) = { s with calls := s.calls + 1 }
          rw [hsame, consume_idle hinv]
      | false =>
          have hres : actGameKey env s .keyInput (.key key)
              = ({ s with activeGame := none, gameState := none, gameOverPending := true,
                          calls := s.calls + 1,
                          log := s.log ++ [.destroyed g s.gameState] }, .ok) := by
            simp [actGameKey, hact, hrun]
          rw [hres]
          refine (gameOver_eq (s := { s with
            fsm := .inGame, activeGame := none, gameState := none, gameOverPending := true,
            calls := s.calls + 1, log := s.log ++ [.destroyed g s.gameState] })
            h.noSelection h.noQuit rfl rfl).trans ?_
          rw [if_neg nofun, ← h.noGameOver]

/-- A key keeps the invariant. -/
theorem Session.onKey_inv (created : Option Nat) (running : Bool) {s : Session} (key : UInt8)
    (h : HeadInv s) : HeadInv (s.onKey created running key) := by
  have hgames := h.games
  unfold GamesMatch at hgames
  unfold Session.onKey
  cases hst : s.fsm with
  | negotiating =>
      simp only [hst] at hgames
      exact ⟨h.menu, h.noSelection, h.noGameOver, h.noQuit, hgames⟩
  | mainMenu =>
      simp only [hst] at hgames
      obtain ⟨hact, hgs, games, hlog⟩ := hgames
      dsimp only
      split
      · exact ⟨h.menu, h.noSelection, h.noGameOver, h.noQuit, Or.inl ⟨hact, hgs, games, hlog⟩⟩
      cases menuChoice s.mainMenu key with
      | none => exact h
      | some g =>
          cases created with
          | none => exact headInv_of_eq h rfl rfl rfl rfl rfl rfl rfl rfl
          | some p =>
              refine ⟨h.menu, h.noSelection, h.noGameOver, h.noQuit, ⟨g, p, games, rfl, rfl, ?_⟩⟩
              show s.log ++ [LogEntry.created g p] = _
              rw [hlog]
  | inGame =>
      simp only [hst] at hgames
      obtain ⟨g, p, games, hact, hgs, hlog⟩ := hgames
      dsimp only
      rw [hact]
      cases running with
      | true => exact headInv_of_eq h rfl rfl rfl rfl rfl rfl rfl rfl
      | false =>
          refine ⟨h.menu, h.noSelection, h.noGameOver, h.noQuit,
            ⟨rfl, rfl, games ++ [(g, p)], ?_⟩⟩
          show s.log ++ [.destroyed g s.gameState] = _
          rw [hlog, hgs, pairLog_snoc]
  | _ => exact h

/-- **One key keeps the invariant**, whatever state it arrives in. -/
theorem onDataByte_inv (env : GameEnv) (s : Session) (key : UInt8) (h : HeadInv s) :
    HeadInv (onDataByte env s key) := by
  by_cases hz : key = 0
  · unfold onDataByte
    rw [if_pos hz]
    exact h
  · rw [onDataByte_eq env h hz]
    exact Session.onKey_inv _ _ key h

theorem onData_inv (env : GameEnv) (buf : List UInt8) (s : Session) (h : HeadInv s) :
    HeadInv (onData env s buf) := by
  unfold onData
  induction buf generalizing s with
  | nil => exact h
  | cons b buf ih => exact ih _ (onDataByte_inv env s b h)

/-! ## §5. Options, subnegotiations and whole buffers. -/

/-- The end of the negotiation shows the menu, or finds it already shown. -/
theorem negoDone_inv (env : GameEnv) (s : Session) (h : HeadInv s) :
    HeadInv (dispatch env s .negoDone .null) := by
  by_cases hst : s.fsm = .negotiating
  · rw [dispatch_showMenu _ (Or.inl ⟨hst, Or.inl rfl⟩)]
    have hg := h.games
    simp only [GamesMatch, hst] at hg
    exact ⟨h.menu, rfl, rfl, h.noQuit, hg⟩
  · rw [dispatch_ignored (by cases hs : s.fsm <;> first | rfl | exact absurd hs hst)]
    exact h

theorem onOption_inv (env : GameEnv) (s : Session) (ev : IacOptionEvent) (h : HeadInv s) :
    HeadInv (onOption env s ev) := by
  unfold onOption
  -- The four option flags and the counter are not part of the invariant.
  extract_lets s1 s2 s3 s4 s5
  have h1 : HeadInv s1 := by
    unfold s1; split
    · exact headInv_of_eq h rfl rfl rfl rfl rfl rfl rfl rfl
    · exact h
  have h2 : HeadInv s2 := by
    unfold s2; split
    · exact headInv_of_eq h1 rfl rfl rfl rfl rfl rfl rfl rfl
    · exact h1
  have h3 : HeadInv s3 := by
    unfold s3; split
    · exact headInv_of_eq h2 rfl rfl rfl rfl rfl rfl rfl rfl
    · exact h2
  have h4 : HeadInv s4 := by
    unfold s4; split
    · exact headInv_of_eq h3 rfl rfl rfl rfl rfl rfl rfl rfl
    · exact h3
  have h5 : HeadInv s5 := headInv_of_eq h4 rfl rfl rfl rfl rfl rfl rfl rfl
  split
  · split
    · exact negoDone_inv env s5 h5
    · exact h5
  · exact h4

theorem onSubneg_inv (env : GameEnv) (s : Session) (ev : IacSbEvent) (h : HeadInv s) :
    HeadInv (onSubneg env s ev) := by
  unfold onSubneg
  split
  · rw [dispatch_naws]
    exact headInv_of_eq h rfl rfl rfl rfl rfl rfl rfl rfl
  · exact h

/-- **A received buffer keeps the invariant**, however many keys, options
and subnegotiations it holds. -/
theorem feedSession_inv (env : GameEnv) (s : Session) (raw : List UInt8) (h : HeadInv s) :
    HeadInv (feedSession env s raw) := by
  show HeadInv ((iacParserFeed s.iac raw).2.foldl (onIacEvent env)
    { s with iac := (iacParserFeed s.iac raw).1 })
  have hstart : HeadInv { s with iac := (iacParserFeed s.iac raw).1 } :=
    headInv_of_eq h rfl rfl rfl rfl rfl rfl rfl rfl
  generalize ({ s with iac := (iacParserFeed s.iac raw).1 } : Session) = s0 at hstart
  generalize (iacParserFeed s.iac raw).2 = evs
  induction evs generalizing s0 with
  | nil => exact hstart
  | cons e evs ih =>
      apply ih
      cases e with
      | onData buf => exact onData_inv env buf s0 hstart
      | onOption ev => exact onOption_inv env s0 ev hstart
      | onSubneg ev => exact onSubneg_inv env s0 ev hstart

/-! ## §6. Runs. -/

/-- What holds of a run wherever it stands: the invariant at a loop head, a
settled log after the return. -/
def RunInv (r : TelnetRun) : Prop :=
  match r.phase with
  | .head => HeadInv r.session
  | .returned => GamesSettled r.session

/-- **Leaving the loop settles the games**: a running game is destroyed. -/
theorem returnFrom_inv {r : TelnetRun} (h : HeadInv r.session) : RunInv (returnFrom r) := by
  have hcases : GamesSettled r.session ∨ GameRunning r.session := by
    have hg := h.games
    unfold GamesMatch at hg
    cases hst : r.session.fsm <;> simp only [hst] at hg <;> tauto
  show GamesSettled (returnFrom r).session
  rcases hcases with ⟨hact, hgs, games, hlog⟩ | ⟨g, p, games, hact, hgs, hlog⟩
  · simp only [returnFrom, hact]
    exact ⟨hact, hgs, games, hlog⟩
  · simp only [returnFrom, hact, hgs]
    refine ⟨rfl, rfl, games ++ [(g, p)], ?_⟩
    show r.session.log ++ [LogEntry.destroyed g (some p)] = _
    rw [hlog, pairLog_snoc]

/-- The idle timeout closes the session from the menu or a game. -/
theorem timeout_inv (env : GameEnv) (s : Session) (h : HeadInv s) :
    HeadInv (dispatch env s .timeout .null) := by
  by_cases hst : s.fsm = .mainMenu ∨ s.fsm = .inGame
  · rw [dispatch_close _ (Or.inr ⟨rfl, hst⟩)]
    have hg := h.games
    refine ⟨h.menu, h.noSelection, h.noGameOver, h.noQuit, ?_⟩
    rcases hst with hst | hst <;> simp only [GamesMatch, hst] at hg
    · exact Or.inl hg
    · exact Or.inr hg
  · rw [dispatch_ignored (by cases hs : s.fsm <;> first | rfl | exact absurd hs (by tauto))]
    exact h

theorem disconnect_inv (env : GameEnv) (s : Session) (h : HeadInv s) :
    HeadInv (dispatch env s .disconnect .null) := by
  by_cases hst : s.fsm = .closed
  · rw [dispatch_ignored (by rw [hst]; rfl)]
    exact h
  · rw [dispatch_close _ (Or.inl ⟨rfl, hst⟩)]
    have hg := h.games
    refine ⟨h.menu, h.noSelection, h.noGameOver, h.noQuit, ?_⟩
    show GamesSettled s ∨ GameRunning s
    unfold GamesMatch at hg
    cases hs : s.fsm <;> simp only [hs] at hg <;> tauto

theorem runInv_head {r : TelnetRun} (hph : r.phase = .head) (h : HeadInv r.session) :
    RunInv r := by
  unfold RunInv
  rw [hph]
  exact h

/-- One pass through the loop body. -/
theorem afterPoll_inv (env : GameEnv) (r : TelnetRun) (o : PollOutcome)
    (hph : r.phase = .head) (h : HeadInv r.session) : RunInv (afterPoll env r o) := by
  cases o with
  | interrupted => exact runInv_head hph h
  | failed => exact returnFrom_inv h
  | timeout =>
      simp only [afterPoll]
      split
      · refine runInv_head (by exact hph) ?_
        exact negoDone_inv env _ (headInv_of_eq h rfl rfl rfl rfl rfl rfl rfl rfl)
      · exact runInv_head (by exact hph) (timeout_inv env _ h)
  | ready notify shutdownRaised sock =>
      simp only [afterPoll]
      have h' : HeadInv { r.session with
          shutdownRequested := r.session.shutdownRequested || shutdownRaised } :=
        headInv_of_eq h rfl rfl rfl rfl rfl rfl rfl rfl
      split
      · exact returnFrom_inv h'
      · match sock with
        | none => exact runInv_head (by exact hph) h'
        | some .gone => exact returnFrom_inv (disconnect_inv env _ h')
        | some (.bytes b rest) =>
            exact runInv_head (by exact hph) (feedSession_inv env _ _ h')

theorem telnetRunStep_inv (env : GameEnv) (r : TelnetRun) (i : LoopInput) (r' : TelnetRun)
    (h : RunInv r) (hstep : telnetRunStep env r i = some r') : RunInv r' := by
  unfold telnetRunStep at hstep
  cases hph : r.phase with
  | returned => simp [hph] at hstep
  | head =>
      have hinv : HeadInv r.session := by simpa [RunInv, hph] using h
      cases i with
      | requestShutdown =>
          simp only [hph, Option.some.injEq] at hstep
          subst hstep
          exact runInv_head rfl (headInv_of_eq hinv rfl rfl rfl rfl rfl rfl rfl rfl)
      | iterate now o =>
          simp only [hph] at hstep
          split at hstep
          · rw [← Option.some.inj hstep]
            exact returnFrom_inv hinv
          · rw [← Option.some.inj hstep]
            exact afterPoll_inv env _ o rfl hinv

theorem telnetRunStart_inv (env : GameEnv) (now : Int) : RunInv (telnetRunStart env now) := by
  have hl : fsmLookup (telnetFsmDef env) (telnetCreateSession env).fsm .connected
      = some ⟨.init, .connected, some actSendNegotiations, .negotiating, .closing⟩ := rfl
  show HeadInv (dispatch env (telnetCreateSession env) .connected .null)
  rw [dispatch_row hl]
  exact ⟨rfl, rfl, rfl, rfl, ⟨rfl, rfl, [], rfl⟩⟩

/-- Every reachable state of a run satisfies the run invariant. -/
theorem runInv_of_reachable (env : GameEnv) {r : TelnetRun}
    (h : (telnetRunSession env).Reachable r) : RunInv r := by
  refine TransitionSystem.ReachableVia.invariant (P := RunInv) ?_ ?_ h
  · rintro s ⟨now, rfl⟩
    exact telnetRunStart_inv env now
  · intro s a s' hs hstep _
    exact telnetRunStep_inv env s a s' hs hstep

/-! ## §7. The lifecycle theorem. -/

/-- Arrivals at places the source takes for impossible. -/
def LogEntry.isFault : LogEntry → Bool
  | .selAssertFailed _ => true
  | .nullGame => true
  | .nullActiveGame => true
  | _ => false

theorem pairLog_noFault (games : List (GameOps × Nat)) :
    ∀ e ∈ pairLog games, e.isFault = false := by
  intro e he
  unfold pairLog at he
  obtain ⟨g, _, hg⟩ := List.mem_flatMap.mp he
  simp only [List.mem_cons, List.not_mem_nil, or_false] at hg
  rcases hg with rfl | rfl <;> rfl

theorem noFault_of_games {s : Session} (h : GamesSettled s ∨ GameRunning s) :
    ∀ e ∈ s.log, e.isFault = false := by
  intro e he
  rcases h with ⟨_, _, games, hlog⟩ | ⟨g, p, games, _, _, hlog⟩
  · rw [hlog] at he
    exact pairLog_noFault games e he
  · rw [hlog] at he
    rcases List.mem_append.mp he with he | he
    · exact pairLog_noFault games e he
    · rw [List.mem_singleton] at he
      subst he
      rfl

theorem games_of_runInv {r : TelnetRun} (h : RunInv r) :
    GamesSettled r.session ∨ GameRunning r.session := by
  unfold RunInv at h
  cases hph : r.phase with
  | returned =>
      simp only [hph] at h
      exact Or.inl h
  | head =>
      simp only [hph] at h
      have hg := h.games
      unfold GamesMatch at hg
      cases hst : r.session.fsm <;> simp only [hst] at hg <;> tauto

/-- What the lifecycle promises at a loop head. -/
structure LoopHeadOk (s : Session) : Prop where
  state : s.fsm = .negotiating ∨ s.fsm = .mainMenu ∨ s.fsm = .inGame ∨ s.fsm = .closed
  inGame : s.fsm = .inGame → s.activeGame.isSome ∧ s.gameState.isSome
  noGame : s.fsm = .negotiating ∨ s.fsm = .mainMenu →
    s.activeGame = none ∧ s.gameState = none
  flags : s.pendingSelection = -1 ∧ s.gameOverPending = false ∧ s.quitPending = false

theorem loopHeadOk_of_inv {s : Session} (h : HeadInv s) : LoopHeadOk s := by
  have hg := h.games
  unfold GamesMatch at hg
  refine ⟨?_, ?_, ?_, ⟨h.noSelection, h.noGameOver, h.noQuit⟩⟩
  · cases hst : s.fsm <;> simp only [hst] at hg <;> simp
  · intro hst
    simp only [hst] at hg
    obtain ⟨g, p, games, hact, hgs, _⟩ := hg
    simp [hact, hgs]
  · intro hst
    rcases hst with hst | hst <;> simp only [hst] at hg <;> exact ⟨hg.1, hg.2.1⟩

/-- **The telnet session lifecycle.**  In every reachable state of every run
of `telnet_run_session`, for any outcomes of the games' `create` and
`handle_key` and any sequence of poll and recv outcomes: the loop-head
conditions hold at every loop head; the selection assertion has not failed
and neither NULL branch was taken; and once the function has returned, the
created game states are exactly the destroyed ones, each passed to its own
game's `destroy` right after its creation's visit ended. -/
theorem telnet_lifecycle (env : GameEnv) (r : TelnetRun)
    (h : (telnetRunSession env).Reachable r) :
    (r.phase = .head → LoopHeadOk r.session)
      ∧ (∀ e ∈ r.session.log, e.isFault = false)
      ∧ (r.phase = .returned → ∃ games : List (GameOps × Nat),
          r.session.log
            = games.flatMap (fun g => [.created g.1 g.2, .destroyed g.1 (some g.2)])) := by
  have hinv := runInv_of_reachable env h
  refine ⟨?_, noFault_of_games (games_of_runInv hinv), ?_⟩
  · intro hph
    simp only [RunInv, hph] at hinv
    exact loopHeadOk_of_inv hinv
  · intro hph
    simp only [RunInv, hph] at hinv
    exact hinv.2.2

/-- Games that always start, and never end by themselves. -/
def endlessGames : GameEnv := ⟨fun _ => some 7, fun _ => true⟩

/-- A client types Enter during the negotiation, opens the chat, types on
and goes away. -/
def chatThenGone : List LoopInput :=
  [.iterate 1 (.ready false false (some (.bytes 13 ['g'.toUInt8, 'x'.toUInt8]))),
   .iterate 2 (.ready false false (some .gone))]

/-- The session is closed from inside the game, which is destroyed on the
way out. -/
theorem telnet_lifecycle_gone_in_game :
    ∃ r : TelnetRun, (telnetRunSession endlessGames).Reachable r
      ∧ r.phase = .returned
      ∧ r.session.log = [.created .chat 7, .destroyed .chat (some 7)]
      ∧ (∀ e ∈ r.session.log, e.isFault = false) := by
  have hrun : ((telnetRunSession endlessGames).run (telnetRunStart endlessGames 0)
      chatThenGone).map (fun r => (r.phase, r.session.log))
        = some (.returned, [.created .chat 7, .destroyed .chat (some 7)]) := by
    decide +kernel
  obtain ⟨r, hr, hres⟩ := Option.map_eq_some_iff.mp hrun
  obtain ⟨hph, hlog⟩ := Prod.mk.inj hres
  have hreach : (telnetRunSession endlessGames).Reachable r :=
    TransitionSystem.run_reachable chatThenGone _ r (.init ⟨0, rfl⟩) hr
  exact ⟨r, hreach, hph, hlog, (telnet_lifecycle endlessGames r hreach).2.1⟩

end NetServer.Telnet
