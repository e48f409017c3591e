/-
  NetServer.Telnet.Idle — an idle telnet session is timed out.

  A `poll` timeout of the session loop has two meanings.  While replies to the
  option offers are awaited it ends the negotiation; otherwise it closes the
  session.  The FSM table has no TIMEOUT row for NEGOTIATING, so a session in
  that state with no reply awaited would stay for ever.

    • `NegoWithin` — in NEGOTIATING a reply is awaited, and at most `n` are;
    • `telnetRunStep_nego` — every step of a run keeps it;
    • `idle_session_closes` — two timeouts in a row close any session;
    • `negotiation_wait` — the deadline of the negotiation bounds a wait only
      before it has passed.
-/
import NetServer.Telnet.Lifecycle

namespace NetServer.Telnet

open NetServer.Core NetServer.Lib

/-! ## §1. The counter of awaited replies. -/

/-- At most `n` replies are awaited, and in NEGOTIATING at least one is. -/
structure NegoWithin (n : UInt8) (s : Session) : Prop where
  pending : s.negoPending ≤ n
  waits : s.fsm = .negotiating → 0 < s.negoPending

theorem NegoWithin.of_eq {n : UInt8} {s s' : Session} (h : NegoWithin n s) (hfsm : s'.fsm = s.fsm)
    (hpending : s'.negoPending = s.negoPending) : NegoWithin n s' :=
  ⟨hpending ▸ h.pending, fun hst => hpending ▸ h.waits (hfsm ▸ hst)⟩

/-- Outside NEGOTIATING only the bound is left to show. -/
theorem NegoWithin.of_ne {n : UInt8} {s : Session} (hpending : s.negoPending ≤ n)
    (hst : s.fsm ≠ .negotiating) : NegoWithin n s :=
  ⟨hpending, fun h => absurd h hst⟩

/-- A row that the table has for a later event than CONNECTED: it does not lead
to NEGOTIATING, and its action leaves the counter alone. -/
theorem row_nego {env : GameEnv} {t : FsmTransition TelnetState TelnetEvent Session EventData}
    (ht : t ∈ telnetFsmTable env) (hev : t.event ≠ .connected) (ev : TelnetEvent) (s : Session)
    (data : EventData) :
    (fsmTake t ev s data).1 ≠ .negotiating ∧ (fsmTake t ev s data).2.negoPending = s.negoPending := by
  obtain ⟨act, hact, ⟨-, hconn⟩ | ⟨hmem, hnext, herr⟩⟩ := row_action ht
  · exact absurd hconn hev
  rw [fsmTake_action hact]
  refine ⟨?_, ?_⟩
  · dsimp only
    split
    · exact hnext
    · exact herr
  show (act s ev data).1.negoPending = s.negoPending
  simp only [List.mem_cons, List.not_mem_nil, or_false] at hmem
  rcases hmem with rfl | rfl | rfl | rfl | rfl
  · rfl
  · unfold actHandleMenuKey
    dsimp only
    split
    · split_ifs <;> rfl
    · rfl
  · unfold actStartGame
    split
    · split_ifs
      · split
        · rfl
        · split <;> rfl
      · rfl
    · rfl
  · unfold actGameKey
    split
    · rfl
    · split_ifs <;> rfl
  · rfl

theorem dispatch_nego {env : GameEnv} {n : UInt8} {s : Session} (ev : TelnetEvent)
    (data : EventData) (hev : ev ≠ .connected) (h : NegoWithin n s) :
    NegoWithin n (dispatch env s ev data) := by
  cases hl : fsmLookup (telnetFsmDef env) s.fsm ev with
  | none =>
    rw [dispatch_ignored hl]
    exact h
  | some t =>
    have hmem : t ∈ telnetFsmTable env := List.mem_of_find?_eq_some hl
    have hrow := List.find?_some hl
    have hevent : t.event ≠ .connected := by
      rw [Bool.and_eq_true, decide_eq_true_eq, decide_eq_true_eq] at hrow
      rw [hrow.2]
      exact hev
    obtain ⟨hfsm, hpending⟩ := row_nego hmem hevent ev s data
    rw [dispatch_row hl]
    exact .of_ne (hpending ▸ h.pending) hfsm

/-- The end of the negotiation leaves NEGOTIATING, whatever is awaited. -/
theorem negoDone_nego {env : GameEnv} {n : UInt8} {s : Session} (h : s.negoPending ≤ n) :
    NegoWithin n (dispatch env s .negoDone .null) := by
  by_cases hst : s.fsm = .negotiating
  · rw [dispatch_showMenu _ (Or.inl ⟨hst, Or.inl rfl⟩)]
    exact .of_ne h nofun
  · rw [dispatch_ignored (by cases hs : s.fsm <;> first | rfl | exact absurd hs hst)]
    exact .of_ne h hst

/-! ## §2. Keys, options and buffers. -/

theorem onDataByte_nego {env : GameEnv} {n : UInt8} {s : Session} (key : UInt8)
    (h : NegoWithin n s) : NegoWithin n (onDataByte env s key) := by
  unfold onDataByte
  split_ifs
  · exact h
  · exact h
  have hkey : NegoWithin n (dispatch env s .keyInput (.key key)) :=
    dispatch_nego .keyInput _ nofun h
  have hover : NegoWithin n (consumeGameOver env (dispatch env s .keyInput (.key key))) := by
    unfold consumeGameOver
    split_ifs
    · exact dispatch_nego .gameOver _ nofun (hkey.of_eq rfl rfl)
    · exact hkey
  have hquit : NegoWithin n
      (consumeQuit env (consumeGameOver env (dispatch env s .keyInput (.key key)))) := by
    unfold consumeQuit
    split_ifs
    · exact dispatch_nego .disconnect _ nofun (hover.of_eq rfl rfl)
    · exact hover
  show NegoWithin n (consumeSelection env _)
  unfold consumeSelection
  split_ifs
  · exact dispatch_nego .menuSelect _ nofun (hquit.of_eq rfl rfl)
  · exact hquit

/-- A reply is counted while one is awaited: the counter does not wrap, and the
last reply ends the negotiation. -/
theorem onOption_nego {env : GameEnv} {n : UInt8} {s : Session} (ev : IacOptionEvent)
    (h : NegoWithin n s) : NegoWithin n (onOption env s ev) := by
  unfold onOption
  extract_lets s1 s2 s3 s4 s5
  have h4 : NegoWithin n s4 := by
    apply h.of_eq
    · unfold s4 s3 s2 s1
      split_ifs <;> rfl
    · unfold s4 s3 s2 s1
      split_ifs <;> rfl
  split
  · rename_i hpos
    have hle : s5.negoPending ≤ s4.negoPending := by
      show s4.negoPending - 1 ≤ s4.negoPending
      have hpos : 0 < s4.negoPending.toNat := UInt8.lt_iff_toNat_lt.mp hpos
      have hone : (1 : UInt8) ≤ s4.negoPending := UInt8.le_iff_toNat_le.mpr hpos
      rw [UInt8.le_iff_toNat_le, UInt8.toNat_sub_of_le _ _ hone]
      exact Nat.sub_le _ _
    split
    · exact negoDone_nego (UInt8.le_trans hle h4.pending)
    · rename_i hmore
      refine ⟨UInt8.le_trans hle h4.pending, ?_⟩
      intro hst
      -- the session is not terminal, so it is the counter that is not zero
      have hterm : ¬ isTerminal env s5 = true := by
        rw [isTerminal_iff, hst]
        exact nofun
      exact UInt8.pos_iff_ne_zero.mpr fun h0 => hmore ⟨h0, hterm⟩
  · exact h4

theorem onSubneg_nego {env : GameEnv} {n : UInt8} {s : Session} (ev : IacSbEvent)
    (h : NegoWithin n s) : NegoWithin n (onSubneg env s ev) := by
  unfold onSubneg
  split
  · exact dispatch_nego .naws _ nofun (h.of_eq rfl rfl)
  · exact h

theorem feedSession_nego {env : GameEnv} {n : UInt8} {s : Session} (raw : List UInt8)
    (h : NegoWithin n s) : NegoWithin n (feedSession env s raw) := by
  have hdata : ∀ (buf : List UInt8) (s : Session), NegoWithin n s → NegoWithin n (onData env s buf) := by
    intro buf
    induction buf with
    | nil => intro s h; exact h
    | cons b buf ih => intro s h; exact ih _ (onDataByte_nego b h)
  have hevents : ∀ (evs : List IacEvent) (s : Session), NegoWithin n s →
      NegoWithin n (evs.foldl (onIacEvent env) s) := by
    intro evs
    induction evs with
    | nil => intro s h; exact h
    | cons e evs ih =>
      intro s h
      apply ih
      cases e with
      | onData buf => exact hdata buf s h
      | onOption ev => exact onOption_nego ev h
      | onSubneg ev => exact onSubneg_nego ev h
  exact hevents _ _ (h.of_eq rfl rfl)

/-! ## §3. Runs. -/

theorem returnFrom_nego {n : UInt8} {r : TelnetRun} (h : NegoWithin n r.session) :
    NegoWithin n (returnFrom r).session := by
  unfold returnFrom
  dsimp only
  split <;> exact h.of_eq rfl rfl

/-- **Every step of a run** keeps the bound, and in NEGOTIATING a reply awaited. -/
theorem telnetRunStep_nego {env : GameEnv} {n : UInt8} {r r' : TelnetRun} {i : LoopInput}
    (h : NegoWithin n r.session) (hstep : telnetRunStep env r i = some r') :
    NegoWithin n r'.session := by
  unfold telnetRunStep at hstep
  cases hph : r.phase with
  | returned => simp [hph] at hstep
  | head =>
    cases i with
    | requestShutdown =>
      simp only [hph, Option.some.injEq] at hstep
      subst hstep
      exact h.of_eq rfl rfl
    | iterate now o =>
      simp only [hph] at hstep
      split at hstep
      · rw [← Option.some.inj hstep]
        exact returnFrom_nego h
      rw [← Option.some.inj hstep]
      cases o with
      | interrupted => exact h
      | failed => exact returnFrom_nego h
      | timeout =>
        simp only [afterPoll]
        split
        · exact negoDone_nego (UInt8.le_trans (UInt8.zero_le) h.pending)
        · exact dispatch_nego .timeout _ (fun hev => by cases hev) h
      | ready notify shutdownRaised sock =>
        simp only [afterPoll]
        have h' : NegoWithin n { r.session with
            shutdownRequested := r.session.shutdownRequested || shutdownRaised } := h.of_eq rfl rfl
        split
        · exact returnFrom_nego h'
        · cases sock with
          | none => exact h'
          | some recvd =>
            cases recvd with
            | gone => exact returnFrom_nego (dispatch_nego .disconnect _ (fun hev => by cases hev) h')
            | bytes b rest => exact feedSession_nego _ h'

theorem nego_of_reachable {env : GameEnv} {r : TelnetRun}
    (h : (telnetRunSession env).Reachable r) : NegoWithin 3 r.session := by
  refine TransitionSystem.ReachableVia.invariant (P := fun r => NegoWithin 3 r.session) ?_ ?_ h
  · rintro s ⟨now, rfl⟩
    have hl : fsmLookup (telnetFsmDef env) (telnetCreateSession env).fsm .connected
        = some ⟨.init, .connected, some actSendNegotiations, .negotiating, .closing⟩ := rfl
    show NegoWithin 3 (dispatch env (telnetCreateSession env) .connected .null)
    rw [dispatch_row hl]
    exact ⟨UInt8.le_refl 3, fun _ => (by decide : (0 : UInt8) < 3)⟩
  · intro s a s' hs hstep _
    exact telnetRunStep_nego hs hstep

/-! ## §4. Timeouts. -/

/-- An iteration of an open session polls. -/
theorem iterate_open {env : GameEnv} {r : TelnetRun} (hph : r.phase = .head)
    (hopen : r.session.fsm ≠ .closed) (hrun : r.session.shutdownRequested = false) (now : Int)
    (o : PollOutcome) :
    telnetRunStep env r (.iterate now o)
      = some (afterPoll env
          { r with timeoutMs := pollTimeoutMs r.session r.negoDeadline now } o) := by
  unfold telnetRunStep
  simp only [hph]
  rw [if_neg]
  rintro (h | h)
  · exact hopen ((isTerminal_iff env r.session).mp h)
  · rw [hrun] at h
    exact absurd h nofun

/-- A timeout with no reply awaited closes the session. -/
theorem timeout_closes {env : GameEnv} {r : TelnetRun} (hph : r.phase = .head)
    (hinv : HeadInv r.session) (hopen : r.session.fsm ≠ .closed)
    (hrun : r.session.shutdownRequested = false) (hzero : r.session.negoPending = 0)
    (hnego : r.session.fsm ≠ .negotiating) (now : Int) :
    ∃ r', telnetRunStep env r (.iterate now .timeout) = some r' ∧ r'.session.fsm = .closed := by
  have hst : r.session.fsm = .mainMenu ∨ r.session.fsm = .inGame := by
    rcases (loopHeadOk_of_inv hinv).state with h | h | h | h
    · exact absurd h hnego
    · exact Or.inl h
    · exact Or.inr h
    · exact absurd h hopen
  refine ⟨_, iterate_open hph hopen hrun now .timeout, ?_⟩
  show (afterPoll env _ .timeout).session.fsm = .closed
  simp only [afterPoll]
  rw [if_neg (by rw [hzero]; decide)]
  show (dispatch env r.session .timeout .null).fsm = .closed
  rw [dispatch_close _ (Or.inr ⟨rfl, hst⟩)]

/-- A timeout while replies are awaited gives up on them: the session is open, out
of NEGOTIATING, and awaits nothing. -/
theorem timeout_gives_up {env : GameEnv} {s : Session} (hopen : s.fsm ≠ .closed) :
    (dispatch env { s with negoPending := 0 } .negoDone .null).negoPending = 0
      ∧ (dispatch env { s with negoPending := 0 } .negoDone .null).fsm ≠ .negotiating
      ∧ (dispatch env { s with negoPending := 0 } .negoDone .null).fsm ≠ .closed
      ∧ (dispatch env { s with negoPending := 0 } .negoDone .null).shutdownRequested
          = s.shutdownRequested := by
  by_cases hst : s.fsm = .negotiating
  · rw [dispatch_showMenu (s := { s with negoPending := 0 }) _ (Or.inl ⟨hst, Or.inl rfl⟩)]
    exact ⟨rfl, nofun, nofun, rfl⟩
  · have hl : fsmLookup (telnetFsmDef env) s.fsm .negoDone = none := by
      cases hs : s.fsm <;> first | rfl | exact absurd hs hst
    rw [dispatch_ignored (s := { s with negoPending := 0 }) hl]
    exact ⟨rfl, hst, hopen, rfl⟩

/-- **An idle session is timed out.**  At every loop head of every run at which
the session is not CLOSED: in NEGOTIATING a reply is awaited; at most three are;
no step makes the count grow, so it never wraps; and unless the shutdown flag
ends the loop before the next `poll`, one timeout or two in a row close the
session. -/
theorem idle_session_closes (env : GameEnv) (r : TelnetRun)
    (h : (telnetRunSession env).Reachable r) (hph : r.phase = .head)
    (hopen : r.session.fsm ≠ .closed) :
    (r.session.fsm = .negotiating → 0 < r.session.negoPending)
      ∧ r.session.negoPending ≤ 3
      ∧ (∀ i r', (telnetRunSession env).step r i = some r' →
          r'.session.negoPending ≤ r.session.negoPending)
      ∧ ∀ now₁ now₂,
          (r.session.shutdownRequested = true
              ∧ (telnetRunSession env).step r (.iterate now₁ .timeout) = some (returnFrom r))
            ∨ ∃ r₁, (telnetRunSession env).step r (.iterate now₁ .timeout) = some r₁
                ∧ (r₁.session.fsm = .closed
                  ∨ ∃ r₂, (telnetRunSession env).step r₁ (.iterate now₂ .timeout) = some r₂
                      ∧ r₂.session.fsm = .closed) := by
  have hnego := nego_of_reachable h
  have hinv : HeadInv r.session := by
    have hrun := runInv_of_reachable env h
    simpa only [RunInv, hph] using hrun
  refine ⟨hnego.waits, hnego.pending, ?_, ?_⟩
  · intro i r' hstep
    have hself : NegoWithin r.session.negoPending r.session := ⟨UInt8.le_refl _, hnego.waits⟩
    exact (telnetRunStep_nego hself hstep).pending
  intro now₁ now₂
  cases hdown : r.session.shutdownRequested with
  | true =>
    refine Or.inl ⟨rfl, ?_⟩
    show telnetRunStep env r (.iterate now₁ .timeout) = some (returnFrom r)
    unfold telnetRunStep
    simp only [hph, hdown, or_true, if_true]
  | false =>
    right
    by_cases hzero : r.session.negoPending = 0
    · -- nothing is awaited, so the session is not in NEGOTIATING either
      have hst : r.session.fsm ≠ .negotiating := by
        intro hst
        have hpos := hnego.waits hst
        rw [hzero] at hpos
        exact absurd hpos (by decide)
      obtain ⟨r₁, hstep, hclosed⟩ := timeout_closes hph hinv hopen hdown hzero hst now₁
      exact ⟨r₁, hstep, Or.inl hclosed⟩
    · -- the first timeout ends the negotiation, the second closes
      obtain ⟨hzero', hst', hopen', hdown'⟩ := @timeout_gives_up env r.session hopen
      have hpos : 0 < r.session.negoPending := UInt8.pos_iff_ne_zero.mpr hzero
      have hstep := @iterate_open env r hph hopen hdown now₁ .timeout
      simp only [afterPoll, if_pos hpos] at hstep
      have hinv' := negoDone_inv env { r.session with negoPending := 0 }
        (headInv_of_eq hinv rfl rfl rfl rfl rfl rfl rfl rfl)
      refine ⟨_, hstep, Or.inr ?_⟩
      apply timeout_closes (by exact hph)
      · exact hinv'
      · exact hopen'
      · exact hdown'.trans hdown
      · exact hzero'
      · exact hst'

/-- A client that never says anything. -/
theorem idle_session_closes_silent :
    (telnetRunStart endlessGames 0).session.fsm = .negotiating
      ∧ ∃ r₁ r₂, (telnetRunSession endlessGames).step (telnetRunStart endlessGames 0)
            (.iterate 3 .timeout) = some r₁
          ∧ (telnetRunSession endlessGames).step r₁ (.iterate 303 .timeout) = some r₂
          ∧ r₁.session.fsm = .mainMenu ∧ r₂.session.fsm = .closed := by
  refine ⟨rfl, ?_⟩
  obtain ⟨-, -, -, htwo⟩ := idle_session_closes endlessGames (telnetRunStart endlessGames 0)
    (.init ⟨0, rfl⟩) rfl nofun
  rcases htwo 3 303 with ⟨hdown, -⟩ | ⟨r₁, hstep, hclose⟩
  · exact absurd hdown nofun
  have hmenu : r₁.session.fsm = .mainMenu := by
    have hfsm := congrArg (Option.map fun r : TelnetRun => r.session.fsm) hstep
    exact (Option.some.inj hfsm).symm
  rcases hclose with hclosed | ⟨r₂, hstep', hclosed⟩
  · rw [hmenu] at hclosed
    exact absurd hclosed nofun
  · exact ⟨r₁, r₂, hstep, hstep', hmenu, hclosed⟩

/-! ## §5. The deadline of the negotiation. -/

/-- The clock as a run has read it: for the deadline, and last. -/
structure ClockSeen where
  start : Int
  last : Int
  deriving Repr, DecidableEq

def clockStart (r : TelnetRun) : ClockSeen :=
  ⟨r.negoDeadline - telnetNegoTimeout, r.negoDeadline - telnetNegoTimeout⟩

def clockWatch (_ : TelnetRun) : LoopInput → ClockSeen → ClockSeen
  | .requestShutdown, c => c
  | .iterate now _, c => { c with last := now }

/-- A run with the clock readings it has made. -/
def timedSession (env : GameEnv) : TransitionSystem (TelnetRun × ClockSeen) LoopInput :=
  (telnetRunSession env).monitored clockStart clockWatch

/-- The clock does not go back. -/
def clockForward (p : TelnetRun × ClockSeen) (i : LoopInput) (_ : TelnetRun × ClockSeen) : Prop :=
  ∀ now o, i = .iterate now o → p.2.last ≤ now

/-- The deadline is three seconds after the first reading, or no reply is
awaited any more. -/
structure DeadlineInv (p : TelnetRun × ClockSeen) : Prop where
  ordered : p.2.start ≤ p.2.last
  deadline : p.1.negoDeadline = p.2.start + telnetNegoTimeout ∨ NegoWithin 0 p.1.session

@[simp] theorem returnFrom_timeoutMs (r : TelnetRun) : (returnFrom r).timeoutMs = r.timeoutMs := rfl

@[simp] theorem returnFrom_negoDeadline (r : TelnetRun) :
    (returnFrom r).negoDeadline = r.negoDeadline := rfl

/-- The timeout passed to `poll` is kept through the iteration. -/
theorem afterPoll_timeoutMs (env : GameEnv) (r : TelnetRun) (o : PollOutcome) :
    (afterPoll env r o).timeoutMs = r.timeoutMs := by
  cases o with
  | interrupted => rfl
  | failed => rfl
  | timeout =>
    unfold afterPoll
    split_ifs <;> rfl
  | ready notify shutdownRaised sock =>
    unfold afterPoll
    dsimp only
    split_ifs
    · rfl
    · split <;> rfl

/-- A step moves the deadline only when it gives up on the replies. -/
theorem telnetRunStep_deadline {env : GameEnv} {r r' : TelnetRun} {i : LoopInput}
    (hstep : telnetRunStep env r i = some r') :
    r'.negoDeadline = r.negoDeadline ∨ NegoWithin 0 r'.session := by
  unfold telnetRunStep at hstep
  cases hph : r.phase with
  | returned => simp [hph] at hstep
  | head =>
    cases i with
    | requestShutdown =>
      simp only [hph, Option.some.injEq] at hstep
      exact Or.inl (hstep ▸ rfl)
    | iterate now o =>
      simp only [hph] at hstep
      split at hstep
      · rw [← Option.some.inj hstep]
        exact Or.inl rfl
      rw [← Option.some.inj hstep]
      cases o with
      | interrupted => exact Or.inl rfl
      | failed => exact Or.inl rfl
      | timeout =>
        simp only [afterPoll]
        split
        · exact Or.inr (negoDone_nego (UInt8.le_refl 0))
        · exact Or.inl rfl
      | ready notify shutdownRaised sock =>
        left
        simp only [afterPoll]
        split
        · rfl
        · split <;> rfl

theorem deadlineInv_of_reachable {env : GameEnv} {p : TelnetRun × ClockSeen}
    (h : (timedSession env).ReachableVia clockForward p) : DeadlineInv p := by
  refine TransitionSystem.ReachableVia.invariant (P := DeadlineInv) ?_ ?_ h
  · intro p hp
    obtain ⟨-, hclock⟩ := hp
    rw [show p = (p.1, clockStart p.1) from Prod.ext rfl hclock]
    refine ⟨Int.le_refl _, Or.inl ?_⟩
    show p.1.negoDeadline = p.1.negoDeadline - telnetNegoTimeout + telnetNegoTimeout
    omega
  · intro p i p' hp hstep hok
    obtain ⟨hrun, hclock⟩ := TransitionSystem.monitored_step hstep
    have hrun : telnetRunStep env p.1 i = some p'.1 := hrun
    have hstart : p'.2.start = p.2.start := by
      rw [hclock]
      cases i <;> rfl
    refine ⟨?_, ?_⟩
    · rw [hstart, hclock]
      cases i with
      | requestShutdown => exact hp.ordered
      | iterate now o => exact Int.le_trans hp.ordered (hok now o rfl)
    · rw [hstart]
      rcases hp.deadline with hdl | hnone
      · rcases telnetRunStep_deadline hrun with hsame | hgave
        · exact Or.inl (hsame.trans hdl)
        · exact Or.inr hgave
      · exact Or.inr (telnetRunStep_nego hnone hrun)

/-- **The wait of a negotiation.**  Under a clock that does not go back, at every
`poll` a run makes in NEGOTIATING: the timeout is at most `TELNET_NEGO_TIMEOUT`
seconds exactly when that many have not yet passed since the deadline was set,
and then it ends at the deadline; afterwards it is the idle timeout.  A `poll`
that times out shows the main menu in both cases. -/
theorem negotiation_wait (env : GameEnv) (r : TelnetRun) (c : ClockSeen)
    (h : (timedSession env).ReachableVia clockForward (r, c)) (hph : r.phase = .head)
    (hst : r.session.fsm = .negotiating) (hrun : r.session.shutdownRequested = false)
    (now : Int) (hnow : c.last ≤ now) :
    (∀ o r', (telnetRunSession env).step r (.iterate now o) = some r' →
        (r'.timeoutMs ≤ telnetNegoTimeout * 1000 ↔ now < c.start + telnetNegoTimeout)
          ∧ (now < c.start + telnetNegoTimeout →
              now * 1000 + r'.timeoutMs = (c.start + telnetNegoTimeout) * 1000)
          ∧ (¬ now < c.start + telnetNegoTimeout → r'.timeoutMs = telnetIdleTimeout * 1000))
      ∧ ∃ r', (telnetRunSession env).step r (.iterate now .timeout) = some r'
          ∧ r'.session.fsm = .mainMenu := by
  have hpos := (nego_of_reachable (TransitionSystem.monitored_reachable h)).waits hst
  have hinv := deadlineInv_of_reachable h
  have hord : c.start ≤ c.last := hinv.ordered
  have hopen : r.session.fsm ≠ .closed := by
    rw [hst]
    exact nofun
  have hdl : r.negoDeadline = c.start + telnetNegoTimeout := by
    rcases hinv.deadline with hdl | hnone
    · exact hdl
    · -- in NEGOTIATING a reply is awaited
      exact absurd (hnone.waits hst) (UInt8.not_lt.mpr hnone.pending)
  have hpoll : pollTimeoutMs r.session r.negoDeadline now
      = if now < c.start + telnetNegoTimeout
          then (c.start + telnetNegoTimeout - now) * 1000 else telnetIdleTimeout * 1000 := by
    unfold pollTimeoutMs
    dsimp only
    rw [hdl]
    by_cases hlt : now < c.start + telnetNegoTimeout
    · rw [if_pos ⟨hpos, by omega⟩, if_pos hlt]
    · rw [if_neg (fun hc => hlt (by omega)), if_neg hlt]
  have hwait : telnetNegoTimeout = 3 := rfl
  have hidle : telnetIdleTimeout = 300 := rfl
  refine ⟨?_, ?_⟩
  · intro o r' hstep
    have hiter := @iterate_open env r hph hopen hrun now o
    have heq := Option.some.inj (hstep.symm.trans hiter)
    have hms : r'.timeoutMs = pollTimeoutMs r.session r.negoDeadline now := by
      rw [heq, afterPoll_timeoutMs]
    rw [hms, hpoll]
    by_cases hlt : now < c.start + telnetNegoTimeout
    · rw [if_pos hlt]
      refine ⟨⟨fun _ => hlt, fun _ => by omega⟩, fun _ => by omega, fun hge => absurd hlt hge⟩
    · rw [if_neg hlt]
      refine ⟨⟨fun hle => ?_, fun h => absurd h hlt⟩, fun h => absurd h hlt, fun _ => rfl⟩
      rw [hwait, hidle] at hle
      exact absurd hle (by decide)
  · refine ⟨_, iterate_open hph hopen hrun now .timeout, ?_⟩
    simp only [afterPoll]
    rw [if_pos hpos]
    show (dispatch env { r.session with negoPending := 0 } .negoDone .null).fsm = .mainMenu
    rw [dispatch_showMenu (s := { r.session with negoPending := 0 }) _
      (Or.inl ⟨hst, Or.inl rfl⟩)]

/-- A client that has answered one of the three offers and falls silent in the
third second. -/
theorem negotiation_wait_partial :
    ∃ r, (telnetRunSession endlessGames).step (telnetRunStart endlessGames 0)
          (.iterate 1 (.ready false false (some (.bytes 255 [253, 1])))) = some r
      ∧ r.session.fsm = .negotiating
      ∧ ∃ r', (telnetRunSession endlessGames).step r (.iterate 2 .timeout) = some r'
          ∧ r'.timeoutMs = 1000 ∧ r'.session.fsm = .mainMenu := by
  obtain ⟨p, hrun, hcheck⟩ := @TransitionSystem.exists_of_run _ _ (timedSession endlessGames)
    (telnetRunStart endlessGames 0, ⟨0, 0⟩)
    [.iterate 1 (.ready false false (some (.bytes 255 [253, 1])))]
    (fun p : TelnetRun × ClockSeen => decide (p.1.session.fsm = .negotiating
      ∧ p.1.phase = .head ∧ p.1.session.shutdownRequested = false ∧ p.2 = ⟨0, 1⟩))
    (by decide +kernel)
  rw [TransitionSystem.run_cons, Option.bind_eq_some_iff] at hrun
  obtain ⟨p₁, hstep, heq⟩ := hrun
  obtain rfl : p₁ = p := Option.some.inj heq
  obtain ⟨hst, hph, hflag, hclock⟩ := of_decide_eq_true hcheck
  obtain ⟨r, c⟩ := p₁
  obtain rfl : c = ⟨0, 1⟩ := hclock
  have hreach : (timedSession endlessGames).ReachableVia clockForward (r, ⟨0, 1⟩) := by
    refine .step (.init ⟨⟨0, rfl⟩, rfl⟩) hstep ?_
    intro now o ho
    cases ho
    decide
  obtain ⟨hwait, r', hstep', hmenu⟩ := negotiation_wait endlessGames r ⟨0, 1⟩ hreach hph hst hflag
    2 (by decide)
  obtain ⟨-, hend, -⟩ := hwait _ r' hstep'
  have hms : 2 * 1000 + r'.timeoutMs = (0 + 3) * 1000 := hend (by decide)
  exact ⟨r, (TransitionSystem.monitored_step hstep).1, hst, r', hstep', by omega, hmenu⟩

/-- One stray IAC in the third second, and nothing after it: the next `poll`
waits five minutes, in NEGOTIATING. -/
theorem negotiation_wait_idle :
    ∃ r r', (telnetRunSession endlessGames).step (telnetRunStart endlessGames 0)
          (.iterate 0 (.ready false false (some (.bytes 255 [])))) = some r
      ∧ r.session.fsm = .negotiating
      ∧ (telnetRunSession endlessGames).step r (.iterate 3 .timeout) = some r'
      ∧ r'.timeoutMs = 300 * 1000 ∧ telnetNegoTimeout * 1000 < r'.timeoutMs :=
  ⟨_, _, rfl, rfl, rfl, rfl, by decide⟩

end NetServer.Telnet
