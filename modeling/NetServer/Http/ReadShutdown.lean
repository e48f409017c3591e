/-
  NetServer.Http.ReadShutdown — `read_request` while `http_shutdown_all` runs.

  A connection that is still reading its request is a round of `poll` and
  `recv` after another; the shutdown code may come at any point of it.  The
  `poll` of `read_request` waits for the socket alone, and the loop does not look
  at `shutdown_requested`, so what the shutdown code does reaches the thread only
  when the round it comes in is the last.

  Main results:
    • `readConn_quiet` — as long as that is so, no `poll` begins after a shutdown;
    • `read_polls_wakeable` — and the first step for which it is not so is
      followed by a `poll` that the notify byte cannot end.
-/
import NetServer.Http.Session
import NetServer.Lib.TransitionSystem

namespace NetServer.Http

open NetServer.Lib
open NetServer.Lib.TransitionSystem

/-! ## §1. The connection. -/

/-- What a `poll` can wait for. -/
inductive PollFd where
  | sock
  | notifyPipe
  deriving Repr, DecidableEq

/-- A `poll` that was started: its set, and whether the shutdown code had been at
the connection. -/
structure Poll where
  fds : List PollFd
  afterShutdown : Bool
  deriving Repr, DecidableEq

/-- Where the thread is in `read_request`. -/
inductive ReadPc where
  /-- At the top of the loop. -/
  | top
  /-- In `poll`, or in the `recv` behind it. -/
  | round
  /-- Returned. -/
  | returned (total : Int)
  deriving Repr, DecidableEq

/-- A connection in `read_request`.  `polls` is not in the source: it records the
calls of `poll`. -/
structure ReadConn where
  pc : ReadPc
  st : ReadState
  shutdownRequested : Bool
  notifyBytes : Nat
  polls : List Poll
  deriving Repr, DecidableEq

inductive ReadAct where
  /-- The thread calls `poll`. -/
  | startPoll
  /-- The round ends. -/
  | outcome (o : RecvOutcome)
  /-- `http_shutdown_all` is at the connection: the flag and the byte.  The thread
  reads neither, so the two statements are one step. -/
  | shutdown
  deriving Repr, DecidableEq

/-- The set of `read_request`'s `poll`. -/
def readPollFds : List PollFd := [.sock]

def readConnStep (bufsz : Nat) (c : ReadConn) : ReadAct → Option ReadConn
  | .startPoll =>
      if c.pc = .top then
        some { c with
          pc := .round
          polls := c.polls ++ [{ fds := readPollFds, afterShutdown := c.shutdownRequested }] }
      else none
  | .outcome o =>
      if c.pc = .round then
        match readRequestStep bufsz c.st o with
        | (st, none) => some { c with pc := .top, st := st }
        | (st, some total) => some { c with pc := .returned total, st := st }
      else none
  | .shutdown =>
      if c.shutdownRequested then none
      else some { c with shutdownRequested := true, notifyBytes := c.notifyBytes + 1 }

/-- On entry of `read_request`, with whatever was in its buffer. -/
def readConnStart (buf : List UInt8) : ReadConn :=
  { pc := .top, st := readRequestStart buf, shutdownRequested := false, notifyBytes := 0,
    polls := [] }

def readSystem (bufsz : Nat) : TransitionSystem ReadConn ReadAct where
  init := fun c => ∃ buf, c = readConnStart buf
  step := readConnStep bufsz

/-- Every `poll` started after the shutdown has the notify pipe in its set. -/
def PollsWakeable (c : ReadConn) : Prop :=
  ∀ poll ∈ c.polls, poll.afterShutdown = true → .notifyPipe ∈ poll.fds

/-! ## §2. The last round. -/

/-- The outcome ends the reading: an error, a timeout or the end of the stream,
or bytes that make the received ones a complete request, a malformed one or as
many as the buffer holds. -/
def Last (bufsz : Nat) (st : ReadState) : RecvOutcome → Prop
  | .pollIntr | .recvIntr => False
  | .pollError | .pollTimeout | .recvError | .recvClosed => True
  | .recvd bytes =>
      let bytes := bytes.take (bufsz - st.filled)
      bytes = [] ∨ bufsz ≤ st.filled + bytes.length
        ∨ (httpParseRequest (st.fill bytes).buf (st.filled + bytes.length) st.req).1 ≠ 0

theorem afterRecv_none_iff {bufsz : Nat} {st : ReadState} :
    (afterRecv bufsz st).2 = none
      ↔ (httpParseRequest st.buf st.filled st.req).1 = 0 ∧ ¬ bufsz ≤ st.filled := by
  unfold afterRecv
  generalize httpParseRequest st.buf st.filled st.req = r
  obtain ⟨total, req⟩ := r
  dsimp only
  by_cases hpos : total > 0
  · rw [if_pos hpos]
    exact iff_of_false nofun (fun h => by omega)
  by_cases hneg : total < 0
  · rw [if_neg hpos, if_pos hneg]
    exact iff_of_false nofun (fun h => by omega)
  rw [if_neg hpos, if_neg hneg]
  by_cases hfull : bufsz ≤ st.filled
  · rw [if_pos hfull]
    exact iff_of_false nofun (fun h => h.2 hfull)
  · rw [if_neg hfull]
    exact iff_of_true rfl ⟨by omega, hfull⟩

/-- The loop goes on exactly when the round was not the last. -/
theorem readRequestStep_none_iff {bufsz : Nat} {st : ReadState} {o : RecvOutcome} :
    (readRequestStep bufsz st o).2 = none ↔ ¬ Last bufsz st o := by
  cases o with
  | pollIntr => exact iff_of_true rfl id
  | recvIntr => exact iff_of_true rfl id
  | pollError => exact iff_of_false nofun (not_not_intro trivial)
  | pollTimeout => exact iff_of_false nofun (not_not_intro trivial)
  | recvError => exact iff_of_false nofun (not_not_intro trivial)
  | recvClosed => exact iff_of_false nofun (not_not_intro trivial)
  | recvd bytes =>
    unfold readRequestStep Last
    dsimp only
    cases hbytes : bytes.take (bufsz - st.filled) with
    | nil => exact iff_of_false nofun (not_not_intro (Or.inl rfl))
    | cons b bs =>
      dsimp only
      rw [afterRecv_none_iff]
      show (httpParseRequest (st.fill (b :: bs)).buf (st.filled + (b :: bs).length) st.req).1 = 0
        ∧ ¬ bufsz ≤ st.filled + (b :: bs).length ↔ _
      constructor
      · rintro ⟨hparse, hroom⟩ (hnil | hfull | hdone)
        · cases hnil
        · exact hroom hfull
        · exact hdone hparse
      · intro hno
        refine ⟨?_, fun hfull => hno (Or.inr (Or.inl hfull))⟩
        by_contra hdone
        exact hno (Or.inr (Or.inr hdone))

/-! ## §3. Shutdown in the last round. -/

/-- The shutdown code comes in a round or after the return, and a round that it
has come in is the last. -/
def InLastRound (bufsz : Nat) (c : ReadConn) : ReadAct → Prop
  | .startPoll => True
  | .outcome o => c.shutdownRequested = true → Last bufsz c.st o
  | .shutdown => c.pc ≠ .top

/-- What a step does to the place in the loop, the flag and the recorded calls. -/
inductive ReadStepped (bufsz : Nat) (c c' : ReadConn) : ReadAct → Prop where
  | startPoll : c.pc = .top → c'.pc = .round → c'.shutdownRequested = c.shutdownRequested →
      c'.polls = c.polls ++ [⟨readPollFds, c.shutdownRequested⟩] → ReadStepped bufsz c c' .startPoll
  | again {o : RecvOutcome} : ¬ Last bufsz c.st o → c'.pc = .top →
      c'.shutdownRequested = c.shutdownRequested → c'.polls = c.polls →
      ReadStepped bufsz c c' (.outcome o)
  | returns {o : RecvOutcome} : Last bufsz c.st o → c'.pc ≠ .top →
      c'.shutdownRequested = c.shutdownRequested → c'.polls = c.polls →
      ReadStepped bufsz c c' (.outcome o)
  | shutdown : c'.pc = c.pc → c'.shutdownRequested = true → c'.polls = c.polls →
      ReadStepped bufsz c c' .shutdown

theorem readConnStep_stepped {bufsz : Nat} {c c' : ReadConn} {a : ReadAct}
    (h : readConnStep bufsz c a = some c') : ReadStepped bufsz c c' a := by
  cases a with
  | startPoll =>
    obtain ⟨hpc, heq⟩ := Option.ite_none_right_eq_some.mp h
    cases heq
    exact .startPoll hpc rfl rfl rfl
  | outcome o =>
    obtain ⟨-, heq⟩ := Option.ite_none_right_eq_some.mp h
    have hlast := @readRequestStep_none_iff bufsz c.st o
    revert heq hlast
    generalize readRequestStep bufsz c.st o = r
    obtain ⟨st, res⟩ := r
    cases res with
    | none =>
      intro heq hlast
      cases heq
      exact .again (hlast.mp rfl) rfl rfl rfl
    | some total =>
      intro heq hlast
      cases heq
      refine .returns ?_ nofun rfl rfl
      by_contra hno
      exact absurd (hlast.mpr hno) nofun
  | shutdown =>
    obtain ⟨-, heq⟩ := Option.ite_none_left_eq_some.mp h
    cases heq
    exact .shutdown rfl rfl rfl

/-- **No `poll` begins after the shutdown**, as long as it comes in the last
round. -/
theorem readConn_quiet {bufsz : Nat} {c : ReadConn}
    (h : (readSystem bufsz).ReachableVia (fun c a _ => InLastRound bufsz c a) c) :
    (c.pc = .top → c.shutdownRequested = false) ∧ ∀ poll ∈ c.polls, poll.afterShutdown = false := by
  refine ReachableVia.invariant (P := fun c => (c.pc = .top → c.shutdownRequested = false)
    ∧ ∀ poll ∈ c.polls, poll.afterShutdown = false) ?_ ?_ h
  · rintro c ⟨buf, rfl⟩
    exact ⟨fun _ => rfl, nofun⟩
  · rintro c a c' ⟨htop, hpolls⟩ hstep hok
    cases readConnStep_stepped hstep with
    | startPoll hpc hpc' hflag hcalls =>
      refine ⟨fun htop' => absurd (hpc'.symm.trans htop') nofun, ?_⟩
      intro poll hpoll
      rw [hcalls] at hpoll
      rcases List.mem_append.mp hpoll with hold | hnew
      · exact hpolls poll hold
      · rw [List.mem_singleton.mp hnew]
        exact htop hpc
    | again hlast hpc' hflag hcalls =>
      refine ⟨fun _ => ?_, by rw [hcalls]; exact hpolls⟩
      -- the flag would make it the last round
      rw [hflag, ← Bool.not_eq_true]
      exact fun hset => hlast (hok hset)
    | returns hlast hpc' hflag hcalls =>
      exact ⟨fun htop' => absurd htop' hpc', by rw [hcalls]; exact hpolls⟩
    | shutdown hpc' hflag hcalls =>
      exact ⟨fun htop' => absurd (hpc'.symm.trans htop') hok, by rw [hcalls]; exact hpolls⟩

/-- **When shutdown reaches a connection that reads its request.**  In every run
in which the shutdown code comes in the last round, every `poll` begun after it
can be ended by the notify byte, because there is none; and from every reachable
state a step that is not so leads to a `poll` that cannot. -/
theorem read_polls_wakeable (bufsz : Nat) :
    (∀ c, (readSystem bufsz).ReachableVia (fun c a _ => InLastRound bufsz c a) c → PollsWakeable c)
    ∧ ∀ c a c', (readSystem bufsz).Reachable c → (readSystem bufsz).step c a = some c' →
      ¬ InLastRound bufsz c a →
        ∃ c'', (readSystem bufsz).step c' .startPoll = some c'' ∧ ¬ PollsWakeable c'' := by
  constructor
  · intro c hc poll hpoll hset
    rw [(readConn_quiet hc).2 poll hpoll] at hset
    cases hset
  · intro c a c' _ hstep hno
    have hblind : c'.pc = .top → c'.shutdownRequested = true →
        ∃ c'', (readSystem bufsz).step c' .startPoll = some c'' ∧ ¬ PollsWakeable c'' := by
      intro hpc hflag
      refine ⟨_, if_pos hpc, fun hall => ?_⟩
      have hbad := hall _ (List.mem_append_right _ (List.mem_singleton_self _)) hflag
      exact absurd hbad (show PollFd.notifyPipe ∉ readPollFds by decide)
    cases readConnStep_stepped hstep with
    | startPoll hpc hpc' hflag hcalls => exact absurd trivial hno
    | again hlast hpc' hflag hcalls =>
      have hset : c.shutdownRequested = true := by
        by_contra hoff
        exact hno fun hset => absurd hset hoff
      exact hblind hpc' (hflag.trans hset)
    | returns hlast hpc' hflag hcalls => exact absurd (fun _ => hlast) hno
    | shutdown hpc' hflag hcalls => exact hblind (hpc'.trans (not_not.mp hno)) hflag

/-- A client that goes quiet in the round of the shutdown: the timeout ends it. -/
theorem read_polls_wakeable_quiet :
    ∃ c, (readSystem httpRecvMax).run (readConnStart [])
        [.startPoll, .shutdown, .outcome .pollTimeout] = some c
      ∧ c.pc = .returned (-1) ∧ PollsWakeable c := by
  obtain ⟨c1, h1⟩ : ∃ c1, (readSystem httpRecvMax).step (readConnStart []) .startPoll = some c1 :=
    ⟨_, rfl⟩
  obtain ⟨c2, h2⟩ : ∃ c2, (readSystem httpRecvMax).step c1 .shutdown = some c2 := by
    cases h1
    exact ⟨_, rfl⟩
  obtain ⟨c3, h3⟩ : ∃ c3, (readSystem httpRecvMax).step c2 (.outcome .pollTimeout) = some c3 := by
    cases h1
    cases h2
    exact ⟨_, rfl⟩
  have hround : c1.pc ≠ .top := by
    cases h1
    exact nofun
  have hreach : (readSystem httpRecvMax).ReachableVia
      (fun c a _ => InLastRound httpRecvMax c a) c3 :=
    .step (.step (.step (.init ⟨[], rfl⟩) h1 trivial) h2 hround) h3 fun _ => trivial
  refine ⟨c3, ?_, ?_, (read_polls_wakeable httpRecvMax).1 c3 hreach⟩
  · rw [run_cons, h1, Option.bind_some, run_cons, h2, Option.bind_some, run_cons, h3]
    rfl
  · cases h1
    cases h2
    cases h3
    rfl

/-- **A client that goes on sending.**  The shutdown comes in its first round; the
first byte of a request follows, and the thread waits for the socket again. -/
theorem read_polls_blind :
    ∃ c, (readSystem httpRecvMax).run (readConnStart [])
        [.startPoll, .shutdown, .outcome (.recvd (ascii "G")), .startPoll] = some c
      ∧ ¬ PollsWakeable c := by
  obtain ⟨c, hrun, hcheck⟩ := @exists_of_run _ _ (readSystem httpRecvMax) (readConnStart [])
    [.startPoll, .shutdown, .outcome (.recvd (ascii "G")), .startPoll]
    (fun c => c.polls.contains ⟨[.sock], true⟩) (by decide +kernel)
  refine ⟨c, hrun, fun hall => ?_⟩
  have hbad := hall _ (List.contains_iff_mem.mp hcheck) rfl
  exact absurd hbad (by decide)

end NetServer.Http
