/-
  NetServer.Core.AcceptLoop — `server_run` serves every listener, and ends when it is told to.

  A monitor (`Watch`) follows the accept loop: the steps, the calls of `select` and the
  calls of `accept` that the main thread makes while `s_shutdown` is set, and, for the
  round it is in, the descriptors that `select` reported and those that `accept` was
  called with.

  How much is left of the loop once the flag is set is a rank of the program point
  (`stepsLeft`, `selectsLeft`, `acceptsLeft`): every step of the main thread lowers it
  (`loop_lowers`), nobody else raises it, and from every point it is at most one `select`
  and one round of `accept`.

    • `serve_enabled` — a connection at the accept loop can always go on;
    • `loop_lowers`   — a step of `server_run` with the flag set;
    • `watch_step`    — a step of anybody;
    • `loop_leaves`   — the result.
-/
import NetServer.Core.Startup

namespace NetServer.Core.Main

open NetServer.Lib

/-! ## §1. The monitor. -/

structure Watch where
  /-- Made with `s_shutdown` set. -/
  steps : Nat
  selects : Nat
  accepts : Nat
  /-- `select` has failed, and not with EINTR. -/
  failed : Bool
  /-- What the last `select` left in `rfds`. -/
  round : List Nat
  /-- What `accept` has been called with since. -/
  calls : List Nat
  deriving Repr, DecidableEq

namespace Watch

def start : Watch := ⟨0, 0, 0, false, [], []⟩

/-- A step of `server_run`. -/
def loop (w : Watch) (s : Proc) (out : Outcome) : LoopPc → Watch
  | .select =>
      { w with
        steps := w.steps + s.shutdown.toNat
        selects := w.selects + s.shutdown.toNat
        failed := w.failed || (!out.eintr && !out.ok)
        round := if !out.eintr && out.ok then Proc.selected s.listeners out.ready else []
        calls := [] }
  | .each i ready =>
      match (s.listeners.map Listener.listenFd)[i]? with
      | some fd =>
          if fd ∈ ready then
            { w with
              steps := w.steps + s.shutdown.toNat
              accepts := w.accepts + s.shutdown.toNat
              calls := w.calls ++ [fd] }
          else { w with steps := w.steps + s.shutdown.toNat }
      | none => { w with steps := w.steps + s.shutdown.toNat }
  | _ => { w with steps := w.steps + s.shutdown.toNat }

def watch (s : Proc) (act : Act) (w : Watch) : Watch :=
  match act with
  | .main out =>
      match s.phase with
      | .loop pc => w.loop s out pc
      | _ => w
  | _ => w

end Watch

def watchedSystem (users : Users) (opts : List Opt) : TransitionSystem (Proc × Watch) Act :=
  (mainSystem users opts).monitored (fun _ => .start) Watch.watch

/-! ## §2. A connection at the accept loop. -/

/-- How many steps the accept loop has to make with a connection, at most. -/
def left : ConnPc → Nat
  | .accepted => 8
  | .made => 7
  | .reserved => 6
  | .wrapped => 5
  | .unstarted => 4
  | .unwrapped | .unposted => 3
  | .rejecting => 2
  | .unmade | .dropping => 1
  | _ => 0

theorem left_le (pc : ConnPc) : left pc ≤ 8 := by
  cases pc <;> decide

theorem left_eq_zero {pc : ConnPc} (h : pc.onMain = false) : left pc = 0 := by
  cases pc <;> first
    | rfl
    | cases h

theorem serverRun_lowers {ok : Bool} {pc pc' : ConnPc} {op : Op Res}
    (h : serverRun ok pc = some (op, pc')) : left pc' + 1 ≤ left pc := by
  cases pc <;> cases ok <;> cases h <;> decide

/-- The same for the connection that the main thread is at. -/
def servingLeft (srv : Srv) : Nat :=
  match srv.main with
  | .serve x => (srv.conns[x]?).elim 0 fun c => left c.pc
  | _ => 0

theorem servingLeft_le (srv : Srv) : servingLeft srv ≤ 8 := by
  unfold servingLeft
  split
  · rename_i x hmain
    cases srv.conns[x]? with
    | none => exact Nat.zero_le _
    | some c => exact left_le c.pc
  · exact Nat.zero_le _

section Serving

variable {maxConn : UInt32} {srv srv' : Srv}

theorem serve_lowers {ok : Bool} (h : srv.step maxConn (.serve ok) = some srv') :
    servingLeft srv' + 1 ≤ servingLeft srv := by
  unfold Srv.step at h
  dsimp only at h
  split at h
  · rename_i x hmain
    unfold Srv.serve at h
    split at h
    · cases h
    · rename_i c hc
      obtain ⟨⟨op, pc'⟩, hrun, heq⟩ := Option.map_eq_some_iff.mp h
      have hlow := serverRun_lowers hrun
      have hhere : servingLeft srv = left c.pc := by
        unfold servingLeft
        rw [hmain]
        dsimp only
        rw [hc]
        rfl
      have hnext : servingLeft srv' ≤ left pc' := by
        unfold servingLeft
        rw [← heq]
        dsimp only
        by_cases hon : pc'.onMain = true
        · rw [if_pos hon]
          show ((srv.move .acceptLoop x c op pc').conns[x]?).elim 0 _ ≤ _
          unfold Srv.move
          dsimp only
          rw [perform_frame.1, List.getElem?_set_self (List.getElem?_eq_some_iff.mp hc).1]
          exact Nat.le_refl _
        · rw [if_neg hon]
          exact Nat.zero_le _
      omega
  · cases h

theorem accept_left {fd : Nat} (h : srv.step maxConn (.accept fd) = some srv') :
    servingLeft srv' = 8 := by
  cases srv_step h with
  | accept fd hmain hfree =>
    show ((srv.conns ++ [_])[srv.conns.length]?).elim 0 _ = 8
    rw [List.getElem?_concat_length]
    rfl

/-- Nobody else makes it more. -/
theorem beside_left {act : SrvAct} (h : srv.step maxConn act = some srv')
    (hact : beside act = true) : servingLeft srv' ≤ servingLeft srv := by
  cases srv_step h with
  | thread ok x c op pc' hc hm hslot hon =>
    obtain ⟨hconns, hmain, -⟩ := @perform_frame srv (.thread x) x c.fd op
    unfold servingLeft
    show (match (srv.perform (.thread x) x c.fd op).main with
      | .serve y => (((srv.perform (.thread x) x c.fd op).conns.set x _)[y]?).elim 0 fun c => left c.pc
      | _ => 0) ≤ _
    rw [hconns, hmain]
    split
    · rename_i y hy
      by_cases hxy : x = y
      · subst hxy
        rw [List.getElem?_set_self (List.getElem?_eq_some_iff.mp hc).1]
        show left pc' ≤ _
        rw [left_eq_zero hon]
        exact Nat.zero_le _
      · rw [List.getElem?_set_ne hxy]
    · exact Nat.le_refl _
  | openFd fd hfree => exact Nat.le_refl _
  | closeFd fd hother => exact Nat.le_refl _
  | _ => cases hact

/-- The main thread is at a connection that is still its own. -/
def ServesOwn (srv : Srv) : Prop :=
  ∀ x, srv.main = .serve x → ∃ c, srv.conns[x]? = some c ∧ c.pc.onMain = true

theorem servesOwn_step {act : SrvAct} (hown : ServesOwn srv)
    (h : srv.step maxConn act = some srv') : ServesOwn srv' := by
  have hthread : ∀ {x : Nat} {ok : Bool}, act = .thread x ok →
      ∃ c, srv.conns[x]? = some c ∧ c.pc.onMain = false := by
    intro x ok hact
    subst hact
    change srv.thread x ok = some srv' at h
    unfold Srv.thread at h
    split at h
    · cases h
    · rename_i c hc
      obtain ⟨⟨op, pc'⟩, hrun, -⟩ := Option.map_eq_some_iff.mp h
      exact ⟨c, hc, (threadEntry_onMain hrun).1⟩
  cases srv_step h with
  | accept fd hmain hfree =>
    intro x hx
    have heq : srv.conns.length = x := MainPc.serve.inj hx
    subst heq
    exact ⟨⟨fd, .accepted⟩, List.getElem?_concat_length, rfl⟩
  | serve ok x c op pc' hmain hc hm hslot =>
    intro y hy
    change (if pc'.onMain then MainPc.serve x else .accept) = .serve y at hy
    by_cases hon : pc'.onMain = true
    · rw [if_pos hon] at hy
      cases hy
      refine ⟨{ c with pc := pc' }, ?_, hon⟩
      show ((srv.perform .acceptLoop x c.fd op).conns.set x _)[x]? = _
      rw [perform_frame.1, List.getElem?_set_self (List.getElem?_eq_some_iff.mp hc).1]
    · rw [if_neg hon] at hy
      cases hy
  | thread ok x c op pc' hc hm hslot hon =>
    intro y hy
    change (srv.perform (.thread x) x c.fd op).main = .serve y at hy
    rw [perform_frame.2.1] at hy
    obtain ⟨d, hd, hond⟩ := hown y hy
    -- a thread's connection is not the accept loop's
    have hxy : x ≠ y := by
      rintro rfl
      obtain ⟨c', hc', hoff⟩ := hthread rfl
      rw [hd] at hc'
      cases hc'
      rw [hond] at hoff
      cases hoff
    refine ⟨d, ?_, hond⟩
    show ((srv.perform (.thread x) x c.fd op).conns.set x _)[y]? = _
    rw [perform_frame.1, List.getElem?_set_ne hxy]
    exact hd
  | stop hmain => exact nofun
  | wait i hmain hi hslots => exact nofun
  | leave i hmain hi => exact nofun
  | interrupt i hmain => exact nofun
  | openFd fd hfree => exact hown
  | closeFd fd hother => exact hown

theorem serverRun_enabled {pc : ConnPc} (h : pc.onMain = true) (ok : Bool) :
    ∃ next, serverRun ok pc = some next := by
  cases pc <;> first
    | exact ⟨_, rfl⟩
    | cases h

/-- A connection at the accept loop can always go on. -/
theorem serve_enabled (hreach : (connectorSystem maxConn).Reachable srv) {x : Nat}
    (hmain : srv.main = .serve x) (ok : Bool) : ∃ srv', srv.step maxConn (.serve ok) = some srv' := by
  have hown : ServesOwn srv := by
    refine hreach.invariant ?_ ?_
    · rintro s rfl
      exact nofun
    · intro s act s' hown hstep _
      exact servesOwn_step hown hstep
  obtain ⟨c, hc, hon⟩ := hown x hmain
  obtain ⟨next, hnext⟩ := serverRun_enabled hon (if c.pc = .made then decide (0 < srv.slots) else ok)
  unfold Srv.step
  dsimp only
  rw [hmain]
  dsimp only
  unfold Srv.serve
  rw [hc]
  dsimp only
  rw [hnext]
  exact ⟨_, rfl⟩

end Serving

/-! ## §3. What is left of the loop. -/

namespace Proc

/-- The steps of the main thread until `server_run` returns, once the flag is set. -/
def stepsLeft (s : Proc) : Nat :=
  match s.phase with
  | .loop .top => 1
  | .loop .reloading => 2
  | .loop .select => 9 * s.listeners.length + 3
  | .loop (.each i _) => 9 * (s.listeners.length - i) + 2
  | .loop (.serving i _) => servingLeft s.srv + 9 * (s.listeners.length - (i + 1)) + 2
  | _ => 0

def selectsLeft (s : Proc) : Nat :=
  match s.phase with
  | .loop .select => 1
  | _ => 0

def acceptsLeft (s : Proc) : Nat :=
  match s.phase with
  | .loop .select => s.listeners.length
  | .loop (.each i _) => s.listeners.length - i
  | .loop (.serving i _) => s.listeners.length - (i + 1)
  | _ => 0

/-- How many listeners this round is through with. -/
def position (s : Proc) : Nat :=
  match s.phase with
  | .loop (.each i _) => i
  | .loop (.serving i _) => i + 1
  | _ => s.listeners.length

theorem stepsLeft_le (s : Proc) (h : s.listeners ≠ []) :
    s.stepsLeft ≤ 9 * s.listeners.length + 3 := by
  have hpos : 0 < s.listeners.length := List.length_pos_iff.mpr h
  have hserving := servingLeft_le s.srv
  unfold stepsLeft
  split <;> omega

theorem selectsLeft_le (s : Proc) : s.selectsLeft ≤ 1 := by
  unfold selectsLeft
  split <;> omega

theorem acceptsLeft_le (s : Proc) : s.acceptsLeft ≤ s.listeners.length := by
  unfold acceptsLeft
  split <;> omega

end Proc

/-- What a step counts and what is left behind it. -/
structure Lowers (s s' : Proc) (w w' : Watch) : Prop where
  steps : w'.steps + s'.stepsLeft ≤ w.steps + s.stepsLeft
  selects : w'.selects + s'.selectsLeft ≤ w.selects + s.selectsLeft
  accepts : w'.accepts + s'.acceptsLeft ≤ w.accepts + s.acceptsLeft

theorem loop_steps (w : Watch) (s : Proc) (out : Outcome) (pc : LoopPc) :
    (w.loop s out pc).steps = w.steps + s.shutdown.toNat := by
  unfold Watch.loop
  split
  · rfl
  · split
    · split <;> rfl
    · rfl
  · rfl

theorem loop_each (w : Watch) {s : Proc} (out : Outcome) {i : Nat} (ready : List Nat) {l : Listener}
    (hl : s.listeners[i]? = some l) :
    w.loop s out (.each i ready) = if l.listenFd ∈ ready then
      { w with
        steps := w.steps + s.shutdown.toNat
        accepts := w.accepts + s.shutdown.toNat
        calls := w.calls ++ [l.listenFd] }
      else { w with steps := w.steps + s.shutdown.toNat } := by
  show (match (s.listeners.map Listener.listenFd)[i]? with
    | some fd => _
    | none => _) = _
  rw [List.getElem?_map, hl]
  rfl

theorem loop_each_accepts (w : Watch) {s : Proc} (out : Outcome) {i : Nat} (ready : List Nat)
    {l : Listener} (hl : s.listeners[i]? = some l) (hshut : s.shutdown = true) :
    (w.loop s out (.each i ready)).accepts ≤ w.accepts + 1
      ∧ (w.loop s out (.each i ready)).selects = w.selects := by
  rw [loop_each w out ready hl, hshut]
  split
  · exact ⟨Nat.le_refl _, rfl⟩
  · exact ⟨Nat.le_succ _, rfl⟩

theorem loop_round (w : Watch) {s : Proc} (out : Outcome) {i : Nat} (ready : List Nat)
    (hl : s.listeners[i]? = none) :
    w.loop s out (.each i ready) = { w with steps := w.steps + s.shutdown.toNat } := by
  show (match (s.listeners.map Listener.listenFd)[i]? with
    | some fd => _
    | none => _) = _
  rw [List.getElem?_map, hl]
  rfl

/-- **A step of `server_run` with the flag set** lowers what is left. -/
theorem loop_lowers {s s' : Proc} {out : Outcome} {pc : LoopPc} (hphase : s.phase = .loop pc)
    (hshut : s.shutdown = true) (h : LoopStep s out pc s') (w : Watch) :
    Lowers s s' w (w.loop s out pc) := by
  have hsteps : (w.loop s out pc).steps = w.steps + 1 := by
    rw [loop_steps, hshut]
    rfl
  have hselect : (w.loop s out .select).selects = w.selects + 1
      ∧ (w.loop s out .select).accepts = w.accepts := by
    refine ⟨?_, rfl⟩
    show w.selects + s.shutdown.toNat = w.selects + 1
    rw [hshut]
    rfl
  -- the rank before and behind the step, as far as the case tells it
  cases h with
  | leave _ =>
    constructor <;>
      simp only [Proc.stepsLeft, Proc.selectsLeft, Proc.acceptsLeft, Proc.goto, hphase,
        Watch.loop, hshut, Bool.toNat_true] <;>
      omega
  | poll hnot => exact absurd (hshut.symm.trans hnot) Bool.noConfusion
  | interrupted hintr pc' hpc =>
    rcases hpc with rfl | rfl <;> constructor <;>
      simp only [Proc.stepsLeft, Proc.selectsLeft, Proc.acceptsLeft, Proc.goto, hphase, hsteps,
        hselect] <;>
      omega
  | polled hintr hok =>
    constructor <;>
      simp only [Proc.stepsLeft, Proc.selectsLeft, Proc.acceptsLeft, Proc.goto, hphase, hsteps,
        hselect] <;>
      omega
  | failed hintr hok =>
    constructor <;>
      simp only [Proc.stepsLeft, Proc.selectsLeft, Proc.acceptsLeft, Proc.goto, hphase, hsteps,
        hselect] <;>
      omega
  | reloaded =>
    constructor <;>
      simp only [Proc.stepsLeft, Proc.selectsLeft, Proc.acceptsLeft, hphase,
        Watch.loop, hshut, Bool.toNat_true] <;>
      omega
  | @round i ready hnone =>
    constructor <;>
      simp only [Proc.stepsLeft, Proc.selectsLeft, Proc.acceptsLeft, Proc.goto, hphase,
        loop_round w out ready hnone, hshut, Bool.toNat_true] <;>
      omega
  | @skip i ready l hl hnot =>
    have hi : i < s.listeners.length := (List.getElem?_eq_some_iff.mp hl).1
    have hcount := loop_each_accepts w out ready hl hshut
    constructor <;>
      simp only [Proc.stepsLeft, Proc.selectsLeft, Proc.acceptsLeft, Proc.goto, hphase, hsteps,
        hcount.2] <;>
      omega
  | @accept i ready l srv hl hready hsrv =>
    have hi : i < s.listeners.length := (List.getElem?_eq_some_iff.mp hl).1
    have hcount := loop_each_accepts w out ready hl hshut
    have hfull := accept_left hsrv
    constructor <;>
      simp only [Proc.stepsLeft, Proc.selectsLeft, Proc.acceptsLeft, hphase, hsteps,
        hcount.2] <;>
      omega
  | @serve i ready srv hsrv hmain =>
    have hlow := serve_lowers hsrv
    constructor <;>
      simp only [Proc.stepsLeft, Proc.selectsLeft, Proc.acceptsLeft, hphase,
        Watch.loop, hshut, Bool.toNat_true] <;>
      omega
  | @served i ready srv hsrv hmain =>
    have hlow := serve_lowers hsrv
    constructor <;>
      simp only [Proc.stepsLeft, Proc.selectsLeft, Proc.acceptsLeft, hphase,
        Watch.loop, hshut, Bool.toNat_true] <;>
      omega

/-! ## §4. The invariant. -/

/-- Behind `server_run`. -/
def Phase.leaving : Phase → Bool
  | .shutting _ | .joining | .closing _ | .stopped => true
  | _ => false

/-- The `ready` of a round that is going on. -/
def Phase.ready : Phase → Option (List Nat)
  | .loop (.each _ ready) => some ready
  | .loop (.serving _ ready) => some ready
  | _ => none

/-- The calls that a round through the first `k` listeners makes. -/
def callsOf (listeners : List Listener) (k : Nat) (round : List Nat) : List Nat :=
  ((listeners.take k).map Listener.listenFd).filter (· ∈ round)

theorem callsOf_nil (listeners : List Listener) (k : Nat) : callsOf listeners k [] = [] := by
  unfold callsOf
  exact List.filter_eq_nil_iff.mpr fun fd _ => by simp

theorem callsOf_succ {listeners : List Listener} {k : Nat} {l : Listener}
    (hl : listeners[k]? = some l) (round : List Nat) :
    callsOf listeners (k + 1) round
      = callsOf listeners k round ++ if l.listenFd ∈ round then [l.listenFd] else [] := by
  unfold callsOf
  rw [List.take_add_one, hl, List.map_append, List.filter_append]
  congr 1
  show [l.listenFd].filter _ = _
  rw [List.filter_singleton]
  by_cases hmem : l.listenFd ∈ round
  · rw [if_pos hmem, decide_eq_true hmem]
    rfl
  · rw [if_neg hmem, decide_eq_false hmem]
    rfl

structure Watched (s : Proc) (w : Watch) : Prop where
  /-- Before `server_run` there is nothing to count. -/
  before : s.phase.alive = true → s.phase.inService = false → w = .start
  unasked : s.shutdown = false → w.steps = 0 ∧ w.selects = 0 ∧ w.accepts = 0
  steps : w.steps + s.stepsLeft ≤ 9 * s.listeners.length + 3
  selects : w.selects + s.selectsLeft ≤ 1
  accepts : w.accepts + s.acceptsLeft ≤ s.listeners.length
  asked : s.phase.leaving = true → s.shutdown = true ∨ w.failed = true
  calls : w.calls = callsOf s.listeners s.position w.round
  round : ∀ ready, s.phase.ready = some ready → w.round = ready

/-- There is next to nothing left before the loop's first look at the flag. -/
theorem start_rank {s : Proc} (h : s.phase.Begins) :
    s.stepsLeft ≤ 1 ∧ s.selectsLeft = 0 ∧ s.acceptsLeft = 0 ∧ s.phase.leaving = false
      ∧ s.phase.ready = none := by
  obtain ⟨phase, args, cred, handled, shutdown, reload, listeners, srv⟩ := s
  rcases h with ⟨hin, hstopped⟩ | htop
  · cases phase <;> first
      | exact ⟨Nat.zero_le _, rfl, rfl, rfl, rfl⟩
      | exact absurd rfl hstopped
      | exact absurd hin Bool.noConfusion
  · cases htop
    exact ⟨Nat.le_refl _, rfl, rfl, rfl, rfl⟩

theorem watched_start {s : Proc} (h : s.phase.Begins) : Watched s .start := by
  obtain ⟨hsteps, hselects, haccepts, hleaving, hready⟩ := start_rank h
  refine ⟨fun _ _ => rfl, fun _ => ⟨rfl, rfl, rfl⟩, ?_, ?_, ?_, ?_, (callsOf_nil _ _).symm, ?_⟩
  · show 0 + s.stepsLeft ≤ 9 * s.listeners.length + 3
    omega
  · show 0 + s.selectsLeft ≤ 1
    omega
  · show 0 + s.acceptsLeft ≤ s.listeners.length
    omega
  · intro hleaves
    exact absurd (hleaves.symm.trans hleaving) Bool.noConfusion
  · intro ready hround
    rw [hready] at hround
    cases hround

/-- Behind the loop the main thread goes on to its end. -/
theorem leaving_next {users : Users} {s s' : Proc} {out : Outcome} (hleaving : s.phase.leaving = true)
    (h : s.main users out = some s') :
    s'.phase.leaving = true ∧ s'.shutdown = s.shutdown ∧ s'.listeners = s.listeners := by
  obtain ⟨phase, args, cred, handled, shutdown, reload, listeners, srv⟩ := s
  cases phase with
  | shutting i =>
    unfold Proc.main at h
    dsimp only at h
    split at h
    · cases h
      exact ⟨rfl, rfl, rfl⟩
    · obtain ⟨srv', -, rfl⟩ := Option.map_eq_some_iff.mp h
      exact ⟨rfl, rfl, rfl⟩
  | joining =>
    obtain ⟨srv', -, rfl⟩ := Option.map_eq_some_iff.mp h
    refine ⟨?_, rfl, rfl⟩
    show (if srv'.main = .done then Phase.closing 0 else .joining).leaving = true
    split <;> rfl
  | closing i =>
    unfold Proc.main at h
    dsimp only at h
    split at h <;> cases h <;> exact ⟨rfl, rfl, rfl⟩
  | stopped => cases h
  | _ => cases hleaving

theorem leaving_rank {s : Proc} (h : s.phase.leaving = true) :
    s.stepsLeft = 0 ∧ s.selectsLeft = 0 ∧ s.acceptsLeft = 0 ∧ s.position = s.listeners.length
      ∧ s.phase.ready = none := by
  obtain ⟨phase, args, cred, handled, shutdown, reload, listeners, srv⟩ := s
  cases phase <;> first
    | exact ⟨rfl, rfl, rfl, rfl, rfl⟩
    | cases h

/-! ## §5. A step. -/

/-- The watch of a step of `server_run` before the flag is set. -/
theorem loop_unasked {s : Proc} (w : Watch) (out : Outcome) (pc : LoopPc)
    (hshut : s.shutdown = false) :
    (w.loop s out pc).steps = w.steps ∧ (w.loop s out pc).selects = w.selects
      ∧ (w.loop s out pc).accepts = w.accepts := by
  have hzero : s.shutdown.toNat = 0 := by
    rw [hshut]
    rfl
  unfold Watch.loop
  rw [hzero]
  split
  · exact ⟨rfl, rfl, rfl⟩
  · split
    · split <;> exact ⟨rfl, rfl, rfl⟩
    · exact ⟨rfl, rfl, rfl⟩
  · exact ⟨rfl, rfl, rfl⟩

/-- The calls of the round, behind a step of `server_run`. -/
theorem loop_calls {s s' : Proc} {out : Outcome} {pc : LoopPc} {w : Watch}
    (hphase : s.phase = .loop pc) (h : LoopStep s out pc s') (hw : Watched s w) :
    (w.loop s out pc).calls = callsOf s'.listeners s'.position (w.loop s out pc).round
      ∧ ∀ ready, s'.phase.ready = some ready → (w.loop s out pc).round = ready := by
  have hcalls := hw.calls
  have hround := hw.round
  unfold Proc.position at hcalls
  rw [hphase] at hcalls hround
  -- a listener has been looked at
  have hnext : ∀ {i : Nat} {ready : List Nat} {l : Listener}, w.round = ready →
      w.calls = callsOf s.listeners i w.round → s.listeners[i]? = some l →
        (w.loop s out (.each i ready)).calls
            = callsOf s.listeners (i + 1) (w.loop s out (.each i ready)).round
          ∧ (w.loop s out (.each i ready)).round = ready := by
    intro i ready l hready hpast hl
    rw [loop_each w out ready hl]
    by_cases hmem : l.listenFd ∈ ready
    · rw [if_pos hmem]
      refine ⟨?_, hready⟩
      show w.calls ++ [l.listenFd] = callsOf s.listeners (i + 1) w.round
      rw [callsOf_succ hl, if_pos (hready ▸ hmem), hpast]
    · rw [if_neg hmem]
      refine ⟨?_, hready⟩
      show w.calls = callsOf s.listeners (i + 1) w.round
      rw [callsOf_succ hl, if_neg (hready ▸ hmem), List.append_nil]
      exact hpast
  cases h with
  | leave hshut => exact ⟨hcalls, nofun⟩
  | poll hshut => exact ⟨hcalls, nofun⟩
  | interrupted hintr pc' hpc =>
    have hempty : (w.loop s out .select).round = [] := by
      show (if !out.eintr && out.ok then _ else []) = []
      rw [hintr]
      rfl
    rw [hempty, callsOf_nil]
    rcases hpc with rfl | rfl
    · exact ⟨rfl, nofun⟩
    · exact ⟨rfl, nofun⟩
  | polled hintr hok =>
    refine ⟨rfl, fun ready hready => ?_⟩
    rw [← Option.some.inj hready]
    show (if !out.eintr && out.ok then Proc.selected s.listeners out.ready else []) = _
    rw [hintr, hok]
    rfl
  | failed hintr hok =>
    have hempty : (w.loop s out .select).round = [] := by
      show (if !out.eintr && out.ok then _ else []) = []
      rw [hok, Bool.and_false]
      rfl
    rw [hempty, callsOf_nil]
    exact ⟨rfl, nofun⟩
  | reloaded => exact ⟨hcalls, nofun⟩
  | @round i ready hnone =>
    rw [loop_round w out ready hnone]
    refine ⟨?_, nofun⟩
    show w.calls = callsOf s.listeners s.listeners.length w.round
    have hlen : s.listeners.length ≤ i := List.getElem?_eq_none_iff.mp hnone
    have hall : s.listeners.take i = s.listeners.take s.listeners.length := by
      rw [List.take_of_length_le hlen, List.take_length]
    rw [show w.calls = callsOf s.listeners i w.round from hcalls]
    unfold callsOf
    rw [hall]
  | @skip i ready l hl hnot =>
    obtain ⟨hcalls', hround'⟩ := hnext (hround ready rfl) hcalls hl
    exact ⟨hcalls', fun ready' hready => hround'.trans (Option.some.inj hready)⟩
  | @accept i ready l srv hl hready hsrv =>
    obtain ⟨hcalls', hround'⟩ := hnext (hround ready rfl) hcalls hl
    exact ⟨hcalls', fun ready' hready => hround'.trans (Option.some.inj hready)⟩
  | @serve i ready srv hsrv hmain => exact ⟨hcalls, hround⟩
  | @served i ready srv hsrv hmain => exact ⟨hcalls, hround⟩

/-- The loop is left when the flag is set, or `select` fails. -/
theorem loop_asked {s s' : Proc} {out : Outcome} {pc : LoopPc} {w : Watch} (h : LoopStep s out pc s')
    (hleaving : s'.phase.leaving = true) :
    s'.shutdown = true ∨ (w.loop s out pc).failed = true := by
  cases h with
  | leave hshut => exact Or.inl hshut
  | failed hintr hok =>
    refine Or.inr ?_
    show (w.failed || (!out.eintr && !out.ok)) = true
    rw [hintr, hok]
    exact Bool.or_true _
  | interrupted hintr pc' hpc =>
    rcases hpc with rfl | rfl
    · cases hleaving
    · cases hleaving
  | _ => cases hleaving

theorem loop_frame {s s' : Proc} {out : Outcome} {pc : LoopPc} (h : LoopStep s out pc s') :
    s'.shutdown = s.shutdown ∧ s'.listeners = s.listeners := by
  cases h <;> exact ⟨rfl, rfl⟩

/-- A step of `server_run`. -/
theorem watched_loop {s s' : Proc} {out : Outcome} {pc : LoopPc} {w : Watch}
    (hphase : s.phase = .loop pc) (hsome : s.listeners ≠ []) (hin : s'.phase.inService = true)
    (h : LoopStep s out pc s') (hw : Watched s w) : Watched s' (w.loop s out pc) := by
  obtain ⟨hshut, hlisteners⟩ := loop_frame h
  obtain ⟨hcalls, hround⟩ := loop_calls hphase h hw
  have hbefore : s'.phase.alive = true → s'.phase.inService = false →
      w.loop s out pc = .start := by
    intro _ hout
    exact absurd (hin.symm.trans hout) Bool.noConfusion
  cases hflag : s.shutdown with
  | true =>
    have hlow := loop_lowers hphase hflag h w
    refine ⟨hbefore, ?_, ?_, ?_, ?_, loop_asked h, hcalls, hround⟩
    · intro hnot
      exact absurd ((hshut.trans hflag).symm.trans hnot) Bool.noConfusion
    · rw [hlisteners]
      exact hlow.steps.trans hw.steps
    · exact hlow.selects.trans hw.selects
    · rw [hlisteners]
      exact hlow.accepts.trans hw.accepts
  | false =>
    obtain ⟨hsteps, hselects, haccepts⟩ := loop_unasked w out pc hflag
    obtain ⟨hsteps', hselects', haccepts'⟩ := hw.unasked hflag
    rw [hsteps'] at hsteps
    rw [hselects'] at hselects
    rw [haccepts'] at haccepts
    refine ⟨hbefore, fun _ => ⟨hsteps, hselects, haccepts⟩, ?_, ?_, ?_, loop_asked h, hcalls, hround⟩
    · rw [hsteps, Nat.zero_add]
      exact s'.stepsLeft_le (hlisteners ▸ hsome)
    · rw [hselects, Nat.zero_add]
      exact s'.selectsLeft_le
    · rw [haccepts, Nat.zero_add]
      exact s'.acceptsLeft_le

/-- A step that leaves the phase, the listeners and what is left alone. -/
theorem Watched.frame {s s' : Proc} {w : Watch} (hw : Watched s w) (hphase : s'.phase = s.phase)
    (hlisteners : s'.listeners = s.listeners) (hleft : servingLeft s'.srv ≤ servingLeft s.srv)
    (hshut : s.shutdown = true → s'.shutdown = true) : Watched s' w := by
  have hsteps : s'.stepsLeft ≤ s.stepsLeft := by
    unfold Proc.stepsLeft
    rw [hphase, hlisteners]
    split <;> omega
  have hselects : s'.selectsLeft = s.selectsLeft := by
    unfold Proc.selectsLeft
    rw [hphase]
  have haccepts : s'.acceptsLeft = s.acceptsLeft := by
    unfold Proc.acceptsLeft
    rw [hphase, hlisteners]
  have hposition : s'.position = s.position := by
    unfold Proc.position
    rw [hphase, hlisteners]
  refine ⟨hphase ▸ hw.before, ?_, ?_, hselects ▸ hw.selects, ?_, ?_, ?_, hphase ▸ hw.round⟩
  · intro hnot
    refine hw.unasked ?_
    cases hflag : s.shutdown with
    | false => rfl
    | true => exact absurd ((hshut hflag).symm.trans hnot) Bool.noConfusion
  · rw [hlisteners]
    exact (Nat.add_le_add_left hsteps _).trans hw.steps
  · rw [haccepts, hlisteners]
    exact hw.accepts
  · rw [hphase]
    intro hleaving
    exact (hw.asked hleaving).imp_left hshut
  · rw [hlisteners, hposition]
    exact hw.calls

/-- A step of `server_destroy`. -/
theorem watched_leaving {users : Users} {s s' : Proc} {out : Outcome} {w : Watch}
    (hleaving : s.phase.leaving = true) (hmain : s.main users out = some s') (hw : Watched s w) :
    Watched s' w := by
  obtain ⟨hleaving', hshut, hlisteners⟩ := leaving_next hleaving hmain
  obtain ⟨hsteps, hselects, haccepts, hposition, -⟩ := leaving_rank hleaving
  obtain ⟨hsteps', hselects', haccepts', hposition', hready'⟩ := leaving_rank hleaving'
  refine ⟨?_, hshut ▸ hw.unasked, ?_, ?_, ?_, ?_, ?_, ?_⟩
  · intro halive hout
    cases hphase : s'.phase <;> rw [hphase] at hleaving' halive hout <;> first
      | exact absurd hleaving' Bool.noConfusion
      | exact absurd halive Bool.noConfusion
      | exact absurd hout Bool.noConfusion
  · rw [hsteps', hlisteners, ← hsteps]
    exact hw.steps
  · rw [hselects', ← hselects]
    exact hw.selects
  · rw [haccepts', hlisteners, ← haccepts]
    exact hw.accepts
  · intro _
    rw [hshut]
    exact hw.asked hleaving
  · rw [hposition', hlisteners, ← hposition]
    exact hw.calls
  · intro ready hready
    rw [hready'] at hready
    cases hready

/-- A step of anybody. -/
theorem watch_step {users : Users} {opts : List Opt} {s s' : Proc} {act : Act} {w : Watch}
    (hinv : s.Inv users opts) (hw : Watched s w) (hstep : s.step users act = some s') :
    Watched s' (w.watch s act) := by
  obtain ⟨halive, hcases⟩ := step_cases hstep
  cases hcases with
  | main out hmain =>
    show Watched s' (match s.phase with | .loop pc => w.loop s out pc | _ => w)
    cases hservice : s.phase.inService with
    | false =>
      have hstart := hw.before halive hservice
      have hsame : (match s.phase with | .loop pc => w.loop s out pc | _ => w) = w := by
        cases hphase : s.phase <;> first
          | rfl
          | rw [hphase] at hservice; cases hservice
      rw [hsame, hstart]
      exact watched_start (inv_starting hinv hservice hmain).2
    | true =>
      cases hphase : s.phase with
      | loop pc =>
        have hloop : s.serverRun out pc = some s' := by
          unfold Proc.main at hmain
          rw [hphase] at hmain
          exact hmain
        obtain ⟨hready, -, -⟩ := inv_of_inService hinv hservice
        have hsome : s.listeners ≠ [] := by
          intro hnil
          have hports := hready.ports
          rw [hnil] at hports
          cases hports
        have hnext := (inv_loop hphase hinv (loop_cases hloop)).2
        exact watched_loop hphase hsome hnext (loop_cases hloop) hw
      | shutting i => exact watched_leaving (by rw [hphase]; rfl) hmain hw
      | joining => exact watched_leaving (by rw [hphase]; rfl) hmain hw
      | closing i => exact watched_leaving (by rw [hphase]; rfl) hmain hw
      | _ =>
        rw [hphase] at hservice
        cases hservice
  | signal sig =>
    by_cases hsig : sig ∈ s.handled
    · obtain ⟨asked, reload, heq⟩ := deliver_handled hsig
      rw [heq]
      refine hw.frame rfl rfl (Nat.le_refl _) (fun hshut => ?_)
      show (s.shutdown || asked) = true
      rw [hshut]
      rfl
    · rw [deliver_unhandled hsig]
      cases hservice : s.phase.inService with
      | true => exact absurd ((inv_of_inService hinv hservice).1.handled sig) hsig
      | false =>
        rw [show w.watch s (.signal sig) = w from rfl, hw.before halive hservice]
        exact watched_start (Or.inl ⟨rfl, Phase.noConfusion⟩)
  | beside b hb hsrv hconns hclose hact =>
    have hsame : w.watch s act = w := by
      cases act with
      | main out => exact absurd rfl (hact out)
      | _ => rfl
    rw [hsame]
    exact hw.frame rfl rfl (beside_left hsrv hb) id
  | call k hconns => exact hw.frame rfl rfl (Nat.le_refl _) id

/-! ## §6. The result. -/

/-- The main thread is never stuck in `server_run`. -/
theorem loop_enabled {users : Users} {opts : List Opt} {s : Proc} {pc : LoopPc}
    (hinv : s.Inv users opts) (hphase : s.phase = .loop pc) :
    ∃ out t, s.step users (.main out) = some t := by
  obtain ⟨hready, -, hat⟩ := inv_of_inService hinv (by rw [hphase]; rfl)
  -- `accept` may fail, so a round needs no descriptor
  have hrun : ∃ t, s.serverRun { ok := false } pc = some t := by
    cases pc with
    | top => exact ⟨_, rfl⟩
    | select => exact ⟨_, rfl⟩
    | reloading => exact ⟨_, rfl⟩
    | each i ready =>
      unfold Proc.serverRun
      dsimp only
      cases s.listeners[i]? with
      | none => exact ⟨_, rfl⟩
      | some l => exact ⟨_, if_neg (fun h => Bool.noConfusion h.2)⟩
    | serving i ready =>
      rw [hphase] at hat
      obtain ⟨x, hx⟩ := hat
      obtain ⟨srv, hsrv⟩ := serve_enabled hready.reachable hx false
      exact ⟨_, congrArg (Option.map _) hsrv⟩
  obtain ⟨t, ht⟩ := hrun
  refine ⟨{ ok := false }, t, ?_⟩
  unfold Proc.step Proc.main
  rw [hphase]
  exact ht

/-- A stop signal that arrives when the loop has just looked at the flag: both listeners are
ready, and both connections are taken before the loop is left. -/
def stopActs : List Act :=
  List.replicate 7 (.main { }) ++ [.main { fd := 3 }, .main { fd := 4 }]
    ++ List.replicate 3 (.main { }) ++ [.signal .term, .main { ready := [3, 4] }, .main { fd := 5 }]
    ++ List.replicate 4 (.main { }) ++ [.main { fd := 6 }] ++ List.replicate 6 (.main { })

end NetServer.Core.Main
