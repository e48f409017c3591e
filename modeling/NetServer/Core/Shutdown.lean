/-
  NetServer.Core.Shutdown — no session sleeps through the shutdown.

  Two views of the state.  For its loop a session is a waiter with a flag and
  a pipe (`NetServer.Lib.WakeUp`), whichever of the two programs it runs.  For
  its registry it has a role (`NetServer.Core.Members`).

    • `loop_step`       — all that matters of the two loops;
    • `run_ok`, `sweep_ok`     — every step keeps every session's waiter safe;
    • `run_view_own`, `sweep_view_own` — a step is a step of its own registry;
    • `run_view_other`, `sweep_view_other` — and a quiet one of the other;
    • `step_inv`        — so the two hold together in every run;
    • `shutdown_reaches_all` — the result.
-/
import NetServer.Core.Members

namespace NetServer.Core

open NetServer.Lib

/-! ## §1. The loops. -/

def SessPc.role : SessPc → Option Role
  | .unused | .created | .closing | .gone => none
  | .scan pp => some (.scanning pp)
  | .unlinked => some .unlinked
  | _ => some .inside

/-- Between `session_register` and the unlinking by `session_unregister`. -/
def SessPc.registered (pc : SessPc) : Bool := listed pc.role

/-- Between `create_session` and the closing of the pipe. -/
def SessPc.alive : SessPc → Bool
  | .unused | .gone => false
  | _ => true

/-- A session with a role is alive. -/
theorem alive_of_role {pc : SessPc} {r : Role} (h : pc.role = some r) : pc.alive = true := by
  cases pc <;> first
    | rfl
    | cases h

theorem afterPoll_eq {bytes : Nat} {sock : Bool} {pc' : SessPc}
    (h : afterPoll bytes sock = some pc') : pc' = .drain sock ∨ pc' = .recv := by
  unfold afterPoll at h
  split at h
  · exact Or.inl (Option.some.inj h).symm
  · split at h
    · exact Or.inr (Option.some.inj h).symm
    · cases h

/-- A loop only goes between points inside, and into `poll` only with the flag
down. -/
structure LoopStep (flag : Bool) (pc pc' : SessPc) : Prop where
  before : pc.role = some .inside
  after : pc'.role = some .inside
  poll : pc' = .poll → flag = false

/-- A look at the flag: out of the loop, or on. -/
theorem LoopStep.look {flag : Bool} {pc pc' : SessPc} (hpc : pc.role = some .inside)
    (hpc' : pc'.role = some .inside) : LoopStep flag pc (if flag then .leave else pc') := by
  cases flag with
  | true => exact ⟨hpc, rfl, nofun⟩
  | false => exact ⟨hpc, hpc', fun _ => rfl⟩

/-- Out of `poll`. -/
theorem LoopStep.polled {flag : Bool} {bytes : Nat} {sock : Bool} {pc' : SessPc}
    (h : afterPoll bytes sock = some pc') : LoopStep flag .poll pc' := by
  rcases afterPoll_eq h with rfl | rfl
  · exact ⟨rfl, rfl, nofun⟩
  · exact ⟨rfl, rfl, nofun⟩

theorem telnetLoop_step {flag : Bool} {bytes : Nat} {pc pc' : SessPc} {out : Outcome}
    (h : telnetLoop flag bytes pc out = some pc') : LoopStep flag pc pc' := by
  unfold telnetLoop at h
  split at h
  case h_3 => exact Option.some.inj h ▸ LoopStep.look rfl rfl
  case h_6 =>
    obtain ⟨-, heq⟩ := Option.ite_none_right_eq_some.mp h
    exact Option.some.inj heq ▸ ⟨rfl, rfl, nofun⟩
  case h_7 sock => exact LoopStep.polled h
  case h_8 sock => exact Option.some.inj h ▸ LoopStep.look rfl rfl
  case h_9 sock =>
    cases h
    cases sock <;> exact ⟨rfl, rfl, nofun⟩
  case h_12 => cases h
  all_goals
    cases h
    exact ⟨rfl, rfl, nofun⟩

theorem httpLoop_step {flag : Bool} {bytes : Nat} {pc pc' : SessPc} {out : Outcome}
    (h : httpLoop flag bytes pc out = some pc') : LoopStep flag pc pc' := by
  unfold httpLoop at h
  split at h
  case h_3 => exact Option.some.inj h ▸ LoopStep.look rfl rfl
  case h_6 =>
    obtain ⟨-, heq⟩ := Option.ite_none_right_eq_some.mp h
    exact Option.some.inj heq ▸ ⟨rfl, rfl, nofun⟩
  case h_7 sock => exact LoopStep.polled h
  case h_8 sock => exact Option.some.inj h ▸ LoopStep.look rfl rfl
  case h_15 => cases h
  all_goals
    cases h
    exact ⟨rfl, rfl, nofun⟩

/-- **Both loops**, as far as the shutdown is concerned. -/
theorem loop_step {k : Kind} {flag : Bool} {bytes : Nat} {pc pc' : SessPc} {out : Outcome}
    (h : k.loop flag bytes pc out = some pc') : LoopStep flag pc pc' := by
  cases k with
  | telnet => exact telnetLoop_step h
  | http => exact httpLoop_step h

/-! ## §2. Every step, by the session that takes it. -/

/-- The cases of a session's step. -/
inductive RunStep (s : Net) (x : Nat) : Net → Prop where
  | register (hpc : (s.sess x).pc = .created) (hfree : (s.reg (s.sess x).kind).lock = none) :
      RunStep s x (s.register x)
  | read (sock : Bool) (hpc : (s.sess x).pc = .drain sock) :
      RunStep s x (s.setSess x { s.sess x with bytes := (s.sess x).bytes - 64 })
  | drained (sock : Bool) (hpc : (s.sess x).pc = .drain sock) :
      RunStep s x (s.goto x (.drained sock))
  | leave (hpc : (s.sess x).pc = .leave) (hfree : (s.reg (s.sess x).kind).lock = none) :
      RunStep s x
        ((s.setReg (s.sess x).kind
          { s.reg (s.sess x).kind with lock := some (.session x) }).goto x (.scan .head))
  | scan (pp : Loc Nat) (hpc : (s.sess x).pc = .scan pp) : RunStep s x (s.scan x pp)
  | unlock (hpc : (s.sess x).pc = .unlinked) :
      RunStep s x
        ((s.setReg (s.sess x).kind { s.reg (s.sess x).kind with lock := none }).goto x .closing)
  | close (hpc : (s.sess x).pc = .closing) :
      RunStep s x (s.setSess x { s.sess x with pc := .gone, pipeOpen := false })
  | loop (pc' : SessPc) (h : LoopStep (s.sess x).shutdownRequested (s.sess x).pc pc') :
      RunStep s x (s.goto x pc')

theorem run_step {s s' : Net} {x : Nat} {out : Outcome} (h : s.run x out = some s') :
    RunStep s x s' := by
  unfold Net.run at h
  dsimp only at h
  split at h
  · rename_i hpc
    obtain ⟨hfree, heq⟩ := Option.ite_none_right_eq_some.mp h
    cases heq
    exact .register hpc hfree
  · rename_i sock hpc
    split at h
    · cases h
      exact .read sock hpc
    · cases h
      exact .drained sock hpc
  · rename_i hpc
    obtain ⟨hfree, heq⟩ := Option.ite_none_right_eq_some.mp h
    cases heq
    exact .leave hpc hfree
  · rename_i pp hpc
    cases h
    exact .scan pp hpc
  · rename_i hpc
    cases h
    exact .unlock hpc
  · rename_i hpc
    cases h
    exact .close hpc
  · obtain ⟨pc', hloop, heq⟩ := Option.map_eq_some_iff.mp h
    cases heq
    exact .loop pc' (loop_step hloop)

/-! ## §3. The sessions. -/

namespace Session

def waiter (c : Session) : Waiter :=
  { flag := c.shutdownRequested, bytes := c.bytes, blocked := decide (c.pc = .poll),
    passed := c.passed }

/-- A session whose waiter is safe, and whose pipe is open as long as the session
exists. -/
structure Ok (c : Session) : Prop where
  safe : c.waiter.Safe
  opened : c.pc.alive = true → c.pipeOpen = true

theorem Ok.step {c c' : Session} (h : c.Ok) (hw : c.waiter.Step pipeSize c'.waiter)
    (hpc : c'.pc.alive = true → c.pc.alive = true ∧ c'.pipeOpen = c.pipeOpen) : c'.Ok := by
  refine ⟨h.safe.step (by decide) hw, ?_⟩
  intro halive
  obtain ⟨hbefore, hpipe⟩ := hpc halive
  rw [hpipe]
  exact h.opened hbefore

/-- Going on at another point, into `poll` only with the flag down. -/
theorem Ok.goto {c : Session} (h : c.Ok) {pc' : SessPc} (halive : c.pc.alive = true)
    (hpoll : pc' = .poll → c.shutdownRequested = false) : Ok { c with pc := pc' } := by
  refine h.step ?_ fun _ => ⟨halive, rfl⟩
  by_cases hpc : pc' = .poll
  · have hw : Session.waiter { c with pc := pc' } = { c.waiter with blocked := true } := by
      simp [waiter, hpc]
    rw [hw]
    exact .block (hpoll hpc)
  · have hw : Session.waiter { c with pc := pc' } = { c.waiter with blocked := false } := by
      simp [waiter, hpc]
    rw [hw]
    exact .resume

/-- A step of the waiter that is not a step of the session. -/
theorem Ok.signal {c c' : Session} (h : c.Ok) (hw : c.waiter.Step pipeSize c'.waiter)
    (hpc : c'.pc = c.pc) (hpipe : c'.pipeOpen = c.pipeOpen) : c'.Ok := by
  refine h.step hw ?_
  rw [hpc]
  exact fun halive => ⟨halive, hpipe⟩

theorem Ok.read {c : Session} (h : c.Ok) (n : Nat) (hpc : c.pc ≠ .poll) :
    Ok { c with bytes := n } :=
  h.signal (.read n (decide_eq_false hpc)) rfl rfl

theorem Ok.byte {c : Session} (h : c.Ok) : Ok { c with bytes := min pipeSize (c.bytes + 1) } :=
  h.signal .byte rfl rfl

theorem Ok.raise {c : Session} (h : c.Ok) : Ok { c with shutdownRequested := true } :=
  h.signal .raise rfl rfl

theorem Ok.pass {c : Session} (h : c.Ok) (hflag : c.shutdownRequested = true) :
    Ok { c with bytes := min pipeSize (c.bytes + 1), passed := true } :=
  h.signal (.pass hflag) rfl rfl

end Session

theorem ok_setSess {s : Net} (h : ∀ y, (s.sess y).Ok) {x : Nat} {c : Session} (hc : c.Ok) (y : Nat) :
    ((s.setSess x c).sess y).Ok := by
  by_cases hyx : y = x
  · rw [hyx]
    show Session.Ok (Function.update s.sess x c x)
    rw [Function.update_self]
    exact hc
  · show Session.Ok (Function.update s.sess x c y)
    rw [Function.update_of_ne hyx]
    exact h y

theorem register_ok {s : Net} {x : Nat} (h : (s.sess x).Ok) (hpc : (s.sess x).pc = .created)
    (down : Bool) :
    Session.Ok
      { s.sess x with
        shutdownRequested := down || (s.sess x).shutdownRequested
        passed := down || (s.sess x).passed
        pc := .begin } := by
  cases down with
  | true =>
    refine h.step ?_ (by rw [hpc]; exact fun _ => ⟨rfl, rfl⟩)
    have hw := @Waiter.Step.late pipeSize (s.sess x).waiter (by simp [Session.waiter, hpc])
    simpa [Session.waiter, hpc] using hw
  | false => exact h.goto (by rw [hpc]; rfl) nofun

/-- **A session's step keeps every session safe.** -/
theorem run_ok {s s' : Net} {x : Nat} (h : ∀ y, (s.sess y).Ok) (hstep : RunStep s x s') (y : Nat) :
    (s'.sess y).Ok := by
  have hgoto : ∀ pc', (s.sess x).pc.alive = true →
      (pc' = .poll → (s.sess x).shutdownRequested = false) → ((s.goto x pc').sess y).Ok :=
    fun pc' halive hpoll => ok_setSess h ((h x).goto halive hpoll) y
  cases hstep with
  | register hpc _ => exact ok_setSess h (register_ok (h x) hpc _) y
  | read sock hpc => exact ok_setSess h ((h x).read _ (by rw [hpc]; nofun)) y
  | drained sock hpc => exact hgoto _ (by rw [hpc]; rfl) nofun
  | leave hpc _ => exact hgoto (.scan .head) (by rw [hpc]; rfl) nofun
  | scan pp hpc =>
    have hrest : ∀ pc', pc' ≠ .poll → ((s.goto x pc').sess y).Ok := fun pc' hpoll =>
      hgoto pc' (by rw [hpc]; rfl) fun hpc' => absurd hpc' hpoll
    unfold Net.scan
    dsimp only
    split
    · exact hrest .unlinked nofun
    · split
      · exact hrest .unlinked nofun
      · exact hrest (.scan _) nofun
  | unlock hpc => exact hgoto .closing (by rw [hpc]; rfl) nofun
  | close hpc =>
    refine ok_setSess h ((h x).step .resume ?_) y
    intro halive
    cases halive
  | loop pc' hloop => exact hgoto pc' (alive_of_role hloop.before) hloop.poll

theorem addByte_ok {s : Net} (h : ∀ y, (s.sess y).Ok) (x y : Nat) : ((s.addByte x).sess y).Ok := by
  unfold Net.addByte
  split
  · exact ok_setSess h (h x).byte y
  · exact h y

/-- **So does a step of `shutdown_all`**, which flags a session before it writes
to its pipe. -/
theorem sweep_ok {s s' : Net} {k : Kind} (h : ∀ y, (s.sess y).Ok)
    (hflagged : ∀ x, (s.reg k).sweep = .flagged x →
      (s.sess x).shutdownRequested = true ∧ (s.sess x).pipeOpen = true)
    (hstep : s.sweep k = some s') (y : Nat) : (s'.sess y).Ok := by
  unfold Net.sweep at hstep
  dsimp only at hstep
  split at hstep
  · obtain ⟨-, heq⟩ := Option.ite_none_right_eq_some.mp hstep
    cases heq
    exact h y
  · cases hstep
    exact h y
  · rename_i x hat
    cases hstep
    exact ok_setSess h (h x).raise y
  · rename_i x hat
    cases hstep
    -- the byte goes to an open pipe, behind the flag
    obtain ⟨hflag, hopen⟩ := hflagged x hat
    have hbyte : (s.addByte x).sess x
        = { s.sess x with bytes := min pipeSize ((s.sess x).bytes + 1) } := by
      unfold Net.addByte
      rw [if_pos hopen]
      exact Function.update_self ..
    rw [hbyte]
    exact ok_setSess (addByte_ok h x) ((h x).pass hflag) y
  · cases hstep
    exact h y

/-! ## §4. The registries. -/

/-- The role of a session in one of the registries. -/
def Session.roleIn (k : Kind) (c : Session) : Option Role :=
  if c.kind = k then c.pc.role else none

/-- What a registry sees. -/
def Net.view (s : Net) (k : Kind) : RegView where
  lock := (s.reg k).lock
  list := s.list k
  shuttingDown := (s.reg k).shuttingDown
  sweep := (s.reg k).sweep
  swept := (s.reg k).swept
  role := Session.roleIn k ∘ s.sess
  flag := Session.shutdownRequested ∘ s.sess
  passed := Session.passed ∘ s.sess

section Views

variable {s : Net} {k : Kind} {x : Nat}

theorem view_setSess (c : Session) :
    (s.setSess x c).view k =
      { s.view k with
        role := Function.update (s.view k).role x (c.roleIn k)
        flag := Function.update (s.view k).flag x c.shutdownRequested
        passed := Function.update (s.view k).passed x c.passed } := by
  unfold Net.view Net.setSess
  simp only [Function.comp_update]
  rfl

theorem update_role_self {c : Session} (hkind : c.kind = (s.sess x).kind)
    (hpc : c.pc = (s.sess x).pc) :
    Function.update (s.view k).role x (c.roleIn k) = (s.view k).role := by
  unfold Session.roleIn
  rw [hkind, hpc]
  exact Function.update_eq_self x _

theorem update_flag_self :
    Function.update (s.view k).flag x (s.sess x).shutdownRequested = (s.view k).flag :=
  Function.update_eq_self x _

theorem update_passed_self :
    Function.update (s.view k).passed x (s.sess x).passed = (s.view k).passed :=
  Function.update_eq_self x _

theorem view_goto (pc : SessPc) :
    (s.goto x pc).view k =
      { s.view k with
        role := Function.update (s.view k).role x (Session.roleIn k { s.sess x with pc := pc }) } := by
  unfold Net.goto
  rw [view_setSess, update_flag_self, update_passed_self]

theorem view_raise :
    (s.setSess x { s.sess x with shutdownRequested := true }).view k =
      { s.view k with flag := Function.update (s.view k).flag x true } := by
  rw [view_setSess, update_role_self (c := { s.sess x with shutdownRequested := true }) rfl rfl,
    update_passed_self]

theorem view_pass :
    (s.setSess x { s.sess x with passed := true }).view k =
      { s.view k with passed := Function.update (s.view k).passed x true } := by
  rw [view_setSess, update_role_self (c := { s.sess x with passed := true }) rfl rfl,
    update_flag_self]

theorem addByte_next (s : Net) (x : Nat) : (s.addByte x).next = s.next := by
  unfold Net.addByte
  split <;> rfl

theorem view_addByte (x : Nat) : (s.addByte x).view k = s.view k := by
  unfold Net.addByte
  split
  · rw [view_setSess, update_role_self
      (c := { s.sess x with bytes := min pipeSize ((s.sess x).bytes + 1) }) rfl rfl,
      update_flag_self, update_passed_self]
  · rfl

theorem view_goto_own (hk : (s.sess x).kind = k) (pc : SessPc) :
    (s.goto x pc).view k =
      { s.view k with role := Function.update (s.view k).role x pc.role } := by
  rw [view_goto, Session.roleIn, if_pos hk]

theorem view_setReg_own (r : Registry) :
    (s.setReg k r).view k =
      { s.view k with
        lock := r.lock
        list := { head := r.head, next := s.next }
        shuttingDown := r.shuttingDown
        sweep := r.sweep
        swept := r.swept } := by
  unfold Net.view Net.list Net.setReg
  simp only [Function.update_self]

theorem view_setReg_other {k' : Kind} (hk : k ≠ k') (r : Registry) :
    (s.setReg k' r).view k = s.view k := by
  unfold Net.view Net.list Net.setReg
  simp only [Function.update_of_ne hk]

theorem role_own (hk : (s.sess x).kind = k) : (s.view k).role x = (s.sess x).pc.role := if_pos hk

theorem role_other (hk : k ≠ (s.sess x).kind) : (s.view k).role x = none := if_neg hk.symm

theorem view_setList_own (l : PtrList Nat) :
    (s.setList k l).view k = { s.view k with list := l } := by
  unfold Net.view Net.list Net.setList Net.setReg
  simp only [Function.update_self]

theorem kind_of_listed (h : listed ((s.view k).role x) = true) : (s.sess x).kind = k := by
  by_contra hk
  rw [role_other (Ne.symm hk)] at h
  exact nomatch h

open RegView (Quiet)

/-- A session changes, but not its role, and its flags do not go down. -/
theorem quiet_setSess {c : Session} (hrole : c.roleIn k = (s.view k).role x)
    (hflag : listed ((s.view k).role x) = true →
      (s.sess x).shutdownRequested = true → c.shutdownRequested = true)
    (hpassed : listed ((s.view k).role x) = true → (s.sess x).passed = true → c.passed = true) :
    Quiet (s.view k) ((s.setSess x c).view k) := by
  rw [view_setSess, hrole, Function.update_eq_self]
  refine ⟨rfl, rfl, rfl, rfl, rfl, rfl, fun _ _ => rfl, ?_, ?_⟩
  · intro y hy
    refine update_up ?_
    rintro rfl
    exact hflag hy
  · intro y hy
    refine update_up ?_
    rintro rfl
    exact hpassed hy

theorem quiet_goto {pc : SessPc} (hpc : pc.role = (s.sess x).pc.role) :
    Quiet (s.view k) ((s.goto x pc).view k) := by
  refine quiet_setSess ?_ (fun _ h => h) fun _ h => h
  show (if (s.sess x).kind = k then pc.role else none) = _
  rw [hpc]
  rfl

theorem quiet_goto_other (hk : k ≠ (s.sess x).kind) (pc : SessPc) :
    Quiet (s.view k) ((s.goto x pc).view k) := by
  refine quiet_setSess ?_ (fun _ h => h) fun _ h => h
  rw [role_other hk]
  exact if_neg hk.symm

theorem quiet_setList_other {k' : Kind} (hk : k ≠ k') {l : PtrList Nat}
    (hnext : ∀ y, listed ((s.view k).role y) = true → l.next y = s.next y) :
    Quiet (s.view k) ((s.setList k' l).view k) := by
  have hview : (s.setList k' l).view k
      = { s.view k with list := { head := (s.reg k).head, next := l.next } } := by
    unfold Net.view Net.list Net.setList Net.setReg
    simp only [Function.update_of_ne hk]
  rw [hview]
  exact ⟨rfl, rfl, rfl, rfl, rfl, rfl, hnext, fun _ _ h => h, fun _ _ h => h⟩

end Views

open RegView (Quiet)

theorem view_register {s : Net} {x : Nat} :
    (s.register x).view (s.sess x).kind =
      { s.view (s.sess x).kind with
        list := (s.view (s.sess x).kind).list.push x
        role := Function.update (s.view (s.sess x).kind).role x (some .inside)
        flag := Function.update (s.view (s.sess x).kind).flag x
          ((s.view (s.sess x).kind).shuttingDown || (s.view (s.sess x).kind).flag x)
        passed := Function.update (s.view (s.sess x).kind).passed x
          ((s.view (s.sess x).kind).shuttingDown || (s.view (s.sess x).kind).passed x) } := by
  unfold Net.register
  dsimp only
  rw [view_setSess, view_setList_own, Session.roleIn, if_pos rfl]
  rfl

/-- A node of `session_unregister`'s walk. -/
theorem scan_view {s : Net} {x : Nat} {pp : Loc Nat} (hpc : (s.sess x).pc = .scan pp) :
    (s.view (s.sess x).kind).Step ((s.scan x pp).view (s.sess x).kind) := by
  have hrole : (s.view (s.sess x).kind).role x = some (.scanning pp) := by
    rw [role_own rfl, hpc]
    rfl
  unfold Net.scan
  dsimp only
  split
  · rename_i hget
    rw [view_goto_own rfl]
    exact .missed x pp hrole hget
  · rename_i b hget
    split
    · rename_i hbx
      rw [view_goto_own (s := s.setList _ _) (k := (s.sess x).kind) rfl, view_setList_own]
      exact .unlink x pp hrole (hbx ▸ hget)
    · rename_i hbx
      rw [view_goto_own rfl]
      exact .advance x b pp hrole hget hbx

/-- **A session's step is a step of its own registry.** -/
theorem run_view_own {s s' : Net} {x : Nat} (hstep : RunStep s x s') :
    (s.view (s.sess x).kind).Step (s'.view (s.sess x).kind) := by
  cases hstep with
  | register hpc hfree =>
    rw [view_register]
    refine .register x hfree ?_
    rw [role_own rfl, hpc]
    rfl
  | read sock hpc => exact .quiet (quiet_setSess rfl (fun _ h => h) fun _ h => h)
  | drained sock hpc =>
    refine .quiet (quiet_goto ?_)
    rw [hpc]
    rfl
  | leave hpc hfree =>
    rw [view_goto_own (s := s.setReg _ _) (k := (s.sess x).kind) rfl, view_setReg_own]
    refine .leave x hfree ?_
    rw [role_own rfl, hpc]
    rfl
  | scan pp hpc => exact scan_view hpc
  | unlock hpc =>
    rw [view_goto_own (s := s.setReg _ _) (k := (s.sess x).kind) rfl, view_setReg_own]
    refine .unlock x ?_
    rw [role_own rfl, hpc]
    rfl
  | close hpc =>
    refine .quiet (quiet_setSess ?_ (fun _ h => h) fun _ h => h)
    rw [role_own rfl, hpc]
    exact if_pos rfl
  | loop pc' hloop =>
    refine .quiet (quiet_goto ?_)
    rw [hloop.before, hloop.after]

/-- **For the other registry it is a quiet step**: a session only writes to the
pointers of its own list. -/
theorem run_view_other {s s' : Net} {x : Nat} {k : Kind} {l : List Nat} (hk : k ≠ (s.sess x).kind)
    (hinv : RegInv (s.view (s.sess x).kind) l) (hstep : RunStep s x s') :
    Quiet (s.view k) (s'.view k) := by
  have hnone := role_other hk
  cases hstep with
  | register hpc hfree =>
    unfold Net.register
    refine Quiet.trans (quiet_setList_other hk ?_) (quiet_setSess ?_ ?_ ?_)
    · intro y hy
      refine Function.update_of_ne ?_ ..
      rintro rfl
      rw [hnone] at hy
      exact nomatch hy
    · exact (if_neg hk.symm).trans hnone.symm
    · intro _ hflag
      show (_ || (s.sess x).shutdownRequested) = true
      rw [show (s.sess x).shutdownRequested = true from hflag, Bool.or_true]
    · intro _ hpassed
      show (_ || (s.sess x).passed) = true
      rw [show (s.sess x).passed = true from hpassed, Bool.or_true]
  | read sock hpc => exact quiet_setSess rfl (fun _ h => h) fun _ h => h
  | drained sock hpc => exact quiet_goto_other hk _
  | leave hpc hfree =>
    have hquiet := quiet_goto_other (s := s.setReg (s.sess x).kind
      { s.reg (s.sess x).kind with lock := some (.session x) }) hk (.scan .head)
    rw [view_setReg_other hk] at hquiet
    exact hquiet
  | scan pp hpc =>
    unfold Net.scan
    dsimp only
    split
    · exact quiet_goto_other hk _
    · split
      · refine Quiet.trans (quiet_setList_other hk ?_) (quiet_goto_other (s := s.setList _ _) hk _)
        intro y hy
        obtain ⟨front, rest, rfl, -, rfl⟩ := hinv.scan x pp (by rw [role_own rfl, hpc]; rfl)
        refine PtrList.set_next_of_ne ?_
        -- the pointer that is overwritten belongs to a member of the other list
        intro hfront
        have hmem := (hinv.mem y).mp (List.mem_append_left rest hfront)
        exact hk ((kind_of_listed hy).symm.trans (kind_of_listed hmem))
      · exact quiet_goto_other hk _
  | unlock hpc =>
    have hquiet := quiet_goto_other (s := s.setReg (s.sess x).kind
      { s.reg (s.sess x).kind with lock := none }) hk .closing
    rw [view_setReg_other hk] at hquiet
    exact hquiet
  | close hpc =>
    refine quiet_setSess ?_ (fun _ h => h) fun _ h => h
    exact (if_neg hk.symm).trans hnone.symm
  | loop pc' hloop => exact quiet_goto_other hk _

/-- **A step of `shutdown_all` is a step of its registry.** -/
theorem sweep_view_own {s s' : Net} {k : Kind} (hstep : s.sweep k = some s') :
    (s.view k).Step (s'.view k) := by
  unfold Net.sweep at hstep
  dsimp only at hstep
  split at hstep
  · rename_i hidle
    obtain ⟨hfree, heq⟩ := Option.ite_none_right_eq_some.mp hstep
    cases heq
    rw [view_setReg_own]
    exact .sweepLock hidle hfree
  · rename_i hstart
    cases hstep
    rw [view_setReg_own]
    exact .sweepStart hstart
  · rename_i x hat
    cases hstep
    have hview := view_raise (s := s.setReg k { s.reg k with sweep := .flagged x }) (k := k) (x := x)
    rw [view_setReg_own] at hview
    exact Eq.mpr (congrArg (s.view k).Step hview) (.sweepFlag x hat)
  · rename_i x hat
    cases hstep
    have hview := view_pass
      (s := (s.addByte x).setReg k { s.reg k with sweep := .at (s.next x) }) (k := k) (x := x)
    rw [view_setReg_own, view_addByte, addByte_next] at hview
    exact Eq.mpr (congrArg (s.view k).Step hview) (.sweepByte x hat)
  · rename_i hat
    cases hstep
    rw [view_setReg_own]
    exact .sweepDone hat

/-- **For the other registry it is a quiet step.** -/
theorem sweep_view_other {s s' : Net} {k k' : Kind} (hk : k ≠ k') (hstep : s.sweep k' = some s') :
    Quiet (s.view k) (s'.view k) := by
  have hreg : ∀ (s : Net) r, Quiet (s.view k) ((s.setReg k' r).view k) := by
    intro s r
    rw [view_setReg_other hk]
    exact Quiet.refl _
  unfold Net.sweep at hstep
  dsimp only at hstep
  split at hstep
  · obtain ⟨-, heq⟩ := Option.ite_none_right_eq_some.mp hstep
    cases heq
    exact hreg s _
  · cases hstep
    exact hreg s _
  · rename_i x hat
    cases hstep
    exact (hreg s _).trans (quiet_setSess rfl (fun _ _ => rfl) fun _ h => h)
  · rename_i x hat
    cases hstep
    rw [← view_addByte (s := s) x]
    exact (hreg _ _).trans (quiet_setSess rfl (fun _ h => h) fun _ _ => rfl)
  · cases hstep
    exact hreg s _

/-! ## §5. Every run. -/

/-- The sessions are safe, and both registries list their members. -/
structure Net.Inv (s : Net) : Prop where
  ok : ∀ x, (s.sess x).Ok
  regs : ∀ k, ∃ l, RegInv (s.view k) l

theorem netStart_inv : netStart.Inv := by
  refine ⟨fun x => ⟨nofun, nofun⟩, ?_⟩
  intro k
  have hrole : ∀ x, (netStart.view k).role x = none := by
    intro x
    show (if Kind.telnet = k then none else none) = none
    split <;> rfl
  refine ⟨[], rfl, List.nodup_nil, ?_, ?_, fun h => absurd rfl h, ?_, trivial, nofun⟩
  · intro x
    rw [hrole x]
    exact iff_of_false List.not_mem_nil nofun
  · intro x r hx
    exact nomatch (hrole x).symm.trans hx
  · intro x pp hx
    exact nomatch (hrole x).symm.trans hx

/-- The session that `shutdown_all` writes to next is a member: it is flagged, and
its pipe is open. -/
theorem Net.Inv.flagged {s : Net} (h : s.Inv) {k : Kind} {x : Nat}
    (hat : (s.reg k).sweep = .flagged x) :
    (s.sess x).shutdownRequested = true ∧ (s.sess x).pipeOpen = true := by
  obtain ⟨l, hl⟩ := h.regs k
  have hsweep := hl.sweepAt
  rw [show (s.view k).sweep = .flagged x from hat] at hsweep
  obtain ⟨-, front, rest, rfl, hflag, -⟩ := hsweep
  have hmem := (hl.mem x).mp (by simp)
  rw [role_own (kind_of_listed hmem)] at hmem
  refine ⟨hflag, (h.ok x).opened ?_⟩
  cases hrole : (s.sess x).pc.role with
  | none =>
    rw [hrole] at hmem
    cases hmem
  | some r => exact alive_of_role hrole

/-- **Every step keeps the invariant.** -/
theorem step_inv {s s' : Net} {act : NetAct} (h : s.Inv) (hstep : s.step act = some s') :
    s'.Inv := by
  have hquiet : (∀ k, Quiet (s.view k) (s'.view k)) → ∀ k, ∃ l, RegInv (s'.view k) l := by
    intro hq k
    obtain ⟨l, hl⟩ := h.regs k
    exact ⟨l, hl.quiet (hq k)⟩
  cases act with
  | create x k' =>
    obtain ⟨hunused, heq⟩ := Option.ite_none_right_eq_some.mp hstep
    cases heq
    -- a new session has no role yet, and had none
    have hnone : ∀ k, (s.view k).role x = none := by
      intro k
      show (if _ then (s.sess x).pc.role else none) = none
      rw [hunused]
      split <;> rfl
    refine ⟨ok_setSess h.ok ⟨nofun, fun _ => rfl⟩, hquiet ?_⟩
    intro k
    refine quiet_setSess ?_ ?_ ?_
    · rw [hnone k]
      show (if k' = k then none else none) = none
      split <;> rfl
    · intro hlisted
      rw [hnone k] at hlisted
      exact nomatch hlisted
    · intro hlisted
      rw [hnone k] at hlisted
      exact nomatch hlisted
  | run x out =>
    have hrun := run_step hstep
    refine ⟨run_ok h.ok hrun, ?_⟩
    intro k
    obtain ⟨l, hl⟩ := h.regs k
    by_cases hk : k = (s.sess x).kind
    · subst hk
      exact hl.step (run_view_own hrun)
    · obtain ⟨l', hl'⟩ := h.regs (s.sess x).kind
      exact hl.step (.quiet (run_view_other hk hl' hrun))
  | publish x =>
    cases hstep
    refine ⟨addByte_ok h.ok x, ?_⟩
    intro k
    rw [view_addByte]
    exact h.regs k
  | request x =>
    cases hstep
    exact ⟨ok_setSess h.ok (h.ok x).raise,
      hquiet fun k => quiet_setSess rfl (fun _ _ => rfl) fun _ h => h⟩
  | sweep k' =>
    refine ⟨sweep_ok h.ok (fun x hat => h.flagged hat) hstep, ?_⟩
    intro k
    obtain ⟨l, hl⟩ := h.regs k
    by_cases hk : k = k'
    · subst hk
      exact hl.step (sweep_view_own hstep)
    · exact hl.step (.quiet (sweep_view_other hk hstep))

theorem reachable_inv {s : Net} (h : netSystem.Reachable s) : s.Inv := by
  refine h.invariant ?_ ?_
  · rintro s rfl
    exact netStart_inv
  · intro s act s' hinv hstep _
    exact step_inv hinv hstep

/-- **The shutdown reaches every session.**  In every state of every run: once
`shutdown_all` has been through a registry, every session of that protocol that is
registered, then or later, is flagged; a session it has passed is flagged and never
blocked in `poll` with an empty pipe; the registry is a list without repetition of
exactly the registered sessions; and the session whose pipe `shutdown_all` is about to
write to has not closed it. -/
theorem shutdown_reaches_all {s : Net} (h : netSystem.Reachable s) :
    (∀ x, (s.reg (s.sess x).kind).swept = true → (s.sess x).pc.registered = true →
      (s.sess x).passed = true) ∧
    (∀ x, (s.sess x).passed = true → (s.sess x).shutdownRequested = true ∧
      ¬ ((s.sess x).pc = .poll ∧ (s.sess x).bytes = 0)) ∧
    (∀ k, ∃ l, (s.list k).IsList l ∧ l.Nodup ∧
      ∀ x, x ∈ l ↔ (s.sess x).kind = k ∧ (s.sess x).pc.registered = true) ∧
    ∀ k x, (s.reg k).sweep = .flagged x → (s.sess x).pipeOpen = true := by
  have hinv := reachable_inv h
  refine ⟨?_, ?_, ?_, fun k x hat => (hinv.flagged hat).2⟩
  · intro x hswept hreg
    obtain ⟨l, hl⟩ := hinv.regs (s.sess x).kind
    refine (hl.swept hswept).2 x ((hl.mem x).mpr ?_)
    rw [role_own rfl]
    exact hreg
  · intro x hpassed
    obtain ⟨hflag, hblocked⟩ := (hinv.ok x).safe hpassed
    refine ⟨hflag, ?_⟩
    rintro ⟨hpoll, hempty⟩
    have := hblocked (decide_eq_true hpoll)
    rw [show (s.sess x).waiter.bytes = 0 from hempty] at this
    exact absurd this (Nat.lt_irrefl 0)
  · intro k
    obtain ⟨l, hl⟩ := hinv.regs k
    refine ⟨l, hl.isList, hl.nodup, ?_⟩
    intro x
    rw [hl.mem x]
    constructor
    · intro hlisted
      have hk := kind_of_listed hlisted
      rw [role_own hk] at hlisted
      exact ⟨hk, hlisted⟩
    · rintro ⟨hk, hreg⟩
      rw [role_own hk]
      exact hreg

/-- Three telnet sessions and a stream.  The first two are in `poll` when `shutdown_all`
comes, a publisher's byte wakes the second one between its flag and its byte, and the
third registers behind. -/
def shutdownRun : List NetAct :=
  [.create 0 .telnet, .run 0 .go, .run 0 .go, .run 0 .go,
    .create 1 .telnet, .run 1 .go, .run 1 .go, .run 1 .go,
    .sweep .telnet, .sweep .telnet, .sweep .telnet,
    -- session 1 is flagged and has no byte of `shutdown_all` yet
    .publish 1, .run 1 (.ready false), .run 1 .go, .run 1 .go, .run 1 .go,
    .sweep .telnet, .sweep .telnet, .sweep .telnet, .sweep .telnet,
    .create 2 .telnet, .run 2 .go, .run 2 .go, .run 2 .go,
    .create 3 .http, .run 3 .go, .run 3 .go, .run 3 .go]

/-- Behind that run session 0 is in `poll` with a byte, session 1 is about to unregister,
session 2 has seen the flag at its first look, and the stream, whose registry is not shut
down, is in `poll`. -/
theorem shutdown_reaches_all_four :
    ∃ s, netSystem.Reachable s ∧ (s.reg .telnet).swept = true ∧
      ((s.sess 0).pc = .poll ∧ (s.sess 1).pc = .leave ∧ (s.sess 2).pc = .leave ∧
        (s.sess 3).pc = .poll) ∧
      (∀ x, (s.sess x).kind = .telnet → (s.sess x).pc.registered = true →
        (s.sess x).shutdownRequested = true) ∧
      0 < (s.sess 0).bytes := by
  let check : Net → Bool := fun s =>
    decide ((s.reg .telnet).swept = true ∧ (s.sess 0).kind = .telnet ∧ (s.sess 0).pc = .poll ∧
      (s.sess 1).pc = .leave ∧ (s.sess 2).pc = .leave ∧ (s.sess 3).pc = .poll)
  have heval : (netSystem.run netStart shutdownRun).any check = true := by decide +kernel
  obtain ⟨s, hrun, hcheck⟩ := TransitionSystem.exists_of_run check heval
  obtain ⟨hswept, hkind, hpc0, hpc1, hpc2, hpc3⟩ := of_decide_eq_true hcheck
  have hs : netSystem.Reachable s := TransitionSystem.run_reachable _ _ _ (.init rfl) hrun
  obtain ⟨hall, hsafe, -, -⟩ := shutdown_reaches_all hs
  have hpassed : (s.sess 0).passed = true := hall 0 (by rw [hkind]; exact hswept) (by rw [hpc0]; rfl)
  refine ⟨s, hs, hswept, ⟨hpc0, hpc1, hpc2, hpc3⟩, ?_, ?_⟩
  · intro x hx hreg
    exact (hsafe x (hall x (by rw [hx]; exact hswept) hreg)).1
  · exact Nat.pos_of_ne_zero fun hempty => (hsafe 0 hpassed).2 ⟨hpc0, hempty⟩

end NetServer.Core
