/-
  NetServer.Lib.Once — initialisation that runs once in a process, and restarts.

  Any number of threads call; the first one runs the routine, the others wait until
  it has returned, and every later call returns at once.  The process may end at any
  point, in the middle of the routine too, and start again: then the control variable
  is fresh and the shared state is what `boot` makes of what was left.

    • `Rule.sound` — the invariant rule: what holds before, in the middle of and
      behind the routine, in every state of every life;
    • `Process.Sound.finished` — a call returns only when the routine is finished;
    • `Along.later` — the shared state moves along a preorder, through all lives.
-/
import NetServer.Lib.TransitionSystem

namespace NetServer.Lib.Once

open NetServer.Lib

/-! ## §1. The control variable. -/

/-- The control variable, with the position of the thread that runs the routine. -/
inductive Control (π : Type*) where
  | never
  | running (pc : π)
  | done
  deriving Repr, DecidableEq

/-- A thread, seen from the call. -/
inductive Caller where
  | outside
  | calling
  /-- The thread that runs the routine. -/
  | inside
  | returned
  deriving Repr, DecidableEq

/-- A routine over shared state, and what is done around it.  A step has an outcome chosen by the
environment. -/
structure Program (σ π ε υ β : Type*) where
  start : π
  /-- One step of the routine; without a next position it returns. -/
  step : σ → π → ε → Option (σ × Option π)
  /-- What a thread does behind the call. -/
  use : σ → υ → Option σ
  /-- What a new process finds. -/
  boot : σ → β → σ

/-- A process. -/
structure Process (σ π : Type*) where
  shared : σ
  control : Control π
  callers : Nat → Caller

inductive Act (ε υ β : Type*) where
  | boot (b : β)
  | call (x : Nat)
  /-- The call looks at the control variable. -/
  | enter (x : Nat)
  | run (e : ε)
  | use (x : Nat) (u : υ)
  | leave (x : Nat)

variable {σ π ε υ β : Type*}

/-- The routine goes on, or returns together with the call that ran it. -/
def Process.goOn (s : Process σ π) (sh : σ) : Option π → Process σ π
  | some pc => { s with shared := sh, control := .running pc }
  | none =>
    { shared := sh
      control := .done
      callers := fun x => if s.callers x = .inside then .returned else s.callers x }

def Process.enter (P : Program σ π ε υ β) (s : Process σ π) (x : Nat) : Option (Process σ π) :=
  match s.control with
  | .never =>
    some { s with control := .running P.start, callers := Function.update s.callers x .inside }
  | .running _ => none
  | .done => some { s with callers := Function.update s.callers x .returned }

def Process.runStep (P : Program σ π ε υ β) (s : Process σ π) (e : ε) : Option (Process σ π) :=
  match s.control with
  | .running pc => (P.step s.shared pc e).map fun r => s.goOn r.1 r.2
  | _ => none

def Process.step (P : Program σ π ε υ β) (s : Process σ π) : Act ε υ β → Option (Process σ π)
  | .boot b => some { shared := P.boot s.shared b, control := .never, callers := fun _ => .outside }
  | .call x =>
    if s.callers x = .outside then some { s with callers := Function.update s.callers x .calling }
    else none
  | .enter x => if s.callers x = .calling then s.enter P x else none
  | .run e => s.runStep P e
  | .use x u =>
    if s.callers x = .returned then (P.use s.shared u).map fun sh => { s with shared := sh } else none
  | .leave x =>
    if s.callers x = .returned then some { s with callers := Function.update s.callers x .outside }
    else none

/-- A process at its start. -/
def Process.fresh (sh : σ) : Process σ π := ⟨sh, .never, fun _ => .outside⟩

/-- The lives of a program, from the shared states in `init` on. -/
def system (P : Program σ π ε υ β) (init : σ → Prop) : TransitionSystem (Process σ π) (Act ε υ β) where
  init s := ∃ sh, init sh ∧ s = .fresh sh
  step s act := s.step P act

/-! ## §2. What a caller may rely on. -/

variable {P : Program σ π ε υ β} {init : σ → Prop}

/-- An invariant in three parts: before the routine, in the middle of it, behind it. -/
structure Rule (P : Program σ π ε υ β) (Before : σ → Prop) (Mid : π → σ → Prop) (Ready : σ → Prop) :
    Prop where
  bootBefore : ∀ s b, Before s → Before (P.boot s b)
  bootMid : ∀ pc s b, Mid pc s → Before (P.boot s b)
  bootReady : ∀ s b, Ready s → Before (P.boot s b)
  start : ∀ s, Before s → Mid P.start s
  step : ∀ s pc e s' pc', Mid pc s → P.step s pc e = some (s', some pc') → Mid pc' s'
  finish : ∀ s pc e s', Mid pc s → P.step s pc e = some (s', none) → Ready s'
  use : ∀ s u s', Ready s → P.use s u = some s' → Ready s'

/-- The part of the invariant that the control variable stands for, and where the callers are
then. -/
def Process.Sound (Before : σ → Prop) (Mid : π → σ → Prop) (Ready : σ → Prop) (s : Process σ π) :
    Prop :=
  match s.control with
  | .never => Before s.shared ∧ ∀ x, s.callers x ≠ .returned
  | .running pc => Mid pc s.shared ∧ ∀ x, s.callers x ≠ .returned
  | .done => Ready s.shared

section

variable {Before : σ → Prop} {Mid : π → σ → Prop} {Ready : σ → Prop} {s s' : Process σ π}

theorem sound_never (h : s.control = .never) :
    s.Sound Before Mid Ready ↔ Before s.shared ∧ ∀ x, s.callers x ≠ .returned := by
  unfold Process.Sound
  rw [h]

theorem sound_running {pc : π} (h : s.control = .running pc) :
    s.Sound Before Mid Ready ↔ Mid pc s.shared ∧ ∀ x, s.callers x ≠ .returned := by
  unfold Process.Sound
  rw [h]

theorem sound_done (h : s.control = .done) : s.Sound Before Mid Ready ↔ Ready s.shared := by
  unfold Process.Sound
  rw [h]

/-- A call returns only when the routine is finished. -/
theorem Process.Sound.finished (h : s.Sound Before Mid Ready) {x : Nat}
    (hx : s.callers x = .returned) : s.control = .done ∧ Ready s.shared := by
  cases hc : s.control with
  | never => exact absurd hx (((sound_never hc).mp h).2 x)
  | running pc => exact absurd hx (((sound_running hc).mp h).2 x)
  | done => exact ⟨rfl, (sound_done hc).mp h⟩

/-- A thread comes or goes, and has not returned from the call. -/
theorem Process.Sound.move (h : s.Sound Before Mid Ready) {x : Nat} {c : Caller}
    (hc : c ≠ .returned) :
    Process.Sound Before Mid Ready { s with callers := Function.update s.callers x c } := by
  have hothers : (∀ y, s.callers y ≠ .returned) → ∀ y, Function.update s.callers x c y ≠ .returned := by
    intro hall y
    by_cases hy : y = x
    · rw [hy, Function.update_self]
      exact hc
    · rw [Function.update_of_ne hy]
      exact hall y
  cases hctl : s.control with
  | never =>
    obtain ⟨hbefore, hall⟩ := (sound_never hctl).mp h
    exact (sound_never rfl).mpr ⟨hbefore, hothers hall⟩
  | running pc =>
    obtain ⟨hmid, hall⟩ := (sound_running hctl).mp h
    exact (sound_running rfl).mpr ⟨hmid, hothers hall⟩
  | done => exact (sound_done rfl).mpr ((sound_done hctl).mp h)

theorem Process.Sound.enter (hrule : Rule P Before Mid Ready) (h : s.Sound Before Mid Ready) {x : Nat}
    (hstep : s.enter P x = some s') : s'.Sound Before Mid Ready := by
  unfold Process.enter at hstep
  cases hctl : s.control with
  | never =>
    rw [hctl] at hstep
    cases hstep
    obtain ⟨hbefore, hall⟩ := (sound_never hctl).mp h
    refine (sound_running rfl).mpr ⟨hrule.start _ hbefore, fun y => ?_⟩
    by_cases hy : y = x
    · rw [hy]
      simp only [Function.update_self]
      exact nofun
    · simp only [Function.update_of_ne hy]
      exact hall y
  | running pc =>
    rw [hctl] at hstep
    cases hstep
  | done =>
    rw [hctl] at hstep
    cases hstep
    exact (sound_done rfl).mpr ((sound_done hctl).mp h)

theorem Process.Sound.run (hrule : Rule P Before Mid Ready) (h : s.Sound Before Mid Ready) {e : ε}
    (hstep : s.runStep P e = some s') : s'.Sound Before Mid Ready := by
  unfold Process.runStep at hstep
  cases hctl : s.control with
  | never =>
    rw [hctl] at hstep
    cases hstep
  | done =>
    rw [hctl] at hstep
    cases hstep
  | running pc =>
    rw [hctl] at hstep
    obtain ⟨hmid, hall⟩ := (sound_running hctl).mp h
    obtain ⟨⟨sh, next⟩, hown, rfl⟩ := Option.map_eq_some_iff.mp hstep
    cases next with
    | none => exact (sound_done rfl).mpr (hrule.finish _ _ _ _ hmid hown)
    | some pc' => exact (sound_running rfl).mpr ⟨hrule.step _ _ _ _ _ hmid hown, hall⟩

theorem Process.Sound.before (hrule : Rule P Before Mid Ready) (h : s.Sound Before Mid Ready) (b : β) :
    Before (P.boot s.shared b) := by
  cases hctl : s.control with
  | never => exact hrule.bootBefore _ _ ((sound_never hctl).mp h).1
  | running pc => exact hrule.bootMid pc _ _ ((sound_running hctl).mp h).1
  | done => exact hrule.bootReady _ _ ((sound_done hctl).mp h)

theorem Process.Sound.step (hrule : Rule P Before Mid Ready) (h : s.Sound Before Mid Ready)
    {act : Act ε υ β} (hstep : s.step P act = some s') : s'.Sound Before Mid Ready := by
  cases act with
  | boot b =>
    cases hstep
    exact (sound_never rfl).mpr ⟨h.before hrule b, fun _ => nofun⟩
  | call x =>
    obtain ⟨-, heq⟩ := Option.ite_none_right_eq_some.mp hstep
    cases heq
    exact h.move nofun
  | enter x => exact h.enter hrule (Option.ite_none_right_eq_some.mp hstep).2
  | run e => exact h.run hrule hstep
  | use x u =>
    obtain ⟨hx, heq⟩ := Option.ite_none_right_eq_some.mp hstep
    obtain ⟨sh, hown, rfl⟩ := Option.map_eq_some_iff.mp heq
    obtain ⟨hdone, hready⟩ := h.finished hx
    exact (sound_done (s := { s with shared := sh }) hdone).mpr (hrule.use _ _ _ hready hown)
  | leave x =>
    obtain ⟨-, heq⟩ := Option.ite_none_right_eq_some.mp hstep
    cases heq
    exact h.move nofun

/-- **The rule**, over all lives. -/
theorem Rule.sound (hrule : Rule P Before Mid Ready) (hinit : ∀ sh, init sh → Before sh)
    (h : (system P init).Reachable s) : s.Sound Before Mid Ready := by
  refine TransitionSystem.ReachableVia.invariant ?_ ?_ h
  · rintro s ⟨sh, hsh, rfl⟩
    exact (sound_never rfl).mpr ⟨hinit sh hsh, fun _ => nofun⟩
  · intro s act s' hs hstep _
    exact hs.step hrule hstep

end

/-! ## §3. What never changes back. -/

/-- The shared state moves along a preorder. -/
structure Along (P : Program σ π ε υ β) (R : σ → σ → Prop) : Prop where
  refl : ∀ s, R s s
  trans : ∀ s t u, R s t → R t u → R s u
  boot : ∀ s b, R s (P.boot s b)
  step : ∀ s pc e s' next, P.step s pc e = some (s', next) → R s s'
  use : ∀ s u s', P.use s u = some s' → R s s'

theorem Along.one {R : σ → σ → Prop} (h : Along P R) {s s' : Process σ π} {act : Act ε υ β}
    (hstep : s.step P act = some s') : R s.shared s'.shared := by
  cases act with
  | boot b =>
    cases hstep
    exact h.boot _ b
  | call x =>
    obtain ⟨-, heq⟩ := Option.ite_none_right_eq_some.mp hstep
    cases heq
    exact h.refl _
  | enter x =>
    have hown := (Option.ite_none_right_eq_some.mp hstep).2
    unfold Process.enter at hown
    cases hctl : s.control <;> rw [hctl] at hown <;> cases hown <;> exact h.refl _
  | run e =>
    have hown : s.runStep P e = some s' := hstep
    unfold Process.runStep at hown
    cases hctl : s.control with
    | never => rw [hctl] at hown; cases hown
    | done => rw [hctl] at hown; cases hown
    | running pc =>
      rw [hctl] at hown
      obtain ⟨⟨sh, next⟩, hnext, rfl⟩ := Option.map_eq_some_iff.mp hown
      cases next <;> exact h.step _ _ _ _ _ hnext
  | use x u =>
    obtain ⟨-, heq⟩ := Option.ite_none_right_eq_some.mp hstep
    obtain ⟨sh, hown, rfl⟩ := Option.map_eq_some_iff.mp heq
    exact h.use _ _ _ hown
  | leave x =>
    obtain ⟨-, heq⟩ := Option.ite_none_right_eq_some.mp hstep
    cases heq
    exact h.refl _

/-- From a state on, through any number of lives. -/
theorem Along.later {R : σ → σ → Prop} (h : Along P R) {s t : Process σ π}
    (ht : ((system P init).startingAt s).Reachable t) : R s.shared t.shared := by
  refine TransitionSystem.ReachableVia.invariant (P := fun u => R s.shared u.shared) ?_ ?_ ht
  · intro u hu
    rw [show u = s from hu]
    exact h.refl _
  · intro u act u' hu hstep _
    exact h.trans _ _ _ hu (h.one hstep)

end NetServer.Lib.Once
