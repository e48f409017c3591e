/-
  NetServer.Lib.TransitionSystem — guarded, labelled transition systems.

  A step is a partial function of the state and a label; a label carries the
  choices of the environment, so a schedule is a list of labels and every
  concrete run can be evaluated.  `ReachableVia ok` restricts the steps that
  may be taken, which is how an assumption about the schedule, or about every
  state passed through, is stated.

    • `ReachableVia.invariant` — the induction rule, once for all invariants;
    • `ReachableVia.strengthen` — the steps may be restricted by any property
      already known of the states;
    • `run_reachable` — a schedule that runs to the end reaches its end state;
    • `exists_of_run` — a schedule that can be evaluated has an end;
    • `monitored_reachable` — a value that follows the steps adds no states;
    • `ReachableVia.invariant_from` — the induction rule from a state on.
-/
import Mathlib.Data.List.Basic
import Mathlib.Logic.Basic

namespace NetServer.Lib

/-- Initial states and a guarded step. -/
structure TransitionSystem (σ α : Type*) where
  init : σ → Prop
  step : σ → α → Option σ

namespace TransitionSystem

variable {σ α : Type*} (T : TransitionSystem σ α)

/-! ## §1. Schedules. -/

/-- Run a schedule; `none` as soon as a step is not enabled. -/
def run : σ → List α → Option σ
  | s, [] => some s
  | s, a :: as => (T.step s a).bind (fun s' => run s' as)

@[simp] theorem run_nil (s : σ) : T.run s [] = some s := rfl

theorem run_cons (s : σ) (a : α) (as : List α) :
    T.run s (a :: as) = (T.step s a).bind (fun s' => T.run s' as) := rfl

theorem run_append (s : σ) (as bs : List α) :
    T.run s (as ++ bs) = (T.run s as).bind (fun s' => T.run s' bs) := by
  induction as generalizing s with
  | nil => rfl
  | cons a as ih =>
      rw [List.cons_append, run_cons, run_cons]
      cases T.step s a with
      | none => rfl
      | some s' => exact ih s'

/-! ## §2. Reachability. -/

/-- Reachable by steps that all satisfy `ok` (state, label, next state). -/
inductive ReachableVia (ok : σ → α → σ → Prop) : σ → Prop where
  | init {s : σ} : T.init s → ReachableVia ok s
  | step {s : σ} {a : α} {s' : σ} :
      ReachableVia ok s → T.step s a = some s' → ok s a s' → ReachableVia ok s'

/-- Reachable by any steps. -/
def Reachable : σ → Prop := T.ReachableVia (fun _ _ _ => True)

variable {T}

/-- **The invariant rule.** -/
theorem ReachableVia.invariant {ok : σ → α → σ → Prop} {P : σ → Prop}
    (hinit : ∀ s, T.init s → P s)
    (hstep : ∀ s a s', P s → T.step s a = some s' → ok s a s' → P s')
    {s : σ} (h : T.ReachableVia ok s) : P s := by
  induction h with
  | init hs => exact hinit _ hs
  | step _ ht hok ih => exact hstep _ _ _ ih ht hok

theorem ReachableVia.mono {ok ok' : σ → α → σ → Prop}
    (himp : ∀ s a s', ok s a s' → ok' s a s') {s : σ} (h : T.ReachableVia ok s) :
    T.ReachableVia ok' s := by
  induction h with
  | init hs => exact .init hs
  | step _ ht hok ih => exact .step ih ht (himp _ _ _ hok)

theorem ReachableVia.reachable {ok : σ → α → σ → Prop} {s : σ} (h : T.ReachableVia ok s) :
    T.Reachable s :=
  h.mono (fun _ _ _ _ => trivial)

/-- The invariant rule relative to what is already known of all states. -/
theorem ReachableVia.strengthen {ok : σ → α → σ → Prop} {Q P : σ → Prop}
    (hQ : ∀ s, T.ReachableVia ok s → Q s)
    (hinit : ∀ s, T.init s → P s)
    (hstep : ∀ s a s', Q s → P s → T.step s a = some s' → ok s a s' → P s')
    {s : σ} (h : T.ReachableVia ok s) : P s := by
  induction h with
  | init hs => exact hinit _ hs
  | step hr ht hok ih => exact hstep _ _ _ (hQ _ hr) ih ht hok

/-- A schedule from a reachable state ends in a reachable state. -/
theorem run_reachable :
    ∀ (as : List α) (s t : σ), T.Reachable s → T.run s as = some t → T.Reachable t
  | [], s, t, hs, h => by
      have hst : s = t := Option.some.inj h
      rw [← hst]
      exact hs
  | a :: as, s, t, hs, h => by
      rw [run_cons, Option.bind_eq_some_iff] at h
      obtain ⟨s', hstep, hrun⟩ := h
      exact run_reachable as s' t (.step hs hstep trivial) hrun

/-- A schedule whose end passes a test has an end. -/
theorem exists_of_run {s : σ} {as : List α} (check : σ → Bool)
    (h : (T.run s as).any check = true) : ∃ t, T.run s as = some t ∧ check t = true :=
  (Option.any_eq_true _ _).mp h

/-- Only the steps that pass a test. -/
def guarded (T : TransitionSystem σ α) (test : σ → α → Bool) : TransitionSystem σ α :=
  { T with step := fun s a => if test s a then T.step s a else none }

/-- A schedule whose steps pass a test is a run of the restricted system, when
the test, with an invariant, gives the restriction. -/
theorem run_guarded {test : σ → α → Bool} {ok : σ → α → σ → Prop} {P : σ → Prop}
    (hP : ∀ s a s', P s → test s a = true → T.step s a = some s' → P s' ∧ ok s a s') :
    ∀ (as : List α) (s t : σ), T.ReachableVia ok s → P s → (T.guarded test).run s as = some t →
      T.ReachableVia ok t ∧ P t
  | [], s, t, hs, hPs, h => by
      have hst : s = t := Option.some.inj h
      rw [← hst]
      exact ⟨hs, hPs⟩
  | a :: as, s, t, hs, hPs, h => by
      rw [run_cons, Option.bind_eq_some_iff] at h
      obtain ⟨s', hstep, hrun⟩ := h
      obtain ⟨htest, hstep⟩ := Option.ite_none_right_eq_some.mp hstep
      obtain ⟨hPs', hok⟩ := hP s a s' hPs htest hstep
      exact run_guarded hP as s' t (.step hs hstep hok) hPs' hrun

/-! ## §3. Monitors. -/

/-- The system with a value beside it that follows its steps: what has to be
remembered of a run to say when a step is on time, or in order. -/
def monitored {μ : Type*} (T : TransitionSystem σ α) (start : σ → μ) (watch : σ → α → μ → μ) :
    TransitionSystem (σ × μ) α where
  init := fun p => T.init p.1 ∧ p.2 = start p.1
  step := fun p a => (T.step p.1 a).map (·, watch p.1 a p.2)

/-- A step of the system, seen by the monitor. -/
theorem monitored_step {μ : Type*} {start : σ → μ} {watch : σ → α → μ → μ} {p p' : σ × μ} {a : α}
    (h : (T.monitored start watch).step p a = some p') :
    T.step p.1 a = some p'.1 ∧ p'.2 = watch p.1 a p.2 := by
  obtain ⟨s', hstep, heq⟩ := Option.map_eq_some_iff.mp h
  cases heq
  exact ⟨hstep, rfl⟩

/-- A monitor does not add states. -/
theorem monitored_reachable {μ : Type*} {start : σ → μ} {watch : σ → α → μ → μ}
    {ok : σ × μ → α → σ × μ → Prop} {p : σ × μ}
    (h : (T.monitored start watch).ReachableVia ok p) : T.Reachable p.1 := by
  induction h with
  | init hp => exact .init hp.1
  | step _ hstep _ ih => exact .step ih (monitored_step hstep).1 trivial

/-! ## §4. Going on from a state. -/

/-- The same steps, started at `s`. -/
def startingAt (T : TransitionSystem σ α) (s : σ) : TransitionSystem σ α :=
  { T with init := fun t => t = s }

theorem ReachableVia.single {ok : σ → α → σ → Prop} {s s' : σ} {a : α} (h : T.step s a = some s')
    (hok : ok s a s') : (T.startingAt s).ReachableVia ok s' :=
  .step (.init rfl) h hok

/-- A run may go on from where another one ended. -/
theorem ReachableVia.trans {ok : σ → α → σ → Prop} {s t : σ} (hs : T.ReachableVia ok s)
    (ht : (T.startingAt s).ReachableVia ok t) : T.ReachableVia ok t := by
  induction ht with
  | init hst =>
    have heq : _ = s := hst
    rw [heq]
    exact hs
  | step _ hstep hok ih => exact .step ih hstep hok

/-- The invariant rule for the rest of a run. -/
theorem ReachableVia.invariant_from {ok : σ → α → σ → Prop} {s : σ} {P : σ → Prop}
    (hs : T.ReachableVia ok s) (hP : P s)
    (hstep : ∀ u a u', T.ReachableVia ok u → P u → T.step u a = some u' → ok u a u' → P u')
    {t : σ} (ht : (T.startingAt s).ReachableVia ok t) : P t := by
  induction ht with
  | init hst =>
    have heq : _ = s := hst
    rw [heq]
    exact hP
  | step hr ht hok ih => exact hstep _ _ _ (hs.trans hr) ih ht hok

end TransitionSystem

end NetServer.Lib
