/-
  NetServer.Lib.Transducer — machines that read one symbol at a time and
  emit a list of outputs per symbol.

  A push-style decoder keeps all that must survive between two calls in its
  state, so that the cut points of its input cannot be seen in its output.
  This file states that once, for every machine:

    • `run_append` — the run over a concatenation is the two runs in turn,
    • `runChunks_eq_run_flatten` — any chunking of the input gives the same
      final state and the same outputs,
    • `run_flatMap` — a machine that returns to a set of rest states after
      every encoded item emits the items' outputs in order,
    • `run_cascade` — a machine whose steps are those of a first machine
      followed by a second one runs as the two do one after the other.
-/
import Mathlib.Data.List.Basic

namespace NetServer.Lib

/-- A deterministic machine: one symbol in, a list of outputs out. -/
structure Transducer (σ α β : Type*) where
  step : σ → α → σ × List β

namespace Transducer

variable {σ τ μ α β γ ι : Type*} (T : Transducer σ α β)

/-! ## §1. Runs. -/

/-- Read a whole word, collecting the outputs in order. -/
def run : σ → List α → σ × List β
  | s, [] => (s, [])
  | s, a :: as =>
      let r := T.step s a
      let q := run r.1 as
      (q.1, r.2 ++ q.2)

/-- Read a list of words, one call per word. -/
def runChunks : σ → List (List α) → σ × List β
  | s, [] => (s, [])
  | s, c :: cs =>
      let r := T.run s c
      let q := runChunks r.1 cs
      (q.1, r.2 ++ q.2)

@[simp] theorem run_nil (s : σ) : T.run s [] = (s, []) := rfl

@[simp] theorem run_cons (s : σ) (a : α) (as : List α) :
    T.run s (a :: as)
      = ((T.run (T.step s a).1 as).1,
          (T.step s a).2 ++ (T.run (T.step s a).1 as).2) := rfl

/-- The run over a concatenation is the two runs in turn. -/
theorem run_append (s : σ) (xs ys : List α) :
    T.run s (xs ++ ys)
      = ((T.run (T.run s xs).1 ys).1,
          (T.run s xs).2 ++ (T.run (T.run s xs).1 ys).2) := by
  induction xs generalizing s with
  | nil => rfl
  | cons x xs ih =>
      rw [List.cons_append, run_cons, ih, run_cons]
      simp only [List.append_assoc]

/-- **The cut points of the input cannot be observed.** -/
theorem runChunks_eq_run_flatten (s : σ) (cs : List (List α)) :
    T.runChunks s cs = T.run s cs.flatten := by
  induction cs generalizing s with
  | nil => rfl
  | cons c cs ih =>
      rw [List.flatten_cons, run_append]
      show ((T.runChunks (T.run s c).1 cs).1,
          (T.run s c).2 ++ (T.runChunks (T.run s c).1 cs).2) = _
      rw [ih]

/-! ## §2. Invariants and encoded items. -/

/-- If from every rest state the code of an item emits the item's outputs
and comes back to a rest state, then so does the code of a list of items. -/
theorem run_flatMap (Rest : σ → Prop) (code : ι → List α) (emit : ι → List β)
    (hitem : ∀ s i, Rest s →
      Rest (T.run s (code i)).1 ∧ (T.run s (code i)).2 = emit i)
    (s : σ) (is : List ι) (hs : Rest s) :
    Rest (T.run s (is.flatMap code)).1
      ∧ (T.run s (is.flatMap code)).2 = is.flatMap emit := by
  induction is generalizing s with
  | nil => exact ⟨hs, rfl⟩
  | cons i is ih =>
      obtain ⟨hrest, hemit⟩ := hitem s i hs
      obtain ⟨hrest', hemit'⟩ := ih _ hrest
      rw [List.flatMap_cons, run_append]
      refine ⟨hrest', ?_⟩
      show (T.run s (code i)).2 ++ (T.run (T.run s (code i)).1 (is.flatMap code)).2 = _
      rw [hemit, hemit', List.flatMap_cons]

/-! ## §3. Two machines in a row. -/

/-- If each step of `T` is a step of `M` whose outputs are read by `P`, then
`T` emits what `P` makes of the outputs of `M`, and the three states stay
related. -/
theorem run_cascade (M : Transducer μ α γ) (P : Transducer τ γ β) (R : σ → μ → τ → Prop)
    (hstep : ∀ s m t a, R s m t →
      R (T.step s a).1 (M.step m a).1 (P.run t (M.step m a).2).1
        ∧ (T.step s a).2 = (P.run t (M.step m a).2).2)
    (s : σ) (m : μ) (t : τ) (as : List α) (h : R s m t) :
    R (T.run s as).1 (M.run m as).1 (P.run t (M.run m as).2).1
      ∧ (T.run s as).2 = (P.run t (M.run m as).2).2 := by
  induction as generalizing s m t with
  | nil => exact ⟨h, rfl⟩
  | cons a as ih =>
      obtain ⟨hrel, hout⟩ := hstep s m t a h
      obtain ⟨hrel', hout'⟩ := ih _ _ _ hrel
      simp only [run_cons, P.run_append]
      refine ⟨hrel', ?_⟩
      rw [hout, hout']

end Transducer

end NetServer.Lib
