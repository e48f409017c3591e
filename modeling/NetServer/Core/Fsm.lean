/-
  NetServer.Core.Fsm — the table-driven FSM engine of `core/fsm.c`.

  The engine holds no domain knowledge: states, events, the context the
  actions work on and the event payload are parameters.  The current state is
  kept apart from the context, because an action cannot see the state it is
  about to be moved to: the engine writes `current_state` after the action
  has returned.

    • `fsmDispatch_row` / `fsmDispatch_ignored` — the two outcomes of a
      dispatch, by the first matching row.
-/
import Mathlib.Data.List.Basic

namespace NetServer.Core

/-- Result of a transition action (`fsm_action_result_t`). -/
inductive FsmActionResult where
  | ok
  | error
  deriving Repr, DecidableEq

/-- One row of a transition table (`fsm_transition_t`); `action = none` is the
NULL action. -/
structure FsmTransition (S E C D : Type*) where
  state : S
  event : E
  action : Option (C → E → D → C × FsmActionResult)
  nextState : S
  errorState : S

/-- Immutable machine definition (`fsm_def_t`). -/
structure FsmDef (S E C D : Type*) where
  table : List (FsmTransition S E C D)
  initialState : S
  terminalState : S

section Engine

variable {S E C D : Type*} [DecidableEq S] [DecidableEq E]

/-- `fsm_init`: the state of a fresh instance. -/
def fsmInit (d : FsmDef S E C D) : S := d.initialState

/-- The first row for (state, event): the engine's linear scan. -/
def fsmLookup (d : FsmDef S E C D) (cur : S) (ev : E) : Option (FsmTransition S E C D) :=
  d.table.find? (fun t => t.state = cur && t.event = ev)

/-- What one matched row does. -/
def fsmTake (t : FsmTransition S E C D) (ev : E) (ctx : C) (data : D) : S × C :=
  match t.action with
  | none => (t.nextState, ctx)
  | some act =>
      let r := act ctx ev data
      (if r.2 = .ok then t.nextState else t.errorState, r.1)

/-- `fsm_dispatch`: new state, new context and the return value (0 when a
row matched, -1 when the event was ignored). -/
def fsmDispatch (d : FsmDef S E C D) (cur : S) (ev : E) (ctx : C) (data : D) :
    S × C × Int :=
  match fsmLookup d cur ev with
  | some t =>
      let r := fsmTake t ev ctx data
      (r.1, r.2, 0)
  | none => (cur, ctx, -1)

/-- `fsm_is_terminal`. -/
def fsmIsTerminal (d : FsmDef S E C D) (cur : S) : Bool := cur = d.terminalState

omit [DecidableEq S] [DecidableEq E] in
theorem fsmTake_action {t : FsmTransition S E C D} {act : C → E → D → C × FsmActionResult}
    (h : t.action = some act) (ev : E) (ctx : C) (data : D) :
    fsmTake t ev ctx data
      = (if (act ctx ev data).2 = .ok then t.nextState else t.errorState, (act ctx ev data).1) := by
  unfold fsmTake
  rw [h]

theorem fsmDispatch_row {d : FsmDef S E C D} {cur : S} {ev : E} {t : FsmTransition S E C D}
    (h : fsmLookup d cur ev = some t) (ctx : C) (data : D) :
    fsmDispatch d cur ev ctx data
      = ((fsmTake t ev ctx data).1, (fsmTake t ev ctx data).2, 0) := by
  simp [fsmDispatch, h]

theorem fsmDispatch_ignored {d : FsmDef S E C D} {cur : S} {ev : E}
    (h : fsmLookup d cur ev = none) (ctx : C) (data : D) :
    fsmDispatch d cur ev ctx data = (cur, ctx, -1) := by
  simp [fsmDispatch, h]

end Engine

end NetServer.Core
