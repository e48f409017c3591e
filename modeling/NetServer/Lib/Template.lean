/-
  NetServer.Lib.Template — fixed texts with places for arguments.

  A format string is a list of literal parts and places; `fill` puts the
  arguments into the places in order.  What an output has of a kind of
  element that no argument contains comes from the literal parts
  (`filter_fill`), in their order.
-/
import Mathlib.Data.List.Basic

namespace NetServer.Lib

/-- A part of a template. -/
inductive Seg (α : Type*) where
  | lit (text : List α)
  | arg

variable {α : Type*}

/-- The output for a list of arguments. -/
def fill : List (Seg α) → List (List α) → List α
  | [], _ => []
  | .lit text :: t, args => text ++ fill t args
  | .arg :: t, a :: args => a ++ fill t args
  | .arg :: t, [] => fill t []

/-- The literal parts. -/
def literals : List (Seg α) → List α
  | [] => []
  | .lit text :: t => text ++ literals t
  | .arg :: t => literals t

/-- Elements that no argument has are those of the template. -/
theorem filter_fill {p : α → Bool} (t : List (Seg α)) :
    ∀ args : List (List α), (∀ a ∈ args, ∀ x ∈ a, p x = false) →
      (fill t args).filter p = (literals t).filter p := by
  induction t with
  | nil => intro args _; rfl
  | cons s t ih =>
    intro args hargs
    cases s with
    | lit text =>
      show (text ++ fill t args).filter p = (text ++ literals t).filter p
      rw [List.filter_append, List.filter_append, ih args hargs]
    | arg =>
      cases args with
      | nil => exact ih [] hargs
      | cons a args =>
        have ha : a.filter p = [] := by
          rw [List.filter_eq_nil_iff]
          intro x hx
          rw [hargs a List.mem_cons_self x hx]
          exact Bool.false_ne_true
        show (a ++ fill t args).filter p = (literals t).filter p
        rw [List.filter_append, ha, List.nil_append]
        exact ih args (fun b hb => hargs b (List.mem_cons_of_mem _ hb))

/-- The length of an output is bounded by the parts. -/
theorem length_fill_le (t : List (Seg α)) :
    ∀ args : List (List α), (fill t args).length ≤ (literals t).length + args.flatten.length := by
  induction t with
  | nil => intro args; exact Nat.zero_le _
  | cons s t ih =>
    intro args
    cases s with
    | lit text =>
      have htail := ih args
      show (text ++ fill t args).length ≤ (text ++ literals t).length + _
      rw [List.length_append, List.length_append]
      omega
    | arg =>
      cases args with
      | nil => exact ih []
      | cons a args =>
        have htail := ih args
        show (a ++ fill t args).length ≤ (literals t).length + (a ++ args.flatten).length
        rw [List.length_append, List.length_append]
        omega

end NetServer.Lib
