/-
  NetServer.Lib.Roster — a list of who is there, kept by those who come and go.

  Members come under a key (a name, an address) and the list has one row per
  key, with the time it was last written.  A member writes the row when it
  comes and again while it stays, and deletes it when it goes; several
  members may come under one key.

    • `NoGhost.step`  — every row has a member, whoever shares a key;
    • `Complete.step` — every member has its row, as long as nobody goes while
      another member with the same key stays;
    • `Step.row_of_member` — the row of a key with one member changes only when
      it is written.
-/
import Mathlib.Logic.Function.Basic

namespace NetServer.Lib

/-- The key each member is there under, and the rows. -/
structure Roster (ι κ τ : Type*) where
  holds : ι → Option κ
  rows : κ → Option τ

namespace Roster

variable {ι κ τ : Type*} [DecidableEq ι] [DecidableEq κ]

/-- One operation at time `now`: nothing, a write of a row by a member that is
there under its key or nowhere, or a deletion by a member that goes. -/
inductive Step (now : τ) (s : Roster ι κ τ) : Roster ι κ τ → Prop where
  | stay : Step now s s
  | set (x : ι) (k : κ) (h : s.holds x = none ∨ s.holds x = some k) :
      Step now s
        { holds := Function.update s.holds x (some k), rows := Function.update s.rows k (some now) }
  | clear (x : ι) (k : κ) (h : s.holds x = some k) :
      Step now s
        { holds := Function.update s.holds x none, rows := Function.update s.rows k none }

/-- Every row has a member. -/
def NoGhost (s : Roster ι κ τ) : Prop := ∀ k t, s.rows k = some t → ∃ x, s.holds x = some k

/-- Every member has its row. -/
def Complete (s : Roster ι κ τ) : Prop := ∀ x k, s.holds x = some k → ∃ t, s.rows k = some t

/-- A member that goes from `s` to `s'` is the only one with its key. -/
def GoesAlone (s s' : Roster ι κ τ) : Prop :=
  ∀ x k, s.holds x = some k → s'.holds x = none → ∀ y, y ≠ x → s.holds y ≠ some k

variable {s s' : Roster ι κ τ} {now : τ}

theorem NoGhost.step (h : s.NoGhost) (hstep : s.Step now s') : s'.NoGhost := by
  cases hstep with
  | stay => exact h
  | set x k hx =>
    intro k' t' hrow
    by_cases hk : k' = k
    · exact ⟨x, by rw [hk]; exact Function.update_self ..⟩
    · -- another row: its member is not `x`, which has no other key
      have hrow : Function.update s.rows k (some now) k' = some t' := hrow
      rw [Function.update_of_ne hk] at hrow
      obtain ⟨y, hy⟩ := h k' t' hrow
      have hyx : y ≠ x := by
        rintro rfl
        rcases hx with hx | hx
        · exact absurd (hx.symm.trans hy) nofun
        · exact hk (Option.some.inj (hy.symm.trans hx))
      exact ⟨y, (Function.update_of_ne hyx ..).trans hy⟩
  | clear x k hx =>
    intro k' t' hrow
    have hrow : Function.update s.rows k none k' = some t' := hrow
    by_cases hk : k' = k
    · rw [hk, Function.update_self] at hrow
      exact absurd hrow nofun
    · rw [Function.update_of_ne hk] at hrow
      obtain ⟨y, hy⟩ := h k' t' hrow
      have hyx : y ≠ x := by
        rintro rfl
        exact hk (Option.some.inj (hy.symm.trans hx))
      exact ⟨y, (Function.update_of_ne hyx ..).trans hy⟩

theorem Complete.step (h : s.Complete) (hstep : s.Step now s') (halone : s.GoesAlone s') :
    s'.Complete := by
  cases hstep with
  | stay => exact h
  | set x k hx =>
    intro y k' hy
    show ∃ t, Function.update s.rows k (some now) k' = some t
    by_cases hk : k' = k
    · exact ⟨now, by rw [hk, Function.update_self]⟩
    · have hyx : y ≠ x := by
        rintro rfl
        have hy : Function.update s.holds y (some k) y = some k' := hy
        rw [Function.update_self] at hy
        exact hk (Option.some.inj hy).symm
      rw [Function.update_of_ne hk]
      exact h y k' ((Function.update_of_ne hyx ..).symm.trans hy)
  | clear x k hx =>
    intro y k' hy
    show ∃ t, Function.update s.rows k none k' = some t
    have hyx : y ≠ x := by
      rintro rfl
      have hy : Function.update s.holds y none y = some k' := hy
      rw [Function.update_self] at hy
      exact absurd hy nofun
    have hold : s.holds y = some k' := (Function.update_of_ne hyx ..).symm.trans hy
    have hk : k' ≠ k := by
      rintro rfl
      exact halone x k' hx (Function.update_self ..) y hyx hold
    rw [Function.update_of_ne hk]
    exact h y k' hold

/-- The row of a member whose key nobody else has: it was there under that key
and the row is as it was, or the row is written now. -/
theorem Step.row_of_member (hstep : s.Step now s') {y : ι} {k : κ} (hy' : s'.holds y = some k)
    (hown : s.holds y = some k → ∀ x, s.holds x = some k → x = y) :
    (s.holds y = some k ∧ s'.rows k = s.rows k) ∨ s'.rows k = some now := by
  cases hstep with
  | stay => exact Or.inl ⟨hy', rfl⟩
  | set x k' hx =>
    show (_ ∧ Function.update s.rows k' (some now) k = _) ∨ Function.update s.rows k' (some now) k = _
    have hy' : Function.update s.holds x (some k') y = some k := hy'
    by_cases hk : k = k'
    · exact Or.inr (by rw [hk, Function.update_self])
    · have hyx : y ≠ x := by
        rintro rfl
        rw [Function.update_self] at hy'
        exact hk (Option.some.inj hy').symm
      rw [Function.update_of_ne hyx] at hy'
      exact Or.inl ⟨hy', Function.update_of_ne hk ..⟩
  | clear x k' hx =>
    have hy' : Function.update s.holds x none y = some k := hy'
    have hyx : y ≠ x := by
      rintro rfl
      rw [Function.update_self] at hy'
      exact absurd hy' nofun
    rw [Function.update_of_ne hyx] at hy'
    have hk : k ≠ k' := by
      intro hk
      exact hyx (hown hy' x (hk ▸ hx)).symm
    exact Or.inl ⟨hy', Function.update_of_ne hk ..⟩

end Roster

end NetServer.Lib
