/-
  NetServer.Lib.SlotList — a bounded array used as a set.

  `insert` writes behind the last element when there is room; `remove` finds
  the first match, puts the last element in its place and shortens the array.
  As long as the elements are distinct the array is a set: `remove` keeps
  every other element, wherever it ends up.

    • `mem_insert`, `nodup_insert`, `length_insert_le`
    • `mem_remove`, `nodup_remove`, `length_remove_le`
-/
import Mathlib.Data.List.Nodup
import Mathlib.Data.List.Perm.Basic

namespace NetServer.Lib.SlotList

variable {α : Type*}

/-- Append `a` unless the array holds `cap` elements already. -/
def insert (cap : Nat) (l : List α) (a : α) : List α :=
  if l.length < cap then l ++ [a] else l

/-! ## §1. Insertion. -/

theorem mem_insert {cap : Nat} {l : List α} {a b : α} :
    b ∈ insert cap l a ↔ b ∈ l ∨ (l.length < cap ∧ b = a) := by
  unfold insert
  by_cases h : l.length < cap
  · simp [h]
  · simp [h]

theorem nodup_insert {cap : Nat} {l : List α} {a : α} (hl : l.Nodup) (ha : a ∉ l) :
    (insert cap l a).Nodup := by
  unfold insert
  split
  · rw [List.nodup_append]
    refine ⟨hl, List.nodup_singleton a, ?_⟩
    intro x hx y hy hxy
    rw [List.mem_singleton] at hy
    exact ha (by rw [← hy, ← hxy]; exact hx)
  · exact hl

theorem length_insert_le {cap : Nat} {l : List α} {a : α} (hl : l.length ≤ cap) :
    (insert cap l a).length ≤ cap := by
  unfold insert
  split
  · rw [List.length_append, List.length_singleton]
    omega
  · exact hl

/-! ## §2. Removal. -/

variable [DecidableEq α]

/-- Overwrite the first `a` by the last element and drop the last place. -/
def remove (l : List α) (a : α) : List α :=
  match l.idxOf? a with
  | some i => (l.set i (l.getLastD a)).dropLast
  | none => l

/-- Moving the last element into the place of `a` and dropping the last place
permutes what is left when `a` is taken out. -/
theorem remove_perm (l : List α) (a : α) : (remove l a).Perm (l.erase a) := by
  unfold remove
  rw [List.erase_eq_eraseIdx]
  cases hidx : l.idxOf? a with
  | none => exact List.Perm.refl l
  | some i =>
    show ((l.set i (l.getLastD a)).dropLast).Perm (l.eraseIdx i)
    obtain ⟨hi, -, -⟩ := List.findIdx?_eq_some_iff_getElem.mp hidx
    obtain ⟨front, z, rfl⟩ : ∃ front z, l = front ++ [z] := by
      have hne : l ≠ [] := by rintro rfl; exact absurd hi (by simp)
      exact ⟨l.dropLast, l.getLast hne, (List.dropLast_append_getLast hne).symm⟩
    rw [List.getLastD_concat]
    by_cases hlast : i < front.length
    · -- The match is before the last place: the last element moves into it.
      rw [List.set_append_left i z hlast, List.dropLast_concat,
        List.eraseIdx_append_of_lt_length hlast]
      exact (List.set_perm_cons_eraseIdx hlast z).trans
        (List.perm_append_singleton z (front.eraseIdx i)).symm
    · -- The match is the last place.
      have hi' : i = front.length := by
        rw [List.length_append, List.length_singleton] at hi
        omega
      subst hi'
      rw [List.set_append_right _ _ (Nat.le_refl _), List.eraseIdx_append_of_length_le (Nat.le_refl _)]
      simp

theorem mem_remove {l : List α} (hl : l.Nodup) {a b : α} :
    b ∈ remove l a ↔ b ∈ l ∧ b ≠ a := by
  rw [(remove_perm l a).mem_iff, hl.mem_erase_iff]
  exact and_comm

theorem nodup_remove {l : List α} (hl : l.Nodup) (a : α) : (remove l a).Nodup :=
  (remove_perm l a).nodup_iff.mpr (hl.erase a)

theorem length_remove_le (l : List α) (a : α) : (remove l a).length ≤ l.length := by
  rw [(remove_perm l a).length_eq]
  exact List.length_erase_le

end NetServer.Lib.SlotList
