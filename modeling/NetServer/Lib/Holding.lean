/-
  NetServer.Lib.Holding — counting what agents hold.

  Agents are at program points, and a point says which resources its agent
  holds there.  A step of an agent acquires or releases one resource, or
  none.  When every step fits the points (`Fits`), the number of holders of a
  resource follows the acquisitions and releases, whoever makes them.

    • `Fits.count_set` — one agent steps;
    • `Fits.releases`, `Fits.released` — who releases a resource has held it, and
      holds it no more.
-/
import Mathlib.Data.List.Basic

namespace NetServer.Lib

variable {π ρ : Type*}

/-- What a step does with the resources. -/
inductive Op (ρ : Type*) where
  | pass
  | acquire (r : ρ)
  | release (r : ρ)
  deriving Repr, DecidableEq

namespace Op

variable [DecidableEq ρ]

/-- How often a step acquires `r`. -/
def takes (op : Op ρ) (r : ρ) : Nat := (decide (op = .acquire r)).toNat

/-- How often a step releases `r`. -/
def gives (op : Op ρ) (r : ρ) : Nat := (decide (op = .release r)).toNat

@[simp] theorem takes_pass (r : ρ) : (Op.pass : Op ρ).takes r = 0 := rfl

@[simp] theorem takes_release (r r' : ρ) : (Op.release r').takes r = 0 := rfl

@[simp] theorem gives_acquire (r r' : ρ) : (Op.acquire r').gives r = 0 := rfl

@[simp] theorem takes_acquire_self (r : ρ) : (Op.acquire r).takes r = 1 := by simp [takes]

@[simp] theorem gives_release_self (r : ρ) : (Op.release r).gives r = 1 := by simp [gives]

theorem takes_acquire_of_ne {r r' : ρ} (h : r' ≠ r) : (Op.acquire r').takes r = 0 := by
  simp [takes, h]

end Op

/-- A step from `a` to `b` that does `op` is what the two points say. -/
def Fits [DecidableEq ρ] (holds : π → ρ → Bool) (op : Op ρ) (a b : π) : Prop :=
  ∀ r, (holds a r).toNat + op.takes r = (holds b r).toNat + op.gives r

namespace Fits

variable [DecidableEq ρ] {holds : π → ρ → Bool} {op : Op ρ} {a b : π}

theorem releases {r : ρ} (h : Fits holds (.release r) a b) : holds a r = true := by
  have hr := h r
  rw [Op.takes_release, Op.gives_release_self] at hr
  cases ha : holds a r with
  | true => rfl
  | false =>
    rw [ha, Bool.toNat_false] at hr
    omega

theorem released {r : ρ} (h : Fits holds (.release r) a b) : holds b r = false := by
  have hr := h r
  have hle := Bool.toNat_le (holds a r)
  rw [Op.takes_release, Op.gives_release_self] at hr
  cases hb : holds b r with
  | false => rfl
  | true =>
    rw [hb, Bool.toNat_true] at hr
    omega

/-- What is held behind a step that does not acquire it was held before. -/
theorem held_before {r : ρ} (h : Fits holds op a b) (hop : op.takes r = 0) (hb : holds b r = true) :
    holds a r = true := by
  have hr := h r
  rw [hop, hb, Bool.toNat_true] at hr
  cases ha : holds a r with
  | true => rfl
  | false =>
    rw [ha, Bool.toNat_false] at hr
    omega

/-- **Counting.**  One agent steps, and the number of holders of each resource
follows. -/
theorem count_set (h : Fits holds op a b) {l : List π} {i : Nat} (hi : l[i]? = some a) (r : ρ) :
    (l.set i b).countP (holds · r) + op.gives r = l.countP (holds · r) + op.takes r := by
  obtain ⟨hlt, hget⟩ := List.getElem?_eq_some_iff.mp hi
  have hr := h r
  have hpos : holds a r = true → 0 < l.countP (holds · r) := by
    intro ha
    exact List.countP_pos_iff.mpr ⟨a, List.mem_of_getElem? hi, ha⟩
  rw [List.countP_set hlt, hget]
  cases ha : holds a r <;> cases hb : holds b r <;>
    simp only [ha, hb, Bool.toNat_true, Bool.toNat_false, if_true, if_false, Bool.false_eq_true]
      at hr ⊢
  · omega
  · omega
  · have := hpos ha
    omega
  · have := hpos ha
    omega

end Fits

end NetServer.Lib
