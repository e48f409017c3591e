/-
  NetServer.Lib.Credentials — the ids of a process, and the calls that change them.

  A process has a real, an effective and a saved user id, three group ids of the same
  kind, and a list of supplementary groups.  Whether a call may change them depends on
  the effective user id: root may set everything, another user may only move its ids
  among the three it has, and may not touch the groups.  `seteuid` and `setreuid` of an
  unprivileged process do nothing that `setresuid` does not.  No capabilities are given
  to the process apart from root's.

    • `call_ofUser`    — a process whose ids are all one user's cannot change them;
    • `attempt_ofUser` — so whatever it asks for, it stays that user's.
-/
import Mathlib.Data.Option.Basic

namespace NetServer.Lib

/-! ## §1. Three ids. -/

/-- The user ids of a process, or its group ids. -/
structure Ids where
  real : Nat
  effective : Nat
  saved : Nat
  deriving Repr, DecidableEq

namespace Ids

def same (v : Nat) : Ids := ⟨v, v, v⟩

def has (ids : Ids) (v : Nat) : Bool :=
  v == ids.real || v == ids.effective || v == ids.saved

/-- `setuid` and `setgid`; `none` is EPERM. -/
def set (privileged : Bool) (ids : Ids) (v : Nat) : Option Ids :=
  if privileged then some (same v)
  else if v = ids.real ∨ v = ids.saved then some { ids with effective := v }
  else none

/-- `setresuid` and `setresgid`: an argument of `none` leaves its id alone. -/
def setres (privileged : Bool) (ids : Ids) (r e s : Option Nat) : Option Ids :=
  if privileged || [r, e, s].all (·.all ids.has) then
    some ⟨r.getD ids.real, e.getD ids.effective, s.getD ids.saved⟩
  else none

theorem set_same {v w : Nat} {ids : Ids} (h : set false (same v) w = some ids) :
    ids = same v := by
  unfold set at h
  rw [if_neg Bool.false_ne_true] at h
  obtain ⟨hw, heq⟩ := Option.ite_none_right_eq_some.mp h
  have hwv : w = v := hw.elim id id
  rw [← Option.some.inj heq, hwv]
  rfl

theorem getD_same {v : Nat} {o : Option Nat} (h : o.all (same v).has = true) : o.getD v = v := by
  cases o with
  | none => rfl
  | some w => simpa [has, same] using h

theorem setres_same {v : Nat} {r e s : Option Nat} {ids : Ids}
    (h : setres false (same v) r e s = some ids) : ids = same v := by
  unfold setres at h
  rw [Bool.false_or] at h
  obtain ⟨hall, heq⟩ := Option.ite_none_right_eq_some.mp h
  simp only [List.all_cons, List.all_nil, Bool.and_true, Bool.and_eq_true] at hall
  rw [← Option.some.inj heq]
  show Ids.mk (r.getD v) (e.getD v) (s.getD v) = same v
  rw [getD_same hall.1, getD_same hall.2.1, getD_same hall.2.2]
  rfl

end Ids

/-! ## §2. A process. -/

structure Cred where
  user : Ids
  group : Ids
  groups : List Nat
  deriving Repr, DecidableEq

namespace Cred

/-- Root's capabilities come with the effective user id. -/
def privileged (c : Cred) : Bool := decide (c.user.effective = 0)

/-- What a process may ask for. -/
inductive Call where
  | setuid (u : Nat)
  | setgid (g : Nat)
  | setgroups (gs : List Nat)
  | setresuid (r e s : Option Nat)
  | setresgid (r e s : Option Nat)
  deriving Repr, DecidableEq

def call (c : Cred) : Call → Option Cred
  | .setuid u => (c.user.set c.privileged u).map fun ids => { c with user := ids }
  | .setgid g => (c.group.set c.privileged g).map fun ids => { c with group := ids }
  | .setgroups gs => if c.privileged then some { c with groups := gs } else none
  | .setresuid r e s => (c.user.setres c.privileged r e s).map fun ids => { c with user := ids }
  | .setresgid r e s => (c.group.setres c.privileged r e s).map fun ids => { c with group := ids }

/-- A call that is refused changes nothing. -/
def attempt (c : Cred) (k : Call) : Cred := (c.call k).getD c

/-- Every id is one user's. -/
def ofUser (u g : Nat) (gs : List Nat) : Cred := ⟨.same u, .same g, gs⟩

/-- **No way back.**  The ids of a process that are all one user's, and not root's, are not
changed by any call. -/
theorem call_ofUser {u g : Nat} {gs : List Nat} (hu : u ≠ 0) {k : Call} {c : Cred}
    (h : (ofUser u g gs).call k = some c) : c = ofUser u g gs := by
  have hpriv : (ofUser u g gs).privileged = false := decide_eq_false hu
  unfold call at h
  rw [hpriv] at h
  cases k with
  | setuid v =>
    obtain ⟨ids, hset, heq⟩ := Option.map_eq_some_iff.mp h
    rw [← heq, Ids.set_same hset]
    rfl
  | setgid v =>
    obtain ⟨ids, hset, heq⟩ := Option.map_eq_some_iff.mp h
    rw [← heq, Ids.set_same hset]
    rfl
  | setgroups v => cases h
  | setresuid r e s =>
    obtain ⟨ids, hset, heq⟩ := Option.map_eq_some_iff.mp h
    rw [← heq, Ids.setres_same hset]
    rfl
  | setresgid r e s =>
    obtain ⟨ids, hset, heq⟩ := Option.map_eq_some_iff.mp h
    rw [← heq, Ids.setres_same hset]
    rfl

theorem attempt_ofUser {u g : Nat} {gs : List Nat} (hu : u ≠ 0) (k : Call) :
    (ofUser u g gs).attempt k = ofUser u g gs := by
  unfold attempt
  cases hcall : (ofUser u g gs).call k with
  | none => rfl
  | some c => exact call_ofUser hu hcall

end Cred

end NetServer.Lib
