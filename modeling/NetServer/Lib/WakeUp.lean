/-
  NetServer.Lib.WakeUp — a flag and a byte in a pipe.

  A waiter looks at its flag, blocks until its pipe has a byte, empties the
  pipe and looks again.  A signaller raises the flag and then writes a byte.
  Others write bytes to the same pipe for their own reasons, so the
  signaller's byte may be taken by an emptying that was meant for another.

  The order saves it: the waiter blocks only after it has seen the flag down,
  and it reads only while it is not blocked.

    • `Safe.step` — a waiter that has been passed by the signaller is never
      blocked with an empty pipe.
-/
import Mathlib.Logic.Basic

namespace NetServer.Lib

/-- The flag, the bytes in the pipe, whether the waiter is blocked, and whether
the signaller has been here. -/
structure Waiter where
  flag : Bool
  bytes : Nat
  blocked : Bool
  passed : Bool

namespace Waiter

/-- One step of the waiter, the signaller or anybody else; a pipe holds `cap`
bytes. -/
inductive Step (cap : Nat) (w : Waiter) : Waiter → Prop where
  | stay : Step cap w w
  /-- The flag was down when the waiter looked. -/
  | block (h : w.flag = false) : Step cap w { w with blocked := true }
  | resume : Step cap w { w with blocked := false }
  /-- A read of the waiter, when it is not blocked. -/
  | read (n : Nat) (h : w.blocked = false) : Step cap w { w with bytes := n }
  /-- Anybody's byte. -/
  | byte : Step cap w { w with bytes := min cap (w.bytes + 1) }
  /-- The flag is raised. -/
  | raise : Step cap w { w with flag := true }
  /-- The signaller's byte, behind its flag. -/
  | pass (h : w.flag = true) : Step cap w { w with bytes := min cap (w.bytes + 1), passed := true }
  /-- A waiter that begins behind the signaller: flagged, and not blocked. -/
  | late (h : w.blocked = false) : Step cap w { w with flag := true, passed := true }

/-- Passed means flagged, and not blocked with an empty pipe. -/
def Safe (w : Waiter) : Prop := w.passed = true → w.flag = true ∧ (w.blocked = true → 0 < w.bytes)

theorem Safe.step {cap : Nat} (hcap : 0 < cap) {w w' : Waiter} (h : w.Safe) (hstep : w.Step cap w') :
    w'.Safe := by
  have hbyte : 0 < min cap (w.bytes + 1) := by omega
  cases hstep with
  | stay => exact h
  | block hflag =>
    -- a passed waiter does not see its flag down
    intro hpassed
    have := (h hpassed).1
    rw [hflag] at this
    exact absurd this Bool.false_ne_true
  | resume =>
    intro hpassed
    exact ⟨(h hpassed).1, nofun⟩
  | read n hawake =>
    intro hpassed
    refine ⟨(h hpassed).1, ?_⟩
    intro hblocked
    rw [show w.blocked = true from hblocked] at hawake
    exact absurd hawake nofun
  | byte =>
    intro hpassed
    exact ⟨(h hpassed).1, fun _ => hbyte⟩
  | raise =>
    intro hpassed
    exact ⟨rfl, (h hpassed).2⟩
  | pass hflag => exact fun _ => ⟨hflag, fun _ => hbyte⟩
  | late hawake =>
    intro _
    refine ⟨rfl, ?_⟩
    intro hblocked
    rw [show w.blocked = true from hblocked] at hawake
    exact absurd hawake nofun

end Waiter

end NetServer.Lib
