/-
  NetServer.Core.Members — one registry by itself.

  What the functions of a registry see of the sessions: for each one its role
  in the list, its flag, and whether the shutdown code has been there.  The
  two registries of the server are two such views, and a step of the server is
  a step of each: a step of the list's own functions for one, a quiet one for
  the other.

    • `RegInv`        — the list is the list of the members, and where everybody
      who is inside the lock is in it;
    • `RegInv.free`, `RegInv.held`, `RegInv.swept_alone` — the lock keeps the
      others out;
    • `RegInv.step`   — every step keeps it.
-/
import NetServer.Core.Registry

namespace NetServer.Core

open NetServer.Lib

/-! ## §1. The view and its steps. -/

/-- Where a session is for its registry. -/
inductive Role where
  /-- Registered, and not in `session_unregister`. -/
  | inside
  /-- In `session_unregister`'s loop. -/
  | scanning (pp : Loc Nat)
  /-- Behind that loop, still inside the lock. -/
  | unlinked
  deriving Repr, DecidableEq

/-- Between `session_register` and the unlinking by `session_unregister`. -/
def listed : Option Role → Bool
  | some .inside | some (.scanning _) => true
  | _ => false

/-- What one registry sees. -/
structure RegView where
  lock : Option Holder
  list : PtrList Nat
  shuttingDown : Bool
  sweep : SweepPc
  swept : Bool
  role : Nat → Option Role
  flag : Nat → Bool
  passed : Nat → Bool

namespace RegView

/-- Nothing of the registry's own happens: the pointers of its members stay, and
their flags may only go up. -/
structure Quiet (v v' : RegView) : Prop where
  lock : v'.lock = v.lock
  head : v'.list.head = v.list.head
  shuttingDown : v'.shuttingDown = v.shuttingDown
  sweep : v'.sweep = v.sweep
  swept : v'.swept = v.swept
  role : v'.role = v.role
  next : ∀ x, listed (v.role x) = true → v'.list.next x = v.list.next x
  flag : ∀ x, listed (v.role x) = true → v.flag x = true → v'.flag x = true
  passed : ∀ x, listed (v.role x) = true → v.passed x = true → v'.passed x = true

theorem Quiet.refl (v : RegView) : Quiet v v :=
  ⟨rfl, rfl, rfl, rfl, rfl, rfl, fun _ _ => rfl, fun _ _ h => h, fun _ _ h => h⟩

theorem Quiet.trans {u v w : RegView} (h₁ : Quiet u v) (h₂ : Quiet v w) : Quiet u w where
  lock := h₂.lock.trans h₁.lock
  head := h₂.head.trans h₁.head
  shuttingDown := h₂.shuttingDown.trans h₁.shuttingDown
  sweep := h₂.sweep.trans h₁.sweep
  swept := h₂.swept.trans h₁.swept
  role := h₂.role.trans h₁.role
  next := fun x hx => (h₂.next x (h₁.role ▸ hx)).trans (h₁.next x hx)
  flag := fun x hx hflag => h₂.flag x (h₁.role ▸ hx) (h₁.flag x hx hflag)
  passed := fun x hx hpassed => h₂.passed x (h₁.role ▸ hx) (h₁.passed x hx hpassed)

/-- The steps of one registry. -/
inductive Step (v : RegView) : RegView → Prop where
  | quiet {v' : RegView} (h : Quiet v v') : Step v v'
  | register (x : Nat) (hfree : v.lock = none) (hrole : v.role x = none) :
      Step v
        { v with
          list := v.list.push x
          role := Function.update v.role x (some .inside)
          flag := Function.update v.flag x (v.shuttingDown || v.flag x)
          passed := Function.update v.passed x (v.shuttingDown || v.passed x) }
  | leave (x : Nat) (hfree : v.lock = none) (hrole : v.role x = some .inside) :
      Step v
        { v with
          lock := some (.session x)
          role := Function.update v.role x (some (.scanning .head)) }
  | advance (x b : Nat) (pp : Loc Nat) (hrole : v.role x = some (.scanning pp))
      (hget : v.list.get pp = some b) (hne : b ≠ x) :
      Step v { v with role := Function.update v.role x (some (.scanning (.next b))) }
  | unlink (x : Nat) (pp : Loc Nat) (hrole : v.role x = some (.scanning pp))
      (hget : v.list.get pp = some x) :
      Step v
        { v with
          list := v.list.set pp (v.list.next x)
          role := Function.update v.role x (some .unlinked) }
  /-- The end of the list: `x` was not in it. -/
  | missed (x : Nat) (pp : Loc Nat) (hrole : v.role x = some (.scanning pp))
      (hget : v.list.get pp = none) :
      Step v { v with role := Function.update v.role x (some .unlinked) }
  | unlock (x : Nat) (hrole : v.role x = some .unlinked) :
      Step v { v with lock := none, role := Function.update v.role x none }
  | sweepLock (hidle : v.sweep = .idle) (hfree : v.lock = none) :
      Step v { v with lock := some .sweep, sweep := .start }
  | sweepStart (hstart : v.sweep = .start) :
      Step v { v with shuttingDown := true, sweep := .at v.list.head }
  | sweepFlag (x : Nat) (hat : v.sweep = .at (some x)) :
      Step v { v with sweep := .flagged x, flag := Function.update v.flag x true }
  | sweepByte (x : Nat) (hat : v.sweep = .flagged x) :
      Step v
        { v with sweep := .at (v.list.next x), passed := Function.update v.passed x true }
  | sweepDone (hat : v.sweep = .at none) :
      Step v { v with lock := none, sweep := .idle, swept := true }

/-! ## §2. The invariant. -/

/-- Where `shutdown_all` is in the list: everybody before that has been passed. -/
def SweepAt (v : RegView) (l : List Nat) : SweepPc → Prop
  | .idle => True
  | .start => True
  | .at cur =>
      v.shuttingDown = true ∧
        ∃ front rest, l = front ++ rest ∧ cur = rest.head? ∧ ∀ x ∈ front, v.passed x = true
  | .flagged x =>
      v.shuttingDown = true ∧
        ∃ front rest, l = front ++ x :: rest ∧ v.flag x = true ∧ ∀ y ∈ front, v.passed y = true

end RegView

open RegView

/-- The list `l` is what the pointers spell out and what the roles say. -/
structure RegInv (v : RegView) (l : List Nat) : Prop where
  isList : v.list.IsList l
  nodup : l.Nodup
  mem : ∀ x, x ∈ l ↔ listed (v.role x) = true
  /-- A session in `session_unregister` holds the lock. -/
  holder : ∀ x r, v.role x = some r → r ≠ .inside → v.lock = some (.session x)
  /-- So does `shutdown_all`. -/
  sweeping : v.sweep ≠ .idle → v.lock = some .sweep
  /-- A session that walks the list has not gone past itself. -/
  scan : ∀ x pp, v.role x = some (.scanning pp) →
    ∃ front rest, l = front ++ rest ∧ x ∈ rest ∧ pp = Loc.after front
  sweepAt : v.SweepAt l v.sweep
  swept : v.swept = true → v.shuttingDown = true ∧ ∀ x ∈ l, v.passed x = true

/-- A flag that does not go down where it is overwritten does not go down. -/
theorem update_up {f : Nat → Bool} {x y : Nat} {b : Bool} (hx : y = x → f y = true → b = true)
    (hy : f y = true) : Function.update f x b y = true := by
  by_cases hyx : y = x
  · rw [hyx, Function.update_self]
    exact hx hyx hy
  · rw [Function.update_of_ne hyx]
    exact hy

variable {v v' : RegView} {l : List Nat}

/-- Flags only go up, and the sweep stays where it is. -/
theorem RegView.SweepAt.mono {pc : SweepPc} (h : v.SweepAt l pc)
    (hdown : v.shuttingDown = true → v'.shuttingDown = true)
    (hflag : ∀ x ∈ l, v.flag x = true → v'.flag x = true)
    (hpassed : ∀ x ∈ l, v.passed x = true → v'.passed x = true) : v'.SweepAt l pc := by
  cases pc with
  | idle => trivial
  | start => trivial
  | «at» cur =>
    obtain ⟨hd, front, rest, rfl, hcur, hfront⟩ := h
    refine ⟨hdown hd, front, rest, rfl, hcur, ?_⟩
    intro x hx
    exact hpassed x (List.mem_append_left _ hx) (hfront x hx)
  | flagged x =>
    obtain ⟨hd, front, rest, rfl, hx, hfront⟩ := h
    refine ⟨hdown hd, front, rest, rfl, hflag x (by simp) hx, ?_⟩
    intro y hy
    exact hpassed y (List.mem_append_left _ hy) (hfront y hy)

namespace RegInv

/-- Nobody inside the lock: no sweep, and no session in `session_unregister`. -/
theorem free (h : RegInv v l) (hfree : v.lock = none) :
    v.sweep = .idle ∧ ∀ x r, v.role x = some r → r = .inside := by
  constructor
  · by_contra hsweep
    exact nomatch (h.sweeping hsweep).symm.trans hfree
  · intro x r hrole
    by_contra hr
    exact nomatch (h.holder x r hrole hr).symm.trans hfree

/-- A session in `session_unregister` is alone there. -/
theorem held (h : RegInv v l) {x : Nat} {r : Role} (hrole : v.role x = some r) (hr : r ≠ .inside) :
    v.sweep = .idle ∧ ∀ y r', v.role y = some r' → r' ≠ .inside → y = x := by
  have hlock := h.holder x r hrole hr
  constructor
  · by_contra hsweep
    exact nomatch (h.sweeping hsweep).symm.trans hlock
  · intro y r' hy hr'
    have := (h.holder y r' hy hr').symm.trans hlock
    injection this with this
    injection this

/-- So is the sweep. -/
theorem swept_alone (h : RegInv v l) (hsweep : v.sweep ≠ .idle) :
    ∀ x r, v.role x = some r → r = .inside := by
  intro x r hrole
  by_contra hr
  exact nomatch (h.holder x r hrole hr).symm.trans (h.sweeping hsweep)

theorem not_mem_of_role (h : RegInv v l) {x : Nat} (hx : listed (v.role x) = false) : x ∉ l := by
  intro hmem
  rw [(h.mem x).mp hmem] at hx
  exact nomatch hx

/-! ## §3. The steps. -/

theorem quiet (h : RegInv v l) (hq : Quiet v v') : RegInv v' l where
  isList := h.isList.congr hq.head fun x hx => hq.next x ((h.mem x).mp hx)
  nodup := h.nodup
  mem := by
    intro x
    rw [hq.role]
    exact h.mem x
  holder := by
    rw [hq.role, hq.lock]
    exact h.holder
  sweeping := by
    rw [hq.sweep, hq.lock]
    exact h.sweeping
  scan := by
    rw [hq.role]
    exact h.scan
  sweepAt := by
    rw [hq.sweep]
    refine h.sweepAt.mono ?_ ?_ ?_
    · rw [hq.shuttingDown]
      exact id
    · exact fun x hx => hq.flag x ((h.mem x).mp hx)
    · exact fun x hx => hq.passed x ((h.mem x).mp hx)
  swept := by
    rw [hq.swept, hq.shuttingDown]
    intro hswept
    obtain ⟨hdown, hall⟩ := h.swept hswept
    exact ⟨hdown, fun x hx => hq.passed x ((h.mem x).mp hx) (hall x hx)⟩

/-- The role of one session changes and it stays in the list. -/
theorem mem_update (h : RegInv v l) {x : Nat} {r : Option Role} (hx : listed r = listed (v.role x)) :
    ∀ y, y ∈ l ↔ listed (Function.update v.role x r y) = true := by
  intro y
  by_cases hy : y = x
  · subst hy
    rw [Function.update_self, hx]
    exact h.mem y
  · rw [Function.update_of_ne hy]
    exact h.mem y

theorem register (h : RegInv v l) {x : Nat} (hfree : v.lock = none) (hrole : v.role x = none) :
    RegInv
      { v with
        list := v.list.push x
        role := Function.update v.role x (some .inside)
        flag := Function.update v.flag x (v.shuttingDown || v.flag x)
        passed := Function.update v.passed x (v.shuttingDown || v.passed x) } (x :: l) := by
  -- the lock was free: no sweep is under way, and nobody walks the list
  obtain ⟨hidle, hinside⟩ := h.free hfree
  have hx : x ∉ l := h.not_mem_of_role (by rw [hrole]; rfl)
  have hroles : ∀ y r, Function.update v.role x (some .inside) y = some r → r = .inside := by
    intro y r hy
    by_cases hyx : y = x
    · rw [hyx, Function.update_self] at hy
      exact (Option.some.inj hy).symm
    · rw [Function.update_of_ne hyx] at hy
      exact hinside y r hy
  refine ⟨PtrList.push_isList h.isList hx, List.nodup_cons.mpr ⟨hx, h.nodup⟩, ?_, ?_,
    h.sweeping, ?_, ?_, ?_⟩
  · intro y
    show y ∈ x :: l ↔ listed (Function.update v.role x (some .inside) y) = true
    by_cases hyx : y = x
    · rw [hyx, Function.update_self]
      exact iff_of_true List.mem_cons_self rfl
    · rw [Function.update_of_ne hyx, List.mem_cons, or_iff_right hyx]
      exact h.mem y
  · intro y r hy hr
    exact absurd (hroles y r hy) hr
  · intro y pp hy
    exact nomatch hroles y _ hy
  · show SweepAt _ (x :: l) v.sweep
    rw [hidle]
    trivial
  · intro hswept
    obtain ⟨hdown, hall⟩ := h.swept hswept
    refine ⟨hdown, ?_⟩
    intro y hy
    show Function.update v.passed x (v.shuttingDown || v.passed x) y = true
    by_cases hyx : y = x
    · rw [hyx, Function.update_self, hdown, Bool.true_or]
    · rw [Function.update_of_ne hyx]
      exact hall y (List.mem_of_ne_of_mem hyx hy)

theorem leave (h : RegInv v l) {x : Nat} (hfree : v.lock = none)
    (hrole : v.role x = some .inside) :
    RegInv
      { v with
        lock := some (.session x)
        role := Function.update v.role x (some (.scanning .head)) } l := by
  obtain ⟨hidle, hinside⟩ := h.free hfree
  have hx : x ∈ l := (h.mem x).mpr (by rw [hrole]; rfl)
  refine ⟨h.isList, h.nodup, h.mem_update (by rw [hrole]; rfl), ?_, ?_, ?_, ?_, h.swept⟩
  · intro y r hy hr
    by_cases hyx : y = x
    · rw [hyx]
    · exact absurd (hinside y r ((Function.update_of_ne hyx ..).symm.trans hy)) hr
  · exact fun hsweep => absurd hidle hsweep
  · intro y pp hy
    by_cases hyx : y = x
    · subst hyx
      have hpp := (Function.update_self ..).symm.trans hy
      cases hpp
      exact ⟨[], l, rfl, hx, rfl⟩
    · exact nomatch hinside y _ ((Function.update_of_ne hyx ..).symm.trans hy)
  · show SweepAt _ l v.sweep
    rw [hidle]
    trivial

/-- Inside `session_unregister`: the other sessions' roles, and the sweep, are
nothing the new role of `x` has to do with. -/
theorem rescan (h : RegInv v l) {x : Nat} {r r' : Role} {list' : PtrList Nat} {l' : List Nat}
    (hrole : v.role x = some r) (hr : r ≠ .inside) (hlist : list'.IsList l')
    (hsub : List.Sublist l' l)
    (hmem : ∀ y, y ∈ l' ↔ listed (Function.update v.role x (some r') y) = true)
    (hscan : ∀ pp, r' = .scanning pp →
      ∃ front rest, l' = front ++ rest ∧ x ∈ rest ∧ pp = Loc.after front) :
    RegInv { v with list := list', role := Function.update v.role x (some r') } l' := by
  obtain ⟨hidle, halone⟩ := h.held hrole hr
  have hlock := h.holder x r hrole hr
  refine ⟨hlist, h.nodup.sublist hsub, hmem, ?_, h.sweeping, ?_, ?_, ?_⟩
  · intro y r'' hy hr''
    by_cases hyx : y = x
    · rw [hyx]
      exact hlock
    · exact h.holder y r'' ((Function.update_of_ne hyx ..).symm.trans hy) hr''
  · intro y pp hy
    by_cases hyx : y = x
    · subst hyx
      have hself : Function.update v.role y (some r') y = some (.scanning pp) := hy
      rw [Function.update_self] at hself
      exact hscan pp (Option.some.inj hself)
    · exact absurd (halone y _ ((Function.update_of_ne hyx ..).symm.trans hy) nofun) hyx
  · show SweepAt _ l' v.sweep
    rw [hidle]
    trivial
  · intro hswept
    obtain ⟨hdown, hall⟩ := h.swept hswept
    exact ⟨hdown, fun y hy => hall y (hsub.subset hy)⟩

theorem advance (h : RegInv v l) {x b : Nat} {pp : Loc Nat} (hrole : v.role x = some (.scanning pp))
    (hget : v.list.get pp = some b) (hne : b ≠ x) :
    RegInv { v with role := Function.update v.role x (some (.scanning (.next b))) } l := by
  refine h.rescan hrole nofun h.isList (List.Sublist.refl l)
    (h.mem_update (by rw [hrole]; rfl)) ?_
  intro pp' hpp'
  cases hpp'
  obtain ⟨front, rest, rfl, hx, rfl⟩ := h.scan x pp hrole
  rw [PtrList.get_after h.isList] at hget
  obtain ⟨rest, rfl⟩ := List.head?_eq_some_iff.mp hget
  refine ⟨front ++ [b], rest, by simp, List.mem_of_ne_of_mem hne.symm hx, ?_⟩
  unfold Loc.after
  rw [List.getLast?_concat]

theorem unlink (h : RegInv v l) {x : Nat} {pp : Loc Nat} (hrole : v.role x = some (.scanning pp))
    (hget : v.list.get pp = some x) :
    ∃ l', RegInv
      { v with
        list := v.list.set pp (v.list.next x)
        role := Function.update v.role x (some .unlinked) } l' := by
  obtain ⟨front, rest, rfl, -, rfl⟩ := h.scan x pp hrole
  rw [PtrList.get_after h.isList] at hget
  obtain ⟨rest, rfl⟩ := List.head?_eq_some_iff.mp hget
  -- the walk stands before `x`: what is left is the front and what follows `x`
  have hsub : List.Sublist (front ++ rest) (front ++ x :: rest) :=
    (List.sublist_cons_self x rest).append_left front
  refine ⟨front ++ rest, h.rescan hrole nofun (PtrList.unlink_isList h.isList h.nodup) hsub ?_
    nofun⟩
  intro y
  have hx : x ∉ front ++ rest := by
    have hnodup := List.perm_middle.nodup_iff.mp h.nodup
    exact (List.nodup_cons.mp hnodup).1
  by_cases hyx : y = x
  · rw [hyx, Function.update_self]
    exact iff_of_false hx nofun
  · rw [Function.update_of_ne hyx, ← h.mem y]
    simp [hyx]

theorem not_missed (h : RegInv v l) {x : Nat} {pp : Loc Nat}
    (hrole : v.role x = some (.scanning pp)) : v.list.get pp ≠ none := by
  intro hget
  obtain ⟨front, rest, rfl, hx, rfl⟩ := h.scan x pp hrole
  rw [PtrList.get_after h.isList, List.head?_eq_none_iff] at hget
  rw [hget] at hx
  exact nomatch hx

theorem unlock (h : RegInv v l) {x : Nat} (hrole : v.role x = some .unlinked) :
    RegInv { v with lock := none, role := Function.update v.role x none } l := by
  obtain ⟨hidle, halone⟩ := h.held hrole nofun
  have hroles : ∀ y r, Function.update v.role x none y = some r → r = .inside := by
    intro y r hy
    by_cases hyx : y = x
    · rw [hyx, Function.update_self] at hy
      exact nomatch hy
    · rw [Function.update_of_ne hyx] at hy
      by_contra hr
      exact hyx (halone y r hy hr)
  refine ⟨h.isList, h.nodup, h.mem_update (by rw [hrole]; rfl), ?_, ?_, ?_, ?_, h.swept⟩
  · intro y r hy hr
    exact absurd (hroles y r hy) hr
  · exact fun hsweep => absurd hidle hsweep
  · intro y pp hy
    exact nomatch hroles y _ hy
  · show SweepAt _ l v.sweep
    rw [hidle]
    trivial

theorem sweepLock (h : RegInv v l) (hfree : v.lock = none) :
    RegInv { v with lock := some .sweep, sweep := .start } l := by
  obtain ⟨-, hinside⟩ := h.free hfree
  refine ⟨h.isList, h.nodup, h.mem, ?_, fun _ => rfl, h.scan, trivial, h.swept⟩
  intro y r hy hr
  exact absurd (hinside y r hy) hr

theorem sweepStart (h : RegInv v l) (hstart : v.sweep = .start) :
    RegInv { v with shuttingDown := true, sweep := .at v.list.head } l := by
  have hlock : v.lock = some .sweep := h.sweeping (by rw [hstart]; nofun)
  refine ⟨h.isList, h.nodup, h.mem, h.holder, fun _ => hlock, h.scan, ?_, ?_⟩
  · exact ⟨rfl, [], l, rfl, PtrList.Chain.head h.isList, nofun⟩
  · exact fun hswept => ⟨rfl, (h.swept hswept).2⟩

theorem sweepFlag (h : RegInv v l) {x : Nat} (hat : v.sweep = .at (some x)) :
    RegInv { v with sweep := .flagged x, flag := Function.update v.flag x true } l := by
  have hlock : v.lock = some .sweep := h.sweeping (by rw [hat]; nofun)
  refine ⟨h.isList, h.nodup, h.mem, h.holder, fun _ => hlock, h.scan, ?_, h.swept⟩
  have hsweep := h.sweepAt
  rw [hat] at hsweep
  obtain ⟨hdown, front, rest, hl, hcur, hfront⟩ := hsweep
  obtain ⟨rest, rfl⟩ := List.head?_eq_some_iff.mp hcur.symm
  exact ⟨hdown, front, rest, hl, Function.update_self .., hfront⟩

theorem sweepByte (h : RegInv v l) {x : Nat} (hat : v.sweep = .flagged x) :
    RegInv { v with sweep := .at (v.list.next x), passed := Function.update v.passed x true }
      l := by
  have hlock : v.lock = some .sweep := h.sweeping (by rw [hat]; nofun)
  refine ⟨h.isList, h.nodup, h.mem, h.holder, fun _ => hlock, h.scan, ?_, ?_⟩
  · have hsweep := h.sweepAt
    rw [hat] at hsweep
    obtain ⟨hdown, front, rest, rfl, -, hfront⟩ := hsweep
    -- `x` joins the front, and its own field leads to the rest
    have hl : front ++ x :: rest = front ++ [x] ++ rest := by simp
    have hnext : v.list.next x = rest.head? := by
      have hget := PtrList.get_after (hl ▸ h.isList)
      unfold Loc.after at hget
      rw [List.getLast?_concat] at hget
      exact hget
    refine ⟨hdown, front ++ [x], rest, hl, hnext, ?_⟩
    intro y hy
    rcases List.mem_append.mp hy with hy | hy
    · exact update_up (fun _ _ => rfl) (hfront y hy)
    · rw [List.mem_singleton.mp hy]
      exact Function.update_self ..
  · intro hswept
    obtain ⟨hdown, hall⟩ := h.swept hswept
    exact ⟨hdown, fun y hy => update_up (fun _ _ => rfl) (hall y hy)⟩

theorem sweepDone (h : RegInv v l) (hat : v.sweep = .at none) :
    RegInv { v with lock := none, sweep := .idle, swept := true } l := by
  have hinside := h.swept_alone (by rw [hat]; nofun)
  refine ⟨h.isList, h.nodup, h.mem, ?_, fun hsweep => absurd rfl hsweep, h.scan, trivial, ?_⟩
  · intro y r hy hr
    exact absurd (hinside y r hy) hr
  · intro _
    have hsweep := h.sweepAt
    rw [hat] at hsweep
    obtain ⟨hdown, front, rest, hl, hcur, hfront⟩ := hsweep
    -- at the end of the list everybody is in the front
    rw [List.head?_eq_none_iff.mp hcur.symm, List.append_nil] at hl
    exact ⟨hdown, fun x hx => hfront x (hl ▸ hx)⟩

/-- **Every step of a registry keeps its list.** -/
theorem step (h : RegInv v l) (hstep : v.Step v') : ∃ l', RegInv v' l' := by
  cases hstep with
  | quiet hq => exact ⟨l, h.quiet hq⟩
  | register x hfree hrole => exact ⟨x :: l, h.register hfree hrole⟩
  | leave x hfree hrole => exact ⟨l, h.leave hfree hrole⟩
  | advance x b pp hrole hget hne => exact ⟨l, h.advance hrole hget hne⟩
  | unlink x pp hrole hget => exact h.unlink hrole hget
  | missed x pp hrole hget => exact absurd hget (h.not_missed hrole)
  | unlock x hrole => exact ⟨l, h.unlock hrole⟩
  | sweepLock hidle hfree => exact ⟨l, h.sweepLock hfree⟩
  | sweepStart hstart => exact ⟨l, h.sweepStart hstart⟩
  | sweepFlag x hat => exact ⟨l, h.sweepFlag hat⟩
  | sweepByte x hat => exact ⟨l, h.sweepByte hat⟩
  | sweepDone hat => exact ⟨l, h.sweepDone hat⟩

end RegInv

end NetServer.Core
