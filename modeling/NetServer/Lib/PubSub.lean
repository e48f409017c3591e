/-
  NetServer.Lib.PubSub — a publish/subscribe bus of wake-ups, over any topics,
  peers, handles and messages.

  A peer owns a handle (the write end of a pipe) and lends it to the bounded
  list of a topic while it visits the topic.  To publish, a peer records a
  message, takes the topic's lock, signals every handle on the list and
  releases the lock; subscribing and ending a subscription wait for the lock.
  What the peers do besides is left open: `Step` lists what the bus sees.

    • `Inv` — the invariant: a topic's list is exactly the handles of the
      accepted visitors, each with a living owner, and a peer that signals has
      reached every accepted visitor that is not still ahead of it;
    • `Inv.step` — every step keeps it;
    • `accepted_of_atMost` — with at most as many visitors as places, every
      visitor is accepted;
    • `OnWay.step` — a message on its way to an accepted visitor stays so
      until it arrives;
    • `Step.wakes` — only visitors are signalled.
-/
import NetServer.Lib.SlotList
import Mathlib.Logic.Function.Basic
import Mathlib.Data.List.Nodup

namespace NetServer.Lib.PubSub

/-! ## §1. The bus. -/

/-- Where a peer is inside a publication. -/
inductive Post (τ φ ι : Type*) where
  | idle
  /-- Message `m` is recorded; the lock is not taken yet. -/
  | recorded (t : τ) (m : ι)
  /-- The lock is held and `rest` is still to be signalled. -/
  | notifying (t : τ) (m : ι) (rest : List φ)

/-- What the bus knows of a peer.  `accepted` says that its last subscription
found a free place. -/
structure Peer (τ φ ι : Type*) where
  handle : φ
  live : Bool
  bytes : Nat
  visits : Option τ
  accepted : Bool
  post : Post τ φ ι

/-- Topic lists, topic locks, the owner of every open handle, the peers, and
the log of signals that arrived. -/
structure Bus (τ π φ ι : Type*) where
  subs : τ → List φ
  lock : τ → Option π
  owner : φ → Option π
  peers : π → Peer τ φ ι
  wakes : List (ι × π)

section

variable {τ π φ ι : Type*} [DecidableEq π]

namespace Bus

/-- Change one peer. -/
def modify (b : Bus τ π φ ι) (x : π) (f : Peer τ φ ι → Peer τ φ ι) : Bus τ π φ ι :=
  { b with peers := Function.update b.peers x (f (b.peers x)) }

@[simp, grind =] theorem modify_subs (b : Bus τ π φ ι) (x : π) (f : Peer τ φ ι → Peer τ φ ι)
    (t : τ) : (b.modify x f).subs t = b.subs t := rfl

@[simp, grind =] theorem modify_lock (b : Bus τ π φ ι) (x : π) (f : Peer τ φ ι → Peer τ φ ι)
    (t : τ) : (b.modify x f).lock t = b.lock t := rfl

@[simp, grind =] theorem modify_owner (b : Bus τ π φ ι) (x : π) (f : Peer τ φ ι → Peer τ φ ι)
    (fd : φ) : (b.modify x f).owner fd = b.owner fd := rfl

@[simp, grind =] theorem modify_wakes (b : Bus τ π φ ι) (x : π) (f : Peer τ φ ι → Peer τ φ ι) :
    (b.modify x f).wakes = b.wakes := rfl

@[grind =]
theorem modify_peers (b : Bus τ π φ ι) (x : π) (f : Peer τ φ ι → Peer τ φ ι) (y : π) :
    (b.modify x f).peers y = if y = x then f (b.peers x) else b.peers y := by
  show Function.update b.peers x (f (b.peers x)) y = _
  rw [Function.update_apply]

/-- Two changes of one peer are one. -/
theorem modify_modify (b : Bus τ π φ ι) (x : π) (f g : Peer τ φ ι → Peer τ φ ι) :
    (b.modify x f).modify x g = b.modify x (fun p => g (f p)) := by
  unfold modify
  simp only [Function.update_self, Function.update_idem]

/-- Only what a change does to the peer itself matters. -/
theorem modify_congr {b : Bus τ π φ ι} {x : π} {f g : Peer τ φ ι → Peer τ φ ι}
    (h : f (b.peers x) = g (b.peers x)) : b.modify x f = b.modify x g := by
  unfold modify
  rw [h]

theorem modify_eq_self {b : Bus τ π φ ι} {x : π} {f : Peer τ φ ι → Peer τ φ ι}
    (h : f (b.peers x) = b.peers x) : b.modify x f = b := by
  unfold modify
  rw [h, Function.update_eq_self]

/-- One more byte for a peer; a full pipe stays as it is. -/
def signal (pipe : Nat) (b : Bus τ π φ ι) (y : π) : Bus τ π φ ι :=
  b.modify y fun p => { p with bytes := min pipe (p.bytes + 1) }

end Bus

variable [DecidableEq τ] [DecidableEq φ]

/-- What one step of the system is to the bus; the label is the peer that takes
it, if a peer does. -/
inductive Step (cap pipe : Nat) (b : Bus τ π φ ι) : Option π → Bus τ π φ ι → Prop where
  /-- Nothing the bus sees. -/
  | other (a : Option π) : Step cap pipe b a b
  | connect (x : π) (fd : φ) (hx : (b.peers x).live = false) (hfd : b.owner fd = none) :
      Step cap pipe b (some x)
        { b.modify x fun _ =>
            { handle := fd, live := true, bytes := 0, visits := none, accepted := false,
              post := .idle } with
          owner := Function.update b.owner fd (some x) }
  /-- A peer reads its own pipe. -/
  | read (x : π) (n : Nat) : Step cap pipe b (some x) (b.modify x fun p => { p with bytes := n })
  /-- A signal from outside the bus. -/
  | signal (y : π) : Step cap pipe b none (b.signal pipe y)
  | subscribe (x : π) (t : τ) (hlive : (b.peers x).live = true)
      (hvisits : (b.peers x).visits = none) (hpost : (b.peers x).post = .idle)
      (hlock : b.lock t = none) :
      Step cap pipe b (some x)
        { b.modify x fun p =>
            { p with visits := some t, accepted := decide ((b.subs t).length < cap) } with
          subs := Function.update b.subs t (SlotList.insert cap (b.subs t) (b.peers x).handle) }
  | unsubscribe (x : π) (t : τ) (hlive : (b.peers x).live = true)
      (hvisits : (b.peers x).visits = some t) (hlock : b.lock t = none) :
      Step cap pipe b (some x)
        { b.modify x fun p => { p with visits := none } with
          subs := Function.update b.subs t (SlotList.remove (b.subs t) (b.peers x).handle) }
  | record (x : π) (t : τ) (m : ι) (hlive : (b.peers x).live = true)
      (hpost : (b.peers x).post = .idle) :
      Step cap pipe b (some x) (b.modify x fun p => { p with post := .recorded t m })
  | lock (x : π) (t : τ) (m : ι) (hpost : (b.peers x).post = .recorded t m)
      (hlock : b.lock t = none) :
      Step cap pipe b (some x)
        { b.modify x fun p => { p with post := .notifying t m (b.subs t) } with
          lock := Function.update b.lock t (some x) }
  | write (x : π) (t : τ) (m : ι) (fd : φ) (rest : List φ) (y : π)
      (hpost : (b.peers x).post = .notifying t m (fd :: rest)) (hy : b.owner fd = some y) :
      Step cap pipe b (some x)
        { (b.signal pipe y).modify x fun p => { p with post := .notifying t m rest } with
          wakes := b.wakes ++ [(m, y)] }
  /-- The handle is closed: nothing arrives. -/
  | writeClosed (x : π) (t : τ) (m : ι) (fd : φ) (rest : List φ)
      (hpost : (b.peers x).post = .notifying t m (fd :: rest)) (hy : b.owner fd = none) :
      Step cap pipe b (some x) (b.modify x fun p => { p with post := .notifying t m rest })
  | unlock (x : π) (t : τ) (m : ι) (hpost : (b.peers x).post = .notifying t m []) :
      Step cap pipe b (some x)
        { b.modify x fun p => { p with post := .idle } with
          lock := Function.update b.lock t none }
  | close (x : π) (hlive : (b.peers x).live = true) (hvisits : (b.peers x).visits = none)
      (hpost : (b.peers x).post = .idle) :
      Step cap pipe b (some x)
        { b.modify x fun p => { p with live := false } with
          owner := Function.update b.owner (b.peers x).handle none }

/-! ## §2. The invariant. -/

/-- What holds in every state of the bus. -/
structure Inv (cap : Nat) (b : Bus τ π φ ι) : Prop where
  /-- An open handle belongs to the living peer that it is the handle of. -/
  of_owner : ∀ fd x, b.owner fd = some x → (b.peers x).live = true ∧ (b.peers x).handle = fd
  owner : ∀ x, (b.peers x).live = true → b.owner (b.peers x).handle = some x
  dead : ∀ x, (b.peers x).live = false → (b.peers x).visits = none ∧ (b.peers x).post = .idle
  nodup : ∀ t, (b.subs t).Nodup
  bound : ∀ t, (b.subs t).length ≤ cap
  /-- A topic's list holds handles of accepted visitors, and all of them. -/
  of_mem : ∀ t fd, fd ∈ b.subs t →
    ∃ x, b.owner fd = some x ∧ (b.peers x).visits = some t ∧ (b.peers x).accepted = true
  mem : ∀ x t, (b.peers x).visits = some t → (b.peers x).accepted = true →
    (b.peers x).handle ∈ b.subs t
  /-- A topic is locked by the peer that signals it, and by no other. -/
  of_lock : ∀ t x, b.lock t = some x → ∃ m rest, (b.peers x).post = .notifying t m rest
  lock : ∀ x t m rest, (b.peers x).post = .notifying t m rest → b.lock t = some x
  targets : ∀ x t m rest fd, (b.peers x).post = .notifying t m rest → fd ∈ rest → fd ∈ b.subs t
  /-- A visitor is still ahead of the peer that signals, or has been reached. -/
  woken : ∀ x t m rest y, (b.peers x).post = .notifying t m rest → (b.peers y).visits = some t →
    (b.peers y).accepted = true → (b.peers y).handle ∈ rest ∨ (m, y) ∈ b.wakes

section Preservation

-- Nothing here is ordered; with `linarith` on, `grind` would look for ordered rings
-- on handles, peers and messages at every step.

variable {cap pipe : Nat} {b b' : Bus τ π φ ι} {a : Option π}

theorem keeps_of_owner (hi : Inv cap b) (h : Step cap pipe b a b') (fd : φ) (x : π)
    (howner : b'.owner fd = some x) : (b'.peers x).live = true ∧ (b'.peers x).handle = fd := by
  have hof := hi.of_owner
  have hown := hi.owner
  cases h with
  | close z hlive hvisits hpost =>
    -- a handle other than the closed one has another owner
    grind -linarith [Function.update_apply]
  | _ => grind -linarith [Bus.signal, Function.update_apply]

theorem keeps_owner (hi : Inv cap b) (h : Step cap pipe b a b') (x : π)
    (hlive : (b'.peers x).live = true) : b'.owner (b'.peers x).handle = some x := by
  have hof := hi.of_owner
  have hown := hi.owner
  cases h with
  | connect z fd hz hfd =>
    -- the new handle was nobody's
    grind -linarith [Function.update_apply]
  | _ => grind -linarith [Bus.signal, Function.update_apply]

theorem keeps_dead (hi : Inv cap b) (h : Step cap pipe b a b') (x : π)
    (hdead : (b'.peers x).live = false) :
    (b'.peers x).visits = none ∧ (b'.peers x).post = .idle := by
  have hold := hi.dead
  cases h with
  | _ => grind -linarith [Bus.signal]

theorem keeps_nodup (hi : Inv cap b) (h : Step cap pipe b a b') (t : τ) : (b'.subs t).Nodup := by
  have hold := hi.nodup
  cases h with
  | subscribe x t' hlive hvisits hpost hlock =>
    have hnew : (b.peers x).handle ∉ b.subs t' := by
      intro hmem
      obtain ⟨y, hy, hyv, -⟩ := hi.of_mem t' _ hmem
      rw [hi.owner x hlive] at hy
      cases hy
      rw [hvisits] at hyv
      exact absurd hyv nofun
    show (Function.update b.subs t' _ t).Nodup
    rw [Function.update_apply]
    split
    · exact SlotList.nodup_insert (hold t') hnew
    · exact hold t
  | unsubscribe x t' hlive hvisits hlock =>
    show (Function.update b.subs t' _ t).Nodup
    rw [Function.update_apply]
    split
    · exact SlotList.nodup_remove (hold t') _
    · exact hold t
  | _ => exact hold t

theorem keeps_bound (hi : Inv cap b) (h : Step cap pipe b a b') (t : τ) :
    (b'.subs t).length ≤ cap := by
  have hold := hi.bound
  cases h with
  | subscribe x t' hlive hvisits hpost hlock =>
    show (Function.update b.subs t' _ t).length ≤ cap
    rw [Function.update_apply]
    split
    · exact SlotList.length_insert_le (hold t')
    · exact hold t
  | unsubscribe x t' hlive hvisits hlock =>
    show (Function.update b.subs t' _ t).length ≤ cap
    rw [Function.update_apply]
    split
    · exact Nat.le_trans (SlotList.length_remove_le _ _) (hold t')
    · exact hold t
  | _ => exact hold t

theorem keeps_of_mem (hi : Inv cap b) (h : Step cap pipe b a b') (t : τ) (fd : φ)
    (hmem : fd ∈ b'.subs t) :
    ∃ x, b'.owner fd = some x ∧ (b'.peers x).visits = some t ∧ (b'.peers x).accepted = true := by
  have hold := hi.of_mem
  have hown := hi.owner
  have hof := hi.of_owner
  have hdead := hi.dead
  cases h with
  | subscribe x t' hlive hvisits hpost hlock =>
    grind -linarith [Function.update_apply, SlotList.mem_insert]
  | unsubscribe x t' hlive hvisits hlock =>
    -- what is left on the list is not the handle of `x`, so its owner is not `x`
    have hrem := SlotList.mem_remove (hi.nodup t') (a := (b.peers x).handle) (b := fd)
    grind -linarith [Function.update_apply]
  | _ => grind -linarith [Bus.signal, Function.update_apply]

theorem keeps_mem (hi : Inv cap b) (h : Step cap pipe b a b') (x : π) (t : τ)
    (hvisits : (b'.peers x).visits = some t) (hacc : (b'.peers x).accepted = true) :
    (b'.peers x).handle ∈ b'.subs t := by
  have hold := hi.mem
  have hown := hi.owner
  have hdead := hi.dead
  cases h with
  | subscribe y t' hlive hvisits hpost hlock =>
    grind -linarith [Function.update_apply, SlotList.mem_insert]
  | unsubscribe y t' hlive hvisits hlock =>
    -- another visitor has another handle
    have hrem := SlotList.mem_remove (hi.nodup t') (a := (b.peers y).handle)
      (b := (b.peers x).handle)
    grind -linarith [Function.update_apply]
  | _ => grind -linarith [Bus.signal]

theorem keeps_of_lock (hi : Inv cap b) (h : Step cap pipe b a b') (t : τ) (x : π)
    (hlocked : b'.lock t = some x) : ∃ m rest, (b'.peers x).post = .notifying t m rest := by
  have hold := hi.of_lock
  have hlock := hi.lock
  have hdead := hi.dead
  cases h with
  | lock z t' m' hz hfree =>
    by_cases ht : t = t'
    · have hx : z = x := by grind -linarith [Function.update_apply]
      exact ⟨m', b.subs t', by grind -linarith⟩
    · grind -linarith [Function.update_apply]
  | _ => grind -linarith [Bus.signal, Function.update_apply]

theorem keeps_lock (hi : Inv cap b) (h : Step cap pipe b a b') (x : π) (t : τ) (m : ι)
    (rest : List φ) (hpost : (b'.peers x).post = .notifying t m rest) : b'.lock t = some x := by
  have hold := hi.lock
  have hdead := hi.dead
  cases h with
  | _ => grind -linarith [Bus.signal, Function.update_apply]

theorem keeps_targets (hi : Inv cap b) (h : Step cap pipe b a b') (x : π) (t : τ) (m : ι)
    (rest : List φ) (fd : φ) (hpost : (b'.peers x).post = .notifying t m rest) (hfd : fd ∈ rest) :
    fd ∈ b'.subs t := by
  have hold := hi.targets
  have hlock := hi.lock
  cases h with
  | unsubscribe y t' hlive hvisits hfree =>
    -- nobody signals the topic, or its lock would not be free
    grind -linarith [Function.update_apply]
  | _ => grind -linarith [Bus.signal, Function.update_apply, SlotList.mem_insert]

theorem keeps_woken (hi : Inv cap b) (h : Step cap pipe b a b') (x : π) (t : τ) (m : ι)
    (rest : List φ) (y : π) (hpost : (b'.peers x).post = .notifying t m rest)
    (hvisits : (b'.peers y).visits = some t) (hacc : (b'.peers y).accepted = true) :
    (b'.peers y).handle ∈ rest ∨ (m, y) ∈ b'.wakes := by
  have hold := hi.woken
  have hlock := hi.lock
  have hmem := hi.mem
  have hown := hi.owner
  have hdead := hi.dead
  cases h with
  | lock z t' m' hz hfree =>
    -- the peer starts with the whole list
    grind -linarith
  | write z t' m' fd rest' w hz hw =>
    -- the handle just signalled is the visitor's own or leaves it where it was
    grind -linarith [Bus.signal]
  | _ => grind -linarith [Bus.signal]

/-- **Every step keeps the invariant.** -/
theorem Inv.step (hi : Inv cap b) (h : Step cap pipe b a b') : Inv cap b' where
  of_owner := keeps_of_owner hi h
  owner := keeps_owner hi h
  dead := keeps_dead hi h
  nodup := keeps_nodup hi h
  bound := keeps_bound hi h
  of_mem := keeps_of_mem hi h
  mem := keeps_mem hi h
  of_lock := keeps_of_lock hi h
  lock := keeps_lock hi h
  targets := keeps_targets hi h
  woken := keeps_woken hi h

/-! ## §3. Places for everybody. -/

/-- The topic has at most `n` visitors. -/
def AtMost (b : Bus τ π φ ι) (t : τ) (n : Nat) : Prop :=
  ∀ l : List π, l.Nodup → (∀ y ∈ l, (b.peers y).visits = some t) → l.length ≤ n

omit [DecidableEq π] [DecidableEq τ] [DecidableEq φ] in
/-- The owners of a topic's handles: as many, all different, all visitors. -/
theorem exists_owners (hi : Inv cap b) (t : τ) :
    ∀ fds : List φ, fds.Nodup → (∀ fd ∈ fds, fd ∈ b.subs t) →
      ∃ l : List π, l.Nodup ∧ l.length = fds.length
        ∧ ∀ y ∈ l, (b.peers y).visits = some t ∧ (b.peers y).handle ∈ fds
  | [], _, _ => ⟨[], List.nodup_nil, rfl, fun _ h => absurd h List.not_mem_nil⟩
  | fd :: fds, hnd, hmem => by
      obtain ⟨hfd, hnd⟩ := List.nodup_cons.mp hnd
      obtain ⟨l, hl, hlen, hall⟩ :=
        exists_owners hi t fds hnd (fun fd' h => hmem fd' (List.mem_cons_of_mem _ h))
      obtain ⟨x, hx, hxv, -⟩ := hi.of_mem t fd (hmem fd List.mem_cons_self)
      have hhandle := (hi.of_owner fd x hx).2
      refine ⟨x :: l, List.nodup_cons.mpr ⟨?_, hl⟩, by rw [List.length_cons, List.length_cons, hlen],
        ?_⟩
      · intro hxl
        have := (hall x hxl).2
        rw [hhandle] at this
        exact hfd this
      · intro y hy
        rcases List.mem_cons.mp hy with rfl | hy
        · exact ⟨hxv, by rw [hhandle]; exact List.mem_cons_self⟩
        · exact ⟨(hall y hy).1, List.mem_cons_of_mem _ (hall y hy).2⟩

/-- As long as a topic never has more visitors than places, all its visitors
are accepted. -/
theorem accepted_of_atMost (hi : Inv cap b) (h : Step cap pipe b a b') {t : τ}
    (hall : ∀ y, (b.peers y).visits = some t → (b.peers y).accepted = true)
    (hmost : AtMost b' t cap) (y : π) (hy : (b'.peers y).visits = some t) :
    (b'.peers y).accepted = true := by
  cases h with
  | subscribe x t' hlive hvisits hpost hlock =>
    by_cases ht : t' = t
    · subst ht
      -- the visitors behind the list's handles, and the new one
      obtain ⟨l, hl, hlen, hl'⟩ := exists_owners hi t' (b.subs t') (hi.nodup t') (fun _ h => h)
      have hx : x ∉ l := by
        intro hx
        have := (hl' x hx).1
        rw [hvisits] at this
        exact absurd this nofun
      have hroom := hmost (x :: l) (List.nodup_cons.mpr ⟨hx, hl⟩) (by
        intro z hz
        grind -linarith)
      rw [List.length_cons, hlen] at hroom
      have hlt : (b.subs t').length < cap := hroom
      grind -linarith
    · grind -linarith
  | _ => grind -linarith [Bus.signal]

/-! ## §4. Messages on their way. -/

/-- Message `m` of topic `t` is recorded, and the lock is not taken for it yet. -/
def Recorded (b : Bus τ π φ ι) (t : τ) (m : ι) : Prop := ∃ x, (b.peers x).post = .recorded t m

/-- Message `m` of topic `t` is recorded and still on its way to `fd`. -/
def OnWay (b : Bus τ π φ ι) (t : τ) (m : ι) (fd : φ) : Prop :=
  Recorded b t m ∨ ∃ x rest, (b.peers x).post = .notifying t m rest ∧ fd ∈ rest

/-- A recorded message stays so until the lock is taken for it. -/
theorem Recorded.step (hi : Inv cap b) (h : Step cap pipe b a b') {t : τ} {m : ι}
    (hr : Recorded b t m) :
    Recorded b' t m ∨ ∃ x, a = some x ∧ (b.peers x).post = .recorded t m
      ∧ (b'.peers x).post = .notifying t m (b.subs t) := by
  obtain ⟨x, hx⟩ := hr
  have hdead := hi.dead
  by_cases hsame : (b'.peers x).post = .recorded t m
  · exact Or.inl ⟨x, hsame⟩
  · -- the peer that recorded it has moved on, and only by taking the lock
    right
    refine ⟨x, ?_⟩
    cases h with
    | _ => grind -linarith [Bus.signal]

/-- A message on its way to an accepted visitor stays so until it arrives. -/
theorem OnWay.step (hpipe : 0 < pipe) (hi : Inv cap b) (h : Step cap pipe b a b') {t : τ} {m : ι}
    {y : π} (hvisits : (b.peers y).visits = some t) (hacc : (b.peers y).accepted = true)
    (hw : OnWay b t m (b.peers y).handle) :
    OnWay b' t m (b.peers y).handle ∨ ((m, y) ∈ b'.wakes ∧ 0 < (b'.peers y).bytes) := by
  have hlive : (b.peers y).live = true := by
    cases hl : (b.peers y).live with
    | true => rfl
    | false =>
      rw [(hi.dead y hl).1] at hvisits
      exact absurd hvisits nofun
  have howner := hi.owner y hlive
  rcases hw with hr | ⟨x, rest, hx, hfd⟩
  · rcases hr.step hi h with hr' | ⟨x, -, -, hx⟩
    · exact Or.inl (Or.inl hr')
    · -- the lock is taken: the visitor is on the list
      exact Or.inl (Or.inr ⟨x, _, hx, hi.mem y t hvisits hacc⟩)
  · by_cases hsame : (b'.peers x).post = .notifying t m rest
    · exact Or.inl (Or.inr ⟨x, rest, hsame, hfd⟩)
    · have hdead := hi.dead
      cases h with
      | write z t' m' fd rest' w hz hw =>
        have hzx : z = x := by grind -linarith [Bus.signal]
        subst hzx
        rw [hx] at hz
        obtain ⟨rfl, rfl, rfl⟩ : t = t' ∧ m = m' ∧ rest = fd :: rest' := by
          simpa using hz
        rcases List.mem_cons.mp hfd with hself | hfd'
        · -- the visitor's own handle
          rw [← hself, howner] at hw
          cases hw
          right
          refine ⟨List.mem_append_right _ List.mem_cons_self, ?_⟩
          grind -linarith [Bus.signal]
        · exact Or.inl (Or.inr ⟨z, rest', by grind -linarith, hfd'⟩)
      | writeClosed z t' m' fd rest' hz hw =>
        have hzx : z = x := by grind -linarith
        subst hzx
        rw [hx] at hz
        obtain ⟨rfl, rfl, rfl⟩ : t = t' ∧ m = m' ∧ rest = fd :: rest' := by
          simpa using hz
        rcases List.mem_cons.mp hfd with hself | hfd'
        · rw [← hself, howner] at hw
          exact absurd hw nofun
        · exact Or.inl (Or.inr ⟨z, rest', by grind -linarith, hfd'⟩)
      | _ => grind -linarith [Bus.signal]

/-! ## §5. The log of signals. -/

/-- Signals stay in the log, and a new one has reached a visitor's pipe. -/
theorem Step.wakes (hpipe : 0 < pipe) (hi : Inv cap b) (h : Step cap pipe b a b') :
    (∀ k ∈ b.wakes, k ∈ b'.wakes)
      ∧ ∀ m y, (m, y) ∈ b'.wakes → (m, y) ∈ b.wakes
          ∨ (b.peers y).visits ≠ none ∧ 0 < (b'.peers y).bytes := by
  cases h with
  | write x t m fd rest z hpost hz =>
    refine ⟨fun k hk => List.mem_append_left _ hk, ?_⟩
    intro m' y hmem
    rcases List.mem_append.mp hmem with hold | hnew
    · exact Or.inl hold
    · right
      obtain ⟨-, rfl⟩ : m' = m ∧ y = z := by simpa using hnew
      -- the handle is on the list, so its owner visits the topic
      obtain ⟨w, hw, hwv, -⟩ := hi.of_mem t fd (hi.targets x t m _ fd hpost List.mem_cons_self)
      rw [hz] at hw
      cases hw
      refine ⟨by rw [hwv]; exact nofun, ?_⟩
      grind -linarith [Bus.signal]
  | _ => exact ⟨fun _ hk => hk, fun _ _ hk => Or.inl hk⟩

end Preservation

end

end NetServer.Lib.PubSub
