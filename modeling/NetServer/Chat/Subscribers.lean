/-
  NetServer.Chat.Subscribers — who is on a room's list, and who is woken.

  Everything here is read off the bus (`step_bus`): the lists hold exactly
  the descriptors of the visitors that found a place, and a post reaches all
  of them.

    • `subscriber_lists_exact` — the lists, over every run;
    • `post_wakes_accepted`    — a post that returns has woken every visitor
                                 whose subscription found a place;
    • `post_misses_visitor`    — a room with one visitor more than places.
-/
import NetServer.Chat.Bus
import Mathlib.Data.List.Perm.Subperm

namespace NetServer.Chat

open NetServer.Lib
open NetServer.Lib.PubSub

/-! ## §1. The invariant of the server. -/

/-- What holds in every state of the server. -/
structure Sys.Sound (s : Sys) : Prop where
  threads : ∀ y, (s.conns y).prog.Ok
  db : s.sh.db.Wf
  bus : Inv chatMaxSubscribers s.bus

theorem sysStart_sound {db : ChatDb} (hdb : db.Wf) (now : Int) : (sysStart db now).Sound where
  threads := fun _ => trivial
  db := hdb
  bus :=
    { of_owner := fun _ _ h => nomatch h
      owner := fun _ h => nomatch h
      dead := fun _ _ => ⟨rfl, rfl⟩
      nodup := fun _ => List.nodup_nil
      bound := fun _ => Nat.zero_le _
      of_mem := fun _ _ h => absurd h List.not_mem_nil
      mem := fun _ _ h => nomatch h
      of_lock := fun _ _ h => nomatch h
      lock := fun _ _ _ _ h => nomatch h
      targets := fun _ _ _ _ _ h => nomatch h
      woken := fun _ _ _ _ _ h => nomatch h }

theorem Sys.Sound.telnet {s : Sys} (hs : s.Sound) {y : Nat} {t : Telnet}
    (hy : (s.conns y).prog = .telnet t) : t.Ok := by
  have hok := hs.threads y
  rw [hy] at hok
  exact hok

theorem Sys.Sound.step {rooms : List ChatRoom} {s s' : Sys} {act : Act} (hs : s.Sound)
    (h : s.step rooms act = some s') : s'.Sound := by
  obtain ⟨hthreads, hbus⟩ := Sys.step_bus hs.threads h
  exact ⟨hthreads, Sys.step_wf hs.threads hs.db h, hs.bus.step hbus⟩

theorem reachable_sound {rooms : List ChatRoom} {ok : Sys → Act → Sys → Prop} {s : Sys}
    (h : (chatSystem rooms).ReachableVia ok s) : s.Sound := by
  refine TransitionSystem.ReachableVia.invariant ?_ ?_ h
  · rintro s ⟨db, now, hdb, rfl⟩
    exact sysStart_sound hdb now
  · intro s act s' hs hstep _
    exact hs.step hstep

/-- A store without rows. -/
def emptyDb : ChatDb := { messages := [], seq := 0, presence := [] }

theorem emptyDb_wf : emptyDb.Wf := by
  constructor <;> simp [emptyDb, OrderedLog.Ascending, longMax]

def demoRoom : ChatRoom := { id := 1, name := ascii "general", name_length := by decide }

/-- The body of a post that passes every check. -/
def demoBody : List UInt8 := ascii "\"user\":\"ann\",\"body\":\"hi\""

theorem demoBody_post :
    handleMessagesPost 1 demoBody = .post (.insert 1 (ascii "ann") (ascii "hi")) := by
  decide +kernel

/-- A schedule on an empty store whose end passes a test reaches a state that
does. -/
theorem exists_reachable (rooms : List ChatRoom) (acts : List Act) (check : Sys → Bool)
    (h : ((chatSystem rooms).run (sysStart emptyDb 0) acts).any check = true) :
    ∃ s, (chatSystem rooms).Reachable s ∧ check s = true := by
  obtain ⟨s, hrun, hcheck⟩ := TransitionSystem.exists_of_run check h
  exact ⟨s, TransitionSystem.run_reachable _ _ _ (.init ⟨emptyDb, 0, emptyDb_wf, rfl⟩) hrun, hcheck⟩

/-! ## §2. The lists. -/

/-- The room has at most as many visitors as its list has places. -/
def Sys.Uncrowded (s : Sys) (r : Int) : Prop :=
  ∀ l : List Nat, l.Nodup → (∀ y ∈ l, (s.conns y).prog.visits = some r) →
    l.length ≤ chatMaxSubscribers

/-- Only the first `n` connections have been used. -/
def Sys.Few (n : Nat) (s : Sys) : Prop := ∀ x, n ≤ x → (s.conns x).prog = .unused

theorem Sys.Few.uncrowded {n : Nat} {s : Sys} (h : s.Few n) (hn : n ≤ chatMaxSubscribers) (r : Int) :
    s.Uncrowded r := by
  intro l hl hvisits
  have hsub : l ⊆ List.range n := by
    intro y hy
    rw [List.mem_range]
    by_contra hge
    have hv := hvisits y hy
    rw [h y (by omega)] at hv
    exact absurd hv nofun
  have hlen := (List.subperm_of_subset hl hsub).length_le
  rw [List.length_range] at hlen
  omega

theorem Sys.Few.step {rooms : List ChatRoom} {n : Nat} {s s' : Sys} {act : Act} (h : s.Few n)
    (hact : ∀ x, act.actor = some x → x < n) (hstep : s.step rooms act = some s') : s'.Few n := by
  intro x hx
  have hne : act.actor ≠ some x := by
    intro heq
    have := hact x heq
    omega
  obtain ⟨m, down, heq, -⟩ := Sys.step_others hstep hne
  rw [heq]
  exact h x hx

/-- The step is taken by one of the first `n` connections, or by none. -/
def Act.within (n : Nat) (act : Act) : Bool :=
  match act.actor with
  | some x => decide (x < n)
  | none => true

theorem Act.lt_of_within {n : Nat} {act : Act} (h : act.within n = true) {x : Nat}
    (hx : act.actor = some x) : x < n := by
  unfold within at h
  rw [hx] at h
  exact of_decide_eq_true h

/-- A schedule of the first `n` connections on an empty store, whose end passes a
test, reaches a state that does, and no room is ever overfull on the way. -/
theorem exists_few (rooms : List ChatRoom) {n : Nat} (hn : n ≤ chatMaxSubscribers) (acts : List Act)
    (check : Sys → Bool)
    (h : (((chatSystem rooms).guarded fun _ act => act.within n).run (sysStart emptyDb 0) acts).any
      check = true) :
    ∃ s, (chatSystem rooms).ReachableVia (fun _ _ s' => ∀ r, s'.Uncrowded r) s ∧ s.Few n
      ∧ check s = true := by
  have hstep : ∀ (u : Sys) (act : Act) (u' : Sys), u.Few n → act.within n = true →
      (chatSystem rooms).step u act = some u' → u'.Few n ∧ ∀ r, u'.Uncrowded r := by
    intro u act u' hfew htest hu
    have hfew' := hfew.step (fun x hx => Act.lt_of_within htest hx) hu
    exact ⟨hfew', hfew'.uncrowded hn⟩
  obtain ⟨s, hrun, hcheck⟩ := TransitionSystem.exists_of_run check h
  obtain ⟨hs, hfew⟩ := TransitionSystem.run_guarded hstep _ _ _
    (.init ⟨emptyDb, 0, emptyDb_wf, rfl⟩) (fun _ _ => rfl) hrun
  exact ⟨s, hs, hfew, hcheck⟩

/-- The lists of one state: bounded, without repetition, only descriptors of
visitors with an open pipe, none in two rooms, and a notify loop is about to
write only to such descriptors. -/
structure Sys.ListsExact (s : Sys) : Prop where
  bound : ∀ r, (s.sh.subFds r).length ≤ chatMaxSubscribers
  nodup : ∀ r, (s.sh.subFds r).Nodup
  visiting : ∀ r fd, fd ∈ s.sh.subFds r →
    ∃ x, s.Open x ∧ (s.conns x).fd = fd ∧ (s.conns x).prog.visits = some r
  oneRoom : ∀ r r' fd, fd ∈ s.sh.subFds r → fd ∈ s.sh.subFds r' → r = r'
  writes : ∀ x r id fd rest, (s.conns x).prog.posting = some (.write r id (fd :: rest)) →
    ∃ y, s.Open y ∧ (s.conns y).fd = fd ∧ (s.conns y).prog.visits = some r

/-- A descriptor on a list belongs to an open visitor of the room. -/
theorem Sys.Sound.visiting {s : Sys} (hs : s.Sound) {r : Int} {fd : Nat}
    (hfd : fd ∈ s.sh.subFds r) :
    ∃ x, s.Open x ∧ (s.conns x).fd = fd ∧ (s.conns x).prog.visits = some r := by
  obtain ⟨x, howner, hvisits, -⟩ := hs.bus.of_mem r fd hfd
  have hhandle : (s.conns x).fd = fd := (hs.bus.of_owner fd x howner).2
  refine ⟨x, ?_, hhandle, hvisits⟩
  unfold Sys.Open
  rw [hhandle]
  exact howner

theorem Sys.Sound.listsExact {s : Sys} (hs : s.Sound) : s.ListsExact where
  bound := hs.bus.bound
  nodup := hs.bus.nodup
  visiting := fun _ _ hfd => hs.visiting hfd
  oneRoom := by
    intro r r' fd hfd hfd'
    obtain ⟨x, hx, hxfd, hxv⟩ := hs.visiting hfd
    obtain ⟨y, hy, hyfd, hyv⟩ := hs.visiting hfd'
    -- both visitors own `fd`
    unfold Sys.Open at hx hy
    rw [hxfd] at hx
    rw [hyfd, hx] at hy
    cases hy
    rw [hxv] at hyv
    exact Option.some.inj hyv
  writes := by
    intro x r id fd rest hpost
    have hbus : (s.bus.peers x).post = .notifying r id (fd :: rest) := congrArg postOf hpost
    exact hs.visiting (hs.bus.targets x r id _ fd hbus List.mem_cons_self)

/-- A visitor whose descriptor is on the list was accepted. -/
theorem Sys.Sound.accepted_of_mem {s : Sys} (hs : s.Sound) {r : Int} {y : Nat}
    (hvisits : (s.conns y).prog.visits = some r) (hfd : (s.conns y).fd ∈ s.sh.subFds r) :
    (s.conns y).accepted = true := by
  obtain ⟨x, howner, -, hacc⟩ := hs.bus.of_mem r _ hfd
  -- the owner of `y`'s descriptor is `y`, which is alive because it visits
  have hlive : (s.bus.peers y).live = true := by
    cases hl : (s.bus.peers y).live with
    | true => rfl
    | false =>
      have hdead := (hs.bus.dead y hl).1
      rw [show (s.bus.peers y).visits = some r from hvisits] at hdead
      exact absurd hdead nofun
  have hxy : some y = some x := (hs.bus.owner y hlive).symm.trans howner
  cases hxy
  exact hacc

/-- A step of one connection leaves the entries of all others in place. -/
theorem Sys.Sound.entry_stays {rooms : List ChatRoom} {s s' : Sys} {act : Act} (hs : s.Sound)
    (h : s.step rooms act = some s') {r : Int} {y : Nat}
    (hvisits : (s.conns y).prog.visits = some r) (hfd : (s.conns y).fd ∈ s.sh.subFds r)
    (hy : act.actor ≠ some y) : (s'.conns y).fd ∈ s'.sh.subFds r := by
  obtain ⟨n, down, heq, -⟩ := Sys.step_others h hy
  have hs' := hs.step h
  have hacc := hs.accepted_of_mem hvisits hfd
  have hv' : (s'.bus.peers y).visits = some r := by
    show (s'.conns y).prog.visits = some r
    rw [heq]
    exact hvisits
  have hacc' : (s'.bus.peers y).accepted = true := by
    show (s'.conns y).accepted = true
    rw [heq]
    exact hacc
  exact hs'.bus.mem y r hv' hacc'

/-- In a room that never had more visitors than places, every visitor has one. -/
theorem accepted_of_uncrowded {rooms : List ChatRoom} {r : Int} {s : Sys}
    (h : (chatSystem rooms).ReachableVia (fun _ _ s' => s'.Uncrowded r) s) :
    ∀ y, (s.conns y).prog.visits = some r → (s.conns y).accepted = true := by
  refine TransitionSystem.ReachableVia.strengthen
    (P := fun s => ∀ y, (s.conns y).prog.visits = some r → (s.conns y).accepted = true)
    (fun s hs => reachable_sound hs) ?_ ?_ h
  · rintro s ⟨db, now, -, rfl⟩ y hy
    exact absurd hy nofun
  · intro s act s' hs hall hstep hmost y hy
    exact accepted_of_atMost hs.bus (Sys.step_bus hs.threads hstep).2 (t := r) hall hmost y hy

/-- **The subscriber lists follow the visitors exactly.**  In every reachable
state the lists are exact; a step of one connection, its unsubscription
included, leaves the entries of all others in place; and in a room that never
had more visitors than places every visitor is on the list. -/
theorem subscriber_lists_exact (rooms : List ChatRoom) :
    (∀ s, (chatSystem rooms).Reachable s → s.ListsExact)
      ∧ (∀ s act s', (chatSystem rooms).Reachable s → s.step rooms act = some s' →
          ∀ r y, (s.conns y).prog.visits = some r → (s.conns y).fd ∈ s.sh.subFds r →
            act.actor ≠ some y → (s'.conns y).fd ∈ s'.sh.subFds r)
      ∧ ∀ r s, (chatSystem rooms).ReachableVia (fun _ _ s' => s'.Uncrowded r) s →
          ∀ x, (s.conns x).prog.visits = some r → (s.conns x).fd ∈ s.sh.subFds r := by
  refine ⟨?_, ?_, ?_⟩
  · intro s hs
    exact (reachable_sound hs).listsExact
  · intro s act s' hs hstep r y hvisits hfd hy
    exact (reachable_sound hs).entry_stays hstep hvisits hfd hy
  · intro r s hs x hvisits
    exact (reachable_sound hs).bus.mem x r hvisits (accepted_of_uncrowded hs x hvisits)

/-- A client connects and opens the event stream of room `r`. -/
def joinActs (r : Int) (x : Nat) : List Act :=
  [.connectHttp x x, .run x (.eventsRequest r []), .run x .go, .run x .go]

theorem subscriber_lists_exact_stream :
    ∃ s, (chatSystem [demoRoom]).ReachableVia (fun _ _ s' => s'.Uncrowded 1) s ∧ s.ListsExact
      ∧ (s.conns 0).prog.visits = some 1 ∧ (s.conns 0).fd ∈ s.sh.subFds 1 := by
  obtain ⟨s, hreach, -, hcheck⟩ := exists_few [demoRoom] (n := 1) (by decide) (joinActs 1 0)
    (fun s => decide ((s.conns 0).prog.visits = some 1)) (by decide +kernel)
  have hvisits := of_decide_eq_true hcheck
  have hone := hreach.mono (fun _ _ s' h => h 1)
  exact ⟨s, hone, (subscriber_lists_exact [demoRoom]).1 s hreach.reachable, hvisits,
    (subscriber_lists_exact [demoRoom]).2.2 1 s hone 0 hvisits⟩

/-! ## §3. A post wakes the visitors. -/

/-- **A post wakes every visitor that has a place.**  When `chat_room_post` has
run its notify loop and returns `id`, every session then subscribed to the
room whose `chat_room_subscribe` found a place has been written to. -/
theorem post_wakes_accepted {rooms : List ChatRoom} {s : Sys} (hs : (chatSystem rooms).Reachable s)
    {x y : Nat} {r id : Int} (hpost : (s.conns x).prog.posting = some (.write r id []))
    (hvisits : (s.conns y).prog.visits = some r) (hacc : (s.conns y).accepted = true) :
    (id, y) ∈ s.wakes := by
  have hbus : (s.bus.peers x).post = .notifying r id [] := congrArg postOf hpost
  rcases (reachable_sound hs).bus.woken x r id [] y hbus hvisits hacc with h | h
  · exact absurd h List.not_mem_nil
  · exact h

/-- A client connects and posts to room 1; SQLite gives `id`, and one visitor is
written to. -/
def postActs (x : Nat) (id : Int) : List Act :=
  [.connectHttp x x, .run x (.postRequest 1 demoBody), .run x (.inserted (some id)), .run x .go,
    .run x .go, .run x .go]

theorem post_wakes_accepted_stream :
    ∃ s, (chatSystem [demoRoom]).Reachable s
      ∧ (s.conns 1).prog.posting = some (.write 1 1 []) ∧ (s.conns 0).prog.visits = some 1
      ∧ (s.conns 0).accepted = true ∧ (1, 0) ∈ s.wakes := by
  obtain ⟨s, hreach, hcheck⟩ := exists_reachable [demoRoom]
    (joinActs 1 0 ++ [Act.connectHttp 1 1, Act.run 1 (.postRequest 1 demoBody),
      Act.run 1 (.inserted (some 1)), Act.run 1 .go, Act.run 1 .go])
    (fun s => decide ((s.conns 1).prog.posting = some (.write 1 1 [])
      ∧ (s.conns 0).prog.visits = some 1 ∧ (s.conns 0).accepted = true)) (by decide +kernel)
  obtain ⟨hpost, hvisits, hacc⟩ := of_decide_eq_true hcheck
  exact ⟨s, hreach, hpost, hvisits, hacc, post_wakes_accepted hreach hpost hvisits hacc⟩

/-! ## §4. A full room. -/

/-- The first `n` connections stream room `r`, with descriptors in order, and
nothing else has happened. -/
structure Crowd (db : ChatDb) (r : Int) (n : Nat) (s : Sys) : Prop where
  fresh : ∀ x, n ≤ x → (s.conns x).prog = .unused
  owner : ∀ fd, s.sh.fdOwner fd = if fd < n then some fd else none
  visits : ∀ x, x < n → (s.conns x).prog.visits = some r
  subs : s.sh.subFds r = List.range (min n chatMaxSubscribers)
  lock : s.sh.lock r = none
  wakes : s.wakes = []
  db : s.sh.db = db

/-- The state after `joinActs`. -/
def joined (s : Sys) (r : Int) (x : Nat) : Sys :=
  let tail := chatDbMaxMessageId s.sh.db r
  ((s.setOwner x (some x)).setSubFds r (chatRoomSubscribe (s.sh.subFds r) x)).modify x fun _ =>
    { fd := x, bytes := 0, shutdown := false
      accepted := decide ((s.sh.subFds r).length < chatMaxSubscribers)
      prog := .http (.events
        { handleSse r [] with cursor := tail, start := tail, pc := .presence }) }

theorem run_join {rooms : List ChatRoom} {s : Sys} {r : Int} {x : Nat}
    (hroom : rooms.any (·.id = r) = true) (hunused : (s.conns x).prog = .unused)
    (hfree : s.sh.fdOwner x = none) (hlock : s.sh.lock r = none) :
    (chatSystem rooms).run s (joinActs r x) = some (joined s r x) := by
  simp [joinActs, joined, TransitionSystem.run_cons, chatSystem, Sys.step, Sys.connect, hunused,
    hfree, Sys.progStep, Http.step, httpRoute, hroom, Sys.apply, Sys.setProg, Sys.modify,
    Sys.setOwner, Sse.step, handleSse, hlock, Sys.setSubFds]

theorem subscribe_range (n : Nat) :
    chatRoomSubscribe (List.range (min n chatMaxSubscribers)) n
      = List.range (min (n + 1) chatMaxSubscribers) := by
  unfold chatRoomSubscribe SlotList.insert
  rw [List.length_range]
  split
  · -- there is a place left
    rename_i h
    have h1 : min n chatMaxSubscribers = n := by omega
    have h2 : min (n + 1) chatMaxSubscribers = n + 1 := by omega
    rw [h1, h2, List.range_succ]
  · have h1 : min n chatMaxSubscribers = min (n + 1) chatMaxSubscribers := by omega
    rw [h1]

theorem Crowd.join {db : ChatDb} {r : Int} {n : Nat} {s : Sys} (hs : Crowd db r n s) :
    Crowd db r (n + 1) (joined s r n) where
  fresh := by
    intro x hx
    rw [joined, Sys.modify_conns, if_neg (by omega)]
    exact hs.fresh x (by omega)
  owner := by
    intro fd
    show Function.update s.sh.fdOwner n (some n) fd = _
    rw [Function.update_apply, hs.owner]
    -- the new connection takes the descriptor of its own number
    by_cases hfd : fd = n
    · rw [if_pos hfd, if_pos (by omega), hfd]
    · rw [if_neg hfd]
      by_cases hlt : fd < n
      · rw [if_pos hlt, if_pos (by omega)]
      · rw [if_neg hlt, if_neg (by omega)]
  visits := by
    intro x hx
    rw [joined, Sys.modify_conns]
    split
    · rfl
    · exact hs.visits x (by omega)
  subs := by
    show Function.update s.sh.subFds r (chatRoomSubscribe (s.sh.subFds r) n) r = _
    -- appended, or not when the list is full
    rw [Function.update_self, hs.subs]
    exact subscribe_range n
  lock := hs.lock
  wakes := hs.wakes
  db := hs.db

/-- A room may have any number of visitors. -/
theorem exists_crowd {rooms : List ChatRoom} {db : ChatDb} {r : Int} (hdb : db.Wf)
    (hroom : rooms.any (·.id = r) = true) :
    ∀ n, ∃ s, (chatSystem rooms).Reachable s ∧ Crowd db r n s
  | 0 => by
      refine ⟨sysStart db 0, .init ⟨db, 0, hdb, rfl⟩, ?_⟩
      exact ⟨fun _ _ => rfl, fun _ => rfl, fun _ h => absurd h (Nat.not_lt_zero _), rfl, rfl, rfl, rfl⟩
  | n + 1 => by
      obtain ⟨s, hreach, hs⟩ := exists_crowd hdb hroom n
      have hfree : s.sh.fdOwner n = none := by rw [hs.owner, if_neg (Nat.lt_irrefl n)]
      have hrun := run_join hroom (hs.fresh n (Nat.le_refl n)) hfree hs.lock
      exact ⟨joined s r n, TransitionSystem.run_reachable _ _ _ hreach hrun, hs.join⟩

/-- The notify loop of an HTTP post runs to its end: it wakes the owners of the
descriptors it still has to write to, and nobody else. -/
theorem run_notify {rooms : List ChatRoom} {r id : Int} {x : Nat} :
    ∀ (rest : List Nat) (s : Sys),
      (s.conns x).prog = .http (.post (.write r id rest)) →
      ∃ s', (chatSystem rooms).run s (List.replicate rest.length (.run x .go)) = some s'
        ∧ (s'.conns x).prog = .http (.post (.write r id []))
        ∧ (∀ y, y ≠ x → (s'.conns y).prog = (s.conns y).prog)
        ∧ ∀ k ∈ s'.wakes, k ∈ s.wakes ∨ ∃ fd ∈ rest, s.sh.fdOwner fd = some k.2
  | [], s, hx => ⟨s, rfl, hx, fun _ _ => rfl, fun _ hk => Or.inl hk⟩
  | fd :: rest, s, hx => by
      -- one write, then the loop goes on
      have hprog : Sys.progStep rooms s.sh (s.conns x) .go
          = some (.http (.post (.write r id rest)), .write id fd) := by
        simp [Sys.progStep, hx, Http.step, postStep]
      obtain ⟨s1, happly, hwakes, howner⟩ : ∃ s1, s.apply x (.write id fd) = some s1
          ∧ (∀ k ∈ s1.wakes, k ∈ s.wakes ∨ s.sh.fdOwner fd = some k.2)
          ∧ s1.sh.fdOwner = s.sh.fdOwner := by
        cases hfd : s.sh.fdOwner fd with
        | none => exact ⟨s, by simp [Sys.apply, hfd], fun k hk => Or.inl hk, rfl⟩
        | some y =>
          refine ⟨{ s.addByte y with wakes := s.wakes ++ [(id, y)] }, by simp [Sys.apply, hfd], ?_, rfl⟩
          intro k hk
          rcases List.mem_append.mp hk with hk | hk
          · exact Or.inl hk
          · rw [List.mem_singleton.mp hk]
            exact Or.inr rfl
      have hstep : s.step rooms (.run x .go)
          = some (s1.setProg x (.http (.post (.write r id rest)))) := by
        simp [Sys.step, hprog, happly]
      have hx1 : ((s1.setProg x (.http (.post (.write r id rest)))).conns x).prog
          = .http (.post (.write r id rest)) := by
        rw [Sys.setProg, Sys.modify_conns, if_pos rfl]
      obtain ⟨s', hrun, hx', hothers, hall⟩ := @run_notify rooms r id x rest _ hx1
      refine ⟨s', ?_, hx', ?_, ?_⟩
      · show (s.step rooms (.run x .go)).bind _ = some s'
        rw [hstep]
        exact hrun
      · intro y hy
        rw [hothers y hy, Sys.setProg, Sys.modify_conns, if_neg hy]
        exact Sys.apply_prog happly y
      · intro k hk
        rcases hall k hk with hk | ⟨fd', hfd', hk⟩
        · rcases hwakes k hk with hk | hk
          · exact Or.inl hk
          · exact Or.inr ⟨fd, List.mem_cons_self, hk⟩
        · refine Or.inr ⟨fd', List.mem_cons_of_mem _ hfd', ?_⟩
          rw [← howner]
          exact hk

/-- A client connects and posts; the row is not inserted yet. -/
def postStarted (s : Sys) (x : Nat) (p : PostPc) : Sys :=
  (s.setOwner x (some x)).modify x fun _ =>
    { fd := x, bytes := 0, shutdown := false, accepted := false, prog := .http (.post p) }

theorem run_postStarted {rooms : List ChatRoom} {s : Sys} {r : Int} {x : Nat} {body : List UInt8}
    {p : PostPc} (hroom : rooms.any (·.id = r) = true) (hunused : (s.conns x).prog = .unused)
    (hfree : s.sh.fdOwner x = none) (hbody : handleMessagesPost r body = .post p) :
    (chatSystem rooms).run s [.connectHttp x x, .run x (.postRequest r body)]
      = some (postStarted s x p) := by
  simp [postStarted, TransitionSystem.run_cons, chatSystem, Sys.step, Sys.connect, hunused, hfree,
    Sys.progStep, Http.step, httpRoute, hroom, hbody, Sys.apply, Sys.setProg, Sys.modify,
    Sys.setOwner]

/-- The row is inserted and the lock taken. -/
def notifyStarted (s : Sys) (x : Nat) (r id : Int) (user body : List UInt8) : Sys :=
  ((s.setDb (chatDbInsertMessage s.sh.db r user body s.sh.now id)).setLock r (some x)).setProg x
    (.http (.post (.write r id (s.sh.subFds r))))

theorem run_notifyStarted {rooms : List ChatRoom} {s : Sys} {r id : Int} {x : Nat}
    {user body : List UInt8} (hx : (s.conns x).prog = .http (.post (.insert r user body)))
    (hid : s.sh.db.MayAssign id) (hlock : s.sh.lock r = none) :
    (chatSystem rooms).run s [.run x (.inserted (some id)), .run x .go]
      = some (notifyStarted s x r id user body) := by
  simp [notifyStarted, TransitionSystem.run_cons, chatSystem, Sys.step, hx, Sys.progStep, Http.step,
    postStep, hid, hlock, Sys.apply, Sys.setProg, Sys.modify, Sys.setDb, Sys.setLock]

/-- **A full room.**  257 streams of one room, and a post to it: only its poster
runs, it returns, and the last visitor has not been woken. -/
theorem post_misses_visitor :
    ∃ (s0 s : Sys) (acts : List Act) (x y : Nat) (r id : Int),
      (chatSystem [demoRoom]).Reachable s0 ∧ (chatSystem [demoRoom]).run s0 acts = some s
        ∧ (∀ act ∈ acts, act.actor = some x) ∧ y ≠ x
        ∧ (s0.conns x).prog.posting = some (.insert r (ascii "ann") (ascii "hi"))
        ∧ (s.conns x).prog.posting = some (.write r id [])
        ∧ (s0.conns y).prog.visits = some r ∧ (s.conns y).prog = (s0.conns y).prog
        ∧ (id, y) ∉ s.wakes ∧ ∀ z, 258 ≤ z → (s.conns z).prog = .unused := by
  obtain ⟨s, hreach, hs⟩ := @exists_crowd [demoRoom] emptyDb 1 emptyDb_wf rfl 257
  have hfree : s.sh.fdOwner 257 = none := by rw [hs.owner]; rfl
  have hrun0 := @run_postStarted [demoRoom] s 1 257 demoBody _ rfl (hs.fresh 257 (Nat.le_refl _))
    hfree demoBody_post
  generalize hs0 : postStarted s 257 (.insert 1 (ascii "ann") (ascii "hi")) = s0 at hrun0
  have hothers0 : ∀ y, y ≠ 257 → s0.conns y = s.conns y := by
    intro y hy
    rw [← hs0, postStarted, Sys.modify_conns, if_neg hy]
    rfl
  have hx0 : (s0.conns 257).prog = .http (.post (.insert 1 (ascii "ann") (ascii "hi"))) := by
    rw [← hs0, postStarted, Sys.modify_conns, if_pos rfl]
  have hid : s0.sh.db.MayAssign 1 := by
    rw [← hs0, show (postStarted s 257 _).sh.db = s.sh.db from rfl, hs.db]
    decide
  have hrun1 := @run_notifyStarted [demoRoom] s0 1 1 257 _ _ hx0 hid (by rw [← hs0]; exact hs.lock)
  generalize hs1 : notifyStarted s0 257 1 1 (ascii "ann") (ascii "hi") = s1 at hrun1
  have hx1 : (s1.conns 257).prog = .http (.post (.write 1 1 (s0.sh.subFds 1))) := by
    rw [← hs1, notifyStarted, Sys.setProg, Sys.modify_conns, if_pos rfl]
  have hothers1 : ∀ y, y ≠ 257 → s1.conns y = s0.conns y := by
    intro y hy
    rw [← hs1, notifyStarted, Sys.setProg, Sys.modify_conns, if_neg hy]
    rfl
  obtain ⟨s2, hrun2, hx2, hothers2, hwakes⟩ := @run_notify [demoRoom] 1 1 257 _ s1 hx1
  have hsame : ∀ y, y ≠ 257 → (s2.conns y).prog = (s0.conns y).prog := by
    intro y hy
    rw [hothers2 y hy, hothers1 y hy]
  refine ⟨s0, s2, [Act.run 257 (.inserted (some 1)), Act.run 257 .go]
      ++ List.replicate (s0.sh.subFds 1).length (Act.run 257 .go), 257, 256, 1, 1,
    TransitionSystem.run_reachable _ _ _ hreach hrun0, ?_, ?_, by decide, by rw [hx0]; rfl,
    by rw [hx2]; rfl, ?_, hsame 256 (by decide), ?_, ?_⟩
  · rw [TransitionSystem.run_append, hrun1]
    exact hrun2
  · intro act hact
    rcases List.mem_append.mp hact with h | h
    · rcases List.mem_cons.mp h with rfl | h
      · rfl
      · rw [List.mem_singleton.mp h]
        rfl
    · rw [(List.mem_replicate.mp h).2]
      rfl
  · rw [hothers0 256 (by decide)]
    exact hs.visits 256 (by decide)
  · -- only the owners of the 256 descriptors on the list are woken
    intro hmem
    rcases hwakes _ hmem with h | ⟨fd, hfd, h⟩
    · rw [← hs1, show (notifyStarted s0 257 1 1 _ _).wakes = s0.wakes from rfl, ← hs0,
        show (postStarted s 257 _).wakes = s.wakes from rfl, hs.wakes] at h
      exact absurd h List.not_mem_nil
    · rw [← hs0, show (postStarted s 257 _).sh.subFds = s.sh.subFds from rfl, hs.subs,
        List.mem_range] at hfd
      have hlt : fd < 256 := hfd
      rw [← hs1, show (notifyStarted s0 257 1 1 _ _).sh.fdOwner = s0.sh.fdOwner from rfl, ← hs0] at h
      have howner : Function.update s.sh.fdOwner 257 (some 257) fd = some 256 := h
      rw [Function.update_of_ne (by omega), hs.owner, if_pos (by omega)] at howner
      have : fd = 256 := Option.some.inj howner
      omega
  · intro z hz
    rw [hsame z (by omega), hothers0 z (by omega)]
    exact hs.fresh z (by omega)

end NetServer.Chat
