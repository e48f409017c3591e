/-
  NetServer.Chat.Wakeup — which messages wake an event stream.

  `handle_sse` reads its first cursor before it subscribes.  A message that is
  inserted and announced between the two is above the cursor, and no notify
  loop ever writes to the stream's pipe for it (`stream_misses_message`).
  When no notify loop for such a message starts in that window, every message
  above the first cursor reaches the pipe (`stream_woken`).

  The invariant is `Followed`: a message above the cursor has reached the
  stream, or is still on its way to it.
-/
import NetServer.Chat.Delivery

namespace NetServer.Chat

open NetServer.Lib
open NetServer.Lib.OrderedLog
open NetServer.Lib.PubSub

/-! ## §1. Streams and the bus. -/

/-- Some thread is inside `chat_room_post` for message `id` of room `r`. -/
def Sys.MidPost (s : Sys) (r id : Int) : Prop :=
  ∃ x p, (s.conns x).prog.posting = some p ∧ p.Posting r id

theorem midPost_of_onWay {s : Sys} {r id : Int} {fd : Nat} (h : OnWay s.bus r id fd) :
    s.MidPost r id := by
  rcases h with ⟨x, hx⟩ | ⟨x, rest, hx, -⟩
  · exact ⟨x, _, postOf_recorded hx, rfl, rfl⟩
  · exact ⟨x, _, postOf_notifying hx, rfl, rfl⟩

/-- Only the last step of `handle_sse` leaves it. -/
theorem Sse.step_none {e : Sse} {sh : Shared} {bytes : Nat} {shutdown : Bool} {choice : Choice}
    {op : Op} (h : e.step sh bytes shutdown choice = some (none, op)) : e.pc = .clear := by
  cases step_stepped h with
  | clear hpc => exact hpc

/-- A stream that is not at its end is one after the next step, too. -/
theorem stream_stays {rooms : List ChatRoom} {s s' : Sys} {act : Act} {y : Nat} {e : Sse}
    (h : s.step rooms act = some s') (hy : (s.conns y).prog = .http (.events e))
    (hpc : e.pc ≠ .clear) : ∃ e', (s'.conns y).prog = .http (.events e') := by
  cases Sys.step_conn h y with
  | other n down hact hconn hn =>
    refine ⟨e, ?_⟩
    rw [hconn]
    exact hy
  | connect p hp hunused hprog =>
    rw [hunused] at hy
    exact absurd hy nofun
  | run choice p' op s1 hact hprog happly hs' =>
    simp only [Sys.progStep, hy, Http.step, reduceCtorEq, if_false, Option.map_map,
      Option.map_eq_some_iff] at hprog
    obtain ⟨⟨e1, op1⟩, he1, heq⟩ := hprog
    cases heq
    cases e1 with
    | none => exact absurd (Sse.step_none he1) hpc
    | some e1 =>
      refine ⟨e1, ?_⟩
      rw [hs', Sys.setProg_conn]
      rfl

/-! ## §2. Messages followed to the pipe. -/

/-- A step in which the room is not overfull, no notify loop for a message above
stream `y`'s first cursor starts while `y` is between its cursor and its
subscription, and `y` does not unsubscribe while such a message is being
posted. -/
structure Orderly (y : Nat) (r : Int) (s : Sys) (act : Act) (s' : Sys) : Prop where
  uncrowded : s'.Uncrowded r
  noRace : ∀ e, (s.conns y).prog = .http (.events e) → e.roomId = r → e.pc = .subscribe →
    ∀ x id, act.actor = some x → (s.conns x).prog.posting = some (.lock r id) → id ≤ e.start
  noLeave : ∀ e, (s.conns y).prog = .http (.events e) → e.roomId = r → e.pc = .unsubscribe →
    act.actor = some y → ∀ id, s.MidPost r id → id ≤ e.start

/-- Message `id` of room `r` has been written to `y`'s pipe; or it is above the
first cursor of the stream `y`, and its notify loop will write to the pipe. -/
def Followed (y : Nat) (r id : Int) (s : Sys) : Prop :=
  (id, y) ∈ s.wakes
    ∨ ∃ e, (s.conns y).prog = .http (.events e) ∧ e.roomId = r ∧ e.start < id
        ∧ (e.pc = .subscribe ∧ Recorded s.bus r id
          ∨ e.visits = some r ∧ OnWay s.bus r id (s.conns y).fd)

theorem Sse.visits_iff {e : Sse} {r : Int} :
    e.visits = some r ↔ e.roomId = r ∧ e.pc ≠ .tail ∧ e.pc ≠ .subscribe ∧ e.pc ≠ .clear := by
  unfold visits
  cases e.pc <;> simp

/-- A subscribed stream stays so until it unsubscribes. -/
theorem Sse.StepKind.visits {sh : Shared} {e e' : Sse} {op : Op} {r : Int}
    (h : e.StepKind sh e' op) (hv : e.visits = some r) :
    e'.visits = some r ∨ e.pc = .unsubscribe := by
  obtain ⟨hr, htail, -, -⟩ := visits_iff.mp hv
  cases h with
  | tail hpc => exact absurd hpc htail
  | @goes pc op hgoes =>
    by_cases hpc : pc = .clear
    · exact Or.inr (hgoes.left hpc)
    · exact Or.inl (visits_iff.mpr ⟨hr, hgoes.noTail.2.1, hgoes.noTail.2.2, hpc⟩)
  | pull _ =>
    left
    rw [next_visits, ← hr]
  | sent cur rest _ =>
    left
    rw [next_visits, ← hr]

/-- The room and the first cursor of a stream stay the same after its first
query. -/
theorem Sse.StepKind.keeps {sh : Shared} {e e' : Sse} {op : Op} (h : e.StepKind sh e' op)
    (htail : e.pc ≠ .tail) : e'.roomId = e.roomId ∧ e'.start = e.start := by
  cases h with
  | tail hpc => exact absurd hpc htail
  | goes _ => exact ⟨rfl, rfl⟩
  | pull _ =>
    cases chatDbMessagesSince sh.db e.roomId e.cursor 64 64 with
    | nil => exact ⟨rfl, rfl⟩
    | cons m rest => exact ⟨rfl, rfl⟩
  | sent cur rest _ =>
    cases rest with
    | nil => exact ⟨rfl, rfl⟩
    | cons m rest => exact ⟨rfl, rfl⟩

/-- A message once followed is followed to the pipe. -/
theorem Followed.step {rooms : List ChatRoom} {y : Nat} {r id : Int} {s s' : Sys} {act : Act}
    (hs : s.Sound)
    (hacc : (s.conns y).prog.visits = some r → (s.conns y).accepted = true)
    (h : s.step rooms act = some s') (hok : Orderly y r s act s') (hf : Followed y r id s) :
    Followed y r id s' := by
  have hbus := (Sys.step_bus hs.threads h).2
  rcases hf with hw | ⟨e, hy, hr, hid, hway⟩
  · exact Or.inl ((hbus.wakes pipeCap_pos hs.bus).1 _ hw)
  have hfd : (s'.conns y).fd = (s.conns y).fd := Sys.step_fd h (by rw [hy]; rfl)
  have hclear : e.pc ≠ .clear := by
    rcases hway with ⟨hpc, -⟩ | ⟨hv, -⟩
    · rw [hpc]
      exact nofun
    · exact (Sse.visits_iff.mp hv).2.2.2
  obtain ⟨e', hy'⟩ := stream_stays h hy hclear
  rcases hway with ⟨hpc, hrec⟩ | ⟨hv, hway⟩
  · -- before the subscription: the message waits for its lock
    have hrec' : Recorded s'.bus r id := by
      rcases hrec.step hs.bus hbus with hrec' | ⟨x, hx, hpost, -⟩
      · exact hrec'
      · have hle := hok.noRace e hy hr hpc x id hx (postOf_recorded hpost)
        omega
    cases streamStep h hy' with
    | other _ hprog =>
      cases hy.symm.trans hprog
      exact Or.inr ⟨e, hy', hr, hid, Or.inl ⟨hpc, hrec'⟩⟩
    | started hprog => exact absurd (hy.symm.trans hprog) nofun
    | own e0 choice op s1 _ hprog hstep _ _ =>
      cases hy.symm.trans hprog
      simp only [Sse.step, hpc, Option.some.injEq, Prod.mk.injEq] at hstep
      obtain ⟨rfl, -⟩ := hstep
      refine Or.inr ⟨_, hy', hr, hid, Or.inr ⟨?_, Or.inl hrec'⟩⟩
      rw [← hr]
      rfl
  · -- on the list: the message stays on its way until it is written
    have hvisits : (s.conns y).prog.visits = some r := by rw [hy]; exact hv
    rcases hway.step pipeCap_pos hs.bus hbus hvisits (hacc hvisits) with hway' | ⟨hw, -⟩
    · have hway' : OnWay s'.bus r id (s'.conns y).fd := by rw [hfd]; exact hway'
      cases streamStep h hy' with
      | other _ hprog =>
        cases hy.symm.trans hprog
        exact Or.inr ⟨e, hy', hr, hid, Or.inr ⟨hv, hway'⟩⟩
      | started hprog => exact absurd (hy.symm.trans hprog) nofun
      | own e0 choice op s1 hact hprog hstep _ _ =>
        cases hy.symm.trans hprog
        have hkind := Sse.step_kind hstep
        obtain ⟨hr', hstart⟩ := hkind.keeps (Sse.visits_iff.mp hv).2.1
        rcases hkind.visits hv with hv' | hpc
        · exact Or.inr ⟨e', hy', by rw [hr', hr], by rw [hstart]; exact hid, Or.inr ⟨hv', hway'⟩⟩
        · -- it would leave while the message is being posted
          have hle := hok.noLeave e hy hr hpc (by rw [hact]; rfl) id (midPost_of_onWay hway)
          omega
    · exact Or.inl hw

/-- Every message above the first cursor of a stream is followed, from the
stream's first query to its end. -/
def Covered (y : Nat) (r : Int) (s : Sys) : Prop :=
  ∀ e, (s.conns y).prog = .http (.events e) → e.roomId = r → e.pc ≠ .tail → e.pc ≠ .clear →
    ∀ id ∈ s.sh.db.roomIds r, e.start < id → Followed y r id s

/-- A message that has just been inserted is followed. -/
theorem followed_of_recorded {y : Nat} {r id : Int} {s : Sys} {e : Sse}
    (hy : (s.conns y).prog = .http (.events e)) (hr : e.roomId = r) (htail : e.pc ≠ .tail)
    (hclear : e.pc ≠ .clear) (hid : e.start < id) (hrec : Recorded s.bus r id) :
    Followed y r id s := by
  refine Or.inr ⟨e, hy, hr, hid, ?_⟩
  by_cases hpc : e.pc = .subscribe
  · exact Or.inl ⟨hpc, hrec⟩
  · exact Or.inr ⟨Sse.visits_iff.mpr ⟨hr, htail, hpc, hclear⟩, Or.inl hrec⟩

theorem Covered.step {rooms : List ChatRoom} {y : Nat} {r : Int} {s s' : Sys} {act : Act}
    (hs : s.Sound) (hacc : (s.conns y).prog.visits = some r → (s.conns y).accepted = true)
    (h : s.step rooms act = some s') (hok : Orderly y r s act s') (hc : Covered y r s) :
    Covered y r s' := by
  intro e' hy' hr' htail' hclear' id hmem hid
  -- a message that is new in this step waits for its lock
  have hnew : id ∉ s.sh.db.roomIds r → Followed y r id s' := by
    intro hold
    rcases Sys.step_roomIds hs.threads h r with heq | ⟨x, id', user, body, -, hins, heq⟩
    · rw [heq] at hmem
      exact absurd hmem hold
    · rw [heq] at hmem
      rcases List.mem_append.mp hmem with hmem | hmem
      · exact absurd hmem hold
      · rw [List.mem_singleton.mp hmem] at hid ⊢
        exact followed_of_recorded hy' hr' htail' hclear' hid ⟨x, congrArg postOf hins.after⟩
  by_cases hold : id ∈ s.sh.db.roomIds r
  · cases streamStep h hy' with
    | other _ hprog =>
      exact (hc e' hprog hr' htail' hclear' id hold hid).step hs hacc h hok
    | started _ _ roomId query he =>
      rw [he] at htail'
      exact absurd rfl htail'
    | own e choice op s1 _ hprog hstep _ _ =>
      have hkind := Sse.step_kind hstep
      by_cases htail : e.pc = .tail
      · -- the first query reads the greatest id
        simp only [Sse.step, htail, Option.some.injEq, Prod.mk.injEq] at hstep
        obtain ⟨rfl, -⟩ := hstep
        have hle : id ≤ chatDbMaxMessageId s.sh.db r := by
          obtain ⟨m, hm, hmr, rfl⟩ := mem_roomIds.mp hold
          exact le_maxMessageId hs.db (mem_roomRows.mpr ⟨hm, hmr⟩)
        have hlt : chatDbMaxMessageId s.sh.db e.roomId < id := hid
        rw [show e.roomId = r from hr'] at hlt
        omega
      · obtain ⟨hr, hstart⟩ := hkind.keeps htail
        have hclear : e.pc ≠ .clear := by
          intro hpc
          cases hkind with
          | tail h => exact htail h
          | goes hgoes => exact hclear' (hgoes.ended (Or.inr hpc))
          | pull h => cases hpc.symm.trans h
          | sent cur rest h => cases hpc.symm.trans h
        rw [hstart] at hid
        exact (hc e hprog (by rw [← hr, hr']) htail hclear id hold hid).step hs hacc h hok
  · exact hnew hold

/-- In an orderly run every message above the first cursor is followed. -/
theorem reachable_covered {rooms : List ChatRoom} {y : Nat} {r : Int} {s : Sys}
    (h : (chatSystem rooms).ReachableVia (Orderly y r) s) : Covered y r s := by
  refine TransitionSystem.ReachableVia.strengthen (P := Covered y r)
    (Q := fun s => s.Sound ∧ ∀ z, (s.conns z).prog.visits = some r → (s.conns z).accepted = true)
    ?_ ?_ ?_ h
  · intro s hs
    exact ⟨reachable_sound hs, accepted_of_uncrowded (hs.mono fun _ _ _ hok => hok.uncrowded)⟩
  · rintro s ⟨db, now, -, rfl⟩ e hy
    exact absurd hy nofun
  · intro s act s' hs hc hstep hok
    exact hc.step hs.1 (hs.2 y) hstep hok

/-! ## §3. The pipe before the first pull. -/

/-- A connection that has never subscribed and may become a stream. -/
def Prog.early : Prog → Bool
  | .unused | .http .request => true
  | .http (.events e) => decide (e.pc = .tail ∨ e.pc = .subscribe)
  | _ => false

theorem Prog.early_visits {p : Prog} (h : p.early = true) : p.visits = none := by
  cases p with
  | unused => rfl
  | closed => exact absurd h nofun
  | telnet t => exact absurd h nofun
  | http k =>
    cases k with
    | request => rfl
    | events e =>
      rcases of_decide_eq_true h with hpc | hpc
      · show e.visits = none
        unfold Sse.visits
        rw [hpc]
      · show e.visits = none
        unfold Sse.visits
        rw [hpc]
    | post p => exact absurd h nofun
    | closing => exact absurd h nofun

/-- Only an early thread becomes an early thread. -/
theorem progStep_early {rooms : List ChatRoom} {sh : Shared} {c : Conn} {choice : Choice} {p' : Prog}
    {op : Op} (h : Sys.progStep rooms sh c choice = some (p', op)) (hp' : p'.early = true) :
    c.prog.early = true := by
  cases progStep_stepped h with
  | routeEvents roomId query hprog =>
    rw [hprog]
    rfl
  | events e e1 op hprog hstep =>
    rw [hprog]
    -- a stream leaves the tail once and never comes back
    have hpc1 : e1.pc = .tail ∨ e1.pc = .subscribe := of_decide_eq_true hp'
    cases Sse.step_kind hstep with
    | tail hpc => exact decide_eq_true (Or.inl hpc)
    | goes hgoes =>
      rcases hpc1 with hpc | hpc
      · exact absurd hpc hgoes.noTail.2.1
      · exact absurd hpc hgoes.noTail.2.2
    | pull _ =>
      exfalso
      revert hpc1
      cases chatDbMessagesSince sh.db e.roomId e.cursor 64 64 <;> simp [Sse.next]
    | sent cur rest _ =>
      exfalso
      revert hpc1
      cases rest <;> simp [Sse.next]
  | _ => exact absurd hp' nofun

theorem step_early {rooms : List ChatRoom} {s s' : Sys} {act : Act} {y : Nat}
    (h : s.step rooms act = some s') (hy : (s'.conns y).prog.early = true) :
    (s.conns y).prog.early = true := by
  cases Sys.step_conn h y with
  | other n down hact hconn hn =>
    rw [hconn] at hy
    exact hy
  | connect p hp hunused hprog =>
    rw [hunused]
    rfl
  | run choice p' op s1 hact hprog happly hs' =>
    rw [hs', Sys.setProg_conn] at hy
    exact progStep_early hprog hy

/-- The pipe of `y` and the log: an early connection was never written to, and a
stream that waits and has not pulled finds the bytes it was written. -/
structure Alarm (y : Nat) (s : Sys) : Prop where
  early : (s.conns y).prog.early = true → ∀ id, (id, y) ∉ s.wakes
  sending : ∀ e cur rest, (s.conns y).prog = .http (.events e) → e.pc = .send cur rest →
    e.pulled = true
  waiting : ∀ e, (s.conns y).prog = .http (.events e) → e.pc.waiting = true → e.pulled = false →
    ∀ id, (id, y) ∈ s.wakes → 0 < (s.conns y).bytes

theorem Sse.next_pulled (e : Sse) (batch : List ChatMsg) : (e.next batch).pulled = e.pulled := by
  cases batch with
  | nil => rfl
  | cons m rest => rfl

theorem Alarm.step {rooms : List ChatRoom} {y : Nat} {s s' : Sys} {act : Act} (hs : s.Sound)
    (h : s.step rooms act = some s') (ha : Alarm y s) : Alarm y s' := by
  have hwakes := ((Sys.step_bus hs.threads h).2.wakes pipeCap_pos hs.bus).2
  -- nothing new arrives at a connection that visits no room
  have hquiet : (s.conns y).prog.early = true → ∀ id, (id, y) ∉ s'.wakes := by
    intro hearly id hmem
    rcases hwakes id y hmem with hold | ⟨hv, -⟩
    · exact ha.early hearly id hold
    · exact hv (Prog.early_visits hearly)
  refine ⟨fun hy => hquiet (step_early h hy), ?_, ?_⟩
  · intro e' cur rest hy' hpc'
    cases streamStep h hy' with
    | other _ hprog => exact ha.sending e' cur rest hprog hpc'
    | started _ _ roomId query he =>
      rw [he] at hpc'
      exact absurd hpc' nofun
    | own e choice op s1 _ hprog hstep _ _ =>
      cases Sse.step_kind hstep with
      | tail _ => exact absurd hpc' nofun
      | goes hgoes => exact absurd hpc' (hgoes.noSend cur rest)
      | pull _ => exact Sse.next_pulled _ _
      | sent cur0 rest0 hpc =>
        rw [Sse.next_pulled]
        exact ha.sending e cur0 rest0 hprog hpc
  · intro e' hy' hwait hpulled id hmem
    cases streamStep h hy' with
    | other hact hprog =>
      obtain ⟨n, down, heq, hn⟩ := Sys.step_others h hact
      rcases hwakes id y hmem with hold | ⟨-, hpos⟩
      · have hbytes := ha.waiting e' hprog hwait hpulled id hold
        rw [heq]
        show 0 < n
        omega
      · exact hpos
    | started _ _ roomId query he =>
      rw [he] at hwait
      exact absurd hwait nofun
    | own e choice op s1 _ hprog hstep happly hs' =>
      cases Sse.step_kind hstep with
      | tail _ => exact absurd hwait nofun
      | goes hgoes =>
        rcases hgoes.waiting hwait with hwait0 | hsub
        · -- waiting before: the step is not a read
          rcases hwakes id y hmem with hold | ⟨-, hpos⟩
          · have hbytes := ha.waiting e hprog hwait0 hpulled id hold
            obtain ⟨n, a, hconn, -, hn⟩ := Sys.apply_conn happly y
            have hread : op ≠ .read := by
              intro hop
              rw [hgoes.read hop] at hwait0
              exact absurd hwait0 nofun
            have hn := hn (Or.inr hread)
            rw [hs', Sys.setProg_conn, hconn]
            show 0 < n
            omega
          · exact hpos
        · -- just subscribed: never written to
          refine absurd hmem (hquiet ?_ id)
          rw [hprog]
          exact decide_eq_true (Or.inr hsub)
      | pull _ =>
        rw [Sse.next_pulled] at hpulled
        exact absurd hpulled nofun
      | sent cur rest hpc =>
        rw [Sse.next_pulled] at hpulled
        rw [show ({ e with sent := e.sent ++ [cur.id] } : Sse).pulled = e.pulled from rfl,
          ha.sending e cur rest hprog hpc] at hpulled
        exact absurd hpulled nofun

theorem reachable_alarm {rooms : List ChatRoom} {ok : Sys → Act → Sys → Prop} {s : Sys}
    (h : (chatSystem rooms).ReachableVia ok s) (y : Nat) : Alarm y s := by
  refine TransitionSystem.ReachableVia.strengthen (fun s hs => reachable_sound hs) ?_ ?_ h
  · rintro s ⟨db, now, -, rfl⟩
    exact ⟨fun _ _ => List.not_mem_nil, fun _ _ _ hy => absurd hy nofun,
      fun _ hy => absurd hy nofun⟩
  · intro s act s' hs ha hstep _
    exact ha.step hs hstep

/-! ## §4. Every orderly run. -/

/-- **Every message above the first cursor wakes the stream**, in a run whose
steps are all orderly.  A message that is in the room in a state `s` in which
the stream has read its first cursor and has not unsubscribed, and that is
above the cursor, has been written to the stream's pipe in every later state
`t` in which its poster has finished.  A stream that waits in `poll` with an
empty pipe, has not pulled and sees no poster inside a post has missed
nothing. -/
theorem stream_woken {rooms : List ChatRoom} {y : Nat} {r : Int} {s t : Sys} {e : Sse}
    (hs : (chatSystem rooms).ReachableVia (Orderly y r) s)
    (ht : ((chatSystem rooms).startingAt s).ReachableVia (Orderly y r) t)
    (hy : (s.conns y).prog = .http (.events e)) (hr : e.roomId = r) (htail : e.pc ≠ .tail)
    (hclear : e.pc ≠ .clear) :
    (∀ id ∈ s.sh.db.roomIds r, e.start < id → t.MidPost r id ∨ (id, y) ∈ t.wakes)
      ∧ (e.pc = .poll → e.pulled = false → (s.conns y).bytes = 0 → (∀ id, ¬ s.MidPost r id) →
          ∀ id ∈ s.sh.db.roomIds r, id ≤ e.start) := by
  have hcovered := reachable_covered hs e hy hr htail hclear
  -- what a followed message means in the state it is followed in
  have hmeans : ∀ {u : Sys} {id : Int}, Followed y r id u → u.MidPost r id ∨ (id, y) ∈ u.wakes := by
    intro u id hf
    rcases hf with hw | ⟨e', -, -, -, ⟨-, hrec⟩ | ⟨-, hway⟩⟩
    · exact Or.inr hw
    · exact Or.inl (midPost_of_onWay (show OnWay u.bus r id 0 from Or.inl hrec))
    · exact Or.inl (midPost_of_onWay hway)
  refine ⟨?_, ?_⟩
  · intro id hid hlt
    apply hmeans
    refine TransitionSystem.ReachableVia.invariant_from (P := Followed y r id) hs
      (hcovered id hid hlt) ?_ ht
    intro u act u' hu hf hstep hok
    exact hf.step (reachable_sound hu)
      (accepted_of_uncrowded (hu.mono fun _ _ _ hok => hok.uncrowded) y) hstep hok
  · intro hpc hpulled hempty hnone id hid
    by_contra hlt
    rcases hmeans (hcovered id hid (by omega)) with hmid | hw
    · exact hnone id hmid
    · have hpos := (reachable_alarm hs y).waiting e hy (by rw [hpc]; rfl) hpulled id hw
      omega

/-- A test that implies an orderly step among few connections: the stream is not
at its end, and takes its subscription without a notify loop in between. -/
def orderlyTest (y n : Nat) (s : Sys) (act : Act) : Bool :=
  act.within n &&
    match (s.conns y).prog with
    | .http (.events e) => decide (e.pc ≠ .unsubscribe ∧ (e.pc = .subscribe → act.actor = some y))
    | _ => true

theorem orderly_of_test {rooms : List ChatRoom} {y n : Nat} (hn : n ≤ chatMaxSubscribers) (r : Int)
    (s : Sys) (act : Act) (s' : Sys) (hfew : s.Few n) (htest : orderlyTest y n s act = true)
    (hstep : (chatSystem rooms).step s act = some s') : s'.Few n ∧ Orderly y r s act s' := by
  unfold orderlyTest at htest
  obtain ⟨hwithin, hstream⟩ := Bool.and_eq_true_iff.mp htest
  have hfew' := hfew.step (fun x hx => Act.lt_of_within hwithin hx) hstep
  refine ⟨hfew', hfew'.uncrowded hn r, ?_, ?_⟩
  · intro e hy _ hpc x id hx hpost
    rw [hy] at hstream
    have hxy := (of_decide_eq_true hstream).2 hpc
    cases hx.symm.trans hxy
    rw [hy] at hpost
    exact absurd hpost nofun
  · intro e hy _ hpc
    rw [hy] at hstream
    exact absurd hpc (of_decide_eq_true hstream).1

theorem stream_woken_one :
    ∃ s e, (chatSystem [demoRoom]).ReachableVia (Orderly 0 1) s
      ∧ (s.conns 0).prog = .http (.events e) ∧ 1 ∈ s.sh.db.roomIds 1 ∧ e.start = 0
      ∧ (s.MidPost 1 1 ∨ (1, 0) ∈ s.wakes) := by
  have hrun : (((chatSystem [demoRoom]).guarded (orderlyTest 0 2)).run (sysStart emptyDb 0)
      (joinActs 1 0 ++ postActs 1 1)).any (fun s => (s.conns 0).prog.streams fun e =>
        decide (e.roomId = 1 ∧ e.pc = .presence ∧ e.start = 0 ∧ 1 ∈ s.sh.db.roomIds 1)) = true := by
    decide +kernel
  obtain ⟨s, hrun, hcheck⟩ := TransitionSystem.exists_of_run _ hrun
  obtain ⟨hs, -⟩ := TransitionSystem.run_guarded (orderly_of_test (n := 2) (by decide) 1) _ _ _
    (.init ⟨emptyDb, 0, emptyDb_wf, rfl⟩) (fun _ _ => rfl) hrun
  obtain ⟨e, hprog, hcheck⟩ := Prog.exists_stream hcheck
  obtain ⟨hr, hpc, hstart, hmem⟩ := of_decide_eq_true hcheck
  have hwoken := stream_woken hs (.init rfl) hprog hr (by rw [hpc]; exact nofun)
    (by rw [hpc]; exact nofun)
  exact ⟨s, e, hs, hprog, hmem, hstart, hwoken.1 1 hmem (by rw [hstart]; decide)⟩

/-- **The window before the subscription.**  The stream reads its first cursor, a
message is posted, and then the stream subscribes: it waits in `poll` with an
empty pipe, nobody is inside a post, the room holds a message above its first
cursor, and the message has not been written to its pipe.  The room has one
visitor. -/
theorem stream_misses_message :
    ∃ s e, (chatSystem [demoRoom]).ReachableVia (fun _ _ s' => s'.Uncrowded 1) s
      ∧ (s.conns 0).prog = .http (.events e) ∧ e.roomId = 1 ∧ e.pc = .poll ∧ e.pulled = false
      ∧ (s.conns 0).bytes = 0 ∧ (∀ id, ¬ s.MidPost 1 id)
      ∧ ∃ id ∈ s.sh.db.roomIds 1, e.start < id ∧ (id, 0) ∉ s.wakes := by
  obtain ⟨s, hs, hfew, hcheck⟩ := exists_few [demoRoom] (n := 2) (by decide)
    [.connectHttp 0 0, .run 0 (.eventsRequest 1 []), .run 0 .go,
      .connectHttp 1 1, .run 1 (.postRequest 1 demoBody), .run 1 (.inserted (some 1)),
      .run 1 .go, .run 1 .go,
      .run 0 .go, .run 0 .go, .run 0 .go, .run 0 .go]
    (fun s => (s.conns 0).prog.streams fun e =>
      decide (e.roomId = 1 ∧ e.pc = .poll ∧ e.pulled = false ∧ e.start = 0
        ∧ (s.conns 0).bytes = 0 ∧ (s.conns 1).prog = .http .closing
        ∧ s.sh.db.roomIds 1 = [1] ∧ s.wakes = [])) (by decide +kernel)
  obtain ⟨e, hprog, hcheck⟩ := Prog.exists_stream hcheck
  obtain ⟨hr, hpc, hpulled, hstart, hbytes, hposter, hids, hwakes⟩ := of_decide_eq_true hcheck
  refine ⟨s, e, hs.mono (fun _ _ s' h => h 1), hprog, hr, hpc, hpulled, hbytes, ?_, 1, ?_, ?_, ?_⟩
  · -- the poster has finished, and the other connections are not used
    rintro id ⟨x, p, hpost, -⟩
    match x with
    | 0 =>
      rw [hprog] at hpost
      exact absurd hpost nofun
    | 1 =>
      rw [hposter] at hpost
      exact absurd hpost nofun
    | x + 2 =>
      rw [hfew (x + 2) (by omega)] at hpost
      exact absurd hpost nofun
  · rw [hids]
    exact List.mem_cons_self
  · rw [hstart]
    decide
  · rw [hwakes]
    exact List.not_mem_nil

end NetServer.Chat
