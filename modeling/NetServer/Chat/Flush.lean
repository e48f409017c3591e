/-
  NetServer.Chat.Flush — what one wake-up of an event stream delivers.

  The drain takes every pending wake-up, so what `handle_sse` does before it
  waits again is all that a burst of posts gets.  A round is the pull and the
  sends of its batch, with any steps of other connections between them.
  `Sse.round` says where a round stands after `done` messages with `rest` to
  send.

    • `round_reaches`, `exists_round` — a round whose sends succeed goes through
      its batch, and can be finished;
    • `notify_flush_iff` — it sends everything above the cursor exactly when
      that is at most one batch.
-/
import NetServer.Chat.Delivery

namespace NetServer.Chat

open NetServer.Lib
open NetServer.Lib.OrderedLog

/-! ## §1. The cursor. -/

/-- The id of a message of the room, or 0. -/
def ChatDb.Known (db : ChatDb) (roomId id : Int) : Prop := id = 0 ∨ id ∈ db.roomIds roomId

theorem maxMessageId_known {db : ChatDb} (hdb : db.Wf) (roomId : Int) :
    db.Known roomId (chatDbMaxMessageId db roomId) := by
  rw [maxMessageId_eq hdb]
  cases hz : (db.roomRows roomId).getLast? with
  | none => exact Or.inl rfl
  | some z => exact Or.inr (List.mem_map_of_mem (List.mem_of_getLast? hz))

theorem ChatDb.Known.grow {db db' : ChatDb} {roomId id : Int} (h : db.Known roomId id)
    (hids : db.roomIds roomId <+: db'.roomIds roomId) : db'.Known roomId id := by
  rcases h with h0 | hmem
  · exact Or.inl h0
  · exact Or.inr (hids.subset hmem)

/-- The continuation of a batch keeps the room and the first cursor. -/
theorem Sse.next_start (e : Sse) (batch : List ChatMsg) :
    (e.next batch).start = e.start ∧ (e.next batch).roomId = e.roomId := by
  cases batch with
  | nil => exact ⟨rfl, rfl⟩
  | cons m rest => exact ⟨rfl, rfl⟩

theorem Sse.step_start {e e' : Sse} {sh : Shared} {op : Op} (hdb : sh.db.Wf)
    (h : sh.db.Known e.roomId e.start) (hstep : e.StepKind sh e' op) :
    sh.db.Known e'.roomId e'.start := by
  cases hstep with
  | tail hpc => exact maxMessageId_known hdb e.roomId
  | goes hgoes => exact h
  | pull hpc =>
    rw [(next_start _ _).1, (next_start _ _).2]
    exact h
  | sent cur rest hpc =>
    rw [(next_start _ _).1, (next_start _ _).2]
    exact h

theorem reachable_start {rooms : List ChatRoom} {s : Sys} (h : (chatSystem rooms).Reachable s) :
    ∀ y e, (s.conns y).prog = .http (.events e) → s.sh.db.Known e.roomId e.start :=
  reachable_streams (P := fun db e => db.Known e.roomId e.start) (fun _ _ _ => Or.inl rfl)
    (fun _ _ _ hids hknown => hknown.grow hids) (fun _ _ _ _ => Sse.step_start) h

/-- The cursor stands on a message of the room, or at 0. -/
theorem reachable_cursor {rooms : List ChatRoom} {s : Sys} (h : (chatSystem rooms).Reachable s)
    {y : Nat} {e : Sse} (hy : (s.conns y).prog = .http (.events e)) :
    s.sh.db.Known e.roomId e.cursor := by
  have hdel := reachable_delivered h y e hy
  rw [hdel.cursor]
  cases hz : e.taken.getLast? with
  | none => exact reachable_start h y e hy
  | some z =>
    have hmem : z ∈ above e.start (s.sh.db.roomIds e.roomId) :=
      hdel.read.subset (List.mem_append_left _ (List.mem_of_getLast? hz))
    exact Or.inr (List.mem_of_mem_filter hmem)

/-- Above a cursor of the room: the last id is the greatest of the room, and
with nothing above it the cursor is. -/
theorem getLast_above {db : ChatDb} (hdb : db.Wf) {roomId c : Int} (hc : db.Known roomId c) :
    (above c (db.roomIds roomId)).getLast?.getD c = chatDbMaxMessageId db roomId := by
  have hmax : chatDbMaxMessageId db roomId = (db.roomIds roomId).getLast?.getD 0 := by
    rw [maxMessageId_eq hdb]
    unfold ChatDb.roomIds
    rw [List.getLast?_map]
  have hids := roomIds_pairwise hdb roomId
  rw [hmax]
  cases hz : (db.roomIds roomId).getLast? with
  | none =>
    rw [List.getLast?_eq_none_iff] at hz
    rw [ChatDb.Known, hz] at hc
    rw [hz]
    exact hc.resolve_right List.not_mem_nil
  | some z =>
    have hcz : c ≤ z := by
      rcases hc with rfl | hmem
      · obtain ⟨m, hm, -, rfl⟩ := mem_roomIds.mp (List.mem_of_getLast? hz)
        exact le_of_lt (hdb.pos m hm)
      · exact @key_le_getLast Int Int _ id _ hids z hz c hmem
    rw [getLast?_above hids hz, max_eq_right hcz]
    rfl

/-! ## §2. A round. -/

namespace Sse

/-- A stream that pulled at `e`, has sent `done` and goes on with `rest`. -/
def round (e : Sse) (done rest : List ChatMsg) : Sse :=
  { e with
    pulled := true
    cursor := (done.getLast?.map ChatMsg.id).getD e.cursor
    sent := e.sent ++ done.map ChatMsg.id
    taken := e.taken ++ done.map ChatMsg.id }.next rest

theorem round_start (e : Sse) (batch : List ChatMsg) :
    ({ e with pulled := true } : Sse).next batch = e.round [] batch := by
  unfold round
  simp

/-- One more message is sent. -/
theorem round_sent (e : Sse) (done rest : List ChatMsg) (m : ChatMsg) :
    ({ e.round done (m :: rest) with sent := (e.round done (m :: rest)).sent ++ [m.id] } : Sse).next
      rest = e.round (done ++ [m]) rest := by
  unfold round
  cases rest with
  | nil => simp [next]
  | cons m' rest => simp [next]

/-- A stream whose sends succeed goes on with its batch. -/
theorem step_send {e : Sse} {sh : Shared} {bytes : Nat} {shutdown : Bool} {choice : Choice}
    {cur : ChatMsg} {rest : List ChatMsg} {e' : Option Sse} {op : Op} (hpc : e.pc = .send cur rest)
    (hchoice : choice ≠ .sent false) (h : e.step sh bytes shutdown choice = some (e', op)) :
    e' = some ({ e with sent := e.sent ++ [cur.id] }.next rest) ∧ op = .skip := by
  unfold step at h
  rw [hpc] at h
  dsimp only at h
  split at h
  · cases h
    exact ⟨rfl, rfl⟩
  · exact absurd rfl hchoice
  · exact absurd h nofun

end Sse

/-- A step of a round of connection `y`: no send fails, and `y` does not wait yet. -/
def RoundStep (y : Nat) (s : Sys) (act : Act) (_ : Sys) : Prop :=
  act ≠ .run y (.sent false)
    ∧ ∀ e, (s.conns y).prog = .http (.events e) → e.pc = .wait → act.actor ≠ some y

/-- The pull starts a round with a batch of the table. -/
theorem step_pull {rooms : List ChatRoom} {s : Sys} {y : Nat} {e : Sse}
    (hy : (s.conns y).prog = .http (.events e)) (hpc : e.pc = .pull) (choice : Choice) :
    (chatSystem rooms).step s (.run y choice)
      = some (s.setProg y (.http (.events
          (e.round [] (chatDbMessagesSince s.sh.db e.roomId e.cursor 64 64))))) := by
  have hstep : e.step s.sh (s.conns y).bytes (s.conns y).shutdown choice
      = some (some (e.round [] (chatDbMessagesSince s.sh.db e.roomId e.cursor 64 64)), .skip) := by
    rw [← Sse.round_start]
    unfold Sse.step
    rw [hpc]
  have hprog : Sys.progStep rooms s.sh (s.conns y) choice = _ := progStep_events hy
  rw [hstep] at hprog
  show s.step rooms (.run y choice) = _
  simp only [Sys.step, hprog, Option.map_some, Sys.apply]
  rfl

/-- A round goes through its batch. -/
theorem round_reaches {rooms : List ChatRoom} {y : Nat} {e : Sse} {batch : List ChatMsg} {s t : Sys}
    (hs : (s.conns y).prog = .http (.events (e.round [] batch)))
    (ht : ((chatSystem rooms).startingAt s).ReachableVia (RoundStep y) t) :
    ∃ done rest, done ++ rest = batch ∧ (t.conns y).prog = .http (.events (e.round done rest)) := by
  refine ht.invariant (P := fun t => ∃ done rest, done ++ rest = batch
    ∧ (t.conns y).prog = .http (.events (e.round done rest))) ?_ ?_
  · rintro t rfl
    exact ⟨[], batch, rfl, hs⟩
  · rintro t act t' ⟨done, rest, hbatch, hprog⟩ hstep hok
    cases Sys.step_conn hstep y with
    | other n down hact hconn hn =>
      refine ⟨done, rest, hbatch, ?_⟩
      rw [hconn]
      exact hprog
    | connect p hp hunused hp' =>
      rw [hprog] at hunused
      exact absurd hunused nofun
    | run choice p' op t1 hact hp' happly ht' =>
      cases rest with
      | nil => exact absurd (by rw [hact]; rfl) (hok.2 _ hprog rfl)
      | cons m rest =>
        -- the next message of the batch is sent
        rw [progStep_events hprog] at hp'
        obtain ⟨⟨e', op'⟩, hsend, heq⟩ := Option.map_eq_some_iff.mp hp'
        have hchoice : choice ≠ .sent false := by
          rintro rfl
          exact hok.1 hact
        have hcur : (e.round done (m :: rest)).pc = .send m rest := rfl
        obtain ⟨he', -⟩ := Sse.step_send hcur hchoice hsend
        refine ⟨done ++ [m], rest, by rw [← hbatch, List.append_assoc]; rfl, ?_⟩
        cases heq
        rw [ht', Sys.setProg_conn, he', ← Sse.round_sent]
        rfl

/-- A round can be finished. -/
theorem exists_round {rooms : List ChatRoom} {y : Nat} {e : Sse} (rest done : List ChatMsg) (s : Sys)
    (hs : (s.conns y).prog = .http (.events (e.round done rest))) :
    ∃ t, ((chatSystem rooms).startingAt s).ReachableVia (RoundStep y) t
      ∧ (t.conns y).prog = .http (.events (e.round (done ++ rest) [])) := by
  induction rest generalizing done s with
  | nil =>
    rw [List.append_nil]
    exact ⟨s, .init rfl, hs⟩
  | cons m rest ih =>
    have hprog : Sys.progStep rooms s.sh (s.conns y) (.sent true)
        = some (.http (.events (e.round (done ++ [m]) rest)), .skip) := by
      rw [progStep_events hs, ← Sse.round_sent]
      rfl
    have hstep : (chatSystem rooms).step s (.run y (.sent true))
        = some (s.setProg y (.http (.events (e.round (done ++ [m]) rest)))) := by
      show s.step rooms (.run y (.sent true)) = _
      simp only [Sys.step, hprog, Sys.apply, Option.map_some]
    have hok : RoundStep y s (.run y (.sent true))
        (s.setProg y (.http (.events (e.round (done ++ [m]) rest)))) := by
      constructor
      · intro hact
        cases hact
      · intro e' he' hpc
        rw [hs] at he'
        cases he'
        cases hpc
    obtain ⟨t, ht, hend⟩ := ih (done ++ [m])
      (s.setProg y (.http (.events (e.round (done ++ [m]) rest)))) (by rw [Sys.setProg_conn])
    rw [List.append_assoc] at hend
    exact ⟨t, (TransitionSystem.ReachableVia.single hstep hok).trans ht, hend⟩

/-! ## §3. What a round delivers. -/

/-- The stream of connection `y` pulled at `e` on the database `db`, and waits
again at `e'`: its cursor is the greatest id of the room at the pull, and a frame
was sent for every message above the old cursor. -/
def Flushed (db : ChatDb) (e e' : Sse) : Prop :=
  e'.cursor = chatDbMaxMessageId db e.roomId
    ∧ ∀ id ∈ db.roomIds e.roomId, e.cursor < id → id ∈ e'.sent

/-- The end of a round, for a batch of the table. -/
theorem flushed_round_iff {db : ChatDb} (hdb : db.Wf) {e : Sse} (he : db.Known e.roomId e.cursor) :
    Flushed db e (e.round (chatDbMessagesSince db e.roomId e.cursor 64 64) [])
      ↔ (above e.cursor (db.roomIds e.roomId)).length ≤ 64 := by
  have hids : (chatDbMessagesSince db e.roomId e.cursor 64 64).map ChatMsg.id
      = (above e.cursor (db.roomIds e.roomId)).take 64 := messagesSince_ids hdb _ _ _ _
  have hsorted := above_pairwise e.cursor (roomIds_pairwise hdb e.roomId)
  have hcursor : (e.round (chatDbMessagesSince db e.roomId e.cursor 64 64) []).cursor
      = ((above e.cursor (db.roomIds e.roomId)).take 64).getLast?.getD e.cursor := by
    rw [← hids, List.getLast?_map]
    rfl
  have hsent : (e.round (chatDbMessagesSince db e.roomId e.cursor 64 64) []).sent
      = e.sent ++ (above e.cursor (db.roomIds e.roomId)).take 64 := by
    rw [← hids]
    rfl
  have hmax := getLast_above hdb he
  unfold Flushed
  rw [hcursor, hsent, ← hmax]
  constructor
  · -- a longer list ends above the last id of the batch
    rintro ⟨hlast, -⟩
    by_contra hlen
    have hlen : 64 < (above e.cursor (db.roomIds e.roomId)).length := Nat.lt_of_not_le hlen
    rw [List.getLast?_eq_getElem?, List.getLast?_eq_getElem?, List.length_take,
      Nat.min_eq_left (le_of_lt hlen), List.getElem?_take_of_lt (by decide),
      List.getElem?_eq_getElem (by omega), List.getElem?_eq_getElem (by omega)] at hlast
    have hlt := List.pairwise_iff_getElem.mp hsorted 63 _ (by omega) (by omega)
      (show 63 < (above e.cursor (db.roomIds e.roomId)).length - 1 by omega)
    exact absurd hlast (ne_of_lt hlt)
  · intro hlen
    rw [List.take_of_length_le hlen]
    refine ⟨rfl, ?_⟩
    intro id hid hlt
    exact List.mem_append_right _ (List.mem_filter.mpr ⟨hid, decide_eq_true hlt⟩)

/-- **One wake-up flushes everything, if it fits one batch.**  A stream pulls
after a wake-up, and no send of the round fails.  The round comes to its end,
whatever other connections do meanwhile; and at its end the cursor is the
greatest id the room had at the pull and every message above the old cursor was
sent, exactly when at most 64 messages were above it. -/
theorem notify_flush_iff {rooms : List ChatRoom} {s s' : Sys} {y : Nat} {e : Sse} {choice : Choice}
    (hs : (chatSystem rooms).Reachable s) (hy : (s.conns y).prog = .http (.events e))
    (hpc : e.pc = .pull) (hpull : (chatSystem rooms).step s (.run y choice) = some s') :
    (∃ t e', ((chatSystem rooms).startingAt s').ReachableVia (RoundStep y) t
      ∧ (t.conns y).prog = .http (.events e') ∧ e'.pc = .wait)
    ∧ ((∀ t e', ((chatSystem rooms).startingAt s').ReachableVia (RoundStep y) t →
          (t.conns y).prog = .http (.events e') → e'.pc = .wait → Flushed s.sh.db e e')
        ↔ (above e.cursor (s.sh.db.roomIds e.roomId)).length ≤ 64) := by
  have hdb := (reachable_sound hs).db
  have hflush := flushed_round_iff hdb (reachable_cursor hs hy)
  have hs' : (s'.conns y).prog
      = .http (.events (e.round [] (chatDbMessagesSince s.sh.db e.roomId e.cursor 64 64))) := by
    rw [step_pull hy hpc choice] at hpull
    cases hpull
    rw [Sys.setProg_conn]
  obtain ⟨t, ht, hend⟩ := @exists_round rooms y e _ [] s' hs'
  rw [List.nil_append] at hend
  refine ⟨⟨t, _, ht, hend, rfl⟩, ?_⟩
  rw [← hflush]
  constructor
  · intro hall
    exact hall t _ ht hend rfl
  · intro hall t' e' ht' hend' hwait
    obtain ⟨done, rest, hbatch, hround⟩ := round_reaches hs' ht'
    cases hend'.symm.trans hround
    cases rest with
    | nil =>
      rw [List.append_nil] at hbatch
      rw [hbatch]
      exact hall
    | cons m rest => exact absurd hwait nofun

/-- A stream of room 1 waits, `n` messages are posted meanwhile, and it is woken
and drains its pipe. -/
def burstActs (n : Nat) : List Act :=
  joinActs 1 0 ++ [.run 0 .go, .run 0 .go, .run 0 .go]
    ++ ((List.range n).flatMap fun i => postActs (i + 1) (i + 1))
    ++ .run 0 .readable :: List.replicate (n / 64 + 3) (.run 0 .go)

theorem notify_flush_two :
    ∃ s s' e t e', (chatSystem [demoRoom]).Reachable s ∧ (s.conns 0).prog = .http (.events e)
      ∧ e.pc = .pull ∧ (chatSystem [demoRoom]).step s (.run 0 .go) = some s'
      ∧ ((chatSystem [demoRoom]).startingAt s').ReachableVia (RoundStep 0) t
      ∧ (t.conns 0).prog = .http (.events e') ∧ e'.pc = .wait
      ∧ s.sh.db.roomIds e.roomId = [1, 2] ∧ e.cursor = 0 ∧ Flushed s.sh.db e e' := by
  obtain ⟨s, hreach, hcheck⟩ := exists_reachable [demoRoom] (burstActs 2)
    (fun s => (s.conns 0).prog.streams fun e =>
      decide (e.pc = .pull ∧ s.sh.db.roomIds e.roomId = [1, 2] ∧ e.cursor = 0)) (by decide +kernel)
  obtain ⟨e, hprog, hcheck⟩ := Prog.exists_stream hcheck
  obtain ⟨hpc, hids, hcursor⟩ := of_decide_eq_true hcheck
  have hstep := @step_pull [demoRoom] s 0 e hprog hpc .go
  obtain ⟨⟨t, e', ht, hend, hwait⟩, hiff⟩ := notify_flush_iff hreach hprog hpc hstep
  have hfew : (above e.cursor (s.sh.db.roomIds e.roomId)).length ≤ 64 := by
    rw [hids, hcursor]
    decide
  exact ⟨s, _, e, t, e', hreach, hprog, hpc, hstep, ht, hend, hwait, hids, hcursor,
    hiff.mpr hfew t e' ht hend hwait⟩

/-- **A burst of 65 posts.**  The stream is woken once, sends 64 messages and
waits again with an empty pipe. -/
theorem notify_leaves_message :
    ∃ s s' e t e', (chatSystem [demoRoom]).Reachable s ∧ (s.conns 0).prog = .http (.events e)
      ∧ e.pc = .pull ∧ (s.conns 0).bytes = 0
      ∧ (chatSystem [demoRoom]).step s (.run 0 .go) = some s'
      ∧ ((chatSystem [demoRoom]).startingAt s').ReachableVia (RoundStep 0) t
      ∧ (t.conns 0).prog = .http (.events e') ∧ e'.pc = .wait ∧ ¬ Flushed s.sh.db e e' := by
  obtain ⟨s, hreach, hcheck⟩ := exists_reachable [demoRoom] (burstActs 65)
    (fun s => (s.conns 0).prog.streams fun e =>
      decide (e.pc = .pull ∧ (s.conns 0).bytes = 0
        ∧ (above e.cursor (s.sh.db.roomIds e.roomId)).length = 65)) (by decide +kernel)
  obtain ⟨e, hprog, hcheck⟩ := Prog.exists_stream hcheck
  obtain ⟨hpc, hbytes, hmany⟩ := of_decide_eq_true hcheck
  have hstep := @step_pull [demoRoom] s 0 e hprog hpc .go
  obtain ⟨t, ht, hend⟩ := @exists_round [demoRoom] 0 e _ [] _
    (by rw [Sys.setProg_conn] : ((s.setProg 0 (.http (.events
      (e.round [] (chatDbMessagesSince s.sh.db e.roomId e.cursor 64 64))))).conns 0).prog = _)
  refine ⟨s, _, e, t, _, hreach, hprog, hpc, hbytes, hstep, ht, hend, rfl, ?_⟩
  rw [List.nil_append, flushed_round_iff (reachable_sound hreach).db (reachable_cursor hreach hprog),
    hmany]
  decide

end NetServer.Chat
