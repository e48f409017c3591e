/-
  NetServer.Chat.Delivery — what an event stream sends.

  A stream reads the room's messages with a cursor, in batches, while rows are
  added (`NetServer.Lib.OrderedLog`, §4).  `Sse.Delivered` says how the ids sent,
  the ids taken from the batches and the cursor relate to the table; every
  step of the stream and every growth of the table keeps it.

    • `stream_delivery` — in every reachable state the ids sent are a prefix of
      the room's ids above the first cursor, in order.
-/
import NetServer.Chat.Subscribers

namespace NetServer.Chat

open NetServer.Lib
open NetServer.Lib.OrderedLog

/-! ## §1. Where a stream comes from. -/

/-- The last step of a run, seen from a connection that is an event stream. -/
inductive StreamStep (s s' : Sys) (act : Act) (y : Nat) (e' : Sse) : Prop where
  /-- Another connection, or the environment. -/
  | other (hact : act.actor ≠ some y) (hprog : (s.conns y).prog = .http (.events e'))
  /-- The request arrives. -/
  | started (hprog : (s.conns y).prog = .http .request) (hs' : s' = s.setProg y (.http (.events e')))
      (roomId : Int) (query : List UInt8) (he : e' = handleSse roomId query)
  /-- The stream's own step. -/
  | own (e : Sse) (choice : Choice) (op : Op) (s1 : Sys) (hact : act = .run y choice)
      (hprog : (s.conns y).prog = .http (.events e))
      (hstep : e.step s.sh (s.conns y).bytes (s.conns y).shutdown choice = some (some e', op))
      (happly : s.apply y op = some s1) (hs' : s' = s1.setProg y (.http (.events e')))

theorem streamStep {rooms : List ChatRoom} {s s' : Sys} {act : Act} {y : Nat} {e' : Sse}
    (h : s.step rooms act = some s') (hy : (s'.conns y).prog = .http (.events e')) :
    StreamStep s s' act y e' := by
  cases Sys.step_conn h y with
  | other n down hact hconn hn =>
    rw [hconn] at hy
    exact .other hact hy
  | connect p hp hunused hprog =>
    -- a new connection does not stream yet
    rw [hprog] at hy
    rcases hp with rfl | rfl <;> exact absurd hy nofun
  | run choice p' op s1 hact hprog happly hs' =>
    rw [hs', Sys.setProg_conn] at hy
    have hp' : p' = .http (.events e') := hy
    subst hp'
    cases progStep_stepped hprog with
    | routeEvents roomId query hreq =>
      cases happly
      exact .started hreq hs' roomId query rfl
    | events e e' op hevents hstep => exact .own e choice op s1 hact hevents hstep happly hs'

/-! ## §2. The steps of a stream. -/

/-- The points between the subscription and the next read of the pipe. -/
def SsePc.waiting : SsePc → Bool
  | .presence | .comment | .wait | .poll | .beatPresence | .beatComment => true
  | _ => false

/-- On from `pc` to `pc'` with operation `op`, taking no message: a failed send
ends the stream, the end is final, the pipe is read only to drain it, and the
stream waits again only if it was waiting or has just subscribed. -/
structure SsePc.Goes (pc pc' : SsePc) (op : Op) : Prop where
  noTail : pc ≠ .tail ∧ pc' ≠ .tail ∧ pc' ≠ .subscribe
  noSend : ∀ cur rest, pc' ≠ .send cur rest
  failed : ∀ cur rest, pc = .send cur rest → pc' = .unsubscribe
  ended : pc = .unsubscribe ∨ pc = .clear → pc' = .clear
  left : pc' = .clear → pc = .unsubscribe
  read : op = .read → pc = .drain
  waiting : pc'.waiting = true → pc.waiting = true ∨ pc = .subscribe

/-- What one step of a stream does. -/
inductive Sse.StepKind (sh : Shared) (e : Sse) : Sse → Op → Prop where
  /-- The first cursor. -/
  | tail (hpc : e.pc = .tail) :
      StepKind sh e { e with
        cursor := chatDbMaxMessageId sh.db e.roomId, start := chatDbMaxMessageId sh.db e.roomId,
        pc := .subscribe } .skip
  | goes {pc op} (h : e.pc.Goes pc op) : StepKind sh e { e with pc := pc } op
  /-- A new batch. -/
  | pull (hpc : e.pc = .pull) :
      StepKind sh e ({ e with pulled := true }.next
        (chatDbMessagesSince sh.db e.roomId e.cursor 64 64)) .skip
  /-- A message is sent. -/
  | sent (cur : ChatMsg) (rest : List ChatMsg) (hpc : e.pc = .send cur rest) :
      StepKind sh e ({ e with sent := e.sent ++ [cur.id] }.next rest) .skip

/-- The points of the loop at which no message is being sent. -/
def SsePc.plain : SsePc → Bool
  | .tail | .send _ _ | .unsubscribe | .clear => false
  | _ => true

/-- The points a plain one can lead to without a message. -/
def SsePc.entered : SsePc → Bool
  | .tail | .subscribe | .send _ _ | .clear => false
  | _ => true

theorem SsePc.goes_of_plain {pc pc' : SsePc} {op : Op} (h : pc.plain = true)
    (h' : pc'.entered = true) (hread : op = .read → pc = .drain)
    (hwait : pc'.waiting = true → pc.waiting = true ∨ pc = .subscribe) : pc.Goes pc' op where
  noTail := by
    refine ⟨?_, ?_, ?_⟩ <;> rintro rfl
    · exact absurd h nofun
    · exact absurd h' nofun
    · exact absurd h' nofun
  noSend := by
    rintro cur rest rfl
    exact absurd h' nofun
  failed := by
    rintro cur rest rfl
    exact absurd h nofun
  ended := by
    rintro (rfl | rfl)
    · exact absurd h nofun
    · exact absurd h nofun
  left := by
    rintro rfl
    exact absurd h' nofun
  read := hread
  waiting := hwait

theorem Sse.step_kind {e e' : Sse} {sh : Shared} {bytes : Nat} {shutdown : Bool} {choice : Choice}
    {op : Op} (h : e.step sh bytes shutdown choice = some (some e', op)) : e.StepKind sh e' op := by
  have edge : ∀ {pc pc' : SsePc} {op : Op}, e.pc = pc → pc.plain = true → pc'.entered = true →
      (op = .read → pc = .drain) → (pc'.waiting = true → pc.waiting = true ∨ pc = .subscribe) →
      e.StepKind sh { e with pc := pc' } op := by
    intro pc pc' op hpc hplain hentered hread hwait
    exact .goes (hpc ▸ SsePc.goes_of_plain hplain hentered hread hwait)
  have hpresence : ∀ q : Prop,
      (if e.haveUser then Op.presenceSet e.roomId e.user else .skip) = .read → q := by
    intro q
    split <;> exact nofun
  cases step_stepped h with
  | tail hpc => exact .tail hpc
  | subscribe hpc => exact edge hpc rfl rfl nofun fun _ => Or.inr rfl
  | presence hpc => exact edge hpc rfl rfl (hpresence _) fun _ => Or.inl rfl
  | comment hpc => exact edge hpc rfl rfl nofun fun _ => Or.inl rfl
  | wait hpc hdown => exact edge hpc rfl rfl nofun fun _ => Or.inl rfl
  | stop hpc hdown =>
    rcases hpc with hpc | hpc
    · exact edge hpc rfl rfl nofun nofun
    · exact edge hpc rfl rfl nofun nofun
  | hangup hpc => exact edge hpc rfl rfl nofun nofun
  | timeout hpc => exact edge hpc rfl rfl nofun fun _ => Or.inl rfl
  | readable hpc hbytes => exact edge hpc rfl rfl nofun nofun
  | drain hpc hbytes =>
    have hself : e.StepKind sh { e with pc := .drain } .read :=
      edge hpc rfl rfl (fun _ => rfl) nofun
    rw [← hpc] at hself
    exact hself
  | drainEnd hpc hbytes => exact edge hpc rfl rfl nofun nofun
  | drained hpc hdown => exact edge hpc rfl rfl nofun nofun
  | pull hpc => exact .pull hpc
  | sent cur rest hpc => exact .sent cur rest hpc
  | sendFailed cur rest hpc =>
    refine .goes ?_
    rw [hpc]
    exact ⟨⟨nofun, nofun, nofun⟩, nofun, fun _ _ _ => rfl, nofun, nofun, nofun, nofun⟩
  | beatPresence hpc => exact edge hpc rfl rfl (hpresence _) fun _ => Or.inl rfl
  | beat hpc => exact edge hpc rfl rfl nofun fun _ => Or.inl rfl
  | beatFailed hpc => exact edge hpc rfl rfl nofun nofun
  | unsubscribe hpc =>
    refine .goes ?_
    rw [hpc]
    exact ⟨⟨nofun, nofun, nofun⟩, nofun, nofun, fun _ => rfl, fun _ => rfl, nofun, nofun⟩

/-! ## §3. The ids sent. -/

/-- The ids of the current batch that the cursor has not reached. -/
def Sse.batch (e : Sse) : List Int :=
  match e.pc with
  | .send _ rest => rest.map ChatMsg.id
  | _ => []

/-- The ids taken and the rest of the batch are a prefix of the room's ids above
the first cursor; the cursor is the last id taken; and what is sent is what is
taken, but for the message being sent or the one that could not be sent. -/
structure Sse.Delivered (db : ChatDb) (e : Sse) : Prop where
  fresh : e.pc = .tail → e.taken = []
  read : e.taken ++ e.batch <+: above e.start (db.roomIds e.roomId)
  cursor : e.cursor = e.taken.getLast?.getD e.start
  sent : e.sent <+: e.taken
  sending : ∀ cur rest, e.pc = .send cur rest → e.taken = e.sent ++ [cur.id]
  idle : (∀ cur rest, e.pc ≠ .send cur rest) → e.pc ≠ .unsubscribe → e.pc ≠ .clear →
    e.sent = e.taken

namespace Sse

theorem handleSse_delivered (db : ChatDb) (roomId : Int) (query : List UInt8) :
    (handleSse roomId query).Delivered db where
  fresh := fun _ => rfl
  read := List.nil_prefix
  cursor := rfl
  sent := List.nil_prefix
  sending := nofun
  idle := fun _ _ _ => rfl

/-- More rows leave what was delivered in place. -/
theorem Delivered.grow {db db' : ChatDb} {e : Sse} (h : e.Delivered db)
    (hids : db.roomIds e.roomId <+: db'.roomIds e.roomId) : e.Delivered db' :=
  { h with read := h.read.trans (above_extend e.start hids) }

/-- On to a point of the program where no message is being sent. -/
theorem Delivered.goto {db : ChatDb} {e : Sse} (h : e.Delivered db) {pc : SsePc}
    (htail : pc ≠ .tail) (hsend : ∀ cur rest, pc ≠ .send cur rest)
    (hidle : pc ≠ .unsubscribe → pc ≠ .clear → e.sent = e.taken) :
    { e with pc := pc }.Delivered db where
  fresh := fun hpc => absurd hpc htail
  read := by
    have hbatch : ({ e with pc := pc } : Sse).batch = [] := by
      unfold batch
      split
      · rename_i cur rest hpc
        exact absurd hpc (hsend cur rest)
      · rfl
    rw [hbatch, List.append_nil]
    exact (List.prefix_append _ _).trans h.read
  cursor := h.cursor
  sent := h.sent
  sending := fun cur rest hpc => absurd hpc (hsend cur rest)
  idle := fun _ h1 h2 => hidle h1 h2

/-- The next message of a batch, or the end of the batch. -/
theorem Delivered.next {db : ChatDb} {e : Sse} {batch : List ChatMsg}
    (hread : e.taken ++ batch.map ChatMsg.id <+: above e.start (db.roomIds e.roomId))
    (hcursor : e.cursor = e.taken.getLast?.getD e.start) (hsent : e.sent = e.taken) :
    (e.next batch).Delivered db := by
  cases batch with
  | nil =>
    -- the batch is done: everything taken has been sent
    refine ⟨nofun, hread, hcursor, ?_, nofun, fun _ _ _ => hsent⟩
    show e.sent <+: e.taken
    rw [hsent]
  | cons m rest =>
    -- the cursor moves to `m` before `m` is sent
    refine ⟨nofun, ?_, ?_, ?_, ?_, ?_⟩
    · show (e.taken ++ [m.id]) ++ rest.map ChatMsg.id <+: _
      rw [List.append_assoc]
      exact hread
    · show m.id = (e.taken ++ [m.id]).getLast?.getD e.start
      rw [List.getLast?_concat]
      rfl
    · show e.sent <+: e.taken ++ [m.id]
      rw [hsent]
      exact List.prefix_append _ _
    · intro cur rest' hpc
      cases hpc
      show e.taken ++ [m.id] = e.sent ++ [m.id]
      rw [hsent]
    · intro hsend
      exact absurd rfl (hsend m rest)

/-- Every step of a stream keeps it, on a table it does not change. -/
theorem step_delivered {e e' : Sse} {sh : Shared} {op : Op} (hwf : sh.db.Wf) (h : e.Delivered sh.db)
    (hstep : e.StepKind sh e' op) : e'.Delivered sh.db := by
  cases hstep with
  | tail hpc =>
    -- nothing is taken yet, so any first cursor will do
    have htaken := h.fresh hpc
    have hsent := h.idle (by rw [hpc]; exact nofun) (by rw [hpc]; exact nofun)
      (by rw [hpc]; exact nofun)
    refine ⟨nofun, ?_, ?_, h.sent, nofun, fun _ _ _ => hsent⟩
    · show e.taken ++ [] <+: _
      rw [htaken]
      exact List.nil_prefix
    · show chatDbMaxMessageId sh.db e.roomId = e.taken.getLast?.getD _
      rw [htaken]
      rfl
  | goes hgoes =>
    refine h.goto hgoes.noTail.2.1 hgoes.noSend ?_
    intro hunsub hclear
    refine h.idle ?_ ?_ ?_
    · intro cur rest hpc
      exact hunsub (hgoes.failed cur rest hpc)
    · intro hpc
      exact hclear (hgoes.ended (Or.inl hpc))
    · intro hpc
      exact hclear (hgoes.ended (Or.inr hpc))
  | pull hpc =>
    have hsent := h.idle (by rw [hpc]; exact nofun) (by rw [hpc]; exact nofun)
      (by rw [hpc]; exact nofun)
    have hbatch : e.batch = [] := by
      unfold batch
      rw [hpc]
    have hread := h.read
    rw [hbatch, List.append_nil] at hread
    refine Delivered.next ?_ h.cursor hsent
    -- the batch starts where the cursor stands
    show e.taken ++ (chatDbMessagesSince sh.db e.roomId e.cursor 64 64).map ChatMsg.id <+: _
    rw [messagesSince_ids hwf, above_resume (roomIds_pairwise hwf e.roomId) hread h.cursor]
    exact (List.prefix_append_right_inj e.taken).mpr (List.take_prefix _ _)
  | sent cur rest hpc =>
    have hread := h.read
    have hbatch : e.batch = rest.map ChatMsg.id := by
      unfold batch
      rw [hpc]
    rw [hbatch] at hread
    exact Delivered.next hread h.cursor (h.sending cur rest hpc).symm

end Sse

/-! ## §4. Every run. -/

theorem step_roomIds_prefix {rooms : List ChatRoom} {s s' : Sys} {act : Act} (hs : s.Sound)
    (h : s.step rooms act = some s') (r : Int) : s.sh.db.roomIds r <+: s'.sh.db.roomIds r := by
  rcases Sys.step_roomIds hs.threads h r with heq | ⟨x, id, user, body, -, -, heq⟩
  · rw [heq]
  · rw [heq]
    exact List.prefix_append _ _

/-- **The invariant rule for streams.**  What holds of a stream when its request
arrives, is kept when the room grows and by the stream's own steps, holds of every
stream in every state. -/
theorem reachable_streams {rooms : List ChatRoom} {ok : Sys → Act → Sys → Prop}
    {P : ChatDb → Sse → Prop}
    (hstart : ∀ db roomId query, P db (handleSse roomId query))
    (hgrow : ∀ db db' e, db.roomIds e.roomId <+: db'.roomIds e.roomId → P db e → P db' e)
    (hown : ∀ sh e e' op, sh.db.Wf → P sh.db e → e.StepKind sh e' op → P sh.db e')
    {s : Sys} (h : (chatSystem rooms).ReachableVia ok s) :
    ∀ y e, (s.conns y).prog = .http (.events e) → P s.sh.db e := by
  refine TransitionSystem.ReachableVia.strengthen
    (P := fun s => ∀ y e, (s.conns y).prog = .http (.events e) → P s.sh.db e)
    (fun s hs => reachable_sound hs) ?_ ?_ h
  · rintro s ⟨db, now, -, rfl⟩ y e hy
    exact absurd hy nofun
  · intro s act s' hs hall hstep _ y e' hy
    have hids := step_roomIds_prefix hs hstep e'.roomId
    cases streamStep hstep hy with
    | other _ hprog => exact hgrow _ _ e' hids (hall y e' hprog)
    | started _ _ roomId query he =>
      rw [he]
      exact hstart _ roomId query
    | own e choice op s1 _ hprog he _ _ =>
      exact hgrow _ _ e' hids (hown s.sh e e' op hs.db (hall y e hprog) (Sse.step_kind he))

theorem reachable_delivered {rooms : List ChatRoom} {ok : Sys → Act → Sys → Prop} {s : Sys}
    (h : (chatSystem rooms).ReachableVia ok s) :
    ∀ y e, (s.conns y).prog = .http (.events e) → e.Delivered s.sh.db :=
  reachable_streams (P := fun db e => e.Delivered db) Sse.handleSse_delivered
    (fun _ _ _ hids hdel => hdel.grow hids) (fun _ _ _ _ => Sse.step_delivered) h

/-- **A stream delivers in order, once and without gaps.**  In every reachable
state the ids sent are a prefix of the ids of the room's messages above the
first cursor, which increase; the cursor is the last id taken; and with the
rest of the current batch the ids taken are a prefix too. -/
theorem stream_delivery {rooms : List ChatRoom} {s : Sys} (hs : (chatSystem rooms).Reachable s)
    {y : Nat} {e : Sse} (hy : (s.conns y).prog = .http (.events e)) :
    (above e.start (s.sh.db.roomIds e.roomId)).Pairwise (· < ·)
      ∧ e.sent <+: above e.start (s.sh.db.roomIds e.roomId)
      ∧ e.taken ++ e.batch <+: above e.start (s.sh.db.roomIds e.roomId)
      ∧ e.cursor = e.taken.getLast?.getD e.start := by
  have hdel := reachable_delivered hs y e hy
  refine ⟨above_pairwise _ (roomIds_pairwise (reachable_sound hs).db _), ?_, hdel.read, hdel.cursor⟩
  exact (hdel.sent.trans (List.prefix_append _ _)).trans hdel.read

/-- A stream that has just subscribed goes on to `poll`, is woken, drains its
pipe, pulls and sends one message. -/
def wakeActs (y : Nat) : List Act :=
  [.run y .go, .run y .go, .run y .go, .run y .readable, .run y .go, .run y .go, .run y .go,
    .run y .go, .run y (.sent true)]

/-- A test of a connection that is an event stream. -/
def Prog.streams (test : Sse → Bool) : Prog → Bool
  | .http (.events e) => test e
  | _ => false

theorem Prog.exists_stream {test : Sse → Bool} {p : Prog} (h : p.streams test = true) :
    ∃ e, p = .http (.events e) ∧ test e = true := by
  cases p with
  | http k =>
    cases k with
    | events e => exact ⟨e, rfl, h⟩
    | _ => exact absurd h nofun
  | _ => exact absurd h nofun

theorem stream_delivery_one :
    ∃ s e, (chatSystem [demoRoom]).Reachable s ∧ (s.conns 0).prog = .http (.events e)
      ∧ e.sent = [1] ∧ e.sent <+: above e.start (s.sh.db.roomIds e.roomId)
      ∧ e.cursor = e.taken.getLast?.getD e.start := by
  obtain ⟨s, hreach, hcheck⟩ := exists_reachable [demoRoom]
    (joinActs 1 0 ++ postActs 1 1 ++ wakeActs 0)
    (fun s => (s.conns 0).prog.streams fun e => decide (e.sent = [1])) (by decide +kernel)
  obtain ⟨e, hprog, hcheck⟩ := Prog.exists_stream hcheck
  obtain ⟨-, hsent, -, hcursor⟩ := stream_delivery hreach hprog
  exact ⟨s, e, hreach, hprog, of_decide_eq_true hcheck, hsent, hcursor⟩

end NetServer.Chat
