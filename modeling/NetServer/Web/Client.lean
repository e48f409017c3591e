/-
  NetServer.Web.Client — `selectRoom` of `web/app.js` against the server.

  The client asks for the room's history, renders it, opens an event stream
  and renders the frames as they come; `addMessage` drops a message that is
  not above the newest id rendered.  The server is `chatSystem`, with any
  number of other connections; the history is one read of the table, and the
  stream is one of the server's connections, whose frames travel in order.

  `wire` and `seen` are the frames the server has sent on the stream and the
  number of them that `onmessage` has handled.

  The stream begins at the server's newest id when it is opened, not at the
  client's, so a message that is stored in between is in neither answer.

    • `webInv_step` — what is rendered is a prefix of the room, as long as
      nothing is stored in that window;
    • `web_view_closed` — so there is no hole in it;
    • `web_view_hole` — a message stored in the window is never rendered, while
      the next one is.
-/
import NetServer.Chat.Flush
import NetServer.Chat.History

namespace NetServer.Web

open NetServer.Lib
open NetServer.Lib.OrderedLog
open NetServer.Chat

/-! ## §1. The client. -/

/-- Where `selectRoom` is. -/
inductive Phase where
  /-- Before the history is read. -/
  | idle
  /-- The answer to the history request is on its way. -/
  | fetched (page : List ChatMsg)
  /-- The history is rendered. -/
  | rendered
  /-- The event source is connection `x` of the server. -/
  | streaming (x : Nat)
  deriving Repr, DecidableEq

/-- The variables of `app.js`, and the messages of the log by id. -/
structure Client where
  current : Int
  phase : Phase
  cursor : Int
  log : List Int
  wire : List Int
  seen : Nat
  deriving Repr, DecidableEq

/-- The first lines of `selectRoom`. -/
def selectRoom (id : Int) : Client :=
  { current := id, phase := .idle, cursor := 0, log := [], wire := [], seen := 0 }

/-- `addMessage`. -/
def Client.addMessage (w : Client) (id : Int) : Client :=
  if id ≤ w.cursor then w else { w with cursor := id, log := w.log ++ [id] }

/-- The frames that have been sent on connection `x`, as far as it still streams. -/
def wireOf (s : Sys) (x : Nat) (before : List Int) : List Int :=
  match (s.conns x).prog with
  | .http (.events e) => e.sent
  | _ => before

/-- The client after a step of the server. -/
def Client.hear (w : Client) (s : Sys) : Client :=
  match w.phase with
  | .streaming x => { w with wire := wireOf s x w.wire }
  | _ => w

inductive WebAct where
  /-- Anything at the server. -/
  | server (act : Act)
  /-- The server answers the history request. -/
  | get
  /-- The answer arrives: `history.forEach(addMessage)`. -/
  | response
  /-- `new EventSource`: connection `x`, with this value of `user`. -/
  | openEvents (x fd : Nat) (who : List UInt8)
  /-- `onmessage` for the next frame. -/
  | message
  deriving Repr, DecidableEq

/-- One step of the server or of the client. -/
def webStep (rooms : List ChatRoom) (p : Sys × Client) : WebAct → Option (Sys × Client)
  | .server act => (p.1.step rooms act).map fun s' => (s', p.2.hear s')
  | .get =>
      if p.2.phase = .idle then
        some (p.1, { p.2 with
          phase := .fetched (handleMessagesGet p.1.sh.db p.2.current (ascii "limit=50")) })
      else none
  | .response =>
      match p.2.phase with
      | .fetched page =>
          some (p.1, { (page.map ChatMsg.id).foldl Client.addMessage p.2 with phase := .rendered })
      | _ => none
  | .openEvents x fd who =>
      if p.2.phase = .rendered then
        ((p.1.step rooms (.connectHttp x fd)).bind fun s1 =>
          s1.step rooms (.run x (.eventsRequest p.2.current (ascii "user=" ++ who)))).map fun s' =>
            (s', { p.2 with phase := .streaming x })
      else none
  | .message =>
      match p.2.wire[p.2.seen]? with
      | some id => some (p.1, { p.2.addMessage id with seen := p.2.seen + 1 })
      | none => none

/-- A client that selects a room, on a server in any state it can be in. -/
def webSystem (rooms : List ChatRoom) (room : Int) : TransitionSystem (Sys × Client) WebAct where
  init := fun p => (chatSystem rooms).Reachable p.1 ∧ p.2 = selectRoom room
  step := webStep rooms

/-! ## §2. The server's side. -/

/-- The server of a run with a client is a run of the server. -/
theorem webStep_reachable {rooms : List ChatRoom} {p p' : Sys × Client} {act : WebAct}
    (hp : (chatSystem rooms).Reachable p.1) (h : webStep rooms p act = some p') :
    (chatSystem rooms).Reachable p'.1 := by
  cases act with
  | server act =>
    obtain ⟨s', hstep, heq⟩ := Option.map_eq_some_iff.mp h
    cases heq
    exact .step hp hstep trivial
  | get =>
    obtain ⟨-, heq⟩ := Option.ite_none_right_eq_some.mp h
    cases heq
    exact hp
  | response =>
    unfold webStep at h
    dsimp only at h
    split at h
    · cases h
      exact hp
    · cases h
  | openEvents x fd who =>
    obtain ⟨-, h⟩ := Option.ite_none_right_eq_some.mp h
    obtain ⟨s', hsteps, heq⟩ := Option.map_eq_some_iff.mp h
    cases heq
    obtain ⟨s1, hconnect, hrun⟩ := Option.bind_eq_some_iff.mp hsteps
    have hconnect : (chatSystem rooms).step p.1 (.connectHttp x fd) = some s1 := hconnect
    have hs1 : (chatSystem rooms).Reachable s1 := .step hp hconnect trivial
    have hrun : (chatSystem rooms).step s1
        (.run x (.eventsRequest p.2.current (ascii "user=" ++ who))) = some s' := hrun
    have hs' : (chatSystem rooms).Reachable s' := .step hs1 hrun trivial
    exact hs'
  | message =>
    unfold webStep at h
    dsimp only at h
    split at h
    · cases h
      exact hp
    · cases h

theorem web_reachable {rooms : List ChatRoom} {room : Int}
    {ok : Sys × Client → WebAct → Sys × Client → Prop} {p : Sys × Client}
    (h : (webSystem rooms room).ReachableVia ok p) : (chatSystem rooms).Reachable p.1 := by
  induction h with
  | init hp => exact hp.1
  | step _ hstep _ ih => exact webStep_reachable ih hstep

/-- The connection has read its request and streams, or has streamed. -/
def streamed : Prog → Bool
  | .http (.events _) | .http .closing | .closed => true
  | _ => false

theorem streamed_step {rooms : List ChatRoom} {s s' : Sys} {act : Act} {x : Nat}
    (h : s.step rooms act = some s') (hx : streamed (s.conns x).prog = true) :
    streamed (s'.conns x).prog = true := by
  cases Sys.step_conn h x with
  | other n down hact hconn hn =>
    rw [hconn]
    exact hx
  | connect p hp hunused hprog =>
    rw [hunused] at hx
    exact absurd hx nofun
  | run choice p' op s1 hact hprog happly hs' =>
    rw [hs', Sys.setProg_conn]
    cases progStep_stepped hprog with
    | telnet t t' op ht hstep =>
      rw [ht] at hx
      exact absurd hx nofun
    | routePost roomId text name user body hreq hclean =>
      rw [hreq] at hx
      exact absurd hx nofun
    | post q q' op hq hpost =>
      rw [hq] at hx
      exact absurd hx nofun
    | _ => rfl

/-- The request of an event source. -/
theorem progStep_eventsRequest {rooms : List ChatRoom} {sh : Shared} {c : Conn}
    (hprog : c.prog = .http .request) (room : Int) (query : List UInt8) :
    Sys.progStep rooms sh c (.eventsRequest room query)
      = some (.http (if rooms.any (·.id = room) then .events (handleSse room query) else .closing),
          .skip) := by
  unfold Sys.progStep
  rw [hprog]
  show (if Http.request = .closing then _ else
    ((httpRoute rooms (.eventsRequest room query)).map (·, Op.skip)).map _) = _
  rw [if_neg nofun]
  unfold httpRoute
  dsimp only
  split <;> rfl

/-- An event source has been opened: nothing is stored, and its connection streams
the room from the beginning or has been refused. -/
theorem openEvents_conn {rooms : List ChatRoom} {s s1 s' : Sys} {x fd : Nat} {room : Int}
    {query : List UInt8} (hconnect : s.step rooms (.connectHttp x fd) = some s1)
    (hrun : s1.step rooms (.run x (.eventsRequest room query)) = some s') :
    s'.sh.db = s.sh.db
      ∧ ((s'.conns x).prog = .http (.events (handleSse room query))
        ∨ (s'.conns x).prog = .http .closing) := by
  have hprog := (Sys.connect_conn hconnect).2
  have hdb1 : s1.sh.db = s.sh.db := by
    rcases Sys.step_db hconnect with hdb | ⟨_, _, _, _, _, hact, -⟩
    · exact hdb
    · cases hact
  obtain ⟨p', op, s2, hstep, happly, rfl⟩ := Sys.step_run hrun
  rw [progStep_eventsRequest hprog] at hstep
  cases hstep
  cases happly
  refine ⟨hdb1, ?_⟩
  rw [Sys.setProg_conn]
  show Prog.http (if _ then _ else _) = _ ∨ Prog.http (if _ then _ else _) = _
  split
  · exact Or.inl rfl
  · exact Or.inr rfl

/-! ## §3. Rendering. -/

/-- A list of new messages in order is rendered as it is. -/
theorem foldl_addMessage (l : List Int) (w : Client) (hasc : l.Pairwise (· < ·))
    (hnew : ∀ i ∈ l, w.cursor < i) :
    l.foldl Client.addMessage w = { w with cursor := l.getLast?.getD w.cursor, log := w.log ++ l } := by
  induction l generalizing w with
  | nil =>
    rw [List.append_nil]
    rfl
  | cons i l ih =>
    obtain ⟨hi, hasc⟩ := List.pairwise_cons.mp hasc
    have hadd : w.addMessage i = { w with cursor := i, log := w.log ++ [i] } := by
      unfold Client.addMessage
      rw [if_neg (not_le.mpr (hnew i List.mem_cons_self))]
    rw [List.foldl_cons, hadd, ih _ hasc hi, List.getLast?_cons]
    simp

/-- In an ascending list of positive ids the next one is above the last one. -/
theorem last_lt {ids l : List Int} {id : Int} (hids : ids.Pairwise (· < ·)) (hpos : ∀ i ∈ ids, 0 < i)
    (h : l ++ [id] <+: ids) : l.getLast?.getD 0 < id := by
  have hasc : (l ++ [id]).Pairwise (· < ·) := hids.sublist h.sublist
  rw [List.pairwise_append] at hasc
  cases hl : l.getLast? with
  | none => exact hpos id (h.subset (List.mem_append_right _ List.mem_cons_self))
  | some z => exact hasc.2.2 z (List.mem_of_getLast? hl) id List.mem_cons_self

theorem roomIds_pos {db : ChatDb} (hdb : db.Wf) (room : Int) : ∀ i ∈ db.roomIds room, 0 < i := by
  intro i hi
  obtain ⟨m, hm, -, rfl⟩ := mem_roomIds.mp hi
  exact hdb.pos m hm

/-- A room of fewer than 50 messages is its history. -/
theorem history_all {db : ChatDb} (hdb : db.Wf) {room : Int} (h : (db.roomRows room).length < 50) :
    (handleMessagesGet db room (ascii "limit=50")).map ChatMsg.id = db.roomIds room := by
  have hsince : querySince (ascii "limit=50") = 0 := by decide +kernel
  have hlimit : clampLimit (queryLimit (ascii "limit=50")) = 50 := by decide +kernel
  have hall : above 0 (db.roomIds room) = db.roomIds room := by
    unfold above
    rw [List.filter_eq_self]
    intro i hi
    exact decide_eq_true (roomIds_pos hdb room i hi)
  unfold handleMessagesGet
  rw [messagesSince_ids hdb, hsince, hlimit, hall, List.take_of_length_le]
  unfold ChatDb.roomIds
  rw [List.length_map]
  show _ ≤ 50
  omega

/-! ## §4. The invariant. -/

/-- A stream that goes on where the history ended: before its first cursor is read
the history is all there is, afterwards the room is the history and what is
above that cursor. -/
structure Follows (db : ChatDb) (room : Int) (wire hist : List Int) (e : Sse) : Prop where
  room_eq : e.roomId = room
  wire_eq : e.sent = wire
  tail : e.pc = .tail → db.roomIds room = hist
  live : e.pc ≠ .tail → db.roomIds room = hist ++ above e.start (db.roomIds room)

/-- What each phase of `selectRoom` knows of the room. -/
def PhaseInv (s : Sys) (room : Int) (wire hist : List Int) : Phase → Prop
  | .idle => hist = [] ∧ wire = []
  | .fetched page => hist = [] ∧ wire = [] ∧ page.map ChatMsg.id = s.sh.db.roomIds room
  | .rendered => hist = s.sh.db.roomIds room ∧ wire = []
  | .streaming x => streamed (s.conns x).prog = true
      ∧ ∀ e, (s.conns x).prog = .http (.events e) → Follows s.sh.db room wire hist e

/-- The log is the history and the frames handled so far; with those on the wire
it is a prefix of the room. -/
structure WebInv (p : Sys × Client) : Prop where
  cursor : p.2.cursor = p.2.log.getLast?.getD 0
  seen : p.2.seen ≤ p.2.wire.length
  view : ∃ hist, p.2.log = hist ++ p.2.wire.take p.2.seen
    ∧ hist ++ p.2.wire <+: p.1.sh.db.roomIds p.2.current
    ∧ PhaseInv p.1 p.2.current p.2.wire hist p.2.phase

/-- The history has been read and the stream has not read its first cursor. -/
def InWindow (p : Sys × Client) : Prop :=
  match p.2.phase with
  | .idle => False
  | .fetched _ | .rendered => True
  | .streaming x => ∃ e, (p.1.conns x).prog = .http (.events e) ∧ e.pc = .tail

/-- The history is read while the room has fewer than 50 messages, and no post to
the room runs its INSERT in the window. -/
def Calm (p : Sys × Client) (act : WebAct) : Prop :=
  (act = .get → (p.1.sh.db.roomRows p.2.current).length < 50)
    ∧ ∀ a y user body, act = .server a → InWindow p → a.actor = some y →
        (p.1.conns y).prog.posting ≠ some (.insert p.2.current user body)

/-- What a stream that follows the history has sent. -/
theorem Follows.sent_prefix {db : ChatDb} {room : Int} {wire hist : List Int} {e : Sse}
    (h : Follows db room wire hist e) (hdel : e.Delivered db) :
    hist ++ e.sent <+: db.roomIds room := by
  by_cases hpc : e.pc = .tail
  · have hsent : e.sent = [] := by
      have := hdel.sent
      rw [hdel.fresh hpc] at this
      exact List.prefix_nil.mp this
    rw [hsent, List.append_nil, h.tail hpc]
  · have hsent : e.sent <+: above e.start (db.roomIds room) := by
      rw [← h.room_eq]
      exact (hdel.sent.trans (List.prefix_append _ _)).trans hdel.read
    rw [h.live hpc]
    exact (List.prefix_append_right_inj hist).mpr hsent

theorem next_sent (e : Sse) (batch : List ChatMsg) :
    (e.next batch).sent = e.sent ∧ (e.next batch).pc ≠ .tail := by
  cases batch with
  | nil => exact ⟨rfl, nofun⟩
  | cons m rest => exact ⟨rfl, nofun⟩

/-- The stream's own step. -/
theorem Follows.step {sh : Shared} {room : Int} {wire hist : List Int} {e e' : Sse} {op : Op}
    (hdb : sh.db.Wf) (h : Follows sh.db room wire hist e) (hstep : e.StepKind sh e' op) :
    wire <+: e'.sent ∧ Follows sh.db room e'.sent hist e' := by
  have hwire : wire <+: e.sent := by
    rw [h.wire_eq]
  -- on with a batch
  have hnext : ∀ (e1 : Sse) (batch : List ChatMsg), e.pc ≠ .tail → e1.roomId = e.roomId →
      e1.start = e.start → Follows sh.db room (e1.next batch).sent hist (e1.next batch) := by
    intro e1 batch hpc hroom hstart
    refine ⟨?_, rfl, fun hpc' => absurd hpc' (next_sent e1 batch).2, fun _ => ?_⟩
    · rw [(Sse.next_start e1 batch).2, hroom, h.room_eq]
    · rw [(Sse.next_start e1 batch).1, hstart]
      exact h.live hpc
  cases hstep with
  | tail hpc =>
    refine ⟨hwire, h.room_eq, rfl, nofun, fun _ => ?_⟩
    -- no id is above the greatest one
    have hnone : above (chatDbMaxMessageId sh.db e.roomId) (sh.db.roomIds room) = [] := by
      unfold above
      rw [List.filter_eq_nil_iff]
      intro i hi
      rw [← h.room_eq] at hi
      obtain ⟨m, hm, rfl⟩ := List.mem_map.mp hi
      have := le_maxMessageId hdb hm
      rw [decide_eq_true_eq]
      omega
    show _ = hist ++ above (chatDbMaxMessageId sh.db e.roomId) (sh.db.roomIds room)
    rw [hnone, List.append_nil]
    exact h.tail hpc
  | goes hgoes =>
    obtain ⟨hpc, hpc', -⟩ := hgoes.noTail
    exact ⟨hwire, h.room_eq, rfl, fun hpc => absurd hpc hpc', fun _ => h.live hpc⟩
  | pull hpc =>
    refine ⟨?_, hnext _ _ (by rw [hpc]; exact nofun) rfl rfl⟩
    rw [(next_sent _ _).1]
    exact hwire
  | sent cur rest hpc =>
    refine ⟨?_, hnext _ _ (by rw [hpc]; exact nofun) rfl rfl⟩
    rw [(next_sent _ _).1]
    exact hwire.trans (List.prefix_append _ _)

/-- The room grows behind a stream that has its first cursor. -/
theorem Follows.grow {db db' : ChatDb} {room id : Int} {wire hist : List Int} {e : Sse}
    (h : Follows db room wire hist e) (hpc : e.pc ≠ .tail) (hid : e.start < id)
    (hids : db'.roomIds room = db.roomIds room ++ [id]) : Follows db' room wire hist e := by
  refine ⟨h.room_eq, h.wire_eq, fun htail => absurd htail hpc, fun _ => ?_⟩
  rw [hids, above_concat _ hid, ← List.append_assoc, ← h.live hpc]

theorem Follows.of_ids {db db' : ChatDb} {room : Int} {wire hist : List Int} {e : Sse}
    (h : Follows db room wire hist e) (hids : db'.roomIds room = db.roomIds room) :
    Follows db' room wire hist e := by
  refine ⟨h.room_eq, h.wire_eq, ?_, ?_⟩
  · rw [hids]
    exact h.tail
  · rw [hids]
    exact h.live

/-! ## §5. Steps. -/

section Steps

variable {rooms : List ChatRoom} {s s' : Sys} {w : Client}

/-- A stream that follows the history does so after any step of the server. -/
theorem follows_server {act : Act} {x : Nat} {hist : List Int} {e' : Sse}
    (hs : (chatSystem rooms).Reachable s) (hstep : s.step rooms act = some s')
    (hx : streamed (s.conns x).prog = true)
    (hall : ∀ e, (s.conns x).prog = .http (.events e) → Follows s.sh.db w.current w.wire hist e)
    (hcalm : (∃ e, (s.conns x).prog = .http (.events e) ∧ e.pc = .tail) →
      ∀ y user body, act.actor = some y →
        (s.conns y).prog.posting ≠ some (.insert w.current user body))
    (hx' : (s'.conns x).prog = .http (.events e')) :
    w.wire <+: e'.sent ∧ Follows s'.sh.db w.current e'.sent hist e' := by
  have hsound := reachable_sound hs
  have hids := Sys.step_roomIds hsound.threads hstep w.current
  cases streamStep hstep hx' with
  | other hact hprog =>
    have hf := hall e' hprog
    refine ⟨by rw [hf.wire_eq], ?_⟩
    rw [hf.wire_eq]
    rcases hids with hids | ⟨y, id, user, body, hy, hins, hids⟩
    · exact hf.of_ids hids
    · -- a post to the room: the stream has its first cursor, which is an older id
      have hpc : e'.pc ≠ .tail := fun hpc => hcalm ⟨e', hprog, hpc⟩ y user body hy hins.before
      refine hf.grow hpc ?_ hids
      have hseq := hins.assign.1
      rcases reachable_start hs x e' hprog with h0 | hmem
      · have := hsound.db.seq_nonneg
        omega
      · obtain ⟨m, hm, -, hmid⟩ := mem_roomIds.mp hmem
        have := hsound.db.le_seq m hm
        omega
  | started hprog _ _ _ _ =>
    rw [hprog] at hx
    exact absurd hx nofun
  | own e choice op s1 hact hprog he _ _ =>
    obtain ⟨hwire, hf⟩ := (hall e hprog).step hsound.db (Sse.step_kind he)
    refine ⟨hwire, ?_⟩
    rcases hids with hids | ⟨y, id, user, body, hy, hins, hids⟩
    · exact hf.of_ids hids
    · -- a stream does not post
      rw [hact] at hy
      cases hy
      have hbefore := hins.before
      rw [hprog] at hbefore
      exact absurd hbefore nofun

/-- Before it streams the client hears nothing. -/
theorem hear_quiet {w : Client} {s : Sys} (h : ∀ x, w.phase ≠ .streaming x) : w.hear s = w := by
  unfold Client.hear
  split
  · rename_i x hx
    exact absurd hx (h x)
  · rfl

/-- A step of the server while the stream is open. -/
theorem WebInv.streamStep {act : Act} {x : Nat} (hs : (chatSystem rooms).Reachable s)
    (h : WebInv (s, w)) (hcalm : Calm (s, w) (.server act)) (hstep : s.step rooms act = some s')
    (hph : w.phase = .streaming x) : WebInv (s', { w with wire := wireOf s' x w.wire }) := by
  obtain ⟨hcursor, hseen, hist, hlog, hview, hphase⟩ := h
  have hgrow := step_roomIds_prefix (reachable_sound hs) hstep w.current
  have hs' : (chatSystem rooms).Reachable s' := .step hs hstep trivial
  rw [hph] at hphase
  obtain ⟨hx, hall⟩ := hphase
  have hx' := streamed_step hstep hx
  have hfollows : ∀ e', (s'.conns x).prog = .http (.events e') →
      w.wire <+: e'.sent ∧ Follows s'.sh.db w.current e'.sent hist e' := by
    intro e' he'
    refine follows_server hs hstep hx hall ?_ he'
    intro htail y user body hy
    exact hcalm.2 act y user body rfl (by unfold InWindow; rw [hph]; exact htail) hy
  by_cases he : ∃ e', (s'.conns x).prog = .http (.events e')
  · obtain ⟨e', he'⟩ := he
    obtain ⟨hwire, hf⟩ := hfollows e' he'
    have hsent : wireOf s' x w.wire = e'.sent := by
      unfold wireOf
      rw [he']
    rw [hsent]
    have htake : e'.sent.take w.seen = w.wire.take w.seen := by
      obtain ⟨rest, hrest⟩ := hwire
      rw [← hrest, List.take_append_of_le_length hseen]
    refine ⟨hcursor, hseen.trans hwire.length_le, hist, ?_, ?_, ?_⟩
    · show w.log = hist ++ e'.sent.take w.seen
      rw [htake]
      exact hlog
    · exact hf.sent_prefix (reachable_delivered hs' x e' he')
    · show PhaseInv s' w.current e'.sent hist w.phase
      rw [hph]
      refine ⟨hx', ?_⟩
      intro e'' he''
      cases he'.symm.trans he''
      exact hf
  · -- the stream has ended: what is on the wire stays there
    have hsent : wireOf s' x w.wire = w.wire := by
      unfold wireOf
      split
      · rename_i e' he'
        exact absurd ⟨e', he'⟩ he
      · rfl
    rw [hsent]
    refine ⟨hcursor, hseen, hist, hlog, hview.trans hgrow, ?_⟩
    show PhaseInv s' w.current w.wire hist w.phase
    rw [hph]
    exact ⟨hx', fun e' he' => absurd ⟨e', he'⟩ he⟩

/-- A step of the server. -/
theorem WebInv.server {act : Act} (hs : (chatSystem rooms).Reachable s) (h : WebInv (s, w))
    (hcalm : Calm (s, w) (.server act)) (hstep : s.step rooms act = some s') :
    WebInv (s', w.hear s') := by
  have hsound := reachable_sound hs
  have hgrow := step_roomIds_prefix hsound hstep w.current
  -- in the window the room stays as it is
  have hwindow : InWindow (s, w) → s'.sh.db.roomIds w.current = s.sh.db.roomIds w.current := by
    intro hin
    rcases Sys.step_roomIds hsound.threads hstep w.current with hids | ⟨y, id, user, body, hy, hins, -⟩
    · exact hids
    · exact absurd hins.before (hcalm.2 act y user body rfl hin hy)
  cases hph : w.phase with
  | streaming x =>
    have hw : w.hear s' = { w with wire := wireOf s' x w.wire } := by
      unfold Client.hear
      rw [hph]
    rw [hw]
    exact h.streamStep hs hcalm hstep hph
  | idle =>
    -- before the history is read the room may grow
    obtain ⟨hcursor, hseen, hist, hlog, hview, hphase⟩ := h
    rw [hph] at hphase
    rw [hear_quiet (by rw [hph]; nofun)]
    exact ⟨hcursor, hseen, hist, hlog, hview.trans hgrow, by rw [hph]; exact hphase⟩
  | fetched page =>
    have hids := hwindow (by unfold InWindow; rw [hph]; trivial)
    obtain ⟨hcursor, hseen, hist, hlog, hview, hphase⟩ := h
    rw [hph] at hphase
    rw [hear_quiet (by rw [hph]; nofun)]
    refine ⟨hcursor, hseen, hist, hlog, hview.trans hgrow, ?_⟩
    rw [hph]
    exact ⟨hphase.1, hphase.2.1, hphase.2.2.trans hids.symm⟩
  | rendered =>
    have hids := hwindow (by unfold InWindow; rw [hph]; trivial)
    obtain ⟨hcursor, hseen, hist, hlog, hview, hphase⟩ := h
    rw [hph] at hphase
    rw [hear_quiet (by rw [hph]; nofun)]
    refine ⟨hcursor, hseen, hist, hlog, hview.trans hgrow, ?_⟩
    rw [hph]
    exact ⟨hphase.1.trans hids.symm, hphase.2⟩

/-- The history is read. -/
theorem WebInv.get (hdb : s.sh.db.Wf) (h : WebInv (s, w)) (hidle : w.phase = .idle)
    (hfew : (s.sh.db.roomRows w.current).length < 50) :
    WebInv (s, { w with
      phase := .fetched (handleMessagesGet s.sh.db w.current (ascii "limit=50")) }) := by
  obtain ⟨hcursor, hseen, hist, hlog, hview, hphase⟩ := h
  rw [hidle] at hphase
  exact ⟨hcursor, hseen, hist, hlog, hview, hphase.1, hphase.2, history_all hdb hfew⟩

/-- The history is rendered. -/
theorem WebInv.response (hdb : s.sh.db.Wf) (h : WebInv (s, w)) {page : List ChatMsg}
    (hpage : w.phase = .fetched page) :
    WebInv (s, { (page.map ChatMsg.id).foldl Client.addMessage w with phase := .rendered }) := by
  obtain ⟨hcursor, hseen, hist, hlog, hview, hphase⟩ := h
  rw [hpage] at hphase
  obtain ⟨rfl, hwire, hids⟩ := hphase
  have hwire : w.wire = [] := hwire
  have hlog : w.log = [] := by
    rw [hlog, hwire]
    exact List.take_nil
  have hcursor : w.cursor = 0 := by
    rw [hcursor, hlog]
    rfl
  have hfold := foldl_addMessage (s.sh.db.roomIds w.current) w (roomIds_pairwise hdb _)
    (by rw [hcursor]; exact roomIds_pos hdb _)
  rw [hids, hfold, hcursor, hlog, List.nil_append]
  refine ⟨rfl, hseen, s.sh.db.roomIds w.current, ?_, ?_, rfl, hwire⟩
  · show _ = _ ++ w.wire.take w.seen
    rw [hwire, List.take_nil, List.append_nil]
  · show s.sh.db.roomIds w.current ++ w.wire <+: _
    rw [hwire, List.append_nil]

/-- The event source is opened. -/
theorem WebInv.openEvents {s1 : Sys} {x fd : Nat} {query : List UInt8} (h : WebInv (s, w))
    (hphase : w.phase = .rendered) (hconnect : s.step rooms (.connectHttp x fd) = some s1)
    (hrun : s1.step rooms (.run x (.eventsRequest w.current query)) = some s') :
    WebInv (s', { w with phase := .streaming x }) := by
  obtain ⟨hcursor, hseen, hist, hlog, hview, hph⟩ := h
  rw [hphase] at hph
  obtain ⟨hhist, hwire⟩ := hph
  obtain ⟨hdb, hprog⟩ := openEvents_conn hconnect hrun
  refine ⟨hcursor, hseen, hist, hlog, ?_, ?_, ?_⟩
  · show hist ++ w.wire <+: s'.sh.db.roomIds w.current
    rw [hdb]
    exact hview
  · rcases hprog with hprog | hprog
    · show streamed (s'.conns x).prog = true
      rw [hprog]
      rfl
    · show streamed (s'.conns x).prog = true
      rw [hprog]
      rfl
  · intro e he
    rcases hprog with hprog | hprog
    · cases hprog.symm.trans he
      refine ⟨rfl, hwire.symm, fun _ => ?_, fun hpc => absurd rfl hpc⟩
      rw [hdb]
      exact hhist.symm
    · cases hprog.symm.trans he

/-- A frame is handled. -/
theorem WebInv.message (hdb : s.sh.db.Wf) (h : WebInv (s, w)) {id : Int}
    (hid : w.wire[w.seen]? = some id) :
    WebInv (s, { w.addMessage id with seen := w.seen + 1 }) := by
  obtain ⟨hcursor, hseen, hist, hlog, hview, hphase⟩ := h
  obtain ⟨hlt, -⟩ := List.getElem?_eq_some_iff.mp hid
  have htake : w.wire.take (w.seen + 1) = w.wire.take w.seen ++ [id] := by
    rw [List.take_add_one, hid]
    rfl
  have hlog' : w.log ++ [id] = hist ++ w.wire.take (w.seen + 1) := by
    rw [htake, ← List.append_assoc, ← hlog]
  have hprefix : w.log ++ [id] <+: s.sh.db.roomIds w.current := by
    rw [hlog']
    exact ((List.prefix_append_right_inj hist).mpr (List.take_prefix _ _)).trans hview
  have hnew := last_lt (roomIds_pairwise hdb _) (roomIds_pos hdb _) hprefix
  have hadd : w.addMessage id = { w with cursor := id, log := w.log ++ [id] } := by
    unfold Client.addMessage
    have hcursor : w.cursor = w.log.getLast?.getD 0 := hcursor
    rw [if_neg (by rw [hcursor]; omega)]
  rw [hadd]
  refine ⟨?_, hlt, hist, hlog', hview, hphase⟩
  show id = (w.log ++ [id]).getLast?.getD 0
  rw [List.getLast?_concat]
  rfl

/-- **Every step keeps the log a prefix of the room**, as long as nothing is stored
in the window. -/
theorem webInv_step {p p' : Sys × Client} {act : WebAct} (hp : (chatSystem rooms).Reachable p.1)
    (h : WebInv p) (hcalm : Calm p act) (hstep : webStep rooms p act = some p') : WebInv p' := by
  obtain ⟨s, w⟩ := p
  have hdb := (reachable_sound hp).db
  cases act with
  | server act =>
    obtain ⟨s', hs', heq⟩ := Option.map_eq_some_iff.mp hstep
    cases heq
    exact h.server hp hcalm hs'
  | get =>
    obtain ⟨hidle, heq⟩ := Option.ite_none_right_eq_some.mp hstep
    cases heq
    exact h.get hdb hidle (hcalm.1 rfl)
  | response =>
    unfold webStep at hstep
    dsimp only at hstep
    split at hstep
    · rename_i page hpage
      cases hstep
      exact h.response hdb hpage
    · cases hstep
  | openEvents x fd who =>
    obtain ⟨hphase, hstep⟩ := Option.ite_none_right_eq_some.mp hstep
    obtain ⟨s', hsteps, heq⟩ := Option.map_eq_some_iff.mp hstep
    cases heq
    obtain ⟨s1, hconnect, hrun⟩ := Option.bind_eq_some_iff.mp hsteps
    exact h.openEvents hphase hconnect hrun
  | message =>
    unfold webStep at hstep
    dsimp only at hstep
    split at hstep
    · rename_i id hid
      cases hstep
      exact h.message hdb hid
    · cases hstep

end Steps

/-- **No holes.**  In every run in which no post to the room runs its INSERT
between the history query and the stream's first cursor, the log is ascending,
without repetition, and has every message of the room that lies between two of
its messages. -/
theorem web_view_closed {rooms : List ChatRoom} {room : Int} {s : Sys} {w : Client}
    (h : (webSystem rooms room).ReachableVia (fun p act _ => Calm p act) (s, w)) :
    w.log.Pairwise (· < ·)
      ∧ ∀ a ∈ w.log, ∀ c ∈ w.log, ∀ b ∈ s.sh.db.roomIds w.current, a < b → b < c → b ∈ w.log := by
  have hinv : WebInv (s, w) := by
    refine TransitionSystem.ReachableVia.strengthen (P := WebInv)
      (fun p hp => web_reachable hp) ?_ ?_ h
    · rintro ⟨s, w⟩ ⟨-, hw⟩
      have hw : w = selectRoom room := hw
      rw [hw]
      exact ⟨rfl, le_rfl, [], rfl, List.nil_prefix, rfl, rfl⟩
    · intro p act p' hp hinv hstep hcalm
      exact webInv_step hp hinv hcalm hstep
  have hdb := (reachable_sound (web_reachable h)).db
  have hids := roomIds_pairwise hdb w.current
  obtain ⟨-, -, hist, hlog, hview, -⟩ := hinv
  have hprefix : w.log <+: s.sh.db.roomIds w.current := by
    have hlog : w.log = hist ++ w.wire.take w.seen := hlog
    rw [hlog]
    exact ((List.prefix_append_right_inj hist).mpr (List.take_prefix _ _)).trans hview
  refine ⟨hids.sublist hprefix.sublist, ?_⟩
  intro a _ c hc b hb _ hbc
  exact mem_of_lt_prefix hids hprefix hc hb hbc

/-- A test for `Calm`. -/
def calmly (p : Sys × Client) : WebAct → Bool
  | .get => (p.1.sh.db.roomRows p.2.current).length < 50
  | .server act =>
      (match p.2.phase with
        | .idle => true
        | .streaming x => (p.1.conns x).prog.streams fun e => e.pc ≠ .tail
        | _ => false)
      || act.actor.all fun y =>
          match (p.1.conns y).prog.posting with
          | some (.insert r _ _) => r ≠ p.2.current
          | _ => true
  | _ => true

theorem calm_of_calmly {p : Sys × Client} {act : WebAct} (h : calmly p act = true) : Calm p act := by
  refine ⟨?_, ?_⟩
  · rintro rfl
    exact of_decide_eq_true h
  · rintro a y user body rfl hin hy hpost
    rcases Bool.or_eq_true_iff.mp h with hphase | hother
    · -- outside the window
      unfold InWindow at hin
      split at hphase
      · rename_i hidle
        rw [hidle] at hin
        exact hin
      · rename_i x hx
        rw [hx] at hin
        obtain ⟨e, he, hpc⟩ := hin
        rw [he] at hphase
        exact of_decide_eq_true hphase hpc
      · exact absurd hphase nofun
    · rw [hy] at hother
      have hother : (match (p.1.conns y).prog.posting with
        | some (.insert r _ _) => decide (r ≠ p.2.current)
        | _ => true) = true := hother
      rw [hpost] at hother
      exact of_decide_eq_true hother rfl

/-- Stream 2 reads its first cursor, subscribes and waits. -/
def listenActs : List Act := List.replicate 5 (.run 2 .go)

/-- Stream 2 is woken, sends one frame and waits again. -/
def frameActs : List Act :=
  [.run 2 .readable, .run 2 .go, .run 2 .go, .run 2 .go, .run 2 .go, .run 2 (.sent true), .run 2 .go]

theorem reachable_start_web : (webSystem [demoRoom] 1).ReachableVia (fun p act _ => Calm p act)
    (sysStart emptyDb 0, selectRoom 1) :=
  .init ⟨.init ⟨emptyDb, 0, emptyDb_wf, rfl⟩, rfl⟩

theorem web_view_closed_two :
    ∃ s w, (webSystem [demoRoom] 1).ReachableVia (fun p act _ => Calm p act) (s, w)
      ∧ w.log = [1, 2] ∧ w.log.Pairwise (· < ·) := by
  let acts : List WebAct := (postActs 0 1).map WebAct.server
    ++ [WebAct.get, WebAct.response, WebAct.openEvents 2 2 []]
    ++ (listenActs ++ postActs 3 2 ++ frameActs).map WebAct.server ++ [WebAct.message]
  let check : Sys × Client → Bool := fun p => decide (p.2.log = [1, 2])
  have heval : (((webSystem [demoRoom] 1).guarded calmly).run (sysStart emptyDb 0, selectRoom 1)
      acts).any check = true := by
    decide +kernel
  obtain ⟨⟨s, w⟩, hrun, hcheck⟩ := TransitionSystem.exists_of_run check heval
  have hstep : ∀ (p : Sys × Client) (act : WebAct) (p' : Sys × Client), True → calmly p act = true →
      (webSystem [demoRoom] 1).step p act = some p' → True ∧ Calm p act :=
    fun _ _ _ _ htest _ => ⟨trivial, calm_of_calmly htest⟩
  obtain ⟨hs, -⟩ := TransitionSystem.run_guarded hstep _ _ _ reachable_start_web trivial hrun
  exact ⟨s, w, hs, of_decide_eq_true hcheck, (web_view_closed hs).1⟩

/-- The history has message 1; message 2 is stored before the stream reads its
first cursor, message 3 afterwards.  All frames have been handled, the stream
waits behind message 3, and message 2 is not in the log. -/
theorem web_view_hole :
    ∃ s w, (webSystem [demoRoom] 1).Reachable (s, w) ∧ s.sh.db.roomIds 1 = [1, 2, 3]
      ∧ w.log = [1, 3] ∧ w.seen = w.wire.length
      ∧ (s.conns 2).prog.streams (fun e => e.pc = .poll ∧ e.cursor = 3) = true := by
  let acts : List WebAct := (postActs 0 1).map WebAct.server ++ [WebAct.get, WebAct.response]
    ++ (postActs 1 2).map WebAct.server ++ [WebAct.openEvents 2 2 []]
    ++ (listenActs ++ postActs 3 3 ++ frameActs).map WebAct.server ++ [WebAct.message]
  let check : Sys × Client → Bool := fun p => decide (p.1.sh.db.roomIds 1 = [1, 2, 3]
    ∧ p.2.log = [1, 3] ∧ p.2.seen = p.2.wire.length
    ∧ (p.1.conns 2).prog.streams (fun e => e.pc = .poll ∧ e.cursor = 3) = true)
  have heval : ((webSystem [demoRoom] 1).run (sysStart emptyDb 0, selectRoom 1) acts).any check
      = true := by
    decide +kernel
  obtain ⟨⟨s, w⟩, hrun, hcheck⟩ := TransitionSystem.exists_of_run check heval
  have hs := TransitionSystem.run_reachable _ _ _ reachable_start_web.reachable hrun
  exact ⟨s, w, hs, of_decide_eq_true hcheck⟩

end NetServer.Web
