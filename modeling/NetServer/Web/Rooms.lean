/-
  NetServer.Web.Rooms — several calls of `selectRoom` in `web/app.js`.

  `selectRoom` writes `current`, `cursor` and the log, waits for the room's
  history, renders it and replaces the event source.  Whatever runs during the
  wait finds the new room in `current` and the old room's source in `events`: a
  frame of that source, or the history of an earlier call, is rendered into the
  new room's log and moves its cursor.

  An act is what happens between two waits.  The messages of the log carry the
  room they were read from, which the client does not know.

    • `Tab.renders_render` — what `history.forEach(addMessage)` does;
    • `TabInv.step`        — in an orderly run the log is the current room's;
    • `disorder_mixes`     — and any other arrival can mix two rooms;
    • `rooms_unmixed`      — both, for every run.
-/
import NetServer.Web.Client

namespace NetServer.Web

open NetServer.Lib
open NetServer.Lib.OrderedLog
open NetServer.Lib.TransitionSystem
open NetServer.Chat

/-! ## §1. The tab. -/

/-- A message of the log and the room it was read from. -/
structure LogEntry where
  room : Int
  msg : ChatMsg
  deriving Repr, DecidableEq

/-- A call of `selectRoom` that waits for its history. -/
structure Call where
  number : Nat
  room : Int
  deriving Repr, DecidableEq

/-- The variables of `app.js` that `selectRoom` and `addMessage` share.  `events`
is the room of the open event source; `calls` counts the calls, and `arrived` is
the history of the last one, once it is there. -/
structure Tab where
  current : Option Int
  cursor : Int
  log : List LogEntry
  events : Option Int
  pending : List Call
  calls : Nat
  arrived : Option (List ChatMsg)
  deriving Repr, DecidableEq

/-- What the server answers: ascending ids, all of them positive. -/
def IsHistory (history : List ChatMsg) : Prop :=
  Ascending ChatMsg.id history ∧ ∀ m ∈ history, 0 < m.id

instance (history : List ChatMsg) : Decidable (IsHistory history) := by
  unfold IsHistory Ascending
  infer_instance

namespace Tab

/-- The page is loaded. -/
def start : Tab :=
  { current := none, cursor := 0, log := [], events := none, pending := [], calls := 0,
    arrived := none }

/-- `addMessage`. -/
def addMessage (t : Tab) (e : LogEntry) : Tab :=
  if e.msg.id ≤ t.cursor then t else { t with cursor := e.msg.id, log := t.log ++ [e] }

/-- `history.forEach(addMessage)`. -/
def render (t : Tab) (room : Int) (history : List ChatMsg) : Tab :=
  history.foldl (fun t m => t.addMessage ⟨room, m⟩) t

/-- `selectRoom` up to its `await`. -/
def selectRoom (t : Tab) (id : Int) : Tab :=
  { t with
    current := some id
    cursor := 0
    log := []
    -- `events` is not touched: the old room's source stays open
    pending := t.pending ++ [⟨t.calls, id⟩]
    calls := t.calls + 1
    arrived := none }

/-- The call that waits under this number. -/
def waitingCall (t : Tab) (number : Nat) : Option Call :=
  t.pending.find? fun call => call.number = number

/-- The call no longer waits. -/
def settle (t : Tab) (number : Nat) : List Call :=
  t.pending.filter fun call => call.number ≠ number

/-- `selectRoom` behind its `await`: the history is rendered and the source
replaced. -/
def resume (t : Tab) (call : Call) (history : List ChatMsg) : Tab :=
  { t.render call.room history with
    -- `events.close()` and the new source, with no wait between them
    events := some call.room
    pending := t.settle call.number
    arrived := if call.number + 1 = t.calls then some history else t.arrived }

end Tab

inductive TabAct where
  /-- `selectRoom` is called. -/
  | select (id : Int)
  /-- The history of a call arrives. -/
  | response (number : Nat) (history : List ChatMsg)
  /-- The request of a call fails, or its answer is no history: the call ends. -/
  | failed (number : Nat)
  /-- `onmessage` of the open event source. -/
  | frame (m : ChatMsg)
  deriving Repr, DecidableEq

/-- What happens to the tab between two waits. -/
def Tab.step (t : Tab) : TabAct → Option Tab
  | .select id => some (t.selectRoom id)
  | .response number history =>
      (t.waitingCall number).bind fun call =>
        if IsHistory history then some (t.resume call history) else none
  | .failed number =>
      (t.waitingCall number).map fun call => { t with pending := t.settle call.number }
  | .frame m => t.events.map fun room => t.addMessage ⟨room, m⟩

def tabSystem : TransitionSystem Tab TabAct where
  init := fun t => t = Tab.start
  step := Tab.step

/-- The server's answers are histories. -/
theorem handleMessagesGet_isHistory {db : ChatDb} (hdb : db.Wf) (room : Int) (query : List UInt8) :
    IsHistory (handleMessagesGet db room query) := by
  unfold handleMessagesGet
  rw [messagesSince_eq hdb]
  have hsub : ((((db.roomRows room).filter fun m => querySince query < m.id).take
      (min (clampLimit (queryLimit query)) 100)).map rowToMsg).Sublist (db.roomMsgs room) :=
    ((List.take_sublist _ _).trans List.filter_sublist).map rowToMsg
  exact ⟨ascending_sublist (roomMsgs_ascending hdb room) hsub,
    fun m hm => roomMsgs_pos hdb (hsub.subset hm)⟩

/-! ## §2. What is wanted, and when. -/

/-- The log belongs to the current room, and the last call's history is in it. -/
structure Unmixed (t : Tab) : Prop where
  rooms : ∀ e ∈ t.log, t.current = some e.room
  complete : ∀ history, t.arrived = some history → ∀ m ∈ history, ∃ e ∈ t.log, e.msg = m

/-- The last call still waits for its history. -/
def Tab.waiting (t : Tab) : Bool := t.pending.any fun call => call.number + 1 = t.calls

/-- What arrives, without its content. -/
inductive Arrival where
  | history (number : Nat)
  | frame
  deriving Repr, DecidableEq

def TabAct.arrival : TabAct → Option Arrival
  | .response number _ => some (.history number)
  | .frame _ => some .frame
  | _ => none

/-- What arrives is of the current room, and as long as the last call waits it is
that call's history. -/
def Orderly (t : Tab) : Option Arrival → Prop
  | some (.history number) => (t.waitingCall number).map Call.room = t.current
      ∧ (t.waiting = true → number + 1 = t.calls)
  | some .frame => t.events = t.current ∧ t.waiting = false
  | none => True

instance (t : Tab) : (arrival : Option Arrival) → Decidable (Orderly t arrival)
  | some (.history number) => by
      unfold Orderly
      infer_instance
  | some .frame => by
      unfold Orderly
      infer_instance
  | none => by
      unfold Orderly
      infer_instance

/-! ## §3. Rendering. -/

namespace Tab

/-- Rendering touches the cursor and the log only. -/
structure Renders (t t' : Tab) (room : Int) (history : List ChatMsg) : Prop where
  current : t'.current = t.current
  calls : t'.calls = t.calls
  cursor : t.cursor ≤ t'.cursor
  kept : ∀ e ∈ t.log, e ∈ t'.log
  added : ∀ e ∈ t'.log, e ∈ t.log ∨ e.room = room ∧ e.msg ∈ history
  rendered : Ascending ChatMsg.id history → (∀ m ∈ history, t.cursor < m.id) →
    ∀ m ∈ history, ⟨room, m⟩ ∈ t'.log

/-- What is rendered into the log of its own room leaves it that room's. -/
theorem Renders.rooms {t t' : Tab} {room : Int} {history : List ChatMsg}
    (h : Renders t t' room history) (hroom : t.current = some room)
    (hlog : ∀ e ∈ t.log, t.current = some e.room) : ∀ e ∈ t'.log, t'.current = some e.room := by
  intro e he
  rw [h.current]
  rcases h.added e he with he | ⟨he, -⟩
  · exact hlog e he
  · rw [he]
    exact hroom

theorem renders_addMessage (t : Tab) (e : LogEntry) :
    Renders t (t.addMessage e) e.room [e.msg] := by
  unfold addMessage
  split_ifs with hold
  · refine ⟨rfl, rfl, le_refl _, fun _ => id, fun _ => Or.inl, ?_⟩
    intro _ hnew m hm
    exact absurd hold (not_le.mpr (hnew e.msg List.mem_cons_self))
  · refine ⟨rfl, rfl, le_of_lt (not_le.mp hold), ?_, ?_, ?_⟩
    · exact fun _ he => List.mem_append_left _ he
    · intro e' he'
      rcases List.mem_append.mp he' with he' | he'
      · exact Or.inl he'
      · obtain rfl := List.mem_singleton.mp he'
        exact Or.inr ⟨rfl, List.mem_singleton.mpr rfl⟩
    · intro _ _ m hm
      obtain rfl := List.mem_singleton.mp hm
      exact List.mem_append_right _ (List.mem_singleton.mpr rfl)

/-- The calls do not change. -/
structure KeepsCalls (t t' : Tab) : Prop where
  pending : t'.pending = t.pending
  arrived : t'.arrived = t.arrived
  waiting : t'.waiting = t.waiting

theorem addMessage_keeps (t : Tab) (e : LogEntry) : KeepsCalls t (t.addMessage e) := by
  unfold addMessage
  split_ifs <;> exact ⟨rfl, rfl, rfl⟩

theorem addMessage_new {t : Tab} {e : LogEntry} (h : t.cursor < e.msg.id) :
    t.addMessage e = { t with cursor := e.msg.id, log := t.log ++ [e] } := if_neg (not_le.mpr h)

theorem cursor_addMessage (t : Tab) (e : LogEntry) :
    (t.addMessage e).cursor = max t.cursor e.msg.id := by
  unfold addMessage
  split_ifs with hold
  · exact (max_eq_left hold).symm
  · exact (max_eq_right (le_of_lt (not_le.mp hold))).symm

/-- **Rendering a history**: nothing of the log is lost, what is new is of the
room, and all of it is there when it is above the cursor. -/
theorem renders_render (room : Int) :
    ∀ (history : List ChatMsg) (t : Tab), Renders t (t.render room history) room history
  | [], t => ⟨rfl, rfl, le_refl _, fun _ => id, fun _ => Or.inl, fun _ _ => nofun⟩
  | m :: rest, t => by
      have hfirst := renders_addMessage t ⟨room, m⟩
      have hrest := renders_render room rest (t.addMessage ⟨room, m⟩)
      show Renders t ((t.addMessage ⟨room, m⟩).render room rest) room (m :: rest)
      refine ⟨hrest.current.trans hfirst.current, hrest.calls.trans hfirst.calls,
        le_trans hfirst.cursor hrest.cursor, ?_, ?_, ?_⟩
      · exact fun e he => hrest.kept e (hfirst.kept e he)
      · intro e he
        rcases hrest.added e he with he | ⟨hroom, hmem⟩
        · rcases hfirst.added e he with he | ⟨hroom, hmem⟩
          · exact Or.inl he
          · rw [List.mem_singleton.mp hmem]
            exact Or.inr ⟨hroom, List.mem_cons_self⟩
        · exact Or.inr ⟨hroom, List.mem_cons_of_mem _ hmem⟩
      · -- the first message raises the cursor to its own id, which is below the rest
        intro hasc hnew m' hm'
        obtain ⟨hlt, hasc⟩ := List.pairwise_cons.mp hasc
        have hm : t.cursor < m.id := hnew m List.mem_cons_self
        rcases List.mem_cons.mp hm' with rfl | hm'
        · apply hrest.kept
          apply hfirst.rendered (List.pairwise_singleton _ _) _ _ List.mem_cons_self
          intro x hx
          rw [List.mem_singleton.mp hx]
          exact hm
        · apply hrest.rendered hasc _ m' hm'
          intro x hx
          rw [cursor_addMessage]
          exact max_lt (lt_trans hm (hlt x hx)) (hlt x hx)

/-- A message that is not above the cursor is dropped. -/
theorem render_drops {t : Tab} (room : Int) {m : ChatMsg} (hold : m.id ≤ t.cursor) :
    t.render room [m] = t := if_pos hold

/-- The tab shows what a client of one room shows, which keeps its log by id. -/
structure Shows (t : Tab) (w : Client) : Prop where
  cursor : t.cursor = w.cursor
  log : t.log.map (fun e => e.msg.id) = w.log

theorem Shows.addMessage {t : Tab} {w : Client} (h : Shows t w) (e : LogEntry) :
    Shows (t.addMessage e) (w.addMessage e.msg.id) := by
  unfold Tab.addMessage Client.addMessage
  rw [h.cursor]
  split_ifs
  · exact h
  · refine ⟨rfl, ?_⟩
    show (t.log ++ [e]).map (fun e => e.msg.id) = w.log ++ [e.msg.id]
    rw [List.map_append, h.log]
    rfl

/-- A history is rendered as `Client` renders it. -/
theorem Shows.render (room : Int) :
    ∀ (history : List ChatMsg) {t : Tab} {w : Client}, Shows t w →
      Shows (t.render room history) ((history.map ChatMsg.id).foldl Client.addMessage w)
  | [], _, _, h => h
  | m :: rest, _, _, h => Shows.render room rest (h.addMessage ⟨room, m⟩)

theorem waitingCall_some {t : Tab} {number : Nat} {call : Call}
    (h : t.waitingCall number = some call) : call ∈ t.pending ∧ call.number = number := by
  unfold waitingCall at h
  have hnumber := List.find?_some h
  rw [decide_eq_true_eq] at hnumber
  exact ⟨List.mem_of_find?_eq_some h, hnumber⟩

theorem waitingCall_of_mem {t : Tab} {call : Call} (h : call ∈ t.pending) :
    ∃ c, t.waitingCall call.number = some c := by
  cases hc : t.waitingCall call.number with
  | some c => exact ⟨c, rfl⟩
  | none => exact absurd (decide_eq_true rfl) (List.find?_eq_none.mp hc call h)

theorem waiting_iff {t : Tab} :
    t.waiting = true ↔ ∃ call ∈ t.pending, call.number + 1 = t.calls := by
  unfold waiting
  rw [List.any_eq_true]
  simp only [decide_eq_true_eq]

theorem mem_settle {t : Tab} {number : Nat} {call : Call} :
    call ∈ t.settle number ↔ call ∈ t.pending ∧ call.number ≠ number := by
  unfold settle
  rw [List.mem_filter, decide_eq_true_eq]

end Tab

/-! ## §4. Orderly runs. -/

/-- What holds in an orderly run: calls are numbered in order, the last one is of
the current room, and until its history comes the log is empty. -/
structure TabInv (t : Tab) : Prop where
  numbered : ∀ call ∈ t.pending, call.number < t.calls
  last : ∀ call ∈ t.pending, call.number + 1 = t.calls → t.current = some call.room
  fresh : t.waiting = true → t.cursor = 0 ∧ t.log = [] ∧ t.arrived = none
  cursor : 0 ≤ t.cursor
  unmixed : Unmixed t

theorem TabInv.start : TabInv Tab.start :=
  ⟨nofun, nofun, nofun, le_refl 0, ⟨nofun, nofun⟩⟩

theorem TabInv.select {t : Tab} (h : TabInv t) (id : Int) : TabInv (t.selectRoom id) := by
  have hcases : ∀ call ∈ (t.selectRoom id).pending, call ∈ t.pending ∨ call = ⟨t.calls, id⟩ := by
    intro call hcall
    exact (List.mem_append.mp hcall).imp_right List.mem_singleton.mp
  refine ⟨?_, ?_, fun _ => ⟨rfl, rfl, rfl⟩, le_refl 0, ⟨nofun, nofun⟩⟩
  · intro call hcall
    rcases hcases call hcall with hcall | rfl
    · exact Nat.lt_succ_of_lt (h.numbered call hcall)
    · exact Nat.lt_succ_self _
  · intro call hcall hlast
    rcases hcases call hcall with hcall | rfl
    · -- an earlier call is not the last one any more
      have hlt := h.numbered call hcall
      have hlast : call.number + 1 = t.calls + 1 := hlast
      omega
    · rfl

/-- A call that ends leaves the others. -/
theorem TabInv.settle {t : Tab} (h : TabInv t) (number : Nat) :
    TabInv { t with pending := t.settle number } := by
  refine ⟨?_, ?_, ?_, h.cursor, ⟨h.unmixed.rooms, h.unmixed.complete⟩⟩
  · exact fun call hcall => h.numbered call (Tab.mem_settle.mp hcall).1
  · exact fun call hcall => h.last call (Tab.mem_settle.mp hcall).1
  · intro hwait
    obtain ⟨call, hcall, hlast⟩ := Tab.waiting_iff.mp hwait
    exact h.fresh (Tab.waiting_iff.mpr ⟨call, (Tab.mem_settle.mp hcall).1, hlast⟩)

/-- A frame of the current room, while no history is waited for. -/
theorem TabInv.frame {t : Tab} (h : TabInv t) {room : Int} (hroom : t.current = some room)
    (hwait : t.waiting = false) (m : ChatMsg) : TabInv (t.addMessage ⟨room, m⟩) := by
  have hadd := Tab.renders_addMessage t ⟨room, m⟩
  obtain ⟨hpending, harrived, hwaiting⟩ := Tab.addMessage_keeps t ⟨room, m⟩
  refine ⟨?_, ?_, ?_, le_trans h.cursor hadd.cursor, ⟨?_, ?_⟩⟩
  · rw [hpending, hadd.calls]
    exact h.numbered
  · rw [hpending, hadd.calls, hadd.current]
    exact h.last
  · intro hno
    rw [hwaiting, hwait] at hno
    cases hno
  · exact hadd.rooms hroom h.unmixed.rooms
  · rw [harrived]
    intro history hhist x hx
    obtain ⟨e, he, heq⟩ := h.unmixed.complete history hhist x hx
    exact ⟨e, hadd.kept e he, heq⟩

/-- The history of a call of the current room, the last one if it waits. -/
theorem TabInv.resume {t : Tab} (h : TabInv t) {call : Call} (hcall : call ∈ t.pending)
    (hroom : t.current = some call.room) (hlast : t.waiting = true → call.number + 1 = t.calls)
    {history : List ChatMsg} (hist : IsHistory history) : TabInv (t.resume call history) := by
  have hrender := Tab.renders_render call.room history t
  have hcalls : (t.resume call history).calls = t.calls := hrender.calls
  have hcurrent : (t.resume call history).current = t.current := hrender.current
  refine ⟨?_, ?_, ?_, le_trans h.cursor hrender.cursor, ⟨?_, ?_⟩⟩
  · rw [hcalls]
    exact fun c hc => h.numbered c (Tab.mem_settle.mp hc).1
  · rw [hcalls, hcurrent]
    exact fun c hc => h.last c (Tab.mem_settle.mp hc).1
  · -- the last call, if it waited, was this one
    intro hwait
    obtain ⟨c, hc, heq⟩ := Tab.waiting_iff.mp hwait
    obtain ⟨hc, hne⟩ := Tab.mem_settle.mp hc
    rw [hcalls] at heq
    have hsame := hlast (Tab.waiting_iff.mpr ⟨c, hc, heq⟩)
    omega
  · exact hrender.rooms hroom h.unmixed.rooms
  · intro history' hhist m hm
    have hhist : (if call.number + 1 = t.calls then some history else t.arrived)
        = some history' := hhist
    split_ifs at hhist with hthis
    · -- the last call: its history is rendered from cursor 0
      obtain rfl := Option.some.inj hhist
      obtain ⟨hcursor, -, -⟩ := h.fresh (Tab.waiting_iff.mpr ⟨call, hcall, hthis⟩)
      have hnew : ∀ x ∈ history, t.cursor < x.id := fun x hx => hcursor ▸ hist.2 x hx
      exact ⟨_, hrender.rendered hist.1 hnew m hm, rfl⟩
    · obtain ⟨e, he, heq⟩ := h.unmixed.complete history' hhist m hm
      exact ⟨e, hrender.kept e he, heq⟩

/-- **An orderly step keeps it.** -/
theorem TabInv.step {t t' : Tab} {act : TabAct} (h : TabInv t) (hstep : t.step act = some t')
    (hok : Orderly t act.arrival) : TabInv t' := by
  cases act with
  | select id =>
      obtain rfl := Option.some.inj hstep
      exact h.select id
  | response number history =>
      obtain ⟨call, hcall, hresume⟩ := Option.bind_eq_some_iff.mp hstep
      obtain ⟨hist, heq⟩ := Option.ite_none_right_eq_some.mp hresume
      obtain rfl := Option.some.inj heq
      obtain ⟨hmem, rfl⟩ := Tab.waitingCall_some hcall
      obtain ⟨hroom, hlast⟩ := hok
      rw [hcall] at hroom
      exact h.resume hmem hroom.symm hlast hist
  | failed number =>
      obtain ⟨call, -, rfl⟩ := Option.map_eq_some_iff.mp hstep
      exact h.settle call.number
  | frame m =>
      obtain ⟨room, hroom, rfl⟩ := Option.map_eq_some_iff.mp hstep
      obtain ⟨hsame, hwait⟩ := hok
      exact h.frame (hsame.symm.trans hroom) hwait m

theorem tabInv_reachable {t : Tab}
    (h : tabSystem.ReachableVia (fun t act _ => Orderly t act.arrival) t) : TabInv t := by
  refine ReachableVia.invariant ?_ (fun t act t' ht hstep hok => ht.step hstep hok) h
  rintro t rfl
  exact TabInv.start

/-! ## §5. Everything else mixes rooms. -/

/-- A message with this id. -/
def msgWithId (id : Int) : ChatMsg := { id := id, user := [], ts := 0, body := [] }

theorem isHistory_single {id : Int} (h : 0 < id) : IsHistory [msgWithId id] :=
  ⟨List.pairwise_singleton _ _, fun m hm => by rw [List.mem_singleton.mp hm]; exact h⟩

/-- What an arrival with one new message does. -/
structure Puts (t u : Tab) (room id : Int) : Prop where
  current : u.current = t.current
  cursor : u.cursor = id
  log : u.log = t.log ++ [⟨room, msgWithId id⟩]

theorem puts_addMessage {t : Tab} (room : Int) {id : Int} (h : t.cursor < id) :
    Puts t (t.addMessage ⟨room, msgWithId id⟩) room id := by
  rw [@Tab.addMessage_new t ⟨room, msgWithId id⟩ h]
  exact ⟨rfl, rfl, rfl⟩

theorem puts_resume {t : Tab} (call : Call) {id : Int} (h : t.cursor < id) :
    Puts t (t.resume call [msgWithId id]) call.room id := by
  obtain ⟨hcurrent, hcursor, hlog⟩ := puts_addMessage call.room h
  exact ⟨hcurrent, hcursor, hlog⟩

/-- Message 2 was rendered while the last call waits: message 1 of its history is
dropped. -/
theorem waiting_drops {t : Tab} {room : Int} (hwait : t.waiting = true)
    (hcursor : t.cursor = 2) (hlog : t.log = [⟨room, msgWithId 2⟩]) :
    ∃ number u, tabSystem.step t (.response number [msgWithId 1]) = some u ∧ ¬ Unmixed u := by
  obtain ⟨call, hcall, hlast⟩ := Tab.waiting_iff.mp hwait
  obtain ⟨c, hc⟩ := Tab.waitingCall_of_mem hcall
  have hnumber := (Tab.waitingCall_some hc).2
  have hstep : tabSystem.step t (.response call.number [msgWithId 1])
      = some (t.resume c [msgWithId 1]) := by
    show (t.waitingCall call.number).bind _ = _
    rw [hc, Option.bind_some, if_pos (isHistory_single (by decide))]
  refine ⟨call.number, _, hstep, ?_⟩
  intro h
  have harrived : (t.resume c [msgWithId 1]).arrived = some [msgWithId 1] :=
    if_pos (hnumber ▸ hlast)
  obtain ⟨e, he, heq⟩ := h.complete _ harrived _ (List.mem_singleton.mpr rfl)
  have hkept : (t.resume c [msgWithId 1]).log = t.log := by
    show (t.render c.room [msgWithId 1]).log = t.log
    rw [Tab.render_drops c.room (show (msgWithId 1).id ≤ t.cursor by rw [hcursor]; decide)]
  rw [hkept, hlog] at he
  rw [List.mem_singleton.mp he] at heq
  exact absurd (congrArg ChatMsg.id heq) (show ¬ (2 : Int) = 1 by decide)

/-- **An arrival that mixes rooms**: one of another room, or any one that comes
before the history the last call waits for. -/
theorem arrival_mixes {t : Tab} (h : TabInv t) {room : Int} {arrive : Int → TabAct}
    {next : Int → Tab} (hstep : ∀ id, 0 < id → tabSystem.step t (arrive id) = some (next id))
    (hputs : ∀ id, t.cursor < id → Puts t (next id) room id)
    (hbad : t.current ≠ some room ∨ t.waiting = true ∧ (next 2).waiting = true) :
    ∃ id rest u, tabSystem.run t (arrive id :: rest) = some u ∧ ¬ Unmixed u := by
  rcases hbad with hroom | ⟨hwait, hwait'⟩
  · -- a message above the cursor is shown in the wrong room
    have hcursor := h.cursor
    have hput := hputs (t.cursor + 1) (by omega)
    refine ⟨t.cursor + 1, [], next (t.cursor + 1), ?_, ?_⟩
    · rw [run_cons, hstep (t.cursor + 1) (by omega)]
      rfl
    · intro hun
      have hmem : ⟨room, msgWithId (t.cursor + 1)⟩ ∈ (next (t.cursor + 1)).log := by
        rw [hput.log]
        exact List.mem_append_right _ (List.mem_singleton.mpr rfl)
      exact hroom (hput.current.symm.trans (hun.rooms _ hmem))
  · -- message 2 comes first, and message 1 of the history is dropped
    obtain ⟨hcursor, hempty, -⟩ := h.fresh hwait
    have hput := hputs 2 (by rw [hcursor]; decide)
    obtain ⟨number, u, hnext, hmixed⟩ := waiting_drops hwait' hput.cursor
      (hput.log.trans (by rw [hempty]; rfl))
    refine ⟨2, [.response number [msgWithId 1]], u, ?_, hmixed⟩
    rw [run_cons, hstep 2 (by decide), Option.bind_some, run_cons, hnext]
    rfl

/-- **Any arrival that is not orderly can mix rooms**, with some content. -/
theorem disorder_mixes {t t' : Tab} {act : TabAct} (h : TabInv t) (hstep : t.step act = some t')
    (hbad : ¬ Orderly t act.arrival) :
    ∃ act' rest u, act'.arrival = act.arrival ∧ tabSystem.run t (act' :: rest) = some u
      ∧ ¬ Unmixed u := by
  cases act with
  | select id => exact absurd trivial hbad
  | failed number => exact absurd trivial hbad
  | response number history =>
      obtain ⟨call, hcall, -⟩ := Option.bind_eq_some_iff.mp hstep
      obtain ⟨-, rfl⟩ := Tab.waitingCall_some hcall
      have hnext : ∀ id, 0 < id → tabSystem.step t (.response call.number [msgWithId id])
          = some (t.resume call [msgWithId id]) := by
        intro id hid
        show (t.waitingCall call.number).bind _ = _
        rw [hcall, Option.bind_some, if_pos (isHistory_single hid)]
      have hcases : t.current ≠ some call.room
          ∨ t.waiting = true ∧ (t.resume call [msgWithId 2]).waiting = true := by
        by_contra hno
        rw [not_or, not_not] at hno
        obtain ⟨hroom, hno⟩ := hno
        refine hbad ⟨by rw [hcall]; exact hroom.symm, ?_⟩
        intro hwait
        by_contra hne
        -- the last call is another one, and goes on waiting
        obtain ⟨c, hc, hlast⟩ := Tab.waiting_iff.mp hwait
        refine hno ⟨hwait, Tab.waiting_iff.mpr ⟨c, Tab.mem_settle.mpr ⟨hc, ?_⟩, ?_⟩⟩
        · intro heq
          rw [heq] at hlast
          exact hne hlast
        · exact hlast.trans (Tab.renders_render call.room _ t).calls.symm
      obtain ⟨id, rest, u, hrun, hmixed⟩ :=
        arrival_mixes h hnext (fun id hid => puts_resume call hid) hcases
      exact ⟨.response call.number [msgWithId id], rest, u, rfl, hrun, hmixed⟩
  | frame m =>
      obtain ⟨room, hevents, -⟩ := Option.map_eq_some_iff.mp hstep
      have hnext : ∀ id, 0 < id → tabSystem.step t (.frame (msgWithId id))
          = some (t.addMessage ⟨room, msgWithId id⟩) := by
        intro id _
        show t.events.map _ = _
        rw [hevents, Option.map_some]
      have hcases : t.current ≠ some room
          ∨ t.waiting = true ∧ (t.addMessage ⟨room, msgWithId 2⟩).waiting = true := by
        by_contra hno
        rw [not_or, not_not] at hno
        obtain ⟨hroom, hno⟩ := hno
        refine hbad ⟨hevents.trans hroom.symm, ?_⟩
        rw [Bool.eq_false_iff]
        intro hwait
        rw [(Tab.addMessage_keeps t _).waiting] at hno
        exact hno ⟨hwait, hwait⟩
      obtain ⟨id, rest, u, hrun, hmixed⟩ :=
        arrival_mixes h hnext (fun id hid => puts_addMessage room hid) hcases
      exact ⟨.frame (msgWithId id), rest, u, rfl, hrun, hmixed⟩

/-- **Switching rooms.**  In a run in which everything that arrives is of the
current room and nothing arrives before the history of the last call, every
message of the log belongs to the current room, and the history of the last call
is in the log once it has arrived.  Where an arrival breaks the order, the same
arrival with some content mixes two rooms or loses the history. -/
theorem rooms_unmixed {t : Tab}
    (h : tabSystem.ReachableVia (fun t act _ => Orderly t act.arrival) t) :
    Unmixed t
      ∧ ∀ act t', tabSystem.step t act = some t' → ¬ Orderly t act.arrival →
        ∃ act' rest u, act'.arrival = act.arrival ∧ tabSystem.run t (act' :: rest) = some u
          ∧ ¬ Unmixed u :=
  ⟨(tabInv_reachable h).unmixed, fun _ _ hstep hbad =>
    disorder_mixes (tabInv_reachable h) hstep hbad⟩

/-- One message in room 2. -/
def quietRooms : ChatDb where
  messages := [⟨3, 2, ascii "ann", 0, ascii "hello"⟩]
  seq := 3
  presence := []

/-- A message of room 1, as the event stream has it. -/
def lateMessage : ChatMsg := ⟨10, ascii "bob", 0, ascii "late"⟩

/-- And the tables behind it. -/
def busyRooms : ChatDb := chatDbInsertMessage quietRooms 1 (ascii "bob") (ascii "late") 0 10

/-- Room 1 is read and followed, then room 2 is read. -/
theorem rooms_unmixed_switch :
    ∃ t, tabSystem.ReachableVia (fun t act _ => Orderly t act.arrival) t
      ∧ t.current = some 2 ∧ t.log.map LogEntry.room = [2] ∧ Unmixed t := by
  obtain ⟨t, hrun, hcheck⟩ := @exists_of_run _ _
    (tabSystem.guarded fun t act => decide (Orderly t act.arrival)) Tab.start
    [.select 1, .response 0 (handleMessagesGet quietRooms 1 (ascii "limit=50")),
      .frame lateMessage, .select 2,
      .response 1 (handleMessagesGet busyRooms 2 (ascii "limit=50"))]
    (fun t => decide (t.current = some 2 ∧ t.log.map LogEntry.room = [2])) (by decide +kernel)
  obtain ⟨hcurrent, hlog⟩ := of_decide_eq_true hcheck
  have hreach := (@run_guarded _ _ tabSystem _ (fun t act _ => Orderly t act.arrival)
    (fun _ => True) (fun _ _ _ _ htest _ => ⟨trivial, of_decide_eq_true htest⟩) _ _ _ (.init rfl)
    trivial hrun).1
  exact ⟨t, hreach, hcurrent, hlog, (rooms_unmixed hreach).1⟩

/-- **Room 1 in the log of room 2.**  Room 2 is selected while room 1 is followed,
and a message of room 1 comes before the history of room 2: it is shown in room 2,
and the history is not. -/
theorem rooms_mixed_frame :
    ∃ t, tabSystem.run Tab.start
        [.select 1, .response 0 (handleMessagesGet quietRooms 1 (ascii "limit=50")), .select 2,
          .frame lateMessage, .response 1 (handleMessagesGet busyRooms 2 (ascii "limit=50"))]
          = some t
      ∧ t.current = some 2 ∧ t.log = [⟨1, lateMessage⟩]
      ∧ (∃ m, t.arrived = some [m] ∧ ∀ e ∈ t.log, e.msg ≠ m) ∧ ¬ Unmixed t := by
  obtain ⟨t, hrun, hcheck⟩ := @exists_of_run _ _ tabSystem Tab.start
    [.select 1, .response 0 (handleMessagesGet quietRooms 1 (ascii "limit=50")), .select 2,
      .frame lateMessage, .response 1 (handleMessagesGet busyRooms 2 (ascii "limit=50"))]
    (fun t => decide (t.current = some 2 ∧ t.log = [⟨1, lateMessage⟩]
      ∧ t.arrived = some [⟨3, ascii "ann", 0, ascii "hello"⟩])) (by decide +kernel)
  obtain ⟨hcurrent, hlog, harrived⟩ := of_decide_eq_true hcheck
  refine ⟨t, hrun, hcurrent, hlog, ⟨_, harrived, ?_⟩, ?_⟩
  · intro e he
    rw [hlog] at he
    rw [List.mem_singleton.mp he]
    decide +kernel
  · intro h
    have hroom := h.rooms ⟨1, lateMessage⟩ (by rw [hlog]; exact List.mem_singleton.mpr rfl)
    rw [hcurrent] at hroom
    exact absurd (Option.some.inj hroom) (by decide)

end NetServer.Web
