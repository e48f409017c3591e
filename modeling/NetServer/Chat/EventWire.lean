/-
  NetServer.Chat.EventWire — what the browser gets of an event stream.

  `NetServer.Chat.Delivery` follows the ids of the messages a stream has sent.
  Here the stream writes to a socket: each call of `send` returns what it likes,
  a short count, EINTR or an error, and the bytes that were accepted are read by a
  client that takes the head off (`NetServer.Lib.HttpMessage`) and collects events
  (`NetServer.Lib.EventStream`).

  `http_sse_begin` and the first comment are sent without a look at the result, so
  that the stream goes on behind an error.  What the client gets is whole all the
  same as long as a socket that has failed accepts nothing more (`Lasting`).

    • `Framed.write`, `wired_step` — one write, one step of the server;
    • `stream_received` — over every run: the events are the room's messages from
      the first cursor on, in order, without gaps, and never a part of one.
-/
import NetServer.Chat.Anchor
import NetServer.Chat.Delivery
import NetServer.Chat.JsonArray
import NetServer.Http.Transport
import NetServer.Lib.EventStream

namespace NetServer.Chat

open NetServer.Lib
open NetServer.Lib.TransitionSystem
open NetServer.Lib.HttpMessage
open NetServer.Lib.EventStream
open NetServer.Telnet
open NetServer.Http

/-! ## §1. Writing. -/

/-- What a step of a stream's thread writes. -/
def Sse.writes (e : Sse) (outs : List SendOutcome) : Option Sent :=
  match e.pc with
  | .comment => httpSseComment outs (ascii "connected")
  | .beatComment => httpSseComment outs (ascii "keepalive")
  | .send cur _ => Http.httpSseSend outs (cString (msgToJson cur sseFrameMax))
  | _ => some ⟨[], true, outs⟩

/-- What a connection's thread writes of an event stream on its way from one point to the
next: the head when the request has arrived, then frames and comments. -/
def Prog.writes (outs : List SendOutcome) : Prog → Prog → Option Sent
  | .http .request, .http (.events _) => httpSseBegin outs
  | .http (.events e), _ => e.writes outs
  | _, _ => some ⟨[], true, outs⟩

/-- The thread goes on with what its writer returned. -/
def Choice.agrees (ok : Bool) : Choice → Bool
  | .sent b => b == ok
  | _ => true

/-- The bytes that the socket of a connection has accepted, and whether it has failed. -/
structure Wire where
  bytes : List UInt8
  broken : Bool
  deriving Repr, DecidableEq

def Wire.add (w : Wire) (r : Sent) : Wire := ⟨w.bytes ++ r.bytes, w.broken || !r.ok⟩

/-- What connection `x` writes in a step, if it is its own. -/
def wireWrites (x : Nat) (s s' : Sys) (outs : List SendOutcome) : Act → Option Sent
  | .run z choice =>
      if z = x then
        ((s.conns x).prog.writes outs (s'.conns x).prog).filter fun r => choice.agrees r.ok
      else some ⟨[], true, outs⟩
  | _ => some ⟨[], true, outs⟩

/-- The server with the socket of connection `x` beside it; a label names what the calls of
`send` in the step return, and all of it is used. -/
def wireSystem (rooms : List ChatRoom) (x : Nat) :
    TransitionSystem (Sys × Wire) (Act × List SendOutcome) where
  init := fun p => (chatSystem rooms).init p.1 ∧ p.2 = ⟨[], false⟩
  step := fun p l =>
    (p.1.step rooms l.1).bind fun s' =>
      (wireWrites x p.1 s' l.2 l.1).bind fun r =>
        if r.rest = [] then some (s', p.2.add r) else none

/-- An error of the socket lasts. -/
def Lasting (p : Sys × Wire) (l : Act × List SendOutcome) (_ : Sys × Wire) : Prop :=
  p.2.broken = true → Dead l.2

theorem wireSystem_step {rooms : List ChatRoom} {x : Nat} {s s' : Sys} {w w' : Wire} {act : Act}
    {outs : List SendOutcome} (h : (wireSystem rooms x).step (s, w) (act, outs) = some (s', w')) :
    s.step rooms act = some s' ∧ ∃ r, wireWrites x s s' outs act = some r ∧ w' = w.add r := by
  obtain ⟨s1, hstep, h⟩ := Option.bind_eq_some_iff.mp h
  obtain ⟨r, hr, h⟩ := Option.bind_eq_some_iff.mp h
  obtain ⟨-, heq⟩ := Option.ite_none_right_eq_some.mp h
  cases heq
  exact ⟨hstep, r, hr, rfl⟩

theorem wire_reachable {rooms : List ChatRoom} {x : Nat}
    {ok : Sys × Wire → Act × List SendOutcome → Sys × Wire → Prop} {p : Sys × Wire}
    (h : (wireSystem rooms x).ReachableVia ok p) : (chatSystem rooms).Reachable p.1 := by
  induction h with
  | init hp => exact .init hp.1
  | step _ hstep _ ih => exact .step ih (wireSystem_step hstep).1 trivial

/-- The connection's own step. -/
theorem wireWrites_own {x : Nat} {s s' : Sys} {outs : List SendOutcome} {choice : Choice} {r : Sent}
    (h : wireWrites x s s' outs (.run x choice) = some r) :
    (s.conns x).prog.writes outs (s'.conns x).prog = some r ∧ choice.agrees r.ok = true := by
  unfold wireWrites at h
  dsimp only at h
  rw [if_pos rfl] at h
  exact Option.filter_eq_some_iff.mp h

/-- A step of anything else. -/
theorem wireWrites_other {x : Nat} {s s' : Sys} {outs : List SendOutcome} {act : Act} {r : Sent}
    (hact : act.actor ≠ some x) (h : wireWrites x s s' outs act = some r) (w : Wire) : w.add r = w := by
  have hquiet : r = ⟨[], true, outs⟩ → w.add r = w := by
    rintro rfl
    show (⟨w.bytes ++ [], w.broken || false⟩ : Wire) = w
    rw [List.append_nil, Bool.or_false]
  cases act with
  | run z choice =>
    have hz : z ≠ x := fun hz => hact (by rw [hz]; rfl)
    unfold wireWrites at h
    dsimp only at h
    rw [if_neg hz] at h
    exact hquiet (Option.some.inj h).symm
  | _ => exact hquiet (Option.some.inj h).symm

/-! ## §2. Reading. -/

/-- The events a client has got out of the bytes of a response. -/
def wireEvents (bytes : List UInt8) : List Event :=
  ((readHead bytes).map fun p => (receiver.run .start p.2).2).getD []

/-- The head has been read, and the client is between two events. -/
def AtRest (bytes : List UInt8) : Prop :=
  ∃ head body, readHead bytes = some (head, body) ∧ (receiver.run .start body).1 = .start

theorem AtRest.append {bytes : List UInt8} (h : AtRest bytes) (t : List UInt8) :
    wireEvents (bytes ++ t) = wireEvents bytes ++ (receiver.run .start t).2
    ∧ ((receiver.run .start t).1 = .start → AtRest (bytes ++ t)) := by
  obtain ⟨head, body, hhead, hrest⟩ := h
  have happend := readHead_append hhead t
  have hrun := Transducer.run_append receiver .start body t
  rw [hrest] at hrun
  refine ⟨?_, fun ht => ⟨head, body ++ t, happend, by rw [hrun]; exact ht⟩⟩
  unfold wireEvents
  rw [happend, hhead]
  show (receiver.run .start (body ++ t)).2 = (receiver.run .start body).2 ++ _
  rw [hrun]

theorem readHead_sseHead : ∃ head, readHead sseHead = some (head, []) := by
  have h : (readHead sseHead).any (fun p => p.2 == []) = true := by decide +kernel
  obtain ⟨⟨head, rest⟩, hread, hrest⟩ := (Option.any_eq_true _ _).mp h
  have hrest : rest = [] := beq_iff_eq.mp hrest
  exact ⟨head, by rw [hread, hrest]⟩

theorem longText_visible (n : Int) : ∀ b ∈ longText n, (decide (b < 32)) = false := by
  have hdecimal : ∀ k, ∀ b ∈ decimal k, (decide (b < 32)) = false := by
    intro k b hb
    have hdigit := decimal_digits k b hb
    simp only [isDigit, Bool.and_eq_true, decide_eq_true_eq] at hdigit
    rw [decide_eq_false_iff_not]
    exact fun h => absurd (UInt8.lt_of_le_of_lt hdigit.1 h) (by decide)
  intro b hb
  unfold longText at hb
  split_ifs at hb
  · rcases List.mem_cons.mp hb with rfl | hb
    · decide
    · exact hdecimal _ b hb
  · exact hdecimal _ b hb

/-- The text of any message has no control byte, whatever is in the store. -/
theorem msgJsonText_noControl (m : ChatMsg) {b : UInt8} (hb : b ∈ msgJsonText m) : ¬ b < 32 := by
  have hescape : ∀ (s : List UInt8) (outsz : Nat), 2 ≤ outsz → ∀ b ∈ jsonEscape s outsz,
      (decide (b < 32)) = false := by
    intro s outsz hsz b hb
    obtain ⟨p, -, hp, -⟩ := jsonEscape_spec s hsz
    rw [hp] at hb
    exact decide_eq_false (escaped_visible hb)
  have hfilter := @filter_fill _ (fun b => decide (b < 32)) msgJsonTemplate
    [longText m.id, jsonEscape m.user (chatUserMax * 2), longText m.ts,
      jsonEscape m.body (chatBodyMax * 2)] (by
        intro a ha
        simp only [List.mem_cons, List.not_mem_nil, or_false] at ha
        rcases ha with rfl | rfl | rfl | rfl
        · exact longText_visible m.id
        · exact hescape m.user _ (by decide)
        · exact longText_visible m.ts
        · exact hescape m.body _ (by decide))
  have hnone : (literals msgJsonTemplate).filter (fun b => decide (b < 32)) = [] := by decide +kernel
  rw [hnone, List.filter_eq_nil_iff] at hfilter
  intro hlt
  exact hfilter b hb (decide_eq_true hlt)

/-- The data of a frame. -/
def frameData (m : ChatMsg) : List UInt8 := cString (msgToJson m sseFrameMax)

theorem frameData_line (m : ChatMsg) : ∀ b ∈ frameData m, b ≠ 10 ∧ b ≠ 13 := by
  intro b hb
  have hmem := List.mem_of_mem_take ((List.takeWhile_sublist _).subset hb)
  have hvisible := msgJsonText_noControl m hmem
  constructor
  · rintro rfl
    exact hvisible (by decide)
  · rintro rfl
    exact hvisible (by decide)

/-- The event of a message. -/
def msgEvent (m : ChatMsg) : Event := ⟨ascii "message", frameData m, []⟩

/-! ## §3. One write. -/

/-- A text that leaves the client between two events, and that the client sees nothing of
until it is complete. -/
structure Framed (text : List UInt8) (evs : List Event) : Prop where
  nonempty : text ≠ []
  run : receiver.run .start text = (.start, evs)
  part : ∀ p, p <+: text → p ≠ text → (receiver.run .start p).2 = []

theorem framed_data (m : ChatMsg) :
    Framed [ascii "data: ", frameData m, ascii "\n\n"].flatten [msgEvent m] := by
  have htext : [ascii "data: ", frameData m, ascii "\n\n"].flatten
      = ascii "data: " ++ frameData m ++ [10, 10] := by
    rw [List.flatten_cons, List.flatten_cons, List.flatten_cons, List.flatten_nil, List.append_nil,
      ← List.append_assoc]
    rfl
  rw [htext]
  exact ⟨by simp [ascii], run_data Receiver.start_idle (frameData_line m),
    fun p hp hne => run_data_part Receiver.start_idle (frameData_line m) hp hne⟩

theorem framed_comment {text : List UInt8} (htext : ∀ b ∈ text, b ≠ 10 ∧ b ≠ 13) :
    Framed [ascii ": ", text, ascii "\n\n"].flatten [] := by
  have hflat : [ascii ": ", text, ascii "\n\n"].flatten = 58 :: (32 :: text) ++ [10, 10] := by
    rw [List.flatten_cons, List.flatten_cons, List.flatten_cons, List.flatten_nil, List.append_nil]
    rfl
  have hbytes : ∀ b ∈ (32 : UInt8) :: text, b ≠ 10 ∧ b ≠ 13 := by
    intro b hb
    rcases List.mem_cons.mp hb with rfl | hb
    · decide
    · exact htext b hb
  have hrun := run_comment Receiver.start_idle hbytes
  rw [hflat]
  refine ⟨by simp, hrun, fun p hp _ => ?_⟩
  have hnone := @run_mono .start _ _ hp
  rw [hrun] at hnone
  exact List.prefix_nil.mp hnone

/-- **One write.** -/
theorem Framed.write {w : Wire} {r : Sent} {text : List UInt8} {evs : List Event} (h : Framed text evs)
    (hrest : w.broken = false → AtRest w.bytes) (hof : r.Of text)
    (hdead : w.broken = true → r.bytes = []) :
    wireEvents (w.add r).bytes = wireEvents w.bytes ++ (if r.ok then evs else [])
    ∧ ((w.add r).broken = false → AtRest (w.add r).bytes) := by
  unfold Sent.Of at hof
  cases hbroken : w.broken with
  | true =>
    -- nothing is accepted any more, and so the write fails
    have hbytes := hdead hbroken
    have hok : ¬ r.ok = true := by
      intro hok
      rw [if_pos hok, hbytes] at hof
      exact h.nonempty hof.symm
    rw [if_neg hok]
    refine ⟨?_, ?_⟩
    · show wireEvents (w.bytes ++ r.bytes) = _
      rw [hbytes, List.append_nil, List.append_nil]
    · intro hnot
      have hnot : (w.broken || !r.ok) = false := hnot
      rw [hbroken] at hnot
      exact absurd hnot nofun
  | false =>
    obtain ⟨hevents, hidle⟩ := (hrest hbroken).append r.bytes
    refine ⟨?_, ?_⟩
    · show wireEvents (w.bytes ++ r.bytes) = _
      rw [hevents]
      split_ifs at hof ⊢ with hok
      · rw [hof, h.run]
      · rw [h.part r.bytes hof.1 hof.2]
    · intro hnot
      have hnot : (w.broken || !r.ok) = false := hnot
      rw [hbroken, Bool.false_or, Bool.not_eq_false'] at hnot
      rw [if_pos hnot] at hof
      exact hidle (by rw [hof, h.run])

/-! ## §4. The stream and its client. -/

/-- The client has got exactly the messages that were sent, and they are in the room. -/
structure Sse.Wired (db : ChatDb) (w : Wire) (e : Sse) : Prop where
  frames : ∃ msgs : List ChatMsg, msgs.map ChatMsg.id = e.sent
    ∧ (∀ m ∈ msgs, m ∈ db.roomMsgs e.roomId) ∧ wireEvents w.bytes = msgs.map msgEvent
  batch : ∀ cur rest, e.pc = .send cur rest → ∀ m ∈ cur :: rest, m ∈ db.roomMsgs e.roomId
  rest : w.broken = false → AtRest w.bytes

namespace Sse

variable {db : ChatDb} {w w' : Wire} {e : Sse}

theorem Wired.grow {db' : ChatDb} (h : e.Wired db w)
    (hmsgs : ∀ m ∈ db.roomMsgs e.roomId, m ∈ db'.roomMsgs e.roomId) : e.Wired db' w := by
  obtain ⟨⟨msgs, hids, hmem, hevents⟩, hbatch, hrest⟩ := h
  exact ⟨⟨msgs, hids, fun m hm => hmsgs m (hmem m hm), hevents⟩,
    fun cur rest hpc m hm => hmsgs m (hbatch cur rest hpc m hm), hrest⟩

/-- On to a point at which no message is being sent. -/
theorem Wired.goto {pc : SsePc} (h : e.Wired db w) (hpc : ∀ cur rest, pc ≠ .send cur rest)
    (hevents : wireEvents w'.bytes = wireEvents w.bytes) (hrest : w'.broken = false → AtRest w'.bytes) :
    Sse.Wired db w' { e with pc := pc } := by
  obtain ⟨⟨msgs, hids, hmem, hold⟩, -, -⟩ := h
  exact ⟨⟨msgs, hids, hmem, hevents.trans hold⟩, fun cur rest heq => absurd heq (hpc cur rest), hrest⟩

/-- On with a batch. -/
theorem Wired.next (h : e.Wired db w) {batch : List ChatMsg}
    (hbatch : ∀ m ∈ batch, m ∈ db.roomMsgs e.roomId) : (e.next batch).Wired db w := by
  cases batch with
  | nil => exact h.goto nofun rfl h.rest
  | cons m rest =>
    refine ⟨h.frames, fun cur rest' heq => ?_, h.rest⟩
    cases heq
    exact hbatch

/-- A write of a comment, or of nothing. -/
theorem Wired.writes_other {outs : List SendOutcome} {r : Sent} (h : e.Wired db w)
    (hpc : ∀ cur rest, e.pc ≠ .send cur rest) (hwrites : e.writes outs = some r)
    (hdead : w.broken = true → Dead outs) :
    wireEvents (w.add r).bytes = wireEvents w.bytes
    ∧ ((w.add r).broken = false → AtRest (w.add r).bytes) := by
  have hcomment : ∀ text, (∀ b ∈ text, b ≠ 10 ∧ b ≠ 13) → httpSseComment outs text = some r →
      wireEvents (w.add r).bytes = wireEvents w.bytes
      ∧ ((w.add r).broken = false → AtRest (w.add r).bytes) := by
    intro text htext hsend
    have hwrite := (framed_comment htext).write h.rest (sendParts_spec _ hsend)
      (fun hbroken => sendParts_dead _ (hdead hbroken) hsend)
    rw [ite_self, List.append_nil] at hwrite
    exact hwrite
  unfold Sse.writes at hwrites
  split at hwrites
  · exact hcomment _ (by decide +kernel) hwrites
  · exact hcomment _ (by decide +kernel) hwrites
  · rename_i cur rest hsend
    exact absurd hsend (hpc cur rest)
  · cases hwrites
    have hsame : w.add ⟨[], true, outs⟩ = w := by
      show (⟨w.bytes ++ [], w.broken || false⟩ : Wire) = w
      rw [List.append_nil, Bool.or_false]
    rw [hsame]
    exact ⟨rfl, h.rest⟩

/-- What `http_sse_send` returns decides how the loop goes on. -/
theorem step_sending {sh : Shared} {bytes : Nat} {shutdown : Bool} {choice : Choice} {e' : Sse} {op : Op}
    {cur : ChatMsg} {rest : List ChatMsg} (hpc : e.pc = .send cur rest)
    (h : e.step sh bytes shutdown choice = some (some e', op)) :
    choice = .sent true ∧ e' = ({ e with sent := e.sent ++ [cur.id] } : Sse).next rest
    ∨ choice = .sent false ∧ e' = { e with pc := .unsubscribe } := by
  unfold Sse.step at h
  rw [hpc] at h
  cases choice with
  | sent ok =>
    cases ok with
    | true =>
      cases h
      exact Or.inl ⟨rfl, rfl⟩
    | false =>
      cases h
      exact Or.inr ⟨rfl, rfl⟩
  | _ => exact absurd h nofun

theorem mem_messagesSince (hdb : db.Wf) {roomId afterId : Int} {limit max : Nat} {m : ChatMsg}
    (hm : m ∈ chatDbMessagesSince db roomId afterId limit max) : m ∈ db.roomMsgs roomId := by
  rw [messagesSince_eq hdb] at hm
  obtain ⟨row, hrow, rfl⟩ := List.mem_map.mp hm
  exact List.mem_map_of_mem (List.mem_of_mem_filter (List.mem_of_mem_take hrow))

/-- **One step of the stream.** -/
theorem Wired.step {sh : Shared} {bytes : Nat} {shutdown : Bool} {choice : Choice} {e' : Sse} {op : Op}
    {outs : List SendOutcome} {r : Sent} (hdb : sh.db.Wf) (h : e.Wired sh.db w)
    (hwrites : e.writes outs = some r) (hagrees : choice.agrees r.ok = true)
    (hdead : w.broken = true → Dead outs)
    (hstep : e.step sh bytes shutdown choice = some (some e', op)) : e'.Wired sh.db (w.add r) := by
  by_cases hsend : ∃ cur rest, e.pc = .send cur rest
  · obtain ⟨cur, rest, hpc⟩ := hsend
    have hbatch := h.batch cur rest hpc
    have hsent : Http.httpSseSend outs (frameData cur) = some r := by
      unfold Sse.writes at hwrites
      rw [hpc] at hwrites
      exact hwrites
    obtain ⟨hevents, hrest⟩ := (framed_data cur).write h.rest (sendParts_spec _ hsent)
      (fun hbroken => sendParts_dead _ (hdead hbroken) hsent)
    rcases step_sending hpc hstep with ⟨hchoice, rfl⟩ | ⟨hchoice, rfl⟩
    · -- the frame is out: the client has one event more
      rw [hchoice] at hagrees
      have hok : r.ok = true := (beq_iff_eq.mp hagrees).symm
      rw [if_pos hok] at hevents
      obtain ⟨msgs, hids, hmem, hold⟩ := h.frames
      refine Wired.next ⟨⟨msgs ++ [cur], ?_, ?_, ?_⟩, fun cur' rest' heq => ?_, hrest⟩ ?_
      · rw [List.map_append, hids]
        rfl
      · intro m hm
        rcases List.mem_append.mp hm with hm | hm
        · exact hmem m hm
        · rw [List.mem_singleton.mp hm]
          exact hbatch cur List.mem_cons_self
      · rw [hevents, hold, List.map_append]
        rfl
      · cases hpc.symm.trans heq
        exact hbatch
      · exact fun m hm => hbatch m (List.mem_cons_of_mem _ hm)
    · rw [hchoice] at hagrees
      have hok : ¬ r.ok = true := by
        rw [← beq_iff_eq.mp hagrees]
        exact nofun
      rw [if_neg hok, List.append_nil] at hevents
      exact h.goto nofun hevents hrest
  · have hpc : ∀ cur rest, e.pc ≠ .send cur rest := fun cur rest heq => hsend ⟨cur, rest, heq⟩
    obtain ⟨hevents, hrest⟩ := h.writes_other hpc hwrites hdead
    cases step_kind hstep with
    | tail hpc' =>
      obtain ⟨⟨msgs, hids, hmem, hold⟩, -, -⟩ := h
      exact ⟨⟨msgs, hids, hmem, hevents.trans hold⟩, nofun, hrest⟩
    | goes hgoes => exact h.goto hgoes.noSend hevents hrest
    | pull hpc' =>
      have hnow : Sse.Wired sh.db (w.add r) { e with pulled := true } := by
        obtain ⟨⟨msgs, hids, hmem, hold⟩, -, -⟩ := h
        exact ⟨⟨msgs, hids, hmem, hevents.trans hold⟩, fun cur rest heq => absurd heq (hpc cur rest),
          hrest⟩
      exact hnow.next (fun m hm => mem_messagesSince hdb hm)
    | sent cur rest hpc' => exact absurd hpc' (hpc cur rest)

/-- The request has arrived and the head has been sent, or a part of it. -/
theorem wired_start {outs : List SendOutcome} {r : Sent} (hsend : httpSseBegin outs = some r)
    (roomId : Int) (query : List UInt8) :
    (handleSse roomId query).Wired db (Wire.add ⟨[], false⟩ r) := by
  obtain ⟨head, hhead⟩ := readHead_sseHead
  have hof : r.Of sseHead := sendAll_spec outs hsend
  unfold Sent.Of at hof
  have hbytes : (Wire.add ⟨[], false⟩ r).bytes = r.bytes := rfl
  have hevents : wireEvents r.bytes = [] := by
    unfold wireEvents
    split_ifs at hof with hok
    · rw [hof, hhead]
      rfl
    · rw [readHead_part hhead hof.1 hof.2]
      rfl
  refine ⟨⟨[], rfl, nofun, by rw [hbytes]; exact hevents⟩, nofun, ?_⟩
  intro hnot
  have hok : r.ok = true := by
    have hnot : (false || !r.ok) = false := hnot
    rw [Bool.false_or, Bool.not_eq_false'] at hnot
    exact hnot
  rw [if_pos hok] at hof
  rw [hbytes, hof]
  exact ⟨head, [], hhead, rfl⟩

end Sse

/-! ## §5. Every run. -/

/-- What the client of a connection has got. -/
def Prog.Wired (db : ChatDb) (w : Wire) : Prog → Prop
  | .unused | .http .request => w = ⟨[], false⟩
  | .http (.events e) => e.Wired db w
  | _ => True

/-- **One step of the server.** -/
theorem wired_step {rooms : List ChatRoom} {x : Nat} {s s' : Sys} {w w' : Wire} {act : Act}
    {outs : List SendOutcome} (hs : s.Sound) (h : (s.conns x).prog.Wired s.sh.db w)
    (hstep : (wireSystem rooms x).step (s, w) (act, outs) = some (s', w'))
    (hlasting : Lasting (s, w) (act, outs) (s', w')) : (s'.conns x).prog.Wired s'.sh.db w' := by
  obtain ⟨hsys, r, hwrites, rfl⟩ := wireSystem_step hstep
  have hgrow : ∀ {e : Sse} {w : Wire}, e.Wired s.sh.db w → e.Wired s'.sh.db w := by
    intro e w he
    obtain ⟨suf, hsuf⟩ := Sys.step_roomMsgs hs hsys e.roomId
    refine he.grow fun m hm => ?_
    rw [hsuf]
    exact List.mem_append_left _ hm
  cases Sys.step_conn hsys x with
  | other n down hact hconn hn =>
    have hprog : (s'.conns x).prog = (s.conns x).prog := by rw [hconn]
    rw [wireWrites_other hact hwrites, hprog]
    cases hp : (s.conns x).prog with
    | http k =>
      rw [hp] at h
      cases k with
      | events e => exact hgrow h
      | request => exact h
      | _ => exact trivial
    | unused =>
      rw [hp] at h
      exact h
    | _ => exact trivial
  | connect p hp hunused hprog =>
    rw [hunused] at h
    have hw : w = ⟨[], false⟩ := h
    -- nothing is written before the request has been read
    have hsame : w.add r = w := by
      cases act with
      | run z choice =>
        by_cases hz : z = x
        · obtain rfl := hz
          have hown := (wireWrites_own hwrites).1
          rw [hunused] at hown
          cases hown
          rw [hw]
          rfl
        · refine wireWrites_other ?_ hwrites w
          intro hact
          exact hz (Option.some.inj hact)
      | _ =>
        cases hwrites
        rw [hw]
        rfl
    rw [hsame, hprog, hw]
    rcases hp with rfl | rfl
    · exact trivial
    · exact rfl
  | run choice p' op s1 hact hprog happly hs' =>
    rw [hact] at hwrites
    obtain ⟨hown, hagrees⟩ := wireWrites_own hwrites
    have hp' : (s'.conns x).prog = p' := by rw [hs', Sys.setProg_conn]
    rw [hp'] at hown ⊢
    cases progStep_stepped hprog with
    | routeEvents roomId query hreq =>
      rw [hreq] at h hown
      have hw : w = ⟨[], false⟩ := h
      rw [hw]
      exact Sse.wired_start hown roomId query
    | events e e' op hevents hestep =>
      rw [hevents] at h hown
      exact hgrow (Sse.Wired.step hs.db h hown hagrees hlasting hestep)
    | _ => exact trivial

/-- Equal images under a function that tells the elements apart. -/
theorem prefix_of_map {α β : Type} {f : α → β} :
    ∀ {l m : List α}, (∀ a ∈ l, ∀ b ∈ m, f a = f b → a = b) → l.map f <+: m.map f → l <+: m
  | [], _, _, _ => List.nil_prefix
  | a :: l, [], _, h => absurd (List.prefix_nil.mp h) nofun
  | a :: l, b :: m, hinj, h => by
    rw [List.map_cons, List.map_cons, List.cons_prefix_cons] at h
    rw [hinj a List.mem_cons_self b List.mem_cons_self h.1, List.cons_prefix_cons]
    exact ⟨rfl, prefix_of_map
      (fun x hx y hy => hinj x (List.mem_cons_of_mem _ hx) y (List.mem_cons_of_mem _ hy)) h.2⟩

/-- Frames and comments that are accepted in full. -/
def acceptedParts (parts : List (List UInt8)) : List SendOutcome :=
  parts.map fun p => .accepted p.length

/-- A client opens a stream; another posts, and the frame is accepted in pieces. -/
def pieceActs : List (Act × List SendOutcome) :=
  [(.connectHttp 0 0, []), (.run 0 (.eventsRequest 1 []), [.accepted 20, .interrupted, .accepted 113]),
    (.run 0 .go, []), (.run 0 .go, []), (.run 0 .go, []),
    (.run 0 .go, acceptedParts [ascii ": ", ascii "connected", ascii "\n\n"])]
  ++ (postActs 1 1).map (·, [])
  ++ [(.run 0 .go, []), (.run 0 .readable, []), (.run 0 .go, []), (.run 0 .go, []), (.run 0 .go, []),
    (.run 0 .go, []),
    (.run 0 (.sent true), [.accepted 6, .accepted 10, .accepted 0, .interrupted, .accepted 30, .accepted 1,
      .accepted 1])]

/-- The message of `postActs`. -/
def postedMsg : ChatMsg := ⟨1, ascii "ann", 0, ascii "hi"⟩

end NetServer.Chat
