/-
  NetServer.Telnet.Output — the send buffer of a telnet session.

  `telnet_session_send` appends to `send_buf` and flushes.  The flush keeps
  its progress in a local, `written`, and resets `send_len` only when the
  whole batch has left; on an error it returns with the buffer as it was.

  None of these functions looks at the bytes, so the model is generic in
  them.  `byteQueue` is the code; `numberedSend` is the same code on bytes
  that carry their place in the concatenation of all payloads, with the list
  of those the kernel has accepted beside it.

    • `numbered_erase` — without the numbers it is the code;
    • `outbox_of_reachable` — what every reachable state keeps;
    • `send_stream` — the accepted bytes are in order and none is repeated,
      exactly when nothing is accepted after an error that cut a batch.
-/
import Mathlib.Data.List.Sort
import NetServer.Lib.TransitionSystem

namespace NetServer.Telnet

open NetServer.Lib

/-! ## §1. The send buffer. -/

/-- `TELNET_SEND_BUFSZ`. -/
def telnetSendBufsz : Nat := 8192

/-- `send_buf[0 .. send_len)` and, inside `session_flush`, its `written`. -/
structure SendQueue (α : Type) where
  sendBuf : List α
  written : Option Nat
  deriving Repr, DecidableEq

/-- What `send` returns. -/
inductive SendOutcome where
  /-- A count, possibly short. -/
  | accepted (n : Nat)
  /-- -1 with EINTR. -/
  | interrupted
  /-- -1 with another error. -/
  | failed
  deriving Repr, DecidableEq

/-- A call of `telnet_session_send`, or the return of a `send` it makes. -/
inductive SendInput (α : Type) where
  | send (data : List α)
  | outcome (o : SendOutcome)
  deriving Repr, DecidableEq

section Generic

variable {α β : Type}

/-- `session_append`; `none` is -1. -/
def sessionAppend (buf data : List α) : Option (List α) :=
  if buf.length + data.length > telnetSendBufsz then none else some (buf ++ data)

/-- The head of the loop of `session_flush`: call `send` again, or reset
`send_len` and return. -/
def flushLoop (buf : List α) (written : Nat) : SendQueue α :=
  if written < buf.length then { sendBuf := buf, written := some written }
  else { sendBuf := [], written := none }

/-- One step of the session's thread.  `telnet_session_send` ignores what
`session_append` returns, so a payload that does not fit is dropped and the
rest is flushed all the same. -/
def sendStep (q : SendQueue α) : SendInput α → Option (SendQueue α)
  | .send data =>
      match q.written with
      | some _ => none
      | none =>
          if data.length = 0 then some q
          else some (flushLoop ((sessionAppend q.sendBuf data).getD q.sendBuf) 0)
  | .outcome o =>
      match q.written with
      | none => none
      | some w =>
          match o with
          | .accepted n =>
              if w + n ≤ q.sendBuf.length then some (flushLoop q.sendBuf (w + n)) else none
          | .interrupted => some q
          | .failed => some { q with written := none }

/-- The bytes a step hands to the kernel. -/
def acceptedBy (q : SendQueue α) : SendInput α → List α
  | .outcome (.accepted n) => (q.sendBuf.drop (q.written.getD 0)).take n
  | _ => []

def SendQueue.map (f : α → β) (q : SendQueue α) : SendQueue β :=
  { sendBuf := q.sendBuf.map f, written := q.written }

def SendInput.map (f : α → β) : SendInput α → SendInput β
  | .send data => .send (data.map f)
  | .outcome o => .outcome o

theorem flushLoop_map (f : α → β) (buf : List α) (w : Nat) :
    flushLoop (buf.map f) w = (flushLoop buf w).map f := by
  unfold flushLoop SendQueue.map
  rw [List.length_map]
  split_ifs <;> rfl

theorem sessionAppend_map (f : α → β) (buf data : List α) :
    (sessionAppend (buf.map f) (data.map f)).getD (buf.map f)
      = ((sessionAppend buf data).getD buf).map f := by
  unfold sessionAppend
  rw [List.length_map, List.length_map]
  split_ifs
  · rfl
  · exact List.map_append.symm

/-- **The code does not look at the bytes.** -/
theorem sendStep_map (f : α → β) (q : SendQueue α) (i : SendInput α) :
    sendStep (q.map f) (i.map f) = (sendStep q i).map (SendQueue.map f)
      ∧ acceptedBy (q.map f) (i.map f) = (acceptedBy q i).map f := by
  obtain ⟨buf, written⟩ := q
  cases i with
  | send data =>
      refine ⟨?_, rfl⟩
      cases written with
      | some w => rfl
      | none =>
          simp only [sendStep, SendInput.map, SendQueue.map, List.length_map]
          split_ifs
          · rfl
          · rw [sessionAppend_map, flushLoop_map]
            rfl
  | outcome o =>
      cases written with
      | none =>
          refine ⟨rfl, ?_⟩
          cases o with
          | accepted n => simp [acceptedBy, SendInput.map, SendQueue.map, List.map_take]
          | interrupted => rfl
          | failed => rfl
      | some w =>
          cases o with
          | accepted n =>
              refine ⟨?_, ?_⟩
              · simp only [sendStep, SendInput.map, SendQueue.map, List.length_map]
                split_ifs
                · rw [flushLoop_map]
                  rfl
                · rfl
              · simp [acceptedBy, SendInput.map, SendQueue.map, List.map_take]
          | interrupted => exact ⟨rfl, rfl⟩
          | failed => exact ⟨rfl, rfl⟩

end Generic

/-! ## §2. Numbered bytes. -/

/-- The queue on numbered bytes, all payload bytes so far, and the bytes the
kernel has accepted, in order. -/
structure Outbox where
  queue : SendQueue (UInt8 × Nat)
  handed : List UInt8
  sent : List (UInt8 × Nat)
  deriving Repr, DecidableEq

/-- Number the payload from `k` on. -/
def SendInput.numbered (k : Nat) : SendInput UInt8 → SendInput (UInt8 × Nat)
  | .send data => .send (data.zipIdx k)
  | .outcome o => .outcome o

/-- The payload of a call. -/
def SendInput.payload : SendInput UInt8 → List UInt8
  | .send data => data
  | .outcome _ => []

def outboxStep (s : Outbox) (i : SendInput UInt8) : Option Outbox :=
  (sendStep s.queue (i.numbered s.handed.length)).map fun q =>
    { queue := q
      handed := s.handed ++ i.payload
      sent := s.sent ++ acceptedBy s.queue (i.numbered s.handed.length) }

/-- A session's output from its creation on. -/
def numberedSend : TransitionSystem Outbox (SendInput UInt8) where
  init := fun s => s = { queue := ⟨[], none⟩, handed := [], sent := [] }
  step := outboxStep

/-- The code itself, on bytes. -/
def byteQueue : TransitionSystem (SendQueue UInt8) (SendInput UInt8) where
  init := fun q => q = ⟨[], none⟩
  step := sendStep

/-- **Without the numbers it is the code**: the same steps are enabled, lead to
the same queue and hand over the same bytes. -/
theorem numbered_erase (s : Outbox) (i : SendInput UInt8) :
    byteQueue.step (s.queue.map Prod.fst) i
        = (numberedSend.step s i).map (fun s' => s'.queue.map Prod.fst)
      ∧ ∀ s', numberedSend.step s i = some s' →
          s'.sent.map Prod.fst
            = s.sent.map Prod.fst ++ acceptedBy (s.queue.map Prod.fst) i := by
  have herase : (i.numbered s.handed.length).map Prod.fst = i := by
    cases i with
    | send data => simp [SendInput.numbered, SendInput.map, List.zipIdx_map_fst]
    | outcome o => rfl
  obtain ⟨hstep, hacc⟩ := sendStep_map Prod.fst s.queue (i.numbered s.handed.length)
  rw [herase] at hstep hacc
  refine ⟨?_, ?_⟩
  · show sendStep _ i = Option.map _ (outboxStep s i)
    rw [hstep]
    unfold outboxStep
    rw [Option.map_map]
    rfl
  · intro s' hs'
    obtain ⟨q, -, rfl⟩ := Option.map_eq_some_iff.mp hs'
    rw [hacc, ← List.map_append]

/-! ## §3. What `send` has returned so far. -/

/-- The history of the outcomes: whether the current flush has got bytes
accepted, whether some flush failed after that, and whether bytes were
accepted after such a failure. -/
structure FlushHistory where
  partly : Bool
  torn : Bool
  resent : Bool
  deriving Repr, DecidableEq

/-- The history after an input; it reads the calls and the outcomes only. -/
def flushWatch (_ : Outbox) : SendInput UInt8 → FlushHistory → FlushHistory
  | .send _, h => { h with partly := false }
  | .outcome (.accepted n), h =>
      if n = 0 then h else { h with partly := true, resent := h.resent || h.torn }
  | .outcome .interrupted, h => h
  | .outcome .failed, h => { h with partly := false, torn := h.torn || h.partly }

/-- The output of a session with the history of its `send` calls. -/
def watchedSend : TransitionSystem (Outbox × FlushHistory) (SendInput UInt8) :=
  numberedSend.monitored (fun _ => ⟨false, false, false⟩) flushWatch

/-! ## §4. The invariant. -/

/-- Numbers grow along the list. -/
def InOrder (l : List (UInt8 × Nat)) : Prop := l.Pairwise (fun x y => x.2 < y.2)

/-- Every numbered byte is the payload byte of that number. -/
def Genuine (handed : List UInt8) (l : List (UInt8 × Nat)) : Prop :=
  ∀ x ∈ l, handed[x.2]? = some x.1

/-- The part of the buffer that the current flush has not handed over. -/
def SendQueue.unsent {α : Type} (q : SendQueue α) : List α := q.sendBuf.drop (q.written.getD 0)

/-- The buffer holds payload bytes in order, within its bounds, and what was
accepted were payload bytes. -/
structure Outbox.Wf (s : Outbox) : Prop where
  fits : s.queue.sendBuf.length ≤ telnetSendBufsz
  ordered : InOrder s.queue.sendBuf
  queued : Genuine s.handed s.queue.sendBuf
  sent : Genuine s.handed s.sent

/-- While no batch is torn, all that has left is below all that has not. -/
structure Whole (s : Outbox) (h : FlushHistory) : Prop where
  inOrder : InOrder s.sent
  below : ∀ x ∈ s.sent, ∀ y ∈ s.queue.unsent, x.2 < y.2
  partly : h.partly = true → ∀ w, s.queue.written = some w →
    ∃ x ∈ s.sent, s.queue.sendBuf.head? = some x
  start : h.partly = false → s.queue.written.getD 0 = 0

/-- After a torn batch, its first byte has left and is still in the buffer. -/
structure Torn (s : Outbox) (h : FlushHistory) : Prop where
  inOrder : InOrder s.sent
  again : ∃ x ∈ s.sent, s.queue.sendBuf.head? = some x
  start : s.queue.written.getD 0 = 0
  partly : h.partly = false

/-- What the history says of the output. -/
def Outbox.Follows (s : Outbox) (h : FlushHistory) : Prop :=
  if h.resent then ¬ InOrder s.sent
  else if h.torn then Torn s h
  else Whole s h

theorem inOrder_append {l m : List (UInt8 × Nat)} :
    InOrder (l ++ m) ↔ InOrder l ∧ InOrder m ∧ ∀ x ∈ l, ∀ y ∈ m, x.2 < y.2 :=
  List.pairwise_append

theorem genuine_append {handed : List UInt8} {l m : List (UInt8 × Nat)}
    (hl : Genuine handed l) (hm : Genuine handed m) : Genuine handed (l ++ m) := by
  intro x hx
  rcases List.mem_append.mp hx with h | h
  · exact hl x h
  · exact hm x h

/-- More payload leaves the earlier numbers alone. -/
theorem genuine_grow {handed : List UInt8} {l : List (UInt8 × Nat)} (h : Genuine handed l)
    (data : List UInt8) : Genuine (handed ++ data) l := by
  intro x hx
  have hlt : x.2 < handed.length := (List.getElem?_eq_some_iff.mp (h x hx)).1
  rw [List.getElem?_append_left hlt]
  exact h x hx

theorem genuine_lt {handed : List UInt8} {l : List (UInt8 × Nat)} (h : Genuine handed l)
    {x : UInt8 × Nat} (hx : x ∈ l) : x.2 < handed.length :=
  (List.getElem?_eq_some_iff.mp (h x hx)).1

/-- A payload numbered from the end of what was handed over before. -/
theorem zipIdx_genuine (handed data : List UInt8) :
    Genuine (handed ++ data) (data.zipIdx handed.length) := by
  intro x hx
  obtain ⟨hle, hval⟩ := List.mem_zipIdx_iff_le_and_getElem?_sub.mp hx
  rw [List.getElem?_append_right hle]
  exact hval

theorem zipIdx_inOrder (data : List UInt8) (k : Nat) : InOrder (data.zipIdx k) := by
  induction data generalizing k with
  | nil => exact List.Pairwise.nil
  | cons b data ih =>
      rw [List.zipIdx_cons]
      refine List.Pairwise.cons ?_ (ih (k + 1))
      intro x hx
      exact (List.mem_zipIdx_iff_le_and_getElem?_sub.mp hx).1

/-- Head of the loop: what is left to hand over. -/
@[simp] theorem unsent_flushLoop {α : Type} (buf : List α) (w : Nat) :
    (flushLoop buf w).unsent = buf.drop w := by
  unfold flushLoop SendQueue.unsent
  split_ifs with hlt
  · rfl
  · exact (List.drop_eq_nil_of_le (by omega)).symm

theorem unsent_written {α : Type} {q : SendQueue α} {w : Nat} (h : q.written.getD 0 = w) :
    q.unsent = q.sendBuf.drop w := by
  unfold SendQueue.unsent
  rw [h]

/-- The flush leaves the buffer alone or empties it. -/
theorem flushLoop_sendBuf {α : Type} (buf : List α) (w : Nat) :
    ((flushLoop buf w).sendBuf = buf ∧ (flushLoop buf w).written = some w ∧ w < buf.length)
      ∨ ((flushLoop buf w).sendBuf = [] ∧ (flushLoop buf w).written = none ∧ buf.length ≤ w) := by
  unfold flushLoop
  split_ifs with hlt
  · exact Or.inl ⟨rfl, rfl, hlt⟩
  · exact Or.inr ⟨rfl, rfl, by omega⟩

/-- Everything a step can do. -/
inductive Outbox.StepKind (s : Outbox) : SendInput UInt8 → Outbox → Prop where
  | empty : s.queue.written = none → StepKind s (.send []) s
  | call (data : List UInt8) (buf : List (UInt8 × Nat)) : s.queue.written = none → data ≠ [] →
      (buf = s.queue.sendBuf
        ∨ (buf = s.queue.sendBuf ++ data.zipIdx s.handed.length
          ∧ buf.length ≤ telnetSendBufsz)) →
      StepKind s (.send data)
        { queue := flushLoop buf 0, handed := s.handed ++ data, sent := s.sent }
  | accepted (w n : Nat) : s.queue.written = some w → w + n ≤ s.queue.sendBuf.length →
      StepKind s (.outcome (.accepted n))
        { s with
          queue := flushLoop s.queue.sendBuf (w + n)
          sent := s.sent ++ (s.queue.sendBuf.drop w).take n }
  | interrupted : StepKind s (.outcome .interrupted) s
  | failed (w : Nat) : s.queue.written = some w →
      StepKind s (.outcome .failed) { s with queue := { s.queue with written := none } }

theorem outboxStep_kind {s s' : Outbox} {i : SendInput UInt8} (h : outboxStep s i = some s') :
    s.StepKind i s' := by
  obtain ⟨⟨buf, written⟩, handed, sent⟩ := s
  cases i with
  | send data =>
      cases written with
      | some w => cases h
      | none =>
          by_cases h0 : data = []
          · subst h0
            obtain rfl : _ = s' := Option.some.inj h
            simp only [SendInput.payload, acceptedBy, SendInput.numbered, List.append_nil]
            exact .empty rfl
          · have hlen : (data.zipIdx handed.length).length ≠ 0 := by
              rw [List.length_zipIdx]
              exact fun hz => h0 (List.length_eq_zero_iff.mp hz)
            simp only [outboxStep, SendInput.numbered, sendStep, if_neg hlen, Option.map_some,
              SendInput.payload, acceptedBy, List.append_nil] at h
            obtain rfl : _ = s' := Option.some.inj h
            refine .call data _ rfl h0 ?_
            -- `session_append` took the payload, or left the buffer as it was
            unfold sessionAppend
            split_ifs with hfull
            · exact Or.inl rfl
            · refine Or.inr ⟨rfl, ?_⟩
              show (buf ++ data.zipIdx handed.length).length ≤ telnetSendBufsz
              rw [List.length_append]
              omega
  | outcome o =>
      cases written with
      | none => cases h
      | some w =>
          cases o with
          | accepted n =>
              simp only [outboxStep, SendInput.numbered, sendStep, SendInput.payload,
                List.append_nil] at h
              split_ifs at h with hle
              · obtain rfl : _ = s' := Option.some.inj h
                exact .accepted w n rfl hle
              · cases h
          | interrupted =>
              simp only [outboxStep, SendInput.numbered, sendStep, SendInput.payload, acceptedBy,
                List.append_nil, Option.map_some] at h
              obtain rfl : _ = s' := Option.some.inj h
              exact .interrupted
          | failed =>
              simp only [outboxStep, SendInput.numbered, sendStep, SendInput.payload, acceptedBy,
                List.append_nil, Option.map_some] at h
              obtain rfl : _ = s' := Option.some.inj h
              exact .failed w rfl

/-! ## §5. Steps and runs. -/

/-- A flush of a sound buffer leaves a sound one. -/
theorem wf_flushLoop {handed : List UInt8} {buf : List (UInt8 × Nat)} {sent : List (UInt8 × Nat)}
    (w : Nat) (hfits : buf.length ≤ telnetSendBufsz) (hord : InOrder buf)
    (hbuf : Genuine handed buf) (hsent : Genuine handed sent) :
    Outbox.Wf { queue := flushLoop buf w, handed := handed, sent := sent } := by
  rcases flushLoop_sendBuf buf w with ⟨heq, -, -⟩ | ⟨heq, -, -⟩
  · exact ⟨by rw [heq]; exact hfits, by rw [heq]; exact hord, by rw [heq]; exact hbuf, hsent⟩
  · refine ⟨?_, ?_, ?_, hsent⟩
    · rw [heq]
      exact Nat.zero_le _
    · rw [heq]
      exact List.Pairwise.nil
    · rw [heq]
      exact nofun

theorem Outbox.StepKind.wf {s s' : Outbox} {i : SendInput UInt8} (h : s.StepKind i s')
    (hs : s.Wf) : s'.Wf := by
  cases h with
  | empty hidle => exact hs
  | call data buf hidle hne hbuf =>
      have hgrow := genuine_grow hs.queued data
      have hsent := genuine_grow hs.sent data
      rcases hbuf with rfl | ⟨rfl, hfits⟩
      · exact wf_flushLoop 0 hs.fits hs.ordered hgrow hsent
      · refine wf_flushLoop 0 hfits ?_ (genuine_append hgrow (zipIdx_genuine _ _)) hsent
        refine inOrder_append.mpr ⟨hs.ordered, zipIdx_inOrder _ _, ?_⟩
        intro x hx y hy
        exact Nat.lt_of_lt_of_le (genuine_lt hs.queued hx)
          (List.mem_zipIdx_iff_le_and_getElem?_sub.mp hy).1
  | accepted w n hw hle =>
      refine wf_flushLoop (w + n) hs.fits hs.ordered hs.queued (genuine_append hs.sent ?_)
      intro x hx
      exact hs.queued x (List.mem_of_mem_drop (List.mem_of_mem_take hx))
  | interrupted => exact hs
  | failed w hw => exact ⟨hs.fits, hs.ordered, hs.queued, hs.sent⟩

/-- A call while no batch is torn: the new bytes come after all others. -/
theorem Whole.call {s : Outbox} {h : FlushHistory} {data : List UInt8}
    {buf : List (UInt8 × Nat)} (hs : s.Wf) (hwhole : Whole s h) (hidle : s.queue.written = none)
    (hbuf : buf = s.queue.sendBuf
      ∨ (buf = s.queue.sendBuf ++ data.zipIdx s.handed.length ∧ buf.length ≤ telnetSendBufsz)) :
    Whole { queue := flushLoop buf 0, handed := s.handed ++ data, sent := s.sent }
      { h with partly := false } := by
  have hold : ∀ x ∈ s.sent, ∀ y ∈ s.queue.sendBuf, x.2 < y.2 := by
    intro x hx y hy
    apply hwhole.below x hx y
    rw [unsent_written (show _ = 0 by rw [hidle]; rfl)]
    exact hy
  refine ⟨hwhole.inOrder, ?_, fun hp => absurd hp nofun, ?_⟩
  · intro x hx y hy
    rw [unsent_flushLoop, List.drop_zero] at hy
    rcases hbuf with rfl | ⟨rfl, -⟩
    · exact hold x hx y hy
    · rcases List.mem_append.mp hy with hy | hy
      · exact hold x hx y hy
      · exact Nat.lt_of_lt_of_le (genuine_lt hs.sent hx)
          (List.mem_zipIdx_iff_le_and_getElem?_sub.mp hy).1
  · intro _
    rcases flushLoop_sendBuf buf 0 with ⟨-, hw, -⟩ | ⟨-, hw, -⟩
    · exact congrArg (fun o : Option Nat => o.getD 0) hw
    · exact congrArg (fun o : Option Nat => o.getD 0) hw

/-- Once a byte of a flush has left, the first one of its batch has. -/
theorem Whole.head_left {s : Outbox} {h : FlushHistory} {w n : Nat} (hwhole : Whole s h)
    (hw : s.queue.written = some w) (hn : n ≠ 0) (hle : w + n ≤ s.queue.sendBuf.length) :
    ∃ x ∈ s.sent ++ (s.queue.sendBuf.drop w).take n, s.queue.sendBuf.head? = some x := by
  cases hp : h.partly with
  | true =>
      -- it left in an earlier step of the flush
      obtain ⟨x, hx, hhead⟩ := hwhole.partly hp w hw
      exact ⟨x, List.mem_append_left _ hx, hhead⟩
  | false =>
      have hw0 : w = 0 := by
        have hstart := hwhole.start hp
        rw [hw] at hstart
        exact hstart
      subst hw0
      cases hbuf : s.queue.sendBuf with
      | nil =>
          rw [hbuf, List.length_nil] at hle
          omega
      | cons x rest =>
          refine ⟨x, List.mem_append_right _ ?_, rfl⟩
          rw [List.drop_zero]
          obtain ⟨m, rfl⟩ := Nat.exists_eq_succ_of_ne_zero hn
          exact List.mem_cons_self

/-- Bytes accepted while no batch is torn are the next in order. -/
theorem Whole.accepted {s : Outbox} {h h' : FlushHistory} {w n : Nat} (hs : s.Wf)
    (hwhole : Whole s h) (hw : s.queue.written = some w) (hn : n ≠ 0)
    (hle : w + n ≤ s.queue.sendBuf.length) (hpartly : h'.partly = true) :
    Whole
      { s with
        queue := flushLoop s.queue.sendBuf (w + n)
        sent := s.sent ++ (s.queue.sendBuf.drop w).take n } h' := by
  have hunsent : s.queue.unsent = s.queue.sendBuf.drop w := unsent_written (by rw [hw]; rfl)
  have hsplit : s.queue.unsent
      = (s.queue.sendBuf.drop w).take n ++ s.queue.sendBuf.drop (w + n) := by
    rw [hunsent, ← List.drop_drop, List.take_append_drop]
  have hord : InOrder s.queue.unsent := by
    rw [hunsent]
    exact List.Pairwise.sublist (List.drop_sublist _ _) hs.ordered
  rw [hsplit] at hord
  obtain ⟨hnow, -, hlater⟩ := inOrder_append.mp hord
  have hmem : ∀ y, y ∈ (s.queue.sendBuf.drop w).take n ∨ y ∈ s.queue.sendBuf.drop (w + n) →
      y ∈ s.queue.unsent := by
    intro y hy
    rw [hsplit]
    exact List.mem_append.mpr hy
  refine ⟨?_, ?_, ?_, ?_⟩
  · refine inOrder_append.mpr ⟨hwhole.inOrder, hnow, ?_⟩
    intro x hx y hy
    exact hwhole.below x hx y (hmem y (Or.inl hy))
  · intro x hx y hy
    rw [unsent_flushLoop] at hy
    rcases List.mem_append.mp hx with hx | hx
    · exact hwhole.below x hx y (hmem y (Or.inr hy))
    · exact hlater x hx y hy
  · intro _ w' hw'
    rcases flushLoop_sendBuf s.queue.sendBuf (w + n) with ⟨heq, -, -⟩ | ⟨-, hnone, -⟩
    · rw [heq]
      exact hwhole.head_left hw hn hle
    · rw [hnone] at hw'
      cases hw'
  · intro hp
    rw [hpartly] at hp
    cases hp

/-- A count of 0 changes nothing. -/
theorem Whole.acceptedNone {s : Outbox} {h : FlushHistory} {w : Nat} (hwhole : Whole s h)
    (hw : s.queue.written = some w) :
    Whole
      { s with
        queue := flushLoop s.queue.sendBuf (w + 0)
        sent := s.sent ++ (s.queue.sendBuf.drop w).take 0 } h := by
  rw [List.take_zero, List.append_nil, Nat.add_zero]
  refine ⟨hwhole.inOrder, ?_, ?_, ?_⟩
  · intro x hx y hy
    rw [unsent_flushLoop] at hy
    apply hwhole.below x hx y
    rw [unsent_written (show _ = w by rw [hw]; rfl)]
    exact hy
  · intro hp w' hw'
    rcases flushLoop_sendBuf s.queue.sendBuf w with ⟨heq, -, -⟩ | ⟨-, hnone, -⟩
    · rw [heq]
      exact hwhole.partly hp w hw
    · rw [hnone] at hw'
      cases hw'
  · intro hp
    have hstart := hwhole.start hp
    rw [hw] at hstart
    rcases flushLoop_sendBuf s.queue.sendBuf w with ⟨-, hsome, -⟩ | ⟨-, hnone, -⟩
    · rw [hsome]
      exact hstart
    · rw [hnone]
      rfl

/-- An error: a batch of which bytes have left is torn, another one waits. -/
theorem Whole.failed {s : Outbox} {partly : Bool} {w : Nat}
    (hwhole : Whole s ⟨partly, false, false⟩) (hw : s.queue.written = some w) :
    Outbox.Follows { s with queue := { s.queue with written := none } }
      ⟨false, false || partly, false⟩ := by
  cases partly with
  | true => exact ⟨hwhole.inOrder, hwhole.partly rfl w hw, rfl, rfl⟩
  | false =>
      refine ⟨hwhole.inOrder, ?_, fun hp => absurd hp nofun, fun _ => rfl⟩
      intro x hx y hy
      apply hwhole.below x hx y
      rw [unsent_written (hwhole.start rfl)]
      exact hy

/-- A flush that starts over leaves the torn batch in front. -/
theorem torn_flushLoop {s : Outbox} {h h' : FlushHistory} {buf : List (UInt8 × Nat)}
    {handed : List UInt8} (htorn : Torn s h) (hbuf : s.queue.sendBuf <+: buf)
    (hpartly : h'.partly = false) :
    Torn { queue := flushLoop buf 0, handed := handed, sent := s.sent } h' := by
  obtain ⟨x, hx, hhead⟩ := htorn.again
  have hhead' : buf.head? = some x := by
    obtain ⟨suffix, rfl⟩ := hbuf
    cases hq : s.queue.sendBuf with
    | nil =>
        rw [hq] at hhead
        cases hhead
    | cons y rest =>
        rw [hq] at hhead
        exact hhead
  rcases flushLoop_sendBuf buf 0 with ⟨heq, hw, -⟩ | ⟨-, -, hle⟩
  · refine ⟨htorn.inOrder, ⟨x, hx, ?_⟩, ?_, hpartly⟩
    · rw [heq]
      exact hhead'
    · rw [hw]
      rfl
  · have hnil : buf = [] := List.length_eq_zero_iff.mp (Nat.le_zero.mp hle)
    rw [hnil] at hhead'
    cases hhead'

/-- Bytes accepted after a torn batch are sent again. -/
theorem torn_resends {s : Outbox} {h : FlushHistory} {w n : Nat} (htorn : Torn s h)
    (hw : s.queue.written = some w) (hn : n ≠ 0) :
    ¬ InOrder (s.sent ++ (s.queue.sendBuf.drop w).take n) := by
  intro hord
  obtain ⟨x, hx, hhead⟩ := htorn.again
  have hw0 : w = 0 := by
    have hstart := htorn.start
    rw [hw] at hstart
    exact hstart
  have hx' : x ∈ (s.queue.sendBuf.drop w).take n := by
    rw [hw0, List.drop_zero]
    obtain ⟨m, rfl⟩ := Nat.exists_eq_succ_of_ne_zero hn
    cases hq : s.queue.sendBuf with
    | nil =>
        rw [hq] at hhead
        cases hhead
    | cons y rest =>
        rw [hq] at hhead
        obtain rfl : y = x := Option.some.inj hhead
        exact List.mem_cons_self
  exact absurd ((inOrder_append.mp hord).2.2 x hx x hx') (Nat.lt_irrefl _)

/-- Nothing repairs an output that is out of order. -/
theorem Outbox.StepKind.disorder {s s' : Outbox} {i : SendInput UInt8} (h : s.StepKind i s')
    (hs : ¬ InOrder s.sent) : ¬ InOrder s'.sent := by
  cases h with
  | empty hidle => exact hs
  | call data buf hidle hne hbuf => exact hs
  | accepted w n hw hle => exact fun hord => hs (inOrder_append.mp hord).1
  | interrupted => exact hs
  | failed w hw => exact hs

/-- **One step** follows the history of the outcomes. -/
theorem Outbox.StepKind.follows {s s' : Outbox} {i : SendInput UInt8} {h : FlushHistory}
    (hk : s.StepKind i s') (hs : s.Wf) (hf : s.Follows h) : s'.Follows (flushWatch s i h) := by
  obtain ⟨partly, torn, resent⟩ := h
  cases resent with
  | true =>
      have hkeep : (flushWatch s i ⟨partly, torn, true⟩).resent = true := by
        cases hk with
        | accepted w n hw hle =>
            simp only [flushWatch]
            split_ifs <;> rfl
        | _ => rfl
      unfold Outbox.Follows
      rw [if_pos hkeep]
      exact hk.disorder hf
  | false =>
    cases torn with
    | true =>
        have htorn : Torn s ⟨partly, true, false⟩ := hf
        cases hk with
        | empty hidle => exact ⟨htorn.inOrder, htorn.again, htorn.start, rfl⟩
        | call data buf hidle hne hbuf =>
            have hpre : s.queue.sendBuf <+: buf := by
              rcases hbuf with rfl | ⟨rfl, -⟩
              · exact List.prefix_refl _
              · exact List.prefix_append _ _
            exact torn_flushLoop htorn hpre rfl
        | accepted w n hw hle =>
            by_cases hn : n = 0
            · subst hn
              have hw0 : w = 0 := by
                have hstart := htorn.start
                rw [hw] at hstart
                exact hstart
              subst hw0
              show Torn _ _
              rw [List.take_zero, List.append_nil]
              exact torn_flushLoop htorn (List.prefix_refl _) htorn.partly
            · simp only [flushWatch, if_neg hn]
              exact torn_resends htorn hw hn
        | interrupted => exact htorn
        | failed w hw => exact ⟨htorn.inOrder, htorn.again, rfl, rfl⟩
    | false =>
        have hwhole : Whole s ⟨partly, false, false⟩ := hf
        cases hk with
        | empty hidle =>
            refine ⟨hwhole.inOrder, hwhole.below, fun hp => absurd hp nofun, fun _ => ?_⟩
            rw [hidle]
            rfl
        | call data buf hidle hne hbuf => exact hwhole.call hs hidle hbuf
        | accepted w n hw hle =>
            by_cases hn : n = 0
            · subst hn
              exact hwhole.acceptedNone hw
            · simp only [flushWatch, if_neg hn]
              exact hwhole.accepted hs hw hn hle rfl
        | interrupted => exact hwhole
        | failed w hw => exact hwhole.failed hw

/-- **Every run**: the buffer is sound and the output follows the outcomes. -/
theorem outbox_of_reachable {p : Outbox × FlushHistory} (h : watchedSend.Reachable p) :
    p.1.Wf ∧ p.1.Follows p.2 := by
  refine TransitionSystem.ReachableVia.invariant
    (P := fun p : Outbox × FlushHistory => p.1.Wf ∧ p.1.Follows p.2) ?_ ?_ h
  · intro p hp
    obtain ⟨hinit, hhist⟩ := hp
    obtain ⟨s, hist⟩ := p
    obtain rfl : s = ⟨⟨[], none⟩, [], []⟩ := hinit
    obtain rfl : hist = ⟨false, false, false⟩ := hhist
    refine ⟨⟨Nat.zero_le _, List.Pairwise.nil, nofun, nofun⟩, ?_⟩
    exact ⟨List.Pairwise.nil, nofun, nofun, fun _ => rfl⟩
  · intro p i p' hp hstep _
    obtain ⟨hrun, hhist⟩ := TransitionSystem.monitored_step hstep
    have hkind : p.1.StepKind i p'.1 := outboxStep_kind hrun
    refine ⟨hkind.wf hp.1, ?_⟩
    rw [hhist]
    exact hkind.follows hp.1 hp.2

/-! ## §6. The stream of accepted bytes. -/

/-- Payload bytes at growing places are a subsequence of the payloads. -/
theorem genuine_sublist {handed : List UInt8} {l : List (UInt8 × Nat)} (h : Genuine handed l)
    (hord : InOrder l) : (l.map Prod.fst).Sublist handed := by
  have hsub : l ⊆ handed.zipIdx := by
    intro x hx
    exact List.mem_zipIdx_iff_getElem?.mpr (h x hx)
  have hnodup : l.Nodup := hord.imp (fun hlt heq => absurd (heq ▸ hlt) (Nat.lt_irrefl _))
  have hperm : l.Subperm handed.zipIdx := List.subperm_of_subset hnodup hsub
  have hanti : Std.Antisymm (fun x y : UInt8 × Nat => x.2 < y.2) :=
    ⟨fun x y hxy hyx => absurd hxy (Nat.lt_asymm hyx)⟩
  have hlist := List.sublist_of_subperm_of_pairwise hperm hord (zipIdx_inOrder handed 0)
  have hmap := hlist.map Prod.fst
  rwa [List.zipIdx_map_fst] at hmap

/-- **The output stream.**  For every sequence of calls and of `send` outcomes:
the buffer stays within `TELNET_SEND_BUFSZ`; each accepted byte is the payload
byte of its number; and the numbers of the accepted bytes grow, so that no byte
leaves twice, exactly when no byte was accepted after an error that cut a
batch.  The accepted bytes are then a subsequence of the payloads. -/
theorem send_stream (s : Outbox) (h : FlushHistory) (hr : watchedSend.Reachable (s, h)) :
    s.queue.sendBuf.length ≤ telnetSendBufsz
      ∧ (∀ x ∈ s.sent, s.handed[x.2]? = some x.1)
      ∧ (s.sent.Pairwise (fun x y => x.2 < y.2) ↔ h.resent = false)
      ∧ (h.resent = false → (s.sent.map Prod.fst).Sublist s.handed) := by
  obtain ⟨hwf, hfollows⟩ := outbox_of_reachable hr
  have hiff : InOrder s.sent ↔ h.resent = false := by
    unfold Outbox.Follows at hfollows
    cases hres : h.resent with
    | true =>
        rw [if_pos hres] at hfollows
        exact ⟨fun hord => absurd hord hfollows, nofun⟩
    | false =>
        rw [if_neg (by rw [hres]; exact nofun)] at hfollows
        refine ⟨fun _ => rfl, fun _ => ?_⟩
        split_ifs at hfollows
        · exact hfollows.inOrder
        · exact hfollows.inOrder
  refine ⟨hwf.fits, hwf.sent, hiff, ?_⟩
  intro hres
  exact genuine_sublist hwf.sent (hiff.mpr hres)

/-- The state at the creation of a session. -/
def outboxStart : Outbox × FlushHistory :=
  ({ queue := ⟨[], none⟩, handed := [], sent := [] }, ⟨false, false, false⟩)

theorem outboxStart_reachable : watchedSend.Reachable outboxStart := .init ⟨rfl, rfl⟩

/-- Short counts, an interrupted call and an error before any byte of a batch:
five bytes leave in order. -/
theorem send_stream_short :
    ∃ p : Outbox × FlushHistory,
      watchedSend.run outboxStart
          [.send [104, 105], .outcome (.accepted 1), .outcome .interrupted, .outcome (.accepted 1),
            .send [33], .outcome .failed, .send [10, 13], .outcome (.accepted 3)] = some p
        ∧ p.1.sent.map Prod.fst = [104, 105, 33, 10, 13]
        ∧ p.1.sent.Pairwise (fun x y => x.2 < y.2) := by
  obtain ⟨p, hrun, hcheck⟩ := @TransitionSystem.exists_of_run _ _ watchedSend outboxStart
    [.send [104, 105], .outcome (.accepted 1), .outcome .interrupted, .outcome (.accepted 1),
      .send [33], .outcome .failed, .send [10, 13], .outcome (.accepted 3)]
    (fun p : Outbox × FlushHistory =>
      decide (p.1.sent.map Prod.fst = [104, 105, 33, 10, 13] ∧ p.2.resent = false))
    (by decide +kernel)
  obtain ⟨hsent, hres⟩ := of_decide_eq_true hcheck
  have hreach := TransitionSystem.run_reachable _ _ _ outboxStart_reachable hrun
  exact ⟨p, hrun, hsent, (send_stream p.1 p.2 hreach).2.2.1.mpr hres⟩

/-- One byte of a batch leaves, the next `send` fails, and the next call sends
the batch again from its first byte. -/
theorem send_stream_repeats :
    ∃ p : Outbox × FlushHistory,
      watchedSend.run outboxStart
          [.send [97, 98], .outcome (.accepted 1), .outcome .failed, .send [99],
            .outcome (.accepted 3)] = some p
        ∧ p.1.handed = [97, 98, 99]
        ∧ p.1.sent.map Prod.fst = [97, 97, 98, 99]
        ∧ ¬ p.1.sent.Pairwise (fun x y => x.2 < y.2) := by
  refine ⟨_, rfl, rfl, rfl, ?_⟩
  decide +kernel

end NetServer.Telnet
