/-
  NetServer.Lib.EventStream — the receiver of a `text/event-stream`.

  A line ends at CR, LF or CRLF.  A line that starts with a colon is a comment;
  any other line that is not empty is a field, and an empty one hands over the
  event whose data the fields before it have collected, if there is any.  What
  stands behind the last empty line when the stream ends is dropped.  The
  receiver is a transducer over bytes, so how its input is cut into packets cannot
  be seen.

    • `run_comment`       — a comment between two events is not seen;
    • `run_data`          — one `data:` field and an empty line are one event;
    • `run_data_part`     — as long as a byte of it is missing, they are none.
-/
import NetServer.Lib.CString
import NetServer.Lib.Transducer

namespace NetServer.Lib.EventStream

/-! ## §1. The receiver. -/

structure Event where
  type : List UInt8
  data : List UInt8
  lastId : List UInt8
  deriving Repr, DecidableEq

/-- The line being received, whether a CR has just ended one, and what the fields
have collected; `retry` is the time to wait before a new connection. -/
structure Receiver where
  line : List UInt8
  cr : Bool
  data : List UInt8
  type : List UInt8
  lastId : List UInt8
  retry : Option Nat
  deriving Repr, DecidableEq

namespace Receiver

def start : Receiver :=
  { line := [], cr := false, data := [], type := [], lastId := [], retry := none }

/-- One field. -/
def field (r : Receiver) (name value : List UInt8) : Receiver :=
  if name = ascii "data" then { r with data := r.data ++ value ++ [10] }
  else if name = ascii "event" then { r with type := value }
  else if name = ascii "id" then if 0 ∈ value then r else { r with lastId := value }
  else if name = ascii "retry" then
    if value ≠ [] ∧ value.all isDigit then { r with retry := some (decimalValue value) } else r
  else r

/-- The value behind a colon: one blank in front of it is not part of it. -/
def fieldValue (p : List UInt8) : List UInt8 := if p.head? = some 32 then p.drop 1 else p

/-- An empty line. -/
def dispatch (r : Receiver) : Receiver × List Event :=
  ({ r with data := [], type := [] },
    if r.data = [] then []
    else [⟨if r.type = [] then ascii "message" else r.type, r.data.dropLast, r.lastId⟩])

/-- A whole line. -/
def endLine (r : Receiver) (line : List UInt8) : Receiver × List Event :=
  if line = [] then r.dispatch
  else if line.head? = some 58 then (r, [])
  else
    (r.field (line.takeWhile (· ≠ 58)) (fieldValue ((line.dropWhile (· ≠ 58)).drop 1)), [])

/-- One byte. -/
def receive (r : Receiver) (b : UInt8) : Receiver × List Event :=
  if b = 10 then
    -- the LF of a CRLF
    if r.cr then ({ r with cr := false }, [])
    else { r with line := [] }.endLine r.line
  else if b = 13 then { r with line := [], cr := true }.endLine r.line
  else ({ r with line := r.line ++ [b], cr := false }, [])

/-- Between two events. -/
structure Idle (r : Receiver) : Prop where
  line : r.line = []
  cr : r.cr = false
  data : r.data = []
  type : r.type = []

theorem start_idle : start.Idle := ⟨rfl, rfl, rfl, rfl⟩

/-- An empty line ends what has been collected. -/
theorem Idle.dispatch_data {r : Receiver} (h : r.Idle) (text : List UInt8) :
    dispatch { r with data := text ++ [10] } = (r, [⟨ascii "message", text, r.lastId⟩]) := by
  obtain ⟨line, cr, data, type, lastId, retry⟩ := r
  obtain ⟨hline, hcr, hdata, htype⟩ := h
  cases hdata
  cases htype
  unfold dispatch
  rw [if_neg (by simp), if_pos rfl, List.dropLast_concat]

theorem Idle.dispatch_eq {r : Receiver} (h : r.Idle) : r.dispatch = (r, []) := by
  obtain ⟨line, cr, data, type, lastId, retry⟩ := r
  obtain ⟨hline, hcr, hdata, htype⟩ := h
  cases hdata
  cases htype
  rfl

end Receiver

/-- The receiver as a machine. -/
def receiver : Transducer Receiver UInt8 Event := ⟨Receiver.receive⟩

/-! ## §2. Lines. -/

section Lines

variable {r : Receiver} {text : List UInt8}

/-- Bytes of a line. -/
theorem run_text (hcr : r.cr = false) (htext : ∀ b ∈ text, b ≠ 10 ∧ b ≠ 13) :
    receiver.run r text = ({ r with line := r.line ++ text }, []) := by
  induction text generalizing r with
  | nil => rw [List.append_nil, Transducer.run_nil]
  | cons b p ih =>
    obtain ⟨h10, h13⟩ := htext b List.mem_cons_self
    have hstep : receiver.step r b = ({ r with line := r.line ++ [b] }, []) := by
      show r.receive b = _
      unfold Receiver.receive
      rw [if_neg h10, if_neg h13, hcr]
    have hrest := @ih { r with line := r.line ++ [b] } hcr
      (fun c hc => htext c (List.mem_cons_of_mem _ hc))
    rw [Transducer.run_cons, hstep, hrest, List.append_assoc]
    rfl

/-- A whole line and its LF. -/
theorem run_line (hline : r.line = []) (hcr : r.cr = false) (htext : ∀ b ∈ text, b ≠ 10 ∧ b ≠ 13) :
    receiver.run r (text ++ [10]) = r.endLine text := by
  have hend : receiver.step { r with line := text } 10 = r.endLine text := by
    obtain ⟨line, cr, data, type, lastId, retry⟩ := r
    cases hline
    cases hcr
    rfl
  rw [Transducer.run_append, run_text hcr htext, hline, List.nil_append, Transducer.run_cons, hend,
    Transducer.run_nil, List.append_nil, List.nil_append]

/-- The empty line that follows. -/
theorem run_empty (hline : r.line = []) (hcr : r.cr = false) : receiver.run r [10] = r.dispatch := by
  have h := @run_line r [] hline hcr nofun
  exact h

/-! ## §3. Comments and events. -/

/-- **A comment** and an empty line leave an idle receiver as it is. -/
theorem run_comment (h : r.Idle) (htext : ∀ b ∈ text, b ≠ 10 ∧ b ≠ 13) :
    receiver.run r (58 :: text ++ [10, 10]) = (r, []) := by
  have hline : receiver.run r (58 :: text ++ [10]) = (r, []) := by
    have hbytes : ∀ b ∈ (58 : UInt8) :: text, b ≠ 10 ∧ b ≠ 13 := by
      intro b hb
      rcases List.mem_cons.mp hb with rfl | hb
      · decide
      · exact htext b hb
    rw [run_line h.line h.cr hbytes]
    rfl
  have hsplit : (58 : UInt8) :: text ++ [10, 10] = (58 :: text ++ [10]) ++ [10] :=
    (List.append_assoc (58 :: text) [10] [10]).symm
  rw [hsplit, Transducer.run_append, hline, run_empty h.line h.cr, h.dispatch_eq]
  rfl

/-- The line of a `data` field. -/
theorem run_dataLine (h : r.Idle) (htext : ∀ b ∈ text, b ≠ 10 ∧ b ≠ 13) :
    receiver.run r (ascii "data: " ++ text ++ [10]) = ({ r with data := text ++ [10] }, []) := by
  have hbytes : ∀ b ∈ ascii "data: " ++ text, b ≠ 10 ∧ b ≠ 13 := by
    intro b hb
    rcases List.mem_append.mp hb with hb | hb
    · have hall : ∀ b ∈ ascii "data: ", b ≠ 10 ∧ b ≠ 13 := by decide +kernel
      exact hall b hb
    · exact htext b hb
  rw [run_line h.line h.cr hbytes]
  show ({ r with data := r.data ++ text ++ [10] }, []) = _
  rw [h.data, List.nil_append]

/-- The line and the empty one. -/
theorem data_append : ascii "data: " ++ text ++ [10, 10] = (ascii "data: " ++ text ++ [10]) ++ [10] :=
  (List.append_assoc _ [10] [10]).symm

/-- **One event**: a `data` field and an empty line. -/
theorem run_data (h : r.Idle) (htext : ∀ b ∈ text, b ≠ 10 ∧ b ≠ 13) :
    receiver.run r (ascii "data: " ++ text ++ [10, 10]) = (r, [⟨ascii "message", text, r.lastId⟩]) := by
  rw [data_append, Transducer.run_append, run_dataLine h htext,
    @run_empty { r with data := text ++ [10] } h.line h.cr, h.dispatch_data]
  rfl

/-- The events of a part of the input come first. -/
theorem run_mono {p q : List UInt8} (hp : p <+: q) :
    (receiver.run r p).2 <+: (receiver.run r q).2 := by
  obtain ⟨t, rfl⟩ := hp
  rw [Transducer.run_append]
  exact List.prefix_append _ _

/-- **No event before its last byte.** -/
theorem run_data_part (h : r.Idle) (htext : ∀ b ∈ text, b ≠ 10 ∧ b ≠ 13) {p : List UInt8}
    (hp : p <+: ascii "data: " ++ text ++ [10, 10]) (hne : p ≠ ascii "data: " ++ text ++ [10, 10]) :
    (receiver.run r p).2 = [] := by
  rw [data_append] at hp hne
  rcases List.prefix_concat_iff.mp hp with hp | hp
  · exact absurd hp hne
  · have hnone := @run_mono r _ _ hp
    rw [run_dataLine h htext] at hnone
    exact List.prefix_nil.mp hnone

end Lines

end NetServer.Lib.EventStream
