/-
  NetServer.Http.Transport — the writers of `protocol/http/http_session.c`.

  `send_all` calls `send` until its buffer is written, whatever counts the calls
  return; the other writers call it once for each part of a text.  `http_respond`
  and `http_sse_begin` do not look at what it returns, `http_sse_send` and
  `http_sse_comment` stop at the first part that fails.

  What the calls of `send` return is the list the writers run over.  Main results:

    • `sendAll_spec`, `sendParts_spec` — the bytes accepted are the whole text, or a
      proper part of it and -1;
    • `readHead_response` — the head of a response is read back.
-/
import NetServer.Chat.Json
import NetServer.Lib.HttpMessage
import NetServer.Telnet.Output

namespace NetServer.Http

open NetServer.Lib
open NetServer.Lib.HttpMessage
open NetServer.Telnet
open NetServer.Chat

/-! ## §1. `send_all`. -/

/-- How a writer returns: the bytes the kernel has accepted, whether it returned 0, and
what the next calls of `send` return. -/
structure Sent where
  bytes : List UInt8
  ok : Bool
  rest : List SendOutcome
  deriving Repr, DecidableEq

/-- Bytes accepted before. -/
def Sent.after (bytes : List UInt8) (r : Sent) : Sent := { r with bytes := bytes ++ r.bytes }

/-- `send_all`; `none` while it has not returned, or when `send` is said to accept more than
it was given. -/
def sendAll : List SendOutcome → List UInt8 → Option Sent
  | outs, [] => some ⟨[], true, outs⟩
  | [], _ :: _ => none
  | .accepted n :: outs, b :: buf =>
      if n ≤ (b :: buf).length then
        (sendAll outs ((b :: buf).drop n)).map (Sent.after ((b :: buf).take n))
      else none
  | .interrupted :: outs, b :: buf => sendAll outs (b :: buf)
  | .failed :: outs, _ :: _ => some ⟨[], false, outs⟩

/-- A text was written in full, or a proper part of it and then an error. -/
def Sent.Of (r : Sent) (text : List UInt8) : Prop :=
  if r.ok then r.bytes = text else r.bytes <+: text ∧ r.bytes ≠ text

theorem Sent.Of.after {r : Sent} {text : List UInt8} (h : r.Of text) (p : List UInt8) :
    (r.after p).Of (p ++ text) := by
  unfold Sent.Of at h ⊢
  show if r.ok then p ++ r.bytes = p ++ text else _
  split_ifs at h ⊢ with hok
  · rw [h]
  · refine ⟨(List.prefix_append_right_inj p).mpr h.1, fun heq => h.2 ?_⟩
    exact List.append_cancel_left heq

/-- **`send_all`.** -/
theorem sendAll_spec (outs : List SendOutcome) :
    ∀ {buf : List UInt8} {r : Sent}, sendAll outs buf = some r → r.Of buf := by
  induction outs with
  | nil =>
    intro buf r h
    cases buf with
    | nil =>
      cases h
      exact rfl
    | cons b buf => exact absurd h nofun
  | cons o outs ih =>
    intro buf r h
    cases buf with
    | nil =>
      cases h
      exact rfl
    | cons b buf =>
      cases o with
      | accepted n =>
        unfold sendAll at h
        obtain ⟨hn, h⟩ := Option.ite_none_right_eq_some.mp h
        obtain ⟨r', hr', rfl⟩ := Option.map_eq_some_iff.mp h
        have hafter := (ih hr').after ((b :: buf).take n)
        rwa [List.take_append_drop] at hafter
      | interrupted => exact ih h
      | failed =>
        cases h
        exact ⟨List.nil_prefix, nofun⟩

/-- The outcomes that are left come last, and an error is among those that were used. -/
theorem sendAll_rest (outs : List SendOutcome) :
    ∀ {buf : List UInt8} {r : Sent}, sendAll outs buf = some r →
      ∃ used, outs = used ++ r.rest ∧ (r.ok = false → SendOutcome.failed ∈ used) := by
  induction outs with
  | nil =>
    intro buf r h
    cases buf with
    | nil =>
      cases h
      exact ⟨[], rfl, nofun⟩
    | cons b buf => exact absurd h nofun
  | cons o outs ih =>
    intro buf r h
    cases buf with
    | nil =>
      cases h
      exact ⟨[], rfl, nofun⟩
    | cons b buf =>
      cases o with
      | accepted n =>
        unfold sendAll at h
        obtain ⟨hn, h⟩ := Option.ite_none_right_eq_some.mp h
        obtain ⟨r', hr', rfl⟩ := Option.map_eq_some_iff.mp h
        obtain ⟨used, hused, hfailed⟩ := ih hr'
        refine ⟨.accepted n :: used, by rw [hused]; rfl, fun hok => ?_⟩
        exact List.mem_cons_of_mem _ (hfailed hok)
      | interrupted =>
        obtain ⟨used, hused, hfailed⟩ := ih h
        refine ⟨.interrupted :: used, by rw [hused]; rfl, fun hok => ?_⟩
        exact List.mem_cons_of_mem _ (hfailed hok)
      | failed =>
        cases h
        exact ⟨[.failed], rfl, fun _ => List.mem_cons_self⟩

/-- `send` accepts nothing. -/
def Dead (outs : List SendOutcome) : Prop := ∀ n, SendOutcome.accepted n ∉ outs

theorem sendAll_dead (outs : List SendOutcome) :
    ∀ {buf : List UInt8} {r : Sent}, Dead outs → sendAll outs buf = some r → r.bytes = [] := by
  induction outs with
  | nil =>
    intro buf r _ h
    cases buf with
    | nil =>
      cases h
      rfl
    | cons b buf => exact absurd h nofun
  | cons o outs ih =>
    intro buf r hdead h
    have htail : Dead outs := fun n hn => hdead n (List.mem_cons_of_mem _ hn)
    cases buf with
    | nil =>
      cases h
      rfl
    | cons b buf =>
      cases o with
      | accepted n => exact absurd List.mem_cons_self (hdead n)
      | interrupted => exact ih htail h
      | failed =>
        cases h
        rfl

/-! ## §2. Texts in parts. -/

/-- Parts sent one after the other, up to the first that fails. -/
def sendParts : List SendOutcome → List (List UInt8) → Option Sent
  | outs, [] => some ⟨[], true, outs⟩
  | outs, p :: ps =>
      (sendAll outs p).bind fun r =>
        if r.ok then (sendParts r.rest ps).map (Sent.after r.bytes) else some r

/-- **A text in parts.** -/
theorem sendParts_spec :
    ∀ (ps : List (List UInt8)) {outs : List SendOutcome} {r : Sent},
      sendParts outs ps = some r → r.Of ps.flatten
  | [], outs, r, h => by
    cases h
    exact rfl
  | p :: ps, outs, r, h => by
    obtain ⟨r1, hr1, h⟩ := Option.bind_eq_some_iff.mp h
    have hfirst := sendAll_spec outs hr1
    rw [List.flatten_cons]
    cases hok : r1.ok with
    | true =>
      rw [if_pos hok] at h
      obtain ⟨r2, hr2, rfl⟩ := Option.map_eq_some_iff.mp h
      unfold Sent.Of at hfirst
      rw [if_pos hok] at hfirst
      rw [← hfirst]
      exact (sendParts_spec ps hr2).after r1.bytes
    | false =>
      rw [if_neg (by rw [hok]; exact nofun)] at h
      cases h
      unfold Sent.Of at hfirst ⊢
      rw [if_neg (by rw [hok]; exact nofun)] at hfirst ⊢
      obtain ⟨⟨t, ht⟩, hne⟩ := hfirst
      refine ⟨⟨t ++ ps.flatten, by rw [← List.append_assoc, ht]⟩, fun heq => hne ?_⟩
      -- a proper part of the first text is not the whole
      have hlen := congrArg List.length heq
      have hlen' := congrArg List.length ht
      rw [List.length_append] at hlen hlen'
      have ht0 : t = [] := List.length_eq_zero_iff.mp (by omega)
      rw [ht0, List.append_nil] at ht
      exact ht

theorem sendParts_dead (ps : List (List UInt8)) {outs : List SendOutcome} {r : Sent}
    (hdead : Dead outs) (h : sendParts outs ps = some r) : r.bytes = [] := by
  induction ps generalizing outs r with
  | nil =>
    cases h
    rfl
  | cons p ps ih =>
    obtain ⟨r1, hr1, h⟩ := Option.bind_eq_some_iff.mp h
    have hfirst := sendAll_dead outs hdead hr1
    obtain ⟨used, hused, -⟩ := sendAll_rest outs hr1
    split_ifs at h with hok
    · obtain ⟨r2, hr2, rfl⟩ := Option.map_eq_some_iff.mp h
      have hrest : Dead r1.rest := by
        intro n hn
        apply hdead n
        rw [hused]
        exact List.mem_append_right _ hn
      show r1.bytes ++ r2.bytes = []
      rw [hfirst, ih hrest hr2]
      rfl
    · cases h
      exact hfirst

/-- `http_sse_send`. -/
def httpSseSend (outs : List SendOutcome) (data : List UInt8) : Option Sent :=
  sendParts outs [ascii "data: ", data, ascii "\n\n"]

/-- `http_sse_comment`. -/
def httpSseComment (outs : List SendOutcome) (text : List UInt8) : Option Sent :=
  sendParts outs [ascii ": ", text, ascii "\n\n"]

/-- The head of an event stream. -/
def sseHead : List UInt8 :=
  ascii "HTTP/1.1 200 OK\r\n" ++ ascii "Content-Type: text/event-stream\r\n"
    ++ ascii "Cache-Control: no-cache\r\n" ++ ascii "Access-Control-Allow-Origin: *\r\n"
    ++ ascii "Connection: keep-alive\r\n" ++ ascii "\r\n"

/-- `http_sse_begin`: what `send_all` returns is ignored. -/
def httpSseBegin (outs : List SendOutcome) : Option Sent := sendAll outs sseHead

/-! ## §3. Responses. -/

/-- `status_reason`. -/
def statusReason : Nat → String
  | 200 => "OK"
  | 201 => "Created"
  | 400 => "Bad Request"
  | 404 => "Not Found"
  | 405 => "Method Not Allowed"
  | 408 => "Request Timeout"
  | 413 => "Payload Too Large"
  | 500 => "Internal Server Error"
  | _ => "OK"

/-- What `snprintf` prints of a response's head. -/
def responseHead (status : Nat) (contentType : List UInt8) (bodyLen : Nat) : List UInt8 :=
  ascii "HTTP/1.1 " ++ decimal status ++ ascii " " ++ ascii (statusReason status)
    ++ ascii "\r\nContent-Type: " ++ contentType
    ++ ascii "\r\nContent-Length: " ++ decimal bodyLen
    ++ ascii "\r\nAccess-Control-Allow-Origin: *"
    ++ ascii "\r\nConnection: close"
    ++ ascii "\r\n\r\n"

/-- `http_respond` with its `hdr[512]`: the body is sent whatever became of the head.  `none`
when a writer has not returned, or the head is read behind its buffer. -/
def httpRespond (outs : List SendOutcome) (status : Nat) (contentType body : List UInt8) :
    Option Sent :=
  (bufSend 512 (responseHead status contentType body.length)).bind fun hdr =>
    (sendAll outs hdr).bind fun r =>
      if body = [] then some r
      else (sendAll r.rest body).map fun r' => ⟨r.bytes ++ r'.bytes, r.ok && r'.ok, r'.rest⟩

/-- After an error `send` accepts nothing more. -/
def Sticky (outs : List SendOutcome) : Prop :=
  outs.Pairwise fun a b => a = .failed → ∀ n, b ≠ .accepted n

/-- Behind a writer that failed the socket is dead. -/
theorem Sticky.dead {outs : List SendOutcome} (h : Sticky outs) {buf : List UInt8} {r : Sent}
    (hsend : sendAll outs buf = some r) (hok : r.ok = false) : Dead r.rest := by
  obtain ⟨used, hused, hfailed⟩ := sendAll_rest outs hsend
  unfold Sticky at h
  rw [hused, List.pairwise_append] at h
  intro n hn
  exact h.2.2 .failed (hfailed hok) _ hn rfl n rfl

/-- **`http_respond`** writes head and body, or a proper part of them, although it sends the
body whatever became of the head. -/
theorem httpRespond_spec {outs : List SendOutcome} (hsticky : Sticky outs) {status : Nat}
    {contentType body : List UInt8} {r : Sent} (h : httpRespond outs status contentType body = some r) :
    r.Of (responseHead status contentType body.length ++ body) := by
  obtain ⟨hdr, hhdr, h⟩ := Option.bind_eq_some_iff.mp h
  obtain ⟨-, hhdr⟩ := Option.ite_none_right_eq_some.mp hhdr
  cases hhdr
  obtain ⟨r1, hr1, h⟩ := Option.bind_eq_some_iff.mp h
  have hhead := sendAll_spec outs hr1
  split_ifs at h with hbody
  · cases h
    rw [hbody, List.append_nil] at *
    exact hhead
  · obtain ⟨r2, hr2, rfl⟩ := Option.map_eq_some_iff.mp h
    cases hok : r1.ok with
    | true =>
      have htail := (sendAll_spec r1.rest hr2).after (responseHead status contentType body.length)
      unfold Sent.Of at hhead
      rw [if_pos hok] at hhead
      rw [hhead]
      exact htail
    | false =>
      -- nothing of the body is accepted
      have hnone := sendAll_dead r1.rest (hsticky.dead hr1 hok) hr2
      unfold Sent.Of at hhead ⊢
      rw [if_neg (by rw [hok]; exact nofun)] at hhead
      rw [hnone, Bool.false_and, if_neg nofun, List.append_nil]
      obtain ⟨⟨t, ht⟩, hne⟩ := hhead
      refine ⟨⟨t ++ body, by rw [← List.append_assoc, ht]⟩, fun heq => hbody ?_⟩
      have hlen : r1.bytes.length = (responseHead status contentType body.length).length + body.length := by
        rw [← List.length_append]
        exact congrArg List.length heq
      have hlen' := congrArg List.length ht
      rw [List.length_append] at hlen'
      exact List.length_eq_zero_iff.mp (by omega)

/-- The statuses the server answers with. -/
def statuses : List Nat := [200, 201, 400, 404, 405, 408, 413, 500]

/-- A content type as the server names them: short, on one line, no blanks around it. -/
structure TypeName (t : List UInt8) : Prop where
  length : t.length ≤ 64
  line : 10 ∉ t
  head : ∀ b, t.head? = some b → b ≠ 32 ∧ b ≠ 9
  last : ∀ b, t.getLast? = some b → b ≠ 32 ∧ b ≠ 9

theorem statusReason_line (status : Nat) :
    10 ∉ ascii (statusReason status) ∧ (ascii (statusReason status)).length ≤ 21 := by
  unfold statusReason
  split <;> decide +kernel

theorem decimal_digits (n : Nat) : ∀ b ∈ decimal n, isDigit b = true := (decimal_numeral n).digits

theorem decimal_line (n : Nat) : 10 ∉ decimal n := by
  intro hmem
  exact absurd (decimal_digits n 10 hmem) (by decide)

theorem isDigit_notBlank {b : UInt8} (h : isDigit b = true) : b ≠ 32 ∧ b ≠ 9 := by
  constructor
  · rintro rfl
    exact absurd h (by decide)
  · rintro rfl
    exact absurd h (by decide)

/-- **The head fits `hdr[512]`.** -/
theorem responseHead_fits {status : Nat} (hstatus : status < 1000) {contentType : List UInt8}
    (htype : TypeName contentType) {bodyLen : Nat} (hlen : bodyLen < 10 ^ 20) :
    bufSend 512 (responseHead status contentType bodyLen)
      = some (responseHead status contentType bodyLen) := by
  have hlits : (ascii "HTTP/1.1 ").length + (ascii " ").length + (ascii "\r\nContent-Type: ").length
      + (ascii "\r\nContent-Length: ").length + (ascii "\r\nAccess-Control-Allow-Origin: *").length
      + (ascii "\r\nConnection: close").length + (ascii "\r\n\r\n").length = 99 := by decide +kernel
  have hcode : (decimal status).length ≤ 3 := decimal_length (by decide) (by omega)
  have hreason := (statusReason_line status).2
  have hdigits : (decimal bodyLen).length ≤ 20 := decimal_length (by decide) hlen
  have hname := htype.length
  unfold bufSend
  rw [if_pos]
  unfold responseHead
  simp only [List.length_append]
  omega

/-- The lines of a response's head. -/
def responseLines (contentType : List UInt8) (bodyLen : Nat) : List (List UInt8) :=
  [ascii "Content-Type" ++ 58 :: 32 :: contentType, ascii "Content-Length" ++ 58 :: 32 :: decimal bodyLen,
    ascii "Access-Control-Allow-Origin" ++ 58 :: 32 :: ascii "*",
    ascii "Connection" ++ 58 :: 32 :: ascii "close"]

theorem responseHead_eq (status : Nat) (contentType : List UInt8) (bodyLen : Nat) :
    responseHead status contentType bodyLen
      = writeLines ((ascii "HTTP/1.1 " ++ decimal status ++ ascii " " ++ ascii (statusReason status))
          :: responseLines contentType bodyLen) := by
  have htype : ascii "\r\nContent-Type: " = 13 :: 10 :: (ascii "Content-Type" ++ [58, 32]) := by
    decide +kernel
  have hlen : ascii "\r\nContent-Length: " = 13 :: 10 :: (ascii "Content-Length" ++ [58, 32]) := by
    decide +kernel
  have horigin : ascii "\r\nAccess-Control-Allow-Origin: *"
      = 13 :: 10 :: (ascii "Access-Control-Allow-Origin" ++ 58 :: 32 :: ascii "*") := by
    decide +kernel
  have hclose : ascii "\r\nConnection: close" = 13 :: 10 :: (ascii "Connection" ++ 58 :: 32 :: ascii "close") := by
    decide +kernel
  have hend : ascii "\r\n\r\n" = [13, 10, 13, 10] := by decide +kernel
  unfold responseHead responseLines
  rw [htype, hlen, horigin, hclose, hend]
  simp only [writeLines, List.append_assoc, List.cons_append, List.nil_append]

/-- The head a client reads. -/
def clientHead (status : Nat) (contentType : List UInt8) (bodyLen : Nat) : Head :=
  { status := status
    fields := [(ascii "Content-Type", contentType), (ascii "Content-Length", decimal bodyLen),
      (ascii "Access-Control-Allow-Origin", ascii "*"), (ascii "Connection", ascii "close")] }

theorem statusLine_response :
    ∀ status ∈ statuses, statusLine (ascii "HTTP/1.1 " ++ decimal status ++ ascii " "
      ++ ascii (statusReason status)) = some status := by
  decide +kernel

/-- **The head of a response is read back**, whatever follows it. -/
theorem readHead_response {status : Nat} (hstatus : status ∈ statuses) {contentType : List UInt8}
    (htype : TypeName contentType) (bodyLen : Nat) (rest : List UInt8) :
    readHead (responseHead status contentType bodyLen ++ rest)
      = some (clientHead status contentType bodyLen, rest) := by
  have hfields : (responseLines contentType bodyLen).mapM fieldLine
      = some (clientHead status contentType bodyLen).fields := by
    have hct := @fieldLine_write (ascii "Content-Type") contentType (by decide +kernel) htype.head
      htype.last
    have hcl := @fieldLine_write (ascii "Content-Length") (decimal bodyLen) (by decide +kernel)
      (fun b hb => isDigit_notBlank (decimal_digits bodyLen b (List.mem_of_head? hb)))
      (fun b hb => isDigit_notBlank (decimal_digits bodyLen b (List.mem_of_getLast? hb)))
    have hao : fieldLine (ascii "Access-Control-Allow-Origin" ++ 58 :: 32 :: ascii "*")
        = some (ascii "Access-Control-Allow-Origin", ascii "*") := by decide +kernel
    have hco : fieldLine (ascii "Connection" ++ 58 :: 32 :: ascii "close")
        = some (ascii "Connection", ascii "close") := by decide +kernel
    unfold responseLines
    simp only [List.mapM_cons, List.mapM_nil, hct, hcl, hao, hco]
    rfl
  have hlines : ∀ l ∈ responseLines contentType bodyLen, l ≠ [] ∧ 10 ∉ l := by
    have hname : ∀ (name value : List UInt8), 10 ∉ name → 10 ∉ value →
        name ++ 58 :: 32 :: value ≠ [] ∧ 10 ∉ name ++ 58 :: 32 :: value := by
      intro name value hn hv
      refine ⟨by simp, fun hmem => ?_⟩
      simp only [List.mem_append, List.mem_cons] at hmem
      rcases hmem with hmem | hmem | hmem | hmem
      · exact hn hmem
      · exact absurd hmem (by decide)
      · exact absurd hmem (by decide)
      · exact hv hmem
    intro l hl
    simp only [responseLines, List.mem_cons, List.not_mem_nil, or_false] at hl
    rcases hl with rfl | rfl | rfl | rfl
    · exact hname _ _ (by decide +kernel) htype.line
    · exact hname _ _ (by decide +kernel) (decimal_line bodyLen)
    · exact hname _ _ (by decide +kernel) (by decide +kernel)
    · exact hname _ _ (by decide +kernel) (by decide +kernel)
  have hfirst : 10 ∉ ascii "HTTP/1.1 " ++ decimal status ++ ascii " " ++ ascii (statusReason status) := by
    simp only [List.mem_append, not_or]
    exact ⟨⟨⟨by decide +kernel, decimal_line status⟩, by decide +kernel⟩, (statusReason_line status).1⟩
  rw [responseHead_eq]
  exact readHead_head ⟨by simp [ascii], hfirst⟩ hlines (statusLine_response status hstatus) hfields rest

theorem clientHead_length (status : Nat) (contentType : List UInt8) (bodyLen : Nat) :
    (clientHead status contentType bodyLen).contentLength = some bodyLen := by
  have hget : (clientHead status contentType bodyLen).get (ascii "Content-Length")
      = some (decimal bodyLen) := by
    have htype : ((ascii "Content-Type").map toLower == (ascii "Content-Length").map toLower) = false := by
      decide +kernel
    unfold Head.get clientHead
    rw [List.find?_cons, htype]
    dsimp only
    rw [List.find?_cons, beq_self_eq_true]
    rfl
  have hne : decimal bodyLen ≠ [] := (decimal_numeral bodyLen).nonempty
  unfold Head.contentLength
  rw [hget, Option.bind_some, if_pos ⟨hne, List.all_eq_true.mpr (decimal_digits bodyLen)⟩,
    decimalValue_decimal]

end NetServer.Http
