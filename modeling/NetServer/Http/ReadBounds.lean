/-
  NetServer.Http.ReadBounds — reading a request is bounded and framed safely.

  `read_request` hands `recv` the rest of its buffer and parses everything
  received so far after each call.  `recvCalls` are the states in which it
  calls `recv`, `parseCalls` those in which it calls `http_parse_request`; both
  follow the loop, outcome by outcome.

    • `parse_framed` — what one parse of at most INT_MAX bytes can return;
    • `parseCalls_length`, `readRequest_progress` — every parse has a byte more,
      so the loop ends;
    • `read_bounds` — the bounds over every sequence of outcomes.
-/
import NetServer.Http.Query
import NetServer.Http.Received
import NetServer.Http.Session

namespace NetServer.Http

open NetServer.Lib

/-! ## §1. The frame of a request. -/

/-- SIZE_MAX. -/
def sizeMax : Nat := 18446744073709551615

/-- INT_MAX. -/
def intMax : Nat := 2147483647

/-- `header_len` and the request before its body is looked at; `none` when the
blank line has not come, or the request line is malformed. -/
def requestFrame (buf : List UInt8) (len : Nat) (out : HttpRequest) : Option (Nat × HttpRequest) :=
  match getLine (buf.take len) with
  | none => none
  | some (llen, next) =>
      match parseRequestLine (buf.take llen) out with
      | none => none
      | some out =>
          match headerLoop (len - next) (buf.drop next) (len - next)
              { out with contentLength := 0, keepAlive := false } with
          | (_, none) => none
          | (out, some left) => some (len - left, out)

/-- `path` and `query` leave room for their NUL. -/
structure Terminated (req : HttpRequest) : Prop where
  path : req.path.length < httpPathMax
  query : req.query.length < httpQueryMax

/-- What a parse of `len` received bytes guarantees. -/
structure FramedSafely (buf : List UInt8) (len : Nat) (out : HttpRequest) : Prop where
  noOverflow : ∀ headerLen req, requestFrame buf len out = some (headerLen, req) →
    0 ≤ req.contentLength ∧ headerLen + req.contentLength.toNat ≤ sizeMax
  result : 0 < (httpParseRequest buf len out).1 →
    (httpParseRequest buf len out).1 ≤ len ∧ (httpParseRequest buf len out).1 ≤ intMax
  body : 0 < (httpParseRequest buf len out).1 →
    (httpParseRequest buf len out).2.body + (httpParseRequest buf len out).2.bodyLen ≤ len
      ∧ ((httpParseRequest buf len out).2.bodyLen : Int)
          = (httpParseRequest buf len out).2.contentLength
  terminated : Terminated (httpParseRequest buf len out).2

theorem parseRequestLine_terminated {line : List UInt8} {out req : HttpRequest}
    (h : parseRequestLine line out = some req) : Terminated req := by
  have hpath : ∀ src, (urlDecode false (httpPathMax - 1) src).length < httpPathMax := by
    intro src
    have hle := urlDecode_length false (httpPathMax - 1) src
    unfold httpPathMax at *
    omega
  unfold parseRequestLine at h
  split at h
  · cases h
  · dsimp only at h
    split at h
    · obtain rfl := Option.some.inj h
      refine ⟨hpath _, ?_⟩
      show (List.take (httpQueryMax - 1) _).length < httpQueryMax
      rw [List.length_take]
      unfold httpQueryMax
      omega
    · obtain rfl := Option.some.inj h
      exact ⟨hpath _, show ([] : List UInt8).length < httpQueryMax by decide⟩

/-- A header line leaves path and query alone, and the length is not negative. -/
theorem parseHeader_keeps (p : List UInt8) (llen : Nat) (out : HttpRequest) :
    (parseHeader p llen out).path = out.path ∧ (parseHeader p llen out).query = out.query
      ∧ (0 ≤ out.contentLength → 0 ≤ (parseHeader p llen out).contentLength) := by
  unfold parseHeader
  split
  · refine ⟨rfl, rfl, fun _ => ?_⟩
    dsimp only
    split <;> omega
  · split
    · split <;> exact ⟨rfl, rfl, id⟩
    · exact ⟨rfl, rfl, id⟩

theorem headerLoop_keeps :
    ∀ (fuel : Nat) (p : List UInt8) (n : Nat) (out : HttpRequest), 0 ≤ out.contentLength →
      (headerLoop fuel p n out).1.path = out.path ∧ (headerLoop fuel p n out).1.query = out.query
        ∧ 0 ≤ (headerLoop fuel p n out).1.contentLength
  | 0, _, _, _, h => ⟨rfl, rfl, h⟩
  | fuel + 1, p, n, out, h => by
      unfold headerLoop
      split
      · exact ⟨rfl, rfl, h⟩
      · exact ⟨rfl, rfl, h⟩
      · rename_i llen next _
        obtain ⟨hpath, hquery, hlen⟩ := parseHeader_keeps p (llen + 1) out
        obtain ⟨hpath', hquery', hlen'⟩ :=
          headerLoop_keeps fuel (p.drop next) (n - next) (parseHeader p (llen + 1) out) (hlen h)
        exact ⟨hpath'.trans hpath, hquery'.trans hquery, hlen'⟩

/-- What a call with a frame returns. -/
def frameResult (len headerLen : Nat) (req : HttpRequest) : Int × HttpRequest :=
  if len < (headerLen + req.contentLength.toNat) % 2 ^ 64 then (0, req)
  else
    (Int.bmod ((headerLen + req.contentLength.toNat) % 2 ^ 64 : Nat) (2 ^ 32),
      { req with body := headerLen, bodyLen := req.contentLength.toNat })

/-- **Everything a parse can do**: nothing complete yet, a malformed request
line, or a frame whose content length `strtol` gave. -/
theorem parse_cases (buf : List UInt8) (len : Nat) (out : HttpRequest) :
    (∃ req, requestFrame buf len out = none ∧ httpParseRequest buf len out = (0, req)
        ∧ (req = out ∨ Terminated req))
      ∨ (requestFrame buf len out = none ∧ httpParseRequest buf len out = (-1, out))
      ∨ ∃ headerLen req, requestFrame buf len out = some (headerLen, req)
          ∧ httpParseRequest buf len out = frameResult len headerLen req
          ∧ headerLen ≤ len ∧ 0 ≤ req.contentLength ∧ req.contentLength ≤ longMax
          ∧ Terminated req := by
  unfold requestFrame httpParseRequest
  cases hline : getLine (buf.take len) with
  | none => exact Or.inl ⟨out, rfl, rfl, Or.inl rfl⟩
  | some line =>
    obtain ⟨llen, next⟩ := line
    dsimp only
    cases hreq : parseRequestLine (buf.take llen) out with
    | none => exact Or.inr (Or.inl ⟨rfl, rfl⟩)
    | some req₀ =>
      have hterm := parseRequestLine_terminated hreq
      obtain ⟨hpath, hquery, hpos⟩ := headerLoop_keeps (len - next) (buf.drop next) (len - next)
        { req₀ with contentLength := 0, keepAlive := false } (Int.le_refl 0)
      have hmax := headerLoop_contentLength (len - next) (buf.drop next) (len - next)
        { req₀ with contentLength := 0, keepAlive := false } (show (0 : Int) ≤ longMax by decide)
      dsimp only
      revert hpath hquery hpos hmax
      generalize headerLoop (len - next) (buf.drop next) (len - next)
        { req₀ with contentLength := 0, keepAlive := false } = res
      obtain ⟨req, left⟩ := res
      intro hpath hquery hpos hmax
      have hkept : Terminated req := ⟨hpath ▸ hterm.path, hquery ▸ hterm.query⟩
      cases left with
      | none => exact Or.inl ⟨req, rfl, rfl, Or.inr hkept⟩
      | some left =>
        exact Or.inr (Or.inr ⟨len - left, req, rfl, rfl, Nat.sub_le _ _, hpos, hmax, hkept⟩)

/-- A parse that found no frame has nothing to guarantee but its texts. -/
theorem framed_of_none {buf : List UInt8} {len : Nat} {out : HttpRequest}
    (hframe : requestFrame buf len out = none) (hvalue : ¬ 0 < (httpParseRequest buf len out).1)
    (hterm : Terminated (httpParseRequest buf len out).2) : FramedSafely buf len out := by
  refine ⟨?_, fun h => absurd h hvalue, fun h => absurd h hvalue, hterm⟩
  rw [hframe]
  exact nofun

/-- **One parse** of at most INT_MAX bytes is framed safely. -/
theorem parse_framed {buf : List UInt8} {len : Nat} {out : HttpRequest} (hlen : len ≤ intMax)
    (hout : Terminated out) : FramedSafely buf len out := by
  rcases parse_cases buf len out with
    ⟨req, hframe, hparse, hreq⟩ | ⟨hframe, hparse⟩
      | ⟨headerLen, req, hframe, hparse, hhead, hpos, hmax, hterm⟩
  · refine framed_of_none hframe (by rw [hparse]; exact Int.lt_irrefl 0) ?_
    rw [hparse]
    rcases hreq with rfl | hreq
    · exact hout
    · exact hreq
  · refine framed_of_none hframe (by rw [hparse]; exact show ¬ (0 : Int) < -1 by decide) ?_
    rw [hparse]
    exact hout
  · unfold longMax at hmax
    unfold intMax at hlen
    -- neither summand reaches half of the range of `size_t`
    have hsum : (headerLen + req.contentLength.toNat) % 2 ^ 64
        = headerLen + req.contentLength.toNat := Nat.mod_eq_of_lt (by omega)
    unfold frameResult at hparse
    rw [hsum] at hparse
    refine ⟨?_, ?_, ?_, ?_⟩
    · rw [hframe]
      intro headerLen' req' heq
      cases heq
      refine ⟨hpos, ?_⟩
      unfold sizeMax
      omega
    · rw [hparse]
      split_ifs with hshort
      · exact fun h => absurd h (Int.lt_irrefl 0)
      · intro _
        have hint : Int.bmod ((headerLen + req.contentLength.toNat : Nat) : Int) (2 ^ 32)
            = (headerLen + req.contentLength.toNat : Nat) := by
          apply Int.bmod_eq_of_le <;> omega
        dsimp only
        rw [hint]
        unfold intMax
        omega
    · rw [hparse]
      split_ifs with hshort
      · exact fun h => absurd h (Int.lt_irrefl 0)
      · intro _
        dsimp only
        omega
    · rw [hparse]
      split_ifs with hshort
      · exact hterm
      · exact ⟨hterm.path, hterm.query⟩

/-! ## §2. The value does not depend on the request passed in. -/

theorem headerLoop_value :
    ∀ (fuel : Nat) (p : List UInt8) (n : Nat) (out out' : HttpRequest),
      out.contentLength = out'.contentLength →
      (headerLoop fuel p n out).2 = (headerLoop fuel p n out').2
        ∧ (headerLoop fuel p n out).1.contentLength = (headerLoop fuel p n out').1.contentLength
  | 0, _, _, _, _, h => ⟨rfl, h⟩
  | fuel + 1, p, n, out, out', h => by
      unfold headerLoop
      cases hline : getLine (p.take n) with
      | none => exact ⟨rfl, h⟩
      | some line =>
          obtain ⟨llen, next⟩ := line
          cases llen with
          | zero => exact ⟨rfl, h⟩
          | succ llen =>
              apply headerLoop_value
              unfold parseHeader
              split_ifs <;> first | rfl | exact h

theorem parse_value (buf : List UInt8) (len : Nat) (out out' : HttpRequest) :
    (httpParseRequest buf len out).1 = (httpParseRequest buf len out').1 := by
  unfold httpParseRequest
  cases hline : getLine (buf.take len) with
  | none => rfl
  | some line =>
    obtain ⟨llen, next⟩ := line
    dsimp only
    cases hreq : parseRequestLine (buf.take llen) out with
    | none =>
      rw [(parseRequestLine_none out').mpr ((parseRequestLine_none out).mp hreq)]
    | some req =>
      cases hreq' : parseRequestLine (buf.take llen) out' with
      | none =>
        rw [(parseRequestLine_none out).mpr ((parseRequestLine_none out').mp hreq')] at hreq
        cases hreq
      | some req' =>
        dsimp only
        obtain ⟨hleft, hlen⟩ := headerLoop_value (len - next) (buf.drop next) (len - next)
          { req with contentLength := 0, keepAlive := false }
          { req' with contentLength := 0, keepAlive := false } rfl
        revert hleft hlen
        generalize headerLoop (len - next) (buf.drop next) (len - next)
          { req with contentLength := 0, keepAlive := false } = res
        generalize headerLoop (len - next) (buf.drop next) (len - next)
          { req' with contentLength := 0, keepAlive := false } = res'
        obtain ⟨r, left⟩ := res
        obtain ⟨r', left'⟩ := res'
        intro hleft hlen
        obtain rfl : left = left' := hleft
        have hlen : r.contentLength = r'.contentLength := hlen
        cases left with
        | none => rfl
        | some left =>
          dsimp only
          rw [hlen]
          split_ifs <;> rfl

/-! ## §3. The calls of the loop. -/

/-- EINTR from `poll` or `recv`. -/
def RecvOutcome.interrupted : RecvOutcome → Bool
  | .pollIntr | .recvIntr => true
  | _ => false

/-- The round gets as far as `recv`. -/
def RecvOutcome.callsRecv : RecvOutcome → Bool
  | .pollIntr | .pollError | .pollTimeout => false
  | _ => true

/-- The states in which `recv` is called. -/
def recvCalls (bufsz : Nat) : List RecvOutcome → ReadState → List ReadState
  | [], _ => []
  | o :: os, st =>
      (if o.callsRecv then [st] else [])
        ++ (if (readRequestStep bufsz st o).2.isSome then []
          else recvCalls bufsz os (readRequestStep bufsz st o).1)

/-- The state after a successful `recv`. -/
def received? (bufsz : Nat) (st : ReadState) : RecvOutcome → Option ReadState
  | .recvd bytes =>
      if (bytes.take (bufsz - st.filled)).length = 0 then none
      else some (st.fill (bytes.take (bufsz - st.filled)))
  | _ => none

/-- The states in which `http_parse_request` is called: one after each
successful `recv`. -/
def parseCalls (bufsz : Nat) : List RecvOutcome → ReadState → List ReadState
  | [], _ => []
  | o :: os, st =>
      (received? bufsz st o).toList
        ++ (if (readRequestStep bufsz st o).2.isSome then []
          else parseCalls bufsz os (readRequestStep bufsz st o).1)

/-- Where the loop stands before a round. -/
structure Reading (bufsz : Nat) (st : ReadState) : Prop where
  room : st.filled < bufsz
  terminated : Terminated st.req
  accepted : 413 ∉ st.responses

/-- The loop has returned and 413 is sent only for a full buffer. -/
structure Returned (bufsz : Nat) (st : ReadState) : Prop where
  terminated : Terminated st.req
  oversized : 413 ∈ st.responses →
    st.filled = bufsz ∧ ∀ out, (httpParseRequest st.buf st.filled out).1 = 0

/-- **Everything a round can do.** -/
inductive RoundKind (bufsz : Nat) (st : ReadState) (o : RecvOutcome) : Prop where
  /-- Interrupted: the same state again. -/
  | again : o.interrupted = true → received? bufsz st o = none →
      readRequestStep bufsz st o = (st, none) → RoundKind bufsz st o
  /-- Over without a parse. -/
  | ended (st' : ReadState) : o.interrupted = false → received? bufsz st o = none →
      readRequestStep bufsz st o = (st', some (-1)) → Returned bufsz st' → RoundKind bufsz st o
  /-- Parsed, and more is needed. -/
  | more (st₁ st' : ReadState) : o.interrupted = false → received? bufsz st o = some st₁ →
      readRequestStep bufsz st o = (st', none) → Reading bufsz st' → st.filled < st₁.filled →
      st'.filled = st₁.filled → Terminated st₁.req → RoundKind bufsz st o
  /-- Parsed, and over. -/
  | done (st₁ st' : ReadState) (r : Int) : o.interrupted = false →
      received? bufsz st o = some st₁ → readRequestStep bufsz st o = (st', some r) →
      Returned bufsz st' → st₁.filled ≤ bufsz → Terminated st₁.req → RoundKind bufsz st o

/-- What follows a successful `recv`. -/
theorem afterRecv_kind {bufsz : Nat} {st : ReadState} (hint : bufsz ≤ intMax)
    (hle : st.filled ≤ bufsz) (hterm : Terminated st.req) (hacc : 413 ∉ st.responses) :
    (∃ st', afterRecv bufsz st = (st', none) ∧ Reading bufsz st' ∧ st'.filled = st.filled)
      ∨ ∃ st' r, afterRecv bufsz st = (st', some r) ∧ Returned bufsz st' := by
  have hframed : FramedSafely st.buf st.filled st.req :=
    parse_framed (Nat.le_trans hle hint) hterm
  have hterm' := hframed.terminated
  have hvalue : ∀ out, (httpParseRequest st.buf st.filled out).1
      = (httpParseRequest st.buf st.filled st.req).1 := fun out => parse_value _ _ _ _
  unfold afterRecv
  revert hterm' hvalue
  generalize httpParseRequest st.buf st.filled st.req = res
  obtain ⟨total, req⟩ := res
  intro hterm' hvalue
  dsimp only
  split_ifs with hpos hneg hfull
  · exact Or.inr ⟨_, _, rfl, hterm', fun h => absurd h hacc⟩
  · refine Or.inr ⟨_, _, rfl, hterm', ?_⟩
    intro h
    rcases List.mem_append.mp h with h | h
    · exact absurd h hacc
    · exact absurd (List.mem_singleton.mp h) (by decide)
  · refine Or.inr ⟨_, _, rfl, hterm', ?_⟩
    intro _
    refine ⟨Nat.le_antisymm hle hfull, ?_⟩
    intro out
    have hzero := hvalue out
    dsimp only at hzero ⊢
    omega
  · exact Or.inl ⟨_, rfl, ⟨Nat.lt_of_not_le hfull, hterm', hacc⟩, rfl⟩

theorem readRequestStep_kind {bufsz : Nat} {st : ReadState} (hint : bufsz ≤ intMax)
    (h : Reading bufsz st) (o : RecvOutcome) : RoundKind bufsz st o := by
  have hover : Returned bufsz st := ⟨h.terminated, fun hm => absurd hm h.accepted⟩
  cases o with
  | pollIntr => exact .again rfl rfl rfl
  | recvIntr => exact .again rfl rfl rfl
  | pollError => exact .ended st rfl rfl rfl hover
  | recvError => exact .ended st rfl rfl rfl hover
  | recvClosed => exact .ended st rfl rfl rfl hover
  | pollTimeout =>
      refine .ended _ rfl rfl rfl ⟨h.terminated, ?_⟩
      intro hm
      rcases List.mem_append.mp hm with hm | hm
      · exact absurd hm h.accepted
      · exact absurd (List.mem_singleton.mp hm) (by decide)
  | recvd bytes =>
      have hbound : (bytes.take (bufsz - st.filled)).length ≤ bufsz - st.filled := by
        rw [List.length_take]
        omega
      have hroom := h.room
      cases htake : bytes.take (bufsz - st.filled) with
      | nil =>
          refine .ended st rfl ?_ ?_ hover
          · simp [received?, htake]
          · simp [readRequestStep, htake]
      | cons b bs =>
          have hrecv : received? bufsz st (.recvd bytes) = some (st.fill (b :: bs)) := by
            simp [received?, htake]
          have hstep : readRequestStep bufsz st (.recvd bytes) = afterRecv bufsz (st.fill (b :: bs)) := by
            simp [readRequestStep, htake]
          have hfilled : (st.fill (b :: bs)).filled = st.filled + (bs.length + 1) := rfl
          rw [htake, List.length_cons] at hbound
          have hle : (st.fill (b :: bs)).filled ≤ bufsz := by omega
          rcases afterRecv_kind hint hle h.terminated h.accepted with
            ⟨st', hafter, hread, hsame⟩ | ⟨st', r, hafter, hret⟩
          · exact .more _ st' rfl hrecv (hstep.trans hafter) hread (by omega) hsame h.terminated
          · exact .done _ st' r rfl hrecv (hstep.trans hafter) hret hle h.terminated

/-! ## §4. Runs. -/

section Runs

variable {bufsz : Nat} (hint : bufsz ≤ intMax)

include hint

/-- There is room before every `recv`. -/
theorem recvCalls_room :
    ∀ (os : List RecvOutcome) (st : ReadState), Reading bufsz st →
      ∀ s ∈ recvCalls bufsz os st, s.filled < bufsz
  | [], _, _ => nofun
  | o :: os, st, h => by
      intro s hs
      rcases List.mem_append.mp hs with hs | hs
      · split_ifs at hs
        · rw [List.mem_singleton.mp hs]
          exact h.room
        · cases hs
      · cases readRequestStep_kind hint h o with
        | again hintr hrecv hstep =>
            rw [hstep] at hs
            exact recvCalls_room os st h s hs
        | ended st' hintr hrecv hstep hret =>
            rw [hstep] at hs
            cases hs
        | more st₁ st' hintr hrecv hstep hread hgrow hsame hterm =>
            rw [hstep] at hs
            exact recvCalls_room os st' hread s hs
        | done st₁ st' r hintr hrecv hstep hret hle hterm =>
            rw [hstep] at hs
            cases hs

/-- Every parse has at least one byte more than the one before. -/
theorem parseCalls_length :
    ∀ (os : List RecvOutcome) (st : ReadState), Reading bufsz st →
      (parseCalls bufsz os st).length ≤ bufsz - st.filled
  | [], _, _ => Nat.zero_le _
  | o :: os, st, h => by
      have hroom := h.room
      unfold parseCalls
      cases readRequestStep_kind hint h o with
      | again hintr hrecv hstep =>
          rw [hstep, hrecv]
          exact parseCalls_length os st h
      | ended st' hintr hrecv hstep hret =>
          rw [hstep, hrecv]
          exact Nat.zero_le _
      | more st₁ st' hintr hrecv hstep hread hgrow hsame hterm =>
          have hrest := parseCalls_length os st' hread
          rw [hstep, hrecv]
          show (st₁ :: parseCalls bufsz os st').length ≤ _
          rw [List.length_cons]
          have hroom' := hread.room
          omega
      | done st₁ st' r hintr hrecv hstep hret hle hterm =>
          rw [hstep, hrecv]
          show 1 ≤ bufsz - st.filled
          omega

/-- What is parsed fits the buffer. -/
theorem parseCalls_fit :
    ∀ (os : List RecvOutcome) (st : ReadState), Reading bufsz st →
      ∀ s ∈ parseCalls bufsz os st, s.filled ≤ bufsz ∧ Terminated s.req
  | [], _, _ => nofun
  | o :: os, st, h => by
      intro s hs
      unfold parseCalls at hs
      cases readRequestStep_kind hint h o with
      | again hintr hrecv hstep =>
          rw [hstep, hrecv] at hs
          exact parseCalls_fit os st h s hs
      | ended st' hintr hrecv hstep hret =>
          rw [hstep, hrecv] at hs
          cases hs
      | more st₁ st' hintr hrecv hstep hread hgrow hsame hterm =>
          rw [hstep, hrecv] at hs
          rcases List.mem_cons.mp (show s ∈ st₁ :: parseCalls bufsz os st' from hs) with rfl | hs
          · exact ⟨hsame ▸ Nat.le_of_lt hread.room, hterm⟩
          · exact parseCalls_fit os st' hread s hs
      | done st₁ st' r hintr hrecv hstep hret hle hterm =>
          rw [hstep, hrecv] at hs
          obtain rfl : s = st₁ := List.mem_singleton.mp hs
          exact ⟨hle, hterm⟩

/-- A run that has not returned has a byte for each outcome that was not an
interruption. -/
theorem readRequest_progress :
    ∀ (os : List RecvOutcome) (st : ReadState), Reading bufsz st →
      Returned bufsz (readRequest bufsz os st).1
        ∧ ((readRequest bufsz os st).2 = none →
          (os.filter fun o => !o.interrupted).length + st.filled
              ≤ (readRequest bufsz os st).1.filled
            ∧ (readRequest bufsz os st).1.filled < bufsz)
  | [], st, h =>
      ⟨⟨h.terminated, fun hm => absurd hm h.accepted⟩, fun _ => ⟨by simp [readRequest], h.room⟩⟩
  | o :: os, st, h => by
      unfold readRequest
      cases readRequestStep_kind hint h o with
      | again hintr hrecv hstep =>
          rw [hstep, List.filter_cons_of_neg (by rw [hintr]; exact nofun)]
          exact readRequest_progress os st h
      | ended st' hintr hrecv hstep hret =>
          rw [hstep]
          exact ⟨hret, nofun⟩
      | more st₁ st' hintr hrecv hstep hread hgrow hsame hterm =>
          obtain ⟨hret, hprog⟩ := readRequest_progress os st' hread
          rw [hstep, List.filter_cons_of_pos (by rw [hintr]; rfl), List.length_cons]
          refine ⟨hret, fun hnone => ?_⟩
          obtain ⟨hcount, hlt⟩ := hprog hnone
          refine ⟨?_, hlt⟩
          dsimp only
          omega
      | done st₁ st' r hintr hrecv hstep hret hle hterm =>
          rw [hstep]
          exact ⟨hret, nofun⟩

end Runs

theorem reading_start {bufsz : Nat} (h : 0 < bufsz) (mem : List UInt8) :
    Reading bufsz (readRequestStart mem) :=
  ⟨h, ⟨show httpRequestZero.path.length < httpPathMax by decide,
    show httpRequestZero.query.length < httpQueryMax by decide⟩, nofun⟩

/-- **Reading a request is bounded and framed safely.**  For a buffer of 1 to
INT_MAX bytes and every sequence of outcomes: there is room before every `recv`;
at most `bufsz` of them succeed, and `bufsz` outcomes that are not interruptions
end the loop; every parse is framed safely; path and query always leave room for
their NUL, whatever `url_decode` is given; and 413 is sent only when the buffer is
full and what it holds is not a complete request. -/
theorem read_bounds (bufsz : Nat) (hpos : 0 < bufsz) (hint : bufsz ≤ intMax) (mem : List UInt8)
    (os : List RecvOutcome) :
    (∀ st ∈ recvCalls bufsz os (readRequestStart mem), 0 < bufsz - st.filled)
      ∧ (parseCalls bufsz os (readRequestStart mem)).length ≤ bufsz
      ∧ (bufsz ≤ (os.filter fun o => !o.interrupted).length →
        (readRequest bufsz os (readRequestStart mem)).2.isSome)
      ∧ (∀ st ∈ parseCalls bufsz os (readRequestStart mem),
        st.filled ≤ bufsz ∧ FramedSafely st.buf st.filled st.req)
      ∧ Terminated (readRequest bufsz os (readRequestStart mem)).1.req
      ∧ (∀ target : List UInt8,
        urlDecodeMem false target target.length httpPathMax
          = .ok (urlDecode false (httpPathMax - 1) target ++ [0]))
      ∧ (413 ∈ (readRequest bufsz os (readRequestStart mem)).1.responses →
        (readRequest bufsz os (readRequestStart mem)).1.filled = bufsz
          ∧ ∀ out, (httpParseRequest (readRequest bufsz os (readRequestStart mem)).1.buf bufsz out).1
              = 0) := by
  have hstart := reading_start hpos mem
  obtain ⟨hret, hprog⟩ := readRequest_progress hint os _ hstart
  refine ⟨?_, ?_, ?_, ?_, hret.terminated, ?_, ?_⟩
  · intro st hst
    have hroom := recvCalls_room hint os _ hstart st hst
    omega
  · have hlen := parseCalls_length hint os _ hstart
    omega
  · intro hmany
    cases hr : (readRequest bufsz os (readRequestStart mem)).2 with
    | some r => rfl
    | none =>
        obtain ⟨hcount, hlt⟩ := hprog hr
        omega
  · intro st hst
    obtain ⟨hle, hterm⟩ := parseCalls_fit hint os _ hstart st hst
    exact ⟨hle, parse_framed (Nat.le_trans hle hint) hterm⟩
  · intro target
    have hdec := @urlDecodeMem_ok false target target.length httpPathMax (Nat.le_refl _)
      (show 0 < httpPathMax by decide)
    rw [List.take_length] at hdec
    exact hdec
  · intro h413
    obtain ⟨hfull, hzero⟩ := hret.oversized h413
    refine ⟨hfull, ?_⟩
    rw [hfull] at hzero
    exact hzero

/-- The buffer of `http_run_session` against a client that goes on for ever, and a
buffer of four bytes that a request line fills. -/
theorem read_bounds_session :
    (∀ os, httpRecvMax ≤ (os.filter fun o => !o.interrupted).length →
        (readRequest httpRecvMax os (readRequestStart [])).2.isSome)
      ∧ (readRequest 4 [.recvIntr, .recvd (ascii "GET /")] (readRequestStart [])).1.filled = 4 :=
  ⟨fun os => (read_bounds httpRecvMax (by decide) (by decide) [] os).2.2.1,
    ((read_bounds 4 (by decide) (by decide) [] [.recvIntr, .recvd (ascii "GET /")]).2.2.2.2.2.2
      (by decide +kernel)).1⟩

end NetServer.Http
