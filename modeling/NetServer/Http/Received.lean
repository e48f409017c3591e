/-
  NetServer.Http.Received — which bytes `http_parse_request` depends on.

  Every scan of the parser is bounded by what was received, except one: the
  value of a `Content-Length` header is read by `strtol`, which takes no length.
  On a line with something but blanks on it `strtol` stops there; a line of
  blanks does not stop it, and it goes on into the next line, or into memory that
  was never received.

  Main results:
    • `parseHeader_line`    — a header is parsed from its own line;
    • `parse_append`        — the parser does not read past the received bytes;
    • `parse_received_iff`  — when both hold: no length header is blank.
-/
import NetServer.Http.Proto

namespace NetServer.Http

open NetServer.Lib

/-! ## §1. The header lines of a request. -/

/-- The header lines before the blank one: the bytes of each line with its
ending, and its length without. -/
def headerLines : Nat → List UInt8 → List (List UInt8 × Nat)
  | 0, _ => []
  | fuel + 1, p =>
      match getLine p with
      | none => []
      | some (0, _) => []
      | some (llen + 1, next) => (p.take next, llen + 1) :: headerLines fuel (p.drop next)

/-- The header lines that a call with these received bytes handles: none when
the request line is not there or has no space. -/
def requestHeaders (received : List UInt8) : List (List UInt8 × Nat) :=
  match getLine received with
  | none => []
  | some (llen, next) =>
      if 32 ∈ received.take llen then headerLines (received.length - next) (received.drop next)
      else []

/-- A `Content-Length` header with nothing but blanks behind the colon. -/
def BlankLength (header : List UInt8 × Nat) : Prop :=
  15 ≤ header.2 ∧ strncaseEq 15 header.1 contentLengthName = true
    ∧ (header.1.drop 15).all isSpace = true

/-- A line ends in a newline, which is not counted in its length. -/
theorem getLine_shape {p : List UInt8} {llen next : Nat} (h : getLine p = some (llen, next)) :
    next ≤ p.length ∧ llen < next ∧ (p.take next).getLast? = some 10 := by
  unfold getLine at h
  split at h
  · cases h
  · rename_i nl hnl
    cases h
    obtain ⟨hlt, hget, -⟩ := List.idxOf?_eq_some_iff.mp hnl
    refine ⟨hlt, ?_, ?_⟩
    · split <;> omega
    · have hnewline : p[nl]? = some 10 := by
        rw [List.getElem?_eq_getElem hlt]
        simpa using hget
      rw [List.take_add_one, hnewline]
      simp

/-- Every header line has its newline behind its text. -/
theorem headerLines_shape :
    ∀ (fuel : Nat) (p : List UInt8), ∀ h ∈ headerLines fuel p,
      h.2 < h.1.length ∧ h.1.getLast? = some 10
  | 0, _ => nofun
  | fuel + 1, p => by
      intro h hh
      unfold headerLines at hh
      split at hh
      · cases hh
      · cases hh
      · rename_i llen next hline
        obtain ⟨hle, hlt, hlast⟩ := getLine_shape hline
        rcases List.mem_cons.mp hh with rfl | hrest
        · refine ⟨?_, hlast⟩
          dsimp only
          rw [List.length_take]
          omega
        · exact headerLines_shape fuel (p.drop next) h hrest

/-! ## §2. One header. -/

/-- **A header is parsed from its own line**, unless it is a blank length. -/
theorem parseHeader_line {line : List UInt8} {llen : Nat} (hlen : llen < line.length)
    (hlast : line.getLast? = some 10) (hblank : ¬ BlankLength (line, llen)) (rest : List UInt8)
    (out : HttpRequest) : parseHeader (line ++ rest) llen out = parseHeader line llen out := by
  have hname : ∀ lit : List UInt8, 0 ∉ lit → lit.length ≤ llen →
      strncaseEq lit.length (line ++ rest) lit = strncaseEq lit.length line lit := by
    intro lit hlit hle
    exact strncaseEq_take lit hlit List.take_left (by omega)
  have hlength : 15 ≤ llen →
      strncaseEq 15 (line ++ rest) contentLengthName = strncaseEq 15 line contentLengthName :=
    hname contentLengthName (by decide)
  have hconnection : 11 ≤ llen →
      strncaseEq 11 (line ++ rest) connectionName = strncaseEq 11 line connectionName :=
    hname connectionName (by decide)
  unfold parseHeader
  by_cases hcl : 15 ≤ llen ∧ strncaseEq 15 line contentLengthName = true
  · have hvalue : strtol ((line ++ rest).drop 15) = strtol (line.drop 15) := by
      rw [List.drop_append_of_le_length (by omega)]
      apply strtol_line
      · rw [List.getLast?_drop, if_neg (by omega), hlast]
      · rw [← Bool.not_eq_true]
        exact fun hall => hblank ⟨hcl.1, hcl.2, hall⟩
    rw [if_pos hcl, if_pos ⟨hcl.1, (hlength hcl.1).trans hcl.2⟩, hvalue]
  · have hcl' : ¬ (15 ≤ llen ∧ strncaseEq 15 (line ++ rest) contentLengthName = true) :=
      fun h => hcl ⟨h.1, (hlength h.1).symm.trans h.2⟩
    rw [if_neg hcl, if_neg hcl']
    by_cases hco : 11 ≤ llen ∧ strncaseEq 11 line connectionName = true
    · have hvalue : ((line ++ rest).drop 11).take (llen - 11) = (line.drop 11).take (llen - 11) := by
        rw [List.drop_append_of_le_length (by omega), List.take_append_of_le_length]
        rw [List.length_drop]
        omega
      rw [if_pos hco, if_pos ⟨hco.1, (hconnection hco.1).trans hco.2⟩, hvalue]
    · have hco' : ¬ (11 ≤ llen ∧ strncaseEq 11 (line ++ rest) connectionName = true) :=
        fun h => hco ⟨h.1, (hconnection h.1).symm.trans h.2⟩
      rw [if_neg hco, if_neg hco']

/-- A blank length takes its value from what stands behind the line. -/
theorem parseHeader_blank {line : List UInt8} {llen : Nat} (hlen : llen < line.length)
    (hblank : BlankLength (line, llen)) (rest : List UInt8) (out : HttpRequest) :
    (parseHeader (line ++ rest) llen out).contentLength = max 0 (strtol rest) := by
  obtain ⟨hlong, hname, hall⟩ := hblank
  have hfits : contentLengthName.length ≤ line.length := Nat.le_of_lt (Nat.lt_of_le_of_lt hlong hlen)
  have htake := strncaseEq_take contentLengthName (by decide)
    (List.take_left : (line ++ rest).take line.length = line) hfits
  have hvalue : strtol ((line ++ rest).drop 15) = strtol rest := by
    rw [List.drop_append_of_le_length (by omega)]
    exact strtol_blank hall rest
  unfold parseHeader
  rw [if_pos ⟨hlong, htake.trans hname⟩, hvalue]
  dsimp only
  split <;> omega

/-! ## §3. The whole request. -/

/-- The header loop reads the received bytes only. -/
theorem headerLoop_append (tail : List UInt8) :
    ∀ (fuel : Nat) (p : List UInt8) (out : HttpRequest),
      (∀ h ∈ headerLines fuel p, ¬ BlankLength h) →
        headerLoop fuel (p ++ tail) p.length out = headerLoop fuel p p.length out
  | 0, _, _, _ => rfl
  | fuel + 1, p, out, hno => by
      have htake : (p ++ tail).take p.length = p := List.take_left
      unfold headerLines at hno
      unfold headerLoop
      rw [htake, List.take_length]
      cases hline : getLine p with
      | none => rfl
      | some line =>
        obtain ⟨llen, next⟩ := line
        obtain ⟨hle, hlt, hlast⟩ := getLine_shape hline
        cases llen with
        | zero => rfl
        | succ llen =>
          rw [hline] at hno
          dsimp only at hno ⊢
          have hrest := headerLoop_append tail fuel (p.drop next)
            (parseHeader p (llen + 1) out) fun h hh => hno h (List.mem_cons_of_mem _ hh)
          have hown := hno (p.take next, llen + 1) List.mem_cons_self
          have hlen : llen + 1 < (p.take next).length := by
            rw [List.length_take]
            omega
          have hheader : parseHeader (p ++ tail) (llen + 1) out = parseHeader p (llen + 1) out := by
            have hall := parseHeader_line hlen hlast hown
            rw [← List.take_append_drop next p, List.append_assoc, hall, hall]
          rw [List.length_drop] at hrest
          rw [List.drop_append_of_le_length hle, hheader, hrest]

theorem parseRequestLine_none {line : List UInt8} (out : HttpRequest) :
    parseRequestLine line out = none ↔ 32 ∉ line := by
  unfold parseRequestLine
  cases h : line.idxOf? 32 with
  | none => simpa using List.idxOf?_eq_none_iff.mp h
  | some sp1 =>
    have hmem : 32 ∈ line := by
      by_contra hno
      rw [List.idxOf?_eq_none_iff.mpr hno] at h
      cases h
    refine iff_of_false ?_ (not_not_intro hmem)
    dsimp only
    split <;> nofun

/-- **The parser reads the received bytes only**, unless a length is blank. -/
theorem parse_append {received : List UInt8} (hno : ∀ h ∈ requestHeaders received, ¬ BlankLength h)
    (tail : List UInt8) (out : HttpRequest) :
    httpParseRequest (received ++ tail) received.length out
      = httpParseRequest received received.length out := by
  unfold requestHeaders at hno
  unfold httpParseRequest
  rw [List.take_left, List.take_length]
  cases hline : getLine received with
  | none => rfl
  | some line =>
    obtain ⟨llen, next⟩ := line
    obtain ⟨hle, hlt, -⟩ := getLine_shape hline
    rw [hline] at hno
    dsimp only at hno ⊢
    rw [List.take_append_of_le_length (by omega), List.drop_append_of_le_length hle]
    cases hreq : parseRequestLine (received.take llen) out with
    | none => rfl
    | some req =>
      have hspace : 32 ∈ received.take llen := by
        by_contra hno
        rw [(parseRequestLine_none out).mpr hno] at hreq
        cases hreq
      rw [if_pos hspace] at hno
      have hloop := headerLoop_append tail (received.length - next) (received.drop next)
        { req with contentLength := 0, keepAlive := false } hno
      rw [List.length_drop] at hloop
      dsimp only
      rw [hloop]

/-! ## §4. The body. -/

theorem parseHeader_contentLength {p : List UInt8} {llen : Nat} {out : HttpRequest}
    (h : out.contentLength ≤ longMax) : (parseHeader p llen out).contentLength ≤ longMax := by
  have hstrtol : ∀ q, strtol q ≤ longMax := by
    intro q
    unfold strtol
    split
    · exact min_le_right _ _
    · unfold longMin longMax
      omega
    · exact min_le_right _ _
  have hzero : (0 : Int) ≤ longMax := by decide
  unfold parseHeader
  split
  · dsimp only
    split
    · exact hzero
    · exact hstrtol _
  · split
    · split
      · exact h
      · exact h
    · exact h

theorem headerLoop_contentLength :
    ∀ (fuel : Nat) (p : List UInt8) (n : Nat) (out : HttpRequest), out.contentLength ≤ longMax →
      (headerLoop fuel p n out).1.contentLength ≤ longMax
  | 0, _, _, _, h => h
  | fuel + 1, p, n, out, h => by
      unfold headerLoop
      split
      · exact h
      · exact h
      · exact headerLoop_contentLength fuel _ _ _ (parseHeader_contentLength h)

/-- The body of a complete request was received. -/
theorem parse_body_received {buf : List UInt8} {len : Nat} {out : HttpRequest}
    (hlen : (len : Int) ≤ longMax)
    (hpos : 0 < (httpParseRequest buf len out).1) :
    (httpParseRequest buf len out).2.body + (httpParseRequest buf len out).2.bodyLen ≤ len := by
  unfold httpParseRequest at hpos ⊢
  cases hline : getLine (buf.take len) with
  | none =>
    rw [hline] at hpos
    exact absurd hpos (Int.lt_irrefl 0)
  | some line =>
    obtain ⟨llen, next⟩ := line
    rw [hline] at hpos
    dsimp only at hpos ⊢
    cases hreq : parseRequestLine (buf.take llen) out with
    | none =>
      rw [hreq] at hpos
      exact absurd hpos (show ¬ (0 : Int) < -1 by decide)
    | some req =>
      rw [hreq] at hpos
      dsimp only at hpos ⊢
      have hbound := headerLoop_contentLength (len - next) (buf.drop next) (len - next)
        { req with contentLength := 0, keepAlive := false } (show (0 : Int) ≤ longMax by decide)
      revert hpos hbound
      generalize headerLoop (len - next) (buf.drop next) (len - next)
        { req with contentLength := 0, keepAlive := false } = res
      obtain ⟨req', left⟩ := res
      cases left with
      | none => exact fun hpos => absurd hpos (Int.lt_irrefl 0)
      | some left =>
        intro hpos hbound
        dsimp only at hpos hbound ⊢
        unfold longMax at hbound hlen
        -- neither summand reaches half of the range, so the sum does not wrap around
        have hsum : (len - left + req'.contentLength.toNat) % 2 ^ 64
            = len - left + req'.contentLength.toNat := Nat.mod_eq_of_lt (by omega)
        rw [hsum] at hpos ⊢
        by_cases hshort : len < len - left + req'.contentLength.toNat
        · rw [if_pos hshort] at hpos
          exact absurd hpos (Int.lt_irrefl 0)
        · rw [if_neg hshort]
          dsimp only
          omega

/-- **When the parser depends on its line and on what was received.**  For every
number of received bytes, the call gives the same value, and with a positive one
the same request, whatever lies behind them, and each header's length is that of
its own line, exactly when no length header is blank.  The body is compared as
the place and length the request gives, and byte by byte for a buffer that can
exist. -/
theorem parse_received_iff (received : List UInt8) (out : HttpRequest) :
    ((∀ tail tail' : List UInt8,
        (httpParseRequest (received ++ tail) received.length out).1
          = (httpParseRequest (received ++ tail') received.length out).1
        ∧ (0 < (httpParseRequest (received ++ tail) received.length out).1 →
          (httpParseRequest (received ++ tail) received.length out).2
            = (httpParseRequest (received ++ tail') received.length out).2
          ∧ ((received.length : Int) ≤ longMax →
            (httpParseRequest (received ++ tail) received.length out).2.bodyBytes (received ++ tail)
              = (httpParseRequest (received ++ tail') received.length out).2.bodyBytes
                  (received ++ tail'))))
      ∧ ∀ h ∈ requestHeaders received, ∀ (rest rest' : List UInt8) (req : HttpRequest),
        (parseHeader (h.1 ++ rest) h.2 req).contentLength
          = (parseHeader (h.1 ++ rest') h.2 req).contentLength)
      ↔ ∀ h ∈ requestHeaders received, ¬ BlankLength h := by
  have hshape : ∀ h ∈ requestHeaders received, h.2 < h.1.length ∧ h.1.getLast? = some 10 := by
    intro h hh
    unfold requestHeaders at hh
    split at hh
    · cases hh
    · split at hh
      · exact headerLines_shape _ _ h hh
      · cases hh
  constructor
  · rintro ⟨-, hown⟩ h hh hblank
    -- a digit behind the line becomes the value
    have hvalue := hown h hh (ascii "0") (ascii "5") out
    rw [parseHeader_blank (hshape h hh).1 hblank, parseHeader_blank (hshape h hh).1 hblank] at hvalue
    exact absurd hvalue (by decide)
  · intro hno
    refine ⟨?_, ?_⟩
    · intro tail tail'
      rw [parse_append hno tail out, parse_append hno tail' out]
      refine ⟨rfl, fun hpos => ⟨rfl, fun hlen => ?_⟩⟩
      have hbody := parse_body_received hlen hpos
      have hbytes : ∀ t, (httpParseRequest received received.length out).2.bodyBytes (received ++ t)
          = (httpParseRequest received received.length out).2.bodyBytes received := by
        intro t
        unfold HttpRequest.bodyBytes
        rw [List.drop_append_of_le_length (by omega), List.take_append_of_le_length]
        rw [List.length_drop]
        omega
      rw [hbytes tail, hbytes tail']
    · intro h hh rest rest' req
      have hline := parseHeader_line (hshape h hh).1 (hshape h hh).2 (hno h hh)
      rw [hline rest req, hline rest' req]

/-- A request with a length and a body, received in full. -/
def postHi : List UInt8 := ascii "POST /x HTTP/1.1\r\nContent-Length: 2\r\n\r\nhi"

theorem parse_received_postHi :
    (∀ tail tail' : List UInt8,
      (httpParseRequest (postHi ++ tail) postHi.length httpRequestZero).1
        = (httpParseRequest (postHi ++ tail') postHi.length httpRequestZero).1)
      ∧ (httpParseRequest postHi postHi.length httpRequestZero).1 = 41 := by
  have hno : ∀ h ∈ requestHeaders postHi, ¬ BlankLength h := by
    unfold BlankLength
    decide +kernel
  have hread := ((parse_received_iff postHi httpRequestZero).mpr hno).1
  exact ⟨fun tail tail' => (hread tail tail').1, by decide +kernel⟩

/-- A request whose length header is blank. -/
def blankLengthRequest : List UInt8 := ascii "POST /x HTTP/1.1\r\nContent-Length:\r\n\r\n"

/-- **A blank length is read from behind the request.**  The same bytes received:
complete with an `x` behind them, incomplete with a `5`. -/
theorem parse_reads_behind :
    (httpParseRequest (blankLengthRequest ++ ascii "x") blankLengthRequest.length httpRequestZero).1
        = 37
      ∧ (httpParseRequest (blankLengthRequest ++ ascii "5") blankLengthRequest.length
          httpRequestZero).1 = 0 := by
  decide +kernel

end NetServer.Http
