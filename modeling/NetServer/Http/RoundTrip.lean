/-
  NetServer.Http.RoundTrip — what a client may write, and that the server
  reads it back.

  A `WireRequest` is one request together with every choice its writer has:
  which path bytes are escaped and with which hex case, the version or none,
  the position and the spelling of Content-Length, and CRLF or a bare LF at
  each line.  Its fields carry the conditions on each part, so that every
  value of the type renders to a request.

  Main results:
    • `parse_render`           — the parser on any part of the rendered bytes:
                                 0 before the end, the request at the end.
    • `readRequest_roundTrip`  — `read_request` returns it for every cut of
                                 the bytes into `recv` results.
-/
import NetServer.Http.Session

namespace NetServer.Http

open NetServer.Lib

/-! ## §1. The parts of a request on the wire. -/

/-- Neither CR nor LF. -/
def NoBreak (l : List UInt8) : Prop := 13 ∉ l ∧ 10 ∉ l

instance (l : List UInt8) : Decidable (NoBreak l) :=
  inferInstanceAs (Decidable (13 ∉ l ∧ 10 ∉ l))

theorem NoBreak.append {a b : List UInt8} (ha : NoBreak a) (hb : NoBreak b) :
    NoBreak (a ++ b) := by
  unfold NoBreak at *
  simp only [List.mem_append, not_or]
  exact ⟨⟨ha.1, hb.1⟩, ha.2, hb.2⟩

inductive LineEnd where
  | crlf
  | lf
  deriving Repr, DecidableEq

def LineEnd.bytes : LineEnd → List UInt8
  | .crlf => [13, 10]
  | .lf => [10]

/-- The hex digit of a nibble, in upper or lower case. -/
def hexDigit (upper : Bool) (n : Nat) : UInt8 :=
  UInt8.ofNat (if n < 10 then 48 + n else if upper then 55 + n else 87 + n)

/-- A path byte and the way it is written. -/
inductive PathByte where
  /-- As itself; a space, `?`, `%`, CR and LF are not. -/
  | literal (b : UInt8) (hb : b ∉ [0, 32, 63, 37, 13, 10])
  /-- As `%XX`, each digit in either case. -/
  | escaped (b : UInt8) (hb : b ≠ 0) (upperHi upperLo : Bool)

def PathByte.byte : PathByte → UInt8
  | .literal b _ => b
  | .escaped b _ _ _ => b

def PathByte.render : PathByte → List UInt8
  | .literal b _ => [b]
  | .escaped b _ upperHi upperLo =>
      [37, hexDigit upperHi (b.toNat / 16), hexDigit upperLo (b.toNat % 16)]

/-- A header other than Content-Length. -/
structure Header where
  text : List UInt8
  ending : LineEnd
  nonempty : text ≠ []
  noBreak : NoBreak text
  notLength : (text.take 15).map toLower ≠ contentLengthName.map toLower

/-- A Content-Length header: the name in any case, blanks, the digits, blanks. -/
structure LengthHeader where
  name : List UInt8
  before : Nat
  digits : List UInt8
  after : Nat
  ending : LineEnd
  isLength : name.map toLower = contentLengthName.map toLower
  nonempty : digits ≠ []
  isDigits : ∀ d ∈ digits, isDigit d = true

def LengthHeader.text (h : LengthHeader) : List UInt8 :=
  h.name ++ (List.replicate h.before 32 ++ h.digits ++ List.replicate h.after 32)

/-- A header line. -/
inductive HeaderLine where
  | other (h : Header)
  | length (h : LengthHeader)

def HeaderLine.text : HeaderLine → List UInt8
  | .other h => h.text
  | .length h => h.text

def HeaderLine.ending : HeaderLine → LineEnd
  | .other h => h.ending
  | .length h => h.ending

def HeaderLine.render (h : HeaderLine) : List UInt8 := h.text ++ h.ending.bytes

/-- A request as a client may send it. -/
structure WireRequest where
  method : List UInt8
  path : List PathByte
  query : Option (List UInt8)
  version : Option (List UInt8)
  lineEnd : LineEnd
  before : List Header
  length : Option LengthHeader
  after : List Header
  blankEnd : LineEnd
  body : List UInt8
  methodOk : 32 ∉ method ∧ NoBreak method
  pathOk : path.length ≤ 1023
  queryOk : ∀ q ∈ query, q.length ≤ 1023 ∧ 32 ∉ q ∧ 0 ∉ q ∧ NoBreak q
  versionOk : ∀ v ∈ version, NoBreak v
  lengthOk : ∀ h ∈ length, decimalValue h.digits = body.length
  bodyOk : length = none → body = []

namespace WireRequest

def pathBytes (r : WireRequest) : List UInt8 := r.path.map PathByte.byte

def target (r : WireRequest) : List UInt8 :=
  r.path.flatMap PathByte.render ++ (r.query.map (63 :: ·)).getD []

def requestLine (r : WireRequest) : List UInt8 :=
  r.method ++ 32 :: (r.target ++ (r.version.map (32 :: ·)).getD [])

def headers (r : WireRequest) : List HeaderLine :=
  r.before.map .other ++ (r.length.map HeaderLine.length).toList ++ r.after.map .other

/-- The request line with its ending. -/
def startLine (r : WireRequest) : List UInt8 := r.requestLine ++ r.lineEnd.bytes

/-- The header lines and the blank line. -/
def headerBlock (r : WireRequest) : List UInt8 :=
  r.headers.flatMap HeaderLine.render ++ r.blankEnd.bytes

/-- Everything before the body. -/
def head (r : WireRequest) : List UInt8 := r.startLine ++ r.headerBlock

def render (r : WireRequest) : List UInt8 := r.head ++ r.body

end WireRequest

/-! ## §2. One line. -/

theorem LineEnd.bytes_eq (e : LineEnd) : ∃ cr, e.bytes = cr ++ [10] ∧ 10 ∉ cr := by
  cases e with
  | crlf => exact ⟨[13], rfl, by decide⟩
  | lf => exact ⟨[], rfl, by decide⟩

theorem LineEnd.bytes_length_pos (e : LineEnd) : 0 < e.bytes.length := by
  cases e <;> decide

/-- `get_line` finds the line before its ending, whichever ending it has. -/
theorem getLine_line (line : List UInt8) (h : NoBreak line) (e : LineEnd) (rest : List UInt8) :
    getLine (line ++ e.bytes ++ rest)
      = some (line.length, (line ++ e.bytes).length) := by
  cases e with
  | crlf =>
    have hidx : (line ++ LineEnd.crlf.bytes ++ rest).idxOf? 10 = some (line.length + 1) := by
      have hno : (10 : UInt8) ∉ line ++ [13] := by simp [h.2]
      have := idxOf?_append_cons (b := rest) hno
      simpa [LineEnd.bytes] using this
    unfold getLine
    rw [hidx]
    simp [LineEnd.bytes]
  | lf =>
    have hidx : (line ++ LineEnd.lf.bytes ++ rest).idxOf? 10 = some line.length := by
      simpa [LineEnd.bytes] using idxOf?_append_cons (b := rest) h.2
    unfold getLine
    rw [hidx]
    -- The byte before the LF is the line's last one, which is no CR.
    have hcr : ¬ (0 < line.length
        ∧ (line ++ LineEnd.lf.bytes ++ rest)[line.length - 1]? = some 13) := by
      rintro ⟨hpos, hlast⟩
      rw [List.append_assoc, List.getElem?_append_left (by omega)] at hlast
      exact h.1 (List.mem_of_getElem? hlast)
    simp only [hcr, if_false]
    simp [LineEnd.bytes]

theorem getLine_none {s : List UInt8} (h : 10 ∉ s) : getLine s = none := by
  unfold getLine
  rw [List.idxOf?_eq_none_iff.mpr h]

/-- A line whose ending has not been received in full is no line yet. -/
theorem getLine_short (line : List UInt8) (h : NoBreak line) (e : LineEnd) (rest : List UInt8)
    {n : Nat} (hn : n < (line ++ e.bytes).length) :
    getLine ((line ++ e.bytes ++ rest).take n) = none := by
  apply getLine_none
  obtain ⟨cr, he, hcr⟩ := e.bytes_eq
  rw [he] at hn ⊢
  have hlen : n ≤ (line ++ cr).length := by
    simp only [List.length_append, List.length_cons, List.length_nil] at hn ⊢
    omega
  have hassoc : line ++ (cr ++ [10]) ++ rest = line ++ cr ++ (10 :: rest) := by simp
  rw [hassoc, List.take_append_of_le_length hlen]
  intro hm
  have hmem := List.mem_of_mem_take hm
  rcases List.mem_append.mp hmem with hl | hc
  · exact h.2 hl
  · exact hcr hc

/-- Received bytes that start with a complete line: the line, and the rest. -/
theorem take_line {p line rest : List UInt8} {n : Nat}
    (hp : p.take n = (line ++ rest).take n) (hn : line.length ≤ n) :
    p.take line.length = line
      ∧ (p.drop line.length).take (n - line.length) = rest.take (n - line.length) := by
  constructor
  · have h := congrArg (List.take line.length) hp
    rw [List.take_take, List.take_take, Nat.min_eq_left hn] at h
    rw [h]
    simp
  · have h := congrArg (List.drop line.length) hp
    rw [List.drop_take, List.drop_take] at h
    rw [h]
    simp

/-! ## §3. The request line. -/

theorem hexDigit_bounds {n : Nat} (hn : n < 16) (upper : Bool) :
    hexval (hexDigit upper n) = some n ∧ hexDigit upper n ∉ [32, 63, 13, 10] := by
  have hall : ∀ n : Fin 16, ∀ upper : Bool,
      hexval (hexDigit upper n) = some n.val ∧ hexDigit upper n ∉ [32, 63, 13, 10] := by
    decide
  exact hall ⟨n, hn⟩ upper

/-- An escape decodes to the byte it was made from. -/
theorem urlEscape_escaped (b : UInt8) (upperHi upperLo : Bool) (rest : List UInt8) :
    urlEscape 37 (hexDigit upperHi (b.toNat / 16) :: hexDigit upperLo (b.toNat % 16) :: rest)
      = some b := by
  have hb : b.toNat < 256 := b.toNat_lt
  have hhi := (hexDigit_bounds (n := b.toNat / 16) (by omega) upperHi).1
  have hlo := (hexDigit_bounds (n := b.toNat % 16) (by omega) upperLo).1
  have hor : (b.toNat / 16) <<< 4 ||| b.toNat % 16 = b.toNat := by
    rw [← Nat.shiftLeft_add_eq_or_of_lt (by omega : b.toNat % 16 < 2 ^ 4), Nat.shiftLeft_eq]
    omega
  simp only [urlEscape, if_true, hhi, hlo, hor, UInt8.ofNat_toNat]

theorem urlEscape_literal {b : UInt8} (hb : b ≠ 37) (rest : List UInt8) :
    urlEscape b rest = none := by
  unfold urlEscape
  split
  · rw [if_neg hb]
  · rfl

/-- `url_decode` gives back the path bytes when they fit. -/
theorem urlDecode_path (path : List PathByte) :
    ∀ room, path.length ≤ room →
      urlDecode false room (path.flatMap PathByte.render) = path.map PathByte.byte := by
  induction path with
  | nil => intro room _; cases room <;> rfl
  | cons pb path ih =>
    intro room hroom
    obtain ⟨room, rfl⟩ : ∃ k, room = k + 1 :=
      ⟨room - 1, by simp only [List.length_cons] at hroom; omega⟩
    have htail := ih room (by simp only [List.length_cons] at hroom; omega)
    cases pb with
    | literal b hb =>
      have hpct : b ≠ 37 := fun h => hb (by simp [h])
      rw [List.flatMap_cons, PathByte.render, List.singleton_append, urlDecode,
        urlEscape_literal hpct]
      simp [htail, PathByte.byte]
    | escaped b hb upperHi upperLo =>
      rw [List.flatMap_cons, PathByte.render, List.cons_append, List.cons_append,
        List.cons_append, List.nil_append, urlDecode, urlEscape_escaped]
      simp [htail, PathByte.byte]

/-- Nothing a path is written with separates the parts of a request line. -/
theorem path_render_clean (path : List PathByte) :
    ∀ b ∈ path.flatMap PathByte.render, b ∉ ([32, 63, 13, 10] : List UInt8) := by
  intro b hb
  obtain ⟨pb, -, hpb⟩ := List.mem_flatMap.mp hb
  cases pb with
  | literal c hc =>
    simp only [PathByte.render, List.mem_singleton] at hpb
    subst hpb
    simp only [List.mem_cons, List.not_mem_nil, or_false, not_or] at hc ⊢
    exact ⟨hc.2.1, hc.2.2.1, hc.2.2.2.2⟩
  | escaped c hc upperHi upperLo =>
    have hlt : c.toNat < 256 := c.toNat_lt
    simp only [PathByte.render, List.mem_cons, List.not_mem_nil, or_false] at hpb
    rcases hpb with rfl | rfl | rfl
    · decide
    · exact (hexDigit_bounds (by omega) upperHi).2
    · exact (hexDigit_bounds (by omega) upperLo).2

theorem path_not_mem (path : List PathByte) {c : UInt8}
    (hc : c ∈ ([32, 63, 13, 10] : List UInt8)) : c ∉ path.flatMap PathByte.render :=
  fun h => path_render_clean path c h hc

namespace WireRequest

/-- The target holds no space: its path is escaped and its query has none. -/
theorem space_not_mem_target (r : WireRequest) : 32 ∉ r.target := by
  unfold target
  rw [List.mem_append, not_or]
  refine ⟨path_not_mem r.path (by decide), ?_⟩
  cases hq : r.query with
  | none => simp
  | some q => simpa using (r.queryOk q hq).2.1

theorem noBreak_target (r : WireRequest) : NoBreak r.target := by
  apply NoBreak.append ⟨path_not_mem r.path (by decide), path_not_mem r.path (by decide)⟩
  cases hq : r.query with
  | none => exact ⟨by simp, by simp⟩
  | some q =>
    obtain ⟨hcr, hlf⟩ := (r.queryOk q hq).2.2.2
    exact ⟨by simpa using hcr, by simpa using hlf⟩

theorem noBreak_requestLine (r : WireRequest) : NoBreak r.requestLine := by
  have hversion : NoBreak ((r.version.map (32 :: ·)).getD []) := by
    cases hv : r.version with
    | none => exact ⟨by simp, by simp⟩
    | some v =>
      obtain ⟨hcr, hlf⟩ := r.versionOk v hv
      exact ⟨by simpa using hcr, by simpa using hlf⟩
  have hrest := r.noBreak_target.append hversion
  exact r.methodOk.2.append ⟨by simpa using hrest.1, by simpa using hrest.2⟩

theorem requestTarget_eq (r : WireRequest) :
    requestTarget (r.target ++ (r.version.map (32 :: ·)).getD []) = r.target := by
  unfold requestTarget
  cases hv : r.version with
  | none =>
    have hnone := List.idxOf?_eq_none_iff.mpr r.space_not_mem_target
    simp only [Option.map_none, Option.getD_none, List.append_nil, hnone]
  | some v =>
    simp only [Option.map_some, Option.getD_some, idxOf?_append_cons r.space_not_mem_target]
    simp

/-- The request line is read back: method, decoded path, raw query. -/
theorem parseRequestLine_requestLine (r : WireRequest) (out : HttpRequest) :
    parseRequestLine r.requestLine out
      = some { out with
          method := parseMethod r.method, path := r.pathBytes, query := r.query.getD [] } := by
  -- The first space ends the method, the second one the target.
  have hsp1 : r.requestLine.idxOf? 32 = some r.method.length :=
    idxOf?_append_cons r.methodOk.1
  have htake : r.requestLine.take r.method.length = r.method := by
    simp [requestLine]
  have hdrop : r.requestLine.drop (r.method.length + 1)
      = r.target ++ (r.version.map (32 :: ·)).getD [] := by
    simp [requestLine, List.drop_append]
  unfold parseRequestLine
  simp only [hsp1, htake, hdrop, requestTarget_eq]
  have hpath := urlDecode_path r.path (httpPathMax - 1) r.pathOk
  cases hq : r.query with
  | none =>
    have htarget : r.target = r.path.flatMap PathByte.render := by simp [target, hq]
    -- an escaped path has no '?' of its own
    have hnone : r.target.idxOf? 63 = none := by
      rw [htarget]
      exact List.idxOf?_eq_none_iff.mpr (path_not_mem r.path (by decide))
    simp only [hnone]
    rw [htarget, hpath]
    rfl
  | some q =>
    have htarget : r.target = r.path.flatMap PathByte.render ++ 63 :: q := by simp [target, hq]
    -- the first '?' is the one behind the path
    have hq63 : r.target.idxOf? 63 = some (r.path.flatMap PathByte.render).length := by
      rw [htarget]
      exact idxOf?_append_cons (path_not_mem r.path (by decide))
    have hcut : (q.take (httpQueryMax - 1)) = q :=
      List.take_of_length_le ((r.queryOk q hq).1)
    simp only [hq63]
    rw [htarget, pathBytes, ← hpath]
    generalize r.path.flatMap PathByte.render = enc
    simp [hcut, List.drop_append, List.drop_eq_nil_of_le (Nat.le_succ enc.length)]

end WireRequest

/-! ## §4. The headers. -/

/-- A Connection header that mentions keep-alive. -/
def Header.keepsAlive (h : Header) : Bool :=
  decide (11 ≤ h.text.length ∧ strncaseEq 11 h.text connectionName
    ∧ keepAliveToken <:+: h.text.drop 11)

/-- What a header line does to the request that is being filled. -/
def HeaderLine.apply (out : HttpRequest) : HeaderLine → HttpRequest
  | .length h => { out with contentLength := decimalValue h.digits }
  | .other h => { out with keepAlive := out.keepAlive || h.keepsAlive }

theorem Header.not_strncaseEq (h : Header) : ¬ strncaseEq 15 h.text contentLengthName = true := by
  intro heq
  exact h.notLength ((strncaseEq_iff contentLengthName (by decide) h.text).mp heq)

theorem parseHeader_other (h : Header) {p : List UInt8}
    (hp : p.take h.text.length = h.text) (out : HttpRequest) :
    parseHeader p h.text.length out = (HeaderLine.other h).apply out := by
  -- The comparison reads the buffer, but only bytes of this line.
  have hlength : ¬ (15 ≤ h.text.length ∧ strncaseEq 15 p contentLengthName = true) := by
    rintro ⟨hlen, heq⟩
    exact h.not_strncaseEq
      ((strncaseEq_take contentLengthName (by decide) hp hlen).symm.trans heq)
  have hdrop : (p.drop 11).take (h.text.length - 11) = h.text.drop 11 := by
    rw [← List.drop_take, hp]
  unfold parseHeader
  rw [if_neg hlength, hdrop]
  by_cases hconn : 11 ≤ h.text.length ∧ strncaseEq 11 p connectionName = true
  · have hconn' : strncaseEq 11 h.text connectionName = true :=
      (strncaseEq_take connectionName (by decide) hp hconn.1).symm.trans hconn.2
    rw [if_pos hconn]
    by_cases hka : keepAliveToken <:+: h.text.drop 11
    · simp [hka, HeaderLine.apply, Header.keepsAlive, hconn.1, hconn']
    · simp [hka, HeaderLine.apply, Header.keepsAlive]
  · have hconn' : ¬ (11 ≤ h.text.length ∧ strncaseEq 11 h.text connectionName = true) := by
      rintro ⟨hlen, heq⟩
      exact hconn ⟨hlen, (strncaseEq_take connectionName (by decide) hp hlen).trans heq⟩
    rw [if_neg hconn]
    simp only [HeaderLine.apply, Header.keepsAlive]
    have : ¬ (11 ≤ h.text.length ∧ strncaseEq 11 h.text connectionName = true
        ∧ keepAliveToken <:+: h.text.drop 11) := fun hc => hconn' ⟨hc.1, hc.2.1⟩
    simp [this]

theorem LengthHeader.name_length (h : LengthHeader) : h.name.length = 15 := by
  have hlen := congrArg List.length h.isLength
  rw [List.length_map, List.length_map] at hlen
  exact hlen

theorem LengthHeader.noBreak (h : LengthHeader) : NoBreak h.text := by
  have hname : ∀ c ∈ h.name, c ≠ 13 ∧ c ≠ 10 := by
    intro c hc
    have hmem : toLower c ∈ contentLengthName.map toLower := by
      rw [← h.isLength]
      exact List.mem_map_of_mem hc
    have hne : ∀ x ∈ contentLengthName.map toLower, x ≠ toLower 13 ∧ x ≠ toLower 10 := by
      decide +kernel
    exact ⟨fun he => (hne _ hmem).1 (he ▸ rfl), fun he => (hne _ hmem).2 (he ▸ rfl)⟩
  have hdigits : ∀ c ∈ h.digits, c ≠ 13 ∧ c ≠ 10 := by
    intro c hc
    have hd := h.isDigits c hc
    exact ⟨fun he => by subst he; exact absurd hd (by decide),
      fun he => by subst he; exact absurd hd (by decide)⟩
  unfold NoBreak LengthHeader.text
  simp only [List.mem_append, List.mem_replicate, not_or]
  exact ⟨⟨fun hm => (hname _ hm).1 rfl, ⟨by simp, fun hm => (hdigits _ hm).1 rfl⟩, by simp⟩,
    ⟨fun hm => (hname _ hm).2 rfl, ⟨by simp, fun hm => (hdigits _ hm).2 rfl⟩, by simp⟩⟩

/-- The number stops at a blank or at the line's own ending, so what lies
behind the line is not read. -/
theorem strtol_lengthHeader (h : LengthHeader) (rest : List UInt8)
    (hmax : (decimalValue h.digits : Int) ≤ longMax) :
    strtol ((h.text ++ h.ending.bytes ++ rest).drop 15) = decimalValue h.digits := by
  have hstop : (List.replicate h.after 32 ++ h.ending.bytes ++ rest).takeWhile isDigit = [] := by
    cases hafter : h.after with
    | zero => cases h.ending <;> rfl
    | succ k => rfl
  have hdrop : (h.text ++ h.ending.bytes ++ rest).drop 15
      = List.replicate h.before 32 ++ h.digits
        ++ (List.replicate h.after 32 ++ h.ending.bytes ++ rest) := by
    rw [← h.name_length]
    simp [LengthHeader.text]
  rw [hdrop]
  exact strtol_field h.before h.nonempty h.isDigits hstop hmax

theorem parseHeader_length (h : LengthHeader) {p : List UInt8}
    (hp : p.take (h.text ++ h.ending.bytes).length = h.text ++ h.ending.bytes)
    (hmax : (decimalValue h.digits : Int) ≤ longMax) (out : HttpRequest) :
    parseHeader p h.text.length out = (HeaderLine.length h).apply out := by
  have hlen : 15 ≤ h.text.length := by
    have := h.name_length
    simp only [LengthHeader.text, List.length_append]
    omega
  have hname : (h.text.take 15) = h.name := by
    rw [← h.name_length]
    simp [LengthHeader.text]
  -- `strtol` may read on behind the line: the line's end stops it.
  have hsplit : p = h.text ++ h.ending.bytes ++ p.drop (h.text ++ h.ending.bytes).length := by
    conv_lhs => rw [← List.take_append_drop (h.text ++ h.ending.bytes).length p, hp]
  have htext : p.take h.text.length = h.text := by
    rw [hsplit]
    simp
  have heq : strncaseEq 15 p contentLengthName = true := by
    have htake : p.take 15 = h.name := by
      rw [← hname, ← htext, List.take_take, Nat.min_eq_left hlen]
    apply (strncaseEq_iff contentLengthName (by decide) p).mpr
    show (p.take 15).map toLower = _
    rw [htake, h.isLength]
  unfold parseHeader
  rw [if_pos ⟨hlen, heq⟩, hsplit, strtol_lengthHeader h _ hmax]
  simp [HeaderLine.apply]

namespace HeaderLine

theorem noBreak (h : HeaderLine) : NoBreak h.text := by
  cases h with
  | other h => exact h.noBreak
  | length h => exact h.noBreak

theorem text_length_pos (h : HeaderLine) : 0 < h.text.length := by
  cases h with
  | other h => exact List.length_pos_of_ne_nil h.nonempty
  | length h =>
    have := h.name_length
    simp only [text, LengthHeader.text, List.length_append]
    omega

/-- The length a header announces is a `long`. -/
def Fits : HeaderLine → Prop
  | .other _ => True
  | .length h => (decimalValue h.digits : Int) ≤ longMax

theorem parseHeader_eq (h : HeaderLine) (hfits : h.Fits) {p : List UInt8}
    (hp : p.take h.render.length = h.render) (out : HttpRequest) :
    parseHeader p h.text.length out = h.apply out := by
  cases h with
  | length h => exact parseHeader_length h hp hfits out
  | other h =>
    apply parseHeader_other h
    have htake := congrArg (List.take h.text.length) hp
    rw [List.take_take, Nat.min_eq_left (by simp [render, text])] at htake
    simpa [render, text] using htake

/-- One round of the header loop takes up one complete header line. -/
theorem headerLoop_line (h : HeaderLine) (hfits : h.Fits) {p rest : List UInt8} {n fuel : Nat}
    (hp : p.take n = (h.render ++ rest).take n) (hn : h.render.length ≤ n) (out : HttpRequest) :
    headerLoop (fuel + 1) p n out
      = headerLoop fuel (p.drop h.render.length) (n - h.render.length) (h.apply out) := by
  have hline : getLine (p.take n) = some (h.text.length, h.render.length) := by
    rw [hp, List.take_append, List.take_of_length_le hn]
    exact getLine_line h.text h.noBreak h.ending _
  obtain ⟨k, hk⟩ : ∃ k, h.text.length = k + 1 :=
    ⟨h.text.length - 1, by have := h.text_length_pos; omega⟩
  rw [← parseHeader_eq h hfits (take_line hp hn).1 out]
  rw [headerLoop, hline, hk]

end HeaderLine

/-- The header loop over complete headers and a complete blank line. -/
theorem headerLoop_complete (blank : LineEnd) (rest : List UInt8) :
    ∀ (hs : List HeaderLine) (fuel n : Nat) (p : List UInt8) (out : HttpRequest),
      (∀ h ∈ hs, h.Fits) →
      p.take n = (hs.flatMap HeaderLine.render ++ blank.bytes ++ rest).take n →
      (hs.flatMap HeaderLine.render ++ blank.bytes).length ≤ n → n ≤ fuel →
      headerLoop fuel p n out
        = (hs.foldl HeaderLine.apply out,
            some (n - (hs.flatMap HeaderLine.render ++ blank.bytes).length))
  | [], fuel, n, p, out, _, hp, hn, hfuel => by
    have hpos := blank.bytes_length_pos
    simp only [List.flatMap_nil, List.nil_append] at hp hn ⊢
    obtain ⟨fuel, rfl⟩ : ∃ k, fuel = k + 1 := ⟨fuel - 1, by omega⟩
    -- the blank line ends the loop
    have hline : getLine (p.take n) = some (0, blank.bytes.length) := by
      rw [hp, List.take_append, List.take_of_length_le hn]
      exact getLine_line [] ⟨by simp, by simp⟩ blank _
    rw [headerLoop, hline]
    rfl
  | h :: hs, fuel, n, p, out, hfits, hp, hn, hfuel => by
    have hpos := h.text_length_pos
    have hrender : h.render.length = h.text.length + h.ending.bytes.length := by
      simp [HeaderLine.render]
    simp only [List.flatMap_cons, List.append_assoc, List.length_append] at hp hn ⊢
    obtain ⟨fuel, rfl⟩ : ∃ k, fuel = k + 1 := ⟨fuel - 1, by omega⟩
    have hle : h.render.length ≤ n := by omega
    rw [h.headerLoop_line (hfits h List.mem_cons_self) hp hle]
    -- one line is read, and the induction goes on behind it
    have htail := headerLoop_complete blank rest hs fuel (n - h.render.length)
      (p.drop h.render.length) (h.apply out) (fun x hx => hfits x (List.mem_cons_of_mem _ hx))
      (by simpa [List.append_assoc] using (take_line hp hle).2)
      (by simp only [List.length_append]; omega) (by omega)
    rw [htail, List.foldl_cons]
    simp only [List.length_append]
    congr 2
    omega

/-- Before the blank line is complete the header loop asks for more. -/
theorem headerLoop_incomplete (blank : LineEnd) (rest : List UInt8) :
    ∀ (hs : List HeaderLine) (fuel n : Nat) (p : List UInt8) (out : HttpRequest),
      (∀ h ∈ hs, h.Fits) →
      p.take n = (hs.flatMap HeaderLine.render ++ blank.bytes ++ rest).take n →
      n < (hs.flatMap HeaderLine.render ++ blank.bytes).length →
      (headerLoop fuel p n out).2 = none
  | hs, 0, n, p, out, _, _, _ => rfl
  | [], fuel + 1, n, p, out, _, hp, hn => by
    simp only [List.flatMap_nil, List.nil_append] at hp hn
    have hline : getLine (p.take n) = none := by
      rw [hp]
      exact getLine_short [] ⟨by simp, by simp⟩ blank rest hn
    rw [headerLoop, hline]
  | h :: hs, fuel + 1, n, p, out, hfits, hp, hn => by
    simp only [List.flatMap_cons, List.append_assoc, List.length_append] at hp hn
    by_cases hle : h.render.length ≤ n
    · rw [h.headerLoop_line (hfits h List.mem_cons_self) hp hle]
      exact headerLoop_incomplete blank rest hs fuel (n - h.render.length)
        (p.drop h.render.length) (h.apply out) (fun x hx => hfits x (List.mem_cons_of_mem _ hx))
        (by simpa [List.append_assoc] using (take_line hp hle).2)
        (by simp only [List.length_append]; omega)
    · -- The cut is inside this header's line.
      have hline : getLine (p.take n) = none := by
        rw [hp]
        exact getLine_short h.text h.noBreak h.ending _ (by simpa [HeaderLine.render] using hle)
      rw [headerLoop, hline]

/-! ## §5. The whole request. -/

theorem foldl_other (hs : List Header) (out : HttpRequest) :
    (hs.map HeaderLine.other).foldl HeaderLine.apply out
      = { out with keepAlive := out.keepAlive || hs.any Header.keepsAlive } := by
  induction hs generalizing out with
  | nil => simp
  | cons h hs ih => simp [ih, HeaderLine.apply, Bool.or_assoc]

namespace WireRequest

/-- What the server has to make of the request. -/
def request (r : WireRequest) : HttpRequest :=
  { method := parseMethod r.method
    path := r.pathBytes
    query := r.query.getD []
    contentLength := r.body.length
    body := r.head.length
    bodyLen := r.body.length
    keepAlive := (r.before ++ r.after).any Header.keepsAlive }

/-- All headers together: the body's length, and whether one keeps the
connection alive. -/
theorem foldl_headers (r : WireRequest) {out : HttpRequest} (hlength : out.contentLength = 0)
    (halive : out.keepAlive = false) :
    r.headers.foldl HeaderLine.apply out
      = { out with
          contentLength := r.body.length
          keepAlive := (r.before ++ r.after).any Header.keepsAlive } := by
  unfold headers
  rw [List.foldl_append, List.foldl_append, foldl_other, foldl_other]
  cases hlen : r.length with
  | none => simp [r.bodyOk hlen, hlength, halive]
  | some h => simp [HeaderLine.apply, r.lengthOk h hlen, halive]

theorem headers_fit (r : WireRequest) (hsize : r.render.length ≤ httpRecvMax) :
    ∀ h ∈ r.headers, h.Fits := by
  intro h hmem
  cases h with
  | other h => trivial
  | length h =>
    have hlen : r.length = some h := by
      simp only [headers, List.mem_append, List.mem_map, reduceCtorEq, and_false, exists_false,
        Option.mem_toList, Option.map_eq_some_iff, HeaderLine.length.injEq, or_false,
        false_or] at hmem
      obtain ⟨h', hh', rfl⟩ := hmem
      exact hh'
    have hbody : r.body.length ≤ r.render.length := by simp [render]
    show ((decimalValue h.digits : Nat) : Int) ≤ 2 ^ 63 - 1
    rw [r.lengthOk h hlen]
    unfold httpRecvMax at hsize
    omega

theorem render_length (r : WireRequest) :
    r.render.length = r.startLine.length + r.headerBlock.length + r.body.length := by
  simp only [render, head, List.length_append]

/-- The received bytes once the request line is complete. -/
theorem startLine_received (r : WireRequest) {buf : List UInt8} {len : Nat}
    (hbuf : buf.take len = r.render.take len) (hlen : r.startLine.length ≤ len) :
    getLine (buf.take len) = some (r.requestLine.length, r.startLine.length)
      ∧ buf.take r.requestLine.length = r.requestLine
      ∧ (buf.drop r.startLine.length).take (len - r.startLine.length)
        = (r.headerBlock ++ r.body).take (len - r.startLine.length) := by
  have hrender : r.render = r.startLine ++ (r.headerBlock ++ r.body) := by
    simp [render, head]
  rw [hrender] at hbuf
  obtain ⟨hline, hrest⟩ := take_line hbuf hlen
  refine ⟨?_, ?_, hrest⟩
  · rw [hbuf, List.take_append, List.take_of_length_le hlen]
    exact getLine_line r.requestLine r.noBreak_requestLine r.lineEnd _
  · have htake := congrArg (List.take r.requestLine.length) hline
    rw [List.take_take, Nat.min_eq_left (by simp [startLine])] at htake
    simpa [startLine] using htake

/-- Once the head is complete the parser knows how long the request is: it
asks for more before that, and returns the request then. -/
theorem parse_head (r : WireRequest) (hsize : r.render.length ≤ httpRecvMax)
    {buf : List UInt8} {len : Nat} (hbuf : buf.take len = r.render.take len)
    (hhead : r.head.length ≤ len) (out : HttpRequest) :
    ∃ out', httpParseRequest buf len out
      = if len < r.render.length then (0, out') else ((r.render.length : Int), r.request) := by
  have hlens := r.render_length
  have hheadLen : r.head.length = r.startLine.length + r.headerBlock.length := by
    simp only [head, List.length_append]
  obtain ⟨hline, htake, hrest⟩ := r.startLine_received hbuf (by omega)
  have hloop := headerLoop_complete r.blankEnd r.body r.headers _ _ _
    { out with
      method := parseMethod r.method, path := r.pathBytes, query := r.query.getD [],
      contentLength := 0, keepAlive := false }
    (r.headers_fit hsize) hrest (by show r.headerBlock.length ≤ _; omega) (le_refl _)
  rw [foldl_headers r rfl rfl, show r.headers.flatMap HeaderLine.render ++ r.blankEnd.bytes
    = r.headerBlock from rfl] at hloop
  unfold httpRecvMax at hsize
  have hleft : len - (len - r.startLine.length - r.headerBlock.length) = r.head.length := by
    omega
  -- A request that fits the buffer overflows neither `size_t` nor `int`.
  have htotal : (r.head.length + r.body.length) % 2 ^ 64 = r.render.length := by
    omega
  have hint : Int.bmod (r.render.length : Int) (2 ^ 32) = r.render.length :=
    Int.bmod_eq_of_le (by omega) (by omega)
  unfold httpParseRequest
  rw [hline]
  simp only [htake, parseRequestLine_requestLine, hloop, Int.toNat_natCast, hleft, htotal, hint]
  exact ⟨_, rfl⟩

/-- The request is complete: the parser returns its length and its contents,
whatever lies behind it in memory. -/
theorem parse_render (r : WireRequest) (hsize : r.render.length ≤ httpRecvMax)
    {buf : List UInt8} (hbuf : buf.take r.render.length = r.render) (out : HttpRequest) :
    httpParseRequest buf r.render.length out = ((r.render.length : Int), r.request) := by
  obtain ⟨out', hparse⟩ := r.parse_head hsize (hbuf.trans List.take_length.symm)
    (by simp [render]) out
  rw [hparse, if_neg (lt_irrefl _)]

/-- On every strict prefix the parser asks for more. -/
theorem parse_prefix (r : WireRequest) (hsize : r.render.length ≤ httpRecvMax)
    {buf : List UInt8} {len : Nat} (hlen : len < r.render.length)
    (hbuf : buf.take len = r.render.take len) (out : HttpRequest) :
    (httpParseRequest buf len out).1 = 0 := by
  by_cases hhead : r.head.length ≤ len
  · obtain ⟨out', hparse⟩ := r.parse_head hsize hbuf hhead out
    rw [hparse, if_pos hlen]
  · by_cases hstart : r.startLine.length ≤ len
    · -- The cut is inside the headers or the blank line.
      obtain ⟨hline, htake, hrest⟩ := r.startLine_received hbuf hstart
      have hshort : len - r.startLine.length < r.headerBlock.length := by
        simp only [head, List.length_append] at hhead
        omega
      unfold httpParseRequest
      rw [hline]
      simp only [htake, parseRequestLine_requestLine]
      have hloop := headerLoop_incomplete r.blankEnd r.body r.headers
        (len - r.startLine.length) _ _
        { out with
          method := parseMethod r.method, path := r.pathBytes, query := r.query.getD [],
          contentLength := 0, keepAlive := false }
        (r.headers_fit hsize) hrest hshort
      split
      · rfl
      · rename_i heq
        rw [heq] at hloop
        exact absurd hloop (by simp)
    · -- The cut is inside the request line.
      have hline : getLine (buf.take len) = none := by
        rw [hbuf, render, head, startLine, List.append_assoc]
        exact getLine_short r.requestLine r.noBreak_requestLine r.lineEnd _
          (by simpa [startLine] using hstart)
      unfold httpParseRequest
      rw [hline]

end WireRequest

/-! ## §6. Any cut of the bytes into `recv` results. -/

/-- The bytes an outcome brings. -/
def RecvOutcome.bytes : RecvOutcome → List UInt8
  | .recvd bytes => bytes
  | _ => []

/-- Outcomes of a client that sends and does not stop: chunks of at least one
byte, and interrupted calls between them. -/
def RecvOutcome.Sending : RecvOutcome → Prop
  | .pollIntr | .recvIntr => True
  | .recvd bytes => bytes ≠ []
  | _ => False

instance : DecidablePred RecvOutcome.Sending
  | .pollIntr | .recvIntr => .isTrue trivial
  | .recvd bytes => inferInstanceAs (Decidable (bytes ≠ []))
  | .pollError | .pollTimeout | .recvError | .recvClosed => .isFalse id

/-- The buffer holds the first bytes of the request and there are more to come. -/
structure Receiving (r : WireRequest) (st : ReadState) : Prop where
  received : st.buf.take st.filled = r.render.take st.filled
  filled_le : st.filled ≤ st.buf.length
  more : st.filled < r.render.length

/-- One chunk more in the buffer. -/
theorem fill_received {r : WireRequest} {st : ReadState} (h : Receiving r st)
    {c rest : List UInt8} (hc : c ++ rest = r.render.drop st.filled) :
    (st.fill c).buf.take (st.fill c).filled = r.render.take (st.fill c).filled
      ∧ (st.fill c).filled ≤ (st.fill c).buf.length
      ∧ rest = r.render.drop (st.fill c).filled
      ∧ (st.fill c).filled ≤ r.render.length := by
  have hlen : (st.buf.take st.filled).length = st.filled := by
    rw [List.length_take, Nat.min_eq_left h.filled_le]
  have hrender : r.render = r.render.take st.filled ++ (c ++ rest) := by
    rw [hc, List.take_append_drop]
  have hpre : (r.render.take st.filled ++ c).length = st.filled + c.length := by
    rw [List.length_append, ← h.received, hlen]
  -- `recv` writes behind what is there, so the buffer starts with more of the request.
  have hbuf : (st.buf.take st.filled ++ c ++ st.buf.drop (st.filled + c.length)).take
      (st.filled + c.length) = r.render.take st.filled ++ c := by
    rw [h.received, ← hpre, List.take_left]
  have htake : r.render.take (st.filled + c.length) = r.render.take st.filled ++ c := by
    conv_lhs => rw [hrender, ← List.append_assoc, ← hpre, List.take_left]
  have hdrop : r.render.drop (st.filled + c.length) = rest := by
    conv_lhs => rw [hrender, ← List.append_assoc, ← hpre, List.drop_left]
  refine ⟨hbuf.trans htake.symm, ?_, hdrop.symm, ?_⟩
  · show st.filled + c.length
      ≤ (st.buf.take st.filled ++ c ++ st.buf.drop (st.filled + c.length)).length
    rw [List.length_append, List.length_append, hlen]
    omega
  · show st.filled + c.length ≤ r.render.length
    rw [← hpre, ← htake]
    exact List.length_take_le' _ _

/-- A chunk that does not complete the request leaves the loop waiting. -/
theorem afterRecv_prefix (r : WireRequest) (hsize : r.render.length ≤ httpRecvMax)
    {st : ReadState} (h : Receiving r st) :
    ∃ req, afterRecv httpRecvMax st = ({ st with req := req }, none) := by
  have hzero := r.parse_prefix hsize h.more h.received st.req
  have hroom : ¬ httpRecvMax ≤ st.filled := by have := h.more; omega
  refine ⟨(httpParseRequest st.buf st.filled st.req).2, ?_⟩
  unfold afterRecv
  simp [hzero, hroom]

theorem afterRecv_complete (r : WireRequest) (hsize : r.render.length ≤ httpRecvMax)
    {st : ReadState} (hbuf : st.buf.take r.render.length = r.render)
    (hfilled : st.filled = r.render.length) :
    afterRecv httpRecvMax st
      = ({ st with req := r.request }, some (r.render.length : Int)) := by
  have hpos : (0 : Int) < r.render.length := by
    have : 0 < r.render.length := by simp [WireRequest.render, WireRequest.head,
      WireRequest.startLine, WireRequest.requestLine]
    omega
  unfold afterRecv
  rw [hfilled, r.parse_render hsize hbuf st.req]
  simp only [hpos, if_true]

/-- `read_request` from any point of the transfer to its return. -/
theorem readRequest_receiving (r : WireRequest) (hsize : r.render.length ≤ httpRecvMax) :
    ∀ (outcomes : List RecvOutcome) (st : ReadState), Receiving r st →
      (∀ o ∈ outcomes, o.Sending) →
      outcomes.flatMap RecvOutcome.bytes = r.render.drop st.filled →
      ∃ st', readRequest httpRecvMax outcomes st = (st', some (r.render.length : Int))
        ∧ st'.req = r.request ∧ st'.buf.take r.render.length = r.render
        ∧ st'.responses = st.responses
  | [], st, h, _, hbytes => by
    have hmore := h.more
    have hlen := congrArg List.length hbytes
    rw [List.flatMap_nil, List.length_nil, List.length_drop] at hlen
    omega
  | o :: os, st, h, hsend, hbytes => by
    have hsendTail : ∀ o ∈ os, o.Sending := fun x hx => hsend x (List.mem_cons_of_mem _ hx)
    have hsendHead := hsend o List.mem_cons_self
    cases o with
    | pollIntr => exact readRequest_receiving r hsize os st h hsendTail hbytes
    | recvIntr => exact readRequest_receiving r hsize os st h hsendTail hbytes
    | pollError => exact absurd hsendHead id
    | pollTimeout => exact absurd hsendHead id
    | recvError => exact absurd hsendHead id
    | recvClosed => exact absurd hsendHead id
    | recvd c =>
      obtain ⟨b, bs, rfl⟩ := List.exists_cons_of_ne_nil hsendHead
      have hchunk : (b :: bs) ++ os.flatMap RecvOutcome.bytes = r.render.drop st.filled := hbytes
      obtain ⟨hbuf, hle, hrest, hfilled⟩ := fill_received h hchunk
      have hfit : (b :: bs).take (httpRecvMax - st.filled) = b :: bs := by
        apply List.take_of_length_le
        have : (st.fill (b :: bs)).filled = st.filled + (b :: bs).length := rfl
        omega
      have hstep : readRequestStep httpRecvMax st (.recvd (b :: bs))
          = afterRecv httpRecvMax (st.fill (b :: bs)) := by
        simp only [readRequestStep, hfit]
      unfold readRequest
      rw [hstep]
      by_cases hmore : (st.fill (b :: bs)).filled < r.render.length
      · -- More to come: the loop goes round with one chunk more.
        have hrec : Receiving r (st.fill (b :: bs)) := ⟨hbuf, hle, hmore⟩
        obtain ⟨req, hafter⟩ := afterRecv_prefix r hsize hrec
        rw [hafter]
        exact readRequest_receiving r hsize os { st.fill (b :: bs) with req := req }
          ⟨hbuf, hle, hmore⟩ hsendTail hrest
      · have hall : (st.fill (b :: bs)).filled = r.render.length := by omega
        rw [hall, List.take_length] at hbuf
        rw [afterRecv_complete r hsize hbuf hall]
        exact ⟨_, rfl, rfl, hbuf, rfl⟩

/-- The request the server has read is the one that was sent. -/
structure ReadBack (r : WireRequest) (st : ReadState) : Prop where
  method : ∀ m, m ≠ HttpMethod.other → (st.req.method = m ↔ r.method = httpMethodName m)
  path : st.req.path = r.pathBytes
  query : st.req.query = r.query.getD []
  contentLength : st.req.contentLength = r.body.length
  bodyLen : st.req.bodyLen = r.body.length
  body : st.req.bodyBytes st.buf = r.body
  noResponse : st.responses = []

theorem parseMethod_iff (token : List UInt8) {m : HttpMethod} (hm : m ≠ .other) :
    parseMethod token = m ↔ token = httpMethodName m := by
  constructor
  · intro h
    subst h
    unfold parseMethod at hm ⊢
    repeat' split
    all_goals first | assumption | skip
    simp_all
  · rintro rfl
    cases m <;> rfl

/-- **HTTP request round trip under any fragmentation.**  For every request a
client may write, of at most HTTP_RECV_MAX bytes: the parser returns 0 on
every strict prefix, with anything behind it in memory; and for every cut of
the bytes into `recv` results, with interrupted calls anywhere between them,
`read_request` returns the exact total and the request that was written. -/
theorem readRequest_roundTrip (r : WireRequest) (hsize : r.render.length ≤ httpRecvMax) :
    (∀ (buf : List UInt8) (len : Nat) (out : HttpRequest), len < r.render.length →
        buf.take len = r.render.take len → (httpParseRequest buf len out).1 = 0)
      ∧ ∀ (buf : List UInt8) (outcomes : List RecvOutcome), (∀ o ∈ outcomes, o.Sending) →
          outcomes.flatMap RecvOutcome.bytes = r.render →
          ∃ st, readRequest httpRecvMax outcomes (readRequestStart buf)
              = (st, some (r.render.length : Int))
            ∧ ReadBack r st := by
  refine ⟨fun buf len out hlen hbuf => r.parse_prefix hsize hlen hbuf out, ?_⟩
  intro buf outcomes hsend hbytes
  have hpos : 0 < r.render.length := by
    simp [WireRequest.render, WireRequest.head, WireRequest.startLine, WireRequest.requestLine]
  have hstart : Receiving r (readRequestStart buf) := ⟨rfl, Nat.zero_le _, hpos⟩
  obtain ⟨st, hread, hreq, hbuf, hresp⟩ :=
    readRequest_receiving r hsize outcomes _ hstart hsend hbytes
  refine ⟨st, hread, ?_⟩
  -- The body is what stands behind the head in the buffer.
  have hbody : (st.buf.drop r.head.length).take r.body.length = r.body := by
    have hrender : st.buf.take (r.head ++ r.body).length = (r.head ++ r.body).take
        (r.head ++ r.body).length := hbuf.trans List.take_length.symm
    have hcut := (take_line hrender (by simp)).2
    simpa using hcut
  exact
    { method := fun m hm => by rw [hreq]; exact parseMethod_iff r.method hm
      path := by rw [hreq]; rfl
      query := by rw [hreq]; rfl
      contentLength := by rw [hreq]; rfl
      bodyLen := by rw [hreq]; rfl
      body := by rw [hreq]; exact hbody
      noResponse := hresp }

/-- A post with an escaped space in its path, a lower-case length header that
ends in a bare LF, and five bytes of body. -/
def postHello : WireRequest where
  method := ascii "POST"
  path := [.literal 47 (by decide), .escaped 32 (by decide) true false]
  query := some (ascii "user=ann")
  version := some (ascii "HTTP/1.1")
  lineEnd := .crlf
  before := [⟨ascii "Host: x", .lf, by decide, by decide, by decide⟩]
  length := some ⟨ascii "content-length:", 1, ascii "05", 0, .lf, by decide +kernel, by decide,
    by decide +kernel⟩
  after := []
  blankEnd := .crlf
  body := ascii "hello"
  methodOk := by decide
  pathOk := by decide
  queryOk := by decide
  versionOk := by decide
  lengthOk := by decide
  bodyOk := by decide

/-- The cut falls inside the escape of the path. -/
theorem readRequest_roundTrip_postHello :
    ∃ st, readRequest httpRecvMax
        [.recvd (postHello.render.take 8), .recvIntr, .recvd (postHello.render.drop 8)]
        (readRequestStart []) = (st, some 63) ∧ ReadBack postHello st := by
  have hsize : postHello.render.length = 63 := by decide
  obtain ⟨-, hread⟩ := readRequest_roundTrip postHello (by rw [hsize]; decide)
  rw [hsize] at hread
  exact hread [] _ (by decide) (by decide)

end NetServer.Http
