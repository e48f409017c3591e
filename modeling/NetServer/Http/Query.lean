/-
  NetServer.Http.Query — query parameters: `http_query_get` against the form
  decoding.

  `httpQueryGetMem` is the source's pointer walk with every access checked: a
  read outside the current segment or a write outside `out` is a fault.  The
  reference (`FirstValue`, `formDecode`) speaks of segments and bytes only.

    • `queryGetMem_eq` — the walk never faults and computes `httpQueryGet`;
    • `urlDecode_form` — decoding is the reference decoding, cut to the room;
    • `httpQueryGet_render` — a rendered list of pairs is read back;
    • `query_lookup` — the three together.
-/
import NetServer.Http.RoundTrip

namespace NetServer.Http

open NetServer.Lib

/-! ## §1. The walk over the query with checked accesses. -/

/-- An access outside the region it is meant for. -/
inductive QueryFault where
  | readPast (i : Nat)
  | writePast (i : Nat)
  deriving Repr, DecidableEq

/-- `p[i]` as an access to the region `[p, p + n)`. -/
def regionRead (p : List UInt8) (n i : Nat) : Except QueryFault UInt8 :=
  if i < n then
    match p[i]? with
    | some b => .ok b
    | none => .error (.readPast i)
  else .error (.readPast i)

/-- `dst[di++] = b`, where `dst` holds the `di` bytes written so far. -/
def outWrite (dsz : Nat) (dst : List UInt8) (b : UInt8) : Except QueryFault (List UInt8) :=
  if dst.length < dsz then .ok (dst ++ [b]) else .error (.writePast dst.length)

/-- The byte an iteration of `url_decode` writes when no escape starts. -/
def plainByte (plusSpace : Bool) (ch : UInt8) : UInt8 := if ch = 43 ∧ plusSpace then 32 else ch

/-- One iteration of `url_decode` at index `i`: the byte to write and the next
index.  The digits are read one after the other, and only when both are inside
the region. -/
def urlDecodeRound (plusSpace : Bool) (src : List UInt8) (slen i : Nat) :
    Except QueryFault (UInt8 × Nat) :=
  (regionRead src slen i).bind fun ch =>
    if ch = 37 ∧ i + 2 < slen then
      (regionRead src slen (i + 1)).bind fun c1 =>
        match hexval c1 with
        | none => .ok (plainByte plusSpace ch, i + 1)
        | some h =>
            (regionRead src slen (i + 2)).bind fun c2 =>
              match hexval c2 with
              | none => .ok (plainByte plusSpace ch, i + 1)
              | some l => .ok (UInt8.ofNat (h <<< 4 ||| l), i + 3)
    else .ok (plainByte plusSpace ch, i + 1)

/-- The loop of `url_decode`.  The index grows in every iteration, so `slen`
of them are enough. -/
def urlDecodeLoop (plusSpace : Bool) (src : List UInt8) (slen dsz : Nat) :
    Nat → Nat → List UInt8 → Except QueryFault (List UInt8)
  | 0, _, dst => .ok dst
  | fuel + 1, i, dst =>
      if i < slen ∧ dst.length + 1 < dsz then
        (urlDecodeRound plusSpace src slen i).bind fun r =>
          (outWrite dsz dst r.1).bind fun dst => urlDecodeLoop plusSpace src slen dsz fuel r.2 dst
      else .ok dst

/-- `url_decode`: the bytes written to `dst`, its NUL included. -/
def urlDecodeMem (plusSpace : Bool) (src : List UInt8) (slen dsz : Nat) :
    Except QueryFault (List UInt8) :=
  (urlDecodeLoop plusSpace src slen dsz slen 0 []).bind fun dst => outWrite dsz dst 0

/-- `!strncmp (p, key, klen)` from index `j` on, inside a segment of `seg`
bytes. -/
def keyMatches (p : List UInt8) (seg : Nat) : List UInt8 → Nat → Except QueryFault Bool
  | [], _ => .ok true
  | k :: key, j =>
      (regionRead p seg j).bind fun c => if c = k then keyMatches p seg key (j + 1) else .ok false

/-- The condition on a segment of `seg` bytes. -/
def segmentMatches (p : List UInt8) (seg : Nat) (key : List UInt8) : Except QueryFault Bool :=
  if seg > key.length then
    (regionRead p seg key.length).bind fun c =>
      if c = 61 then keyMatches p seg key 0 else .ok false
  else .ok false

/-- One round of `http_query_get` on the segment `[p, p + seg)`: the bytes
written to `out` if it has the key. -/
def queryRound (key : List UInt8) (outsz : Nat) (p : List UInt8) (seg : Nat) :
    Except QueryFault (Option (List UInt8)) :=
  (segmentMatches p seg key).bind fun found =>
    if found then
      (urlDecodeMem true (p.drop (key.length + 1)) (seg - key.length - 1) outsz).map some
    else .ok none

/-- The loop of `http_query_get` at `p`; `strchr` and `strlen` stop at the
NUL. -/
def queryGetLoop (key : List UInt8) (outsz : Nat) :
    Nat → List UInt8 → Except QueryFault (Option (List UInt8))
  | 0, _ => .ok none
  | fuel + 1, p =>
      if (cString p).length = 0 then .ok none
      else
        match (cString p).idxOf? 38 with
        | some a =>
            (queryRound key outsz p a).bind fun out =>
              if out.isSome then .ok out else queryGetLoop key outsz fuel (p.drop (a + 1))
        | none => queryRound key outsz p (cString p).length

/-- `http_query_get` on the memory from `query` on. -/
def httpQueryGetMem (query key : List UInt8) (outsz : Nat) :
    Except QueryFault (Option (List UInt8)) :=
  queryGetLoop key outsz ((cString query).length + 1) query

/-! ## §2. No access leaves its region. -/

theorem regionRead_ok {p : List UInt8} {n i : Nat} {b : UInt8} (hi : i < n) (hb : p[i]? = some b) :
    regionRead p n i = .ok b := by
  simp only [regionRead, if_pos hi, hb]

theorem outWrite_ok {dsz : Nat} {dst : List UInt8} (b : UInt8) (h : dst.length < dsz) :
    outWrite dsz dst b = .ok (dst ++ [b]) := if_pos h

/-- What an iteration at `ch :: rest` comes to. -/
def decodeRound (plusSpace : Bool) (i : Nat) (ch : UInt8) (rest : List UInt8) : UInt8 × Nat :=
  match urlEscape ch rest with
  | some b => (b, i + 3)
  | none => (plainByte plusSpace ch, i + 1)

theorem two_of_length {l : List UInt8} (h : 2 ≤ l.length) : ∃ c1 c2 tail, l = c1 :: c2 :: tail := by
  cases l with
  | nil => exact absurd h (by decide)
  | cons c1 l =>
      cases l with
      | nil => exact absurd h (by simp)
      | cons c2 tail => exact ⟨c1, c2, tail, rfl⟩

/-- Without two bytes behind it nothing is an escape. -/
theorem urlEscape_short (ch : UInt8) {rest : List UInt8} (h : rest.length < 2) :
    urlEscape ch rest = none := by
  cases rest with
  | nil => rfl
  | cons c1 rest =>
      cases rest with
      | nil => rfl
      | cons c2 tail =>
          rw [List.length_cons, List.length_cons] at h
          omega

/-- One iteration stays inside the region and reads what `urlEscape` looks at. -/
theorem urlDecodeRound_ok {plusSpace : Bool} {src rest : List UInt8} {slen i : Nat} {ch : UInt8}
    (hlen : slen ≤ src.length) (hsrc : (src.take slen).drop i = ch :: rest) :
    urlDecodeRound plusSpace src slen i = .ok (decodeRound plusSpace i ch rest) := by
  have hget : ∀ k b, (ch :: rest)[k]? = some b → i + k < slen ∧ src[i + k]? = some b := by
    intro k b hk
    rw [← hsrc, List.getElem?_drop, List.getElem?_take] at hk
    split_ifs at hk with hlt
    exact ⟨hlt, hk⟩
  have hrest : rest.length + 1 = slen - i := by
    have hl := congrArg List.length hsrc
    rw [List.length_drop, List.length_take, Nat.min_eq_left hlen, List.length_cons] at hl
    omega
  obtain ⟨hi, hch⟩ : i < slen ∧ src[i]? = some ch := hget 0 ch rfl
  unfold urlDecodeRound decodeRound
  rw [regionRead_ok hi hch]
  show (if ch = 37 ∧ i + 2 < slen then _ else _) = _
  by_cases hesc : ch = 37
  · by_cases hroom : i + 2 < slen
    · -- both digits are inside
      obtain ⟨c1, c2, tail, rfl⟩ := two_of_length (show 2 ≤ rest.length by omega)
      obtain ⟨h1, hc1⟩ := hget 1 c1 rfl
      obtain ⟨h2, hc2⟩ := hget 2 c2 rfl
      rw [if_pos ⟨hesc, hroom⟩, regionRead_ok h1 hc1, regionRead_ok h2 hc2]
      simp only [urlEscape, if_pos hesc, Except.bind]
      cases hexval c1 <;> cases hexval c2 <;> rfl
    · rw [if_neg (fun hc => hroom hc.2)]
      rw [urlEscape_short ch (by omega)]
  · rw [if_neg (fun hc => hesc hc.1), urlEscape_literal hesc]

/-- An iteration consumes at least one byte, and the model's decoding takes the
same one. -/
theorem urlDecode_round (plusSpace : Bool) (room i : Nat) (ch : UInt8) (rest l : List UInt8)
    (hl : l.drop i = ch :: rest) :
    i < (decodeRound plusSpace i ch rest).2
      ∧ urlDecode plusSpace (room + 1) (l.drop i)
          = (decodeRound plusSpace i ch rest).1
            :: urlDecode plusSpace room (l.drop (decodeRound plusSpace i ch rest).2) := by
  have hdrop : ∀ k, l.drop (i + (k + 1)) = rest.drop k := by
    intro k
    rw [← List.drop_drop, hl, List.drop_succ_cons]
  have h1 : l.drop (i + 1) = rest := hdrop 0
  have h3 : l.drop (i + 3) = rest.drop 2 := hdrop 2
  rw [hl]
  unfold decodeRound
  cases hesc : urlEscape ch rest with
  | some b =>
      refine ⟨by simp, ?_⟩
      rw [urlDecode, hesc, h3]
  | none =>
      refine ⟨by simp, ?_⟩
      rw [urlDecode, hesc, h1]
      unfold plainByte
      dsimp only
      split_ifs <;> rfl

/-- **The decoding loop** stays inside both regions and writes what `urlDecode`
computes. -/
theorem urlDecodeLoop_ok {plusSpace : Bool} {src : List UInt8} {slen dsz : Nat}
    (hlen : slen ≤ src.length) (hdsz : 0 < dsz) :
    ∀ (fuel i : Nat) (dst : List UInt8), slen ≤ i + fuel → dst.length < dsz →
      urlDecodeLoop plusSpace src slen dsz fuel i dst
        = .ok (dst ++ urlDecode plusSpace (dsz - 1 - dst.length) ((src.take slen).drop i))
  | 0, i, dst, hfuel, _ => by
      have hnil : (src.take slen).drop i = [] := by
        apply List.drop_eq_nil_of_le
        rw [List.length_take]
        omega
      rw [hnil]
      cases hroom : dsz - 1 - dst.length <;> simp [urlDecodeLoop, urlDecode]
  | fuel + 1, i, dst, hfuel, hdst => by
      unfold urlDecodeLoop
      by_cases hgo : i < slen ∧ dst.length + 1 < dsz
      · obtain ⟨room, hroom⟩ : ∃ room, dsz - 1 - dst.length = room + 1 :=
          ⟨dsz - 2 - dst.length, by omega⟩
        obtain ⟨ch, rest, hsrc⟩ : ∃ ch rest, (src.take slen).drop i = ch :: rest := by
          cases hd : (src.take slen).drop i with
          | cons ch rest => exact ⟨ch, rest, rfl⟩
          | nil =>
              have hl := List.drop_eq_nil_iff.mp hd
              rw [List.length_take] at hl
              omega
        obtain ⟨hnext, hdec⟩ := urlDecode_round plusSpace room i ch rest _ hsrc
        have hdst' : (dst ++ [(decodeRound plusSpace i ch rest).1]).length = dst.length + 1 := by
          simp
        rw [if_pos hgo, urlDecodeRound_ok hlen hsrc]
        show (outWrite dsz dst _).bind _ = _
        rw [outWrite_ok _ hdst]
        show urlDecodeLoop plusSpace src slen dsz fuel _ (dst ++ [_]) = _
        rw [urlDecodeLoop_ok hlen hdsz fuel _ _ (by omega) (by omega), hroom, hdec, hdst',
          List.append_assoc]
        congr 3
        rw [show dsz - 1 - (dst.length + 1) = room by omega]
        rfl
      · rw [if_neg hgo]
        congr 1
        by_cases hi : i < slen
        · have hroom : dsz - 1 - dst.length = 0 := by omega
          rw [hroom, urlDecode, List.append_nil]
        · have hnil : (src.take slen).drop i = [] := by
            apply List.drop_eq_nil_of_le
            rw [List.length_take]
            omega
          rw [hnil]
          cases hroom : dsz - 1 - dst.length <;> simp [urlDecode]

theorem urlDecode_length (plusSpace : Bool) (room : Nat) (src : List UInt8) :
    (urlDecode plusSpace room src).length ≤ room := by
  induction room generalizing src with
  | zero => simp [urlDecode]
  | succ room ih =>
      cases src with
      | nil => simp [urlDecode]
      | cons ch rest =>
          unfold urlDecode
          split
          · exact Nat.succ_le_succ (ih _)
          · split_ifs
            · exact Nat.succ_le_succ (ih _)
            · exact Nat.succ_le_succ (ih _)

/-- **`url_decode`** writes its bytes and the NUL inside `dst`. -/
theorem urlDecodeMem_ok {plusSpace : Bool} {src : List UInt8} {slen dsz : Nat}
    (hlen : slen ≤ src.length) (hdsz : 0 < dsz) :
    urlDecodeMem plusSpace src slen dsz
      = .ok (urlDecode plusSpace (dsz - 1) (src.take slen) ++ [0]) := by
  unfold urlDecodeMem
  rw [urlDecodeLoop_ok hlen hdsz slen 0 [] (by omega) hdsz]
  show outWrite dsz (urlDecode plusSpace (dsz - 1 - 0) ((src.take slen).drop 0)) 0 = _
  rw [List.drop_zero, Nat.sub_zero, outWrite_ok]
  have hle := urlDecode_length plusSpace (dsz - 1) (src.take slen)
  omega

/-- The comparison with the key stays inside a longer segment. -/
theorem keyMatches_ok {p : List UInt8} {seg : Nat} (hseg : seg ≤ p.length) :
    ∀ (key : List UInt8) (j : Nat), j + key.length ≤ seg →
      keyMatches p seg key j = .ok (decide ((p.drop j).take key.length = key))
  | [], j, _ => by simp [keyMatches]
  | k :: key, j, hj => by
      rw [List.length_cons] at hj
      have hlt : j < p.length := by omega
      have hget : p[j]? = some p[j] := List.getElem?_eq_getElem hlt
      unfold keyMatches
      rw [regionRead_ok (by omega) hget]
      show (if p[j] = k then keyMatches p seg key (j + 1) else .ok false) = _
      rw [List.drop_eq_getElem_cons hlt, List.length_cons, List.take_succ_cons]
      by_cases hk : p[j] = k
      · rw [if_pos hk, keyMatches_ok hseg key (j + 1) (by omega)]
        simp [hk]
      · rw [if_neg hk]
        simp [hk]

/-- The condition on a segment, read from memory. -/
theorem segmentMatches_ok {p : List UInt8} {seg : Nat} (key : List UInt8) (hseg : seg ≤ p.length) :
    segmentMatches p seg key = .ok (querySegment key (p.take seg)).isSome := by
  unfold segmentMatches querySegment
  rw [List.length_take, Nat.min_eq_left hseg]
  by_cases hlt : seg > key.length
  · have hkey : key.length < p.length := by omega
    have hget : p[key.length]? = some p[key.length] := List.getElem?_eq_getElem hkey
    have htake : (p.take seg)[key.length]? = p[key.length]? := List.getElem?_take_of_lt hlt
    have hpre : (p.take seg).take key.length = (p.drop 0).take key.length := by
      rw [List.take_take, Nat.min_eq_left (by omega), List.drop_zero]
    rw [if_pos hlt, regionRead_ok hlt hget, htake, hget, hpre]
    show (if p[key.length] = 61 then keyMatches p seg key 0 else .ok false) = _
    by_cases heq : p[key.length] = 61
    · rw [if_pos heq, keyMatches_ok hseg key 0 (by omega)]
      by_cases hm : (p.drop 0).take key.length = key
      · rw [decide_eq_true hm, if_pos ⟨hlt, congrArg some heq, hm⟩]
        rfl
      · rw [decide_eq_false hm, if_neg (fun hc => hm hc.2.2)]
        rfl
    · rw [if_neg heq, if_neg (fun hc => heq (Option.some.inj hc.2.1))]
      rfl
  · rw [if_neg hlt, if_neg (fun hc => hlt hc.1)]
    rfl

theorem querySegment_eq_some {key seg value : List UInt8} :
    querySegment key seg = some value ↔ seg = key ++ 61 :: value := by
  unfold querySegment
  constructor
  · intro h
    split_ifs at h with hc
    obtain ⟨hlt, heq, hkey⟩ := hc
    obtain rfl : _ = value := Option.some.inj h
    have hget : seg[key.length] = 61 := by
      rw [List.getElem?_eq_getElem hlt] at heq
      exact Option.some.inj heq
    calc seg = seg.take key.length ++ seg.drop key.length := (List.take_append_drop _ _).symm
      _ = key ++ seg.drop key.length := by rw [hkey]
      _ = key ++ 61 :: seg.drop (key.length + 1) := by
          rw [List.drop_eq_getElem_cons hlt, hget]
  · rintro rfl
    simp

/-- One round reads inside its segment and writes inside `out`. -/
theorem queryRound_ok {key seg post : List UInt8} {outsz : Nat} (hout : 0 < outsz) :
    queryRound key outsz (seg ++ post) seg.length
      = .ok ((querySegment key seg).map fun value => urlDecode true (outsz - 1) value ++ [0]) := by
  have hle : seg.length ≤ (seg ++ post).length := by
    rw [List.length_append]
    omega
  unfold queryRound
  rw [segmentMatches_ok key hle, List.take_left]
  cases hq : querySegment key seg with
  | none => rfl
  | some value =>
      obtain rfl := querySegment_eq_some.mp hq
      show (urlDecodeMem true _ _ outsz).map some = _
      have hlen : (key ++ 61 :: value).length - key.length - 1 = value.length := by
        rw [List.length_append, List.length_cons]
        omega
      have hdrop : (key ++ 61 :: value ++ post).drop (key.length + 1) = value ++ post := by
        rw [List.append_assoc, ← List.drop_drop, List.drop_left]
        rfl
      rw [hlen, hdrop, urlDecodeMem_ok (by rw [List.length_append]; omega) hout, List.take_left]
      rfl

/-- **The walk never faults** and finds what `httpQueryGet` does. -/
theorem queryGetLoop_ok {key : List UInt8} {outsz : Nat} (hout : 0 < outsz) (tail : List UInt8) :
    ∀ (fuel : Nat) (text : List UInt8), 0 ∉ text → text.length < fuel →
      queryGetLoop key outsz fuel (text ++ 0 :: tail)
        = .ok (((text.splitOn 38).findSome? (querySegment key)).map
            fun value => urlDecode true (outsz - 1) value ++ [0])
  | 0, text, _, hlt => by omega
  | fuel + 1, text, hnul, hlt => by
      unfold queryGetLoop
      rw [cString_append_nul hnul]
      by_cases hnil : text.length = 0
      · -- an empty segment has no key
        rw [if_pos hnil, List.length_eq_zero_iff.mp hnil, List.splitOn_nil]
        have hseg : querySegment key [] = none := if_neg (fun hc => absurd hc.1 (Nat.not_lt_zero _))
        rw [List.findSome?_cons, hseg]
        rfl
      rw [if_neg hnil]
      by_cases hamp : (38 : UInt8) ∈ text
      · obtain ⟨seg, rest, rfl, hseg⟩ := List.eq_append_cons_of_mem hamp
        have hrest : 0 ∉ rest := fun h => hnul (List.mem_append_right _ (List.mem_cons_of_mem _ h))
        rw [List.length_append, List.length_cons] at hlt
        have hdrop : (seg ++ 38 :: rest ++ 0 :: tail).drop (seg.length + 1) = rest ++ 0 :: tail := by
          rw [List.append_assoc, ← List.drop_drop, List.drop_left]
          rfl
        have hround := @queryRound_ok key seg (38 :: rest ++ 0 :: tail) outsz hout
        rw [← List.append_assoc] at hround
        rw [idxOf?_append_cons hseg, List.splitOn_append_cons_self_of_not_mem hseg,
          List.findSome?_cons]
        dsimp only
        rw [hround, hdrop, queryGetLoop_ok hout tail fuel rest hrest (by omega)]
        cases querySegment key seg <;> rfl
      · rw [List.idxOf?_eq_none_iff.mpr hamp, List.splitOn_eq_singleton hamp]
        dsimp only
        rw [queryRound_ok hout, List.findSome?_cons]
        cases querySegment key text <;> rfl

theorem queryGetMem_eq {query : List UInt8} (key tail : List UInt8) {outsz : Nat}
    (hnul : 0 ∉ query) (hout : 0 < outsz) :
    httpQueryGetMem (query ++ 0 :: tail) key outsz
      = .ok ((httpQueryGet query key outsz).map (· ++ [0])) := by
  unfold httpQueryGetMem httpQueryGet
  rw [queryGetLoop_ok hout tail _ query hnul (by rw [cString_append_nul hnul]; omega),
    cString_of_notMem hnul, Option.map_map]
  rfl

/-! ## §3. The reference decoding. -/

/-- The value of a hex digit, found among the sixteen in either case. -/
def digitValue? (c : UInt8) : Option Nat :=
  (List.range 16).find? fun n => c == hexDigit true n || c == hexDigit false n

/-- The form decoding: `+` is a space, `%XX` the byte, and a `%` that no two
digits follow stands for itself. -/
def formDecode : List UInt8 → List UInt8
  | [] => []
  | c :: d :: e :: rest =>
      if c = 37 then
        match digitValue? d, digitValue? e with
        | some h, some l => UInt8.ofNat (16 * h + l) :: formDecode rest
        | _, _ => 37 :: formDecode (d :: e :: rest)
      else (if c = 43 then 32 else c) :: formDecode (d :: e :: rest)
  | c :: rest => (if c = 43 then 32 else c) :: formDecode rest

/-- `value` stands in the first segment of the query that has the key. -/
def FirstValue (query key value : List UInt8) : Prop :=
  ∃ before after, query.splitOn 38 = before ++ (key ++ 61 :: value) :: after
    ∧ ∀ seg ∈ before, ∀ v, seg ≠ key ++ 61 :: v

/-- The source's digit table is the reference's. -/
theorem digitValue?_eq (c : UInt8) :
    digitValue? c = hexval c ∧ ∀ h, hexval c = some h → h < 16 := by
  have htable : ∀ n : Fin 256, digitValue? (UInt8.ofNat n) = hexval (UInt8.ofNat n)
      ∧ (hexval (UInt8.ofNat n)).all (· < 16) = true := by decide +kernel
  obtain ⟨heq, hlt⟩ := htable ⟨c.toNat, c.toNat_lt⟩
  rw [UInt8.ofNat_toNat] at heq hlt
  refine ⟨heq, ?_⟩
  intro h hh
  rw [hh] at hlt
  exact of_decide_eq_true hlt

theorem formDecode_escape {c b : UInt8} {rest : List UInt8} (h : urlEscape c rest = some b) :
    formDecode (c :: rest) = b :: formDecode (rest.drop 2) := by
  by_cases hlen : rest.length < 2
  · rw [urlEscape_short c hlen] at h
    cases h
  obtain ⟨d, e, tail, rfl⟩ := two_of_length (Nat.le_of_not_lt hlen)
  simp only [urlEscape] at h
  split_ifs at h with hc
  rw [formDecode, if_pos hc, (digitValue?_eq d).1, (digitValue?_eq e).1]
  cases hd : hexval d with
  | none => simp [hd] at h
  | some hi =>
      cases he : hexval e with
      | none => simp [hd, he] at h
      | some lo =>
          simp only [hd, he, Option.some.injEq] at h
          have hlo : lo < 2 ^ 4 := (digitValue?_eq e).2 lo he
          rw [← h, ← Nat.shiftLeft_add_eq_or_of_lt hlo, Nat.shiftLeft_eq, Nat.mul_comm]
          rfl

theorem formDecode_plain {c : UInt8} {rest : List UInt8} (h : urlEscape c rest = none) :
    formDecode (c :: rest) = plainByte true c :: formDecode rest := by
  have hplain : plainByte true c = if c = 43 then 32 else c := by
    unfold plainByte
    simp
  rw [hplain]
  by_cases hlen : rest.length < 2
  · cases rest with
    | nil => rfl
    | cons d rest =>
        cases rest with
        | nil => rfl
        | cons e tail =>
            rw [List.length_cons, List.length_cons] at hlen
            omega
  obtain ⟨d, e, tail, rfl⟩ := two_of_length (Nat.le_of_not_lt hlen)
  rw [formDecode]
  by_cases hc : c = 37
  · simp only [urlEscape, if_pos hc] at h
    rw [if_pos hc, (digitValue?_eq d).1, (digitValue?_eq e).1, hc]
    cases hd : hexval d with
    | none => rfl
    | some hi =>
        cases he : hexval e with
        | none => rfl
        | some lo => simp [hd, he] at h
  · rw [if_neg hc]

/-- **`url_decode` is the form decoding, cut to the room.** -/
theorem urlDecode_form (room : Nat) (src : List UInt8) :
    urlDecode true room src = (formDecode src).take room := by
  induction room generalizing src with
  | zero => simp [urlDecode]
  | succ room ih =>
      cases src with
      | nil => simp [urlDecode, formDecode]
      | cons ch rest =>
          unfold urlDecode
          cases hesc : urlEscape ch rest with
          | some b =>
              rw [formDecode_escape hesc, List.take_succ_cons]
              exact congrArg _ (ih _)
          | none =>
              rw [formDecode_plain hesc, List.take_succ_cons, ← ih]
              dsimp only
              unfold plainByte
              split_ifs <;> rfl

/-- A lookup is about the first segment with the key. -/
theorem httpQueryGet_eq_some {query key out : List UInt8} {outsz : Nat} (hnul : 0 ∉ query) :
    httpQueryGet query key outsz = some out
      ↔ ∃ value, FirstValue query key value ∧ out = (formDecode value).take (outsz - 1) := by
  unfold httpQueryGet
  rw [cString_of_notMem hnul, Option.map_eq_some_iff]
  have hnone : ∀ seg, querySegment key seg = none ↔ ∀ v, seg ≠ key ++ 61 :: v := by
    intro seg
    rw [Option.eq_none_iff_forall_ne_some]
    exact forall_congr' fun v => not_congr querySegment_eq_some
  constructor
  · rintro ⟨value, hfind, rfl⟩
    obtain ⟨before, seg, after, hsplit, hseg, hbefore⟩ := List.findSome?_eq_some_iff.mp hfind
    obtain rfl := querySegment_eq_some.mp hseg
    exact ⟨value, ⟨before, after, hsplit, fun s hs => (hnone s).mp (hbefore s hs)⟩,
      urlDecode_form _ _⟩
  · rintro ⟨value, ⟨before, after, hsplit, hbefore⟩, rfl⟩
    refine ⟨value, ?_, urlDecode_form _ _⟩
    exact List.findSome?_eq_some_iff.mpr ⟨before, _, after, hsplit,
      querySegment_eq_some.mpr rfl, fun s hs => (hnone s).mpr (hbefore s hs)⟩

theorem httpQueryGet_isSome {query key : List UInt8} {outsz : Nat} (hnul : 0 ∉ query) :
    (httpQueryGet query key outsz).isSome
      ↔ ∃ seg ∈ query.splitOn 38, ∃ value, seg = key ++ 61 :: value := by
  unfold httpQueryGet
  rw [cString_of_notMem hnul, Option.isSome_map, List.findSome?_isSome_iff]
  constructor
  · rintro ⟨seg, hmem, hsome⟩
    obtain ⟨value, hvalue⟩ := Option.isSome_iff_exists.mp hsome
    exact ⟨seg, hmem, value, querySegment_eq_some.mp hvalue⟩
  · rintro ⟨seg, hmem, value, hseg⟩
    exact ⟨seg, hmem, Option.isSome_iff_exists.mpr ⟨value, querySegment_eq_some.mpr hseg⟩⟩

/-! ## §4. Rendered pairs are read back. -/

/-- The bytes `encodeURIComponent` leaves alone. -/
def unreserved (b : UInt8) : Bool :=
  (65 ≤ b && b ≤ 90) || (97 ≤ b && b ≤ 122) || (48 ≤ b && b ≤ 57)
    || (ascii "-_.!~*'()").contains b

/-- Percent-encoding in the manner of `encodeURIComponent`, the digits in upper
or lower case. -/
def encodeComponent (upper : Bool) (value : List UInt8) : List UInt8 :=
  value.flatMap fun b =>
    if unreserved b then [b] else [37, hexDigit upper (b.toNat / 16), hexDigit upper (b.toNat % 16)]

/-- Pairs as a query: the values encoded, the pairs joined with `&`. -/
def renderQuery (upper : Bool) (pairs : List (List UInt8 × List UInt8)) : List UInt8 :=
  [38].intercalate (pairs.map fun p => p.1 ++ 61 :: encodeComponent upper p.2)

/-- A key has no separator and no NUL. -/
def PlainKey (key : List UInt8) : Prop := 0 ∉ key ∧ 38 ∉ key ∧ 61 ∉ key

instance (key : List UInt8) : Decidable (PlainKey key) :=
  inferInstanceAs (Decidable (0 ∉ key ∧ 38 ∉ key ∧ 61 ∉ key))

theorem unreserved_ne {b : UInt8} (h : unreserved b = true) :
    b ≠ 0 ∧ b ≠ 37 ∧ b ≠ 38 ∧ b ≠ 43 := by
  refine ⟨?_, ?_, ?_, ?_⟩ <;> rintro rfl <;> exact absurd h (by decide +kernel)

/-- A hex digit is no separator. -/
theorem hexDigit_ne {n : Nat} (hn : n < 16) (upper : Bool) :
    hexDigit upper n ≠ 0 ∧ hexDigit upper n ≠ 38 := by
  have hval := (hexDigit_bounds hn upper).1
  refine ⟨?_, ?_⟩ <;> intro heq <;> rw [heq] at hval <;> exact absurd hval (by simp [hexval])

/-- Encoded values have no separator and no NUL. -/
theorem encode_separators (upper : Bool) (value : List UInt8) :
    0 ∉ encodeComponent upper value ∧ 38 ∉ encodeComponent upper value := by
  have hbyte : ∀ c ∈ encodeComponent upper value, c ≠ 0 ∧ c ≠ 38 := by
    intro c hc
    obtain ⟨b, hb, hc⟩ := List.mem_flatMap.mp hc
    have hlt := b.toNat_lt
    split_ifs at hc with hun
    · rw [List.mem_singleton] at hc
      subst hc
      exact ⟨(unreserved_ne hun).1, (unreserved_ne hun).2.2.1⟩
    · simp only [List.mem_cons, List.not_mem_nil, or_false] at hc
      rcases hc with rfl | rfl | rfl
      · decide
      · exact hexDigit_ne (by omega) upper
      · exact hexDigit_ne (by omega) upper
  exact ⟨fun hc => (hbyte 0 hc).1 rfl, fun hc => (hbyte 38 hc).2 rfl⟩

/-- **Decoding undoes the encoding.** -/
theorem formDecode_encode (upper : Bool) (value : List UInt8) :
    formDecode (encodeComponent upper value) = value := by
  induction value with
  | nil => rfl
  | cons b value ih =>
      show formDecode ((if unreserved b then _ else _) ++ encodeComponent upper value) = _
      by_cases hun : unreserved b = true
      · obtain ⟨-, hpct, -, hplus⟩ := unreserved_ne hun
        have hplain : plainByte true b = b := if_neg (fun hc => hplus hc.1)
        rw [if_pos hun, List.singleton_append, formDecode_plain (urlEscape_literal hpct _), hplain,
          ih]
      · rw [if_neg hun, List.cons_append, List.cons_append, List.cons_append, List.nil_append,
          formDecode_escape (urlEscape_escaped b upper upper _)]
        exact congrArg _ ih

/-- The pair of a rendered segment. -/
theorem querySegment_render {key k : List UInt8} (hkey : PlainKey key) (hk : PlainKey k)
    (value : List UInt8) :
    querySegment key (k ++ 61 :: value) = if k = key then some value else none := by
  by_cases heq : k = key
  · rw [if_pos heq, querySegment_eq_some, heq]
  · rw [if_neg heq, Option.eq_none_iff_forall_ne_some]
    intro v hv
    have happ := querySegment_eq_some.mp hv
    -- the first `=` ends both keys
    have hidx := congrArg (List.idxOf? 61) happ
    rw [idxOf?_append_cons hk.2.2, idxOf?_append_cons hkey.2.2] at hidx
    exact heq (List.append_inj_left happ (Option.some.inj hidx))

/-- The segments of a rendered query have no NUL and no separator. -/
theorem render_segments (upper : Bool) {pairs : List (List UInt8 × List UInt8)}
    (hpairs : ∀ p ∈ pairs, PlainKey p.1) :
    ∀ seg ∈ pairs.map (fun p => p.1 ++ 61 :: encodeComponent upper p.2), 0 ∉ seg ∧ 38 ∉ seg := by
  intro seg hseg
  obtain ⟨p, hp, rfl⟩ := List.mem_map.mp hseg
  obtain ⟨h0, h38, -⟩ := hpairs p hp
  obtain ⟨e0, e38⟩ := encode_separators upper p.2
  simp only [List.mem_append, List.mem_cons, not_or]
  exact ⟨⟨h0, by decide, e0⟩, h38, by decide, e38⟩

/-- Looking a key up in the rendered segments. -/
theorem findSome?_render (upper : Bool) {pairs : List (List UInt8 × List UInt8)}
    {key : List UInt8} (hpairs : ∀ p ∈ pairs, PlainKey p.1) (hkey : PlainKey key) :
    (pairs.map (fun p => p.1 ++ 61 :: encodeComponent upper p.2)).findSome? (querySegment key)
      = (pairs.find? fun p => p.1 = key).map fun p => encodeComponent upper p.2 := by
  induction pairs with
  | nil => rfl
  | cons p pairs ih =>
      have hp := hpairs p List.mem_cons_self
      rw [List.map_cons, List.findSome?_cons, querySegment_render hkey hp, List.find?_cons]
      by_cases heq : p.1 = key
      · rw [if_pos heq, decide_eq_true heq]
        rfl
      · rw [if_neg heq, decide_eq_false heq]
        exact ih (fun q hq => hpairs q (List.mem_cons_of_mem _ hq))

/-- **A rendered query is read back**: a lookup gives the first value of the key,
cut to the room. -/
theorem httpQueryGet_render (upper : Bool) {pairs : List (List UInt8 × List UInt8)}
    {key : List UInt8} (outsz : Nat) (hpairs : ∀ p ∈ pairs, PlainKey p.1) (hkey : PlainKey key)
    (hnul : 0 ∉ renderQuery upper pairs) :
    httpQueryGet (renderQuery upper pairs) key outsz
      = (pairs.find? fun p => p.1 = key).map fun p => p.2.take (outsz - 1) := by
  unfold httpQueryGet
  rw [cString_of_notMem hnul]
  cases pairs with
  | nil =>
      -- no pairs: the one empty segment has no key
      have hseg : querySegment key [] = none := if_neg (fun hc => absurd hc.1 (Nat.not_lt_zero _))
      show (([[]].findSome? (querySegment key)).map _) = none
      rw [List.findSome?_cons, hseg]
      rfl
  | cons p pairs =>
      have hsegs := render_segments upper hpairs
      unfold renderQuery
      rw [List.splitOn_intercalate 38 (fun seg hseg => (hsegs seg hseg).2) (by simp),
        findSome?_render upper hpairs hkey, Option.map_map]
      congr 1
      funext q
      show urlDecode true (outsz - 1) (encodeComponent upper q.2) = _
      rw [urlDecode_form, formDecode_encode]

/-! ## §5. Query lookup. -/

/-- **Query lookup.**  On every NUL-terminated query and key, and an `out` of at
least one byte: the walk reads inside the current segment and writes inside
`out`; it returns 1 exactly when some segment is `key=value`; it then writes the
form decoding of the value of the first such segment, cut to `outsz - 1` bytes,
and a NUL; and on a query rendered from pairs it finds the key's first value. -/
theorem query_lookup (query key tail : List UInt8) (outsz : Nat) (hquery : 0 ∉ query)
    (hkey : PlainKey key) (hout : 0 < outsz) :
    (∃ r, httpQueryGetMem (query ++ 0 :: tail) key outsz = .ok r
        ∧ (r.isSome ↔ ∃ seg ∈ query.splitOn 38, ∃ value, seg = key ++ 61 :: value)
        ∧ ∀ out, r = some out → out.length ≤ outsz)
      ∧ (∀ out, httpQueryGetMem (query ++ 0 :: tail) key outsz = .ok (some out)
        ↔ ∃ value, FirstValue query key value
            ∧ out = (formDecode value).take (outsz - 1) ++ [0])
      ∧ ∀ upper pairs, (∀ p ∈ pairs, PlainKey p.1) → query = renderQuery upper pairs →
          httpQueryGetMem (query ++ 0 :: tail) key outsz
            = .ok ((pairs.find? fun p => p.1 = key).map fun p => p.2.take (outsz - 1) ++ [0]) := by
  have hmem := queryGetMem_eq key tail hquery hout
  refine ⟨⟨_, hmem, ?_, ?_⟩, ?_, ?_⟩
  · rw [Option.isSome_map]
    exact httpQueryGet_isSome hquery
  · intro out hsome
    obtain ⟨bytes, hbytes, rfl⟩ := Option.map_eq_some_iff.mp hsome
    obtain ⟨value, -, rfl⟩ := (httpQueryGet_eq_some hquery).mp hbytes
    rw [List.length_append, List.length_take, List.length_singleton]
    omega
  · intro out
    rw [hmem]
    constructor
    · intro h
      obtain ⟨bytes, hbytes, rfl⟩ := Option.map_eq_some_iff.mp (Except.ok.inj h)
      obtain ⟨value, hfirst, rfl⟩ := (httpQueryGet_eq_some hquery).mp hbytes
      exact ⟨value, hfirst, rfl⟩
    · rintro ⟨value, hfirst, rfl⟩
      rw [(httpQueryGet_eq_some hquery).mpr ⟨value, hfirst, rfl⟩]
      rfl
  · intro upper pairs hpairs heq
    subst heq
    rw [hmem, httpQueryGet_render upper outsz hpairs hkey hquery, Option.map_map]
    rfl

/-- A longer key, an empty segment and a segment without `=` before the key; an
escape cut off at the end of the segment; a value cut to three bytes. -/
theorem query_lookup_since :
    httpQueryGetMem (ascii "sincex=1&&since&since=%41+b%4&n=2" ++ 0 :: []) (ascii "since") 4
        = .ok (some (ascii "A b" ++ [0]))
      ∧ httpQueryGetMem (renderQuery true [(ascii "u", ascii "a&b"), (ascii "u", ascii "c")]
          ++ 0 :: []) (ascii "u") 64
        = .ok (some (ascii "a&b" ++ [0])) := by
  have hkey : PlainKey (ascii "since") := by decide +kernel
  have hu : PlainKey (ascii "u") := by decide +kernel
  refine ⟨?_, ?_⟩
  · apply ((query_lookup _ (ascii "since") [] 4 (by decide +kernel) hkey (by decide)).2.1 _).mpr
    refine ⟨ascii "%41+b%4", ⟨[ascii "sincex=1", [], ascii "since"], [ascii "n=2"], ?_, ?_⟩, ?_⟩
    · decide +kernel
    · intro seg hseg v heq
      have hsome := querySegment_eq_some.mpr heq
      simp only [List.mem_cons, List.not_mem_nil, or_false] at hseg
      have hnone : querySegment (ascii "since") seg = none := by
        rcases hseg with rfl | rfl | rfl <;> decide +kernel
      rw [hnone] at hsome
      cases hsome
    · decide +kernel
  · have hplain : ∀ p ∈ [(ascii "u", ascii "a&b"), (ascii "u", ascii "c")], PlainKey p.1 := by
      intro p hp
      simp only [List.mem_cons, List.not_mem_nil, or_false] at hp
      rcases hp with rfl | rfl <;> exact hu
    exact (query_lookup _ (ascii "u") [] 64 (by decide +kernel) hu (by decide)).2.2 true _ hplain rfl

end NetServer.Http
