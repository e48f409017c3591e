/-
  NetServer.Telnet.Subneg — subnegotiation blocks: what the IAC parser keeps
  of them, and what it reports.

  The parser has one accumulator (`sb_len`, `sb_opt`, `sb_buf`) that lives as
  long as the connection.  IAC SB resets the length only.  `wireMachine` is
  the telnet grammar without that accumulator: it cuts the stream into data
  bytes, option commands and BLOCKS, a block being the bytes kept between IAC
  SB and IAC SE, its option byte first.  What `on_subneg` is told is then a
  function of the blocks and of one remembered byte, the option of the last
  block that had one (`reporter`).

  Main results:

    • `feed_reports` — from any parser in `IAC_DATA`, the flattened callbacks
      are the reported items of the stream;
    • `iacSwitchRun_ok` — the switch with its faults spelled out never faults
      and computes the parser;
    • `feed_bounds` — length, write index, stored command and the reported
      payloads, over every sequence of feeds;
    • `feed_history` — when two histories can be told apart by a continuation.
-/
import NetServer.Telnet.ProtoStream

namespace NetServer.Telnet

open NetServer.Lib

/-! ## §1. The stream as data, options and blocks. -/

/-- Where the stream stands; a block is kept from its option byte on. -/
inductive WireMode where
  | data
  | iac
  | cmd (c : OptionCmd)
  | sb (block : List UInt8)
  | sbIac (block : List UInt8)
  deriving Repr, DecidableEq

/-- One unit of the stream. -/
inductive WireItem where
  | byte (b : UInt8)
  | option (c : OptionCmd) (opt : UInt8)
  | block (bytes : List UInt8)
  deriving Repr, DecidableEq

/-- The command a byte after IAC stands for, if it takes an option byte. -/
def OptionCmd.ofByte? (b : UInt8) : Option OptionCmd :=
  if b = telnetWill then some .will
  else if b = telnetWont then some .wont
  else if b = telnetDo then some .do
  else if b = telnetDont then some .dont
  else none

/-- One byte of the stream.  Inside a block, IAC followed by anything but SE
contributes nothing, and IAC SB does not start another block. -/
def wireStep (m : WireMode) (b : UInt8) : WireMode × List WireItem :=
  match m with
  | .data => if b = telnetIac then (.iac, []) else (.data, [.byte b])
  | .iac =>
      if b = telnetIac then (.data, [.byte 0xFF])
      else if b = telnetSb then (.sb [], [])
      else
        match OptionCmd.ofByte? b with
        | some c => (.cmd c, [])
        | none => (.data, [])
  | .cmd c => (.data, [.option c b])
  | .sb block => if b = telnetIac then (.sbIac block, []) else (.sb (block ++ [b]), [])
  | .sbIac block => if b = telnetSe then (.data, [.block block]) else (.sb block, [])

/-- The grammar as a machine.  Its states hold nothing of earlier items. -/
def wireMachine : Transducer WireMode UInt8 WireItem := ⟨wireStep⟩

/-- The items of a stream that starts between items. -/
def wireItems (bs : List UInt8) : List WireItem := (wireMachine.run .data bs).2

/-- The block a stream leaves open, or `[]`. -/
def openBlock (bs : List UInt8) : List UInt8 :=
  match (wireMachine.run .data bs).1 with
  | .sb block => block
  | .sbIac block => block
  | _ => []

/-- The bytes of an item that is a block. -/
def WireItem.block? : WireItem → Option (List UInt8)
  | .block bytes => some bytes
  | _ => none

/-- The blocks completed in a stream, in order. -/
def wireBlocks (bs : List UInt8) : List (List UInt8) := (wireItems bs).filterMap WireItem.block?

/-! ## §2. What the sinks are told. -/

/-- Most bytes of payload an event carries. -/
def sbPayloadMax : Nat := 254

/-- The event for a block.  One without an option byte is given `stale`, the
option of the last block that had one. -/
def blockEvent (stale : UInt8) (block : List UInt8) : IacSbEvent :=
  { opt := block.head?.getD stale
    data := block.tail.take sbPayloadMax
    len := UInt8.ofNat (min block.tail.length sbPayloadMax) }

/-- Report one item and remember the option. -/
def reportItem (stale : UInt8) : WireItem → UInt8 × List IacUnit
  | .byte b => (stale, [.byte b])
  | .option c opt => (stale, [.option { opt := opt, cmd := c.byte }])
  | .block block => (block.head?.getD stale, [.subneg (blockEvent stale block)])

/-- Items in, flattened callbacks out. -/
def reporter : Transducer UInt8 WireItem IacUnit := ⟨reportItem⟩

/-! ## §3. The parser reports the items of its stream. -/

/-- The accumulator holds `block`; `stale` is what `sb_opt` was before it. -/
def Accumulates (p : IacParser) (stale : UInt8) : List UInt8 → Prop
  | [] => p.sbLen = 0 ∧ p.sbOpt = stale
  | opt :: payload => SbHolds { p with state := .sb } opt payload

/-- The parser stands where the stream does. -/
def Tracks (p : IacParser) (m : WireMode) (stale : UInt8) : Prop :=
  match m with
  | .data => p.state = .data ∧ p.sbOpt = stale
  | .iac => p.state = .iac ∧ p.sbOpt = stale
  | .cmd c => p.state = .cmd ∧ p.cmd = c.byte ∧ p.sbOpt = stale
  | .sb block => p.state = .sb ∧ Accumulates p stale block
  | .sbIac block => p.state = .sbIac ∧ Accumulates p stale block

theorem ofByte?_some {b : UInt8} {c : OptionCmd} (h : OptionCmd.ofByte? b = some c) :
    (b = telnetWill ∨ b = telnetWont ∨ b = telnetDo ∨ b = telnetDont) ∧ b = c.byte := by
  unfold OptionCmd.ofByte? at h
  split_ifs at h with h1 h2 h3 h4 <;> cases h
  · exact ⟨Or.inl h1, h1⟩
  · exact ⟨Or.inr (Or.inl h2), h2⟩
  · exact ⟨Or.inr (Or.inr (Or.inl h3)), h3⟩
  · exact ⟨Or.inr (Or.inr (Or.inr h4)), h4⟩

theorem ofByte?_none {b : UInt8} (h : OptionCmd.ofByte? b = none) :
    ¬ (b = telnetWill ∨ b = telnetWont ∨ b = telnetDo ∨ b = telnetDont) := by
  unfold OptionCmd.ofByte? at h
  split_ifs at h with h1 h2 h3 h4
  rintro (h | h | h | h)
  · exact h1 h
  · exact h2 h
  · exact h3 h
  · exact h4 h

/-- The accumulator after a byte that is not IAC. -/
theorem accumulates_push {p : IacParser} {stale b : UInt8} {block : List UInt8}
    (hst : p.state = .sb) (h : Accumulates p stale block) (hb : b ≠ telnetIac) :
    (sbPush p b).state = .sb ∧ Accumulates (sbPush p b) stale (block ++ [b]) := by
  cases block with
  | nil =>
      -- the option byte: stored in `sb_opt`, counted in `sb_len`
      obtain ⟨hlen, -⟩ := h
      have hpush : sbPush p b = { p with sbOpt := b, sbLen := 1 } := by
        simp [sbPush, hlen]
      rw [hpush]
      exact ⟨hst, rfl, rfl, rfl, rfl⟩
  | cons opt payload =>
      have hp : { p with state := .sb } = p := by rw [← hst]
      have hholds : SbHolds p opt payload := by rw [← hp]; exact h
      have hstep : (iacStep p b).1 = sbPush p b := by simp [iacStep, hst, hb]
      have hpush := (sbHolds_step hholds hb).1
      rw [hstep] at hpush
      have hst' := hpush.state
      refine ⟨hst', ?_⟩
      show SbHolds { sbPush p b with state := .sb } opt (payload ++ [b])
      rw [show ({ sbPush p b with state := .sb } : IacParser) = sbPush p b by rw [← hst']]
      exact hpush

/-- The event built from the accumulator. -/
theorem sbEvent_accumulates {p : IacParser} {stale : UInt8} {block : List UInt8}
    (h : Accumulates p stale block) :
    sbEvent p = blockEvent stale block ∧ p.sbOpt = block.head?.getD stale := by
  cases block with
  | nil =>
      obtain ⟨hlen, hopt⟩ := h
      refine ⟨?_, hopt⟩
      simp [sbEvent, blockEvent, hlen, hopt]
  | cons opt payload =>
      refine ⟨?_, h.sbOpt⟩
      have hev : sbEvent p = sbEvent { p with state := .sb } := rfl
      rw [hev, sbEvent_of_holds h]
      show _ = IacSbEvent.mk opt (payload.take 254) (UInt8.ofNat (min payload.length 254))
      congr 1
      rw [List.take_eq_take_iff]
      omega

/-- **One byte**: the parser follows the stream and reports its item. -/
theorem tracks_step (p : IacParser) (m : WireMode) (stale b : UInt8) (h : Tracks p m stale) :
    Tracks (iacStep p b).1 (wireStep m b).1 (reporter.run stale (wireStep m b).2).1
      ∧ (iacStep p b).2 = (reporter.run stale (wireStep m b).2).2 := by
  cases m with
  | data =>
      obtain ⟨hst, hopt⟩ := h
      by_cases hb : b = telnetIac
      · simp [iacStep, wireStep, hst, hb, Tracks, hopt]
      · simp [iacStep, wireStep, hst, hb, Tracks, hopt, reporter, reportItem]
  | iac =>
      obtain ⟨hst, hopt⟩ := h
      by_cases hb : b = telnetIac
      · simp [iacStep, wireStep, hst, hb, Tracks, hopt, reporter, reportItem]
      by_cases hsb : b = telnetSb
      · have hne : telnetSb ≠ telnetIac := by decide
        simp [iacStep, wireStep, hst, hsb, hne, Tracks, Accumulates, hopt]
      cases hc : OptionCmd.ofByte? b with
      | none =>
          simp [iacStep, wireStep, hst, hb, hsb, hc, ofByte?_none hc, Tracks, hopt]
      | some c =>
          obtain ⟨hcmd, hbyte⟩ := ofByte?_some hc
          simp [iacStep, wireStep, hst, hb, hsb, hc, hcmd, Tracks, hopt, ← hbyte]
  | cmd c =>
      obtain ⟨hst, hcmd, hopt⟩ := h
      simp [iacStep, wireStep, hst, hcmd, Tracks, hopt, reporter, reportItem]
  | sb block =>
      obtain ⟨hst, hacc⟩ := h
      by_cases hb : b = telnetIac
      · have hacc' : Accumulates { p with state := .sbIac } stale block := by
          cases block <;> exact hacc
        simp [iacStep, wireStep, hst, hb, Tracks, hacc']
      · have hpush := accumulates_push hst hacc hb
        simp [iacStep, wireStep, hst, hb, Tracks, hpush]
  | sbIac block =>
      obtain ⟨hst, hacc⟩ := h
      by_cases hb : b = telnetSe
      · obtain ⟨hev, hopt⟩ := sbEvent_accumulates hacc
        simp [iacStep, wireStep, hst, hb, Tracks, hev, hopt, reporter, reportItem]
      · have hacc' : Accumulates { p with state := .sb } stale block := by
          cases block <;> exact hacc
        simp [iacStep, wireStep, hst, hb, Tracks, hacc']

/-- A parser in `IAC_DATA` stands between items. -/
theorem tracks_of_data {p : IacParser} (hp : p.state = .data) : Tracks p .data p.sbOpt :=
  ⟨hp, rfl⟩

/-- **A run**: the parser's outputs are the reported items of the stream. -/
theorem tracks_run (p : IacParser) (bs : List UInt8) (hp : p.state = .data) :
    Tracks (iacMachine.run p bs).1 (wireMachine.run .data bs).1
        (reporter.run p.sbOpt (wireItems bs)).1
      ∧ (iacMachine.run p bs).2 = (reporter.run p.sbOpt (wireItems bs)).2 :=
  iacMachine.run_cascade wireMachine reporter Tracks tracks_step p .data p.sbOpt bs
    (tracks_of_data hp)

/-- **The sinks are told the items of the stream**, whatever calls it was fed
in. -/
theorem feed_reports (p : IacParser) (cs : List (List UInt8)) (hp : p.state = .data) :
    Tracks (iacParserFeedChunks p cs).1 (wireMachine.run .data cs.flatten).1
        (reporter.run p.sbOpt (wireItems cs.flatten)).1
      ∧ flatEvents (iacParserFeedChunks p cs).2
          = (reporter.run p.sbOpt (wireItems cs.flatten)).2 := by
  obtain ⟨hpar, hev⟩ := feedChunks_refines p cs
  rw [iacMachine.runChunks_eq_run_flatten] at hpar hev
  rw [hpar, hev]
  exact tracks_run p cs.flatten hp

/-! ## §4. The switch with its faults. -/

/-- The parser as the C struct has it: the state is an enumeration's integer,
so a value outside it is possible. -/
structure RawParser where
  state : UInt32
  cmd : UInt8
  sbBuf : Vector UInt8 255
  sbLen : UInt8
  sbOpt : UInt8
  deriving DecidableEq

/-- The enumeration's values. -/
def IacParseState.code : IacParseState → UInt32
  | .data => 0
  | .iac => 1
  | .cmd => 2
  | .sb => 3
  | .sbIac => 4

/-- The struct of a parser. -/
def IacParser.raw (p : IacParser) : RawParser :=
  { state := p.state.code, cmd := p.cmd, sbBuf := p.sbBuf, sbLen := p.sbLen, sbOpt := p.sbOpt }

/-- What must not happen. -/
inductive IacFault where
  /-- `sb_len++` on 255. -/
  | lengthWraps
  /-- `sb_buf[sb_len - 1]` outside 0..253. -/
  | writeIndex (i : Int)
  /-- The `default` branch. -/
  | unreachableState
  deriving Repr, DecidableEq

/-- `sb_len++`. -/
def RawParser.lenIncr (p : RawParser) : Except IacFault RawParser :=
  if p.sbLen = 255 then .error .lengthWraps else .ok { p with sbLen := p.sbLen + 1 }

/-- `sb_buf[sb_len - 1] = b`; the index is an `int`. -/
def RawParser.bufStore (p : RawParser) (b : UInt8) : Except IacFault RawParser :=
  let i : Int := (p.sbLen.toNat : Int) - 1
  if 0 ≤ i ∧ i ≤ 253 then .ok { p with sbBuf := p.sbBuf.setIfInBounds i.toNat b }
  else .error (.writeIndex i)

/-- The event built on IAC SE. -/
def RawParser.event (p : RawParser) : IacSbEvent :=
  let len : UInt8 := if p.sbLen > 1 then p.sbLen - 1 else 0
  { opt := p.sbOpt, data := p.sbBuf.toList.take len.toNat, len := len }

/-- The `switch` of `iac_parser_feed` on one byte, every operation that could
go wrong checked. -/
def iacSwitch (p : RawParser) (b : UInt8) : Except IacFault (RawParser × List IacUnit) :=
  if p.state = 0 then
    .ok (if b = telnetIac then ({ p with state := 1 }, []) else (p, [.byte b]))
  else if p.state = 1 then
    .ok (if b = telnetIac then ({ p with state := 0 }, [.byte 0xFF])
      else if b = telnetSb then ({ p with sbLen := 0, state := 3 }, [])
      else if b = telnetWill ∨ b = telnetWont ∨ b = telnetDo ∨ b = telnetDont then
        ({ p with cmd := b, state := 2 }, [])
      else ({ p with state := 0 }, []))
  else if p.state = 2 then
    .ok ({ p with state := 0 }, [.option { opt := b, cmd := p.cmd }])
  else if p.state = 3 then
    if b = telnetIac then .ok ({ p with state := 4 }, [])
    else if p.sbLen = 0 then
      { p with sbOpt := b }.lenIncr.map (·, [])
    else if p.sbLen < 255 then
      ((p.bufStore b).bind RawParser.lenIncr).map (·, [])
    else .ok (p, [])
  else if p.state = 4 then
    .ok (if b = telnetSe then ({ p with state := 0 }, [.subneg p.event])
      else ({ p with state := 3 }, []))
  else .error .unreachableState

/-- The loop over the bytes; a fault ends it. -/
def iacSwitchRun : RawParser → List UInt8 → Except IacFault (RawParser × List IacUnit)
  | p, [] => .ok (p, [])
  | p, b :: bs => do
      let r ← iacSwitch p b
      let q ← iacSwitchRun r.1 bs
      return (q.1, r.2 ++ q.2)

/-- A stored payload byte: the guard `sb_len < 255` keeps index and length in
range. -/
theorem bufStore_lenIncr {p : RawParser} {b : UInt8} (h0 : p.sbLen ≠ 0) (h : p.sbLen < 255) :
    (p.bufStore b).bind RawParser.lenIncr
      = .ok { p with
              sbBuf := p.sbBuf.setIfInBounds (p.sbLen.toNat - 1) b
              sbLen := p.sbLen + 1 } := by
  have hpos : p.sbLen.toNat ≠ 0 := by
    intro hz
    exact h0 (UInt8.toNat_inj.mp hz)
  have hlt : p.sbLen.toNat < 255 := UInt8.lt_iff_toNat_lt.mp h
  have hi : 0 ≤ (p.sbLen.toNat : Int) - 1 ∧ (p.sbLen.toNat : Int) - 1 ≤ 253 := by omega
  have hidx : ((p.sbLen.toNat : Int) - 1).toNat = p.sbLen.toNat - 1 := by omega
  have hne : p.sbLen ≠ 255 := by
    intro heq
    rw [heq] at hlt
    exact absurd hlt (by decide)
  simp only [RawParser.bufStore]
  rw [if_pos hi, hidx]
  show RawParser.lenIncr _ = _
  unfold RawParser.lenIncr
  rw [if_neg hne]

/-- **The switch never faults** and takes the parser's transition. -/
theorem iacSwitch_ok (p : IacParser) (b : UInt8) :
    iacSwitch p.raw b = .ok ((iacStep p b).1.raw, (iacStep p b).2) := by
  obtain ⟨state, cmd, sbBuf, sbLen, sbOpt⟩ := p
  cases state with
  | data =>
      by_cases hb : b = telnetIac <;>
        simp [iacSwitch, iacStep, IacParser.raw, IacParseState.code, hb]
  | iac =>
      simp only [iacSwitch, iacStep, IacParser.raw, IacParseState.code]
      split_ifs <;> simp_all
  | cmd => simp [iacSwitch, iacStep, IacParser.raw, IacParseState.code]
  | sb =>
      by_cases hb : b = telnetIac
      · simp [iacSwitch, iacStep, IacParser.raw, IacParseState.code, hb]
      by_cases h0 : sbLen = 0
      · simp [iacSwitch, iacStep, IacParser.raw, IacParseState.code, hb, h0, sbPush,
          RawParser.lenIncr, Except.map]
      by_cases hlt : sbLen < 255
      · have hstore := bufStore_lenIncr (p := ⟨3, cmd, sbBuf, sbLen, sbOpt⟩) (b := b) h0 hlt
        simp [iacSwitch, iacStep, IacParser.raw, IacParseState.code, hb, h0, hlt, sbPush,
          hstore, Except.map]
      · simp [iacSwitch, iacStep, IacParser.raw, IacParseState.code, hb, h0, hlt, sbPush]
  | sbIac =>
      by_cases hb : b = telnetSe
      · simp [iacSwitch, iacStep, IacParser.raw, IacParseState.code, hb, RawParser.event, sbEvent]
      · simp [iacSwitch, iacStep, IacParser.raw, IacParseState.code, hb]

/-- **The loop never faults** and runs as the parser does. -/
theorem iacSwitchRun_ok (p : IacParser) (bs : List UInt8) :
    iacSwitchRun p.raw bs = .ok ((iacMachine.run p bs).1.raw, (iacMachine.run p bs).2) := by
  induction bs generalizing p with
  | nil => rfl
  | cons b bs ih =>
      have hstep := iacSwitch_ok p b
      simp only [iacSwitchRun, hstep, ih, bind, Except.bind]
      rfl

/-! ## §5. Bounds over every sequence of feeds. -/

/-- The event of a unit that is a subnegotiation. -/
def IacUnit.subneg? : IacUnit → Option IacSbEvent
  | .subneg ev => some ev
  | _ => none

/-- An accumulator's length is the length of the block, held at 255. -/
theorem accumulates_sbLen {p : IacParser} {stale : UInt8} {block : List UInt8}
    (h : Accumulates p stale block) : p.sbLen.toNat = min block.length 255 := by
  cases block with
  | nil =>
      obtain ⟨hlen, -⟩ := h
      rw [hlen]
      rfl
  | cons opt payload =>
      have hlen := h.sbLen
      rw [List.length_cons]
      show p.sbLen.toNat = _
      have hlen' : p.sbLen.toNat = 1 + min payload.length 254 := hlen
      omega

/-- The payloads the sinks are told of are those of the blocks. -/
theorem report_subneg (items : List WireItem) (stale : UInt8) :
    ((reporter.run stale items).2.filterMap IacUnit.subneg?).map (fun ev => (ev.data, ev.len))
      = (items.filterMap WireItem.block?).map fun block =>
          (block.tail.take sbPayloadMax,
            UInt8.ofNat (min block.tail.length sbPayloadMax)) := by
  induction items generalizing stale with
  | nil => rfl
  | cons item items ih =>
      cases item with
      | byte b => exact ih stale
      | option c opt => exact ih stale
      | block block =>
          rw [Transducer.run_cons]
          show List.map _ (List.filterMap IacUnit.subneg? (_ :: _)) = _
          rw [List.filterMap_cons_some (by rfl), List.filterMap_cons_some (by rfl), List.map_cons,
            List.map_cons, ← ih (block.head?.getD stale)]
          rfl

/-- An event's length is at most 254 and is the number of its bytes. -/
theorem report_len {items : List WireItem} {stale : UInt8} {ev : IacSbEvent}
    (h : IacUnit.subneg ev ∈ (reporter.run stale items).2) :
    ev.len.toNat ≤ sbPayloadMax ∧ ev.len.toNat = ev.data.length := by
  have hev : ev ∈ (reporter.run stale items).2.filterMap IacUnit.subneg? :=
    List.mem_filterMap.mpr ⟨_, h, rfl⟩
  have hpair := List.mem_map_of_mem (f := fun e : IacSbEvent => (e.data, e.len)) hev
  rw [report_subneg] at hpair
  obtain ⟨block, -, heq⟩ := List.mem_map.mp hpair
  obtain ⟨hdata, hlen⟩ := Prod.mk.injEq .. ▸ heq
  have hmax : sbPayloadMax = 254 := rfl
  rw [← hdata, ← hlen, UInt8.toNat_ofNat', List.length_take]
  omega

/-- **Parser bounds.**  Over every sequence of feeds from `iac_parser_init`: no
byte makes `sb_len` wrap, writes past index 253 or reaches the `default`
branch; inside a block `sb_len` is the number of its bytes, held at 255; in
`IAC_CMD` the stored command is one of the four; and the subnegotiation events
carry, block by block, the payload bytes since the block's IAC SB, at most 254
of them. -/
theorem feed_bounds (cs : List (List UInt8)) :
    iacSwitchRun iacParserInit.raw cs.flatten
        = .ok ((iacParserFeedChunks iacParserInit cs).1.raw,
            flatEvents (iacParserFeedChunks iacParserInit cs).2)
      ∧ ((iacParserFeedChunks iacParserInit cs).1.state = .sb
          ∨ (iacParserFeedChunks iacParserInit cs).1.state = .sbIac →
        (iacParserFeedChunks iacParserInit cs).1.sbLen.toNat
          = min (openBlock cs.flatten).length 255)
      ∧ ((iacParserFeedChunks iacParserInit cs).1.state = .cmd →
        (iacParserFeedChunks iacParserInit cs).1.cmd
          ∈ [telnetWill, telnetWont, telnetDo, telnetDont])
      ∧ ((flatEvents (iacParserFeedChunks iacParserInit cs).2).filterMap IacUnit.subneg?).map
            IacSbEvent.data
          = (wireBlocks cs.flatten).map (fun block => block.tail.take 254)
      ∧ ∀ ev, IacUnit.subneg ev ∈ flatEvents (iacParserFeedChunks iacParserInit cs).2 →
          ev.len.toNat ≤ 254 ∧ ev.len.toNat = ev.data.length := by
  obtain ⟨htracks, hev⟩ := feed_reports iacParserInit cs rfl
  refine ⟨?_, ?_, ?_, ?_, ?_⟩
  · obtain ⟨hpar, hout⟩ := feedChunks_refines iacParserInit cs
    rw [iacMachine.runChunks_eq_run_flatten] at hpar hout
    rw [hpar, hout]
    exact iacSwitchRun_ok iacParserInit cs.flatten
  · intro hst
    unfold openBlock
    generalize (wireMachine.run .data cs.flatten).1 = m at htracks ⊢
    cases m with
    | data => rcases hst with hst | hst <;> cases hst.symm.trans htracks.1
    | iac => rcases hst with hst | hst <;> cases hst.symm.trans htracks.1
    | cmd c => rcases hst with hst | hst <;> cases hst.symm.trans htracks.1
    | sb block => exact accumulates_sbLen htracks.2
    | sbIac block => exact accumulates_sbLen htracks.2
  · intro hst
    generalize (wireMachine.run .data cs.flatten).1 = m at htracks
    cases m with
    | data => cases hst.symm.trans htracks.1
    | iac => cases hst.symm.trans htracks.1
    | cmd c =>
        rw [htracks.2.1]
        cases c <;> simp [OptionCmd.byte]
    | sb block => cases hst.symm.trans htracks.1
    | sbIac block => cases hst.symm.trans htracks.1
  · have hsub := report_subneg (wireItems cs.flatten) iacParserInit.sbOpt
    have hfst := congrArg (List.map Prod.fst) hsub
    rw [List.map_map, List.map_map, ← hev] at hfst
    exact hfst
  · intro ev hmem
    rw [hev] at hmem
    exact report_len hmem

/-- A block left open between its IAC and SE, with an escaped IAC before them,
and a command waiting for its option byte. -/
theorem feed_bounds_open :
    (iacParserFeedChunks iacParserInit [[255, 250], [31, 7, 255], [255, 9, 255]]).1.sbLen.toNat = 3
      ∧ (iacParserFeedChunks iacParserInit [[65, 255], [253]]).1.cmd
          ∈ [telnetWill, telnetWont, telnetDo, telnetDont] :=
  ⟨(feed_bounds [[255, 250], [31, 7, 255], [255, 9, 255]]).2.1 (by decide +kernel),
    (feed_bounds [[65, 255], [253]]).2.2.1 (by decide +kernel)⟩

/-! ## §6. What a continuation can tell of the history. -/

/-- The option byte of the last block that has one, or the initial 0. -/
def staleOption (bs : List UInt8) : UInt8 :=
  ((wireBlocks bs).filterMap List.head?).getLast?.getD 0

theorem report_stale (items : List WireItem) (stale : UInt8) :
    (reporter.run stale items).1
      = ((items.filterMap WireItem.block?).filterMap List.head?).getLast?.getD stale := by
  induction items generalizing stale with
  | nil => rfl
  | cons item items ih =>
      cases item with
      | byte b => exact ih stale
      | option c opt => exact ih stale
      | block block =>
          rw [Transducer.run_cons]
          show (reporter.run (block.head?.getD stale) items).1 = _
          have hblock : WireItem.block? (.block block) = some block := rfl
          rw [ih, List.filterMap_cons_some hblock]
          cases block with
          | nil => rfl
          | cons opt payload =>
              rw [List.filterMap_cons_some (show List.head? (opt :: payload) = some opt from rfl),
                List.getLast?_cons]
              rfl

/-- A parser that has come back to `IAC_DATA` remembers the stale option. -/
theorem feed_sbOpt {cs : List (List UInt8)}
    (h : (iacParserFeedChunks iacParserInit cs).1.state = .data) :
    (iacParserFeedChunks iacParserInit cs).1.sbOpt = staleOption cs.flatten := by
  obtain ⟨htracks, -⟩ := feed_reports iacParserInit cs rfl
  rw [report_stale] at htracks
  generalize (wireMachine.run .data cs.flatten).1 = m at htracks
  cases m with
  | data => exact htracks.2
  | iac => cases h.symm.trans htracks.1
  | cmd c => cases h.symm.trans htracks.1
  | sb block => cases h.symm.trans htracks.1
  | sbIac block => cases h.symm.trans htracks.1

/-- Two remembered options give the same reports unless they differ and the
first block has no option byte of its own. -/
theorem report_eq_iff (items : List WireItem) (s t : UInt8) :
    (reporter.run s items).2 = (reporter.run t items).2
      ↔ s = t ∨ (items.filterMap WireItem.block?).head? ≠ some [] := by
  induction items with
  | nil => simp
  | cons item items ih =>
      cases item with
      | byte b =>
          rw [Transducer.run_cons, Transducer.run_cons]
          show [IacUnit.byte b] ++ (reporter.run s items).2
            = [IacUnit.byte b] ++ (reporter.run t items).2 ↔ _
          rw [List.append_cancel_left_eq, ih]
          rfl
      | option c opt =>
          rw [Transducer.run_cons, Transducer.run_cons]
          show [IacUnit.option ⟨opt, c.byte⟩] ++ (reporter.run s items).2
            = [IacUnit.option ⟨opt, c.byte⟩] ++ (reporter.run t items).2 ↔ _
          rw [List.append_cancel_left_eq, ih]
          rfl
      | block block =>
          have hblock : WireItem.block? (.block block) = some block := rfl
          rw [List.filterMap_cons_some hblock, List.head?_cons]
          cases block with
          | nil =>
              -- the stale option is the event's
              constructor
              · intro heq
                have hhead := congrArg List.head? heq
                have hev : IacUnit.subneg (blockEvent s []) = .subneg (blockEvent t []) :=
                  Option.some.inj hhead
                left
                exact congrArg IacSbEvent.opt (IacUnit.subneg.inj hev)
              · rintro (rfl | hne)
                · rfl
                · exact absurd rfl hne
          | cons opt payload =>
              -- the block brings its option: both sides are the same from here on
              constructor
              · intro _
                right
                simp
              · intro _
                rfl

/-- **What a continuation can tell of the history.**  Two streams that leave a
fresh parser in `IAC_DATA` are told apart by a continuation exactly when their
last option bytes differ and the continuation's first block has none. -/
theorem feed_history (xs ys zs : List (List UInt8))
    (hx : (iacParserFeedChunks iacParserInit xs).1.state = .data)
    (hy : (iacParserFeedChunks iacParserInit ys).1.state = .data) :
    flatEvents (iacParserFeedChunks (iacParserFeedChunks iacParserInit xs).1 zs).2
        = flatEvents (iacParserFeedChunks (iacParserFeedChunks iacParserInit ys).1 zs).2
      ↔ staleOption xs.flatten = staleOption ys.flatten
        ∨ (wireBlocks zs.flatten).head? ≠ some [] := by
  obtain ⟨-, hevx⟩ := feed_reports _ zs hx
  obtain ⟨-, hevy⟩ := feed_reports _ zs hy
  rw [hevx, hevy, feed_sbOpt hx, feed_sbOpt hy]
  exact report_eq_iff _ _ _

/-- After a NAWS block and after a terminal-type block, a window size reads the
same. -/
theorem feed_history_naws :
    flatEvents (iacParserFeedChunks
        (iacParserFeedChunks iacParserInit [[255, 250, 31, 0, 80, 0, 24, 255, 240]]).1
        [[255, 250, 31, 0, 100, 0, 40, 255, 240]]).2
      = flatEvents (iacParserFeedChunks
        (iacParserFeedChunks iacParserInit [[255, 250, 24, 0, 255, 240]]).1
        [[255, 250, 31, 0, 100, 0, 40, 255, 240]]).2 :=
  (feed_history _ _ _ (by decide +kernel) (by decide +kernel)).mpr (Or.inr (by decide +kernel))

/-- IAC SB IAC SE reports option 0 on a fresh parser, and option 31 after a
NAWS block. -/
theorem feed_history_empty_block :
    (iacParserFeedChunks iacParserInit []).1.state = .data
      ∧ (iacParserFeedChunks iacParserInit [[255, 250, 31, 255, 240]]).1.state = .data
      ∧ flatEvents (iacParserFeedChunks (iacParserFeedChunks iacParserInit []).1
          [[255, 250, 255, 240]]).2 = [.subneg ⟨0, [], 0⟩]
      ∧ flatEvents (iacParserFeedChunks
          (iacParserFeedChunks iacParserInit [[255, 250, 31, 255, 240]]).1
          [[255, 250, 255, 240]]).2 = [.subneg ⟨31, [], 0⟩] := by
  decide +kernel

end NetServer.Telnet
