/-
  NetServer.Telnet.ProtoStream — what the IAC parser does to a byte STREAM.

  The parser is called once per `recv`, and TCP may cut the stream anywhere:
  inside IAC, between a command and its option byte, inside a subnegotiation
  or between its IAC and SE.  Part of a call's state lives in locals that do
  not survive it (the pending data slice), so the flush at the end of each
  call has to be exactly right.

  `iacMachine` is the parser seen as a machine on single bytes, with no
  buffer and no slice.  Main results:

    • `feed_refines` — one call of `iac_parser_feed` makes exactly the
      machine's transitions and, with its data slices flattened, the
      machine's outputs in order;
    • `feed_chunk_independent` — the cut points of the stream are invisible;
    • `feed_encode` — the parser undoes the encoding of any item list.
-/
import NetServer.Lib.Transducer
import NetServer.Telnet.Proto

namespace NetServer.Telnet

open NetServer.Lib

/-! ## §1. The parser as a machine on bytes. -/

/-- A decoded unit: one data byte or one command. -/
inductive IacUnit where
  | byte (b : UInt8)
  | option (ev : IacOptionEvent)
  | subneg (ev : IacSbEvent)
  deriving Repr, DecidableEq

/-- One callback, with a data slice flattened into its bytes. -/
def IacEvent.flat : IacEvent → List IacUnit
  | .onData buf => buf.map .byte
  | .onOption ev => [.option ev]
  | .onSubneg ev => [.subneg ev]

/-- A callback trace with consecutive data slices flattened into bytes. -/
def flatEvents (evs : List IacEvent) : List IacUnit := evs.flatMap IacEvent.flat

@[simp] theorem flatEvents_nil : flatEvents [] = [] := rfl

@[simp] theorem flatEvents_append (xs ys : List IacEvent) :
    flatEvents (xs ++ ys) = flatEvents xs ++ flatEvents ys :=
  List.flatMap_append

@[simp] theorem flatEvents_singleton (e : IacEvent) : flatEvents [e] = e.flat := by
  simp [flatEvents]

/-- The transition on one byte. -/
def iacStep (p : IacParser) (b : UInt8) : IacParser × List IacUnit :=
  match p.state with
  | .data =>
      if b = telnetIac then ({ p with state := .iac }, []) else (p, [.byte b])
  | .iac =>
      if b = telnetIac then ({ p with state := .data }, [.byte 0xFF])
      else if b = telnetSb then ({ p with sbLen := 0, state := .sb }, [])
      else if b = telnetWill ∨ b = telnetWont ∨ b = telnetDo ∨ b = telnetDont then
        ({ p with cmd := b, state := .cmd }, [])
      else ({ p with state := .data }, [])
  | .cmd => ({ p with state := .data }, [.option { opt := b, cmd := p.cmd }])
  | .sb =>
      if b = telnetIac then ({ p with state := .sbIac }, []) else (sbPush p b, [])
  | .sbIac =>
      if b = telnetSe then ({ p with state := .data }, [.subneg (sbEvent p)])
      else ({ p with state := .sb }, [])

/-- The parser without buffer and slices. -/
def iacMachine : Transducer IacParser UInt8 IacUnit := ⟨iacStep⟩

/-! ## §2. One call refines the machine. -/

/-- The bytes of the pending slice. -/
def pending (raw : List UInt8) (f : Feed) : List UInt8 :=
  (raw.drop (f.dataStart.getD 0)).take f.dataLen

/-- The loop invariant at index `i`: a pending slice ends just before `i`,
and outside state `IAC_DATA` nothing is pending. -/
structure FeedInv (i : Nat) (f : Feed) : Prop where
  window : (f.dataStart = none ∧ f.dataLen = 0)
    ∨ ∃ s, f.dataStart = some s ∧ s + f.dataLen = i
  idle : f.parser.state ≠ .data → f.dataStart = none ∧ f.dataLen = 0

theorem pending_of_idle {raw : List UInt8} {f : Feed} (h : f.dataLen = 0) :
    pending raw f = [] := by
  simp [pending, h]

/-- The bytes emitted so far plus those still pending. -/
def emitted (raw : List UInt8) (f : Feed) : List IacUnit :=
  flatEvents f.events ++ (pending raw f).map .byte

/-- A flush moves the pending bytes into the trace, and nothing else. -/
theorem flatEvents_flushData (raw : List UInt8) (f : Feed) :
    flatEvents (flushData raw f).events = emitted raw f := by
  unfold flushData emitted
  by_cases h : f.dataLen > 0
  · simp [h, IacEvent.flat, pending]
  · have h0 : f.dataLen = 0 := by omega
    simp [h0, pending]

/-- A slice that ends at `i` grows by `raw[i]`. -/
theorem window_extend {raw pre rest : List UInt8} {b : UInt8} {s n : Nat}
    (hraw : raw = pre ++ b :: rest) (hs : s + n = pre.length) :
    (raw.drop s).take (n + 1) = (raw.drop s).take n ++ [b] := by
  subst hraw
  rw [List.take_add_one]
  congr 1
  rw [List.getElem?_drop, hs]
  simp

/-- Outside state `IAC_DATA` no slice is opened. -/
theorem feedByte_idle {i : Nat} {f : Feed} (hinv : FeedInv i f) (raw : List UInt8) (b : UInt8)
    (hst : f.parser.state ≠ .data) :
    (feedByte raw i b f).dataStart = none ∧ (feedByte raw i b f).dataLen = 0 := by
  have hidle := hinv.idle hst
  unfold feedByte
  split
  · rename_i hdata
    exact absurd hdata hst
  · split_ifs <;> exact hidle
  · exact hidle
  · split_ifs <;> exact hidle
  · split_ifs <;> exact hidle

/-- **One byte**: the loop body takes the machine's transition, keeps the
invariant and adds the machine's outputs. -/
theorem feedByte_step {raw pre rest : List UInt8} {b : UInt8} {f : Feed}
    (hraw : raw = pre ++ b :: rest) (hinv : FeedInv pre.length f) :
    (feedByte raw pre.length b f).parser = (iacStep f.parser b).1
      ∧ FeedInv (pre.length + 1) (feedByte raw pre.length b f)
      ∧ emitted raw (feedByte raw pre.length b f)
          = emitted raw f ++ (iacStep f.parser b).2 := by
  cases hst : f.parser.state with
  | data =>
      by_cases hb : b = telnetIac
      · -- IAC closes the slice: the flush turns pending bytes into events
        refine ⟨?_, ⟨?_, ?_⟩, ?_⟩
        · simp [feedByte, iacStep, hst, hb, flushData]
        · left; simp [feedByte, hst, hb, flushData]
        · intro _; simp [feedByte, hst, hb, flushData]
        · have hflush := flatEvents_flushData raw f
          simp only [feedByte, iacStep, hst, hb, if_true, List.append_nil]
          rw [emitted, pending_of_idle (by rfl)]
          simpa using hflush
      · -- a data byte opens a slice at `i` or extends the one ending there
        have hpar : (feedByte raw pre.length b f).parser = f.parser := by
          simp [feedByte, hst, hb]
        refine ⟨by simp [hpar, iacStep, hst, hb], ⟨?_, ?_⟩, ?_⟩
        · right
          rcases hinv.window with ⟨hn, h0⟩ | ⟨s, hs, hlen⟩
          · exact ⟨pre.length, by simp [feedByte, hst, hb, hn, h0]⟩
          · refine ⟨s, by simp [feedByte, hst, hb, hs], ?_⟩
            simp only [feedByte, hst, hb, if_false]
            omega
        · intro hne
          rw [hpar, hst] at hne
          exact absurd rfl hne
        · rcases hinv.window with ⟨hn, h0⟩ | ⟨s, hs, hlen⟩
          · have hext := window_extend (s := pre.length) (n := 0) hraw (by omega)
            simp only [feedByte, iacStep, hst, hb, if_false, emitted, pending, hn, h0,
              Option.getD_none, Option.getD_some, Nat.zero_add, List.take_zero] at hext ⊢
            rw [hext]
            simp
          · have hext := window_extend hraw hlen
            simp only [feedByte, iacStep, hst, hb, if_false, emitted, pending, hs,
              Option.getD_some]
            rw [hext]
            simp
  | iac =>
      have hidle := feedByte_idle hinv raw b (by simp [hst])
      have h0 := (hinv.idle (by simp [hst])).2
      refine ⟨?_, ⟨Or.inl hidle, fun _ => hidle⟩, ?_⟩
      · simp only [feedByte, iacStep, hst]; split_ifs <;> rfl
      · simp only [feedByte, iacStep, hst, emitted, pending]
        split_ifs <;> simp [h0, IacEvent.flat]
  | cmd =>
      have hidle := feedByte_idle hinv raw b (by simp [hst])
      have h0 := (hinv.idle (by simp [hst])).2
      refine ⟨by simp [feedByte, iacStep, hst], ⟨Or.inl hidle, fun _ => hidle⟩, ?_⟩
      simp [feedByte, iacStep, hst, emitted, pending, h0, IacEvent.flat]
  | sb =>
      have hidle := feedByte_idle hinv raw b (by simp [hst])
      have h0 := (hinv.idle (by simp [hst])).2
      refine ⟨?_, ⟨Or.inl hidle, fun _ => hidle⟩, ?_⟩
      · simp only [feedByte, iacStep, hst]; split_ifs <;> rfl
      · simp only [feedByte, iacStep, hst, emitted, pending]
        split_ifs <;> simp [h0]
  | sbIac =>
      have hidle := feedByte_idle hinv raw b (by simp [hst])
      have h0 := (hinv.idle (by simp [hst])).2
      refine ⟨?_, ⟨Or.inl hidle, fun _ => hidle⟩, ?_⟩
      · simp only [feedByte, iacStep, hst]; split_ifs <;> rfl
      · simp only [feedByte, iacStep, hst, emitted, pending]
        split_ifs <;> simp [h0, IacEvent.flat]

/-- **The loop**: from index `i` on, the machine's run over the rest. -/
theorem feedLoop_run {raw : List UInt8} :
    ∀ (rest pre : List UInt8) (f : Feed), raw = pre ++ rest → FeedInv pre.length f →
      (feedLoop raw pre.length rest f).parser = (iacMachine.run f.parser rest).1
        ∧ emitted raw (feedLoop raw pre.length rest f)
            = emitted raw f ++ (iacMachine.run f.parser rest).2
  | [], pre, f, _, _ => by simp [feedLoop]
  | b :: rest, pre, f, hraw, hinv => by
      obtain ⟨hpar, hinv', hout⟩ := feedByte_step hraw hinv
      have hlen : (pre ++ [b]).length = pre.length + 1 := by simp
      have hraw' : raw = (pre ++ [b]) ++ rest := by rw [hraw]; simp
      obtain ⟨hp, he⟩ := feedLoop_run rest (pre ++ [b])
        (feedByte raw pre.length b f) hraw' (by rw [hlen]; exact hinv')
      rw [hlen] at hp he
      refine ⟨?_, ?_⟩
      · show (feedLoop raw (pre.length + 1) rest (feedByte raw pre.length b f)).parser = _
        rw [hp, hpar]
        rfl
      · show emitted raw (feedLoop raw (pre.length + 1) rest (feedByte raw pre.length b f)) = _
        rw [he, hout, hpar, List.append_assoc]
        rfl

/-- **One call of `iac_parser_feed` refines the machine.** -/
theorem feed_refines (p : IacParser) (raw : List UInt8) :
    (iacParserFeed p raw).1 = (iacMachine.run p raw).1
      ∧ flatEvents (iacParserFeed p raw).2 = (iacMachine.run p raw).2 := by
  by_cases h : raw.length = 0
  · have hnil : raw = [] := List.length_eq_zero_iff.mp h
    subst hnil
    simp [iacParserFeed]
  · have hinv : FeedInv ([] : List UInt8).length
        { parser := p, dataStart := none, dataLen := 0, events := [] } :=
      ⟨Or.inl ⟨rfl, rfl⟩, fun _ => ⟨rfl, rfl⟩⟩
    obtain ⟨hp, he⟩ := feedLoop_run raw [] _ rfl hinv
    unfold iacParserFeed
    rw [if_neg h]
    refine ⟨hp, ?_⟩
    show flatEvents (flushData raw _).events = _
    rw [flatEvents_flushData]
    exact he

/-- The calls made for a list of chunks refine the machine's chunked run. -/
theorem feedChunks_refines (p : IacParser) (cs : List (List UInt8)) :
    (iacParserFeedChunks p cs).1 = (iacMachine.runChunks p cs).1
      ∧ flatEvents (iacParserFeedChunks p cs).2 = (iacMachine.runChunks p cs).2 := by
  induction cs generalizing p with
  | nil => exact ⟨rfl, rfl⟩
  | cons c cs ih =>
      obtain ⟨hp, he⟩ := feed_refines p c
      obtain ⟨hp', he'⟩ := ih (iacParserFeed p c).1
      rw [hp] at hp' he'
      refine ⟨?_, ?_⟩
      · show (iacParserFeedChunks (iacParserFeed p c).1 cs).1 = _
        rw [hp, hp']
        rfl
      · show flatEvents ((iacParserFeed p c).2
            ++ (iacParserFeedChunks (iacParserFeed p c).1 cs).2) = _
        rw [flatEvents_append, he, hp, he']
        rfl

/-! ## §3. The cut points of the stream are invisible. -/

/-- A data callback hands out a contiguous run of the buffer that was fed,
or the one literal byte of an escaped IAC. -/
def sliceOf (raw : List UInt8) : IacEvent → Prop
  | .onData buf => buf <:+: raw ∨ buf = [0xFF]
  | _ => True

theorem window_contiguous (raw : List UInt8) (s n : Nat) : (raw.drop s).take n <:+: raw :=
  (List.take_prefix n _).isInfix.trans (List.drop_suffix s raw).isInfix

theorem flushData_slices (raw : List UInt8) (f : Feed)
    (h : ∀ e ∈ f.events, sliceOf raw e) :
    ∀ e ∈ (flushData raw f).events, sliceOf raw e := by
  intro e he
  unfold flushData at he
  rcases List.mem_append.mp he with he | he
  · exact h e he
  · split at he
    next =>
      rw [List.mem_singleton] at he
      subst he
      exact Or.inl (window_contiguous raw _ _)
    next => simp at he

theorem feedByte_slices (raw : List UInt8) (i : Nat) (b : UInt8) (f : Feed)
    (h : ∀ e ∈ f.events, sliceOf raw e) :
    ∀ e ∈ (feedByte raw i b f).events, sliceOf raw e := by
  -- A byte emits at most one event.
  have hone : ∀ e₀ : IacEvent, sliceOf raw e₀ →
      ∀ e ∈ f.events ++ [e₀], sliceOf raw e := by
    intro e₀ h₀ e he
    rcases List.mem_append.mp he with he | he
    · exact h e he
    · rw [List.mem_singleton] at he
      subst he
      exact h₀
  unfold feedByte
  cases f.parser.state with
  | data =>
      dsimp only
      split
      · exact flushData_slices raw f h
      · exact h
  | iac =>
      dsimp only
      split
      · exact hone _ (Or.inr rfl)
      · split_ifs <;> exact h
  | cmd => exact hone _ trivial
  | sb =>
      dsimp only
      split <;> exact h
  | sbIac =>
      dsimp only
      split
      · exact hone _ trivial
      · exact h

theorem feedLoop_slices (raw : List UInt8) :
    ∀ (rest : List UInt8) (i : Nat) (f : Feed), (∀ e ∈ f.events, sliceOf raw e) →
      ∀ e ∈ (feedLoop raw i rest f).events, sliceOf raw e
  | [], _, _, h => h
  | b :: rest, i, f, h =>
      feedLoop_slices raw rest (i + 1) (feedByte raw i b f) (feedByte_slices raw i b f h)

/-- Every data slice of one call lies in the chunk of that call. -/
theorem feed_slices (p : IacParser) (raw : List UInt8) :
    ∀ e ∈ (iacParserFeed p raw).2, sliceOf raw e := by
  unfold iacParserFeed
  split
  · intro e he
    simp at he
  · apply flushData_slices
    apply feedLoop_slices
    intro e he
    simp at he

/-- **recv-boundary independence.**  From ANY parser state, feeding the
chunks one by one gives the same final parser and the same flattened trace
as one feed of their concatenation, and no data slice leaves the chunk that
was fed for it. -/
theorem feed_chunk_independent (p : IacParser) (cs : List (List UInt8)) :
    (iacParserFeedChunks p cs).1 = (iacParserFeed p cs.flatten).1
      ∧ flatEvents (iacParserFeedChunks p cs).2
          = flatEvents (iacParserFeed p cs.flatten).2
      ∧ ∀ (q : IacParser), ∀ c ∈ cs, ∀ buf,
          IacEvent.onData buf ∈ (iacParserFeed q c).2 → buf <:+: c ∨ buf = [0xFF] := by
  obtain ⟨hp, he⟩ := feedChunks_refines p cs
  obtain ⟨hp', he'⟩ := feed_refines p cs.flatten
  rw [iacMachine.runChunks_eq_run_flatten] at hp he
  refine ⟨hp.trans hp'.symm, he.trans he'.symm, ?_⟩
  intro q c _ buf hbuf
  exact feed_slices q c _ hbuf

/-! ## §4. Decoding undoes encoding. -/

/-- The four negotiation commands. -/
inductive OptionCmd where
  | will
  | wont
  | do
  | dont
  deriving Repr, DecidableEq

/-- The command byte on the wire. -/
def OptionCmd.byte : OptionCmd → UInt8
  | .will => telnetWill
  | .wont => telnetWont
  | .do => telnetDo
  | .dont => telnetDont

/-- The source's builder for the command. -/
def OptionCmd.write : OptionCmd → Nat → UInt8 → Option (List UInt8)
  | .will => iacWriteWill
  | .wont => iacWriteWont
  | .do => iacWriteDo
  | .dont => iacWriteDont

/-- A subnegotiation block that needs no escaping inside. -/
structure SubnegItem where
  opt : UInt8
  payload : List UInt8
  opt_ne : opt ≠ telnetIac
  payload_ne : ∀ b ∈ payload, b ≠ telnetIac

/-- What a peer can put on the stream. -/
inductive TelnetItem where
  | data (b : UInt8)
  | option (cmd : OptionCmd) (opt : UInt8)
  | subneg (sn : SubnegItem)

/-- The wire form of an item; options go through `iac_write_*` with the
three-byte buffer they need. -/
def TelnetItem.encode : TelnetItem → List UInt8
  | .data b => if b = telnetIac then [telnetIac, telnetIac] else [b]
  | .option cmd opt => (cmd.write 3 opt).getD []
  | .subneg sn => [telnetIac, telnetSb, sn.opt] ++ sn.payload ++ [telnetIac, telnetSe]

/-- What the receiver should see of an item: payloads are cut at 254. -/
def TelnetItem.decoded : TelnetItem → List IacUnit
  | .data b => [.byte b]
  | .option cmd opt => [.option { opt := opt, cmd := cmd.byte }]
  | .subneg sn =>
      [.subneg
        { opt := sn.opt
          data := sn.payload.take (min sn.payload.length 254)
          len := UInt8.ofNat (min sn.payload.length 254) }]

/-- Inside a subnegotiation: the parser holds option `opt` and the first
254 bytes of the payload `acc` seen since IAC SB. -/
structure SbHolds (p : IacParser) (opt : UInt8) (acc : List UInt8) : Prop where
  state : p.state = .sb
  sbOpt : p.sbOpt = opt
  sbLen : p.sbLen.toNat = 1 + min acc.length 254
  sbBuf : p.sbBuf.toList.take (min acc.length 254) = acc.take 254

/-- Writing at index `k` extends the first `k` entries. -/
theorem take_setIfInBounds (v : Vector UInt8 255) (k : Nat) (b : UInt8) (hk : k < 255) :
    (v.setIfInBounds k b).toList.take (k + 1) = v.toList.take k ++ [b] := by
  have hlen : k < v.toList.length := by simpa using hk
  have hset : (v.setIfInBounds k b).toList = v.toList.set k b := by simp
  rw [hset, List.take_add_one, List.take_set_of_le (Nat.le_refl k)]
  simp [hk]

/-- One payload byte is appended to what the parser holds. -/
theorem sbHolds_step {p : IacParser} {opt : UInt8} {acc : List UInt8} {b : UInt8}
    (h : SbHolds p opt acc) (hb : b ≠ telnetIac) :
    SbHolds (iacStep p b).1 opt (acc ++ [b]) ∧ (iacStep p b).2 = [] := by
  obtain ⟨hst, hopt, hlen, hbuf⟩ := h
  have hstep : iacStep p b = (sbPush p b, []) := by simp [iacStep, hst, hb]
  have hne : p.sbLen ≠ 0 := by
    intro h0
    rw [h0] at hlen
    simp at hlen
    omega
  rw [hstep]
  refine ⟨?_, rfl⟩
  by_cases hroom : acc.length < 254
  · -- there is room: the byte goes to index `acc.length`
    have hmin : min acc.length 254 = acc.length := by omega
    rw [hmin] at hlen hbuf
    have hlt : p.sbLen < 255 := by
      rw [UInt8.lt_iff_toNat_lt, hlen]
      show 1 + acc.length < 255
      omega
    have hidx : p.sbLen.toNat - 1 = acc.length := by omega
    have hpush : sbPush p b
        = { p with
            sbBuf := p.sbBuf.setIfInBounds acc.length b
            sbLen := p.sbLen + 1 } := by
      simp [sbPush, hne, hlt, hidx]
    have hmin' : min (acc ++ [b]).length 254 = acc.length + 1 := by simp; omega
    rw [hpush]
    refine ⟨hst, hopt, ?_, ?_⟩
    · rw [hmin']
      show (p.sbLen + 1).toNat = _
      rw [UInt8.toNat_add, hlen]
      show (1 + acc.length + 1) % 256 = _
      omega
    · rw [hmin']
      show (p.sbBuf.setIfInBounds acc.length b).toList.take (acc.length + 1) = _
      rw [take_setIfInBounds _ _ _ (by omega), hbuf,
        List.take_of_length_le (by omega), List.take_of_length_le (by simp; omega)]
  · -- full: the byte is dropped
    have hmin : min acc.length 254 = 254 := by omega
    have hmin' : min (acc ++ [b]).length 254 = 254 := by simp; omega
    rw [hmin] at hlen hbuf
    have hge : ¬ p.sbLen < 255 := by
      rw [UInt8.lt_iff_toNat_lt, hlen]
      show ¬ 1 + 254 < 255
      omega
    have hpush : sbPush p b = p := by simp [sbPush, hne, hge]
    rw [hpush]
    refine ⟨hst, hopt, by rw [hmin', hlen], ?_⟩
    rw [hmin', hbuf, List.take_append_of_le_length (by omega)]

/-- A whole payload without IAC is accumulated in silence. -/
theorem sbHolds_run {opt : UInt8} :
    ∀ (payload : List UInt8) (p : IacParser) (acc : List UInt8), SbHolds p opt acc →
      (∀ b ∈ payload, b ≠ telnetIac) →
      SbHolds (iacMachine.run p payload).1 opt (acc ++ payload)
        ∧ (iacMachine.run p payload).2 = []
  | [], p, acc, h, _ => by simpa using h
  | b :: payload, p, acc, h, hne => by
      obtain ⟨h', hout⟩ := sbHolds_step h (hne b List.mem_cons_self)
      obtain ⟨h'', hout'⟩ := sbHolds_run payload (iacStep p b).1 (acc ++ [b]) h'
        (fun c hc => hne c (List.mem_cons_of_mem _ hc))
      rw [List.append_assoc] at h''
      refine ⟨h'', ?_⟩
      show (iacStep p b).2 ++ (iacMachine.run (iacStep p b).1 payload).2 = []
      rw [hout, hout', List.append_nil]

/-- The event built from what the parser holds. -/
theorem sbEvent_of_holds {p : IacParser} {opt : UInt8} {acc : List UInt8}
    (h : SbHolds p opt acc) :
    sbEvent p = { opt := opt
                  data := acc.take (min acc.length 254)
                  len := UInt8.ofNat (min acc.length 254) } := by
  obtain ⟨_, hopt, hlen, hbuf⟩ := h
  -- The option byte is counted in `sb_len` but not in the event's length.
  have hsub : (if p.sbLen > 1 then p.sbLen - 1 else 0)
      = UInt8.ofNat (min acc.length 254) := by
    apply UInt8.toNat_inj.mp
    have hof : (UInt8.ofNat (min acc.length 254)).toNat = min acc.length 254 := by
      rw [UInt8.toNat_ofNat']
      omega
    rw [hof]
    split
    next hgt =>
      have h1 : (1 : UInt8) ≤ p.sbLen := UInt8.le_of_lt hgt
      rw [UInt8.toNat_sub_of_le _ _ h1, hlen]
      show 1 + min acc.length 254 - 1 = _
      omega
    next hle =>
      rw [gt_iff_lt, UInt8.lt_iff_toNat_lt, hlen] at hle
      have h1 : (1 : UInt8).toNat = 1 := rfl
      have h0 : (0 : UInt8).toNat = 0 := rfl
      omega
  have hof : (UInt8.ofNat (min acc.length 254)).toNat = min acc.length 254 := by
    rw [UInt8.toNat_ofNat']
    omega
  unfold sbEvent
  simp only [hsub, hof, hopt, hbuf]
  congr 1
  rw [List.take_eq_take_iff]
  omega

/-- **A subnegotiation**: from `IAC_DATA`, whatever spelling of the payload leaves
`acc` in the parser, the block is one event about `acc`. -/
theorem run_subneg {p : IacParser} {opt : UInt8} {code acc : List UInt8} (hp : p.state = .data)
    (hopt : opt ≠ telnetIac)
    (hcode : ∀ q, SbHolds q opt [] →
      SbHolds (iacMachine.run q code).1 opt acc ∧ (iacMachine.run q code).2 = []) :
    (iacMachine.run p ([telnetIac, telnetSb, opt] ++ code ++ [telnetIac, telnetSe])).1.state = .data
      ∧ (iacMachine.run p ([telnetIac, telnetSb, opt] ++ code ++ [telnetIac, telnetSe])).2
          = [.subneg { opt := opt
                       data := acc.take (min acc.length 254)
                       len := UInt8.ofNat (min acc.length 254) }] := by
  -- IAC SB opt: the length restarts at 0 and the first byte is the option
  have hhead : SbHolds (iacMachine.run p [telnetIac, telnetSb, opt]).1 opt []
      ∧ (iacMachine.run p [telnetIac, telnetSb, opt]).2 = [] := by
    refine ⟨⟨?_, ?_, ?_, ?_⟩, ?_⟩ <;>
      simp [iacMachine, iacStep, hp, telnetSb, telnetIac, sbPush] <;>
      simp [show opt ≠ 255 from hopt]
  obtain ⟨hholds, hsilent⟩ := hhead
  obtain ⟨hholds', hsilent'⟩ := hcode _ hholds
  rw [iacMachine.run_append, iacMachine.run_append, hsilent, hsilent']
  have hev := sbEvent_of_holds hholds'
  generalize (iacMachine.run (iacMachine.run p [telnetIac, telnetSb, opt]).1 code).1 = q
    at hholds' hev
  have hq := hholds'.state
  have hev' : sbEvent { q with state := .sbIac } = sbEvent q := rfl
  simp [iacMachine, iacStep, hq, telnetIac, telnetSe, hev', hev]

/-- **One item**: from `IAC_DATA` its code emits the item and comes back. -/
theorem run_encode_item (p : IacParser) (it : TelnetItem) (hp : p.state = .data) :
    (iacMachine.run p it.encode).1.state = .data
      ∧ (iacMachine.run p it.encode).2 = it.decoded := by
  cases it with
  | data b =>
      by_cases hb : b = telnetIac
      · subst hb
        simp [TelnetItem.encode, TelnetItem.decoded, iacMachine, iacStep, hp]
        rfl
      · simp [TelnetItem.encode, TelnetItem.decoded, iacMachine, iacStep, hp, hb]
  | option cmd opt =>
      -- the option byte may be anything, IAC included: state `IAC_CMD` takes it as is
      cases cmd <;>
        simp [TelnetItem.encode, TelnetItem.decoded, OptionCmd.write, OptionCmd.byte,
          iacWriteWill, iacWriteWont, iacWriteDo, iacWriteDont, iacWrite,
          iacMachine, iacStep, hp, telnetIac, telnetSb, telnetWill, telnetWont,
          telnetDo, telnetDont]
  | subneg sn =>
      obtain ⟨opt, payload, hopt, hpay⟩ := sn
      apply run_subneg hp hopt
      intro q hq
      have hrun := sbHolds_run payload q [] hq hpay
      rwa [List.nil_append] at hrun

/-- **Decoding undoes encoding**: fed the encoding of any item list from
`IAC_DATA`, whatever the parser's other fields hold, `iac_parser_feed` emits
exactly the items in order and comes back to `IAC_DATA`. -/
theorem feed_encode (p : IacParser) (items : List TelnetItem) (hp : p.state = .data) :
    flatEvents (iacParserFeed p (items.flatMap TelnetItem.encode)).2
        = items.flatMap TelnetItem.decoded
      ∧ (iacParserFeed p (items.flatMap TelnetItem.encode)).1.state = .data := by
  obtain ⟨hpar, hev⟩ := feed_refines p (items.flatMap TelnetItem.encode)
  obtain ⟨hrest, hout⟩ := iacMachine.run_flatMap (fun q => q.state = .data)
    TelnetItem.encode TelnetItem.decoded (fun q it hq => run_encode_item q it hq)
    p items hp
  rw [hpar, hev]
  exact ⟨hout, hrest⟩

/-- An option byte that looks like IAC, an escaped 255 and a NAWS block, from
the initial parser. -/
theorem feed_encode_from_init :
    iacParserInit.state = .data
      ∧ flatEvents (iacParserFeed iacParserInit
          ([TelnetItem.option .do 255, .data 255, .data 65,
            .subneg ⟨teloptNaws, [0, 80, 0, 24], by decide, by decide +kernel⟩].flatMap
              TelnetItem.encode)).2
        = [.option ⟨255, telnetDo⟩, .byte 255, .byte 65,
            .subneg ⟨teloptNaws, [0, 80, 0, 24], 4⟩] :=
  ⟨rfl, (feed_encode iacParserInit _ rfl).1⟩

end NetServer.Telnet
