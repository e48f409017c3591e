/-
  NetServer.Telnet.Window — window sizes on the wire.

  A client reports its size as IAC SB NAWS, two big-endian words and IAC SE,
  with every payload byte 255 doubled.  Inside a subnegotiation the parser
  takes a second IAC for the end of an unknown command and drops it, so an
  escaped 255 is lost and the payload comes out too short.

    • `feedSession_chunks` — the cut points of the stream do not show in the
      session either;
    • `sbHolds_doubled` — of an escaped payload the parser keeps the bytes
      other than 255;
    • `naws_exact_iff` — which window sizes arrive.
-/
import NetServer.Telnet.Lifecycle
import NetServer.Telnet.ProtoStream

namespace NetServer.Telnet

open NetServer.Core NetServer.Lib

/-! ## §1. A session on a stream. -/

/-- A callback of one unit of the stream. -/
def onIacUnit (env : GameEnv) (s : Session) : IacUnit → Session
  | .byte b => onDataByte env s b
  | .option ev => onOption env s ev
  | .subneg ev => onSubneg env s ev

/-- The callbacks are the callbacks of the single units. -/
theorem foldl_onIacEvent (env : GameEnv) (evs : List IacEvent) (s : Session) :
    evs.foldl (onIacEvent env) s = (flatEvents evs).foldl (onIacUnit env) s := by
  induction evs generalizing s with
  | nil => rfl
  | cons e evs ih =>
    have hone : onIacEvent env s e = e.flat.foldl (onIacUnit env) s := by
      cases e with
      | onData buf =>
        show buf.foldl (onDataByte env) s = (buf.map IacUnit.byte).foldl (onIacUnit env) s
        rw [List.foldl_map]
        rfl
      | onOption ev => rfl
      | onSubneg ev => rfl
    rw [List.foldl_cons, ih, hone]
    show _ = (e.flat ++ flatEvents evs).foldl (onIacUnit env) s
    rw [List.foldl_append]

/-- No action looks at the parser. -/
theorem row_iac {env : GameEnv} {t : FsmTransition TelnetState TelnetEvent Session EventData}
    (ht : t ∈ telnetFsmTable env) (ev : TelnetEvent) (s : Session) (p : IacParser)
    (data : EventData) :
    fsmTake t ev { s with iac := p } data
      = ((fsmTake t ev s data).1, { (fsmTake t ev s data).2 with iac := p }) := by
  obtain ⟨act, hact, hmem⟩ := row_action ht
  have hkeep : act { s with iac := p } ev data
      = ({ (act s ev data).1 with iac := p }, (act s ev data).2) := by
    simp only [List.mem_cons, List.not_mem_nil, or_false] at hmem
    rcases hmem with ⟨rfl, -⟩ | ⟨rfl | rfl | rfl | rfl | rfl, -⟩
    · rfl
    · rfl
    · unfold actHandleMenuKey
      dsimp only
      split
      · split_ifs <;> rfl
      · rfl
    · unfold actStartGame
      dsimp only
      split
      · split_ifs
        · split
          · rfl
          · split <;> rfl
        · rfl
      · rfl
    · unfold actGameKey
      dsimp only
      split
      · rfl
      · split_ifs <;> rfl
    · rfl
  rw [fsmTake_action hact, fsmTake_action hact, hkeep]

theorem dispatch_iac (env : GameEnv) (s : Session) (p : IacParser) (ev : TelnetEvent)
    (data : EventData) :
    dispatch env { s with iac := p } ev data = { dispatch env s ev data with iac := p } := by
  cases hl : fsmLookup (telnetFsmDef env) s.fsm ev with
  | none => rw [dispatch_ignored (s := s) hl, dispatch_ignored (s := { s with iac := p }) hl]
  | some t =>
    rw [dispatch_row (s := s) hl, dispatch_row (s := { s with iac := p }) hl,
      row_iac (List.mem_of_find?_eq_some hl)]

theorem onDataByte_iac (env : GameEnv) (s : Session) (p : IacParser) (key : UInt8) :
    onDataByte env { s with iac := p } key = { onDataByte env s key with iac := p } := by
  have hover : ∀ s : Session,
      consumeGameOver env { s with iac := p } = { consumeGameOver env s with iac := p } := by
    intro s
    unfold consumeGameOver
    show (if s.gameOverPending ∧ ¬ isTerminal env s then _ else _) = _
    split
    · exact dispatch_iac env { s with gameOverPending := false } p .gameOver .null
    · rfl
  have hquit : ∀ s : Session,
      consumeQuit env { s with iac := p } = { consumeQuit env s with iac := p } := by
    intro s
    unfold consumeQuit
    show (if s.quitPending ∧ ¬ isTerminal env s then _ else _) = _
    split
    · exact dispatch_iac env { s with quitPending := false } p .disconnect .null
    · rfl
  have hsel : ∀ s : Session,
      consumeSelection env { s with iac := p } = { consumeSelection env s with iac := p } := by
    intro s
    unfold consumeSelection
    show (if s.pendingSelection ≥ 0 ∧ ¬ isTerminal env s then _ else _) = _
    split
    · exact dispatch_iac env { s with pendingSelection := -1 } p .menuSelect _
    · rfl
  unfold onDataByte
  show (if key = 0 then _ else if isTerminal env s then _ else _) = _
  split_ifs
  · rfl
  · rfl
  · dsimp only
    rw [dispatch_iac, hover, hquit, hsel]

/-- The options `on_option` records. -/
def recordOption (s : Session) (ev : IacOptionEvent) : Session :=
  { s with
    nawsOk := if ev.cmd = telnetWill ∧ ev.opt = teloptNaws then true else s.nawsOk
    echoOk := if ev.cmd = telnetDont ∧ ev.opt = teloptEcho then false
      else if ev.cmd = telnetDo ∧ ev.opt = teloptEcho then true else s.echoOk
    sgaOk := if ev.cmd = telnetDo ∧ ev.opt = teloptSga then true else s.sgaOk }

/-- The reply `on_option` counts. -/
def countReply (env : GameEnv) (s : Session) : Session :=
  if s.negoPending > 0 then
    if s.negoPending - 1 = 0 ∧ ¬ isTerminal env s then
      dispatch env { s with negoPending := s.negoPending - 1 } .negoDone .null
    else { s with negoPending := s.negoPending - 1 }
  else s

theorem onOption_eq (env : GameEnv) (s : Session) (ev : IacOptionEvent) :
    onOption env s ev = countReply env (recordOption s ev) := by
  unfold onOption
  extract_lets s1 s2 s3 s4
  have h4 : s4 = recordOption s ev := by
    unfold s4 s3 s2 s1 recordOption
    split_ifs <;> rfl
  show countReply env s4 = _
  rw [h4]

theorem countReply_iac (env : GameEnv) (s : Session) (p : IacParser) :
    countReply env { s with iac := p } = { countReply env s with iac := p } := by
  have hterm : isTerminal env { s with iac := p } = isTerminal env s := rfl
  unfold countReply
  dsimp only
  rw [hterm]
  by_cases hpos : s.negoPending > 0
  · by_cases hlast : s.negoPending - 1 = 0 ∧ ¬ isTerminal env s
    · simp only [if_pos hpos, if_pos hlast]
      exact dispatch_iac env { s with negoPending := s.negoPending - 1 } p .negoDone .null
    · simp only [if_pos hpos, if_neg hlast]
  · simp only [if_neg hpos]

theorem onIacUnit_iac (env : GameEnv) (s : Session) (p : IacParser) (u : IacUnit) :
    onIacUnit env { s with iac := p } u = { onIacUnit env s u with iac := p } := by
  cases u with
  | byte b => exact onDataByte_iac env s p b
  | option ev =>
    show onOption env { s with iac := p } ev = { onOption env s ev with iac := p }
    rw [onOption_eq, onOption_eq env s]
    exact countReply_iac env (recordOption s ev) p
  | subneg ev =>
    show onSubneg env { s with iac := p } ev = { onSubneg env s ev with iac := p }
    unfold onSubneg
    dsimp only
    rw [dispatch_naws, dispatch_naws]
    split <;> rfl

theorem foldl_onIacUnit_iac (env : GameEnv) (p : IacParser) (us : List IacUnit) (s : Session) :
    us.foldl (onIacUnit env) { s with iac := p }
      = { us.foldl (onIacUnit env) s with iac := p } := by
  induction us generalizing s with
  | nil => rfl
  | cons u us ih =>
    rw [List.foldl_cons, List.foldl_cons, onIacUnit_iac, ih]

/-- A received buffer: the parser makes the machine's transitions, and the
session sees the machine's outputs. -/
theorem feedSession_eq (env : GameEnv) (s : Session) (raw : List UInt8) :
    feedSession env s raw
      = { (iacMachine.run s.iac raw).2.foldl (onIacUnit env) s with
          iac := (iacMachine.run s.iac raw).1 } := by
  obtain ⟨hparser, hunits⟩ := feed_refines s.iac raw
  show (iacParserFeed s.iac raw).2.foldl (onIacEvent env)
    { s with iac := (iacParserFeed s.iac raw).1 } = _
  rw [foldl_onIacEvent, hunits, hparser, foldl_onIacUnit_iac]

/-- **The cut points of the stream do not show in the session.** -/
theorem feedSession_chunks (env : GameEnv) (cs : List (List UInt8)) (s : Session) :
    cs.foldl (feedSession env) s = feedSession env s cs.flatten := by
  induction cs generalizing s with
  | nil =>
    rw [feedSession_eq]
    rfl
  | cons c cs ih =>
    rw [List.foldl_cons, ih, feedSession_eq env s, feedSession_eq, feedSession_eq env s,
      List.flatten_cons, iacMachine.run_append]
    dsimp only
    rw [foldl_onIacUnit_iac, List.foldl_append]

/-! ## §2. The window size on the wire. -/

/-- The four payload bytes: columns and rows, high byte first. -/
def nawsBytes (cols rows : UInt16) : List UInt8 :=
  [(cols >>> 8).toUInt8, cols.toUInt8, (rows >>> 8).toUInt8, rows.toUInt8]

/-- A payload byte on the wire: 255 is doubled. -/
def iacDoubled (b : UInt8) : List UInt8 := if b = telnetIac then [telnetIac, telnetIac] else [b]

/-- IAC SB NAWS, the payload, IAC SE. -/
def nawsEncode (cols rows : UInt16) : List UInt8 :=
  [telnetIac, telnetSb, teloptNaws] ++ (nawsBytes cols rows).flatMap iacDoubled
    ++ [telnetIac, telnetSe]

/-- The two bytes of a word give the word. -/
theorem nawsWord_bytes (w : UInt16) : nawsWord (w >>> 8).toUInt8 w.toUInt8 = w := by
  have hlt : w.toNat < 65536 := w.toNat_lt
  apply UInt16.toNat_inj.mp
  unfold nawsWord
  rw [UInt16.toNat_or, UInt16.toNat_shiftLeft]
  have hhi : ((w >>> 8).toUInt8.toUInt16).toNat = w.toNat / 256 := by
    simp only [UInt8.toNat_toUInt16, UInt16.toNat_toUInt8, UInt16.toNat_shiftRight]
    rw [Nat.shiftRight_eq_div_pow]
    show w.toNat / 2 ^ 8 % 2 ^ 8 = _
    omega
  have hlo : (w.toUInt8.toUInt16).toNat = w.toNat % 256 := by
    simp only [UInt8.toNat_toUInt16, UInt16.toNat_toUInt8]
  rw [hhi, hlo]
  show (w.toNat / 256) <<< 8 % 2 ^ 16 ||| w.toNat % 256 = _
  have hshift : (w.toNat / 256) <<< 8 % 2 ^ 16 = (w.toNat / 256) <<< 8 := by
    rw [Nat.shiftLeft_eq]
    omega
  have hmod : w.toNat % 256 < 2 ^ 8 := Nat.mod_lt _ (by decide)
  rw [hshift, ← Nat.shiftLeft_add_eq_or_of_lt hmod, Nat.shiftLeft_eq]
  omega

/-- An escaped 255 leaves the parser as it was. -/
theorem run_doubled_iac {p : IacParser} (h : p.state = .sb) :
    iacMachine.run p (iacDoubled telnetIac) = (p, []) := by
  have hback : ({ p with state := .sb } : IacParser) = p := by
    cases p
    cases h
    rfl
  show ((iacStep (iacStep p telnetIac).1 telnetIac).1,
    (iacStep p telnetIac).2 ++ ((iacStep (iacStep p telnetIac).1 telnetIac).2 ++ [])) = _
  have hfirst : iacStep p telnetIac = ({ p with state := .sbIac }, []) := by
    simp [iacStep, h]
  have hsecond : iacStep { p with state := .sbIac } telnetIac = (p, []) := by
    simp only [iacStep]
    rw [if_neg (by decide), hback]
  rw [hfirst, hsecond]
  rfl

/-- Of an escaped payload the parser keeps the bytes other than 255. -/
theorem sbHolds_doubled {opt : UInt8} :
    ∀ (payload : List UInt8) (p : IacParser) (acc : List UInt8), SbHolds p opt acc →
      SbHolds (iacMachine.run p (payload.flatMap iacDoubled)).1 opt
          (acc ++ payload.filter (· ≠ telnetIac))
        ∧ (iacMachine.run p (payload.flatMap iacDoubled)).2 = []
  | [], p, acc, h => by simpa using h
  | b :: payload, p, acc, h => by
      rw [List.flatMap_cons, iacMachine.run_append]
      by_cases hb : b = telnetIac
      · subst hb
        obtain ⟨hholds, hout⟩ := sbHolds_doubled payload p acc h
        rw [run_doubled_iac h.state, List.filter_cons_of_neg (by simp)]
        exact ⟨hholds, hout⟩
      · have hplain : iacDoubled b = [b] := if_neg hb
        obtain ⟨h', hout⟩ := sbHolds_step h hb
        obtain ⟨hholds, hout'⟩ := sbHolds_doubled payload (iacStep p b).1 (acc ++ [b]) h'
        rw [List.append_assoc] at hholds
        rw [hplain, List.filter_cons_of_pos (by simpa using hb)]
        refine ⟨hholds, ?_⟩
        show ((iacStep p b).2 ++ []) ++ (iacMachine.run (iacStep p b).1 _).2 = []
        rw [hout, hout', List.append_nil]
        rfl

/-- The event a window report arrives as. -/
def nawsEvent (cols rows : UInt16) : IacSbEvent :=
  { opt := teloptNaws
    data := (nawsBytes cols rows).filter (· ≠ telnetIac)
    len := UInt8.ofNat ((nawsBytes cols rows).filter (· ≠ telnetIac)).length }

theorem run_nawsEncode {p : IacParser} (hp : p.state = .data) (cols rows : UInt16) :
    (iacMachine.run p (nawsEncode cols rows)).1.state = .data
      ∧ (iacMachine.run p (nawsEncode cols rows)).2 = [.subneg (nawsEvent cols rows)] := by
  have hfew : ((nawsBytes cols rows).filter (· ≠ telnetIac)).length ≤ 4 := List.length_filter_le _ _
  obtain ⟨hstate, hout⟩ := run_subneg (p := p) hp (by decide : teloptNaws ≠ telnetIac)
    fun q hq => sbHolds_doubled (nawsBytes cols rows) q [] hq
  refine ⟨hstate, ?_⟩
  rw [List.nil_append, Nat.min_eq_left (by omega), List.take_length] at hout
  exact hout

/-! ## §3. Which sizes arrive. -/

/-- Only a payload without 255 is long enough. -/
theorem nawsEvent_len (cols rows : UInt16) :
    (nawsEvent cols rows).len ≥ 4 ↔ ∀ b ∈ nawsBytes cols rows, b ≠ telnetIac := by
  have hfew : ((nawsBytes cols rows).filter (· ≠ telnetIac)).length ≤ 4 := List.length_filter_le _ _
  have hnat : (nawsEvent cols rows).len.toNat
      = ((nawsBytes cols rows).filter (· ≠ telnetIac)).length := by
    show (UInt8.ofNat _).toNat = _
    rw [UInt8.toNat_ofNat']
    omega
  have hall : ((nawsBytes cols rows).filter (· ≠ telnetIac)).length = (nawsBytes cols rows).length
      ↔ ∀ b ∈ nawsBytes cols rows, b ≠ telnetIac := by
    rw [List.length_filter_eq_length_iff]
    simp only [decide_eq_true_eq]
  rw [← hall, ge_iff_le, UInt8.le_iff_toNat_le, hnat]
  show 4 ≤ _ ↔ _ = 4
  omega

theorem onSubneg_naws (env : GameEnv) (s : Session) {cols rows : UInt16}
    (hclean : ∀ b ∈ nawsBytes cols rows, b ≠ telnetIac) :
    onSubneg env s (nawsEvent cols rows) = { s with termCols := cols, termRows := rows } := by
  have hdata : (nawsEvent cols rows).data = nawsBytes cols rows := by
    show (nawsBytes cols rows).filter (· ≠ telnetIac) = _
    rw [List.filter_eq_self]
    simpa using hclean
  unfold onSubneg
  rw [if_pos ⟨rfl, (nawsEvent_len cols rows).mpr hclean⟩, dispatch_naws, hdata]
  show ({ s with
    termCols := nawsWord (cols >>> 8).toUInt8 cols.toUInt8
    termRows := nawsWord (rows >>> 8).toUInt8 rows.toUInt8 } : Session) = _
  rw [nawsWord_bytes, nawsWord_bytes]

/-- A payload that has lost a byte is ignored. -/
theorem onSubneg_short (env : GameEnv) (s : Session) {cols rows : UInt16}
    (hlost : ¬ ∀ b ∈ nawsBytes cols rows, b ≠ telnetIac) :
    onSubneg env s (nawsEvent cols rows) = s := by
  unfold onSubneg
  rw [if_neg]
  rintro ⟨-, hlen⟩
  exact hlost ((nawsEvent_len cols rows).mp hlen)

/-- **Window sizes on the wire.**  A session whose parser is in IAC_DATA is fed
the report of a window size, cut into chunks anywhere.  It ends with that size,
its parser back in IAC_DATA and no data byte delivered, exactly when none of the
four payload bytes is 255, or the session had that size before. -/
theorem naws_exact_iff (env : GameEnv) (s : Session) (cols rows : UInt16) (cs : List (List UInt8))
    (hdata : s.iac.state = .data) (hcs : cs.flatten = nawsEncode cols rows) :
    (((cs.foldl (feedSession env) s).termCols = cols
          ∧ (cs.foldl (feedSession env) s).termRows = rows)
        ∧ (cs.foldl (feedSession env) s).iac.state = .data
        ∧ ∀ b, IacUnit.byte b ∉ flatEvents (iacParserFeedChunks s.iac cs).2)
      ↔ (∀ b ∈ nawsBytes cols rows, b ≠ telnetIac) ∨ (s.termCols = cols ∧ s.termRows = rows) := by
  obtain ⟨hstate, hunits⟩ := run_nawsEncode hdata cols rows
  have hfed : cs.foldl (feedSession env) s
      = { onSubneg env s (nawsEvent cols rows) with
          iac := (iacMachine.run s.iac (nawsEncode cols rows)).1 } := by
    rw [feedSession_chunks, feedSession_eq, hcs, hunits]
    rfl
  have hsilent : ∀ b, IacUnit.byte b ∉ flatEvents (iacParserFeedChunks s.iac cs).2 := by
    intro b
    rw [(feedChunks_refines s.iac cs).2, iacMachine.runChunks_eq_run_flatten, hcs, hunits]
    simp
  rw [hfed]
  by_cases hclean : ∀ b ∈ nawsBytes cols rows, b ≠ telnetIac
  · rw [onSubneg_naws env s hclean]
    exact iff_of_true ⟨⟨rfl, rfl⟩, hstate, hsilent⟩ (Or.inl hclean)
  · rw [onSubneg_short env s hclean, or_iff_right hclean]
    exact ⟨fun h => h.1, fun h => ⟨h, hstate, hsilent⟩⟩

/-- A terminal of 132 by 43 in three chunks. -/
theorem naws_exact_three_chunks :
    ([[255, 250], [31, 0, 132, 0, 43, 255], [240]].foldl (feedSession endlessGames)
      (telnetRunStart endlessGames 0).session).termCols = 132 :=
  ((naws_exact_iff endlessGames (telnetRunStart endlessGames 0).session 132 43
    [[255, 250], [31, 0, 132, 0, 43, 255], [240]] rfl (by decide +kernel)).mpr
      (Or.inl (by decide +kernel))).1.1

/-- **A terminal of 255 columns** is taken for the one of 80 it was before. -/
theorem naws_loses_255 :
    ∃ (env : GameEnv) (s : Session), s.iac.state = .data
      ∧ ([nawsEncode 255 24].foldl (feedSession env) s).termCols ≠ 255 := by
  refine ⟨endlessGames, (telnetRunStart endlessGames 0).session, rfl, ?_⟩
  decide +kernel

end NetServer.Telnet
