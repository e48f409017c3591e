/-
  NetServer.Chat.Expiry — how long a visitor stays on the list.

  A presence row counts for `CHAT_PRESENCE_TTL` seconds.  A visit writes it at
  its beginning; after that a stream writes it again only when
  `http_conn_wait` times out, and a telnet session only when a composed text
  is entered.  A wake-up, however often it comes, and any other key leave the
  row as it is.

  The beat of a connection is the time of its last input of these kinds; it
  is kept by a monitor beside the server.

    • `visitor_listed` — a visitor whose beat is never older than the TTL, and
      whose row is written before time goes on, is listed all the time;
    • `visitors_expire` — a stream that is woken every 25 seconds, and a
      session that receives a key every 100 seconds, are not.
-/
import NetServer.Chat.Presence
import NetServer.Chat.Injection

namespace NetServer.Chat

open NetServer.Lib

/-! ## §1. Inputs that refresh. -/

/-- The thread is on its way to a `chat_room_presence_set` that refreshes. -/
def Prog.refreshing : Prog → Bool
  | .telnet t =>
      match t.pc with
      | .post _ | .postPresence => true
      | _ => false
  | .http (.events e) => e.pc = .beatPresence
  | _ => false

/-- Enter behind a composed text. -/
def ChatState.enters (c : ChatState) (key : UInt8) : Bool :=
  c.st = .compose && (key = 13 || key = 10) && c.compose ≠ []

/-- The visit begins, `http_conn_wait` times out, or a composed text is entered. -/
def Prog.beats (p : Prog) (choice : Choice) : Bool :=
  match p with
  | .telnet t =>
      match t.pc, choice with
      | .enterPresence, _ => true
      | .poll, .key k => t.chat.any fun c => c.enters k
      | _, _ => false
  | .http (.events e) => e.pc = .presence || (e.pc = .poll && choice = .timeout)
  | _ => false

/-- What an input that refreshes, and every step on the way, leads to. -/
def Refreshes (p' : Prog) (op : Op) : Prop :=
  p'.refreshing = true ∨ (∃ r u, op = .presenceSet r u) ∨ p'.holds = none

namespace Telnet

variable {rooms : List ChatRoom} {sh : Shared} {bytes : Nat} {shutdown : Bool} {choice : Choice}
  {t t' : Telnet} {op : Op}

theorem startPost_refreshes (t : Telnet) (c : ChatState) :
    (Prog.telnet (t.startPost c)).refreshing = true := by
  unfold startPost
  split <;> rfl

theorem enters_refreshes {c : ChatState} {key : UInt8} (h : c.enters key = true) :
    (Prog.telnet (t.chatHandleKey rooms c key)).refreshing = true := by
  unfold ChatState.enters at h
  obtain ⟨h, htext⟩ := Bool.and_eq_true_iff.mp h
  obtain ⟨hst, hkey⟩ := Bool.and_eq_true_iff.mp h
  have hst := of_decide_eq_true hst
  have hkey : key = 13 ∨ key = 10 := by
    rcases Bool.or_eq_true_iff.mp hkey with hkey | hkey
    · exact Or.inl (of_decide_eq_true hkey)
    · exact Or.inr (of_decide_eq_true hkey)
  have hesc : ¬ (key = 27 ∨ key = 3) := by
    rcases hkey with rfl | rfl <;> decide
  unfold chatHandleKey
  rw [hst]
  show (Prog.telnet (t.handleCompose c key)).refreshing = true
  unfold handleCompose
  rw [if_neg hesc, if_pos hkey, if_neg (of_decide_eq_true htext)]
  exact startPost_refreshes t c

theorem refreshing_pc (h : (Prog.telnet t).refreshing = true) :
    (∃ p, t.pc = .post p) ∨ t.pc = .postPresence := by
  have h : (match t.pc with | .post _ | .postPresence => true | _ => false) = true := h
  split at h
  · rename_i p hpc
    exact Or.inl ⟨p, hpc⟩
  · rename_i hpc
    exact Or.inr hpc
  · exact absurd h nofun

theorem beats_pc (h : (Prog.telnet t).beats choice = true) :
    t.pc = .enterPresence
      ∨ ∃ k c, t.pc = .poll ∧ choice = .key k ∧ t.chat = some c ∧ c.enters k = true := by
  unfold Prog.beats at h
  dsimp only at h
  split at h
  · rename_i hpc
    exact Or.inl hpc
  · rename_i k hpc
    rcases Option.eq_none_or_eq_some t.chat with hc | ⟨c, hc⟩
    · rw [hc] at h
      exact absurd h nofun
    · rw [hc] at h
      exact Or.inr ⟨k, c, hpc, rfl, hc, h⟩
  · exact absurd h nofun

/-- An input of a session that refreshes, and the steps behind it. -/
theorem step_refreshes (h : t.step rooms sh bytes shutdown choice = some (t', op))
    (hbeat : (Prog.telnet t).refreshing = true ∨ (Prog.telnet t).beats choice = true) :
    Refreshes (.telnet t') op := by
  unfold step at h
  rcases hbeat with hbeat | hbeat
  · rcases refreshing_pc hbeat with ⟨p, hpc⟩ | hpc
    · rw [hpc] at h
      obtain ⟨⟨p', op'⟩, hpost, heq⟩ := Option.map_eq_some_iff.mp h
      left
      cases p' with
      | none =>
        cases heq
        rfl
      | some p' =>
        cases heq
        rfl
    · rw [hpc] at h
      obtain ⟨c, room, hc, hr, heq⟩ := of_room h
      cases heq
      exact Or.inr (Or.inl ⟨_, _, rfl⟩)
  · rcases beats_pc hbeat with hpc | ⟨k, c, hpc, rfl, hc, henters⟩
    · rw [hpc] at h
      obtain ⟨room, hroom, heq⟩ := Option.map_eq_some_iff.mp h
      cases heq
      exact Or.inr (Or.inl ⟨_, _, rfl⟩)
    · rw [hpc] at h
      obtain ⟨t1, hpoll, heq⟩ := Option.map_eq_some_iff.mp h
      cases heq
      unfold pollStep at hpoll
      rw [hc] at hpoll
      cases hpoll
      exact Or.inl (enters_refreshes henters)

end Telnet

/-- The same for an event stream; one without a user is not listed. -/
theorem Sse.step_refreshes {e : Sse} {e' : Option Sse} {sh : Shared} {bytes : Nat} {shutdown : Bool}
    {choice : Choice} {op : Op} (h : e.step sh bytes shutdown choice = some (e', op))
    (hbeat : (Prog.http (.events e)).refreshing = true ∨ (Prog.http (.events e)).beats choice = true) :
    Refreshes (.http ((e'.map Http.events).getD .closing)) op := by
  -- both calls of `chat_room_presence_set`
  have hset : ∀ {e1 : Sse}, e1.holds = (if e.haveUser then heldName e.roomId e.user else none) →
      Refreshes (.http (.events e1)) (if e.haveUser then .presenceSet e.roomId e.user else .skip) := by
    intro e1 h1
    right
    cases huser : e.haveUser with
    | true => exact Or.inl ⟨_, _, rfl⟩
    | false =>
      rw [huser] at h1
      exact Or.inr h1
  have hpc : e.pc = .beatPresence ∨ e.pc = .presence ∨ e.pc = .poll ∧ choice = .timeout := by
    rcases hbeat with hbeat | hbeat
    · exact Or.inl (of_decide_eq_true hbeat)
    · rcases Bool.or_eq_true_iff.mp hbeat with hbeat | hbeat
      · exact Or.inr (Or.inl (of_decide_eq_true hbeat))
      · obtain ⟨hpc, hchoice⟩ := Bool.and_eq_true_iff.mp hbeat
        exact Or.inr (Or.inr ⟨of_decide_eq_true hpc, of_decide_eq_true hchoice⟩)
  unfold step at h
  rcases hpc with hpc | hpc | ⟨hpc, rfl⟩
  · rw [hpc] at h
    cases h
    exact hset rfl
  · rw [hpc] at h
    cases h
    exact hset rfl
  · rw [hpc] at h
    cases h
    exact Or.inl rfl

/-- **An input that refreshes** is followed only by steps on the way to the
`chat_room_presence_set`. -/
theorem progStep_refreshes {rooms : List ChatRoom} {sh : Shared} {c : Conn} {choice : Choice}
    {p' : Prog} {op : Op} (h : Sys.progStep rooms sh c choice = some (p', op))
    (hbeat : c.prog.refreshing = true ∨ c.prog.beats choice = true) : Refreshes p' op := by
  cases progStep_stepped h with
  | telnet t t' op hprog hstep =>
    rw [hprog] at hbeat
    exact Telnet.step_refreshes hstep hbeat
  | events e e' op hprog hstep =>
    rw [hprog] at hbeat
    exact Sse.step_refreshes hstep hbeat
  | eventsEnd e op hprog hstep =>
    rw [hprog] at hbeat
    exact Sse.step_refreshes hstep hbeat
  | _ => exact Or.inr (Or.inr rfl)

/-! ## §2. The beat. -/

/-- The time of connection `y`'s last input that refreshes. -/
def Sys.beat (y : Nat) (s : Sys) (act : Act) (last : Int) : Int :=
  match act with
  | .run x choice => if x = y ∧ (s.conns y).prog.beats choice = true then s.sh.now else last
  | _ => last

/-- Nobody else visits `y`'s room under its name. -/
def Sys.Unshared (s : Sys) (y : Nat) : Prop :=
  ∀ k, (s.conns y).prog.holds = some k → ∀ x, (s.conns x).prog.holds = some k → x = y

/-- While `y` visits a room, time goes on only when nothing is left to do for its
last input that refreshes, and up to the TTL behind it. -/
def Sys.OnTime (s : Sys) (y : Nat) (last : Int) (act : Act) : Prop :=
  ∀ secs k, act = .tick secs → (s.conns y).prog.holds = some k →
    (s.conns y).prog.refreshing = false ∧ s.sh.now + secs ≤ last + chatPresenceTtl

/-- The server with the beat of `y`. -/
def beatSystem (rooms : List ChatRoom) (y : Nat) : TransitionSystem (Sys × Int) Act :=
  (chatSystem rooms).monitored (fun s => s.sh.now) (Sys.beat y)

/-- The row of `y` is within the TTL, and as young as the beat unless it is
about to be written. -/
structure Sys.Fresh (s : Sys) (y : Nat) (last : Int) : Prop where
  past : last ≤ s.sh.now
  row : ∀ k, (s.conns y).prog.holds = some k →
    ∃ t, s.sh.db.seen k = some t ∧ s.sh.now - chatPresenceTtl ≤ t
      ∧ ((s.conns y).prog.refreshing = false → last ≤ t)

theorem apply_now {s s1 : Sys} {x : Nat} {op : Op} (h : s.apply x op = some s1) :
    s1.sh.now = s.sh.now := by
  unfold Sys.apply at h
  split at h
  all_goals first
    | cases h; rfl
    | (split at h <;> first | (cases h; rfl) | cases h)

theorem step_now {rooms : List ChatRoom} {s s' : Sys} {act : Act} (h : s.step rooms act = some s')
    (hact : ∀ secs, act ≠ .tick secs) : s'.sh.now = s.sh.now := by
  have hconnect : ∀ {x fd p}, s.connect x fd p = some s' → s'.sh.now = s.sh.now := by
    intro x fd p hc
    obtain ⟨-, heq⟩ := Option.ite_none_right_eq_some.mp hc
    cases heq
    rfl
  cases act with
  | connectTelnet x fd => exact hconnect h
  | connectHttp x fd => exact hconnect h
  | run x choice =>
    obtain ⟨p', op, s1, hprog, happly, rfl⟩ := Sys.step_run h
    show s1.sh.now = s.sh.now
    exact apply_now happly
  | tick secs => exact absurd rfl (hact secs)
  | flag x =>
    cases h
    rfl
  | wake x =>
    obtain ⟨-, heq⟩ := Option.ite_none_right_eq_some.mp h
    cases heq
    rfl

/-- A step of the connection itself that writes its row. -/
theorem HoldStep.seen_set {clears : Bool} {held held' : Option (Int × List UInt8)} {r : Int}
    {u : List UInt8} (h : HoldStep clears held (.presenceSet r u) held') {k : Int × List UInt8}
    (hk : held' = some k) (db : ChatDb) (now : Int) :
    (chatRoomPresenceSet db r u now).seen k = some now := by
  have hk : heldName r u = some k := by
    cases h with
    | set _ _ _ => exact hk
    | other hop => exact absurd hop id
  unfold heldName at hk
  dsimp only at hk
  split at hk
  · exact absurd hk nofun
  · rename_i hclean
    cases hk
    unfold chatRoomPresenceSet
    dsimp only
    rw [if_neg hclean, presenceSet_seen db (r, sanitizeUser u chatUserMax) now, Function.update_self]

section Steps

variable {rooms : List ChatRoom} {s s' : Sys} {act : Act} {y : Nat} {last : Int}

theorem beat_le (hpast : last ≤ s.sh.now) : s.beat y act last ≤ s.sh.now := by
  unfold Sys.beat
  split
  · split
    · exact le_rfl
    · exact hpast
  · exact hpast

theorem beat_other (hact : act.actor ≠ some y) : s.beat y act last = last := by
  unfold Sys.beat
  split
  · rename_i x choice
    exact if_neg fun h => hact (congrArg some h.1)
  · rfl

/-- Time goes on: the beat is within the TTL, and the row as young as the beat. -/
theorem Sys.Fresh.tick {secs : Nat} (hfresh : s.Fresh y last) (htime : s.OnTime y last (.tick secs)) :
    ({ s with sh := { s.sh with now := s.sh.now + secs } } : Sys).Fresh y last := by
  refine ⟨?_, ?_⟩
  · show last ≤ s.sh.now + secs
    have := hfresh.past
    omega
  · intro k hk
    obtain ⟨t, ht, -, hyoung⟩ := hfresh.row k hk
    obtain ⟨hidle, hlimit⟩ := htime secs k rfl hk
    have hlast := hyoung hidle
    refine ⟨t, ht, ?_, hyoung⟩
    show s.sh.now + secs - chatPresenceTtl ≤ t
    omega

/-- Every other step keeps the row, or writes it now. -/
theorem Sys.Fresh.step (hok : ∀ x, (s.conns x).prog.Ok) (hfresh : s.Fresh y last)
    (hown : s.Unshared y) (h : s.step rooms act = some s') (hact : ∀ secs, act ≠ .tick secs) :
    s'.Fresh y (s.beat y act last) := by
  have hnow := step_now h hact
  have hbeat : s.beat y act last ≤ s.sh.now := beat_le hfresh.past
  rw [← hnow] at hbeat
  refine ⟨hbeat, ?_⟩
  intro k hk
  -- a row written now is as young as anything
  have hwritten : s'.sh.db.seen k = some s.sh.now → ∃ t, s'.sh.db.seen k = some t
      ∧ s'.sh.now - chatPresenceTtl ≤ t
      ∧ ((s'.conns y).prog.refreshing = false → s.beat y act last ≤ t) := by
    intro hseen
    refine ⟨s.sh.now, hseen, ?_, fun _ => hnow ▸ hbeat⟩
    rw [hnow]
    unfold chatPresenceTtl
    omega
  rcases (step_roster hok h).row_of_member (y := y) hk (hown k) with ⟨hheld, hrow⟩ | hseen
  · obtain ⟨t, ht, hage, hyoung⟩ := hfresh.row k hheld
    have hseen : s'.sh.db.seen k = some t := hrow.trans ht
    rw [← hnow] at hage
    cases Sys.step_conn h y with
    | other n down hactor hconn hn =>
      refine ⟨t, hseen, hage, ?_⟩
      rw [hconn, beat_other hactor]
      exact hyoung
    | connect p hp hunused hprog =>
      have hheld : (s.conns y).prog.holds = some k := hheld
      rw [hunused] at hheld
      exact absurd hheld nofun
    | run choice p' op s1 hrun hprog happly hs' =>
      have hprog' : (s'.conns y).prog = p' := by
        rw [hs', Sys.setProg_conn]
      by_cases hbeats : (s.conns y).prog.refreshing = true ∨ (s.conns y).prog.beats choice = true
      · rcases progStep_refreshes hprog hbeats with href | ⟨r, u, rfl⟩ | hnone
        · refine ⟨t, hseen, hage, fun hidle => ?_⟩
          rw [hprog', href] at hidle
          exact absurd hidle nofun
        · apply hwritten
          rw [hs']
          show s1.sh.db.seen k = some s.sh.now
          rw [Sys.apply_db happly]
          have hk : p'.holds = some k := by
            rw [← hprog']
            exact hk
          exact (progStep_holds (hok y) hprog).seen_set hk _ _
        · have hk : (s'.conns y).prog.holds = some k := hk
          rw [hprog', hnone] at hk
          exact absurd hk nofun
      · rw [not_or] at hbeats
        refine ⟨t, hseen, hage, fun _ => ?_⟩
        have hsame : s.beat y act last = last := by
          rw [hrun]
          exact if_neg fun hb => hbeats.2 hb.2
        rw [hsame]
        exact hyoung (Bool.not_eq_true _ ▸ hbeats.1)
  · exact hwritten hseen

end Steps

/-! ## §3. The list of users. -/

/-- A row within the TTL is in the list, if the list is long enough. -/
theorem mem_chatRoomUsers {db : ChatDb} {p : PresenceRow} (hp : p ∈ db.presence) {now : Int}
    (hage : now - chatPresenceTtl ≤ p.lastSeen) (hclean : UserClean p.user) {max : Nat}
    (hmax : (db.presence.filter fun q =>
      q.roomId = p.roomId ∧ now - chatPresenceTtl ≤ q.lastSeen).length ≤ max) :
    p.user ∈ chatRoomUsers db p.roomId now max := by
  unfold chatRoomUsers chatDbActiveUsers
  rw [List.mem_map]
  refine ⟨p.user, ?_, ?_⟩
  · rw [List.take_of_length_le]
    · rw [List.mem_insertionSort, List.mem_map]
      exact ⟨p, List.mem_filter.mpr ⟨hp, decide_eq_true ⟨rfl, hage⟩⟩, rfl⟩
    · rw [List.length_insertionSort, List.length_map]
      exact hmax
  · rw [cString_of_printable hclean.printable]
    exact List.take_of_length_le hclean.length_le

theorem heldName_clean {r : Int} {user : List UInt8} {k : Int × List UInt8}
    (h : heldName r user = some k) : UserClean k.2 := by
  unfold heldName at h
  dsimp only at h
  split at h
  · exact absurd h nofun
  · rename_i hclean
    cases h
    exact sanitizeUser_clean hclean

theorem holds_clean {p : Prog} {k : Int × List UInt8} (h : p.holds = some k) : UserClean k.2 := by
  cases p with
  | telnet t =>
    have h : t.holds = some k := h
    unfold Telnet.holds at h
    split at h
    · exact absurd h nofun
    · obtain ⟨room, -, hname⟩ := Option.bind_eq_some_iff.mp h
      exact heldName_clean hname
  | http k' =>
    cases k' with
    | events e =>
      have h : e.holds = some k := h
      unfold Sse.holds at h
      split at h
      · exact absurd h nofun
      · exact absurd h nofun
      · exact absurd h nofun
      · obtain ⟨-, hname⟩ := Option.ite_none_right_eq_some.mp h
        exact heldName_clean hname
    | _ => exact absurd h nofun
  | _ => exact absurd h nofun

/-- **A visitor does not expire**, in the runs in which nobody shares its room
and name and time passes only up to the TTL behind its beat, when the
`chat_room_presence_set` of that beat is done. -/
theorem visitor_listed {rooms : List ChatRoom} {y : Nat} {s : Sys} {last : Int}
    (h : (beatSystem rooms y).ReachableVia
      (fun p act _ => p.1.Unshared y ∧ p.1.OnTime y p.2 act) (s, last)) :
    ∀ r u, (s.conns y).prog.holds = some (r, u) →
      (∃ p ∈ s.sh.db.presence, p.roomId = r ∧ p.user = u
        ∧ s.sh.now - chatPresenceTtl ≤ p.lastSeen)
      ∧ ∀ max, (s.sh.db.presence.filter fun p =>
          p.roomId = r ∧ s.sh.now - chatPresenceTtl ≤ p.lastSeen).length ≤ max →
        u ∈ chatRoomUsers s.sh.db r s.sh.now max := by
  have hfresh : s.Fresh y last := by
    refine TransitionSystem.ReachableVia.strengthen (P := fun p => p.1.Fresh y p.2)
      (fun p hp => reachable_sound (TransitionSystem.monitored_reachable hp)) ?_ ?_ h
    · rintro ⟨s, last⟩ ⟨⟨db, now, -, rfl⟩, hlast⟩
      exact ⟨hlast.le, fun k hk => absurd hk nofun⟩
    · rintro ⟨s, last⟩ act ⟨s', last'⟩ hs hfresh hstep ⟨hown, htime⟩
      obtain ⟨hstep, hlast⟩ := TransitionSystem.monitored_step hstep
      have hlast : last' = s.beat y act last := hlast
      rw [hlast]
      by_cases htick : ∃ secs, act = .tick secs
      · obtain ⟨secs, rfl⟩ := htick
        cases hstep
        exact hfresh.tick htime
      · exact hfresh.step hs.threads hown hstep fun secs heq => htick ⟨secs, heq⟩
  intro r u hk
  obtain ⟨t, ht, hage, -⟩ := hfresh.row (r, u) hk
  have hmem := ChatDb.mem_of_seen ht
  refine ⟨⟨_, hmem, rfl, rfl, hage⟩, ?_⟩
  intro max hmax
  exact mem_chatRoomUsers hmem hage (holds_clean hk) hmax

/-- One wait of stream 0 that times out: its heartbeat. -/
def heartbeatActs : List Act :=
  [.tick 25, .run 0 .timeout, .run 0 .go, .run 0 (.sent true), .run 0 .go]

/-- A test for `OnTime` of connection 0, the only one. -/
def Sys.onTimeAlone (p : Sys × Int) (act : Act) : Bool :=
  act.within 1 && match act with
    | .tick secs => (p.1.conns 0).prog.holds = none
        || !(p.1.conns 0).prog.refreshing && p.1.sh.now + secs ≤ p.2 + chatPresenceTtl
    | _ => true

theorem Sys.Few.unshared {s : Sys} (h : s.Few 1) : s.Unshared 0 := by
  intro k _ x hx
  by_contra hne
  rw [h x (by omega)] at hx
  exact absurd hx nofun

theorem Sys.onTime_of_alone {p : Sys × Int} {act : Act} (h : Sys.onTimeAlone p act = true) :
    p.1.OnTime 0 p.2 act := by
  rintro secs k rfl hk
  obtain ⟨-, h⟩ := Bool.and_eq_true_iff.mp h
  rcases Bool.or_eq_true_iff.mp h with hnone | hlimit
  · exact absurd ((of_decide_eq_true hnone).symm.trans hk) nofun
  · obtain ⟨hidle, hlimit⟩ := Bool.and_eq_true_iff.mp hlimit
    exact ⟨by simpa using hidle, of_decide_eq_true hlimit⟩

theorem visitor_listed_heartbeat :
    ∃ s last, (beatSystem [demoRoom] 0).ReachableVia
        (fun p act _ => p.1.Unshared 0 ∧ p.1.OnTime 0 p.2 act) (s, last)
      ∧ s.sh.now = 325 ∧ (s.conns 0).prog.holds = some (1, ascii "ann")
      ∧ ∃ p ∈ s.sh.db.presence, p.roomId = 1 ∧ p.user = ascii "ann"
        ∧ s.sh.now - chatPresenceTtl ≤ p.lastSeen := by
  have hstep : ∀ (p : Sys × Int) (act : Act) (p' : Sys × Int), p.1.Few 1 →
      Sys.onTimeAlone p act = true → (beatSystem [demoRoom] 0).step p act = some p' →
      p'.1.Few 1 ∧ p.1.Unshared 0 ∧ p.1.OnTime 0 p.2 act := by
    intro p act p' hfew htest hp
    obtain ⟨hwithin, -⟩ := Bool.and_eq_true_iff.mp htest
    have hp := (TransitionSystem.monitored_step hp).1
    exact ⟨hfew.step (fun x hx => Act.lt_of_within hwithin hx) hp, hfew.unshared,
      Sys.onTime_of_alone htest⟩
  let acts := visitActs 0 (ascii "user=ann") ++ (List.replicate 13 heartbeatActs).flatten
  let check : Sys × Int → Bool := fun p =>
    decide (p.1.sh.now = 325 ∧ (p.1.conns 0).prog.holds = some (1, ascii "ann"))
  have heval : (((beatSystem [demoRoom] 0).guarded Sys.onTimeAlone).run (sysStart emptyDb 0, 0)
      acts).any check = true := by
    decide +kernel
  obtain ⟨⟨s, last⟩, hrun, hcheck⟩ := TransitionSystem.exists_of_run check heval
  obtain ⟨hs, -⟩ := TransitionSystem.run_guarded hstep _ _ _
    (.init ⟨⟨emptyDb, 0, emptyDb_wf, rfl⟩, rfl⟩) (fun _ _ => rfl) hrun
  obtain ⟨hnow, hholds⟩ := of_decide_eq_true hcheck
  exact ⟨s, last, hs, hnow, hholds, (visitor_listed hs 1 (ascii "ann") hholds).1⟩

/-- One wait of stream 0 that ends with a wake-up, by connection `x`'s post. -/
def notifyActs (x : Nat) : List Act :=
  .tick 25 :: postActs x x ++ [.run 0 .readable, .run 0 .go, .run 0 .go, .run 0 .go, .run 0 .go,
    .run 0 (.sent true), .run 0 .go]

/-- A stream in a room with a post every 25 seconds. -/
def busyActs : List Act :=
  visitActs 0 (ascii "user=ann") ++ ((List.range 13).map fun i => notifyActs (i + 1)).flatten

/-- A session that presses `n` every 100 seconds. -/
def pagingActs : List Act :=
  enterActs 0 ++ (List.replicate 4 [.tick 100, .run 0 (.key 110), .run 0 .go, .run 0 .go]).flatten

/-- Connection 0 visits room 1 as `name`, its row is from time 0, and the list of
the room is empty. -/
def Sys.Expired (s : Sys) (name : List UInt8) : Prop :=
  (s.conns 0).prog.holds = some (1, name)
    ∧ s.sh.db.presence = [{ roomId := 1, user := name, lastSeen := 0 }]
    ∧ chatRoomUsers s.sh.db 1 s.sh.now chatMaxWho = []

instance (s : Sys) (name : List UInt8) : Decidable (s.Expired name) :=
  inferInstanceAs (Decidable (_ ∧ _ ∧ _))

/-- A stream whose waits all end with a wake-up within 25 seconds, and a session
that receives a key every 100 seconds: both visit the room and neither is in
its list. -/
theorem visitors_expire :
    (∃ s, (chatSystem [demoRoom]).run (sysStart emptyDb 0) busyActs = some s
      ∧ s.Expired (ascii "ann"))
    ∧ ∃ s, (chatSystem [demoRoom]).run (sysStart emptyDb 0) pagingActs = some s
      ∧ s.Expired (ascii "a") := by
  have hstream : ((chatSystem [demoRoom]).run (sysStart emptyDb 0) busyActs).any
      (fun s => decide (s.Expired (ascii "ann"))) = true := by
    decide +kernel
  have hsession : ((chatSystem [demoRoom]).run (sysStart emptyDb 0) pagingActs).any
      (fun s => decide (s.Expired (ascii "a"))) = true := by
    decide +kernel
  obtain ⟨s, hrun, hcheck⟩ := TransitionSystem.exists_of_run _ hstream
  obtain ⟨s', hrun', hcheck'⟩ := TransitionSystem.exists_of_run _ hsession
  exact ⟨⟨s, hrun, of_decide_eq_true hcheck⟩, s', hrun', of_decide_eq_true hcheck'⟩

end NetServer.Chat
