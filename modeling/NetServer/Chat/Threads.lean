/-
  NetServer.Chat.Threads — what the threads do to each other.

  For everything the connections do to each other, a thread is described by
  two things: the room it is subscribed to (`visits`) and where it is inside
  `chat_room_post` (`posting`).  `ShapeStep` lists the steps of that
  description together with the operation each one runs, and
  `progStep_good` says that every step of every program is one of them.
  Later proofs split on `ShapeStep` and never unfold the programs.

  The telnet program needs its own invariant for that (`Telnet.Ok`): a room
  is set exactly in the states IN_ROOM and COMPOSE, and `on_notify` with it.
-/
import NetServer.Chat.Steps

namespace NetServer.Chat

/-! ## §1. The description of a thread. -/

/-- The points of the telnet program at which the descriptor is not handed to
the room of the chat state: before the subscription and behind its end. -/
def TelnetPc.outside : TelnetPc → Bool
  | .enterPresence | .enterSubscribe | .leavePresence _ | .destroyPresence _ => true
  | _ => false

/-- The room a telnet session is subscribed to. -/
def Telnet.visits (t : Telnet) : Option Int :=
  if t.pc.outside then none else (t.chat.bind (·.room)).map ChatRoom.id

def Telnet.posting (t : Telnet) : Option PostPc :=
  match t.pc with
  | .post p => some p
  | _ => none

/-- The room an event stream is subscribed to. -/
def Sse.visits (e : Sse) : Option Int :=
  match e.pc with
  | .tail | .subscribe | .clear => none
  | _ => some e.roomId

def Http.visits : Http → Option Int
  | .events e => e.visits
  | _ => none

def Http.posting : Http → Option PostPc
  | .post p => some p
  | _ => none

def Prog.visits : Prog → Option Int
  | .telnet t => t.visits
  | .http h => h.visits
  | _ => none

def Prog.posting : Prog → Option PostPc
  | .telnet t => t.posting
  | .http h => h.posting
  | _ => none

/-- The connection exists and its pipe is open. -/
def Prog.alive : Prog → Bool
  | .telnet _ | .http _ => true
  | _ => false

/-- Outside `chat_room_post`, or before its row is inserted. -/
def Quiet (q : Option PostPc) : Prop := ∀ p, q = some p → ∃ r u b, p = .insert r u b

/-- Operations that concern neither subscriptions, nor the message table, nor
another connection's pipe. -/
def Op.Neutral : Op → Prop
  | .skip | .presenceSet .. | .presenceClear .. | .read => True
  | _ => False

/-- The steps of a thread's description: room before, post before, operation,
room after, post after. -/
inductive ShapeStep (sh : Shared) :
    Option Int → Option PostPc → Op → Option Int → Option PostPc → Prop where
  | neutral {v q q' op} (hop : op.Neutral) (hq : Quiet q) (hq' : Quiet q') :
      ShapeStep sh v q op v q'
  | subscribe (r) : ShapeStep sh none none (.subscribe r) (some r) none
  | unsubscribe (r) : ShapeStep sh (some r) none (.unsubscribe r) none none
  | insert {v} (r u b id) :
      ShapeStep sh v (some (.insert r u b)) (.insert r u b id) v (some (.lock r id))
  | lock {v} (r id) :
      ShapeStep sh v (some (.lock r id)) (.lock r) v (some (.write r id (sh.subFds r)))
  | write {v} (r id fd rest) :
      ShapeStep sh v (some (.write r id (fd :: rest))) (.write id fd) v (some (.write r id rest))
  | unlock {v} (r id) : ShapeStep sh v (some (.write r id [])) (.unlock r) v none

theorem quiet_none : Quiet none := fun _ h => nomatch h

theorem quiet_insert (r : Int) (u b : List UInt8) : Quiet (some (.insert r u b)) :=
  fun _ h => ⟨r, u, b, (Option.some.inj h).symm⟩

/-! ## §2. `chat_room_post`. -/

/-- Every step of a post, whatever room its thread is in. -/
theorem postStep_shape {sh : Shared} {choice : Choice} {p : PostPc} {p' : Option PostPc} {op : Op}
    (v : Option Int) (h : postStep sh choice p = some (p', op)) :
    ShapeStep sh v (some p) op v p' := by
  cases p with
  | insert r u b =>
    cases choice with
    | inserted id =>
      cases id with
      | none =>
        obtain ⟨rfl, rfl⟩ : p' = none ∧ op = .skip := by
          have := Option.some.inj h
          simp only [Prod.mk.injEq] at this
          exact ⟨this.1.symm, this.2.symm⟩
        exact .neutral trivial (quiet_insert r u b) quiet_none
      | some id =>
        cases h
        exact .insert r u b id
    | _ => exact absurd h (by simp [postStep])
  | lock r id =>
    cases h
    exact .lock r id
  | write r id rest =>
    cases rest with
    | nil =>
      cases h
      exact .unlock r id
    | cons fd rest =>
      cases h
      exact .write r id fd rest

/-! ## §3. The telnet program. -/

/-- A room is set exactly in the states that show one. -/
def ChatState.Settled (c : ChatState) : Prop :=
  c.room.isSome = true ↔ c.st = .inRoom ∨ c.st = .compose

def PostPc.room : PostPc → Int
  | .insert r _ _ | .lock r _ | .write r _ _ => r

/-- What holds of an open chat and of `on_notify` at each point of the program. -/
def TelnetPc.Fits (c : ChatState) (onNotify : Bool) : TelnetPc → Prop
  | .poll | .drain | .drained | .destroyUnsubscribe _ =>
      c.Settled ∧ onNotify = c.room.isSome
  | .lobby _ _ => c.room = none ∧ c.st = .lobby ∧ onNotify = false
  | .enterPresence | .enterSubscribe =>
      c.room.isSome = true ∧ c.st = .inRoom ∧ c.atLive = true
  | .page notified | .users _ notified =>
      c.room.isSome = true ∧ (c.st = .inRoom ∨ c.st = .compose ∧ notified = true)
        ∧ onNotify = true
  | .older | .leaveUnsubscribe _ => c.room.isSome = true ∧ c.st = .inRoom ∧ onNotify = true
  | .post p => c.room.map ChatRoom.id = some p.room ∧ c.st = .compose ∧ onNotify = true
  | .postPresence => c.room.isSome = true ∧ c.st = .compose ∧ onNotify = true
  | .leavePresence _ | .destroyPresence _ => c.room.isSome = true
  | .closing => False

/-- The invariant of a telnet session thread. -/
def Telnet.Ok (t : Telnet) : Prop :=
  match t.chat with
  | none =>
      t.onNotify = false ∧ (t.pc = .poll ∨ t.pc = .drain ∨ t.pc = .drained ∨ t.pc = .closing)
  | some c => t.pc.Fits c t.onNotify

namespace Telnet

theorem ok_some {t : Telnet} {c : ChatState} (hc : t.chat = some c)
    (h : t.pc.Fits c t.onNotify) : t.Ok := by
  unfold Ok
  rw [hc]
  exact h

theorem fits_of_ok {t : Telnet} {c : ChatState} (hc : t.chat = some c) (h : t.Ok) :
    t.pc.Fits c t.onNotify := by
  unfold Ok at h
  rw [hc] at h
  exact h

theorem visits_inside {t : Telnet} {c : ChatState} (hpc : t.pc.outside = false)
    (hc : t.chat = some c) : t.visits = c.room.map ChatRoom.id := by
  unfold visits
  rw [hpc, hc]
  rfl

theorem posting_of_ne {t : Telnet} (h : ∀ p, t.pc ≠ .post p) : t.posting = none := by
  unfold posting
  split
  · rename_i p hp
    exact absurd hp (h p)
  · rfl

/-- What a local step of a session in `poll` gives. -/
structure LocalStep (t t' : Telnet) : Prop where
  ok : t'.Ok
  visits : t'.visits = t.visits
  quiet : Quiet t'.posting

theorem renderLobby_local {t t' : Telnet} (rooms : List ChatRoom) (quit : Bool) {c : ChatState}
    (hc : t'.chat = some c) (hroom : c.room = none) (hst : c.st = .lobby)
    (hnot : t'.onNotify = false) (hv : t.visits = none) :
    LocalStep t (t'.renderLobby rooms quit) := by
  refine ⟨ok_some (c := c) hc ⟨hroom, hst, hnot⟩, ?_, quiet_none⟩
  rw [hv]
  show (t'.chat.bind (·.room)).map ChatRoom.id = none
  rw [hc]
  show c.room.map ChatRoom.id = none
  rw [hroom]
  rfl

/-- On to another point inside the room. -/
theorem inside_local {t t' : Telnet} {c c' : ChatState} (hin : t'.pc.outside = false)
    (hnopost : ∀ p, t'.pc ≠ .post p) (hc' : t'.chat = some c') (hfits : t'.pc.Fits c' t'.onNotify)
    (hv : t.visits = c.room.map ChatRoom.id) (hroom : c'.room = c.room) : LocalStep t t' := by
  refine ⟨ok_some hc' hfits, ?_, ?_⟩
  · rw [hv, visits_inside hin hc', hroom]
  · rw [posting_of_ne hnopost]
    exact quiet_none

/-- On to another point inside the room, in the same chat. -/
theorem goto_local {t : Telnet} {c : ChatState} {pc : TelnetPc} (hc : t.chat = some c)
    (hin : t.pc.outside = false) (hin' : pc.outside = false) (hnopost : ∀ p, pc ≠ .post p)
    (hfits : pc.Fits c t.onNotify) : LocalStep t { t with pc := pc } := by
  have hv : t.visits = c.room.map ChatRoom.id := visits_inside hin hc
  exact inside_local (c := c) hin' hnopost hc hfits hv rfl

theorem room_none_of_st {c : ChatState} (hset : c.Settled) (hst : c.st ≠ .inRoom)
    (hst' : c.st ≠ .compose) : c.room = none := by
  cases hr : c.room with
  | none => rfl
  | some room =>
    have hshow := hset.mp (by rw [hr]; rfl)
    rcases hshow with h | h
    · exact absurd h hst
    · exact absurd h hst'

section Keys

variable {t : Telnet} {c : ChatState} (hpc : t.pc = .poll) (hc : t.chat = some c)
  (hset : c.Settled) (hnot : t.onNotify = c.room.isSome) (rooms : List ChatRoom) (key : UInt8)

include hpc hc hset hnot

omit hset in
/-- A key that leaves the session in `poll`, its room and its state's kind. -/
theorem stay_local {t' : Telnet} {c' : ChatState} (hpc' : t'.pc = .poll)
    (hc' : t'.chat = some c') (hroom : c'.room = c.room) (hset' : c'.Settled)
    (hnot' : t'.onNotify = t.onNotify) : LocalStep t t' := by
  apply inside_local (c := c) (by rw [hpc']; rfl) (by rw [hpc']; exact fun p h => nomatch h) hc'
  · rw [hpc']
    exact ⟨hset', by rw [hnot', hnot, hroom]⟩
  · exact visits_inside (by rw [hpc]; rfl) hc
  · exact hroom

theorem keyStep_local {t' : Telnet} (h : KeyStep rooms t c key t') : LocalStep t t' := by
  have hin : t.pc.outside = false := by rw [hpc]; rfl
  have hv : t.visits = c.room.map ChatRoom.id := visits_inside hin hc
  have hself : LocalStep t t := stay_local hpc hc hnot hpc hc rfl hset rfl
  -- in the room and at the compose line a room is set, and with it the handler
  have hshow : c.st = .inRoom ∨ c.st = .compose → c.room.isSome = true ∧ t.onNotify = true := by
    intro hst
    have hroom := hset.mpr hst
    exact ⟨hroom, hnot.trans hroom⟩
  -- before a room is entered there is none
  have hnone : c.st = .username ∨ c.st = .lobby → c.room = none := by
    rintro (hst | hst)
    · exact room_none_of_st hset (by rw [hst]; exact nofun) (by rw [hst]; exact nofun)
    · exact room_none_of_st hset (by rw [hst]; exact nofun) (by rw [hst]; exact nofun)
  cases h with
  | ignored => exact hself
  | named hst hbuf =>
    have hroom := hnone (Or.inl hst)
    rw [hroom] at hnot hv
    exact renderLobby_local rooms false rfl hroom rfl hnot hv
  | editName buf payload hst hbuf => exact stay_local hpc hc hnot hpc rfl rfl hset rfl
  | quitLobby hst => exact goto_local hc hin rfl (fun p h => nomatch h) ⟨hset, hnot⟩
  | enter room hst hroom =>
    -- the descriptor is not handed out yet
    refine ⟨ok_some rfl ⟨rfl, rfl, rfl⟩, ?_, quiet_none⟩
    rw [hv, hnone (Or.inr hst)]
    rfl
  | leave quit hst =>
    obtain ⟨hroom, hnot'⟩ := hshow (Or.inl hst)
    exact goto_local hc hin rfl (fun p h => nomatch h) ⟨hroom, hst, hnot'⟩
  | compose hst =>
    have hcompose : ({ c with st := .compose, compose := [] } : ChatState).Settled :=
      ⟨fun _ => Or.inr rfl, fun _ => (hshow (Or.inl hst)).1⟩
    exact stay_local hpc hc hnot hpc rfl rfl hcompose rfl
  | older hst =>
    obtain ⟨hroom, hnot'⟩ := hshow (Or.inl hst)
    exact goto_local hc hin rfl (fun p h => nomatch h) ⟨hroom, hst, hnot'⟩
  | newest hst =>
    obtain ⟨hroom, hnot'⟩ := hshow (Or.inl hst)
    exact inside_local (c := c) rfl (fun p h => nomatch h) rfl ⟨hroom, Or.inl hst, hnot'⟩ hv rfl
  | cancel hst =>
    obtain ⟨hroom, hnot'⟩ := hshow (Or.inr hst)
    exact inside_local (c := c) rfl (fun p h => nomatch h) rfl ⟨hroom, Or.inl rfl, hnot'⟩ hv rfl
  | blank hst htext =>
    obtain ⟨hroom, hnot'⟩ := hshow (Or.inr hst)
    exact inside_local (c := c) rfl (fun p h => nomatch h) rfl ⟨hroom, Or.inl rfl, hnot'⟩ hv rfl
  | post room user body hst hroom hclean =>
    refine ⟨ok_some (c := c) hc ⟨by rw [hroom]; rfl, hst, (hshow (Or.inr hst)).2⟩, ?_,
      quiet_insert _ _ _⟩
    rw [hv]
    exact visits_inside rfl hc
  | dropped hst hdrop =>
    obtain ⟨hroom, hnot'⟩ := hshow (Or.inr hst)
    exact goto_local hc hin rfl (fun p h => nomatch h) ⟨hroom, hst, hnot'⟩
  | editText text hst htext => exact stay_local hpc hc hnot hpc rfl rfl hset rfl

end Keys

/-- A step of a session without a chat. -/
theorem noChat_local {t t' : Telnet} (hc : t.chat = none) (hc' : t'.chat = none)
    (hnot : t'.onNotify = false)
    (hpc' : t'.pc = .poll ∨ t'.pc = .drain ∨ t'.pc = .drained ∨ t'.pc = .closing) :
    LocalStep t t' := by
  refine ⟨?_, ?_, ?_⟩
  · unfold Ok
    rw [hc']
    exact ⟨hnot, hpc'⟩
  · unfold visits
    rw [hc, hc']
    split <;> split <;> rfl
  · rw [posting_of_ne]
    · exact quiet_none
    · intro p hp
      rcases hpc' with h | h | h | h <;> exact absurd (h.symm.trans hp) nofun

theorem onNotify_of_noChat {t : Telnet} (hok : t.Ok) (hc : t.chat = none) :
    t.onNotify = false := by
  unfold Ok at hok
  rw [hc] at hok
  exact hok.1

/-- What any step of a session gives. -/
def GoodStep (sh : Shared) (t : Telnet) (op : Op) (t' : Telnet) : Prop :=
  t'.Ok ∧ ShapeStep sh t.visits t.posting op t'.visits t'.posting

theorem LocalStep.good {t t' : Telnet} (h : LocalStep t t') (sh : Shared) {op : Op}
    (hop : op.Neutral) {pc : TelnetPc} (hpc : t.pc = pc) (hq : ∀ p, pc ≠ .post p) :
    GoodStep sh t op t' := by
  subst hpc
  refine ⟨h.ok, ?_⟩
  rw [h.visits, posting_of_ne hq]
  exact .neutral hop quiet_none h.quiet

/-- The chat is freed: nothing is subscribed any more. -/
theorem chatFreed_good {t : Telnet} (sh : Shared) (closing : Bool) {op : Op} (hop : op.Neutral)
    (hv : t.visits = none) {pc : TelnetPc} (hpc : t.pc = pc) (hq : ∀ p, pc ≠ .post p) :
    GoodStep sh t op (t.chatFreed closing) := by
  subst hpc
  have hshape : ShapeStep sh t.visits t.posting op none none := by
    rw [hv, posting_of_ne hq]
    exact .neutral hop quiet_none quiet_none
  cases closing with
  | true => exact ⟨⟨rfl, Or.inr (Or.inr (Or.inr rfl))⟩, hshape⟩
  | false => exact ⟨⟨rfl, Or.inl rfl⟩, hshape⟩

theorem exists_chat {t : Telnet} (hok : t.Ok) {pc : TelnetPc} (hpc : t.pc = pc)
    (hpoll : pc ≠ .poll) (hdrain : pc ≠ .drain) (hdrained : pc ≠ .drained)
    (hclosing : pc ≠ .closing) : ∃ c, t.chat = some c := by
  subst hpc
  rcases Option.eq_none_or_eq_some t.chat with hc | hc
  · unfold Ok at hok
    rw [hc] at hok
    rcases hok.2 with h | h | h | h
    · exact absurd h hpoll
    · exact absurd h hdrain
    · exact absurd h hdrained
    · exact absurd h hclosing
  · exact hc

theorem postStep_room {sh : Shared} {choice : Choice} {p p' : PostPc} {op : Op}
    (h : postStep sh choice p = some (some p', op)) : p'.room = p.room := by
  cases p with
  | insert r u b =>
    cases choice with
    | inserted id =>
      cases id with
      | none => exact absurd h (by simp [postStep])
      | some id => cases h; rfl
    | _ => exact absurd h (by simp [postStep])
  | lock r id => cases h; rfl
  | write r id rest =>
    cases rest with
    | nil => exact absurd h (by simp [postStep])
    | cons fd rest => cases h; rfl

/-! The steps inside a room, one lemma per call of the source. -/

section Calls

variable {t : Telnet} {c : ChatState} {room : ChatRoom} (sh : Shared) (hok : t.Ok)
  (hc : t.chat = some c) (hr : c.room = some room)

include hok hc hr

theorem enterSubscribe_good (hpc : t.pc = .enterSubscribe) :
    GoodStep sh t (.subscribe room.id) { t with onNotify := true, pc := .page false } := by
  have hfits := fits_of_ok hc hok
  rw [hpc] at hfits
  refine ⟨ok_some (c := c) hc ⟨hfits.1, Or.inl hfits.2.1, rfl⟩, ?_⟩
  have hv : t.visits = none := by unfold visits; rw [hpc]; rfl
  have hv' : ({ t with onNotify := true, pc := .page false } : Telnet).visits = some room.id := by
    have hin := visits_inside (t := { t with onNotify := true, pc := .page false }) rfl hc
    rw [hin, hr]
    rfl
  have hq : t.posting = none := posting_of_ne (by rw [hpc]; exact nofun)
  rw [hv, hv', hq]
  exact .subscribe room.id

omit hok in
theorem unsubscribe_good {pc : TelnetPc} (hin : t.pc.outside = false)
    (hq : ∀ p, t.pc ≠ .post p) (hout : pc.outside = true)
    (hfits : pc.Fits c t.onNotify) : GoodStep sh t (.unsubscribe room.id) { t with pc := pc } := by
  refine ⟨ok_some (c := c) hc hfits, ?_⟩
  have hv : t.visits = some room.id := by rw [visits_inside hin hc, hr]; rfl
  have hv' : ({ t with pc := pc } : Telnet).visits = none := by
    unfold visits
    rw [hout]
    rfl
  have hq' : ({ t with pc := pc } : Telnet).posting = none := by
    apply posting_of_ne
    intro p hp
    have : pc = .post p := hp
    rw [this] at hout
    exact Bool.false_ne_true hout
  rw [hv, hv', posting_of_ne hq, hq']
  exact .unsubscribe room.id

omit hr in
theorem page_good {notified : Bool} (hpc : t.pc = .page notified) (msgs : List ChatMsg)
    (oldest : Int) :
    GoodStep sh t .skip
      { t with chat := some { c with oldestShown := oldest }, pc := .users msgs notified } := by
  have hfits := fits_of_ok hc hok
  rw [hpc] at hfits
  have hlocal : LocalStep t
      { t with chat := some { c with oldestShown := oldest }, pc := .users msgs notified } :=
    inside_local (c := c) rfl (fun p h => nomatch h) rfl hfits
      (visits_inside (by rw [hpc]; rfl) hc) rfl
  exact hlocal.good sh trivial hpc nofun

omit hr in
theorem users_good {msgs : List ChatMsg} {notified : Bool} (hpc : t.pc = .users msgs notified)
    (who : List (List UInt8)) : GoodStep sh t .skip (t.drawRoom c room msgs who notified) := by
  have hfits := fits_of_ok hc hok
  rw [hpc] at hfits
  obtain ⟨hroom, hst, hnot⟩ := hfits
  have hset : c.Settled := by
    refine ⟨fun _ => ?_, fun _ => hroom⟩
    rcases hst with h | h
    · exact Or.inl h
    · exact Or.inr h.1
  have hlocal : LocalStep t (t.drawRoom c room msgs who notified) :=
    inside_local (c := c) rfl (fun p h => nomatch h) hc ⟨hset, hnot.trans hroom.symm⟩
      (visits_inside (by rw [hpc]; rfl) hc) rfl
  exact hlocal.good sh trivial hpc nofun

omit hr in
theorem post_good {p : PostPc} {p' : Option PostPc} {choice : Choice} {op : Op}
    (hpc : t.pc = .post p) (hstep : postStep sh choice p = some (p', op)) :
    GoodStep sh t op { t with pc := (p'.map TelnetPc.post).getD .postPresence } := by
  have hfits := fits_of_ok hc hok
  rw [hpc] at hfits
  obtain ⟨hproom, hst, hnot⟩ := hfits
  have hv : t.visits = c.room.map ChatRoom.id := visits_inside (by rw [hpc]; rfl) hc
  have hq : t.posting = some p := by unfold posting; rw [hpc]
  have hshape := postStep_shape t.visits hstep
  cases p' with
  | none =>
    have hroom : c.room.isSome = true := by
      obtain ⟨room, hr, -⟩ := Option.map_eq_some_iff.mp hproom
      rw [hr]
      rfl
    refine ⟨ok_some (c := c) hc ⟨hroom, hst, hnot⟩, ?_⟩
    have hv' : ({ t with pc := .postPresence } : Telnet).visits = t.visits := by
      rw [hv]
      exact visits_inside rfl hc
    rw [hq]
    show ShapeStep sh t.visits (some p) op ({ t with pc := .postPresence } : Telnet).visits none
    rw [hv']
    exact hshape
  | some p' =>
    refine ⟨ok_some (c := c) hc ⟨by rw [postStep_room hstep]; exact hproom, hst, hnot⟩, ?_⟩
    have hv' : ({ t with pc := .post p' } : Telnet).visits = t.visits := by
      rw [hv]
      exact visits_inside rfl hc
    rw [hq]
    show ShapeStep sh t.visits (some p) op ({ t with pc := .post p' } : Telnet).visits (some p')
    rw [hv']
    exact hshape

end Calls

/-- A step of the drain loop and of what follows it: inside the chat, or without
one. -/
theorem awake_local {t : Telnet} {pc : TelnetPc} (hok : t.Ok)
    (hpc : t.pc = .poll ∨ t.pc = .drain ∨ t.pc = .drained)
    (hpc' : pc = .poll ∨ pc = .drain ∨ pc = .drained) : LocalStep t { t with pc := pc } := by
  rcases Option.eq_none_or_eq_some t.chat with hc | ⟨c, hc⟩
  · have hnot := onNotify_of_noChat hok hc
    refine noChat_local hc hc hnot ?_
    rcases hpc' with rfl | rfl | rfl
    · exact Or.inl rfl
    · exact Or.inr (Or.inl rfl)
    · exact Or.inr (Or.inr (Or.inl rfl))
  · have hfits := fits_of_ok hc hok
    have hset : c.Settled ∧ t.onNotify = c.room.isSome := by
      rcases hpc with h | h | h <;> rw [h] at hfits <;> exact hfits
    have hin : t.pc.outside = false := by rcases hpc with h | h | h <;> rw [h] <;> rfl
    rcases hpc' with rfl | rfl | rfl <;> exact goto_local hc hin rfl (fun p h => nomatch h) hset

/-- Every step of a session thread keeps its invariant and is a step of its
description. -/
theorem step_good {t t' : Telnet} {rooms : List ChatRoom} {sh : Shared} {bytes : Nat}
    {shutdown : Bool} {choice : Choice} {op : Op} (hok : t.Ok)
    (h : t.step rooms sh bytes shutdown choice = some (t', op)) : GoodStep sh t op t' := by
  -- The invariant at the point the step starts from.
  have hfits : ∀ {c pc}, t.chat = some c → t.pc = pc → pc.Fits c t.onNotify := by
    intro c pc hc hpc
    rw [← hpc]
    exact fits_of_ok hc hok
  cases step_stepped h with
  | key k c hpc hc hkey =>
    obtain ⟨hset, hnot⟩ := hfits hc hpc
    exact (keyStep_local hpc hc hset hnot rooms k hkey).good sh trivial hpc nofun
  | askName hpc hc hname =>
    have hnot := onNotify_of_noChat hok hc
    have hblank : chatBlank.Settled := by unfold ChatState.Settled; decide
    have hv : t.visits = none := by unfold visits; rw [hpc, hc]; rfl
    have hlocal : LocalStep t ({ t with chat := some chatBlank }.send (usernameScreen [])) := by
      refine ⟨ok_some rfl ?_, ?_, ?_⟩
      · show TelnetPc.Fits chatBlank t.onNotify t.pc
        rw [hpc]
        exact ⟨hblank, hnot⟩
      · rw [hv]
        show (if t.pc.outside then none else none) = none
        rw [hpc]
        rfl
      · rw [posting_of_ne (by show ∀ p, t.pc ≠ .post p; rw [hpc]; exact nofun)]
        exact quiet_none
    exact hlocal.good sh trivial hpc nofun
  | openLobby hpc hc hname =>
    have hnot := onNotify_of_noChat hok hc
    have hv : t.visits = none := by unfold visits; rw [hpc, hc]; rfl
    refine LocalStep.good ?_ sh trivial hpc nofun
    exact renderLobby_local rooms false rfl rfl rfl hnot hv
  | resize rows hpc =>
    have hlocal : LocalStep t { t with termRows := rows } := by
      refine ⟨hok, rfl, ?_⟩
      rw [posting_of_ne (by show ∀ p, t.pc ≠ .post p; rw [hpc]; exact nofun)]
      exact quiet_none
    exact hlocal.good sh trivial hpc nofun
  | readable hpc hbytes =>
    refine LocalStep.good ?_ sh trivial hpc nofun
    exact awake_local hok (Or.inl hpc) (Or.inr (Or.inl rfl))
  | close hpc hc =>
    have hnot := onNotify_of_noChat hok hc
    have hlocal : LocalStep t { t with pc := .closing } :=
      noChat_local hc hc hnot (Or.inr (Or.inr (Or.inr rfl)))
    rcases hpc with hpc | hpc
    · exact LocalStep.good hlocal sh trivial hpc nofun
    · exact LocalStep.good hlocal sh trivial hpc nofun
  | closeChat c hpc hc =>
    have hset : c.Settled ∧ t.onNotify = c.room.isSome := by
      rcases hpc with h | h <;> exact hfits hc h
    have hin : t.pc.outside = false := by rcases hpc with h | h <;> rw [h] <;> rfl
    have hlocal : LocalStep t { t with pc := .destroyUnsubscribe true } :=
      goto_local hc hin rfl (fun p h => nomatch h) hset
    rcases hpc with hpc | hpc
    · exact hlocal.good sh trivial hpc nofun
    · exact hlocal.good sh trivial hpc nofun
  | lobbyRoom i room rest quit hpc =>
    obtain ⟨c, hc⟩ := exists_chat hok hpc nofun nofun nofun nofun
    have hlobby := hfits hc hpc
    refine LocalStep.good ?_ sh trivial hpc nofun
    exact inside_local (c := c) rfl (fun p h => nomatch h) hc hlobby
      (visits_inside (by rw [hpc]; rfl) hc) rfl
  | lobbyEnd quit hpc =>
    obtain ⟨c, hc⟩ := exists_chat hok hpc nofun nofun nofun nofun
    obtain ⟨hroom, hst, hnot⟩ := hfits hc hpc
    have hset : c.Settled ∧ t.onNotify = c.room.isSome := by
      unfold ChatState.Settled
      rw [hroom, hst, hnot]
      simp
    have hv := visits_inside (t := t) (c := c) (by rw [hpc]; rfl) hc
    refine LocalStep.good ?_ sh trivial hpc nofun
    cases quit with
    | true => exact inside_local (c := c) rfl (fun p h => nomatch h) hc hset hv rfl
    | false => exact inside_local (c := c) rfl (fun p h => nomatch h) hc hset hv rfl
  | enterPresence c room hpc hc hr =>
    have henter := hfits hc hpc
    have hlocal : LocalStep t { t with pc := .enterSubscribe } := by
      refine ⟨ok_some (c := c) hc henter, ?_, quiet_none⟩
      unfold visits
      rw [hpc]
      rfl
    exact hlocal.good sh trivial hpc nofun
  | enterSubscribe c room hpc hc hr => exact enterSubscribe_good sh hok hc hr hpc
  | page c room notified msgs hpc hc hr hmsgs => exact page_good sh hok hc hpc _ _
  | draw c room notified msgs hpc hc hr => exact users_good sh hok hc hpc _
  | oldest c room hpc hc hr hmsgs =>
    obtain ⟨hroom, hst, hnot⟩ := hfits hc hpc
    have hset : c.Settled := ⟨fun _ => Or.inl hst, fun _ => hroom⟩
    refine LocalStep.good ?_ sh trivial hpc nofun
    exact goto_local hc (by rw [hpc]; rfl) rfl (fun p h => nomatch h)
      ⟨hset, hnot.trans hroom.symm⟩
  | older c room hpc hc hr hmsgs =>
    obtain ⟨hroom, hst, hnot⟩ := hfits hc hpc
    refine LocalStep.good ?_ sh trivial hpc nofun
    exact inside_local (c := c) rfl (fun p h => nomatch h) rfl ⟨hroom, Or.inl hst, hnot⟩
      (visits_inside (by rw [hpc]; rfl) hc) rfl
  | post p p' op hpc hpost =>
    obtain ⟨c, hc⟩ := exists_chat hok hpc nofun nofun nofun nofun
    exact post_good sh hok hc hpc hpost
  | posted p op hpc hpost =>
    obtain ⟨c, hc⟩ := exists_chat hok hpc nofun nofun nofun nofun
    exact post_good sh hok hc hpc hpost
  | postPresence c room hpc hc hr =>
    obtain ⟨hroom, hst, hnot⟩ := hfits hc hpc
    refine LocalStep.good ?_ sh trivial hpc nofun
    exact inside_local (c := c) rfl (fun p h => nomatch h) rfl ⟨hroom, Or.inl rfl, hnot⟩
      (visits_inside (by rw [hpc]; rfl) hc) rfl
  | leave c room quit hpc hc hr =>
    exact unsubscribe_good sh hc hr (by rw [hpc]; rfl) (by rw [hpc]; exact nofun) rfl
      (hfits hc hpc).1
  | leaveNone c quit hpc hc hr =>
    have hroom := (hfits hc hpc).1
    rw [hr] at hroom
    exact absurd hroom nofun
  | left c room quit hpc hc hr =>
    have hv : t.visits = none := by unfold visits; rw [hpc]; rfl
    refine LocalStep.good ?_ sh trivial hpc nofun
    exact renderLobby_local rooms quit rfl rfl rfl rfl hv
  | drain hpc hbytes =>
    have hlocal : LocalStep t t := by
      refine ⟨hok, rfl, ?_⟩
      rw [posting_of_ne (by rw [hpc]; exact nofun)]
      exact quiet_none
    exact hlocal.good sh trivial hpc nofun
  | drainEnd hpc hbytes =>
    refine LocalStep.good ?_ sh trivial hpc nofun
    exact awake_local hok (Or.inr (Or.inl hpc)) (Or.inr (Or.inr rfl))
  | redraw c hpc hnot hc hst hat =>
    -- the handler is set, so a room is, and it is being read or written to
    obtain ⟨hset, hroom⟩ := hfits hc hpc
    have hroom : c.room.isSome = true := hroom.symm.trans hnot
    have hshow : c.st = .inRoom ∨ c.st = .compose ∧ true = true := by
      rcases hset.mp hroom with h | h
      · exact Or.inl h
      · exact Or.inr ⟨h, rfl⟩
    refine LocalStep.good ?_ sh trivial hpc nofun
    exact goto_local hc (by rw [hpc]; rfl) rfl (fun p h => nomatch h) ⟨hroom, hshow, hnot⟩
  | idle hpc hidle =>
    refine LocalStep.good ?_ sh trivial hpc nofun
    exact awake_local hok (Or.inr (Or.inr hpc)) (Or.inl rfl)
  | destroy c room closing hpc hc hr =>
    exact unsubscribe_good sh hc hr (by rw [hpc]; rfl) (by rw [hpc]; exact nofun) rfl
      (Option.isSome_iff_exists.mpr ⟨room, hr⟩)
  | destroyNone c closing hpc hc hr =>
    have hv : t.visits = none := by rw [visits_inside (by rw [hpc]; rfl) hc, hr]; rfl
    exact chatFreed_good sh closing trivial hv hpc nofun
  | destroyed c room closing hpc hc hr =>
    have hv : t.visits = none := by unfold visits; rw [hpc]; rfl
    exact chatFreed_good sh closing trivial hv hpc nofun

end Telnet

/-! ## §4. The event stream. -/

/-- The continuation of a batch keeps the room. -/
theorem Sse.next_visits (e : Sse) (batch : List ChatMsg) : (e.next batch).visits = some e.roomId := by
  cases batch with
  | nil => rfl
  | cons m rest => rfl

/-- Every step of an event stream. -/
theorem Sse.step_shape {e : Sse} {sh : Shared} {bytes : Nat} {shutdown : Bool} {choice : Choice}
    {e' : Option Sse} {op : Op} (h : e.step sh bytes shutdown choice = some (e', op)) :
    ShapeStep sh e.visits none op (e'.bind Sse.visits) none := by
  -- Between the subscription and its end a step only has to stay inside the room.
  have inside : ∀ {e1 : Sse} {op1 : Op}, e.visits = some e.roomId → e1.visits = some e.roomId →
      op1.Neutral → ShapeStep sh e.visits none op1 ((some e1).bind Sse.visits) none := by
    intro e1 op1 hv hv1 hop
    rw [hv, Option.bind_some, hv1]
    exact .neutral hop quiet_none quiet_none
  have hpresence : (if e.haveUser then Op.presenceSet e.roomId e.user else .skip).Neutral := by
    split <;> trivial
  cases step_stepped h with
  | tail hpc =>
    have hv : e.visits = none := by unfold visits; rw [hpc]
    rw [hv]
    exact .neutral trivial quiet_none quiet_none
  | subscribe hpc =>
    have hv : e.visits = none := by unfold visits; rw [hpc]
    rw [hv]
    exact .subscribe e.roomId
  | presence hpc => exact inside (by unfold visits; rw [hpc]) rfl hpresence
  | stop hpc hdown => exact inside (by unfold visits; rcases hpc with h | h <;> rw [h]) rfl trivial
  | drain hpc hbytes =>
    have hv : e.visits = some e.roomId := by unfold visits; rw [hpc]
    exact inside hv hv trivial
  | pull hpc => exact inside (by unfold visits; rw [hpc]) (next_visits _ _) trivial
  | sent cur rest hpc => exact inside (by unfold visits; rw [hpc]) (next_visits _ _) trivial
  | beatPresence hpc => exact inside (by unfold visits; rw [hpc]) rfl hpresence
  | unsubscribe hpc =>
    have hv : e.visits = some e.roomId := by unfold visits; rw [hpc]
    rw [hv]
    exact .unsubscribe e.roomId
  | clear hpc =>
    have hv : e.visits = none := by unfold visits; rw [hpc]
    rw [hv]
    refine .neutral ?_ quiet_none quiet_none
    split <;> trivial
  | comment hpc => exact inside (by unfold visits; rw [hpc]) rfl trivial
  | wait hpc hdown => exact inside (by unfold visits; rw [hpc]) rfl trivial
  | hangup hpc => exact inside (by unfold visits; rw [hpc]) rfl trivial
  | timeout hpc => exact inside (by unfold visits; rw [hpc]) rfl trivial
  | readable hpc hbytes => exact inside (by unfold visits; rw [hpc]) rfl trivial
  | drainEnd hpc hbytes => exact inside (by unfold visits; rw [hpc]) rfl trivial
  | drained hpc hdown => exact inside (by unfold visits; rw [hpc]) rfl trivial
  | sendFailed cur rest hpc => exact inside (by unfold visits; rw [hpc]) rfl trivial
  | beat hpc => exact inside (by unfold visits; rw [hpc]) rfl trivial
  | beatFailed hpc => exact inside (by unfold visits; rw [hpc]) rfl trivial

/-! ## §5. Any thread. -/

/-- The invariant of a connection's thread. -/
def Prog.Ok : Prog → Prop
  | .telnet t => t.Ok
  | _ => True

theorem Telnet.visits_closing {t : Telnet} (hok : t.Ok) (hpc : t.pc = .closing) :
    t.visits = none := by
  rcases Option.eq_none_or_eq_some t.chat with hc | ⟨c, hc⟩
  · unfold visits
    rw [hpc, hc]
    rfl
  · have hfits := fits_of_ok hc hok
    rw [hpc] at hfits
    exact hfits.elim

/-- What the next operation of a thread can be: a step of its description, or
the end of the connection, from outside every room and every post. -/
inductive Prog.StepGood (sh : Shared) (p : Prog) : Op → Prog → Prop where
  | run {op p'} (hok : p'.Ok) (halive : p'.alive = true)
      (hshape : ShapeStep sh p.visits p.posting op p'.visits p'.posting) : StepGood sh p op p'
  | close (hv : p.visits = none) (hq : p.posting = none) : StepGood sh p .close .closed

/-- **Every step of every thread** is one of those `ShapeStep` lists, or closes
the connection. -/
theorem progStep_good {rooms : List ChatRoom} {sh : Shared} {c : Conn} {choice : Choice} {p' : Prog}
    {op : Op} (hok : c.prog.Ok) (h : Sys.progStep rooms sh c choice = some (p', op)) :
    c.prog.alive = true ∧ c.prog.StepGood sh op p' := by
  cases progStep_stepped h with
  | telnet t t' op hprog hstep =>
    rw [hprog] at hok ⊢
    obtain ⟨hok', hshape⟩ := Telnet.step_good hok hstep
    exact ⟨rfl, .run hok' rfl hshape⟩
  | telnetClose t hprog hpc =>
    rw [hprog] at hok ⊢
    exact ⟨rfl, .close (Telnet.visits_closing hok hpc)
      (Telnet.posting_of_ne (by rw [hpc]; exact nofun))⟩
  | routePost roomId text name user body hprog hclean =>
    rw [hprog]
    exact ⟨rfl, .run trivial rfl (.neutral trivial quiet_none (quiet_insert _ _ _))⟩
  | routeEvents roomId query hprog =>
    rw [hprog]
    exact ⟨rfl, .run trivial rfl (.neutral trivial quiet_none quiet_none)⟩
  | routeClose hprog =>
    rw [hprog]
    exact ⟨rfl, .run trivial rfl (.neutral trivial quiet_none quiet_none)⟩
  | post p p' op hprog hpost =>
    rw [hprog]
    exact ⟨rfl, .run trivial rfl (postStep_shape none hpost)⟩
  | posted p op hprog hpost =>
    rw [hprog]
    exact ⟨rfl, .run trivial rfl (postStep_shape none hpost)⟩
  | events e e' op hprog hstep =>
    rw [hprog]
    exact ⟨rfl, .run trivial rfl (Sse.step_shape hstep)⟩
  | eventsEnd e op hprog hstep =>
    rw [hprog]
    exact ⟨rfl, .run trivial rfl (Sse.step_shape hstep)⟩
  | httpClose hprog =>
    rw [hprog]
    exact ⟨rfl, .close rfl rfl⟩

/-- A row is inserted only by a thread at that point of `chat_room_post`, with the
texts it holds there. -/
theorem progStep_insert {rooms : List ChatRoom} {sh : Shared} {c : Conn} {choice : Choice}
    {p' : Prog} {r id : Int} {user body : List UInt8} (hok : c.prog.Ok)
    (h : Sys.progStep rooms sh c choice = some (p', .insert r user body id)) :
    c.prog.posting = some (.insert r user body) ∧ p'.posting = some (.lock r id) := by
  cases (progStep_good hok h).2 with
  | run _ _ hshape =>
    generalize c.prog.posting = q at hshape
    generalize c.prog.visits = v at hshape
    generalize p'.visits = v' at hshape
    generalize p'.posting = q' at hshape
    cases hshape with
    | neutral hop _ _ => exact hop.elim
    | insert => exact ⟨rfl, rfl⟩

end NetServer.Chat
