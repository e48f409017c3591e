/-
  NetServer.Chat.Ui — what holds of an open chat at every point of its program.

  The texts a user types are bounded by the handlers that add to them, the name
  is chosen once, and the room, the state and `on_notify` go together whenever the
  session waits for its next event.  The last part is `Telnet.Ok`; the texts have
  an invariant of their own (`Telnet.Texts`), which says besides that a session is
  asked for its name exactly as long as it has none.

  Main results:
    • `Telnet.step_texts`    — every step keeps the texts in bounds;
    • `Telnet.step_username` — no step changes a name that was chosen;
    • `chat_ui_invariant`    — over every run.
-/
import NetServer.Chat.Freshness

namespace NetServer.Chat

open NetServer.Lib
open NetServer.Lib.TransitionSystem

/-! ## §1. The texts. -/

/-- The texts of an open chat.  `chosen`: it asks for a name exactly as long as
the session has none. -/
structure ChatState.Texts (username : List UInt8) (c : ChatState) : Prop where
  name_length : c.usernameBuf.length ≤ 20
  name_bytes : ∀ b ∈ c.usernameBuf, isUserByte b = true
  text_length : c.compose.length ≤ 511
  text_bytes : ∀ b ∈ c.compose, isPrintable b = true
  chosen : c.st = .username ↔ username = []
  visiting : c.room.isSome = true → c.st ≠ .username

/-- The texts of a session. -/
structure Telnet.Texts (t : Telnet) : Prop where
  length : t.username.length ≤ 20
  bytes : ∀ b ∈ t.username, isUserByte b = true
  chat : ∀ c, t.chat = some c → c.Texts t.username

namespace ChatState

variable {username : List UInt8} {c : ChatState}

/-- On to another state than the first, with the same texts. -/
theorem Texts.goto {c' : ChatState} (h : c.Texts username) (hst : c.st ≠ .username)
    (hst' : c'.st ≠ .username) (hname : c'.usernameBuf = c.usernameBuf)
    (htext : c'.compose = c.compose ∨ c'.compose = []) : c'.Texts username := by
  refine ⟨?_, ?_, ?_, ?_, ?_, fun _ => hst'⟩
  · rw [hname]
    exact h.name_length
  · rw [hname]
    exact h.name_bytes
  · rcases htext with heq | heq <;> rw [heq]
    · exact h.text_length
    · exact Nat.zero_le _
  · rcases htext with heq | heq <;> rw [heq]
    · exact h.text_bytes
    · exact nofun
  · exact iff_of_false hst' (fun hnil => hst (h.chosen.mpr hnil))

end ChatState

/-- A new chat has no texts. -/
theorem chatBlank_texts : Telnet.chatBlank.Texts [] :=
  ⟨Nat.zero_le _, nofun, Nat.zero_le _, nofun, iff_of_true rfl rfl, nofun⟩

namespace Telnet

section Steps

variable {rooms : List ChatRoom} {t t' : Telnet} {c c' : ChatState} (h : t.Texts)

include h

/-- On under the same name. -/
theorem Texts.goOn (hname : t'.username = t.username)
    (hchat : ∀ c', t'.chat = some c' → c'.Texts t.username) : t'.Texts := by
  refine ⟨?_, ?_, ?_⟩
  · rw [hname]
    exact h.length
  · rw [hname]
    exact h.bytes
  · rw [hname]
    exact hchat

/-- On with the same chat. -/
theorem Texts.keep (hname : t'.username = t.username) (hc' : t'.chat = t.chat) : t'.Texts := by
  apply h.goOn hname
  rw [hc']
  exact h.chat

/-- On with another chat. -/
theorem Texts.on (hname : t'.username = t.username) (hc' : t'.chat = some c')
    (htexts : c'.Texts t.username) : t'.Texts := by
  apply h.goOn hname
  intro c1 hc1
  cases hc'.symm.trans hc1
  exact htexts

/-- On without a chat. -/
theorem Texts.leave (hname : t'.username = t.username) (hc' : t'.chat = none) : t'.Texts := by
  apply h.goOn hname
  intro c1 hc1
  exact absurd (hc'.symm.trans hc1) nofun

/-- A key keeps the texts in bounds. -/
theorem keyStep_texts {key : UInt8} (hc : t.chat = some c) (hkey : KeyStep rooms t c key t') :
    t'.Texts := by
  have hold := h.chat c hc
  cases hkey with
  | ignored => exact h
  | named hst hbuf =>
    -- the name is the whole of the buffer
    have htake : c.usernameBuf.take 31 = c.usernameBuf :=
      List.take_of_length_le (Nat.le_trans hold.name_length (by decide))
    refine ⟨?_, ?_, ?_⟩
    · show (c.usernameBuf.take 31).length ≤ 20
      rw [htake]
      exact hold.name_length
    · show ∀ b ∈ c.usernameBuf.take 31, isUserByte b = true
      rw [htake]
      exact hold.name_bytes
    · intro c1 hc1
      cases hc1
      refine ⟨hold.name_length, hold.name_bytes, hold.text_length, hold.text_bytes, ?_, nofun⟩
      show ChatSt.lobby = .username ↔ c.usernameBuf.take 31 = []
      rw [htake]
      exact iff_of_false nofun hbuf
  | editName buf payload hst hbuf =>
    refine h.on rfl rfl ⟨?_, ?_, hold.text_length, hold.text_bytes, hold.chosen, hold.visiting⟩
    · rcases hbuf with rfl | ⟨hlt, -, rfl⟩
      · show c.usernameBuf.dropLast.length ≤ 20
        rw [List.length_dropLast]
        exact Nat.le_trans (Nat.sub_le _ _) hold.name_length
      · show (c.usernameBuf ++ [key]).length ≤ 20
        rw [List.length_append]
        exact hlt
    · intro b hb
      rcases hbuf with rfl | ⟨-, hkey, rfl⟩
      · exact hold.name_bytes b (List.dropLast_subset _ hb)
      · rcases List.mem_append.mp hb with hb | hb
        · exact hold.name_bytes b hb
        · rw [List.mem_singleton.mp hb]
          exact hkey
  | quitLobby hst => exact h.keep rfl rfl
  | enter room hst hroom =>
    exact h.on rfl rfl (hold.goto (by rw [hst]; exact nofun) nofun rfl (Or.inl rfl))
  | leave quit hst => exact h.keep rfl rfl
  | compose hst =>
    exact h.on rfl rfl (hold.goto (by rw [hst]; exact nofun) nofun rfl (Or.inr rfl))
  | older hst => exact h.keep rfl rfl
  | newest hst =>
    have hne : c.st ≠ .username := by rw [hst]; exact nofun
    exact h.on rfl rfl (hold.goto hne hne rfl (Or.inl rfl))
  | cancel hst =>
    exact h.on rfl rfl (hold.goto (by rw [hst]; exact nofun) nofun rfl (Or.inl rfl))
  | blank hst htext =>
    exact h.on rfl rfl (hold.goto (by rw [hst]; exact nofun) nofun rfl (Or.inr rfl))
  | post room user body hst hroom hclean => exact h.keep rfl rfl
  | dropped hst hdrop => exact h.keep rfl rfl
  | editText text hst htext =>
    refine h.on rfl rfl ⟨hold.name_length, hold.name_bytes, ?_, ?_, hold.chosen, hold.visiting⟩
    · rcases htext with rfl | ⟨hlt, -, rfl⟩
      · show c.compose.dropLast.length ≤ 511
        rw [List.length_dropLast]
        exact Nat.le_trans (Nat.sub_le _ _) hold.text_length
      · show (c.compose ++ [key]).length ≤ 511
        rw [List.length_append]
        exact hlt
    · intro b hb
      rcases htext with rfl | ⟨-, hkey, rfl⟩
      · exact hold.text_bytes b (List.dropLast_subset _ hb)
      · rcases List.mem_append.mp hb with hb | hb
        · exact hold.text_bytes b hb
        · rw [List.mem_singleton.mp hb]
          exact hkey

variable {sh : Shared} {bytes : Nat} {shutdown : Bool} {choice : Choice} {op : Op}

/-- **Every step keeps the texts in bounds.** -/
theorem step_texts (hok : t.Ok) (heq : t.step rooms sh bytes shutdown choice = some (t', op)) :
    t'.Texts := by
  -- a session in a room has a name
  have hnamed : ∀ {c room}, t.chat = some c → c.room = some room → c.st ≠ .username := by
    intro c room hc hr
    exact (h.chat c hc).visiting (by rw [hr]; rfl)
  cases step_stepped heq with
  | key k c hpc hc hkey => exact keyStep_texts h hc hkey
  | askName hpc hc hname =>
    refine h.on rfl rfl ?_
    rw [hname]
    exact chatBlank_texts
  | openLobby hpc hc hname =>
    exact h.on rfl rfl ⟨Nat.zero_le _, nofun, Nat.zero_le _, nofun, iff_of_false nofun hname, nofun⟩
  | page c room notified msgs hpc hc hr hmsgs =>
    have hne := hnamed hc hr
    exact h.on rfl rfl ((h.chat c hc).goto hne hne rfl (Or.inl rfl))
  | older c room hpc hc hr hmsgs =>
    have hne := hnamed hc hr
    exact h.on rfl rfl ((h.chat c hc).goto hne hne rfl (Or.inl rfl))
  | postPresence c room hpc hc hr =>
    exact h.on rfl rfl ((h.chat c hc).goto (hnamed hc hr) nofun rfl (Or.inr rfl))
  | leaveNone c quit hpc hc hr =>
    have hfits := fits_of_ok hc hok
    rw [hpc] at hfits
    exact h.on rfl rfl ((h.chat c hc).goto (by rw [hfits.2.1]; exact nofun) nofun rfl (Or.inl rfl))
  | left c room quit hpc hc hr =>
    exact h.on rfl rfl ((h.chat c hc).goto (hnamed hc hr) nofun rfl (Or.inl rfl))
  | destroyNone c closing hpc hc hr => exact h.leave rfl rfl
  | destroyed c room closing hpc hc hr => exact h.leave rfl rfl
  | _ => exact h.keep rfl rfl

/-- **A name is chosen once.** -/
theorem step_username (hname : t.username ≠ [])
    (heq : t.step rooms sh bytes shutdown choice = some (t', op)) : t'.username = t.username := by
  cases step_stepped heq with
  | key k c hpc hc hkey =>
    cases hkey with
    | named hst hbuf =>
      -- only a session without a name is asked for one
      exact absurd ((h.chat c hc).chosen.mp hst) hname
    | _ => rfl
  | _ => rfl

end Steps

end Telnet

/-! ## §2. Every run. -/

theorem telnetStart_texts : telnetStart.Texts := ⟨Nat.zero_le _, nofun, nofun⟩

/-- The texts of every session. -/
def Sys.Texts (s : Sys) : Prop := ∀ y t, (s.conns y).prog = .telnet t → t.Texts

theorem Sys.Texts.step {rooms : List ChatRoom} {s s' : Sys} {act : Act} (hs : s.Sound)
    (htexts : s.Texts) (hstep : s.step rooms act = some s') : s'.Texts := by
  intro y t' hy
  cases telnetStep hstep hy with
  | other hact hprog => exact htexts y t' hprog
  | started ht =>
    rw [ht]
    exact telnetStart_texts
  | own t choice op s1 hact hprog hown happly hs' =>
    exact Telnet.step_texts (htexts y t hprog) (hs.telnet hprog) hown

theorem reachable_texts {rooms : List ChatRoom} {ok : Sys → Act → Sys → Prop} {s : Sys}
    (h : (chatSystem rooms).ReachableVia ok s) : s.Texts := by
  refine ReachableVia.strengthen (fun s hs => reachable_sound hs) ?_ ?_ h
  · rintro s ⟨db, now, -, rfl⟩ y t hy
    exact absurd hy nofun
  · intro s act s' hs htexts hstep _
    exact htexts.step hs hstep

/-- A step of the server, seen from a telnet session: it goes on, or it ends. -/
inductive SessionStep (rooms : List ChatRoom) (s s' : Sys) (act : Act) (y : Nat) (t : Telnet) :
    Prop where
  /-- Another connection, or the environment. -/
  | other (hact : act.actor ≠ some y) (hprog' : (s'.conns y).prog = .telnet t)
  /-- The session's own step. -/
  | own (t' : Telnet) (choice : Choice) (op : Op) (s1 : Sys) (hact : act = .run y choice)
      (hstep : t.step rooms s.sh (s.conns y).bytes (s.conns y).shutdown choice = some (t', op))
      (happly : s.apply y op = some s1) (hs' : s' = s1.setProg y (.telnet t'))
      (hprog' : (s'.conns y).prog = .telnet t')
  /-- The session closes its pipe. -/
  | closed (hpc : t.pc = .closing) (hprog' : (s'.conns y).prog = .closed)

theorem sessionStep {rooms : List ChatRoom} {s s' : Sys} {act : Act} {y : Nat} {t : Telnet}
    (h : s.step rooms act = some s') (hy : (s.conns y).prog = .telnet t) :
    SessionStep rooms s s' act y t := by
  cases Sys.step_conn h y with
  | other n down hact hconn hn =>
    refine .other hact ?_
    rw [hconn]
    exact hy
  | connect p hp hunused hprog => exact absurd (hunused.symm.trans hy) nofun
  | run choice p' op s1 hact hprog happly hs' =>
    have hprog' : (s'.conns y).prog = p' := by rw [hs', Sys.setProg_conn]
    unfold Sys.progStep at hprog
    rw [hy] at hprog
    dsimp only at hprog
    split at hprog
    · rename_i hpc
      cases hprog
      exact .closed hpc hprog'
    · obtain ⟨⟨t', op'⟩, hstep, heq⟩ := Option.map_eq_some_iff.mp hprog
      cases heq
      exact .own t' choice op' s1 hact hstep happly hs' hprog'

/-- An ended connection stays ended. -/
theorem closed_stays {rooms : List ChatRoom} {s s' : Sys} {act : Act} {y : Nat}
    (h : s.step rooms act = some s') (hy : (s.conns y).prog = .closed) :
    (s'.conns y).prog = .closed := by
  cases Sys.step_conn h y with
  | other n down hact hconn hn =>
    rw [hconn]
    exact hy
  | connect p hp hunused hprog => exact absurd (hunused.symm.trans hy) nofun
  | run choice p' op s1 hact hprog happly hs' =>
    unfold Sys.progStep at hprog
    rw [hy] at hprog
    cases hprog

/-- From the moment it is chosen a session keeps its name, as long as it lasts. -/
theorem username_stays {rooms : List ChatRoom} {s s' : Sys} (hs : (chatSystem rooms).Reachable s)
    {y : Nat} {t : Telnet} (hy : (s.conns y).prog = .telnet t) (hname : t.username ≠ [])
    (hs' : ((chatSystem rooms).startingAt s).Reachable s') {t' : Telnet}
    (hy' : (s'.conns y).prog = .telnet t') : t'.username = t.username := by
  -- a number is used once, so a session on it is the same one
  have hrun : (∃ u, (s'.conns y).prog = .telnet u ∧ u.username = t.username)
      ∨ (s'.conns y).prog = .closed := by
    refine ReachableVia.invariant_from (P := fun z =>
      (∃ u, (z.conns y).prog = .telnet u ∧ u.username = t.username) ∨ (z.conns y).prog = .closed)
      hs (Or.inl ⟨t, hy, rfl⟩) ?_ hs'
    intro z act z' hz hP hstep _
    have hstep : z.step rooms act = some z' := hstep
    rcases hP with ⟨u, hu, heq⟩ | hclosed
    · cases sessionStep hstep hu with
      | other hact hprog' => exact Or.inl ⟨u, hprog', heq⟩
      | own u' choice op s1 hact hown happly hs1 hprog' =>
        have hsame := Telnet.step_username (reachable_texts hz y u hu) (by rw [heq]; exact hname) hown
        exact Or.inl ⟨u', hprog', hsame.trans heq⟩
      | closed hpc hprog' => exact Or.inr hprog'
    · exact Or.inr (closed_stays hstep hclosed)
  rcases hrun with ⟨u, hu, heq⟩ | hclosed
  · cases hu.symm.trans hy'
    exact heq
  · exact absurd (hclosed.symm.trans hy') nofun

/-- The points at which a session waits for its next event, or has just been
woken: no handler of the chat is running. -/
def TelnetPc.atRest : TelnetPc → Bool
  | .poll | .drain | .drained => true
  | _ => false

/-- **The chat's state is consistent.**  In every state of every run, for every
telnet session: the name being typed has at most 20 bytes and the text at most
511, so that both buffers have room for their NUL, and they hold name bytes and
printable bytes; a session that is past the name prompt has a name of 1 to 20
name bytes, and keeps it; whenever no handler is running, a room is set exactly
in the states that show one, and `on_notify` with it; and without a chat there is
no `on_notify`. -/
theorem chat_ui_invariant {rooms : List ChatRoom} {s : Sys} (hs : (chatSystem rooms).Reachable s)
    {y : Nat} {t : Telnet} (hy : (s.conns y).prog = .telnet t) :
    (∀ c, t.chat = some c →
      c.usernameBuf.length ≤ 20 ∧ c.compose.length ≤ 511
      ∧ (∀ b ∈ c.compose, isPrintable b = true) ∧ (∀ b ∈ c.usernameBuf, isUserByte b = true)
      ∧ (c.st ≠ .username →
        (1 ≤ t.username.length ∧ t.username.length ≤ 20 ∧ ∀ b ∈ t.username, isUserByte b = true)
        ∧ ∀ s' t', ((chatSystem rooms).startingAt s).Reachable s' →
          (s'.conns y).prog = .telnet t' → t'.username = t.username)
      ∧ (t.pc.atRest = true → (c.room.isSome = true ↔ c.st = .inRoom ∨ c.st = .compose)
        ∧ (t.onNotify = true ↔ c.room.isSome = true)))
    ∧ (t.chat = none → t.onNotify = false) := by
  have htexts := reachable_texts hs y t hy
  have hok := (reachable_sound hs).telnet hy
  refine ⟨?_, Telnet.onNotify_of_noChat hok⟩
  intro c hc
  have hchat := htexts.chat c hc
  refine ⟨hchat.name_length, hchat.text_length, hchat.text_bytes, hchat.name_bytes, ?_, ?_⟩
  · intro hst
    have hname : t.username ≠ [] := fun hnil => hst (hchat.chosen.mpr hnil)
    refine ⟨⟨List.length_pos_iff.mpr hname, htexts.length, htexts.bytes⟩, ?_⟩
    intro s' t' hs' hy'
    exact username_stays hs hy hname hs' hy'
  · intro hrest
    have hfits := Telnet.fits_of_ok hc hok
    have hset : c.Settled ∧ t.onNotify = c.room.isSome := by
      cases hpc : t.pc with
      | poll =>
        rw [hpc] at hfits
        exact hfits
      | drain =>
        rw [hpc] at hfits
        exact hfits
      | drained =>
        rw [hpc] at hfits
        exact hfits
      | _ =>
        rw [hpc] at hrest
        cases hrest
    refine ⟨hset.1, ?_⟩
    rw [hset.2]

theorem chat_ui_invariant_composing :
    ∃ s t c, (chatSystem [demoRoom]).Reachable s ∧ (s.conns 0).prog = .telnet t ∧ t.chat = some c
      ∧ c.st = .compose ∧ c.compose = [104, 105] ∧ c.compose.length ≤ 511
      ∧ (1 ≤ t.username.length ∧ t.username.length ≤ 20)
      ∧ (t.onNotify = true ↔ c.room.isSome = true) := by
  obtain ⟨s, hs, hcheck⟩ := exists_reachable [demoRoom]
    (enterActs 0 ++ [Act.run 0 (.key 105), Act.run 0 (.key 104), Act.run 0 (.key 105)])
    (fun s => (s.conns 0).prog.chats fun t c =>
      decide (t.pc = .poll ∧ c.st = .compose ∧ c.compose = [104, 105])) (by decide +kernel)
  obtain ⟨t, c, hprog, hc, hcheck⟩ := Prog.exists_chat hcheck
  obtain ⟨hpc, hst, htext⟩ := of_decide_eq_true hcheck
  obtain ⟨-, hlen, -, -, hname, hrest⟩ := (chat_ui_invariant hs hprog).1 c hc
  have hchosen := (hname (by rw [hst]; exact nofun)).1
  exact ⟨s, t, c, hs, hprog, hc, hst, htext, hlen, ⟨hchosen.1, hchosen.2.1⟩,
    (hrest (by rw [hpc]; rfl)).2⟩

end NetServer.Chat
