/-
  NetServer.Chat.Bus — the chat server is a publish/subscribe bus.

  Rooms are the topics, connections the peers, notify descriptors the handles
  and message ids the messages of `NetServer.Lib.PubSub`.  `Sys.bus` forgets
  everything else, and `step_bus` says that every step of the server is a step
  of the bus.  What is proved of the bus then holds of the server.

  `step_conn` says what a step does to one connection.  The message table is
  not part of the bus: `step_messages` says what a step does to it.
-/
import NetServer.Chat.Threads
import NetServer.Lib.PubSub

namespace NetServer.Chat

open NetServer.Lib
open NetServer.Lib.PubSub

/-! ## §1. What the bus sees. -/

/-- A thread inside `chat_room_post`, from the inserted row on. -/
def postOf : Option PostPc → Post Int Nat Int
  | some (.lock r id) => .recorded r id
  | some (.write r id rest) => .notifying r id rest
  | some (.insert ..) | none => .idle

def Conn.peer (c : Conn) : Peer Int Nat Int where
  handle := c.fd
  live := c.prog.alive
  bytes := c.bytes
  visits := c.prog.visits
  accepted := c.accepted
  post := postOf c.prog.posting

def Sys.bus (s : Sys) : Bus Int Nat Nat Int where
  subs := s.sh.subFds
  lock := s.sh.lock
  owner := s.sh.fdOwner
  peers := fun x => (s.conns x).peer
  wakes := s.wakes

/-- The connection that takes a step. -/
def Act.actor : Act → Option Nat
  | .connectTelnet x _ | .connectHttp x _ | .run x _ => some x
  | .tick _ | .flag _ | .wake _ => none

theorem postOf_quiet {q : Option PostPc} (h : Quiet q) : postOf q = .idle := by
  cases q with
  | none => rfl
  | some p =>
    obtain ⟨r, u, b, hp⟩ := h p rfl
    rw [hp]
    rfl

theorem postOf_recorded {q : Option PostPc} {r id : Int} (h : postOf q = .recorded r id) :
    q = some (.lock r id) := by
  cases q with
  | none => exact absurd h nofun
  | some p =>
    cases p with
    | lock r' id' =>
      cases h
      rfl
    | _ => exact absurd h nofun

theorem postOf_notifying {q : Option PostPc} {r id : Int} {rest : List Nat}
    (h : postOf q = .notifying r id rest) : q = some (.write r id rest) := by
  cases q with
  | none => exact absurd h nofun
  | some p =>
    cases p with
    | write r' id' rest' =>
      cases h
      rfl
    | _ => exact absurd h nofun

theorem pipeCap_pos : 0 < pipeCap := by decide

/-- What an operation writes to the database. -/
def Op.onDb (db : ChatDb) (now : Int) : Op → ChatDb
  | .insert r user body id => chatDbInsertMessage db r user body now id
  | .presenceSet r user => chatRoomPresenceSet db r user now
  | .presenceClear r user => chatRoomPresenceClear db r user
  | _ => db

namespace Sys

theorem modify_conns (s : Sys) (x : Nat) (f : Conn → Conn) (y : Nat) :
    (s.modify x f).conns y = if y = x then f (s.conns x) else s.conns y := by
  show Function.update s.conns x (f (s.conns x)) y = _
  rw [Function.update_apply]

/-- A property of a connection that a change keeps. -/
theorem modify_keeps {β : Type} {s : Sys} {x : Nat} {f : Conn → Conn} (get : Conn → β)
    (h : get (f (s.conns x)) = get (s.conns x)) (y : Nat) :
    get ((s.modify x f).conns y) = get (s.conns y) := by
  rw [modify_conns]
  split
  · rename_i hyx
    rw [h, hyx]
  · rfl

/-- What an operation of `x` does to the record of a connection: only `x`'s own
subscription changes `accepted`, and only `x`'s own read takes bytes. -/
theorem apply_conn {s s1 : Sys} {x : Nat} {op : Op} (h : s.apply x op = some s1) (y : Nat) :
    ∃ n a, s1.conns y = { s.conns y with bytes := n, accepted := a }
      ∧ (y ≠ x ∨ (∀ r, op ≠ .subscribe r) → a = (s.conns y).accepted)
      ∧ (y ≠ x ∨ op ≠ .read → n = (s.conns y).bytes ∨ 0 < n) := by
  have hsame : s1.conns y = s.conns y → ∃ n a,
      s1.conns y = { s.conns y with bytes := n, accepted := a }
        ∧ (y ≠ x ∨ (∀ r, op ≠ .subscribe r) → a = (s.conns y).accepted)
        ∧ (y ≠ x ∨ op ≠ .read → n = (s.conns y).bytes ∨ 0 < n) := by
    intro heq
    exact ⟨(s.conns y).bytes, (s.conns y).accepted, heq, fun _ => rfl, fun _ => Or.inl rfl⟩
  cases op with
  | write id fd =>
    cases howner : s.sh.fdOwner fd with
    | none =>
      simp only [apply, howner, Option.some.injEq] at h
      exact hsame (by rw [← h])
    -- the byte arrives, or the pipe is full: in both cases it is not empty
    | some z =>
      simp only [apply, howner, Option.some.injEq] at h
      have hadd : s1.conns y = (s.addByte z).conns y := by rw [← h]
      rw [addByte, modify_conns] at hadd
      split at hadd
      · rename_i hyz
        rw [← hyz] at hadd
        refine ⟨_, _, hadd, fun _ => rfl, fun _ => Or.inr ?_⟩
        unfold pipeCap
        omega
      · exact hsame hadd
  | subscribe r =>
    simp only [apply, Option.ite_none_right_eq_some, Option.some.injEq] at h
    rw [← h.2, modify_conns]
    split
    · rename_i hyx
      rw [hyx]
      refine ⟨_, _, rfl, ?_, fun _ => Or.inl rfl⟩
      rintro (hne | hne)
      · exact absurd rfl hne
      · exact absurd rfl (hne r)
    · exact ⟨_, _, rfl, fun _ => rfl, fun _ => Or.inl rfl⟩
  | read =>
    cases h
    rw [modify_conns]
    split
    · rename_i hyx
      rw [hyx]
      refine ⟨_, _, rfl, fun _ => rfl, ?_⟩
      rintro (hne | hne)
      · exact absurd rfl hne
      · exact absurd rfl hne
    · exact ⟨_, _, rfl, fun _ => rfl, fun _ => Or.inl rfl⟩
  | unsubscribe r =>
    simp only [apply, Option.ite_none_right_eq_some, Option.some.injEq] at h
    exact hsame (by rw [← h.2]; rfl)
  | insert r u b id =>
    simp only [apply, Option.ite_none_right_eq_some, Option.some.injEq] at h
    exact hsame (by rw [← h.2]; rfl)
  | lock r =>
    simp only [apply, Option.ite_none_right_eq_some, Option.some.injEq] at h
    exact hsame (by rw [← h.2]; rfl)
  | _ =>
    cases h
    exact hsame rfl

theorem apply_prog {s s1 : Sys} {x : Nat} {op : Op} (h : s.apply x op = some s1) (y : Nat) :
    (s1.conns y).prog = (s.conns y).prog := by
  obtain ⟨n, a, heq, -, -⟩ := apply_conn h y
  rw [heq]

/-- The step of a connection's thread: its program gives an operation. -/
theorem step_run {rooms : List ChatRoom} {s s' : Sys} {x : Nat} {choice : Choice}
    (h : s.step rooms (.run x choice) = some s') :
    ∃ p' op s1, progStep rooms s.sh (s.conns x) choice = some (p', op) ∧ s.apply x op = some s1
      ∧ s' = s1.setProg x p' := by
  cases hprog : progStep rooms s.sh (s.conns x) choice with
  | none => simp [step, hprog] at h
  | some r =>
    obtain ⟨p', op⟩ := r
    simp only [step, hprog] at h
    obtain ⟨s1, happly, hs1⟩ := Option.map_eq_some_iff.mp h
    exact ⟨p', op, s1, rfl, happly, hs1.symm⟩

@[simp]
theorem setProg_conn (s : Sys) (x : Nat) (p : Prog) :
    (s.setProg x p).conns x = { s.conns x with prog := p } := by
  rw [setProg, modify_conns, if_pos rfl]

/-- A step leaves every connection that does not take it as it is, but for a
byte that arrives and the shutdown flag. -/
theorem step_others {rooms : List ChatRoom} {s s' : Sys} {act : Act}
    (h : s.step rooms act = some s') {y : Nat} (hy : act.actor ≠ some y) :
    ∃ n down, s'.conns y = { s.conns y with bytes := n, shutdown := down }
      ∧ (n = (s.conns y).bytes ∨ 0 < n) := by
  have hconnect : ∀ {x fd p}, y ≠ x → s.connect x fd p = some s' → s'.conns y = s.conns y := by
    intro x fd p hyx hc
    simp only [connect, Option.ite_none_right_eq_some, Option.some.injEq] at hc
    rw [← hc.2, modify_conns, if_neg hyx]
    rfl
  cases act with
  | connectTelnet x fd =>
    rw [hconnect (fun hyx => hy (congrArg some hyx.symm)) h]
    exact ⟨_, _, rfl, Or.inl rfl⟩
  | connectHttp x fd =>
    rw [hconnect (fun hyx => hy (congrArg some hyx.symm)) h]
    exact ⟨_, _, rfl, Or.inl rfl⟩
  | run x choice =>
    have hyx : y ≠ x := fun hyx => hy (congrArg some hyx.symm)
    obtain ⟨p', op, s1, -, happly, rfl⟩ := step_run h
    obtain ⟨n, a, hconn, ha, hn⟩ := apply_conn happly y
    refine ⟨n, (s.conns y).shutdown, ?_, hn (Or.inl hyx)⟩
    rw [setProg, modify_conns, if_neg hyx, hconn, ha (Or.inl hyx)]
  | tick secs =>
    cases h
    exact ⟨_, _, rfl, Or.inl rfl⟩
  | flag x =>
    cases h
    rw [modify_conns]
    split
    · rename_i hyx
      rw [hyx]
      exact ⟨_, _, rfl, Or.inl rfl⟩
    · exact ⟨_, _, rfl, Or.inl rfl⟩
  | wake x =>
    simp only [step, Option.ite_none_right_eq_some, Option.some.injEq] at h
    rw [← h.2]
    unfold addByte
    rw [modify_conns]
    split
    · rename_i hyx
      rw [hyx]
      refine ⟨_, _, rfl, Or.inr ?_⟩
      unfold pipeCap
      omega
    · exact ⟨_, _, rfl, Or.inl rfl⟩

/-- A new connection: its number was unused. -/
theorem connect_conn {s s' : Sys} {x fd : Nat} {p : Prog} (h : s.connect x fd p = some s') :
    (s.conns x).prog = .unused ∧ (s'.conns x).prog = p := by
  simp only [connect, Option.ite_none_right_eq_some, Option.some.injEq] at h
  refine ⟨h.1.1, ?_⟩
  rw [← h.2, modify_conns, if_pos rfl]

/-- What a step does to connection `y`. -/
inductive ConnStep (rooms : List ChatRoom) (s s' : Sys) (act : Act) (y : Nat) : Prop where
  /-- Another connection or the environment takes it. -/
  | other (n : Nat) (down : Bool) (hact : act.actor ≠ some y)
      (hconn : s'.conns y = { s.conns y with bytes := n, shutdown := down })
      (hn : n = (s.conns y).bytes ∨ 0 < n)
  /-- The client connects. -/
  | connect (p : Prog) (hp : p = .telnet telnetStart ∨ p = .http .request)
      (hunused : (s.conns y).prog = .unused) (hprog : (s'.conns y).prog = p)
  /-- The connection's own thread runs. -/
  | run (choice : Choice) (p' : Prog) (op : Op) (s1 : Sys) (hact : act = .run y choice)
      (hprog : progStep rooms s.sh (s.conns y) choice = some (p', op))
      (happly : s.apply y op = some s1) (hs' : s' = s1.setProg y p')

theorem step_conn {rooms : List ChatRoom} {s s' : Sys} {act : Act}
    (h : s.step rooms act = some s') (y : Nat) : ConnStep rooms s s' act y := by
  by_cases hact : act.actor = some y
  · cases act with
    | connectTelnet x fd =>
      cases hact
      obtain ⟨hunused, hprog⟩ := connect_conn h
      exact .connect _ (Or.inl rfl) hunused hprog
    | connectHttp x fd =>
      cases hact
      obtain ⟨hunused, hprog⟩ := connect_conn h
      exact .connect _ (Or.inr rfl) hunused hprog
    | run x choice =>
      cases hact
      obtain ⟨p', op, s1, hprog, happly, hs'⟩ := step_run h
      exact .run choice p' op s1 rfl hprog happly hs'
    | _ => exact absurd hact nofun
  · obtain ⟨n, down, hconn, hn⟩ := step_others h hact
    exact .other n down hact hconn hn

/-- The descriptor of a living connection stays the same. -/
theorem step_fd {rooms : List ChatRoom} {s s' : Sys} {act : Act} {y : Nat}
    (h : s.step rooms act = some s') (hy : (s.conns y).prog.alive = true) :
    (s'.conns y).fd = (s.conns y).fd := by
  cases step_conn h y with
  | other n down hact hconn hn => rw [hconn]
  | connect p hp hunused hprog =>
    rw [hunused] at hy
    exact absurd hy nofun
  | run choice p' op s1 hact hprog happly hs' =>
    obtain ⟨n, a, hconn, -, -⟩ := apply_conn happly y
    rw [hs', setProg_conn, hconn]

/-- A change of a connection, seen from the bus. -/
theorem bus_modify {s : Sys} {x : Nat} {f : Conn → Conn} {g : Peer Int Nat Int → Peer Int Nat Int}
    (h : (f (s.conns x)).peer = g (s.conns x).peer) : (s.modify x f).bus = s.bus.modify x g := by
  have hpeers : (fun y => (Function.update s.conns x (f (s.conns x)) y).peer)
      = Function.update (fun y => (s.conns y).peer) x (g (s.conns x).peer) := by
    rw [← h]
    exact Function.comp_update Conn.peer s.conns x (f (s.conns x))
  exact congrArg (fun peers => ({ s.bus with peers := peers } : Bus Int Nat Nat Int)) hpeers

theorem bus_setProg (s : Sys) (x : Nat) (p : Prog) :
    (s.setProg x p).bus
      = s.bus.modify x fun k =>
          { k with live := p.alive, visits := p.visits, post := postOf p.posting } :=
  bus_modify rfl

theorem bus_addByte (s : Sys) (y : Nat) : (s.addByte y).bus = s.bus.signal pipeCap y :=
  bus_modify rfl

/-! ## §2. Every step is a step of the bus. -/

section Steps

variable {s s1 : Sys} {x : Nat} {p' : Prog} (halive : (s.conns x).prog.alive = true)
  (halive' : p'.alive = true)

include halive halive'

/-- A neutral operation is nothing to the bus, or a read of the own pipe. -/
theorem bus_neutral {op : Op} (hop : op.Neutral) (hq : Quiet (s.conns x).prog.posting)
    (hq' : Quiet p'.posting) (hv : p'.visits = (s.conns x).prog.visits)
    (happly : s.apply x op = some s1) :
    Step chatMaxSubscribers pipeCap s.bus (some x) (s1.setProg x p').bus := by
  -- the thread's new program shows the same peer
  have hsame : ∀ k : Peer Int Nat Int, k.live = true → k.visits = (s.conns x).prog.visits →
      k.post = .idle →
      { k with live := p'.alive, visits := p'.visits, post := postOf p'.posting } = k := by
    intro k hlive hvisits hpost
    rw [halive', hv, postOf_quiet hq', ← hlive, ← hvisits, ← hpost]
  have hpeer : { (s.conns x).peer with
      live := p'.alive, visits := p'.visits, post := postOf p'.posting } = (s.conns x).peer :=
    hsame _ halive rfl (postOf_quiet hq)
  have hother : (s.setProg x p').bus = s.bus := by
    rw [bus_setProg]
    exact Bus.modify_eq_self hpeer
  cases op with
  | skip =>
    cases happly
    rw [hother]
    exact .other _
  | presenceSet r user =>
    cases happly
    show Step _ _ s.bus _ (s.setProg x p').bus
    rw [hother]
    exact .other _
  | presenceClear r user =>
    cases happly
    show Step _ _ s.bus _ (s.setProg x p').bus
    rw [hother]
    exact .other _
  | read =>
    cases happly
    rw [bus_setProg, bus_modify (g := fun k => { k with bytes := (s.conns x).bytes - 64 }) rfl,
      Bus.modify_modify]
    rw [Bus.modify_congr (g := fun k => { k with bytes := (s.conns x).bytes - 64 })]
    · exact .read x _
    · exact hsame _ halive rfl (postOf_quiet hq)
  | _ => exact hop.elim

/-- Every step of a thread that is a step of its description. -/
theorem bus_shape {op : Op} (happly : s.apply x op = some s1)
    (hshape : ShapeStep s.sh (s.conns x).prog.visits (s.conns x).prog.posting op p'.visits
      p'.posting) :
    Step chatMaxSubscribers pipeCap s.bus (some x) (s1.setProg x p').bus := by
  have hlive : (s.bus.peers x).live = true := halive
  generalize hv : (s.conns x).prog.visits = v at hshape
  generalize hq : (s.conns x).prog.posting = q at hshape
  generalize hv' : p'.visits = v' at hshape
  generalize hq' : p'.posting = q' at hshape
  have hbv : (s.bus.peers x).visits = v := hv
  have hbp : (s.bus.peers x).post = postOf q := congrArg postOf hq
  -- the new program shows the bus a new post and a new room, and nothing else
  have hset : ∀ {k : Sys} {f : Peer Int Nat Int → Peer Int Nat Int},
      { k.bus.peers x with live := true, visits := v', post := postOf q' } = f (k.bus.peers x) →
      (k.setProg x p').bus = k.bus.modify x f := by
    intro k f hf
    rw [bus_setProg, halive', hv', hq']
    exact Bus.modify_congr hf
  cases hshape with
  | neutral hop hquiet hquiet' =>
    exact bus_neutral halive halive' hop (hq ▸ hquiet) (hq' ▸ hquiet') (hv'.trans hv.symm) happly
  | subscribe r =>
    simp only [apply, Option.ite_none_right_eq_some, Option.some.injEq] at happly
    obtain ⟨hlock, rfl⟩ := happly
    have hmod := bus_modify
      (s := s.setSubFds r (chatRoomSubscribe (s.sh.subFds r) (s.conns x).fd)) (x := x)
      (f := fun c => { c with accepted := decide ((s.sh.subFds r).length < chatMaxSubscribers) })
      (g := fun k => { k with accepted := decide ((s.sh.subFds r).length < chatMaxSubscribers) }) rfl
    rw [bus_setProg, halive', hv', hq', hmod, Bus.modify_modify,
      Bus.modify_congr (g := fun k => { k with
        visits := some r, accepted := decide ((s.sh.subFds r).length < chatMaxSubscribers) })]
    · exact .subscribe x r hlive hbv hbp hlock
    · rw [← hlive, ← hbp]
      rfl
  | unsubscribe r =>
    simp only [apply, Option.ite_none_right_eq_some, Option.some.injEq] at happly
    obtain ⟨hlock, rfl⟩ := happly
    have hnew := hset (k := s.setSubFds r (chatRoomUnsubscribe (s.sh.subFds r) (s.conns x).fd))
      (f := fun k => { k with visits := none }) (by rw [← hlive, ← hbp]; rfl)
    rw [hnew]
    exact .unsubscribe x r hlive hbv hlock
  | insert r u b id =>
    simp only [apply, Option.ite_none_right_eq_some, Option.some.injEq] at happly
    obtain ⟨-, rfl⟩ := happly
    have hnew := hset (k := s.setDb (chatDbInsertMessage s.sh.db r u b s.sh.now id))
      (f := fun k => { k with post := .recorded r id }) (by rw [← hlive, ← hbv]; rfl)
    rw [hnew]
    exact .record x r id hlive hbp
  | lock r id =>
    simp only [apply, Option.ite_none_right_eq_some, Option.some.injEq] at happly
    obtain ⟨hlock, rfl⟩ := happly
    have hnew := hset (k := s.setLock r (some x))
      (f := fun k => { k with post := .notifying r id (s.sh.subFds r) }) (by rw [← hlive, ← hbv]; rfl)
    rw [hnew]
    exact .lock x r id hbp hlock
  | write r id fd rest =>
    cases howner : s.sh.fdOwner fd with
    | none =>
      simp only [apply, howner, Option.some.injEq] at happly
      subst happly
      have hnew := hset (k := s) (f := fun k => { k with post := .notifying r id rest })
        (by rw [← hlive, ← hbv]; rfl)
      rw [hnew]
      exact .writeClosed x r id fd rest hbp howner
    | some y =>
      simp only [apply, howner, Option.some.injEq] at happly
      subst happly
      -- the byte may be for the thread's own pipe
      have hpeer : (((s.addByte y).bus).peers x).live = true
          ∧ (((s.addByte y).bus).peers x).visits = v := by
        rw [bus_addByte]
        unfold Bus.signal
        rw [Bus.modify_peers]
        split
        · rename_i hxy
          rw [← hxy]
          exact ⟨hlive, hbv⟩
        · exact ⟨hlive, hbv⟩
      have hnew := hset (k := { s.addByte y with wakes := s.wakes ++ [(id, y)] })
        (f := fun k => { k with post := .notifying r id rest })
        (by
          show ({ ((s.addByte y).bus).peers x with live := true, visits := v, post := _ } : Peer _ _ _)
            = _
          rw [← hpeer.1, ← hpeer.2]
          rfl)
      have hbus : ({ s.addByte y with wakes := s.wakes ++ [(id, y)] } : Sys).bus
          = { s.bus.signal pipeCap y with wakes := s.bus.wakes ++ [(id, y)] } :=
        congrArg (fun b : Bus Int Nat Nat Int => { b with wakes := s.wakes ++ [(id, y)] })
          (bus_addByte s y)
      rw [hnew, hbus]
      exact .write x r id fd rest y hbp howner
  | unlock r id =>
    cases happly
    have hnew := hset (k := s.setLock r none)
      (f := fun k => { k with post := .idle }) (by rw [← hlive, ← hbv]; rfl)
    rw [hnew]
    exact .unlock x r id hbp

end Steps

/-- The thread of a connection takes a step. -/
theorem bus_run {rooms : List ChatRoom} {s s' : Sys} {x : Nat} {choice : Choice}
    (hok : ∀ y, (s.conns y).prog.Ok) (h : s.step rooms (.run x choice) = some s') :
    (∀ y, (s'.conns y).prog.Ok) ∧ Step chatMaxSubscribers pipeCap s.bus (some x) s'.bus := by
  obtain ⟨p', op, s1, hprog, happly, rfl⟩ := step_run h
  obtain ⟨halive, hgood⟩ := progStep_good (hok x) hprog
  have hothers : p'.Ok → ∀ y, ((s1.setProg x p').conns y).prog.Ok := by
    intro hp' y
    rw [setProg, modify_conns]
    split
    · exact hp'
    · rw [apply_prog happly y]
      exact hok y
  cases hgood with
  | run hok' halive' hshape => exact ⟨hothers hok', bus_shape halive halive' happly hshape⟩
  | close hv hq =>
    refine ⟨hothers trivial, ?_⟩
    cases happly
    have hpost : (s.bus.peers x).post = .idle := congrArg postOf hq
    have hvisits : (s.bus.peers x).visits = none := hv
    rw [bus_setProg, Bus.modify_congr (g := fun k => { k with live := false })]
    · exact .close x halive hvisits hpost
    · show ({ s.bus.peers x with live := false, visits := none, post := .idle } : Peer _ _ _) = _
      rw [← hvisits, ← hpost]
      rfl

/-- A client connects. -/
theorem bus_connect {s s' : Sys} {x fd : Nat} {p : Prog} (hok : ∀ y, (s.conns y).prog.Ok)
    (hp : p.Ok) (halive : p.alive = true) (hvisits : p.visits = none) (hpost : p.posting = none)
    (h : s.connect x fd p = some s') :
    (∀ y, (s'.conns y).prog.Ok) ∧ Step chatMaxSubscribers pipeCap s.bus (some x) s'.bus := by
  simp only [connect, Option.ite_none_right_eq_some, Option.some.injEq] at h
  obtain ⟨⟨hunused, hfd⟩, rfl⟩ := h
  refine ⟨?_, ?_⟩
  · intro y
    rw [modify_conns]
    split
    · exact hp
    · exact hok y
  · have hpeer : (Conn.peer { fd := fd, bytes := 0, shutdown := false, accepted := false, prog := p })
        = { handle := fd, live := true, bytes := 0, visits := none, accepted := false,
            post := .idle } := by
      unfold Conn.peer
      rw [halive, hvisits, hpost]
      rfl
    rw [bus_modify (g := fun _ => { handle := fd, live := true, bytes := 0, visits := none,
                                    accepted := false, post := .idle }) hpeer]
    · refine .connect x fd ?_ hfd
      show (s.conns x).prog.alive = false
      rw [hunused]
      rfl

/-- **Every step of the server is a step of the bus**, and every thread keeps its
invariant. -/
theorem step_bus {rooms : List ChatRoom} {s s' : Sys} {act : Act} (hok : ∀ y, (s.conns y).prog.Ok)
    (h : s.step rooms act = some s') :
    (∀ y, (s'.conns y).prog.Ok) ∧ Step chatMaxSubscribers pipeCap s.bus act.actor s'.bus := by
  cases act with
  | connectTelnet x fd =>
    -- a new peer: alive, in no room, with an empty pipe
    have hstart : (Prog.telnet telnetStart).Ok := ⟨rfl, Or.inl rfl⟩
    exact bus_connect hok hstart rfl rfl rfl h
  | connectHttp x fd =>
    have hstart : (Prog.http .request).Ok := trivial
    exact bus_connect hok hstart rfl rfl rfl h
  | run x choice => exact bus_run hok h
  | tick secs =>
    cases h
    exact ⟨hok, .other _⟩
  | flag x =>
    cases h
    refine ⟨fun y => ?_, ?_⟩
    · rw [modify_keeps Conn.prog rfl y]
      exact hok y
    -- the bus does not see the flag
    · rw [bus_modify (g := id) rfl, Bus.modify_eq_self rfl]
      exact .other _
  | wake x =>
    simp only [step, Option.ite_none_right_eq_some, Option.some.injEq] at h
    obtain ⟨-, rfl⟩ := h
    refine ⟨fun y => ?_, ?_⟩
    · unfold addByte
      rw [modify_keeps Conn.prog rfl y]
      exact hok y
    · rw [bus_addByte]
      exact .signal x

/-! ## §3. The message table. -/

/-- The message table of `s'` is that of `s`. -/
def SameMessages (s s' : Sys) : Prop :=
  s'.sh.db.messages = s.sh.db.messages ∧ s'.sh.db.seq = s.sh.db.seq

/-- Only the three SQL writes change the database. -/
theorem apply_db {s s1 : Sys} {x : Nat} {op : Op} (h : s.apply x op = some s1) :
    s1.sh.db = op.onDb s.sh.db s.sh.now := by
  cases op with
  | write id fd =>
    cases howner : s.sh.fdOwner fd with
    | none =>
      simp only [apply, howner, Option.some.injEq] at h
      rw [← h]
      rfl
    | some y =>
      simp only [apply, howner, Option.some.injEq] at h
      rw [← h]
      rfl
  | insert r user body id =>
    simp only [apply, Option.ite_none_right_eq_some, Option.some.injEq] at h
    rw [← h.2]
    rfl
  | subscribe r =>
    simp only [apply, Option.ite_none_right_eq_some, Option.some.injEq] at h
    rw [← h.2]
    rfl
  | unsubscribe r =>
    simp only [apply, Option.ite_none_right_eq_some, Option.some.injEq] at h
    rw [← h.2]
    rfl
  | lock r =>
    simp only [apply, Option.ite_none_right_eq_some, Option.some.injEq] at h
    rw [← h.2]
    rfl
  | _ =>
    cases h
    rfl

/-- Only an insertion changes the message table. -/
theorem apply_messages {s s1 : Sys} {x : Nat} {op : Op} (h : s.apply x op = some s1)
    (hop : ∀ r user body id, op ≠ .insert r user body id) : SameMessages s s1 := by
  unfold SameMessages
  rw [apply_db h]
  cases op with
  | insert r user body id => exact absurd rfl (hop r user body id)
  | presenceSet r user => exact presenceSet_keeps _ _ _ _
  | presenceClear r user => exact presenceClear_keeps _ _ _
  | _ => exact ⟨rfl, rfl⟩

/-- Connection `x` inserts message `id` of room `r`, and is now before the lock. -/
structure Inserts (s s' : Sys) (x : Nat) (r id : Int) (user body : List UInt8) : Prop where
  assign : s.sh.db.MayAssign id
  before : (s.conns x).prog.posting = some (.insert r user body)
  after : (s'.conns x).prog.posting = some (.lock r id)
  db : s'.sh.db = chatDbInsertMessage s.sh.db r user body s.sh.now id

/-- Only an operation of a thread changes the database. -/
theorem step_db {rooms : List ChatRoom} {s s' : Sys} {act : Act} (h : s.step rooms act = some s') :
    s'.sh.db = s.sh.db
      ∨ ∃ x choice p' op s1, act = .run x choice
          ∧ progStep rooms s.sh (s.conns x) choice = some (p', op) ∧ s.apply x op = some s1
          ∧ s' = s1.setProg x p' := by
  have hconnect : ∀ {x fd p}, s.connect x fd p = some s' → s'.sh.db = s.sh.db := by
    intro x fd p hc
    simp only [connect, Option.ite_none_right_eq_some, Option.some.injEq] at hc
    rw [← hc.2]
    rfl
  cases act with
  | connectTelnet x fd => exact Or.inl (hconnect h)
  | connectHttp x fd => exact Or.inl (hconnect h)
  | run x choice =>
    obtain ⟨p', op, s1, hprog, happly, hs'⟩ := step_run h
    exact Or.inr ⟨x, choice, p', op, s1, rfl, hprog, happly, hs'⟩
  | tick secs =>
    cases h
    exact Or.inl rfl
  | flag x =>
    cases h
    exact Or.inl rfl
  | wake x =>
    simp only [step, Option.ite_none_right_eq_some, Option.some.injEq] at h
    rw [← h.2]
    exact Or.inl rfl

/-- What a step does to the message table. -/
theorem step_messages {rooms : List ChatRoom} {s s' : Sys} {act : Act}
    (hok : ∀ y, (s.conns y).prog.Ok) (h : s.step rooms act = some s') :
    SameMessages s s' ∨ ∃ x r id user body, act.actor = some x ∧ Inserts s s' x r id user body := by
  rcases step_db h with hdb | ⟨x, choice, p', op, s1, rfl, hprog, happly, rfl⟩
  · left
    unfold SameMessages
    rw [hdb]
    exact ⟨rfl, rfl⟩
  by_cases hop : ∃ r user body id, op = .insert r user body id
  · obtain ⟨r, user, body, id, rfl⟩ := hop
    obtain ⟨hq, hq'⟩ := progStep_insert (hok x) hprog
    simp only [apply, Option.ite_none_right_eq_some, Option.some.injEq] at happly
    obtain ⟨hid, rfl⟩ := happly
    refine Or.inr ⟨x, r, id, user, body, rfl, hid, hq, ?_, rfl⟩
    rw [setProg_conn]
    exact hq'
  · have hsame : SameMessages s s1 :=
      apply_messages happly fun r user body id heq => hop ⟨r, user, body, id, heq⟩
    exact Or.inl hsame

theorem step_wf {rooms : List ChatRoom} {s s' : Sys} {act : Act} (hok : ∀ y, (s.conns y).prog.Ok)
    (hwf : s.sh.db.Wf) (h : s.step rooms act = some s') : s'.sh.db.Wf := by
  rcases step_messages hok h with hsame | ⟨x, r, id, user, body, -, hins⟩
  · exact hwf.of_messages hsame.1 hsame.2
  · rw [hins.db]
    exact insertMessage_wf hwf hins.assign

/-- A room's ids only grow, and only by an insertion into the room. -/
theorem step_roomIds {rooms : List ChatRoom} {s s' : Sys} {act : Act}
    (hok : ∀ y, (s.conns y).prog.Ok) (h : s.step rooms act = some s') (r : Int) :
    s'.sh.db.roomIds r = s.sh.db.roomIds r
      ∨ ∃ x id user body, act.actor = some x ∧ Inserts s s' x r id user body
          ∧ s'.sh.db.roomIds r = s.sh.db.roomIds r ++ [id] := by
  rcases step_messages hok h with hsame | ⟨x, r', id, user, body, hx, hins⟩
  · left
    unfold ChatDb.roomIds ChatDb.roomRows
    rw [hsame.1]
  · have hids := roomIds_insert s.sh.db r' r s.sh.now id user body
    rw [← hins.db] at hids
    by_cases hr : r' = r
    · subst hr
      rw [if_pos rfl] at hids
      exact Or.inr ⟨x, id, user, body, hx, hins, hids⟩
    · rw [if_neg hr, List.append_nil] at hids
      exact Or.inl hids

end Sys

end NetServer.Chat
