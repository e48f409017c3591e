/-
  NetServer.Core.Slots — the connector loses no slot and no socket.

  A program point says what its connection holds (`ConnPc.holds`), and who has
  closed and freed what by then (`socketGone`, `connGone`).  The four functions
  of the source keep to these tables (`serverRun_moves`, `threadEntry_moves`);
  the semaphore and the counters follow by counting
  (`NetServer.Lib.Holding`), the descriptors and the heap connection by
  connection.

    • `move_inv`      — a connection takes a step;
    • `srv_step_inv`  — so does anybody;
    • `connector_conserves` — the result, when no signal interrupts the waiting
      of `connector_destroy`;
    • `destroy_interrupted` — and a run in which one does.
-/
import NetServer.Core.Connector

namespace NetServer.Core

open NetServer.Lib

/-! ## §1. What a program point says. -/

/-- What a connection holds. -/
def ConnPc.holds (pc : ConnPc) : Res → Bool
  | .slot =>
      match pc with
      | .accepted | .unmade | .turnedAway | .made | .rejecting | .dropping | .rejected
      | .finished => false
      | _ => true
  | .active =>
      match pc with
      | .calling | .counted | .sessionless | .running | .leaving | .unlisted | .returned => true
      | _ => false
  | .activeConnections =>
      match pc with
      | .counted | .sessionless | .running | .leaving => true
      | _ => false
  | .socket =>
      match pc with
      | .turnedAway | .dropping | .rejected | .leaving | .unlisted | .returned | .inactive
      | .finished => false
      | _ => true
  | .conn =>
      match pc with
      | .accepted | .unmade | .turnedAway | .rejected | .returned | .inactive | .finished => false
      | _ => true
  | .wrap =>
      match pc with
      | .wrapped | .unstarted | .started => true
      | _ => false

/-- There has been a `connection_t`. -/
def ConnPc.connMade : ConnPc → Bool
  | .accepted | .unmade | .turnedAway => false
  | _ => true

/-- Who handles the connection, or has handled it last. -/
def ConnPc.runner (pc : ConnPc) (x : Nat) : Who :=
  match pc with
  | .started | .entered | .calling | .counted | .sessionless | .running | .leaving | .unlisted
  | .returned | .inactive | .finished => .thread x
  | _ => .acceptLoop

/-- Who has closed the socket by now. -/
def ConnPc.socketGone (pc : ConnPc) (x : Nat) : List Who :=
  if pc.holds .socket then [] else [pc.runner x]

/-- Who has freed the `connection_t` by now. -/
def ConnPc.connGone (pc : ConnPc) (x : Nat) : List Who :=
  if pc.connMade && !pc.holds .conn then [pc.runner x] else []

/-- A step by `who` keeps to the tables. -/
structure Moves (who : Nat → Who) (op : Op Res) (pc pc' : ConnPc) : Prop where
  fits : Fits ConnPc.holds op pc pc'
  socketGone : ∀ x, pc'.socketGone x
    = pc.socketGone x ++ if op = .release .socket then [who x] else []
  connGone : ∀ x, pc'.connGone x = pc.connGone x ++ if op = .release .conn then [who x] else []
  connMade : pc'.connMade.toNat = pc.connMade.toNat + op.takes .conn
  noAccept : op ≠ .acquire .socket

theorem serverRun_moves {ok : Bool} {pc pc' : ConnPc} {op : Op Res}
    (h : serverRun ok pc = some (op, pc')) : Moves (fun _ => .acceptLoop) op pc pc' := by
  cases pc <;> cases ok <;> cases h <;>
    exact ⟨by rintro (_ | _ | _ | _ | _ | _) <;> rfl, fun _ => rfl, fun _ => rfl, rfl, nofun⟩

theorem threadEntry_moves {ok : Bool} {pc pc' : ConnPc} {op : Op Res}
    (h : threadEntry ok pc = some (op, pc')) : Moves .thread op pc pc' := by
  cases pc <;> cases ok <;> cases h <;>
    exact ⟨by rintro (_ | _ | _ | _ | _ | _) <;> rfl, fun _ => rfl, fun _ => rfl, rfl, nofun⟩

/-- A thread never comes back to the accept loop's points. -/
theorem threadEntry_onMain {ok : Bool} {pc pc' : ConnPc} {op : Op Res}
    (h : threadEntry ok pc = some (op, pc')) : pc.onMain = false ∧ pc'.onMain = false := by
  cases pc <;> cases ok <;> cases h <;> exact ⟨rfl, rfl⟩

/-- Only `sem_trywait` takes a slot. -/
theorem serverRun_slot {ok : Bool} {pc pc' : ConnPc}
    (h : serverRun ok pc = some (.acquire .slot, pc')) : pc = .made ∧ ok = true := by
  cases pc <;> cases ok <;> cases h
  exact ⟨rfl, rfl⟩

theorem threadEntry_slot {ok : Bool} {pc pc' : ConnPc} :
    threadEntry ok pc ≠ some (.acquire .slot, pc') := by
  intro h
  cases pc <;> cases ok <;> cases h

/-! ## §2. What a step does. -/

def Obj.res : Obj → Res
  | .socket _ => .socket
  | .conn _ => .conn
  | .wrap _ => .wrap

def Obj.idx : Obj → Nat
  | .socket x | .conn x | .wrap x => x

/-- A counter of the holders of `r`, as `atomic_fetch_add` and `atomic_fetch_sub`
change it. -/
def countedBy (op : Op Res) (r : Res) (n : UInt32) : UInt32 :=
  if op = .acquire r then n + 1 else if op = .release r then n - 1 else n

/-- No wrap-around, up or down. -/
theorem countedBy_toNat {op : Op Res} {r : Res} {n : UInt32} (hlow : op = .release r → 0 < n.toNat)
    (hhigh : op = .acquire r → n.toNat + 1 < UInt32.size) :
    (countedBy op r n).toNat + op.gives r = n.toNat + op.takes r := by
  unfold countedBy
  split
  · rename_i hop
    rw [hop, Op.gives_acquire, Op.takes_acquire_self, UInt32.toNat_add]
    exact Nat.mod_eq_of_lt (hhigh hop)
  · rename_i hacquire
    split
    · rename_i hop
      have hle : (1 : UInt32) ≤ n := hlow hop
      rw [hop, Op.gives_release_self, Op.takes_release, UInt32.toNat_sub_of_le _ _ hle]
      exact Nat.sub_add_cancel (hlow hop)
    · rename_i hrelease
      rw [Op.gives, Op.takes, decide_eq_false hacquire, decide_eq_false hrelease]

section Perform

variable {s : Srv} {who : Who} {x fd : Nat} {op : Op Res}

theorem make_made (o o' : Obj) : (s.make o').made o = s.made o + if o = o' then 1 else 0 := by
  unfold Srv.make
  dsimp only
  rw [Function.update_apply]
  split
  · rename_i h
    rw [h]
  · rfl

theorem dispose_gone (o o' : Obj) :
    (s.dispose who o').gone o = s.gone o ++ if o = o' then [who] else [] := by
  unfold Srv.dispose
  dsimp only
  rw [Function.update_apply]
  split
  · rename_i h
    rw [h]
  · rw [List.append_nil]

/-- `close` of a connection's own descriptor. -/
theorem close_own (hfd : s.fds fd = some (.socket x)) :
    s.close who fd
      = Srv.dispose { s with fds := Function.update s.fds fd none } who (.socket x) := by
  unfold Srv.close
  rw [hfd]

theorem close_frame :
    (s.close who fd).conns = s.conns ∧ (s.close who fd).main = s.main ∧
      (s.close who fd).waited = s.waited := by
  unfold Srv.close
  dsimp only
  split <;> exact ⟨rfl, rfl, rfl⟩

/-- What no step of a connection changes. -/
theorem perform_frame :
    (s.perform who x fd op).conns = s.conns ∧ (s.perform who x fd op).main = s.main ∧
      (s.perform who x fd op).waited = s.waited := by
  rcases op with _ | r | r
  · exact ⟨rfl, rfl, rfl⟩
  · cases r <;> exact ⟨rfl, rfl, rfl⟩
  · cases r <;> first
      | exact ⟨rfl, rfl, rfl⟩
      | exact close_frame

-- for the lemmas below the descriptor is the connection's own
variable (hfd : op = .release .socket → s.fds fd = some (.socket x))

include hfd

theorem perform_made (o : Obj) :
    (s.perform who x fd op).made o
      = s.made o + if o.idx = x then op.takes o.res else 0 := by
  rcases op with _ | r | r
  · simp [Srv.perform]
  · cases r <;> cases o <;> simp [Srv.perform, make_made, Obj.res, Obj.idx, Op.takes]
  · cases r <;> simp [Srv.perform, Srv.dispose, close_own, hfd]

theorem perform_gone (o : Obj) :
    (s.perform who x fd op).gone o
      = s.gone o ++ if o.idx = x ∧ op = .release o.res then [who] else [] := by
  rcases op with _ | r | r
  · simp [Srv.perform]
  · cases r <;> simp [Srv.perform, Srv.make]
  · cases r <;> cases o <;> simp [Srv.perform, dispose_gone, close_own, hfd, Obj.res, Obj.idx]

theorem perform_fds :
    (s.perform who x fd op).fds
      = if op = .release .socket then Function.update s.fds fd none else s.fds := by
  rcases op with _ | r | r
  · rfl
  · cases r <;> rfl
  · cases r <;> simp [Srv.perform, Srv.dispose, close_own, hfd]

theorem perform_strayCloses : (s.perform who x fd op).strayCloses = s.strayCloses := by
  rcases op with _ | r | r
  · rfl
  · cases r <;> rfl
  · cases r <;> simp [Srv.perform, Srv.dispose, close_own, hfd]

theorem perform_slots (hslot : op = .acquire .slot → 0 < s.slots) :
    (s.perform who x fd op).slots + op.takes .slot = s.slots + op.gives .slot := by
  rcases op with _ | r | r
  · rfl
  · cases r <;> first
      | rfl
      | exact Nat.sub_add_cancel (hslot rfl)
  · cases r <;> first
      | rfl
      | simp [Srv.perform, Srv.dispose, close_own, hfd, Op.gives]

theorem perform_active : (s.perform who x fd op).active = countedBy op .active s.active := by
  rcases op with _ | r | r
  · rfl
  · cases r <;> rfl
  · cases r <;> simp [Srv.perform, Srv.dispose, close_own, hfd, countedBy]

theorem perform_activeConnections :
    (s.perform who x fd op).activeConnections
      = countedBy op .activeConnections s.activeConnections := by
  rcases op with _ | r | r
  · rfl
  · cases r <;> rfl
  · cases r <;> simp [Srv.perform, Srv.dispose, close_own, hfd, countedBy]

end Perform

/-! ## §3. The invariant. -/

/-- What is known of the `x`-th connection. -/
structure ConnOk (s : Srv) (x : Nat) (c : Conn) : Prop where
  socketMade : s.made (.socket x) = 1
  socketGone : s.gone (.socket x) = c.pc.socketGone x
  connMade : s.made (.conn x) = c.pc.connMade.toNat
  connGone : s.gone (.conn x) = c.pc.connGone x
  wrap : s.made (.wrap x) = (s.gone (.wrap x)).length + (c.pc.holds .wrap).toNat
  /-- An open socket is found under its descriptor. -/
  fd : c.pc.holds .socket = true → s.fds c.fd = some (.socket x)
  serving : c.pc.onMain = true → s.main = .serve x

/-- How many connections hold `r`. -/
def Srv.held (s : Srv) (r : Res) : Nat := s.conns.countP fun c => c.pc.holds r

/-- In `server_run`. -/
def MainPc.inLoop : MainPc → Bool
  | .accept | .serve _ => true
  | _ => false

structure Srv.Inv (maxConnections : UInt32) (s : Srv) : Prop where
  slots : s.slots + s.held .slot + s.waited = maxConnections.toNat
  active : s.active.toNat = s.held .active
  activeConnections : s.activeConnections.toNat = s.held .activeConnections
  conns : ∀ x c, s.conns[x]? = some c → ConnOk s x c
  fresh : ∀ o : Obj, s.conns.length ≤ o.idx → s.made o = 0 ∧ s.gone o = []
  strayCloses : s.strayCloses = 0
  waited : s.main.inLoop = true → s.waited = 0

/-- A counted connection has a slot. -/
theorem holds_slot {pc : ConnPc} {r : Res} (hr : r = .active ∨ r = .activeConnections) :
    pc.holds r = true → pc.holds .slot = true := by
  rcases hr with rfl | rfl <;> cases pc <;> decide

theorem held_le {s : Srv} {r : Res} (hr : r = .active ∨ r = .activeConnections) :
    s.held r ≤ s.held .slot :=
  List.countP_mono_left fun _ _ => holds_slot hr

theorem Srv.Inv.held_lt {maxConnections : UInt32} {s : Srv} (h : s.Inv maxConnections) :
    s.held .slot < UInt32.size := by
  have hslots := h.slots
  have hmax : maxConnections.toNat < UInt32.size := maxConnections.toNat_lt
  omega

/-! ## §4. A connection takes a step. -/

section Move

variable {s : Srv} {who : Nat → Who} {x : Nat} {c : Conn} {op : Op Res} {pc' : ConnPc}
  {main' : MainPc}

/-- Only the owner of an open socket closes it. -/
theorem ConnOk.owns (h : ConnOk s x c) (hm : Moves who op c.pc pc') :
    op = .release .socket → s.fds c.fd = some (.socket x) := by
  intro hop
  subst hop
  exact h.fd hm.fits.releases

/-- The connection that steps. -/
theorem ConnOk.move (h : ConnOk s x c) (hm : Moves who op c.pc pc')
    (hmain : pc'.onMain = true → main' = .serve x) :
    ConnOk { s.move (who x) x c op pc' with main := main' } x { c with pc := pc' } := by
  have hfd := h.owns hm
  have hmade : ∀ o : Obj, o.idx = x →
      (s.perform (who x) x c.fd op).made o = s.made o + op.takes o.res := by
    intro o ho
    rw [perform_made hfd, if_pos ho]
  have hgone : ∀ o : Obj, o.idx = x → (s.perform (who x) x c.fd op).gone o
      = s.gone o ++ if op = .release o.res then [who x] else [] := by
    intro o ho
    rw [perform_gone hfd]
    simp only [ho, true_and]
  have hsocket : op.takes .socket = 0 := by
    rw [Op.takes, decide_eq_false hm.noAccept, Bool.toNat_false]
  refine ⟨?_, ?_, ?_, ?_, ?_, ?_, hmain⟩
  · show (s.perform (who x) x c.fd op).made (.socket x) = 1
    rw [hmade _ rfl]
    exact congrArg₂ (· + ·) h.socketMade hsocket
  · show (s.perform (who x) x c.fd op).gone (.socket x) = pc'.socketGone x
    rw [hgone _ rfl, hm.socketGone x, h.socketGone]
    rfl
  · show (s.perform (who x) x c.fd op).made (.conn x) = pc'.connMade.toNat
    rw [hmade _ rfl, hm.connMade, h.connMade]
    rfl
  · show (s.perform (who x) x c.fd op).gone (.conn x) = pc'.connGone x
    rw [hgone _ rfl, hm.connGone x, h.connGone]
    rfl
  · show (s.perform (who x) x c.fd op).made (.wrap x)
      = ((s.perform (who x) x c.fd op).gone (.wrap x)).length + (pc'.holds .wrap).toNat
    have hwrap := h.wrap
    have hfits := hm.fits .wrap
    have hlength : ((s.perform (who x) x c.fd op).gone (.wrap x)).length
        = (s.gone (.wrap x)).length + op.gives .wrap := by
      rw [hgone _ rfl, List.length_append]
      by_cases hop : op = .release .wrap <;> simp [Obj.res, Op.gives, hop]
    rw [hmade _ rfl, hlength]
    show s.made (.wrap x) + op.takes .wrap = _
    omega
  · intro hheld
    show (s.perform (who x) x c.fd op).fds c.fd = some (.socket x)
    have hop : op ≠ .release .socket := by
      intro hop
      rw [hop] at hm
      rw [hm.fits.released] at hheld
      cases hheld
    rw [perform_fds hfd, if_neg hop]
    exact h.fd (hm.fits.held_before hsocket hheld)

/-- The others: their descriptors are different ones. -/
theorem ConnOk.other {y : Nat} {d : Conn} (hy : ConnOk s y d) (hne : y ≠ x) (h : ConnOk s x c)
    (hm : Moves who op c.pc pc') (hmain : s.main = .serve y → main' = .serve y) :
    ConnOk { s.move (who x) x c op pc' with main := main' } y d := by
  have hfd := h.owns hm
  have hmade : ∀ o : Obj, o.idx = y → (s.perform (who x) x c.fd op).made o = s.made o := by
    intro o ho
    rw [perform_made hfd, if_neg (ho ▸ hne), Nat.add_zero]
  have hgone : ∀ o : Obj, o.idx = y → (s.perform (who x) x c.fd op).gone o = s.gone o := by
    intro o ho
    rw [perform_gone hfd, if_neg (fun hx => hne (ho.symm.trans hx.1)), List.append_nil]
  refine ⟨(hmade _ rfl).trans hy.socketMade, (hgone _ rfl).trans hy.socketGone,
    (hmade _ rfl).trans hy.connMade, (hgone _ rfl).trans hy.connGone, ?_, ?_,
    fun hon => hmain (hy.serving hon)⟩
  · show (s.perform (who x) x c.fd op).made (.wrap y)
      = ((s.perform (who x) x c.fd op).gone (.wrap y)).length + (d.pc.holds .wrap).toNat
    rw [hmade _ rfl, hgone _ rfl]
    exact hy.wrap
  · intro hheld
    show (s.perform (who x) x c.fd op).fds d.fd = some (.socket y)
    rw [perform_fds hfd]
    split
    · rename_i hop
      -- two sockets are never open under one descriptor
      have hdiff : d.fd ≠ c.fd := by
        intro heq
        have hsame := (hy.fd hheld).symm.trans (heq ▸ hfd hop)
        cases hsame
        exact hne rfl
      rw [Function.update_of_ne hdiff]
      exact hy.fd hheld
    · exact hy.fd hheld

/-- **A connection takes a step.** -/
theorem move_inv {maxConnections : UInt32} (h : s.Inv maxConnections) (hc : s.conns[x]? = some c)
    (hm : Moves who op c.pc pc') (hslot : op = .acquire .slot → 0 < s.slots)
    (hmain : pc'.onMain = true → main' = .serve x)
    (hothers : ∀ y, y ≠ x → s.main = .serve y → main' = .serve y)
    (hloop : main'.inLoop = true → s.main.inLoop = true) :
    Srv.Inv maxConnections { s.move (who x) x c op pc' with main := main' } := by
  have hok := h.conns x c hc
  have hfd := hok.owns hm
  obtain ⟨hconns, -, hwaited⟩ := @perform_frame s (who x) x c.fd op
  have hlen : x < s.conns.length := (List.getElem?_eq_some_iff.mp hc).1
  have hset : (s.move (who x) x c op pc').conns = s.conns.set x { c with pc := pc' } := by
    show (s.perform (who x) x c.fd op).conns.set x { c with pc := pc' } = _
    rw [hconns]
  have hcount : ∀ r, Srv.held { s.move (who x) x c op pc' with main := main' } r + op.gives r
      = s.held r + op.takes r := by
    intro r
    unfold Srv.held
    dsimp only
    rw [hset]
    have hfits : Fits (fun (c : Conn) r => c.pc.holds r) op c { c with pc := pc' } := hm.fits
    exact hfits.count_set hc r
  have hcounted : ∀ (r : Res) (n : UInt32), r = .active ∨ r = .activeConnections →
      n.toNat = s.held r → (countedBy op r n).toNat
        = Srv.held { s.move (who x) x c op pc' with main := main' } r := by
    intro r n hr hn
    have hlow : op = .release r → 0 < n.toNat := by
      rintro rfl
      rw [hn]
      exact List.countP_pos_iff.mpr ⟨c, List.mem_of_getElem? hc, hm.fits.releases⟩
    -- the counter is one more than before, and the slots are not
    have hhigh : op = .acquire r → n.toNat + 1 < UInt32.size := by
      rintro rfl
      have hne : r ≠ .slot := by rcases hr with rfl | rfl <;> nofun
      have hheld := hcount r
      have hslots := hcount .slot
      rw [Op.gives_acquire, Op.takes_acquire_self] at hheld
      rw [Op.gives_acquire, Op.takes_acquire_of_ne hne] at hslots
      have hle := @held_le { s.move (who x) x c (.acquire r) pc' with main := main' } r hr
      have hlt := h.held_lt
      omega
    have hstep := countedBy_toNat hlow hhigh
    have hr := hcount r
    omega
  refine ⟨?_, ?_, ?_, ?_, ?_, ?_, ?_⟩
  · have hstep : (s.perform (who x) x c.fd op).slots + op.takes .slot = s.slots + op.gives .slot :=
      perform_slots hfd hslot
    have hr := hcount .slot
    have hslots := h.slots
    show (s.perform (who x) x c.fd op).slots + _ + (s.perform (who x) x c.fd op).waited = _
    rw [hwaited]
    omega
  · show (s.perform (who x) x c.fd op).active.toNat = _
    rw [perform_active hfd]
    exact hcounted _ _ (Or.inl rfl) h.active
  · show (s.perform (who x) x c.fd op).activeConnections.toNat = _
    rw [perform_activeConnections hfd]
    exact hcounted _ _ (Or.inr rfl) h.activeConnections
  · intro y d hy
    rw [show Srv.conns { s.move (who x) x c op pc' with main := main' } = _ from hset] at hy
    by_cases hyx : y = x
    · subst hyx
      rw [List.getElem?_set_self hlen] at hy
      cases hy
      exact hok.move hm hmain
    · rw [List.getElem?_set_ne (Ne.symm hyx)] at hy
      exact (h.conns y d hy).other hyx hok hm (hothers y hyx)
  · intro o ho
    rw [show Srv.conns { s.move (who x) x c op pc' with main := main' } = _ from hset,
      List.length_set] at ho
    have hox : o.idx ≠ x := by omega
    obtain ⟨hmade, hgone⟩ := h.fresh o ho
    constructor
    · show (s.perform (who x) x c.fd op).made o = 0
      rw [perform_made hfd, if_neg hox]
      exact hmade
    · show (s.perform (who x) x c.fd op).gone o = []
      rw [perform_gone hfd, if_neg (fun hx => hox hx.1), List.append_nil]
      exact hgone
  · exact (perform_strayCloses hfd).trans h.strayCloses
  · intro hin
    exact hwaited.trans (h.waited (hloop hin))

end Move

/-! ## §5. Every step. -/

/-- The steps of the server. -/
inductive SrvStep (maxConnections : UInt32) (s : Srv) : SrvAct → Srv → Prop where
  | accept (fd : Nat) (hmain : s.main = .accept) (hfree : s.fds fd = none) :
      SrvStep maxConnections s (.accept fd) (s.accept fd)
  | serve (ok : Bool) (x : Nat) (c : Conn) (op : Op Res) (pc' : ConnPc) (hmain : s.main = .serve x)
      (hc : s.conns[x]? = some c) (hm : Moves (fun _ => .acceptLoop) op c.pc pc')
      (hslot : op = .acquire .slot → 0 < s.slots) :
      SrvStep maxConnections s (.serve ok)
        { s.move .acceptLoop x c op pc' with main := if pc'.onMain then .serve x else .accept }
  | thread (ok : Bool) (x : Nat) (c : Conn) (op : Op Res) (pc' : ConnPc)
      (hc : s.conns[x]? = some c) (hm : Moves .thread op c.pc pc') (hslot : op ≠ .acquire .slot)
      (hon : pc'.onMain = false) :
      SrvStep maxConnections s (.thread x ok) (s.move (.thread x) x c op pc')
  | stop (hmain : s.main = .accept) : SrvStep maxConnections s .stop { s with main := .destroy 0 }
  | wait (i : Nat) (hmain : s.main = .destroy i) (hi : i < maxConnections.toNat)
      (hslots : 0 < s.slots) :
      SrvStep maxConnections s .destroy
        { s with slots := s.slots - 1, waited := s.waited + 1, main := .destroy (i + 1) }
  | leave (i : Nat) (hmain : s.main = .destroy i) (hi : maxConnections.toNat ≤ i) :
      SrvStep maxConnections s .destroy { s with main := .done }
  | interrupt (i : Nat) (hmain : s.main = .destroy i) :
      SrvStep maxConnections s .interrupt { s with main := .destroy (i + 1) }
  | openFd (fd : Nat) (hfree : s.fds fd = none) :
      SrvStep maxConnections s (.openFd fd)
        { s with fds := Function.update s.fds fd (some .other) }
  | closeFd (fd : Nat) (hother : s.fds fd = some .other) :
      SrvStep maxConnections s (.closeFd fd) { s with fds := Function.update s.fds fd none }

theorem serve_step {maxConnections : UInt32} {s s' : Srv} {x : Nat} {ok : Bool}
    (hmain : s.main = .serve x) (h : s.serve x ok = some s') :
    SrvStep maxConnections s (.serve ok) s' := by
  unfold Srv.serve at h
  split at h
  · cases h
  · rename_i c hc
    obtain ⟨⟨op, pc'⟩, hrun, heq⟩ := Option.map_eq_some_iff.mp h
    rw [← heq]
    refine .serve ok x c op pc' hmain hc (serverRun_moves hrun) ?_
    -- at `sem_trywait` the outcome is not the environment's
    rintro rfl
    obtain ⟨hmade, hok⟩ := serverRun_slot hrun
    rw [if_pos hmade] at hok
    exact of_decide_eq_true hok

theorem thread_step {maxConnections : UInt32} {s s' : Srv} {x : Nat} {ok : Bool}
    (h : s.thread x ok = some s') : SrvStep maxConnections s (.thread x ok) s' := by
  unfold Srv.thread at h
  split at h
  · cases h
  · rename_i c hc
    obtain ⟨⟨op, pc'⟩, hrun, heq⟩ := Option.map_eq_some_iff.mp h
    rw [← heq]
    refine .thread ok x c op pc' hc (threadEntry_moves hrun) ?_ (threadEntry_onMain hrun).2
    rintro rfl
    exact threadEntry_slot hrun

theorem destroy_step {maxConnections : UInt32} {s s' : Srv} {i : Nat} (hmain : s.main = .destroy i)
    (h : s.connectorDestroy maxConnections i = some s') :
    SrvStep maxConnections s .destroy s' := by
  unfold Srv.connectorDestroy at h
  split at h
  · rename_i hi
    obtain ⟨hslots, heq⟩ := Option.ite_none_right_eq_some.mp h
    cases heq
    exact .wait i hmain hi hslots
  · rename_i hi
    cases h
    exact .leave i hmain (Nat.le_of_not_lt hi)

theorem srv_step {maxConnections : UInt32} {s s' : Srv} {act : SrvAct}
    (h : s.step maxConnections act = some s') : SrvStep maxConnections s act s' := by
  cases act with
  | accept fd =>
    obtain ⟨⟨hmain, hfree⟩, heq⟩ := Option.ite_none_right_eq_some.mp h
    cases heq
    exact .accept fd hmain hfree
  | serve ok =>
    unfold Srv.step at h
    dsimp only at h
    split at h
    · rename_i x hmain
      exact serve_step hmain h
    · cases h
  | thread x ok => exact thread_step h
  | stop =>
    obtain ⟨hmain, heq⟩ := Option.ite_none_right_eq_some.mp h
    cases heq
    exact .stop hmain
  | destroy =>
    unfold Srv.step at h
    dsimp only at h
    split at h
    · rename_i i hmain
      exact destroy_step hmain h
    · cases h
  | interrupt =>
    unfold Srv.step at h
    dsimp only at h
    split at h
    · rename_i i hmain
      obtain ⟨-, heq⟩ := Option.ite_none_right_eq_some.mp h
      cases heq
      exact .interrupt i hmain
    · cases h
  | openFd fd =>
    obtain ⟨hfree, heq⟩ := Option.ite_none_right_eq_some.mp h
    cases heq
    exact .openFd fd hfree
  | closeFd fd =>
    obtain ⟨hother, heq⟩ := Option.ite_none_right_eq_some.mp h
    cases heq
    exact .closeFd fd hother

/-- A step that touches no connection. -/
theorem Srv.Inv.frame {maxConnections : UInt32} {s s' : Srv} (h : s.Inv maxConnections)
    (hconns : s'.conns = s.conns) (hmade : s'.made = s.made) (hgone : s'.gone = s.gone)
    (hactive : s'.active = s.active) (hconnections : s'.activeConnections = s.activeConnections)
    (hstray : s'.strayCloses = s.strayCloses)
    (hfds : ∀ fd x, s.fds fd = some (.socket x) → s'.fds fd = some (.socket x))
    (hserve : ∀ x, s.main = .serve x → s'.main = .serve x)
    (hslots : s'.slots + s'.waited = s.slots + s.waited)
    (hwaited : s'.main.inLoop = true → s'.waited = 0) : s'.Inv maxConnections := by
  have hheld : ∀ r, s'.held r = s.held r := by
    intro r
    unfold Srv.held
    rw [hconns]
  refine ⟨?_, ?_, ?_, ?_, ?_, hstray.trans h.strayCloses, hwaited⟩
  · have := h.slots
    rw [hheld]
    omega
  · rw [hheld, hactive]
    exact h.active
  · rw [hheld, hconnections]
    exact h.activeConnections
  · intro x c hc
    rw [hconns] at hc
    have hok := h.conns x c hc
    refine ⟨?_, ?_, ?_, ?_, ?_, fun hheld => hfds _ _ (hok.fd hheld),
      fun hon => hserve x (hok.serving hon)⟩
    · rw [hmade]
      exact hok.socketMade
    · rw [hgone]
      exact hok.socketGone
    · rw [hmade]
      exact hok.connMade
    · rw [hgone]
      exact hok.connGone
    · rw [hmade, hgone]
      exact hok.wrap
  · rw [hconns, hmade, hgone]
    exact h.fresh

/-- What `accept` does not change: everything of another connection. -/
theorem accept_made {s : Srv} {fd : Nat} (o : Obj) (ho : o.idx ≠ s.conns.length) :
    (s.accept fd).made o = s.made o := by
  refine (make_made o (.socket s.conns.length)).trans ?_
  rw [if_neg (fun heq => ho (congrArg Obj.idx heq)), Nat.add_zero]

theorem ConnOk.accept {s : Srv} {fd x : Nat} {c : Conn} (h : ConnOk s x c)
    (hx : x ≠ s.conns.length) (hmain : s.main = .accept) (hfree : s.fds fd = none) :
    ConnOk (s.accept fd) x c := by
  refine ⟨(accept_made (.socket x) hx).trans h.socketMade, h.socketGone,
    (accept_made (.conn x) hx).trans h.connMade, h.connGone,
    (accept_made (.wrap x) hx).trans h.wrap, ?_, ?_⟩
  · intro hheld
    -- an open socket's descriptor is not free
    have hfd : c.fd ≠ fd := by
      rintro rfl
      exact nomatch hfree.symm.trans (h.fd hheld)
    exact (Function.update_of_ne hfd ..).trans (h.fd hheld)
  · intro hon
    exact nomatch hmain.symm.trans (h.serving hon)

/-- The new connection. -/
theorem accept_ok {maxConnections : UInt32} {s : Srv} (h : s.Inv maxConnections) (fd : Nat) :
    ConnOk (s.accept fd) s.conns.length { fd := fd, pc := .accepted } := by
  have hnew : ∀ o : Obj, o.idx = s.conns.length → s.made o = 0 ∧ s.gone o = [] :=
    fun o ho => h.fresh o (Nat.le_of_eq ho.symm)
  have hmade : ∀ o : Obj, o.idx = s.conns.length → (s.accept fd).made o
      = if o = .socket s.conns.length then 1 else 0 := by
    intro o ho
    refine (make_made o (.socket s.conns.length)).trans ?_
    rw [(hnew o ho).1, Nat.zero_add]
  refine ⟨?_, (hnew _ rfl).2, ?_, (hnew _ rfl).2, ?_, fun _ => Function.update_self .., fun _ => rfl⟩
  · rw [hmade _ rfl, if_pos rfl]
  · rw [hmade _ rfl, if_neg nofun]
    rfl
  · rw [hmade _ rfl, if_neg nofun]
    show 0 = (s.gone (.wrap s.conns.length)).length + 0
    rw [(hnew _ rfl).2]
    rfl

theorem accept_inv {maxConnections : UInt32} {s : Srv} {fd : Nat} (h : s.Inv maxConnections)
    (hmain : s.main = .accept) (hfree : s.fds fd = none) : (s.accept fd).Inv maxConnections := by
  have hheld : ∀ r, ConnPc.holds .accepted r = false → (s.accept fd).held r = s.held r := by
    intro r hr
    show (s.conns ++ [({ fd := fd, pc := .accepted } : Conn)]).countP _ = s.held r
    rw [List.countP_append, List.countP_singleton, if_neg (by rw [hr]; nofun)]
    rfl
  refine ⟨?_, ?_, ?_, ?_, ?_, h.strayCloses, fun _ => h.waited (by rw [hmain]; rfl)⟩
  · rw [hheld _ rfl]
    exact h.slots
  · rw [hheld _ rfl]
    exact h.active
  · rw [hheld _ rfl]
    exact h.activeConnections
  · intro x c hc
    have hget : (s.conns ++ [({ fd := fd, pc := .accepted } : Conn)])[x]? = some c := hc
    rw [List.getElem?_append] at hget
    split at hget
    · rename_i hx
      exact (h.conns x c hget).accept (Nat.ne_of_lt hx) hmain hfree
    · obtain ⟨hx, heq⟩ := List.getElem?_eq_some_iff.mp hget
      rw [List.length_singleton] at hx
      have hxlen : x = s.conns.length := by omega
      subst hxlen
      rw [List.getElem_singleton] at heq
      rw [← heq]
      exact accept_ok h fd
  · intro o ho
    have hlen : s.conns.length + 1 ≤ o.idx := by
      simpa [Srv.accept, Srv.make] using ho
    rw [accept_made o (by omega)]
    exact h.fresh o (by omega)

/-- **Every step keeps the invariant**, an interrupted `sem_wait` included. -/
theorem srv_step_inv {maxConnections : UInt32} {s s' : Srv} {act : SrvAct}
    (h : s.Inv maxConnections) (hstep : s.step maxConnections act = some s') :
    s'.Inv maxConnections := by
  -- the main thread is at no connection, before and behind
  have hdestroy : ∀ (s' : Srv) (i : Nat), s.main = .destroy i →
      ∀ x, s.main = .serve x → s'.main = .serve x :=
    fun s' i hmain x hserve => nomatch hmain.symm.trans hserve
  cases srv_step hstep with
  | accept fd hmain hfree => exact accept_inv h hmain hfree
  | serve ok x c op pc' hmain hc hm hslot =>
    refine move_inv h hc hm hslot ?_ ?_ ?_
    · exact fun hon => if_pos hon
    · intro y hy hserve
      rw [hmain] at hserve
      cases hserve
      exact absurd rfl hy
    · intro _
      rw [hmain]
      rfl
  | thread ok x c op pc' hc hm hslot hon =>
    have hmoved : Srv.Inv maxConnections
        { s.move (.thread x) x c op pc' with main := s.main } :=
      move_inv h hc hm (fun hop => absurd hop hslot)
        (fun hon' => nomatch hon.symm.trans hon') (fun _ _ hserve => hserve) id
    have hmain : (s.move (.thread x) x c op pc').main = s.main := perform_frame.2.1
    rw [← hmain] at hmoved
    exact hmoved
  | stop hmain =>
    exact h.frame rfl rfl rfl rfl rfl rfl (fun _ _ hfd => hfd)
      (fun x hserve => nomatch hmain.symm.trans hserve) rfl nofun
  | wait i hmain hi hslots =>
    refine h.frame rfl rfl rfl rfl rfl rfl (fun _ _ hfd => hfd) (hdestroy _ i hmain) ?_ nofun
    show s.slots - 1 + (s.waited + 1) = s.slots + s.waited
    omega
  | leave i hmain hi =>
    exact h.frame rfl rfl rfl rfl rfl rfl (fun _ _ hfd => hfd) (hdestroy _ i hmain) rfl nofun
  | interrupt i hmain =>
    exact h.frame rfl rfl rfl rfl rfl rfl (fun _ _ hfd => hfd) (hdestroy _ i hmain) rfl nofun
  | openFd fd hfree =>
    refine h.frame rfl rfl rfl rfl rfl rfl ?_ (fun _ hserve => hserve) rfl h.waited
    intro fd' x hfd
    refine (Function.update_of_ne ?_ ..).trans hfd
    rintro rfl
    exact nomatch hfree.symm.trans hfd
  | closeFd fd hother =>
    refine h.frame rfl rfl rfl rfl rfl rfl ?_ (fun _ hserve => hserve) rfl h.waited
    intro fd' x hfd
    refine (Function.update_of_ne ?_ ..).trans hfd
    rintro rfl
    exact nomatch hother.symm.trans hfd

theorem srvStart_inv (maxConnections : UInt32) : (srvStart maxConnections).Inv maxConnections :=
  ⟨rfl, rfl, rfl, (fun _ _ hc => nomatch hc), fun _ _ => ⟨rfl, rfl⟩, rfl, fun _ => rfl⟩

theorem srv_reachable_inv {maxConnections : UInt32} {s : Srv}
    {ok : Srv → SrvAct → Srv → Prop} (h : (connectorSystem maxConnections).ReachableVia ok s) :
    s.Inv maxConnections := by
  refine h.invariant ?_ ?_
  · rintro s rfl
    exact srvStart_inv maxConnections
  · intro s act s' hinv hstep _
    exact srv_step_inv hinv hstep

/-! ## §6. The result. -/

/-- A step that is not an interrupted `sem_wait`. -/
def SrvAct.calm : SrvAct → Bool
  | .interrupt => false
  | _ => true

/-- Nothing is left to do for the connection. -/
def ConnPc.over : ConnPc → Bool
  | .turnedAway | .rejected | .finished => true
  | _ => false

/-- Every call of `sem_wait` has brought a slot. -/
structure Srv.Waited (maxConnections : UInt32) (s : Srv) : Prop where
  destroy : ∀ i, s.main = .destroy i → s.waited = i ∧ i ≤ maxConnections.toNat
  done : s.main = .done → s.waited = maxConnections.toNat

theorem calm_waited {maxConnections : UInt32} {s s' : Srv} {act : SrvAct}
    (hinv : s.Inv maxConnections) (h : s.Waited maxConnections)
    (hstep : s.step maxConnections act = some s') (hcalm : act.calm = true) :
    s'.Waited maxConnections := by
  cases srv_step hstep with
  | accept fd hmain hfree => exact ⟨nofun, nofun⟩
  | serve ok x c op pc' hmain hc hm hslot =>
    have hloop : (if pc'.onMain then MainPc.serve x else .accept).inLoop = true := by
      split <;> rfl
    constructor
    · intro i hi
      rw [show (if pc'.onMain then MainPc.serve x else .accept) = .destroy i from hi] at hloop
      cases hloop
    · intro hdone
      rw [show (if pc'.onMain then MainPc.serve x else .accept) = .done from hdone] at hloop
      cases hloop
  | thread ok x c op pc' hc hm hslot hon =>
    obtain ⟨-, hmain, hwaited⟩ := @perform_frame s (.thread x) x c.fd op
    exact ⟨fun i hi => hwaited ▸ h.destroy i (hmain ▸ hi), fun hd => hwaited ▸ h.done (hmain ▸ hd)⟩
  | stop hmain =>
    refine ⟨?_, nofun⟩
    intro i hi
    cases hi
    exact ⟨hinv.waited (by rw [hmain]; rfl), Nat.zero_le _⟩
  | wait i hmain hi hslots =>
    refine ⟨?_, nofun⟩
    intro j hj
    cases hj
    exact ⟨congrArg (· + 1) (h.destroy i hmain).1, hi⟩
  | leave i hmain hi =>
    refine ⟨nofun, fun _ => ?_⟩
    obtain ⟨hwaited, hle⟩ := h.destroy i hmain
    show s.waited = maxConnections.toNat
    omega
  | interrupt i hmain => cases hcalm
  | openFd fd hfree => exact ⟨h.destroy, h.done⟩
  | closeFd fd hother => exact ⟨h.destroy, h.done⟩

theorem calm_reachable_waited {maxConnections : UInt32} {s : Srv}
    (h : (connectorSystem maxConnections).ReachableVia (fun _ act _ => act.calm = true) s) :
    s.Waited maxConnections := by
  refine h.strengthen (fun s hs => srv_reachable_inv hs) ?_ ?_
  · rintro s rfl
    exact ⟨nofun, nofun⟩
  · intro s act s' hinv hw hstep hcalm
    exact calm_waited hinv hw hstep hcalm

/-- A connection without a slot that the accept loop is not at is over. -/
theorem over_of_released {pc : ConnPc} :
    pc.holds .slot = false → pc.onMain = false → pc.over = true := by
  cases pc <;> decide

theorem over_not_inConnectionRun {pc : ConnPc} : pc.over = true → pc.inConnectionRun = false := by
  cases pc <;> decide

/-- **Slots and sockets are conserved**, for every `max_conn` and every run in which no
`sem_wait` of `connector_destroy` is interrupted.  The semaphore and the slots taken make
up `max_conn`, with those that `connector_destroy` has taken back.  The counters stay
below the taken slots, and are positive when they are counted down.  A socket is closed
and a `connection_t` freed at most once, and exactly once when the connection is over: by
the accept loop when it was rejected and by the thread otherwise.  No `close` hits a
descriptor of anybody else.  And behind the loop of `connector_destroy` every
connection is over. -/
theorem connector_conserves {maxConnections : UInt32} {s : Srv}
    (h : (connectorSystem maxConnections).ReachableVia (fun _ act _ => act.calm = true) s) :
    (s.slots + s.held .slot + s.waited = maxConnections.toNat ∧
      (s.main.inLoop = true → s.slots + s.held .slot = maxConnections.toNat)) ∧
    (s.active.toNat ≤ s.held .slot ∧ s.activeConnections.toNat ≤ s.held .slot) ∧
    (∀ c ∈ s.conns, (c.pc = .returned → 0 < s.active.toNat) ∧
      (c.pc = .leaving → 0 < s.activeConnections.toNat)) ∧
    (∀ x c, s.conns[x]? = some c →
      ((s.gone (.socket x)).length ≤ 1 ∧ (s.gone (.conn x)).length ≤ 1) ∧
      (c.pc = .turnedAway →
        s.gone (.socket x) = [.acceptLoop] ∧ s.made (.conn x) = 0 ∧ s.gone (.conn x) = []) ∧
      (c.pc = .rejected → s.gone (.socket x) = [.acceptLoop] ∧ s.gone (.conn x) = [.acceptLoop]) ∧
      (c.pc = .finished → s.gone (.socket x) = [.thread x] ∧ s.gone (.conn x) = [.thread x])) ∧
    s.strayCloses = 0 ∧
    (s.main = .done → ∀ c ∈ s.conns, c.pc.over = true ∧ c.pc.inConnectionRun = false) := by
  have hinv := srv_reachable_inv h
  have hpos : ∀ {r}, ∀ c ∈ s.conns, c.pc.holds r = true → 0 < s.held r :=
    fun c hc hr => List.countP_pos_iff.mpr ⟨c, hc, hr⟩
  refine ⟨⟨hinv.slots, ?_⟩, ⟨?_, ?_⟩, ?_, ?_, hinv.strayCloses, ?_⟩
  · intro hloop
    have hslots := hinv.slots
    rw [hinv.waited hloop] at hslots
    exact hslots
  · rw [hinv.active]
    exact held_le (Or.inl rfl)
  · rw [hinv.activeConnections]
    exact held_le (Or.inr rfl)
  · intro c hc
    rw [hinv.active, hinv.activeConnections]
    exact ⟨fun hpc => hpos c hc (by rw [hpc]; rfl), fun hpc => hpos c hc (by rw [hpc]; rfl)⟩
  · intro x c hc
    have hok := hinv.conns x c hc
    rw [hok.socketGone, hok.connGone, hok.connMade]
    refine ⟨⟨?_, ?_⟩, ?_, ?_, ?_⟩
    · unfold ConnPc.socketGone
      split <;> simp
    · unfold ConnPc.connGone
      split <;> simp
    · intro hpc
      rw [hpc]
      exact ⟨rfl, rfl, rfl⟩
    · intro hpc
      rw [hpc]
      exact ⟨rfl, rfl⟩
    · intro hpc
      rw [hpc]
      exact ⟨rfl, rfl⟩
  · intro hdone c hc
    have hwaited := (calm_reachable_waited h).done hdone
    have hslots := hinv.slots
    -- `connector_destroy` has every slot, so nobody else has one
    have hnone : s.held .slot = 0 := by omega
    have hslot : c.pc.holds .slot = false := by
      simpa using List.countP_eq_zero.mp hnone c hc
    obtain ⟨x, hx⟩ := List.getElem?_of_mem hc
    have hmain : c.pc.onMain = false := by
      rw [← Bool.not_eq_true]
      intro hon
      exact nomatch hdone.symm.trans ((hinv.conns x c hx).serving hon)
    have hover := over_of_released hslot hmain
    exact ⟨hover, over_not_inConnectionRun hover⟩

/-- The accept loop, up to a connection's thread. -/
def spawnActs (fd : Nat) : List SrvAct := .accept fd :: List.replicate 4 (.serve true)

/-- One slot.  The first connection gets it, the second finds none, the third gets no
`connection_t`, and the fourth, behind the first and with its descriptor, gets no session.
Then the server stops. -/
def fourConnections : List SrvAct :=
  spawnActs 5 ++ spawnActs 6 ++ .accept 7 :: List.replicate 2 (.serve false) ++
  List.replicate 9 (.thread 0 true) ++ spawnActs 5 ++ List.replicate 9 (.thread 3 false) ++
  [.stop, .destroy, .destroy]

theorem connector_conserves_four :
    ∃ s, (connectorSystem 1).ReachableVia (fun _ act _ => act.calm = true) s ∧ s.main = .done ∧
      s.conns = [⟨5, .finished⟩, ⟨6, .rejected⟩, ⟨7, .turnedAway⟩, ⟨5, .finished⟩] ∧
      s.gone (.socket 0) = [.thread 0] ∧ s.gone (.socket 1) = [.acceptLoop] ∧
      s.made (.conn 2) = 0 ∧ s.gone (.conn 3) = [.thread 3] ∧ s.strayCloses = 0 := by
  let check : Srv → Bool := fun s =>
    decide (s.main = .done ∧
      s.conns = [⟨5, .finished⟩, ⟨6, .rejected⟩, ⟨7, .turnedAway⟩, ⟨5, .finished⟩])
  have heval : (((connectorSystem 1).guarded fun _ act => act.calm).run (srvStart 1)
      fourConnections).any check = true := by
    decide +kernel
  have hstep : ∀ (s : Srv) (act : SrvAct) (s' : Srv), True → act.calm = true →
      (connectorSystem 1).step s act = some s' → True ∧ act.calm = true :=
    fun _ _ _ _ hcalm _ => ⟨trivial, hcalm⟩
  obtain ⟨s, hrun, hcheck⟩ := TransitionSystem.exists_of_run check heval
  obtain ⟨hs, -⟩ := TransitionSystem.run_guarded hstep _ _ _ (.init rfl) trivial hrun
  obtain ⟨hdone, hconns⟩ := of_decide_eq_true hcheck
  obtain ⟨-, -, -, hgone, hstray, -⟩ := connector_conserves hs
  obtain ⟨-, -, -, h0⟩ := hgone 0 _ (by rw [hconns]; rfl)
  obtain ⟨-, -, h1, -⟩ := hgone 1 _ (by rw [hconns]; rfl)
  obtain ⟨-, h2, -, -⟩ := hgone 2 _ (by rw [hconns]; rfl)
  obtain ⟨-, -, -, h3⟩ := hgone 3 _ (by rw [hconns]; rfl)
  exact ⟨s, hs, hdone, hconns, (h0 rfl).1, (h1 rfl).1, (h2 rfl).2.1, (h3 rfl).2, hstray⟩

/-- **A signal ends the waiting.**  With one slot and a connection in `run_session`, a
signal that arrives in `sem_wait` is enough for `connector_destroy` to go on. -/
theorem destroy_interrupted :
    ∃ s, (connectorSystem 1).run (srvStart 1)
        (spawnActs 5 ++ List.replicate 4 (.thread 0 true) ++ [.stop, .interrupt, .destroy]) = some s ∧
      s.main = .done ∧ s.conns = [⟨5, .running⟩] ∧ s.gone (.socket 0) = [] := by
  let check : Srv → Bool := fun s =>
    decide (s.main = .done ∧ s.conns = [⟨5, .running⟩] ∧ s.gone (.socket 0) = [])
  have heval : ((connectorSystem 1).run (srvStart 1)
      (spawnActs 5 ++ List.replicate 4 (SrvAct.thread 0 true)
        ++ [SrvAct.stop, SrvAct.interrupt, SrvAct.destroy])).any check = true := by
    decide +kernel
  obtain ⟨s, hrun, hcheck⟩ := TransitionSystem.exists_of_run check heval
  exact ⟨s, hrun, of_decide_eq_true hcheck⟩

end NetServer.Core
