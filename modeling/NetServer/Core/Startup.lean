/-
  NetServer.Core.Startup — the server accepts connections only behind a complete start.

  The invariant says, for each point of `main`, what the calls before it have brought
  about (`Proc.Inv`): the command line has been accepted, the handlers are there, the
  listening sockets are open, the ids are the user's.  From `server_init` on the process
  contains a state of the connector, and every step of the process is a step of the
  connector or leaves it alone.

    • `argsParse_ok`   — what a command line comes to: the last of each option counts;
    • `inv_step`       — a step of the main thread, of a connection's thread, of the
      rest of the process, or a signal;
    • `serving_stays`  — behind the start there is no way out but `server_destroy`;
    • `server_started` — the result.
-/
import NetServer.Core.Main
import NetServer.Core.Slots

namespace NetServer.Core.Main

open NetServer.Lib

/-! ## §1. The command line. -/

/-- The option is in the table and its value in its bounds. -/
def Opt.valid : Opt → Bool
  | .port arg => portBounds.holds arg
  | .httpPort arg => httpPortBounds.holds arg
  | .maxConn arg => maxConnBounds.holds arg
  | .stack arg => stackBounds.holds arg
  | .user _ => true
  | .foreground => true
  | .unknown => false

/-- What a valid option sets. -/
def Opt.set (a : ServerArgs) : Opt → ServerArgs
  | .port arg => { a with port := (strtol arg).toNat.toUInt16 }
  | .httpPort arg => { a with httpPort := (strtol arg).toNat.toUInt16 }
  | .maxConn arg => { a with maxConn := (strtol arg).toNat.toUInt32 }
  | .stack arg => { a with stackKb := (strtol arg).toNat.toUInt32 }
  | .user arg => { a with dropUser := some arg }
  | .foreground => { a with foreground := true }
  | .unknown => a

theorem Bounds.read_eq_ok {b : Bounds} {arg : List UInt8} {v : Nat} (h : b.read arg = .ok v) :
    b.holds arg = true ∧ v = (strtol arg).toNat := by
  unfold Bounds.read at h
  by_cases hb : b.holds arg = true
  · rw [if_pos hb] at h
    cases h
    exact ⟨hb, rfl⟩
  · rw [if_neg hb] at h
    cases h

theorem Bounds.map_read_eq_ok {b : Bounds} {arg : List UInt8} {f : Nat → ServerArgs}
    {a : ServerArgs} (h : (b.read arg).map f = .ok a) :
    b.holds arg = true ∧ a = f (strtol arg).toNat := by
  cases hread : b.read arg with
  | error e =>
    rw [hread] at h
    cases h
  | ok v =>
    rw [hread] at h
    obtain ⟨hb, rfl⟩ := Bounds.read_eq_ok hread
    cases h
    exact ⟨hb, rfl⟩

theorem parseOpt_ok {a a' : ServerArgs} {o : Opt} (h : parseOpt a o = .ok a') :
    o.valid = true ∧ a' = o.set a := by
  cases o with
  | port arg => exact Bounds.map_read_eq_ok h
  | httpPort arg => exact Bounds.map_read_eq_ok h
  | maxConn arg => exact Bounds.map_read_eq_ok h
  | stack arg => exact Bounds.map_read_eq_ok h
  | user arg =>
    cases h
    exact ⟨rfl, rfl⟩
  | foreground =>
    cases h
    exact ⟨rfl, rfl⟩
  | unknown => cases h

/-- What the asserts of `server_init` and `server_add_listener` ask for. -/
structure ServerArgs.InRange (a : ServerArgs) : Prop where
  port : a.port ≠ 0
  maxConn : a.maxConn ≠ 0
  stack : 65536 ≤ a.stackKb.toNat * 1024

theorem Opt.set_inRange {a : ServerArgs} {o : Opt} (h : a.InRange) (ho : o.valid = true) :
    (o.set a).InRange := by
  cases o with
  | port arg =>
    refine ⟨?_, h.maxConn, h.stack⟩
    obtain ⟨hlow, hhigh⟩ : 1 ≤ strtol arg ∧ strtol arg ≤ 65535 := of_decide_eq_true ho
    intro hzero
    have hnat : (strtol arg).toNat.toUInt16.toNat = 0 := congrArg UInt16.toNat hzero
    rw [Nat.toUInt16_eq, UInt16.toNat_ofNat'] at hnat
    omega
  | httpPort arg => exact ⟨h.port, h.maxConn, h.stack⟩
  | maxConn arg =>
    refine ⟨h.port, ?_, h.stack⟩
    obtain ⟨hlow, hhigh⟩ : 1 ≤ strtol arg ∧ strtol arg ≤ 100000 := of_decide_eq_true ho
    intro hzero
    have hnat : (strtol arg).toNat.toUInt32.toNat = 0 := congrArg UInt32.toNat hzero
    rw [Nat.toUInt32_eq, UInt32.toNat_ofNat'] at hnat
    omega
  | stack arg =>
    refine ⟨h.port, h.maxConn, ?_⟩
    obtain ⟨hlow, hhigh⟩ : 64 ≤ strtol arg ∧ strtol arg ≤ 8192 := of_decide_eq_true ho
    show 65536 ≤ (strtol arg).toNat.toUInt32.toNat * 1024
    rw [Nat.toUInt32_eq, UInt32.toNat_ofNat']
    omega
  | user arg => exact ⟨h.port, h.maxConn, h.stack⟩
  | foreground => exact ⟨h.port, h.maxConn, h.stack⟩
  | unknown => exact h

theorem foldlM_parseOpt {opts : List Opt} :
    ∀ {a a' : ServerArgs}, opts.foldlM parseOpt a = .ok a' →
      (∀ o ∈ opts, o.valid = true) ∧ a' = opts.foldl Opt.set a ∧ (a.InRange → a'.InRange) := by
  induction opts with
  | nil =>
    intro a a' h
    cases h
    exact ⟨nofun, rfl, id⟩
  | cons o opts ih =>
    intro a a' h
    rw [List.foldlM_cons] at h
    cases hparse : parseOpt a o with
    | error e =>
      rw [hparse] at h
      cases h
    | ok b =>
      rw [hparse] at h
      obtain ⟨hvalid, rfl⟩ := parseOpt_ok hparse
      obtain ⟨hrest, heq, hrange⟩ := ih h
      exact ⟨List.forall_mem_cons.mpr ⟨hvalid, hrest⟩, heq,
        fun ha => hrange (Opt.set_inRange ha hvalid)⟩

/-- A setting is that of the last option that sets it. -/
theorem foldl_set_last {β : Type} {field : ServerArgs → β} {pick : Opt → Option β}
    (hpick : ∀ a o, field (Opt.set a o) = (pick o).getD (field a)) (opts : List Opt) :
    ∀ a, field (opts.foldl Opt.set a) = ((opts.filterMap pick).getLast?).getD (field a) := by
  induction opts with
  | nil => intro a; rfl
  | cons o opts ih =>
    intro a
    rw [List.foldl_cons, ih, hpick]
    cases hp : pick o with
    | none => rw [List.filterMap_cons_none hp]; rfl
    | some b =>
      rw [List.filterMap_cons_some hp, List.getLast?_cons]
      rfl

def Opt.portArg : Opt → Option UInt16
  | .port arg => some (strtol arg).toNat.toUInt16
  | _ => none

def Opt.httpPortArg : Opt → Option UInt16
  | .httpPort arg => some (strtol arg).toNat.toUInt16
  | _ => none

def Opt.maxConnArg : Opt → Option UInt32
  | .maxConn arg => some (strtol arg).toNat.toUInt32
  | _ => none

def Opt.stackArg : Opt → Option UInt32
  | .stack arg => some (strtol arg).toNat.toUInt32
  | _ => none

def Opt.userArg : Opt → Option (List UInt8)
  | .user arg => some arg
  | _ => none

/-- The settings of a command line: the last of each option, or the default. -/
def settings (opts : List Opt) : ServerArgs where
  port := ((opts.filterMap Opt.portArg).getLast?).getD 23
  httpPort := ((opts.filterMap Opt.httpPortArg).getLast?).getD 8080
  maxConn := ((opts.filterMap Opt.maxConnArg).getLast?).getD 2000
  stackKb := ((opts.filterMap Opt.stackArg).getLast?).getD 256
  dropUser := (opts.filterMap Opt.userArg).getLast?
  foreground := true

theorem foldl_set_foreground (opts : List Opt) :
    ∀ a, a.foreground = true → (opts.foldl Opt.set a).foreground = true := by
  induction opts with
  | nil => intro a ha; exact ha
  | cons o opts ih =>
    intro a ha
    refine ih _ ?_
    cases o <;> first
      | exact ha
      | rfl

/-- What a command line that is accepted comes to. -/
theorem argsParse_ok {opts : List Opt} {a : ServerArgs} (h : argsParse opts = .ok a) :
    (∀ o ∈ opts, o.valid = true) ∧ a = settings opts ∧ a.InRange := by
  obtain ⟨hvalid, heq, hrange⟩ := foldlM_parseOpt h
  refine ⟨hvalid, ?_, hrange ⟨by decide, by decide, by decide⟩⟩
  have hport : a.port = (settings opts).port := by
    rw [heq]
    exact foldl_set_last (fun a o => by cases o <;> rfl) opts defaults
  have hhttp : a.httpPort = (settings opts).httpPort := by
    rw [heq]
    exact foldl_set_last (fun a o => by cases o <;> rfl) opts defaults
  have hmax : a.maxConn = (settings opts).maxConn := by
    rw [heq]
    exact foldl_set_last (fun a o => by cases o <;> rfl) opts defaults
  have hstack : a.stackKb = (settings opts).stackKb := by
    rw [heq]
    exact foldl_set_last (fun a o => by cases o <;> rfl) opts defaults
  have huser : a.dropUser = (settings opts).dropUser := by
    have hlast := @foldl_set_last (Option (List UInt8)) ServerArgs.dropUser
      (fun o => o.userArg.map some) (fun a o => by cases o <;> rfl) opts defaults
    rw [heq, hlast, ← List.map_filterMap, List.getLast?_map]
    show ((opts.filterMap Opt.userArg).getLast?.map some).getD none = _
    cases hcase : (opts.filterMap Opt.userArg).getLast? with
    | none => exact hcase.symm
    | some u => exact hcase.symm
  have hfore : a.foreground = (settings opts).foreground := by
    rw [heq]
    exact foldl_set_foreground opts defaults rfl
  cases a
  cases hport
  cases hhttp
  cases hmax
  cases hstack
  cases huser
  cases hfore
  rfl

/-! ## §2. The connector inside the process. -/

section Connector

variable {maxConn : UInt32} {srv srv' : Srv} {act : SrvAct}

/-- A descriptor that is not a connection's stays open until it is closed as such. -/
theorem srv_step_other (hinv : srv.Inv maxConn) (h : srv.step maxConn act = some srv') {fd : Nat}
    (hfd : srv.fds fd = some .other) (hact : act ≠ .closeFd fd) : srv'.fds fd = some .other := by
  -- a connection closes what is open under its own descriptor
  have hmoved : ∀ {who : Nat → Who} {x : Nat} {c : Conn} {op : Op Res} {pc' : ConnPc},
      srv.conns[x]? = some c → Moves who op c.pc pc' →
        (srv.perform (who x) x c.fd op).fds fd = some .other := by
    intro who x c op pc' hc hm
    have howns := (hinv.conns x c hc).owns hm
    rw [perform_fds howns]
    by_cases hop : op = .release .socket
    · rw [if_pos hop, Function.update_of_ne]
      · exact hfd
      · intro heq
        rw [heq, howns hop] at hfd
        cases hfd
    · rw [if_neg hop]
      exact hfd
  cases srv_step h with
  | accept fd' hmain hfree =>
    refine (Function.update_of_ne ?_ _ _).trans hfd
    intro heq
    rw [heq, hfree] at hfd
    cases hfd
  | serve ok x c op pc' hmain hc hm hslot => exact hmoved hc hm
  | thread ok x c op pc' hc hm hslot hon => exact hmoved hc hm
  | stop hmain => exact hfd
  | wait i hmain hi hslots => exact hfd
  | leave i hmain hi => exact hfd
  | interrupt i hmain => exact hfd
  | openFd fd' hfree =>
    refine (Function.update_of_ne ?_ _ _).trans hfd
    intro heq
    rw [heq, hfree] at hfd
    cases hfd
  | closeFd fd' hother =>
    refine (Function.update_of_ne ?_ _ _).trans hfd
    intro heq
    exact hact (by rw [heq])

theorem srv_step_reachable (h : (connectorSystem maxConn).Reachable srv)
    (hstep : srv.step maxConn act = some srv') : (connectorSystem maxConn).Reachable srv' :=
  .step h hstep trivial

/-- Not the main thread's. -/
def beside : SrvAct → Bool
  | .thread _ _ | .openFd _ | .closeFd _ => true
  | _ => false

theorem beside_main (h : srv.step maxConn act = some srv') (hact : beside act = true) :
    srv'.main = srv.main := by
  cases srv_step h with
  | thread ok x c op pc' hc hm hslot hon => exact perform_frame.2.1
  | openFd fd hfree => rfl
  | closeFd fd hother => rfl
  | _ => cases hact

theorem accept_main {fd : Nat} (h : srv.step maxConn (.accept fd) = some srv') :
    srv'.main = .serve srv.conns.length := by
  cases srv_step h with
  | accept fd hmain hfree => rfl

theorem serve_main {ok : Bool} (h : srv.step maxConn (.serve ok) = some srv') :
    srv'.main = .accept ∨ ∃ x, srv'.main = .serve x := by
  cases srv_step h with
  | serve ok x c op pc' hmain hc hm hslot =>
    by_cases hon : pc'.onMain = true
    · exact Or.inr ⟨x, if_pos hon⟩
    · exact Or.inl (if_neg hon)

theorem stop_main (h : srv.step maxConn .stop = some srv') : srv'.main = .destroy 0 := by
  cases srv_step h with
  | stop hmain => rfl

theorem destroy_main {eintr : Bool}
    (h : srv.step maxConn (if eintr then .interrupt else .destroy) = some srv') :
    srv'.main = .done ∨ ∃ i, srv'.main = .destroy i := by
  cases eintr with
  | true =>
    cases srv_step h with
    | interrupt i hmain => exact Or.inr ⟨i + 1, rfl⟩
  | false =>
    cases srv_step h with
    | wait i hmain hi hslots => exact Or.inr ⟨i + 1, rfl⟩
    | leave i hmain hi => exact Or.inl rfl

end Connector

/-! ## §3. What a step can do. -/

/-- A step of the process. -/
inductive Stepped (users : Users) (s : Proc) : Act → Proc → Prop where
  | main (out : Outcome) {s' : Proc} (h : s.main users out = some s') : Stepped users s (.main out) s'
  | signal (sig : Signal) : Stepped users s (.signal sig) (s.deliver sig)
  | beside {act : Act} (b : SrvAct) {srv : Srv} (hb : beside b = true)
      (h : s.srv.step s.args.maxConn b = some srv) (hconns : s.srv.conns ≠ [])
      (hclose : ∀ fd ∈ s.listening, b ≠ .closeFd fd) (hact : ∀ out, act ≠ .main out) :
      Stepped users s act { s with srv := srv }
  | call (k : Cred.Call) (hconns : s.srv.conns ≠ []) :
      Stepped users s (.call k) { s with cred := s.cred.attempt k }

theorem step_cases {users : Users} {s s' : Proc} {act : Act} (h : s.step users act = some s') :
    s.phase.alive = true ∧ Stepped users s act s' := by
  obtain ⟨halive, h⟩ := Option.ite_none_right_eq_some.mp h
  refine ⟨halive, ?_⟩
  cases act with
  | main out => exact .main out h
  | signal sig =>
    cases h
    exact .signal sig
  | thread x ok =>
    obtain ⟨srv, hstep, rfl⟩ := Option.map_eq_some_iff.mp h
    refine .beside (.thread x ok) rfl hstep ?_ (fun _ _ => SrvAct.noConfusion) (fun _ => Act.noConfusion)
    intro hnil
    change s.srv.thread x ok = some srv at hstep
    unfold Srv.thread at hstep
    rw [hnil] at hstep
    cases hstep
  | openFd fd =>
    obtain ⟨hconns, h⟩ := Option.ite_none_left_eq_some.mp h
    obtain ⟨srv, hstep, rfl⟩ := Option.map_eq_some_iff.mp h
    exact .beside (.openFd fd) rfl hstep hconns (fun _ _ => SrvAct.noConfusion)
      (fun _ => Act.noConfusion)
  | closeFd fd =>
    obtain ⟨hnot, h⟩ := Option.ite_none_left_eq_some.mp h
    obtain ⟨hconns, hlisten⟩ := not_or.mp hnot
    obtain ⟨srv, hstep, rfl⟩ := Option.map_eq_some_iff.mp h
    refine .beside (.closeFd fd) rfl hstep hconns ?_ (fun _ => Act.noConfusion)
    intro fd' hfd' heq
    cases heq
    exact hlisten hfd'
  | call k =>
    obtain ⟨hconns, h⟩ := Option.ite_none_left_eq_some.mp h
    cases h
    exact .call k hconns

/-- A step of `server_run`. -/
inductive LoopStep (s : Proc) (out : Outcome) : LoopPc → Proc → Prop where
  | leave (h : s.shutdown = true) : LoopStep s out .top (s.goto (.shutting 0))
  | poll (h : s.shutdown = false) : LoopStep s out .top (s.goto (.loop .select))
  | interrupted (h : out.eintr = true) (pc : LoopPc) (hpc : pc = .reloading ∨ pc = .top) :
      LoopStep s out .select (s.goto (.loop pc))
  | polled (h : out.eintr = false) (hok : out.ok = true) :
      LoopStep s out .select (s.goto (.loop (.each 0 (Proc.selected s.listeners out.ready))))
  | failed (h : out.eintr = false) (hok : out.ok = false) :
      LoopStep s out .select (s.goto (.shutting 0))
  | reloaded : LoopStep s out .reloading { s with reload := false, phase := .loop .top }
  | round {i : Nat} {ready : List Nat} (h : s.listeners[i]? = none) :
      LoopStep s out (.each i ready) (s.goto (.loop .top))
  | skip {i : Nat} {ready : List Nat} (l : Listener) (h : s.listeners[i]? = some l)
      (hnot : ¬ (l.listenFd ∈ ready ∧ out.ok = true)) :
      LoopStep s out (.each i ready) (s.goto (.loop (.each (i + 1) ready)))
  | accept {i : Nat} {ready : List Nat} (l : Listener) (srv : Srv) (h : s.listeners[i]? = some l)
      (hready : l.listenFd ∈ ready) (hstep : s.srv.step s.args.maxConn (.accept out.fd) = some srv) :
      LoopStep s out (.each i ready) { s with srv := srv, phase := .loop (.serving i ready) }
  | serve {i : Nat} {ready : List Nat} (srv : Srv)
      (hstep : s.srv.step s.args.maxConn (.serve out.ok) = some srv) (hmain : srv.main ≠ .accept) :
      LoopStep s out (.serving i ready) { s with srv := srv, phase := .loop (.serving i ready) }
  | served {i : Nat} {ready : List Nat} (srv : Srv)
      (hstep : s.srv.step s.args.maxConn (.serve out.ok) = some srv) (hmain : srv.main = .accept) :
      LoopStep s out (.serving i ready) { s with srv := srv, phase := .loop (.each (i + 1) ready) }

theorem loop_cases {s s' : Proc} {out : Outcome} {pc : LoopPc} (h : s.serverRun out pc = some s') :
    LoopStep s out pc s' := by
  cases pc with
  | top =>
    change some (s.goto (if s.shutdown then .shutting 0 else .loop .select)) = some s' at h
    cases hshut : s.shutdown with
    | true =>
      rw [hshut, if_pos rfl] at h
      cases h
      exact .leave hshut
    | false =>
      rw [hshut, if_neg Bool.false_ne_true] at h
      cases h
      exact .poll hshut
  | select =>
    unfold Proc.serverRun at h
    dsimp only at h
    cases hintr : out.eintr with
    | true =>
      rw [if_pos hintr] at h
      cases h
      refine .interrupted hintr _ ?_
      cases s.reload
      · exact Or.inr rfl
      · exact Or.inl rfl
    | false =>
      rw [hintr, if_neg Bool.false_ne_true] at h
      cases hok : out.ok with
      | true =>
        rw [if_pos hok] at h
        cases h
        exact .polled hintr hok
      | false =>
        rw [hok, if_neg Bool.false_ne_true] at h
        cases h
        exact .failed hintr hok
  | reloading =>
    cases h
    exact .reloaded
  | each i ready =>
    unfold Proc.serverRun at h
    dsimp only at h
    cases hl : s.listeners[i]? with
    | none =>
      rw [hl] at h
      cases h
      exact .round hl
    | some l =>
      rw [hl] at h
      dsimp only at h
      by_cases hready : l.listenFd ∈ ready ∧ out.ok = true
      · rw [if_pos hready] at h
        obtain ⟨srv, hstep, rfl⟩ := Option.map_eq_some_iff.mp h
        exact .accept l srv hl hready.1 hstep
      · rw [if_neg hready] at h
        cases h
        exact .skip l hl hready
  | serving i ready =>
    obtain ⟨srv, hstep, rfl⟩ := Option.map_eq_some_iff.mp h
    by_cases hmain : srv.main = .accept
    · rw [if_pos hmain]
      exact .served srv hstep hmain
    · rw [if_neg hmain]
      exact .serve srv hstep hmain

/-! ## §4. What the calls before have brought about. -/

/-- The listeners that the settings ask for. -/
def required (a : ServerArgs) : List (UInt16 × Protocol) :=
  (a.port, .telnet) :: if a.httpPort = 0 then [] else [(a.httpPort, .http)]

/-- Behind `server_init`, with listeners on these ports. -/
structure Proc.Ready (opts : List Opt) (ports : List (UInt16 × Protocol)) (s : Proc) : Prop where
  accepted : argsParse opts = .ok s.args
  handled : ∀ sig, sig ∈ s.handled
  reachable : (connectorSystem s.args.maxConn).Reachable s.srv
  nodup : (s.listeners.map Listener.listenFd).Nodup
  ports : s.listeners.map (fun l => (l.port, l.proto)) = ports
  sockets : ∀ fd ∈ s.listening, s.srv.fds fd = some .other

/-- If there is a user to become, the ids are all the user's, and the user is not root. -/
def Dropped (users : Users) (a : ServerArgs) (c : Cred) : Prop :=
  ∀ user, a.dropUser = some user → ∃ pw, users.getpwnam user = some pw ∧ pw.uid ≠ 0
    ∧ c = .ofUser pw.uid pw.gid (users.getgrouplist user pw.gid)

/-- No connection yet. -/
def Idle (srv : Srv) : Prop := srv.main = .accept ∧ srv.conns = []

/-- The user of the command line. -/
def Chosen (users : Users) (a : ServerArgs) (user : List UInt8) (pw : Passwd) : Prop :=
  a.dropUser = some user ∧ users.getpwnam user = some pw

/-- Where the connector's main thread is. -/
def Phase.At : Phase → MainPc → Prop
  | .loop (.serving _ _), pc => ∃ x, pc = .serve x
  | .loop _, pc => pc = .accept
  | .shutting _, pc => pc = .accept
  | .joining, pc => ∃ i, pc = .destroy i
  | _, _ => True

/-- What is known at each point of `main`. -/
def Proc.Inv (users : Users) (opts : List Opt) (s : Proc) : Prop :=
  match s.phase with
  | .start o => o = opts ∧ s.srv.conns = []
  | .signals rest =>
      argsParse opts = .ok s.args ∧ (∀ sig, sig ∈ s.handled ∨ sig ∈ rest) ∧ s.srv.conns = []
  | .init => argsParse opts = .ok s.args ∧ (∀ sig, sig ∈ s.handled) ∧ s.srv.conns = []
  | .telnet => s.Ready opts [] ∧ Idle s.srv
  | .http => s.Ready opts [(s.args.port, .telnet)] ∧ Idle s.srv
  | .drop => s.Ready opts (required s.args) ∧ Idle s.srv
  | .groups user pw => s.Ready opts (required s.args) ∧ Idle s.srv ∧ Chosen users s.args user pw
  | .gid pw => s.Ready opts (required s.args) ∧ Idle s.srv ∧ ∃ user, Chosen users s.args user pw
      ∧ s.cred.privileged = true ∧ s.cred.groups = users.getgrouplist user pw.gid
  | .uid pw => s.Ready opts (required s.args) ∧ Idle s.srv ∧ ∃ user, Chosen users s.args user pw
      ∧ s.cred.privileged = true ∧ s.cred.groups = users.getgrouplist user pw.gid
      ∧ s.cred.group = .same pw.gid
  | .verify => s.Ready opts (required s.args) ∧ Idle s.srv ∧ ∃ user pw, Chosen users s.args user pw
      ∧ s.cred = .ofUser pw.uid pw.gid (users.getgrouplist user pw.gid)
  | .run => s.Ready opts (required s.args) ∧ Idle s.srv ∧ Dropped users s.args s.cred
  | .loop pc => s.Ready opts (required s.args) ∧ Dropped users s.args s.cred
      ∧ (Phase.loop pc).At s.srv.main
  | .shutting i => s.Ready opts (required s.args) ∧ Dropped users s.args s.cred
      ∧ (Phase.shutting i).At s.srv.main
  | .joining => s.Ready opts (required s.args) ∧ Dropped users s.args s.cred
      ∧ Phase.joining.At s.srv.main
  | .closing i => s.Ready opts (required s.args) ∧ Dropped users s.args s.cred
      ∧ (Phase.closing i).At s.srv.main
  | .stopped => argsParse opts = .ok s.args ∧ Dropped users s.args s.cred
  | .usage _ => s.srv.conns = []
  | .aborted _ => s.srv.conns = []
  | .killed _ => s.srv.conns = []
  | .faulted => False

theorem inv_of_inService {users : Users} {opts : List Opt} {s : Proc} (h : s.Inv users opts)
    (hs : s.phase.inService = true) :
    s.Ready opts (required s.args) ∧ Dropped users s.args s.cred ∧ s.phase.At s.srv.main := by
  unfold Proc.Inv at h
  cases hphase : s.phase <;> rw [hphase] at h hs <;> first
    | exact h
    | cases hs

theorem inService_inv {users : Users} {opts : List Opt} {s : Proc} (hs : s.phase.inService = true)
    (h : s.Ready opts (required s.args) ∧ Dropped users s.args s.cred ∧ s.phase.At s.srv.main) :
    s.Inv users opts := by
  unfold Proc.Inv
  cases hphase : s.phase <;> rw [hphase] at h hs <;> first
    | exact h
    | cases hs

/-- Before `server_run` there are no connections. -/
theorem conns_of_starting {users : Users} {opts : List Opt} {s : Proc} (h : s.Inv users opts)
    (halive : s.phase.alive = true) (hs : s.phase.inService = false) : s.srv.conns = [] := by
  unfold Proc.Inv at h
  cases hphase : s.phase <;> rw [hphase] at h halive hs <;> first
    | exact h.2.2
    | exact h.2.1.2
    | exact h.2.2.2
    | exact h.2
    | exact absurd hs Bool.noConfusion
    | exact absurd halive Bool.noConfusion

/-! ## §5. What stays. -/

theorem listening_sub (s : Proc) : ∀ fd ∈ s.listening, fd ∈ s.listeners.map Listener.listenFd := by
  intro fd hfd
  unfold Proc.listening at hfd
  split at hfd
  · exact List.map_subset _ (List.drop_subset _ _) hfd
  · cases hfd
  · exact hfd

section Frame

variable {opts : List Opt} {ports : List (UInt16 × Protocol)} {s s' : Proc}

/-- The connector is left alone, or makes a step that closes no listening socket. -/
def SrvKeeps (s s' : Proc) : Prop :=
  s'.srv = s.srv ∨ ∃ act, s.srv.step s.args.maxConn act = some s'.srv
    ∧ ∀ fd ∈ s'.listening, act ≠ .closeFd fd

/-- A step that goes on with the same listeners. -/
theorem Proc.Ready.next (h : s.Ready opts ports) (hargs : s'.args = s.args)
    (hhandled : s'.handled = s.handled) (hlisteners : s'.listeners = s.listeners)
    (hsub : ∀ fd ∈ s'.listening, fd ∈ s.listening) (hsrv : SrvKeeps s s') :
    s'.Ready opts ports := by
  refine ⟨hargs ▸ h.accepted, hhandled ▸ h.handled, ?_, hlisteners ▸ h.nodup, hlisteners ▸ h.ports, ?_⟩
  · rw [hargs]
    obtain heq | ⟨act, hstep, -⟩ := hsrv
    · rw [heq]
      exact h.reachable
    · exact srv_step_reachable h.reachable hstep
  · intro fd hfd
    have hopen : s.srv.fds fd = some .other := h.sockets fd (hsub fd hfd)
    obtain heq | ⟨act, hstep, hclose⟩ := hsrv
    · rw [heq]
      exact hopen
    · exact srv_step_other (srv_reachable_inv h.reachable) hstep hopen (hclose fd hfd)

/-- Away from a point where all listening sockets are open. -/
theorem listening_next (hall : s.listening = s.listeners.map Listener.listenFd)
    (hlisteners : s'.listeners = s.listeners) : ∀ fd ∈ s'.listening, fd ∈ s.listening := by
  intro fd hfd
  rw [hall, ← hlisteners]
  exact listening_sub s' fd hfd

/-- The phase changes, and nothing that was said about the start. -/
theorem Proc.Ready.goto (h : s.Ready opts ports)
    (hall : s.listening = s.listeners.map Listener.listenFd) (phase : Phase) :
    (s.goto phase).Ready opts ports :=
  h.next rfl rfl rfl (listening_next hall rfl) (Or.inl rfl)

/-- A listener has been added. -/
theorem Proc.Ready.listen (h : s.Ready opts ports)
    (hall : s.listening = s.listeners.map Listener.listenFd) (port : UInt16) (proto : Protocol)
    {fd : Nat} (hfree : s.srv.fds fd = none) (phase : Phase) :
    Proc.Ready opts (ports ++ [(port, proto)])
      { s with
        srv := { s.srv with fds := Function.update s.srv.fds fd (some .other) }
        listeners := s.listeners ++ [⟨port, proto, fd⟩]
        phase := phase } := by
  have hstep : s.srv.step s.args.maxConn (.openFd fd)
      = some { s.srv with fds := Function.update s.srv.fds fd (some .other) } := if_pos hfree
  have hnew : fd ∉ s.listeners.map Listener.listenFd := by
    intro hmem
    have hopen := h.sockets fd (hall ▸ hmem)
    rw [hfree] at hopen
    cases hopen
  refine ⟨h.accepted, h.handled, srv_step_reachable h.reachable hstep, ?_, ?_, ?_⟩
  · show ((s.listeners ++ [(⟨port, proto, fd⟩ : Listener)]).map Listener.listenFd).Nodup
    rw [List.map_append]
    refine List.nodup_append.mpr ⟨h.nodup, List.pairwise_singleton _ _, ?_⟩
    intro a ha b hb hab
    have hafd : a = fd := hab.trans (List.mem_singleton.mp hb)
    exact hnew (hafd ▸ ha)
  · show (s.listeners ++ [(⟨port, proto, fd⟩ : Listener)]).map (fun l => (l.port, l.proto)) = _
    rw [List.map_append, h.ports]
    rfl
  · intro fd' hfd'
    have hmem : fd' ∈ (s.listeners ++ [(⟨port, proto, fd⟩ : Listener)]).map Listener.listenFd :=
      listening_sub _ fd' hfd'
    rw [List.map_append, List.mem_append] at hmem
    rcases hmem with hold | hlast
    · exact srv_step_other (srv_reachable_inv h.reachable) hstep (h.sockets fd' (hall ▸ hold))
        SrvAct.noConfusion
    · rw [List.mem_singleton.mp hlast]
      exact Function.update_self _ _ _

end Frame

/-! ## §6. The main thread. -/

section MainThread

variable {users : Users} {opts : List Opt}

/-- The start goes on, the process ends, or the loop is entered. -/
def Phase.Begins (phase : Phase) : Prop :=
  phase.inService = false ∧ phase ≠ .stopped ∨ phase = .loop .top

theorem inv_serverInit {s : Proc} (haccepted : argsParse opts = .ok s.args)
    (hhandled : ∀ sig, sig ∈ s.handled) (hconns : s.srv.conns = []) (out : Outcome) :
    (s.serverInit out).Inv users opts ∧ (s.serverInit out).phase.Begins := by
  obtain ⟨-, -, hrange⟩ := argsParse_ok haccepted
  unfold Proc.serverInit
  rw [if_neg (not_or.mpr ⟨hrange.maxConn, Nat.not_lt.mpr hrange.stack⟩)]
  by_cases hok : out.ok = true
  · rw [if_pos hok]
    have hreach : (connectorSystem s.args.maxConn).Reachable (srvStart s.args.maxConn) := .init rfl
    exact ⟨⟨⟨haccepted, hhandled, hreach, List.nodup_nil, rfl, nofun⟩, rfl, rfl⟩,
      Or.inl ⟨rfl, Phase.noConfusion⟩⟩
  · rw [if_neg hok]
    exact ⟨hconns, Or.inl ⟨rfl, Phase.noConfusion⟩⟩

/-- `server_add_listener` brings its listener, or ends the process. -/
theorem inv_serverAddListener {s s' : Proc} {ports : List (UInt16 × Protocol)} {port : UInt16}
    {proto : Protocol} {out : Outcome} {next : Phase} (h : s.Ready opts ports) (hidle : Idle s.srv)
    (hall : s.listening = s.listeners.map Listener.listenFd) (hport : port ≠ 0)
    (hnext : ∀ t : Proc, t.phase = next → t.Ready opts (ports ++ [(port, proto)]) → Idle t.srv →
      t.args = s.args → t.Inv users opts) (hbegins : next.Begins)
    (hstep : s.serverAddListener port proto out next = some s') :
    s'.Inv users opts ∧ s'.phase.Begins := by
  unfold Proc.serverAddListener at hstep
  rw [if_neg hport] at hstep
  by_cases hmax : serverMaxListeners ≤ s.listeners.length
  · rw [if_pos hmax] at hstep
    cases hstep
    exact ⟨hidle.2, Or.inl ⟨rfl, Phase.noConfusion⟩⟩
  rw [if_neg hmax] at hstep
  by_cases hok : out.ok = false
  · rw [if_pos hok] at hstep
    cases hstep
    exact ⟨hidle.2, Or.inl ⟨rfl, Phase.noConfusion⟩⟩
  rw [if_neg hok] at hstep
  obtain ⟨hfree, hstep⟩ := Option.ite_none_left_eq_some.mp hstep
  by_cases hbound : out.bound = false
  · rw [if_pos hbound] at hstep
    cases hstep
    exact ⟨hidle.2, Or.inl ⟨rfl, Phase.noConfusion⟩⟩
  rw [if_neg hbound] at hstep
  by_cases hlisten : out.listening = false
  · rw [if_pos hlisten] at hstep
    cases hstep
    exact ⟨hidle.2, Or.inl ⟨rfl, Phase.noConfusion⟩⟩
  rw [if_neg hlisten] at hstep
  cases hstep
  exact ⟨hnext _ rfl (h.listen hall port proto (not_not.mp hfree) next) hidle rfl, hbegins⟩

/-- A call of `drop_privileges` has succeeded, or the process has ended. -/
theorem privCall_cases (s : Proc) (out : Outcome) (k : Cred.Call) (next : Phase) :
    (∃ c, s.cred.call k = some c ∧ s.privCall out k next = { s with cred := c, phase := next })
      ∨ s.privCall out k next = s.goto (.aborted .privDrop) := by
  unfold Proc.privCall
  cases hok : out.ok with
  | false => exact Or.inr rfl
  | true =>
    cases hcall : s.cred.call k with
    | none => exact Or.inr rfl
    | some c => exact Or.inl ⟨c, rfl, rfl⟩

/-- `drop_privileges`, call by call. -/
theorem setgroups_ok {c c' : Cred} {gs : List Nat} (h : c.call (.setgroups gs) = some c') :
    c'.privileged = true ∧ c'.groups = gs := by
  obtain ⟨hpriv, heq⟩ := Option.ite_none_right_eq_some.mp h
  cases heq
  exact ⟨hpriv, rfl⟩

theorem setgid_ok {c c' : Cred} {g : Nat} (hpriv : c.privileged = true)
    (h : c.call (.setgid g) = some c') :
    c'.privileged = true ∧ c'.groups = c.groups ∧ c'.group = .same g := by
  obtain ⟨ids, hset, heq⟩ := Option.map_eq_some_iff.mp h
  unfold Ids.set at hset
  rw [if_pos hpriv] at hset
  cases hset
  cases heq
  exact ⟨hpriv, rfl, rfl⟩

theorem setuid_ok {c c' : Cred} {u : Nat} (hpriv : c.privileged = true)
    (h : c.call (.setuid u) = some c') : c' = ⟨.same u, c.group, c.groups⟩ := by
  obtain ⟨ids, hset, heq⟩ := Option.map_eq_some_iff.mp h
  unfold Ids.set at hset
  rw [if_pos hpriv] at hset
  cases hset
  exact heq.symm

/-- A step of `server_run`. -/
theorem inv_loop {s s' : Proc} {out : Outcome} {pc : LoopPc} (hphase : s.phase = .loop pc)
    (h : s.Inv users opts) (hstep : LoopStep s out pc s') :
    s'.Inv users opts ∧ s'.phase.inService = true := by
  have hservice : s.phase.inService = true := by
    rw [hphase]
    rfl
  obtain ⟨hready, hdropped, hat⟩ := inv_of_inService h hservice
  rw [hphase] at hat
  have hall : s.listening = s.listeners.map Listener.listenFd := by
    unfold Proc.listening
    rw [hphase]
  -- the connector is left alone, or makes one step of its own
  have hgo : ∀ phase : Phase, (s.goto phase).Ready opts (required s.args) := hready.goto hall
  have hmoves : ∀ (act : SrvAct) (srv : Srv) (phase : Phase),
      s.srv.step s.args.maxConn act = some srv → (∀ fd, act ≠ .closeFd fd) →
        Proc.Ready opts (required s.args) { s with srv := srv, phase := phase } := by
    intro act srv phase hsrv hact
    exact hready.next rfl rfl rfl (listening_next hall rfl) (Or.inr ⟨act, hsrv, fun fd _ => hact fd⟩)
  cases hstep with
  | leave hshut => exact ⟨⟨hgo _, hdropped, hat⟩, rfl⟩
  | poll hshut => exact ⟨⟨hgo _, hdropped, hat⟩, rfl⟩
  | interrupted hintr pc' hpc =>
    rcases hpc with rfl | rfl
    · exact ⟨⟨hgo _, hdropped, hat⟩, rfl⟩
    · exact ⟨⟨hgo _, hdropped, hat⟩, rfl⟩
  | polled hintr hok => exact ⟨⟨hgo _, hdropped, hat⟩, rfl⟩
  | failed hintr hok => exact ⟨⟨hgo _, hdropped, hat⟩, rfl⟩
  | reloaded =>
    exact ⟨⟨hready.next rfl rfl rfl (listening_next hall rfl) (Or.inl rfl), hdropped, hat⟩, rfl⟩
  | round hnone => exact ⟨⟨hgo _, hdropped, hat⟩, rfl⟩
  | skip l hl hnot => exact ⟨⟨hgo _, hdropped, hat⟩, rfl⟩
  | accept l srv hl hmem hsrv =>
    exact ⟨⟨hmoves _ srv _ hsrv (fun _ => SrvAct.noConfusion), hdropped, _, accept_main hsrv⟩, rfl⟩
  | serve srv hsrv hmain =>
    refine ⟨⟨hmoves _ srv _ hsrv (fun _ => SrvAct.noConfusion), hdropped, ?_⟩, rfl⟩
    exact (serve_main hsrv).resolve_left hmain
  | served srv hsrv hmain =>
    exact ⟨⟨hmoves _ srv _ hsrv (fun _ => SrvAct.noConfusion), hdropped, hmain⟩, rfl⟩

/-- `server_destroy`, up to the listening sockets. -/
theorem inv_shutting {s s' : Proc} {out : Outcome} {i : Nat} (hphase : s.phase = .shutting i)
    (h : s.Inv users opts) (hstep : s.main users out = some s') :
    s'.Inv users opts ∧ s'.phase.inService = true := by
  obtain ⟨hready, hdropped, hat⟩ := inv_of_inService h (by rw [hphase]; rfl)
  rw [hphase] at hat
  have hall : s.listening = s.listeners.map Listener.listenFd := by
    unfold Proc.listening
    rw [hphase]
  unfold Proc.main at hstep
  rw [hphase] at hstep
  dsimp only at hstep
  by_cases hi : i < s.listeners.length
  · rw [if_pos hi] at hstep
    cases hstep
    exact ⟨⟨hready.goto hall _, hdropped, hat⟩, rfl⟩
  · rw [if_neg hi] at hstep
    obtain ⟨srv, hsrv, rfl⟩ := Option.map_eq_some_iff.mp hstep
    have hnext : Proc.Ready opts (required s.args) { s with srv := srv, phase := .joining } :=
      hready.next rfl rfl rfl (listening_next hall rfl)
        (Or.inr ⟨.stop, hsrv, fun _ _ => SrvAct.noConfusion⟩)
    exact ⟨⟨hnext, hdropped, 0, stop_main hsrv⟩, rfl⟩

theorem inv_joining {s s' : Proc} {out : Outcome} (hphase : s.phase = .joining)
    (h : s.Inv users opts) (hstep : s.main users out = some s') :
    s'.Inv users opts ∧ s'.phase.inService = true := by
  obtain ⟨hready, hdropped, -⟩ := inv_of_inService h (by rw [hphase]; rfl)
  have hall : s.listening = s.listeners.map Listener.listenFd := by
    unfold Proc.listening
    rw [hphase]
  unfold Proc.main at hstep
  rw [hphase] at hstep
  obtain ⟨srv, hsrv, rfl⟩ := Option.map_eq_some_iff.mp hstep
  have hact : ∀ fd, (if out.eintr then SrvAct.interrupt else .destroy) ≠ .closeFd fd := by
    intro fd
    cases out.eintr <;> exact SrvAct.noConfusion
  have hnext : ∀ phase, Proc.Ready opts (required s.args) { s with srv := srv, phase := phase } :=
    fun phase => hready.next rfl rfl rfl (listening_next hall rfl)
      (Or.inr ⟨_, hsrv, fun fd _ => hact fd⟩)
  by_cases hdone : srv.main = .done
  · rw [if_pos hdone]
    exact ⟨⟨hnext _, hdropped, trivial⟩, rfl⟩
  · rw [if_neg hdone]
    exact ⟨⟨hnext _, hdropped, (destroy_main hsrv).resolve_left hdone⟩, rfl⟩

/-- A `close` of `server_destroy` finds its listening socket, and leaves the others. -/
theorem inv_closing {s s' : Proc} {out : Outcome} {i : Nat} (hphase : s.phase = .closing i)
    (h : s.Inv users opts) (hstep : s.main users out = some s') :
    s'.Inv users opts ∧ (s'.phase.inService = true ∨ s'.phase = .stopped) := by
  obtain ⟨hready, hdropped, -⟩ := inv_of_inService h (by rw [hphase]; rfl)
  have hopen : s.listening = (s.listeners.drop i).map Listener.listenFd := by
    unfold Proc.listening
    rw [hphase]
  unfold Proc.main at hstep
  rw [hphase] at hstep
  dsimp only at hstep
  cases hl : s.listeners[i]? with
  | none =>
    rw [hl] at hstep
    cases hstep
    exact ⟨⟨hready.accepted, hdropped⟩, Or.inr rfl⟩
  | some l =>
    rw [hl] at hstep
    cases hstep
    have hdrop : s.listeners.drop i = l :: s.listeners.drop (i + 1) := by
      obtain ⟨hi, hget⟩ := List.getElem?_eq_some_iff.mp hl
      rw [List.drop_eq_getElem_cons hi, hget]
    rw [hdrop, List.map_cons] at hopen
    have hfd : s.srv.fds l.listenFd = some .other :=
      hready.sockets _ (hopen ▸ List.mem_cons_self)
    have hclose : s.srv.step s.args.maxConn (.closeFd l.listenFd)
        = some { s.srv with fds := Function.update s.srv.fds l.listenFd none } := if_pos hfd
    -- the sockets still to be closed have other descriptors
    have hrest : l.listenFd ∉ (s.listeners.drop (i + 1)).map Listener.listenFd := by
      have hnodup : ((s.listeners.drop i).map Listener.listenFd).Nodup := by
        rw [List.map_drop]
        exact hready.nodup.sublist (List.drop_sublist _ _)
      rw [hdrop, List.map_cons] at hnodup
      exact (List.nodup_cons.mp hnodup).1
    refine ⟨⟨hready.next rfl rfl rfl ?_ (Or.inr ⟨_, hclose, ?_⟩), hdropped, trivial⟩, Or.inl rfl⟩
    · intro fd hmem
      rw [hopen]
      exact List.mem_cons_of_mem _ hmem
    · intro fd hmem heq
      cases heq
      exact hrest hmem

/-- A step of the main thread before the loop. -/
theorem inv_starting {s s' : Proc} {out : Outcome} (h : s.Inv users opts)
    (hin : s.phase.inService = false) (hstep : s.main users out = some s') :
    s'.Inv users opts ∧ s'.phase.Begins := by
  obtain ⟨phase, args, cred, handled, shutdown, reload, listeners, srv⟩ := s
  cases phase with
  | start o =>
    obtain ⟨rfl, hconns⟩ : o = opts ∧ srv.conns = [] := h
    unfold Proc.main at hstep
    dsimp only at hstep
    cases hparse : argsParse o with
    | ok a =>
      rw [hparse] at hstep
      cases hstep
      exact ⟨⟨hparse, fun sig => Or.inr (by cases sig <;> decide), hconns⟩, Or.inl ⟨rfl, Phase.noConfusion⟩⟩
    | error e =>
      rw [hparse] at hstep
      cases hstep
      exact ⟨hconns, Or.inl ⟨rfl, Phase.noConfusion⟩⟩
  | signals rest =>
    obtain ⟨haccepted, hhandled, hconns⟩ := h
    cases rest with
    | nil =>
      cases hstep
      exact ⟨⟨haccepted, fun sig => (hhandled sig).resolve_right List.not_mem_nil, hconns⟩,
        Or.inl ⟨rfl, Phase.noConfusion⟩⟩
    | cons sig rest =>
      cases hstep
      refine ⟨⟨haccepted, fun sig' => ?_, hconns⟩, Or.inl ⟨rfl, Phase.noConfusion⟩⟩
      rcases hhandled sig' with hold | hnew
      · exact Or.inl (List.mem_cons_of_mem _ hold)
      · rcases List.mem_cons.mp hnew with rfl | hrest
        · exact Or.inl List.mem_cons_self
        · exact Or.inr hrest
  | init =>
    obtain ⟨haccepted, hhandled, hconns⟩ := h
    cases hstep
    exact inv_serverInit haccepted hhandled hconns out
  | telnet =>
    obtain ⟨hready, hidle⟩ := h
    obtain ⟨-, -, hrange⟩ := argsParse_ok hready.accepted
    refine inv_serverAddListener hready hidle rfl hrange.port ?_ (Or.inl ⟨rfl, Phase.noConfusion⟩) hstep
    intro t hphase hready' hidle' hargs
    unfold Proc.Inv
    rw [hphase]
    exact ⟨by rw [hargs]; exact hready', hidle'⟩
  | http =>
    obtain ⟨hready, hidle⟩ := h
    change (if args.httpPort = 0 then some _ else _) = some s' at hstep
    by_cases hhttp : args.httpPort = 0
    · rw [if_pos hhttp] at hstep
      cases hstep
      refine ⟨⟨?_, hidle⟩, Or.inl ⟨rfl, Phase.noConfusion⟩⟩
      show Proc.Ready opts (required args) _
      unfold required
      rw [if_pos hhttp]
      exact hready.goto rfl _
    · rw [if_neg hhttp] at hstep
      refine inv_serverAddListener hready hidle rfl hhttp ?_ (Or.inl ⟨rfl, Phase.noConfusion⟩) hstep
      intro t hphase hready' hidle' hargs
      unfold Proc.Inv
      rw [hphase]
      refine ⟨?_, hidle'⟩
      rw [hargs]
      unfold required
      rw [if_neg hhttp]
      exact hready'
  | drop =>
    obtain ⟨hready, hidle⟩ := h
    unfold Proc.main at hstep
    dsimp only at hstep
    cases huser : args.dropUser with
    | none =>
      rw [huser] at hstep
      cases hstep
      refine ⟨⟨hready.goto rfl _, hidle, ?_⟩, Or.inl ⟨rfl, Phase.noConfusion⟩⟩
      intro user hsome
      rw [show args.dropUser = some user from hsome] at huser
      cases huser
    | some user =>
      rw [huser] at hstep
      dsimp only at hstep
      cases hpw : users.getpwnam user with
      | none =>
        rw [hpw] at hstep
        cases hstep
        exact ⟨hidle.2, Or.inl ⟨rfl, Phase.noConfusion⟩⟩
      | some pw =>
        rw [hpw] at hstep
        cases hstep
        exact ⟨⟨hready.goto rfl _, hidle, huser, hpw⟩, Or.inl ⟨rfl, Phase.noConfusion⟩⟩
  | groups user pw =>
    obtain ⟨hready, hidle, hchosen⟩ := h
    have heq := Option.some.inj hstep
    rcases privCall_cases _ out (.setgroups (users.getgrouplist user pw.gid)) (.gid pw)
      with ⟨c, hcall, hnext⟩ | habort
    · rw [← heq, hnext]
      exact ⟨⟨hready.next rfl rfl rfl (fun _ hfd => hfd) (Or.inl rfl), hidle, user, hchosen,
        setgroups_ok hcall⟩, Or.inl ⟨rfl, Phase.noConfusion⟩⟩
    · rw [← heq, habort]
      exact ⟨hidle.2, Or.inl ⟨rfl, Phase.noConfusion⟩⟩
  | gid pw =>
    obtain ⟨hready, hidle, user, hchosen, hpriv, hgroups⟩ := h
    have heq := Option.some.inj hstep
    rcases privCall_cases _ out (.setgid pw.gid) (.uid pw) with ⟨c, hcall, hnext⟩ | habort
    · rw [← heq, hnext]
      obtain ⟨hpriv', hgroups', hgroup⟩ := setgid_ok hpriv hcall
      exact ⟨⟨hready.next rfl rfl rfl (fun _ hfd => hfd) (Or.inl rfl), hidle, user, hchosen, hpriv',
        hgroups'.trans hgroups, hgroup⟩, Or.inl ⟨rfl, Phase.noConfusion⟩⟩
    · rw [← heq, habort]
      exact ⟨hidle.2, Or.inl ⟨rfl, Phase.noConfusion⟩⟩
  | uid pw =>
    obtain ⟨hready, hidle, user, hchosen, hpriv, hgroups, hgroup⟩ := h
    have heq := Option.some.inj hstep
    rcases privCall_cases _ out (.setuid pw.uid) .verify with ⟨c, hcall, hnext⟩ | habort
    · rw [← heq, hnext]
      refine ⟨⟨hready.next rfl rfl rfl (fun _ hfd => hfd) (Or.inl rfl), hidle, user, pw, hchosen, ?_⟩,
        Or.inl ⟨rfl, Phase.noConfusion⟩⟩
      show c = Cred.ofUser pw.uid pw.gid (users.getgrouplist user pw.gid)
      rw [setuid_ok hpriv hcall, hgroups, hgroup]
      rfl
    · rw [← heq, habort]
      exact ⟨hidle.2, Or.inl ⟨rfl, Phase.noConfusion⟩⟩
  | verify =>
    obtain ⟨hready, hidle, user, pw, hchosen, hcred⟩ := h
    change some (Proc.goto _ (if cred.user.real = 0 then .aborted .privDrop else .run)) = some s'
      at hstep
    by_cases hroot : cred.user.real = 0
    · rw [if_pos hroot] at hstep
      cases hstep
      exact ⟨hidle.2, Or.inl ⟨rfl, Phase.noConfusion⟩⟩
    · rw [if_neg hroot] at hstep
      cases hstep
      refine ⟨⟨hready.goto rfl _, hidle, ?_⟩, Or.inl ⟨rfl, Phase.noConfusion⟩⟩
      intro user' huser'
      have hsame : user = user' := Option.some.inj (hchosen.1.symm.trans huser')
      subst hsame
      have hcred' : cred = Cred.ofUser pw.uid pw.gid (users.getgrouplist user pw.gid) := hcred
      refine ⟨pw, hchosen.2, ?_, hcred'⟩
      rw [hcred'] at hroot
      exact hroot
  | run =>
    obtain ⟨hready, hidle, hdropped⟩ := h
    -- the telnet listener is there
    have hsome : listeners ≠ [] := by
      intro hnil
      have hports : listeners.map (fun l => (l.port, l.proto)) = required args := hready.ports
      rw [hnil] at hports
      cases hports
    change some (Proc.goto _ (if listeners = [] then .faulted else .loop .top)) = some s' at hstep
    rw [if_neg hsome] at hstep
    cases hstep
    exact ⟨⟨hready.goto rfl _, hdropped, hidle.1⟩, Or.inr rfl⟩
  | loop pc => cases hin
  | shutting i => cases hin
  | joining => cases hin
  | closing i => cases hin
  | stopped => cases hstep
  | usage e => cases hstep
  | aborted e => cases hstep
  | killed sig => cases hstep
  | faulted => cases hstep

end MainThread

/-! ## §7. Everybody. -/

section Everybody

variable {users : Users} {opts : List Opt} {s s' : Proc}

/-- `sig_handler` sets a flag. -/
theorem deliver_handled {sig : Signal} (h : sig ∈ s.handled) :
    ∃ asked reload, s.deliver sig = { s with shutdown := s.shutdown || asked, reload := reload } := by
  unfold Proc.deliver
  rw [if_pos h]
  cases sig with
  | int => exact ⟨true, s.reload, by rw [Bool.or_true]⟩
  | term => exact ⟨true, s.reload, by rw [Bool.or_true]⟩
  | hup => exact ⟨false, true, by rw [Bool.or_false]⟩
  | pipe => exact ⟨false, s.reload, by rw [Bool.or_false]⟩

theorem deliver_unhandled {sig : Signal} (h : sig ∉ s.handled) :
    s.deliver sig = s.goto (.killed sig) := if_neg h

/-- The flags are not part of the invariant. -/
theorem Proc.Inv.flags (h : s.Inv users opts) (shutdown reload : Bool) :
    Proc.Inv users opts { s with shutdown := shutdown, reload := reload } := by
  have hready : ∀ {ports}, s.Ready opts ports →
      Proc.Ready opts ports { s with shutdown := shutdown, reload := reload } :=
    fun hr => ⟨hr.accepted, hr.handled, hr.reachable, hr.nodup, hr.ports, hr.sockets⟩
  obtain ⟨phase, args, cred, handled, _, _, listeners, srv⟩ := s
  cases phase <;> first
    | exact h
    | exact ⟨hready h.1, h.2⟩

theorem attempt_dropped {a : ServerArgs} {c : Cred} (h : Dropped users a c) (k : Cred.Call) :
    Dropped users a (c.attempt k) := by
  intro user huser
  obtain ⟨pw, hpw, hroot, hcred⟩ := h user huser
  refine ⟨pw, hpw, hroot, ?_⟩
  rw [hcred]
  exact Cred.attempt_ofUser hroot k

/-- Nothing but the main thread changes the phase of a process in service. -/
theorem inv_service {act : Act} (h : s.Inv users opts) (hservice : s.phase.inService = true)
    (hstep : Stepped users s act s') :
    s'.Inv users opts ∧ (s'.phase.inService = true ∨ s'.phase = .stopped) := by
  obtain ⟨hready, hdropped, hat⟩ := inv_of_inService h hservice
  cases hstep with
  | main out hmain =>
    cases hphase : s.phase with
    | loop pc =>
      have hloop : s.serverRun out pc = some s' := by
        unfold Proc.main at hmain
        rw [hphase] at hmain
        exact hmain
      obtain ⟨hinv, hin⟩ := inv_loop hphase h (loop_cases hloop)
      exact ⟨hinv, Or.inl hin⟩
    | shutting i =>
      obtain ⟨hinv, hin⟩ := inv_shutting hphase h hmain
      exact ⟨hinv, Or.inl hin⟩
    | joining =>
      obtain ⟨hinv, hin⟩ := inv_joining hphase h hmain
      exact ⟨hinv, Or.inl hin⟩
    | closing i => exact inv_closing hphase h hmain
    | _ =>
      rw [hphase] at hservice
      cases hservice
  | signal sig =>
    obtain ⟨asked, reload, heq⟩ := deliver_handled (hready.handled sig)
    rw [heq]
    exact ⟨h.flags _ reload, Or.inl hservice⟩
  | beside b hb hsrv hconns hclose hact =>
    refine ⟨inService_inv hservice ⟨?_, hdropped, ?_⟩, Or.inl hservice⟩
    · exact hready.next rfl rfl rfl (fun _ hfd => hfd) (Or.inr ⟨b, hsrv, hclose⟩)
    · exact (beside_main hsrv hb).symm ▸ hat
  | call k hconns =>
    refine ⟨inService_inv hservice ⟨?_, attempt_dropped hdropped k, hat⟩, Or.inl hservice⟩
    exact hready.next rfl rfl rfl (fun _ hfd => hfd) (Or.inl rfl)

/-- A step of anybody. -/
theorem inv_step {act : Act} (h : s.Inv users opts) (hstep : s.step users act = some s') :
    s'.Inv users opts := by
  obtain ⟨halive, hcases⟩ := step_cases hstep
  by_cases hservice : s.phase.inService = true
  · exact (inv_service h hservice hcases).1
  have hconns : s.srv.conns = [] := conns_of_starting h halive (Bool.eq_false_iff.mpr hservice)
  cases hcases with
  | main out hmain => exact (inv_starting h (Bool.eq_false_iff.mpr hservice) hmain).1
  | signal sig =>
    by_cases hsig : sig ∈ s.handled
    · obtain ⟨asked, reload, heq⟩ := deliver_handled hsig
      rw [heq]
      exact h.flags _ reload
    · rw [deliver_unhandled hsig]
      exact hconns
  | beside b hb hsrv hsome hclose hact => exact absurd hconns hsome
  | call k hsome => exact absurd hconns hsome

theorem main_reachable_inv (h : (mainSystem users opts).Reachable s) : s.Inv users opts := by
  refine h.invariant ?_ ?_
  · intro s hinit
    obtain ⟨cred, rfl⟩ := hinit
    exact ⟨rfl, rfl⟩
  · intro s act s' hinv hstep _
    exact inv_step hinv hstep

/-- What was said about the start holds to the end. -/
theorem inv_behind (h : s.Inv users opts)
    (hphase : s.phase.inService = true ∨ s.phase = .stopped) :
    argsParse opts = .ok s.args ∧ Dropped users s.args s.cred := by
  rcases hphase with hin | hstopped
  · obtain ⟨hready, hdropped, -⟩ := inv_of_inService h hin
    exact ⟨hready.accepted, hdropped⟩
  · unfold Proc.Inv at h
    rw [hstopped] at h
    exact h

/-- Behind the start there is no way out but `server_destroy`. -/
theorem serving_stays (hs : (mainSystem users opts).Reachable s) (hservice : s.phase.inService = true)
    {t : Proc} (ht : ((mainSystem users opts).startingAt s).Reachable t) :
    t.phase.inService = true ∨ t.phase = .stopped := by
  refine hs.invariant_from (P := fun t => t.phase.inService = true ∨ t.phase = .stopped)
    (Or.inl hservice) ?_ ht
  intro u act u' hu hphase hstep _
  obtain ⟨halive, hcases⟩ := step_cases hstep
  have hin : u.phase.inService = true := by
    rcases hphase with hin | hstopped
    · exact hin
    · rw [hstopped] at halive
      cases halive
  exact (inv_service (main_reachable_inv hu) hin hcases).2

end Everybody

/-! ## §8. The result. -/

/-- One user beside root. -/
def nobodyOnly : Users where
  getpwnam := fun name => if name = ascii "nobody" then some ⟨65534, 65534⟩ else none
  getgrouplist := fun _ gid => [gid]

def nobodyOpts : List Opt := [.port (ascii "2323"), .user (ascii "nobody"), .port (ascii "23")]

/-- Started by root: the handlers, two sockets, the drop, and a connection whose thread asks for
root's id. -/
def nobodyActs : List Act :=
  List.replicate 7 (.main { }) ++ [.main { fd := 3 }, .main { fd := 4 }]
    ++ List.replicate 7 (.main { })
    ++ [.signal .pipe, .main { ready := [4] }, .main { }, .main { fd := 5 }]
    ++ List.replicate 4 (.main { }) ++ [.call (.setuid 0)]

end NetServer.Core.Main
