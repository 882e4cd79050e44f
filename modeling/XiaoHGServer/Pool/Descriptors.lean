import XiaoHGServer.Library.Leases
import XiaoHGServer.Pool.Uses
import XiaoHGServer.Send.Moves

/-!
# Who closes which descriptor

`accept` gives a descriptor to a connection, and the server receives, sends and
closes through connections. The log of what happens to descriptors is read off
the system calls. `sockFd` is a `uint16_t`: it cannot hold every descriptor, and
after `sockFd = -1` it holds 65535, so that the test `sockFd != -1` never stops a
second `close`.
-/

namespace XiaoHGServer

/-- The events of the process, and `CloseConnectionImmediately`. -/
inductive FdEvent
  | process (e : Event)
  | closeConnectionImmediately (c : ConnId)
  deriving DecidableEq, Repr

def SysCall.lease : SysCall → Lease ℕ ConnId
  | .recv c fd _ => .used c fd
  | .send c fd _ _ => .used c fd
  | .close o fd => .released o fd

/-- The descriptor that the `do` loop of `EpollEventAcceptHandler` ends with. -/
def acceptedFd (iIsAccept4 : Bool) : List AcceptRet → Option ℕ
  | [] => none
  | .accepted fd :: _ => some fd
  | .nosys :: rets => if iIsAccept4 then acceptedFd false rets else none
  | .error :: _ => none

namespace Server

variable {s t : Server} {c d : ConnId} {e : Event} {log : List (Lease ℕ ConnId)}

def fdEnabled (s : Server) : FdEvent → Prop
  | .process e => s.Enabled e
  | .closeConnectionImmediately c => s.IsClient c

/-- `CloseConnectionImmediately` ends the use of the connection. -/
def fdNext (s : Server) : FdEvent → Option Server
  | .process e => s.next e
  | .closeConnectionImmediately c =>
    let t := s.closeConnectionImmediately c
    some { t with pool := { t.pool with clients := t.pool.clients.erase c } }

def newCalls (s t : Server) : List SysCall :=
  t.kernel.calls.take (t.kernel.calls.length - s.kernel.calls.length)

/-- The connection that a new descriptor is for, unless it is turned away. -/
def admittedConn (s : Server) : Option ConnId :=
  if s.tooManyUsers ∨ s.poolExhausted then none else some s.pool.front

def acceptedConn (s : Server) (env : HandlerEnv) : Option ConnId :=
  (acceptedFd s.iIsAccept4 env.accept).bind fun _ => s.admittedConn

def acceptLease (s : Server) : FdEvent → List (Lease ℕ ConnId)
  | .process (.accept env) =>
    match acceptedFd s.iIsAccept4 env.accept with
    | some fd => [.acquired fd s.admittedConn]
    | none => []
  | _ => []

def leases (s : Server) (e : FdEvent) : List (Lease ℕ ConnId) :=
  match s.fdNext e with
  | some t => (newCalls s t).map SysCall.lease ++ s.acceptLease e
  | none => []

/-- The connection that a step issues system calls through. -/
def callsThrough (s : Server) : FdEvent → Option ConnId
  | .process (.read c _) => some c
  | .process (.write c _) => some c
  | .process (.iterate env) => s.starts (.iterate env)
  | .process e => s.closes e
  | .closeConnectionImmediately c => some c

/-- System calls are issued through connections in use only, and the descriptors of clients fit
into `sockFd`. -/
def KeepsDescriptors (s : Server) (e : FdEvent) : Prop :=
  (∀ c ∈ s.callsThrough e, c ∈ s.pool.clients) ∧
  match e with
  | .process (.accept env) =>
    s.admittedConn.isSome → ∀ fd ∈ acceptedFd s.iIsAccept4 env.accept, fd < 2 ^ 16
  | _ => True

/-- Every call is on the descriptor of the present use of its connection, and after it was returned
by `accept` a descriptor is closed once, unless its connection is still in use. -/
structure DescriptorsOwned (s : Server) (log : List (Lease ℕ ConnId)) : Prop where
  disciplined : Lease.Disciplined log
  inUse : ∀ c, c ∈ s.pool.clients ↔ ∃ fd, Lease.held log c = some fd
  once : ∀ pre fd o post, log = pre ++ .acquired fd o :: post → (∀ o', .acquired fd o' ∉ pre) →
    Lease.releases fd pre = 0 ∧ (∃ c ∈ s.pool.clients, o = some c ∧ Lease.held log c = some fd) ∨
      Lease.releases fd pre = 1 ∧ ∀ c, Lease.held log c ≠ some fd

end Server

def descriptors : System Server FdEvent :=
  .ofNext Server.Booted Server.fdEnabled Server.fdNext

namespace Server

variable {s t : Server} {c d : ConnId} {e : Event} {log : List (Lease ℕ ConnId)}

theorem acceptClient_outcome {fd : ℕ} {env : HandlerEnv} (h : s.acceptClient fd env = some t) :
    s.admittedConn = none ∧
        t = { s with kernel := ⟨s.kernel.openFds, .close none fd :: s.kernel.calls⟩ } ∨
      s.admittedConn = some s.pool.front ∧ t = s.admitted fd env.now := by
  have hcases := acceptClient_cases h
  unfold acceptClient at h
  dsimp only at h
  split_ifs at h with h₁ h₂ h₃ h₄
  · refine Or.inl ⟨if_pos (Or.inl h₁), ?_⟩
    rw [← Option.some.inj h]
    simp [closeFd]
  · refine Or.inl ⟨if_pos (Or.inr h₂), ?_⟩
    rw [← Option.some.inj h]
    simp [closeFd]
  · refine Or.inr ⟨if_neg (not_or.mpr ⟨h₁, h₂⟩), hcases.resolve_left ?_⟩
    rintro ⟨b, calls, rfl, -⟩
    have hclients := congrArg (fun s => s.pool.clients.length) (Option.some.inj h)
    simp only [goOnLine, List.length_cons, startTimer] at hclients
    split_ifs at hclients <;>
      simp [installClient, epollRegisterEvent, getConnection,
        (getConnection_pool s.pool).2] at hclients

/-- The accept handler returns without a descriptor, turns one away, or takes a client in. -/
theorem accept_outcome {env : HandlerEnv} (h : s.epollEventAcceptHandler env = some t) :
    acceptedFd s.iIsAccept4 env.accept = none ∧ (∃ b, t = { s with iIsAccept4 := b }) ∨
    ∃ fd b, acceptedFd s.iIsAccept4 env.accept = some fd ∧
      (s.admittedConn = none ∧ t = { s with
          iIsAccept4 := b
          kernel := ⟨s.kernel.openFds, .close none fd :: s.kernel.calls⟩ } ∨
        s.admittedConn = some s.pool.front ∧
          t = { s.admitted fd env.now with iIsAccept4 := b }) := by
  have loop : ∀ (rets : List AcceptRet) (s : Server), s.acceptLoop env rets = some t →
      acceptedFd s.iIsAccept4 rets = none ∧ (∃ b, t = { s with iIsAccept4 := b }) ∨
      ∃ fd b, acceptedFd s.iIsAccept4 rets = some fd ∧
        (s.admittedConn = none ∧ t = { s with
            iIsAccept4 := b
            kernel := ⟨s.kernel.openFds, .close none fd :: s.kernel.calls⟩ } ∨
          s.admittedConn = some s.pool.front ∧
            t = { s.admitted fd env.now with iIsAccept4 := b }) := by
    intro rets
    induction rets with
    | nil =>
      intro s h
      exact Or.inl ⟨rfl, s.iIsAccept4, (Option.some.inj h).symm⟩
    | cons r rets ih =>
      intro s h
      cases r with
      | accepted fd =>
        exact Or.inr ⟨fd, s.iIsAccept4, rfl, acceptClient_outcome h⟩
      | nosys =>
        simp only [acceptLoop] at h
        simp only [acceptedFd]
        split_ifs at h ⊢ with hb
        · exact ih _ h
        · exact Or.inl ⟨rfl, s.iIsAccept4, (Option.some.inj h).symm⟩
      | error => exact Or.inl ⟨rfl, s.iIsAccept4, (Option.some.inj h).symm⟩
  exact loop env.accept s h

/-- The accept handler takes a client in, or leaves everything but descriptors alone. -/
theorem accept_taken {env : HandlerEnv} (h : s.epollEventAcceptHandler env = some t) :
    s.acceptedConn env = none ∧
        (∃ b k, t = { s with iIsAccept4 := b, kernel := ⟨s.kernel.openFds, k⟩ }) ∨
      s.acceptedConn env = some s.pool.front ∧ s.tooManyUsers = false ∧
        ∃ fd b, t = { s.admitted fd env.now with iIsAccept4 := b } := by
  rcases accept_outcome h with ⟨hnone, b, rfl⟩ | ⟨fd, b, hfd, ⟨hno, rfl⟩ | ⟨hsome, rfl⟩⟩
  · exact Or.inl ⟨by rw [acceptedConn, hnone]; rfl, b, s.kernel.calls, rfl⟩
  · exact Or.inl ⟨by rw [acceptedConn, hfd]; exact hno, b, _, rfl⟩
  · have hfew : s.tooManyUsers = false := by
      unfold admittedConn at hsome
      split_ifs at hsome with hfull
      exact Bool.eq_false_iff.mpr (not_or.mp hfull).1
    exact Or.inr ⟨by rw [acceptedConn, hfd]; exact hsome, hfew, fd, b, rfl⟩

/-- The calls of a step that takes no client in. They are all issued through one connection, and
the last of them may close it. -/
inductive CallMove (s : Server) (e : Event) (t : Server) : Prop
  | calls (new : List SysCall) : s.closes e = none →
      t.kernel = ⟨s.kernel.openFds, new ++ s.kernel.calls⟩ →
      (∀ x ∈ new, ∃ c ∈ s.callsThrough (.process e), x.lease = .used c (s.conn c).sockFd) →
      (∀ d, (t.conn d).sockFd = (s.conn d).sockFd) → CallMove s e t
  | close (c : ConnId) (new : List SysCall) : s.closes e = some c →
      t.kernel = ⟨s.kernel.openFds.erase (s.conn c).sockFd,
        .close (some c) (s.conn c).sockFd :: (new ++ s.kernel.calls)⟩ →
      (∀ x ∈ new, ∃ c ∈ s.callsThrough (.process e), x.lease = .used c (s.conn c).sockFd) →
      (∀ d, d ≠ c → (t.conn d).sockFd = (s.conn d).sockFd) → CallMove s e t

theorem CallMove.quiet (hc : s.closes e = none) (hk : t.kernel = s.kernel)
    (hfd : ∀ d, (t.conn d).sockFd = (s.conn d).sockFd) : CallMove s e t :=
  .calls [] hc hk (by simp) hfd

theorem CallMove.of_close (now : ℤ) (hc : s.closes e = some c)
    (hk : t.kernel = (s.closeConnectionToRecy c now).kernel)
    (hfd : ∀ d, (t.conn d).sockFd = ((s.closeConnectionToRecy c now).conn d).sockFd) :
    CallMove s e t := by
  refine .close c [] hc ?_ (by simp) fun d hd => ?_
  · rw [hk, closeConnectionToRecy_eq]
    rfl
  · rw [hfd, closeConnectionToRecy_eq]
    simp [hd]

theorem lease_sendCalls {fd : ℕ} {data : List Byte} {env : SendEnv} :
    ∀ x ∈ sendCalls c fd data env, x.lease = .used c fd := by
  intro x hx
  rcases List.mem_cons.mp hx with rfl | hx
  · rfl
  · rw [List.eq_of_mem_replicate hx]
    rfl

theorem read_callMove {env : HandlerEnv} (h : s.next (.read c env) = some t) :
    CallMove s (.read c env) t := by
  obtain rfl := Option.some.inj h
  obtain ⟨q, r, f, hform⟩ := onlyRecv_readBase s c env.recv env.currTime
  set u := (s.readBase c env.recv env.currTime).1
  have hkernel : u.kernel = ⟨s.kernel.openFds,
      [.recv c (s.conn c).sockFd (s.conn c).recv.recvMsgLen] ++ s.kernel.calls⟩ := by
    rw [hform]
    rfl
  have hfd (d : ConnId) : (u.conn d).sockFd = (s.conn d).sockFd := by
    rw [hform]
    exact update_field Connection.sockFd (by rfl) d
  have hnew : ∀ x ∈ [SysCall.recv c (s.conn c).sockFd (s.conn c).recv.recvMsgLen],
      ∃ d ∈ s.callsThrough (.process (.read c env)), x.lease = .used d (s.conn d).sockFd := by
    intro x hx
    rw [List.mem_singleton.mp hx]
    exact ⟨c, rfl, rfl⟩
  by_cases hclose : (s.readBase c env.recv env.currTime).2 = true
  · refine .close c _ (by simp [closes, hclose]) ?_ hnew fun d hd => ?_
    · rw [read_eq, if_pos hclose]
      change (u.closeConnectionToRecy c env.now).kernel = _
      rw [closeConnectionToRecy_eq]
      simp only [hfd, hkernel]
    · rw [read_eq, if_pos hclose]
      change ((u.closeConnectionToRecy c env.now).conn d).sockFd = _
      rw [closeConnectionToRecy_eq]
      simp only [Function.update_of_ne hd, hfd]
  · refine .calls _ (by simp [closes, hclose]) ?_ hnew fun d => ?_
    · rw [read_eq, if_neg hclose]
      exact hkernel
    · rw [read_eq, if_neg hclose]
      exact hfd d

theorem iterate_callMove {env : SendEnv} (h : s.next (.iterate env) = some t) :
    CallMove s (.iterate env) t := by
  obtain rfl | ⟨pos, hsender, h⟩ := iterate_pass h
  · exact .quiet rfl rfl fun _ => rfl
  rcases iterate_cases h with ⟨-, rfl⟩ | ⟨b, hb, ⟨-, rfl⟩ | ⟨-, -, rfl⟩ | ⟨hseq, hflag, hstart⟩⟩
  · exact .quiet rfl rfl fun _ => rfl
  · exact .quiet rfl rfl fun _ => rfl
  · exact .quiet rfl rfl fun _ => rfl
  · set c := (s.sendHeader b).pConn with hc
    have htake (d : ConnId) : ((s.takeSendMsg pos b c).conn d).sockFd = (s.conn d).sockFd :=
      takeSendMsg_field Connection.sockFd (fun _ _ _ => rfl) d
    have hthrough : s.callsThrough (.process (.iterate env)) = some c := by
      simp [callsThrough, starts, hsender, hb, ← hc, hseq, hflag]
    have hkernel : t.kernel = (s.takeSendMsg pos b c).sentKernel c env := by
      rcases startSend_cases hstart with ⟨-, rfl⟩ | ⟨n, -, -, -, rfl⟩ | ⟨-, rfl⟩ <;> rfl
    refine .calls _ rfl hkernel (fun x hx => ⟨c, hthrough, ?_⟩) fun d => ?_
    · rw [lease_sendCalls x hx, htake]
    · rcases startSend_cases hstart with ⟨-, rfl⟩ | ⟨n, -, -, -, rfl⟩ | ⟨-, rfl⟩
      · exact htake d
      · exact (update_field Connection.sockFd (by rfl) d).trans (htake d)
      · exact (update_field Connection.sockFd (by rfl) d).trans (htake d)

theorem write_callMove {env : SendEnv} (h : s.next (.write c env) = some t) :
    CallMove s (.write c env) t := by
  have hkernel : t.kernel = s.sentKernel c env := by
    rcases write_cases h with ⟨n, -, -, -, rfl⟩ | ⟨-, rfl⟩ | ⟨n, -, -, -, rfl⟩ | ⟨-, rfl⟩ <;> rfl
  refine .calls _ rfl hkernel (fun x hx => ⟨c, rfl, lease_sendCalls x hx⟩) fun d => ?_
  rcases write_cases h with ⟨n, -, -, -, rfl⟩ | ⟨-, rfl⟩ | ⟨n, -, -, -, rfl⟩ | ⟨-, rfl⟩
  · exact update_field Connection.sockFd (by rfl) d
  · rfl
  · exact update_field Connection.sockFd (by rfl) d
  · rfl

theorem step_callMove (hacc : ∀ env, e ≠ .accept env) (h : s.next e = some t) :
    CallMove s e t := by
  cases e with
  | accept env => exact absurd rfl (hacc env)
  | read c env => exact read_callMove h
  | outError c =>
    obtain rfl := Option.some.inj h
    exact .quiet rfl rfl fun d => update_field Connection.sockFd (by rfl) d
  | write c env => exact write_callMove h
  | take =>
    obtain rfl := Option.some.inj h
    unfold takeRecvMsg
    split <;> exact .quiet rfl rfl fun _ => rfl
  | handle i now =>
    obtain rfl | ⟨w, u, r, -, ⟨m, m', x, rfl, -⟩, rfl⟩ := workerHandle_cases h
    · exact .quiet rfl rfl fun _ => rfl
    · exact .quiet rfl rfl fun d => update_field Connection.sockFd (by rfl) d
  | push i now =>
    obtain ⟨rfl, hno⟩ | ⟨b, u, hstage, hu, rfl⟩ := workerPush_cases h
    · exact .quiet (by simp [closes]) rfl fun _ => rfl
    · obtain ⟨size, discard, mem, k, rfl, -⟩ := push_cases hu
      by_cases hback : s.backlogged b = true
      · have hc : s.closes (.push i now) = some (s.sendHeader b).pConn := by
          simp [closes, hstage, hback]
        refine .of_close now hc ?_ fun d => ?_
        · simp only [setStage, pushBase, hback, if_true]
        · refine (update_field Connection.sockFd (by rfl) d).trans ?_
          simp only [pushBase, hback, if_true]
      · refine .quiet (by simp [closes, hstage, hback]) ?_ fun d => ?_
        · simp only [setStage, pushBase, hback, Bool.false_eq_true, if_false]
        · refine (update_field Connection.sockFd (by rfl) d).trans ?_
          simp only [pushBase, hback, Bool.false_eq_true, if_false]
  | release i =>
    obtain rfl := Option.some.inj h
    unfold workerRelease
    split <;> exact .quiet rfl rfl fun _ => rfl
  | semWait => cases h; exact .quiet rfl rfl fun _ => rfl
  | semIntr => cases h; exact .quiet rfl rfl fun _ => rfl
  | sizeTest => cases h; exact .quiet rfl rfl fun _ => rfl
  | iterate env => exact iterate_callMove h
  | close c now =>
    obtain rfl := Option.some.inj h
    exact .of_close now rfl rfl fun _ => rfl
  | recycle now =>
    obtain ⟨c, -, rfl⟩ := lblRRTD_eq_some h
    exact .quiet rfl rfl fun d => update_field Connection.sockFd (by rfl) d
  | clear =>
    obtain ⟨c, -, rfl⟩ := lblRRTD2_eq_some h
    exact .quiet rfl rfl fun d => update_field Connection.sockFd (by rfl) d
  | monitor now =>
    obtain ⟨hd, q, hover, -, ⟨hkick, rfl⟩ | ⟨hkick, rfl⟩⟩ := monitor_cases h
    · have hc : s.closes (.monitor now) = some hd.pConn := by simp [closes, hover, hkick]
      exact .of_close now hc rfl fun _ => rfl
    · exact .quiet (by simp [closes, hover, hkick]) rfl fun _ => rfl

/-- The log agrees with the pool, with `sockFd` and with the kernel. -/
structure FdInv (s : Server) (log : List (Lease ℕ ConnId)) : Prop where
  disciplined : Lease.Disciplined log
  settled : Lease.Settled log
  placed : s.pool.Placed
  held : ∀ c fd, Lease.held log c = some fd → c ∈ s.pool.clients ∧ fd ∈ s.kernel.openFds
  clients : ∀ c ∈ s.pool.clients, Lease.held log c = some (s.conn c).sockFd

theorem FdInv.owned (h : s.FdInv log) : s.DescriptorsOwned log where
  disciplined := h.disciplined
  inUse c := ⟨fun hc => ⟨_, h.clients c hc⟩, fun ⟨fd, hfd⟩ => (h.held c fd hfd).1⟩
  once pre fd o post hlog hacq := by
    subst hlog
    rcases h.disciplined.released_once hacq with ⟨hzero, ⟨rfl, rfl⟩ | ⟨c, ho, hc⟩⟩ | hone
    · exact absurd rfl (h.settled fd)
    · exact Or.inl ⟨hzero, c, (h.held c fd hc).1, ho, hc⟩
    · exact Or.inr hone

theorem newCalls_eq {new : List SysCall} (h : t.kernel.calls = new ++ s.kernel.calls) :
    newCalls s t = new := by
  simp [newCalls, h]

/-- Calls through connections in use keep the log disciplined. -/
theorem FdInv.uses {new : List SysCall} {o : Option ConnId} (hs : s.FdInv log)
    (ho : ∀ c ∈ o, c ∈ s.pool.clients)
    (hnew : ∀ x ∈ new, ∃ c ∈ o, x.lease = .used c (s.conn c).sockFd) :
    Lease.Disciplined (new.map SysCall.lease ++ log) ∧
      Lease.Settled (new.map SysCall.lease ++ log) ∧
      ∀ c, Lease.held (new.map SysCall.lease ++ log) c = Lease.held log c := by
  refine hs.disciplined.uses hs.settled fun x hx => ?_
  obtain ⟨call, hcall, rfl⟩ := List.mem_map.mp hx
  obtain ⟨c, hc, hlease⟩ := hnew call hcall
  exact ⟨c, _, hlease, hs.clients c (ho c hc)⟩

theorem FdInv.close_step {log' : List (Lease ℕ ConnId)} (hs : s.FdInv log)
    (hc : c ∈ s.pool.clients) (hnodup : c ∉ s.pool.clients.erase c)
    (huse : Lease.Disciplined log' ∧ Lease.Settled log' ∧
      ∀ c, Lease.held log' c = Lease.held log c)
    (hplaced : t.pool.Placed) (hclients : t.pool.clients = s.pool.clients.erase c)
    (hopen : t.kernel.openFds = s.kernel.openFds.erase (s.conn c).sockFd)
    (hfd : ∀ d, d ≠ c → (t.conn d).sockFd = (s.conn d).sockFd) :
    t.FdInv (.released (some c) (s.conn c).sockFd :: log') := by
  obtain ⟨hdisc, hsettled, hheld⟩ := huse
  have hown := hs.clients c hc
  refine ⟨⟨⟨hsettled, (hheld c).trans hown⟩, hdisc⟩, fun r => by simp, hplaced,
    fun d fd hd => ?_, fun d hd => ?_⟩
  · simp only [Lease.held] at hd
    split_ifs at hd with hcd
    rw [hheld] at hd
    obtain ⟨hcl, hmem⟩ := hs.held d fd hd
    rw [hclients, hopen]
    refine ⟨(List.mem_erase_of_ne (Ne.symm hcd)).mpr hcl, (List.mem_erase_of_ne ?_).mpr hmem⟩
    rintro rfl
    exact hcd (hs.disciplined.unique hown hd)
  · rw [hclients] at hd
    have hcd : d ≠ c := by
      rintro rfl
      exact hnodup hd
    simp only [Lease.held]
    rw [if_neg (Ne.symm hcd), hheld, hfd d hcd]
    exact hs.clients d (List.mem_of_mem_erase hd)

theorem FdInv.process_step (hs : s.FdInv log) (hk : s.KeepsDescriptors (.process e))
    (hacc : ∀ env, e ≠ .accept env) (h : s.next e = some t) :
    t.FdInv (s.leases (.process e) ++ log) := by
  have hthrough : ∀ c ∈ s.closes e, c ∈ s.callsThrough (.process e) := by
    intro c hc
    cases e with
    | read d env =>
      simp only [closes] at hc
      split_ifs at hc
      · exact hc
      · cases hc
    | write d env => cases hc
    | iterate env => cases hc
    | _ => exact hc
  have hcl : ∀ c ∈ s.closes e, c ∈ s.pool.clients := fun c hc => hk.1 c (hthrough c hc)
  have hpool := step_pool h
  have hplaced := hpool.placed hs.placed fun c hc => Or.inl (hcl c hc)
  have hlease : s.acceptLease (.process e) = [] := by
    cases e with
    | accept env => exact absurd rfl (hacc env)
    | _ => rfl
  have hlog : s.leases (.process e) = (newCalls s t).map SysCall.lease := by
    simp [leases, fdNext, h, hlease]
  rcases step_callMove hacc h with ⟨new, hnone, hkernel, hnew, hfd⟩ |
    ⟨c, new, hclose, hkernel, hnew, hfd⟩
  · have hclients : t.pool.clients = s.pool.clients := by
      rcases hpool with ⟨-, heq⟩ | ⟨env, he, -⟩ | ⟨c, hc, -⟩ | ⟨c, -, -, heq⟩
      · rw [heq]
      · exact absurd he (hacc env)
      · simp [hnone] at hc
      · rw [heq]
        rfl
    obtain ⟨hdisc, hsettled, hheld⟩ := hs.uses hk.1 hnew
    rw [hlog, newCalls_eq (by rw [hkernel])]
    refine ⟨hdisc, hsettled, hplaced, fun c fd hc => ?_, fun c hc => ?_⟩
    · rw [hheld] at hc
      rw [hclients, hkernel]
      exact hs.held c fd hc
    · rw [hheld, hfd]
      exact hs.clients c (hclients ▸ hc)
  · have hclients : t.pool.clients = s.pool.clients.erase c := by
      rcases hpool with ⟨hnone, -⟩ | ⟨env, he, -⟩ | ⟨d, hd, heq⟩ | ⟨d, hnone, -, -⟩
      · simp [hclose] at hnone
      · exact absurd he (hacc env)
      · obtain rfl := Option.some.inj (hclose.symm.trans hd)
        rw [heq]
        rfl
      · simp [hclose] at hnone
    have huse := hs.uses hk.1 hnew
    have hcalls : t.kernel.calls =
        (.close (some c) (s.conn c).sockFd :: new) ++ s.kernel.calls := by rw [hkernel]; rfl
    rw [hlog, newCalls_eq hcalls]
    exact hs.close_step (hcl c hclose) hs.placed.nodup_clients.not_mem_erase huse hplaced hclients
      (by rw [hkernel]) hfd

theorem mem_of_acceptedFd {fd : ℕ} : ∀ {b : Bool} {rets : List AcceptRet},
    acceptedFd b rets = some fd → AcceptRet.accepted fd ∈ rets
  | _, .accepted _ :: _, h => by
    rw [Option.some.inj h]
    simp
  | b, .nosys :: rets, h => by
    simp only [acceptedFd] at h
    split_ifs at h
    exact List.mem_cons_of_mem _ (mem_of_acceptedFd h)

theorem FdInv.accept_step {env : HandlerEnv} (hs : s.FdInv log) (he : s.Enabled (.accept env))
    (hk : s.KeepsDescriptors (.process (.accept env)))
    (h : s.next (.accept env) = some t) : t.FdInv (s.leases (.process (.accept env)) ++ log) := by
  have hnew (fd : ℕ) (hfd : acceptedFd s.iIsAccept4 env.accept = some fd) :
      ∀ w, Lease.held log w ≠ some fd := by
    intro w hw
    exact he _ (mem_of_acceptedFd hfd) fd (hs.held w fd hw).2 rfl
  have hlog (new : List SysCall) (ht : t.kernel.calls = new ++ s.kernel.calls) :
      s.leases (.process (.accept env)) = new.map SysCall.lease ++
        s.acceptLease (.process (.accept env)) := by
    simp only [leases, fdNext, h]
    rw [newCalls_eq ht]
  rcases accept_outcome h with ⟨hnone, b, rfl⟩ | ⟨fd, b, hfd, ⟨hadm, rfl⟩ | ⟨hadm, rfl⟩⟩
  · rw [hlog [] rfl]
    simp only [acceptLease, hnone, List.map_nil, List.nil_append]
    exact ⟨hs.disciplined, hs.settled, hs.placed, hs.held, hs.clients⟩
  · rw [hlog [.close none fd] rfl]
    simp only [acceptLease, hfd, hadm]
    exact ⟨⟨rfl, ⟨hs.settled, hnew fd hfd, by simp⟩, hs.disciplined⟩, fun r => by
      simp [SysCall.lease], hs.placed, hs.held, hs.clients⟩
  · have hfront := hs.placed.front_notMem
    have hidle : Lease.held log s.pool.front = none := by
      cases hh : Lease.held log s.pool.front with
      | none => rfl
      | some r => exact absurd (hs.held _ r hh).1 hfront
    rw [hlog [] rfl]
    simp only [acceptLease, hfd, hadm, List.map_nil, List.nil_append]
    refine ⟨⟨⟨hs.settled, hnew fd hfd, fun w hw => ?_⟩, hs.disciplined⟩, fun r => by simp, ?_,
      fun c r hc => ?_, fun c hc => ?_⟩
    · rwa [← Option.some.inj hw]
    · exact (step_pool h).placed hs.placed (by simp [closes])
    · simp only [List.cons_append, List.nil_append, Lease.held] at hc
      split_ifs at hc with hcf
      · rw [← Option.some.inj hc, ← hcf]
        exact ⟨List.mem_cons_self .., List.mem_cons_self ..⟩
      · obtain ⟨hcl, hopen⟩ := hs.held c r hc
        exact ⟨List.mem_cons_of_mem _ hcl, List.mem_cons_of_mem _ hopen⟩
    · simp only [List.cons_append, List.nil_append, Lease.held]
      by_cases hcf : s.pool.front = c
      · rw [if_pos hcf, ← hcf]
        simp [admitted, Connection.installed, u16_of_lt (hk.2 (by simp [hadm]) fd hfd)]
      · have hcl : c ∈ s.pool.clients := by
          rcases List.mem_cons.mp hc with heq | hc
          · exact absurd heq.symm hcf
          · exact hc
        rw [if_neg hcf, hs.clients c hcl]
        simp [admitted, Ne.symm hcf]

theorem FdInv.immediately_step (hs : s.FdInv log)
    (hk : s.KeepsDescriptors (.closeConnectionImmediately c))
    (h : s.fdNext (.closeConnectionImmediately c) = some t) :
    t.FdInv (s.leases (.closeConnectionImmediately c) ++ log) := by
  have hc : c ∈ s.pool.clients := hk.1 c rfl
  have hrecy := hs.placed.notMem_recy hc
  have hlog : s.leases (.closeConnectionImmediately c) =
      [.released (some c) (s.conn c).sockFd] := by
    have hcalls : t.kernel.calls = [.close (some c) (s.conn c).sockFd] ++ s.kernel.calls := by
      rw [← Option.some.inj h]
      simp [closeConnectionImmediately, closeSockFd_eq, freeConnection, putOneToFree, closeFd]
    simp only [leases, h]
    rw [newCalls_eq hcalls]
    rfl
  rw [hlog]
  refine hs.close_step hc hs.placed.nodup_clients.not_mem_erase
    ⟨hs.disciplined, hs.settled, fun _ => rfl⟩ ?_ ?_ ?_ fun d hd => ?_
  · refine ((hs.placed.closed (Or.inl hc)).recycled (c := c) ?_).same ?_
    · simp [ConnectionPool.closed, ConnectionPool.pushConnectToRecyQueue, hrecy]
    · rw [← Option.some.inj h]
      constructor <;>
        simp [closeConnectionImmediately, closeSockFd_eq, freeConnection, putOneToFree, closeFd,
          ConnectionPool.closed, ConnectionPool.pushConnectToRecyQueue, hrecy,
          ConnectionPool.recycled, ConnectionPool.freeConnection,
          ConnectionPool.takeFromRecyQueue, List.erase_append_right]
  · rw [← Option.some.inj h]
    simp [closeConnectionImmediately, closeSockFd_eq, freeConnection, putOneToFree, closeFd,
      ConnectionPool.freeConnection]
  · rw [← Option.some.inj h]
    simp [closeConnectionImmediately, closeSockFd_eq, freeConnection, putOneToFree, closeFd]
  · rw [← Option.some.inj h]
    simp [closeConnectionImmediately, closeSockFd_eq, freeConnection, putOneToFree, closeFd, hd]

theorem fdInv_boot (h : s.Booted) : s.FdInv [] where
  disciplined := trivial
  settled r := by simp
  placed := ⟨_, .refl _, (poolInv_boot h).partition⟩
  held c fd hc := by cases hc
  clients c hc := by simp [clients_boot h] at hc

/-- Descriptors are used and closed by their owners only, and closed once, in every run whose calls
are issued through connections in use. -/
theorem descriptors_owned {es : List FdEvent}
    (h : ((descriptors.restrict KeepsDescriptors).record leases).Run es (s, log)) :
    s.DescriptorsOwned log := by
  have hinv : ∀ es p, ((descriptors.restrict KeepsDescriptors).record leases).Run es p →
      p.1.FdInv p.2 := by
    intro es p hrun
    induction hrun with
    | start hb =>
      rw [hb.2]
      exact fdInv_boot hb.1
    | @step _ p e q _ hstep ih =>
      obtain ⟨⟨hk, he, ht⟩, hlog⟩ := hstep
      rw [hlog]
      cases e with
      | process e =>
        by_cases hacc : ∃ env, e = .accept env
        · obtain ⟨env, rfl⟩ := hacc
          exact ih.accept_step he hk ht
        · exact ih.process_step hk (fun env heq => hacc ⟨env, heq⟩) ht
      | closeConnectionImmediately c => exact ih.immediately_step hk ht
  exact (hinv es (s, log) h).owned

instance (s : Server) : (e : FdEvent) → Decidable (s.fdEnabled e)
  | .process e => inferInstanceAs (Decidable (s.Enabled e))
  | .closeConnectionImmediately c => inferInstanceAs (Decidable (s.IsClient c))

instance (s : Server) : (e : FdEvent) → Decidable (s.KeepsDescriptors e)
  | .process (.accept _) => inferInstanceAs (Decidable (_ ∧ (_ → ∀ _ ∈ (_ : Option ℕ), _)))
  | .process (.read _ _) | .process (.outError _) | .process (.write _ _) | .process .take
  | .process (.handle _ _) | .process (.push _ _) | .process (.release _) | .process .semWait
  | .process .semIntr | .process .sizeTest | .process (.iterate _) | .process (.close _ _)
  | .process (.recycle _) | .process .clear | .process (.monitor _)
  | .closeConnectionImmediately _ => inferInstanceAs (Decidable (_ ∧ True))

theorem descriptors_run_of_play (allow : Server → FdEvent → Prop)
    [∀ s e, Decidable (allow s e)] (es : List FdEvent) (v : List (Lease ℕ ConnId))
    (h : (System.play (fun p e => allow p.1 e ∧ p.1.fdEnabled e)
      (fun p e => (p.1.fdNext e).map fun s => (s, p.1.leases e ++ p.2)) es
      (smallBoot smallConfig, [])).map Prod.snd = some v) :
    ∃ s, ((descriptors.restrict allow).record leases).Run es (s, v) := by
  obtain ⟨⟨s, log⟩, hplay, rfl⟩ := Option.map_eq_some_iff.mp h
  refine ⟨s, ?_⟩
  rw [descriptors, System.restrict_ofNext, System.record_ofNext]
  exact System.run_of_play ⟨booted_smallBoot smallConfig, rfl⟩ hplay

/-- Two clients, one after the other, on the same object and the same descriptor. -/
theorem descriptors_owned_reused : ∃ s, DescriptorsOwned s
    [.acquired 4 (some 1), .released (some 1) 4, .used 1 4, .acquired 4 (some 1)] := by
  obtain ⟨s, hrun⟩ := descriptors_run_of_play KeepsDescriptors
    [.process (.accept { HandlerEnv.idle with accept := [.accepted 4] }),
      .process (.read 1 { HandlerEnv.idle with recv := .eof }), .process (.recycle 0),
      .process (.accept { HandlerEnv.idle with accept := [.accepted 4] })]
    [.acquired 4 (some 1), .released (some 1) 4, .used 1 4, .acquired 4 (some 1)] (by decide)
  exact ⟨s, descriptors_owned hrun⟩

/-- A connection is closed twice: the second call closes descriptor 65535, which `accept` has not
given to it. -/
theorem descriptor_closed_twice : ¬ ∀ es s log, (descriptors.record leases).Run es (s, log) →
    DescriptorsOwned s log := by
  intro hall
  obtain ⟨s, hrun⟩ := descriptors_run_of_play (fun _ _ => True)
    [.process (.accept { HandlerEnv.idle with accept := [.accepted 4] }),
      .process (.read 1 { HandlerEnv.idle with recv := .eof }), .process (.close 1 0)]
    [.released (some 1) 65535, .released (some 1) 4, .used 1 4, .acquired 4 (some 1)] (by decide)
  have hown := (hall _ s _ hrun.of_restrict_record).disciplined.1.2
  simp [Lease.held] at hown

end Server
end XiaoHGServer
