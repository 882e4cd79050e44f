import XiaoHGServer.Model.Process

/-!
# Accepting a client step by step

`EpollEventAcceptHandler` tests `m_OnLineUserCount`, then the length of
`m_ConnectionList`, then the length of `m_FreeConnectionList`, and then calls
`GetConnection`. It holds no lock between them. Here each of them is a step of its
own, and what the other threads do comes in between.
-/

namespace XiaoHGServer
namespace Server

/-- The `do` loop of `EpollEventAcceptHandler`, until it has a descriptor or gives up. -/
def acceptCalls (s : Server) : List AcceptRet → Server × Option ℕ
  | [] => (s, none)
  | .accepted fd :: _ =>
    ({ s with kernel := { s.kernel with openFds := fd :: s.kernel.openFds } }, some fd)
  | .nosys :: rets =>
    if s.iIsAccept4 then acceptCalls { s with iIsAccept4 := false } rets else (s, none)
  | .error :: _ => (s, none)

/-- `m_ConnectionList.size() > (m_EpollCreateConnectCount * 5)`. -/
def largePool (s : Server) : Bool :=
  u32 (s.config.epollCreateConnectCount * 5) < s.pool.connectionList.length

/-- `m_FreeConnectionList.size() < m_EpollCreateConnectCount`. -/
def fewFree (s : Server) : Bool :=
  s.pool.freeConnectionList.length < s.config.epollCreateConnectCount

/-- The rest of the accept handler, with the connection `c` that `GetConnection` returned. -/
def installAccepted (s : Server) (c : ConnId) (env : HandlerEnv) : Option Server :=
  if ¬ s.iIsAccept4 ∧ ¬ env.setNonBlocking then none
  else
    let s := s.installClient c
    if ¬ env.epollCtl then none else some ((s.startTimer c env.now).goOnLine c)

/-- The accept handler from its first test, if it is not interrupted. -/
def admitClient (s : Server) (fd : ℕ) (env : HandlerEnv) : Option Server :=
  if s.tooManyUsers then some (s.closeFd none fd)
  else if s.poolExhausted then some (s.closeFd none fd)
  else (s.getConnection fd env.now).installAccepted s.pool.front env

end Server

/-- The place of the epoll thread in `EpollEventAcceptHandler`, with the descriptor and the
connection that it holds there. -/
inductive AcceptPc
  | outside
  | testUsers (fd : ℕ) (env : HandlerEnv)
  | testPool (fd : ℕ) (env : HandlerEnv)
  | testFree (fd : ℕ) (env : HandlerEnv)
  | getConnection (fd : ℕ) (env : HandlerEnv)
  | install (c : ConnId) (env : HandlerEnv)
  deriving DecidableEq, Repr

structure Acceptor where
  server : Server
  pc : AcceptPc

inductive AcceptorEvent
  /-- `EpollEventAcceptHandler` starts, and comes to its first test if it gets a descriptor. -/
  | enter (env : HandlerEnv)
  /-- The next operation in the handler. -/
  | advance
  /-- Anything else that happens in the process. -/
  | other (e : Event)
  /-- `m_OnLineUserCount` gets a value that need not count anything. -/
  | miscount (n : ℤ)
  deriving DecidableEq, Repr

namespace Acceptor

/-- The epoll thread reads and writes outside the accept handler only. -/
def Interleaves (a : Acceptor) : Event → Prop
  | .accept _ => False
  | .read _ _ => a.pc = .outside
  | .outError _ => a.pc = .outside
  | .write _ _ => a.pc = .outside
  | _ => True

def Enabled (a : Acceptor) : AcceptorEvent → Prop
  | .enter env => a.pc = .outside ∧ a.server.Enabled (.accept env)
  | .advance => a.pc ≠ .outside
  | .other e => a.Interleaves e ∧ a.server.Enabled e
  | .miscount _ => True

def enter (a : Acceptor) (env : HandlerEnv) : Acceptor :=
  match a.server.acceptCalls env.accept with
  | (s, none) => ⟨s, .outside⟩
  | (s, some fd) => ⟨s, .testUsers fd env⟩

/-- The next operation of `EpollEventAcceptHandler`; `none` when it calls `exit(0)`. -/
def advance (a : Acceptor) : Option Acceptor :=
  match a.pc with
  | .outside => some a
  | .testUsers fd env =>
    if a.server.tooManyUsers then some ⟨a.server.closeFd none fd, .outside⟩
    else some ⟨a.server, .testPool fd env⟩
  | .testPool fd env =>
    if a.server.largePool then some ⟨a.server, .testFree fd env⟩
    else some ⟨a.server, .getConnection fd env⟩
  | .testFree fd env =>
    if a.server.fewFree then some ⟨a.server.closeFd none fd, .outside⟩
    else some ⟨a.server, .getConnection fd env⟩
  | .getConnection fd env =>
    some ⟨a.server.getConnection fd env.now, .install a.server.pool.front env⟩
  | .install c env => (a.server.installAccepted c env).map fun s => ⟨s, .outside⟩

def next (a : Acceptor) : AcceptorEvent → Option Acceptor
  | .enter env => some (a.enter env)
  | .advance => a.advance
  | .other e => (a.server.next e).map fun s => ⟨s, a.pc⟩
  | .miscount n =>
    some ⟨{ a.server with pool := { a.server.pool with onLineUserCount := n } }, a.pc⟩

def Start (cfg : Config) (fds : List ℕ) (a : Acceptor) : Prop :=
  ∃ now recvMem sendMem timerMem,
    a = ⟨Server.boot cfg now recvMem sendMem timerMem fds, .outside⟩

instance (a : Acceptor) : (e : Event) → Decidable (a.Interleaves e)
  | .accept _ => isFalse not_false
  | .read _ _ | .outError _ | .write _ _ => inferInstanceAs (Decidable (_ = _))
  | .take | .handle _ _ | .push _ _ | .release _ | .semWait | .semIntr | .sizeTest | .iterate _
  | .close _ _ | .recycle _ | .clear | .monitor _ => isTrue trivial

instance (a : Acceptor) : (e : AcceptorEvent) → Decidable (a.Enabled e)
  | .enter _ => inferInstanceAs (Decidable (_ ∧ _))
  | .advance => inferInstanceAs (Decidable (_ ≠ _))
  | .other _ => inferInstanceAs (Decidable (_ ∧ _))
  | .miscount _ => isTrue trivial

end Acceptor

def admission (cfg : Config) (fds : List ℕ) : System Acceptor AcceptorEvent :=
  .ofNext (Acceptor.Start cfg fds) Acceptor.Enabled Acceptor.next

namespace Server

variable {s t : Server}

theorem poolExhausted_eq : s.poolExhausted = (s.largePool && s.fewFree) := by
  simp [poolExhausted, largePool, fewFree]

theorem acceptLoop_eq (env : HandlerEnv) :
    ∀ (rets : List AcceptRet) (s : Server), s.acceptLoop env rets =
      match s.acceptCalls rets with
      | (t, none) => some t
      | (t, some fd) => t.admitClient fd env := by
  intro rets
  induction rets with
  | nil => exact fun s => rfl
  | cons ret rets ih =>
    intro s
    cases ret with
    | accepted fd => rfl
    | error => rfl
    | nosys =>
      simp only [acceptLoop, acceptCalls]
      split_ifs
      · exact ih _
      · rfl

end Server

namespace Acceptor

variable {cfg : Config} {fds : List ℕ} {es : List AcceptorEvent} {a b : Acceptor} {s t : Server}

theorem run_advance (h : (admission cfg fds).Run es a) (hpc : a.pc ≠ .outside)
    (hb : a.advance = some b) : (admission cfg fds).Run (es ++ [.advance]) b :=
  h.step ⟨hpc, hb⟩

theorem run_admitClient {fd : ℕ} {env : HandlerEnv}
    (h : (admission cfg fds).Run es ⟨s, .testUsers fd env⟩)
    (ht : s.admitClient fd env = some t) : ∃ es', (admission cfg fds).Run es' ⟨t, .outside⟩ := by
  unfold Server.admitClient at ht
  rw [Server.poolExhausted_eq] at ht
  by_cases husers : s.tooManyUsers = true
  · rw [if_pos husers] at ht
    obtain rfl := Option.some.inj ht
    exact ⟨_, run_advance h (by simp) (by simp [advance, husers])⟩
  have hpool := run_advance (b := ⟨s, .testPool fd env⟩) h (by simp) (by simp [advance, husers])
  rw [if_neg husers] at ht
  -- a large pool takes the handler to the test of the free list
  have hget (hfull : (s.largePool && s.fewFree) = false) :
      ∃ es', (admission cfg fds).Run es' ⟨s, .getConnection fd env⟩ := by
    by_cases hlarge : s.largePool = true
    · have hfree := run_advance (b := ⟨s, .testFree fd env⟩) hpool (by simp)
        (by simp [advance, hlarge])
      exact ⟨_, run_advance hfree (by simp) (by simp_all [advance])⟩
    · exact ⟨_, run_advance hpool (by simp) (by simp [advance, hlarge])⟩
  by_cases hfull : (s.largePool && s.fewFree) = true
  · rw [if_pos hfull] at ht
    obtain rfl := Option.some.inj ht
    rw [Bool.and_eq_true] at hfull
    have hfree := run_advance (b := ⟨s, .testFree fd env⟩) hpool (by simp)
      (by simp [advance, hfull.1])
    exact ⟨_, run_advance hfree (by simp) (by simp [advance, hfull.2])⟩
  · rw [if_neg hfull] at ht
    obtain ⟨es', hrun⟩ := hget (Bool.eq_false_iff.mpr hfull)
    exact ⟨_, run_advance (run_advance hrun (by simp) rfl) (by simp) (by simp [advance, ht])⟩

/-- An accept handler that is not interrupted does what it does in one step of the process. -/
theorem run_accept {env : HandlerEnv} (h : (admission cfg fds).Run es ⟨s, .outside⟩)
    (he : s.Enabled (.accept env)) (ht : s.next (.accept env) = some t) :
    ∃ es', (admission cfg fds).Run es' ⟨t, .outside⟩ := by
  have hcalls := Server.acceptLoop_eq env env.accept s
  have henter : (admission cfg fds).Run (es ++ [.enter env]) (enter ⟨s, .outside⟩ env) :=
    h.step ⟨⟨rfl, he⟩, rfl⟩
  rw [show s.acceptLoop env env.accept = some t from ht] at hcalls
  unfold enter at henter
  generalize s.acceptCalls env.accept = r at hcalls henter
  rcases r with ⟨u, _ | fd⟩
  · obtain rfl := Option.some.inj hcalls
    exact ⟨_, henter⟩
  · exact run_admitClient henter hcalls.symm

/-- Every run of the process is a run in which the accept handler was never interrupted. -/
theorem run_of_process {es : List Event} (h : process.Run es s) :
    ∃ cfg fds es', (admission cfg fds).Run es' ⟨s, .outside⟩ := by
  induction h with
  | start hb =>
    obtain ⟨cfg, now, recvMem, sendMem, timerMem, fds, rfl⟩ := hb
    exact ⟨cfg, fds, [], .start ⟨now, recvMem, sendMem, timerMem, rfl⟩⟩
  | @step es s e t _ hstep ih =>
    obtain ⟨cfg, fds, es', hrun⟩ := ih
    refine ⟨cfg, fds, ?_⟩
    by_cases hacc : ∃ env, e = .accept env
    · obtain ⟨env, rfl⟩ := hacc
      exact run_accept hrun hstep.1 hstep.2
    · have hinter : Interleaves ⟨s, .outside⟩ e := by
        cases e with
        | accept env => exact hacc ⟨env, rfl⟩
        | read c env => rfl
        | outError c => rfl
        | write c env => rfl
        | _ => trivial
      have hother : (admission cfg fds).step ⟨s, .outside⟩ (.other e) ⟨t, .outside⟩ :=
        ⟨⟨hinter, hstep.1⟩, by simp [next, hstep.2]⟩
      exact ⟨_, hrun.step hother⟩

end Acceptor
end XiaoHGServer
