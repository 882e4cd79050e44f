import XiaoHGServer.Model.Admission
import XiaoHGServer.Pool.Uses

/-!
# How far the pool can grow

`GetConnection` allocates an object only when the free list is empty, and nobody
but the accept handler takes objects out of the free list. So what the handler
has seen in its tests still stands when it allocates, whatever the recycler has
added in the meantime.
-/

namespace XiaoHGServer

theorem ConnectionPool.length_getConnection (p : ConnectionPool) :
    p.getConnection.connectionList.length =
      p.connectionList.length + (1 - p.freeConnectionList.length) ∧
    p.getConnection.freeConnectionList.length = p.freeConnectionList.length - 1 := by
  unfold getConnection
  split <;> simp [*]

namespace Server

variable {s t : Server} {c : ConnId} {e : Event} {env : HandlerEnv}

theorem length_addListenSockets (now : ℤ) (fds : List ℕ) :
    ∀ s : Server, (fds.foldl (fun s fd => s.addListenSocket fd now) s).config = s.config ∧
      (fds.foldl (fun s fd => s.addListenSocket fd now) s).pool.connectionList.length =
        s.pool.connectionList.length + (fds.length - s.pool.freeConnectionList.length) := by
  induction fds with
  | nil => exact fun s => ⟨rfl, by simp⟩
  | cons fd fds ih =>
    intro s
    obtain ⟨hconfig, hlen⟩ := ih (s.addListenSocket fd now)
    obtain ⟨hget, hfree⟩ := s.pool.length_getConnection
    refine ⟨hconfig, hlen.trans ?_⟩
    change s.pool.getConnection.connectionList.length +
      (fds.length - s.pool.getConnection.freeConnectionList.length) = _
    rw [hget, hfree, List.length_cons]
    omega

/-- Only `accept` takes objects out of the free list or makes new ones. -/
theorem step_keepsFree (h : s.next e = some t) (hacc : ∀ env, e ≠ .accept env) :
    t.pool.connectionList.length = s.pool.connectionList.length ∧
      s.pool.freeConnectionList <+: t.pool.freeConnectionList := by
  rcases step_pool h with ⟨-, heq⟩ | ⟨env, rfl, -⟩ | ⟨c, -, heq⟩ | ⟨c, -, -, heq⟩
  · rw [heq]
    exact ⟨rfl, List.prefix_rfl⟩
  · exact absurd rfl (hacc env)
  · rw [heq, closed_free]
    refine ⟨?_, List.prefix_rfl⟩
    unfold ConnectionPool.closed ConnectionPool.pushConnectToRecyQueue
    split <;> rfl
  · rw [heq]
    exact ⟨rfl, List.prefix_append _ _⟩

theorem acceptCalls_frame :
    ∀ (rets : List AcceptRet) (s : Server),
      (s.acceptCalls rets).1.config = s.config ∧ (s.acceptCalls rets).1.pool = s.pool := by
  intro rets
  induction rets with
  | nil => exact fun s => ⟨rfl, rfl⟩
  | cons ret rets ih =>
    intro s
    cases ret with
    | accepted fd => exact ⟨rfl, rfl⟩
    | error => exact ⟨rfl, rfl⟩
    | nosys =>
      simp only [acceptCalls]
      split_ifs
      · exact ih { s with iIsAccept4 := false }
      · exact ⟨rfl, rfl⟩

theorem installAccepted_frame (h : s.installAccepted c env = some t) :
    t.config = s.config ∧ t.pool.connectionList = s.pool.connectionList := by
  unfold installAccepted at h
  dsimp only at h
  split_ifs at h
  rw [← Option.some.inj h]
  unfold startTimer
  split <;> exact ⟨rfl, rfl⟩

end Server

namespace Acceptor

variable {cfg : Config} {fds : List ℕ} {es : List AcceptorEvent} {a b : Acceptor} {n l : ℕ}

/-- What the tests that the handler has passed say about the pool. -/
def Tested (n : ℕ) (a : Acceptor) : Prop :=
  match a.pc with
  | .outside => True
  | .testUsers _ _ => True
  | .testPool _ _ => 0 < n
  | .testFree _ _ => 0 < n
  | .getConnection _ _ =>
    a.server.pool.connectionList.length ≤ 5 * n ∨ a.server.pool.freeConnectionList ≠ []
  | .install _ _ => True

/-- The pool of a process configured for `n` connections that has `l` listening sockets. -/
structure Bounded (n l : ℕ) (a : Acceptor) : Prop where
  config : a.server.config.epollCreateConnectCount = n
  size : a.server.pool.connectionList.length ≤ max l (5 * n + 1)
  tested : a.Tested n

theorem bounded_start (h : Start cfg fds a) :
    a.Bounded cfg.epollCreateConnectCount fds.length := by
  obtain ⟨now, recvMem, sendMem, timerMem, rfl⟩ := h
  obtain ⟨hconfig, hlen⟩ := Server.length_addListenSockets now fds
    (Server.init cfg now recvMem sendMem timerMem)
  refine ⟨congrArg Config.epollCreateConnectCount hconfig, ?_, trivial⟩
  have hinit : (Server.init cfg now recvMem sendMem timerMem).pool.connectionList.length =
        cfg.epollCreateConnectCount ∧
      (Server.init cfg now recvMem sendMem timerMem).pool.freeConnectionList.length =
        cfg.epollCreateConnectCount := ⟨List.length_range, List.length_range⟩
  rw [hinit.1, hinit.2] at hlen
  refine hlen.trans_le ?_
  omega

/-- The other threads leave standing what the handler has tested: they add to the free list and
make no objects. -/
theorem Tested.other (h : a.Tested n) {s : Server}
    (hlen : s.pool.connectionList.length = a.server.pool.connectionList.length)
    (hfree : a.server.pool.freeConnectionList <+: s.pool.freeConnectionList) :
    Tested n ⟨s, a.pc⟩ := by
  unfold Tested at h ⊢
  cases hpc : a.pc with
  | getConnection fd env =>
    rw [hpc] at h
    rcases h with hsmall | hsome
    · exact Or.inl (hlen.trans_le hsmall)
    · refine Or.inr fun hnil => hsome ?_
      exact List.prefix_nil.mp (hnil ▸ hfree)
  | _ => simp_all

theorem Bounded.advance (h : a.Bounded n l) (hn : 5 * n < 2 ^ 32) (hb : a.advance = some b) :
    b.Bounded n l := by
  obtain ⟨hconfig, hsize, htested⟩ := h
  have hwrap : u32 (a.server.config.epollCreateConnectCount * 5) = 5 * n := by
    rw [hconfig, u32, Nat.mul_comm, Nat.mod_eq_of_lt hn]
  unfold Acceptor.advance at hb
  unfold Tested at htested
  cases hpc : a.pc with
  | outside =>
    rw [hpc] at hb
    obtain rfl := Option.some.inj hb
    exact ⟨hconfig, hsize, by simp [Tested, hpc]⟩
  | testUsers fd env =>
    simp only [hpc] at hb
    split_ifs at hb with husers
    · obtain rfl := Option.some.inj hb
      exact ⟨hconfig, hsize, trivial⟩
    · obtain rfl := Option.some.inj hb
      refine ⟨hconfig, hsize, ?_⟩
      -- an unsigned number is at least zero, so the first test turns everybody away
      simp only [Server.tooManyUsers, hconfig, decide_eq_true_eq, not_le] at husers
      exact Nat.zero_lt_of_lt husers
  | testPool fd env =>
    simp only [hpc] at hb htested
    split_ifs at hb with hlarge
    · obtain rfl := Option.some.inj hb
      exact ⟨hconfig, hsize, htested⟩
    · obtain rfl := Option.some.inj hb
      refine ⟨hconfig, hsize, Or.inl ?_⟩
      simpa [Server.largePool, hwrap] using hlarge
  | testFree fd env =>
    simp only [hpc] at hb htested
    split_ifs at hb with hfew
    · obtain rfl := Option.some.inj hb
      exact ⟨hconfig, hsize, trivial⟩
    · obtain rfl := Option.some.inj hb
      refine ⟨hconfig, hsize, Or.inr ?_⟩
      simp only [Server.fewFree, hconfig, decide_eq_true_eq, not_lt] at hfew
      exact List.ne_nil_of_length_pos (htested.trans_le hfew)
  | getConnection fd env =>
    simp only [hpc] at hb htested
    obtain rfl := Option.some.inj hb
    refine ⟨hconfig, ?_, trivial⟩
    change a.server.pool.getConnection.connectionList.length ≤ _
    rw [a.server.pool.length_getConnection.1]
    rcases htested with hsmall | hsome
    · omega
    · have := List.length_pos_of_ne_nil hsome
      omega
  | install c env =>
    simp only [hpc] at hb
    obtain ⟨s, hs, rfl⟩ := Option.map_eq_some_iff.mp hb
    obtain ⟨hsame, hlist⟩ := Server.installAccepted_frame hs
    exact ⟨by rw [hsame, hconfig], by rw [hlist]; exact hsize, trivial⟩

theorem Bounded.step {e : AcceptorEvent} (h : a.Bounded n l) (hn : 5 * n < 2 ^ 32)
    (he : a.Enabled e) (hb : a.next e = some b) : b.Bounded n l := by
  cases e with
  | enter env =>
    obtain rfl := Option.some.inj hb
    obtain ⟨hconfig, hpool⟩ := Server.acceptCalls_frame env.accept a.server
    unfold enter
    generalize a.server.acceptCalls env.accept = r at hconfig hpool
    rcases r with ⟨s, _ | fd⟩ <;>
      exact ⟨by rw [hconfig, h.config], by rw [hpool]; exact h.size, trivial⟩
  | advance => exact h.advance hn hb
  | other e =>
    obtain ⟨s, hs, rfl⟩ := Option.map_eq_some_iff.mp hb
    have hacc : ∀ env, e ≠ .accept env := by
      rintro env rfl
      exact he.1
    obtain ⟨hlen, hfree⟩ := Server.step_keepsFree hs hacc
    exact ⟨by rw [Server.step_config hs, h.config], hlen.trans_le h.size,
      h.tested.other hlen hfree⟩
  | miscount n =>
    obtain rfl := Option.some.inj hb
    exact ⟨h.config, h.size, h.tested.other rfl List.prefix_rfl⟩

/-- The pool never has more objects than there are listening sockets, or five times the configured
number of connections and one more. -/
theorem pool_bounded (hn : 5 * cfg.epollCreateConnectCount < 2 ^ 32)
    (h : (admission cfg fds).Run es a) :
    a.server.pool.connectionList.length ≤
      max fds.length (5 * cfg.epollCreateConnectCount + 1) := by
  have hbounded : a.Bounded cfg.epollCreateConnectCount fds.length :=
    h.invariant (fun _ hs => bounded_start hs) fun _ _ _ hs hstep => hs.step hn hstep.1 hstep.2
  exact hbounded.size

/-- One client after the other comes and goes, and none is recycled: the pool grows up to the
bound, and the next client is turned away. -/
theorem pool_bounded_storm : ∃ (cfg : Config) (a : Acceptor),
    cfg.epollCreateConnectCount = 1 ∧ a.server.pool.connectionList.length = 6 ∧
      a.server.pool.connectionList.length ≤
        max [3].length (5 * cfg.epollCreateConnectCount + 1) := by
  let cfg := { Server.smallConfig with epollCreateConnectCount := 1 }
  let enter (i : ℕ) : AcceptorEvent :=
    .enter { HandlerEnv.idle with accept := [.accepted (4 + i)] }
  let client (i : ℕ) : List AcceptorEvent :=
    [enter i, .advance, .advance, .advance, .advance, .other (.close (i + 1) 0)]
  let storm := (List.range 5).flatMap client ++ [enter 5, .advance, .advance, .advance]
  have hplay : (System.play Enabled next storm ⟨Server.smallBoot cfg, .outside⟩).map
      (fun a => (a.pc, a.server.pool.connectionList.length)) = some (.outside, 6) := by
    decide +kernel
  obtain ⟨a, ha, hsize⟩ := Option.map_eq_some_iff.mp hplay
  have hstart : Start cfg [3] ⟨Server.smallBoot cfg, .outside⟩ := ⟨0, _, _, _, rfl⟩
  have hrun : (admission cfg [3]).Run storm a := System.run_of_play hstart ha
  exact ⟨cfg, a, rfl, (Prod.mk.inj hsize).2, pool_bounded (by decide) hrun⟩

end Acceptor
end XiaoHGServer
