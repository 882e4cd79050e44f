import XiaoHGServer.Pool.Growth

/-!
# The limit on clients

The accept handler compares `m_OnLineUserCount` with the configured number of
connections in its first test, and increments it in its last step. What other
threads close in between makes the test stricter than necessary, never too lax,
because nobody else lets clients in.
-/

namespace XiaoHGServer
namespace Acceptor

variable {cfg : Config} {fds : List ℕ} {es : List AcceptorEvent} {a b : Acceptor} {n : ℕ}
  {c : ConnId}

/-- Connections are closed while they are in use or in the recycling queue, and
`m_OnLineUserCount` is nobody's but the counter of clients. -/
def ClosesUsed (a : Acceptor) : AcceptorEvent → Prop
  | .other e => ∀ c ∈ a.server.closes e,
    c ∈ a.server.pool.clients ∨ c ∈ a.server.pool.recyConnectionList
  | .miscount _ => False
  | _ => True

instance (a : Acceptor) : (e : AcceptorEvent) → Decidable (a.ClosesUsed e)
  | .enter _ => isTrue trivial
  | .advance => isTrue trivial
  | .other e => inferInstanceAs (Decidable (∀ c ∈ a.server.closes e, _))
  | .miscount _ => isFalse not_false

/-- The object that the handler has taken for a client who is not counted yet. -/
def incoming (a : Acceptor) : List ConnId :=
  match a.pc with
  | .install c _ => [c]
  | _ => []

def testedUsers (a : Acceptor) : Bool :=
  match a.pc with
  | .outside => false
  | .testUsers _ _ => false
  | _ => true

/-- The pool in which the incoming client counts as one. -/
def placed (a : Acceptor) : ConnectionPool :=
  { a.server.pool with clients := a.incoming ++ a.server.pool.clients }

/-- Every object has a place, the counter counts, and there is room for the client whom the
handler has tested. -/
structure Limited (n : ℕ) (a : Acceptor) : Prop where
  config : a.server.config.epollCreateConnectCount = n
  placed : a.placed.Placed
  counted : a.server.pool.onLineUserCount = a.server.pool.clients.length
  limit : a.server.pool.clients.length ≤ n
  room : a.testedUsers = true → a.server.pool.clients.length < n

theorem limited_start (h : Start cfg fds a) : a.Limited cfg.epollCreateConnectCount := by
  obtain ⟨now, recvMem, sendMem, timerMem, rfl⟩ := h
  have hb : (Server.boot cfg now recvMem sendMem timerMem fds).Booted :=
    ⟨cfg, now, recvMem, sendMem, timerMem, fds, rfl⟩
  have hclients := Server.clients_boot hb
  refine ⟨?_, ?_, ?_, ?_, fun h => by cases h⟩
  · exact congrArg Config.epollCreateConnectCount
      (Server.length_addListenSockets now fds (Server.init cfg now recvMem sendMem timerMem)).1
  · exact ⟨_, .refl _, (Server.partition_boot hb)⟩
  · exact (Server.partition_boot hb).online
  · simp [hclients]

theorem Limited.frame (h : a.Limited n) {s : Server} {pc : AcceptPc}
    (hcfg : s.config = a.server.config) (hpool : s.pool = a.server.pool)
    (hin : incoming ⟨s, pc⟩ = a.incoming)
    (hroom : testedUsers ⟨s, pc⟩ = true → a.server.pool.clients.length < n) :
    Limited n ⟨s, pc⟩ where
  config := by rw [hcfg, h.config]
  placed := by
    have := h.placed
    unfold Acceptor.placed at this ⊢
    rwa [hin, hpool]
  counted := by rw [hpool, h.counted]
  limit := by rw [hpool]; exact h.limit
  room hpc := by rw [hpool]; exact hroom hpc

theorem Limited.close (h : a.Limited n) {s : Server} {pc : AcceptPc}
    (hcfg : s.config = a.server.config) (hpool : s.pool = a.server.pool.closed c)
    (hin : incoming ⟨s, pc⟩ = a.incoming) (hpc : testedUsers ⟨s, pc⟩ = a.testedUsers)
    (hc : c ∈ a.server.pool.clients ∨ c ∈ a.server.pool.recyConnectionList) :
    Limited n ⟨s, pc⟩ := by
  have hplaced := h.placed
  have hnd : (a.incoming ++ a.server.pool.clients).Nodup := hplaced.nodup_clients
  have hrecy {d : ConnId} (hd : d ∈ a.incoming ++ a.server.pool.clients) :
      d ∉ a.server.pool.recyConnectionList := hplaced.notMem_recy hd
  have hnot : c ∉ a.incoming := by
    intro hm
    rcases hc with hc | hc
    · exact (List.nodup_append.mp hnd).2.2 c hm c hc rfl
    · exact hrecy (List.mem_append_left _ hm) hc
  have hclosed := hplaced.closed (c := c) (hc.imp (fun hm => List.mem_append_right _ hm) id)
  have hsame : (a.placed.closed c).SamePlaces (Acceptor.placed ⟨s, pc⟩) := by
    unfold Acceptor.placed
    rw [hin, hpool]
    unfold ConnectionPool.closed ConnectionPool.pushConnectToRecyQueue
    dsimp only
    split <;> exact ⟨rfl, rfl, rfl, rfl, (List.erase_append_right _ hnot).symm⟩
  have hcount : s.pool.onLineUserCount = s.pool.clients.length ∧
      s.pool.clients.length ≤ a.server.pool.clients.length := by
    rw [hpool]
    by_cases hq : c ∈ a.server.pool.recyConnectionList
    · have hcl : c ∉ a.server.pool.clients := fun hm => hrecy (List.mem_append_right _ hm) hq
      simp [ConnectionPool.closed, ConnectionPool.pushConnectToRecyQueue, hq,
        List.erase_of_not_mem hcl, h.counted]
    · have hcl := hc.resolve_right hq
      have hpos := List.length_pos_of_mem hcl
      simp only [ConnectionPool.closed, ConnectionPool.pushConnectToRecyQueue, hq, if_false,
        h.counted, List.length_erase_of_mem hcl]
      omega
  exact {
    config := by rw [hcfg, h.config]
    placed := hclosed.same hsame
    counted := hcount.1
    limit := hcount.2.trans h.limit
    room := fun ht => hcount.2.trans_lt (h.room (hpc ▸ ht)) }

theorem Limited.recycle (h : a.Limited n) {s : Server} {pc : AcceptPc}
    (hcfg : s.config = a.server.config) (hpool : s.pool = a.server.pool.recycled c)
    (hin : incoming ⟨s, pc⟩ = a.incoming) (hpc : testedUsers ⟨s, pc⟩ = a.testedUsers)
    (hc : c ∈ a.server.pool.recyConnectionList) : Limited n ⟨s, pc⟩ where
  config := by rw [hcfg, h.config]
  placed := by
    refine (h.placed.recycled hc).same ?_
    unfold Acceptor.placed
    rw [hin, hpool]
    exact ⟨rfl, rfl, rfl, rfl, rfl⟩
  counted := by rw [hpool]; exact h.counted
  limit := by rw [hpool]; exact h.limit
  room ht := by rw [hpool]; exact h.room (hpc ▸ ht)

theorem Limited.other (h : a.Limited n) {e : Event} {s : Server} (hacc : ∀ env, e ≠ .accept env)
    (hc : ∀ c ∈ a.server.closes e,
      c ∈ a.server.pool.clients ∨ c ∈ a.server.pool.recyConnectionList)
    (hs : a.server.next e = some s) : Limited n ⟨s, a.pc⟩ := by
  have hcfg := Server.step_config hs
  rcases Server.step_pool hs with ⟨-, hpool⟩ | ⟨env, heq, -⟩ | ⟨c, hclose, hpool⟩ |
    ⟨c, -, hmem, hpool⟩
  · exact h.frame hcfg hpool rfl h.room
  · exact absurd heq (hacc env)
  · exact h.close hcfg hpool rfl rfl (hc c hclose)
  · exact h.recycle hcfg hpool rfl rfl hmem

/-- The handler goes on: its first test leaves room for the client, and the last step fills it. -/
theorem Limited.advance (h : a.Limited n) (hn : n < 2 ^ 32) (hb : a.advance = some b) :
    b.Limited n := by
  unfold Acceptor.advance at hb
  cases hpc : a.pc with
  | outside =>
    rw [hpc] at hb
    obtain rfl := Option.some.inj hb
    exact h
  | testUsers fd env =>
    have hin : a.incoming = [] := by simp [incoming, hpc]
    simp only [hpc] at hb
    split_ifs at hb with husers
    · obtain rfl := Option.some.inj hb
      exact h.frame rfl rfl hin.symm fun ht => by cases ht
    · obtain rfl := Option.some.inj hb
      refine h.frame rfl rfl hin.symm fun _ => ?_
      have hfits : intToU32 a.server.pool.onLineUserCount = a.server.pool.clients.length := by
        have hlimit := h.limit
        rw [intToU32, h.counted, Int.emod_eq_of_lt (by omega) (by omega), Int.toNat_natCast]
      simpa [Server.tooManyUsers, hfits, h.config] using husers
  | testPool fd env =>
    have hin : a.incoming = [] := by simp [incoming, hpc]
    have hroom : a.server.pool.clients.length < n := h.room (by simp [testedUsers, hpc])
    simp only [hpc] at hb
    split_ifs at hb <;> obtain rfl := Option.some.inj hb <;>
      exact h.frame rfl rfl hin.symm fun _ => hroom
  | testFree fd env =>
    have hin : a.incoming = [] := by simp [incoming, hpc]
    have hroom : a.server.pool.clients.length < n := h.room (by simp [testedUsers, hpc])
    simp only [hpc] at hb
    split_ifs at hb <;> obtain rfl := Option.some.inj hb <;>
      exact h.frame rfl rfl hin.symm fun _ => hroom
  | getConnection fd env =>
    have hin : a.incoming = [] := by simp [incoming, hpc]
    have hroom : a.server.pool.clients.length < n := h.room (by simp [testedUsers, hpc])
    simp only [hpc] at hb
    obtain rfl := Option.some.inj hb
    have hpool := h.placed
    unfold Acceptor.placed at hpool
    rw [hin] at hpool
    obtain ⟨honline, hclients⟩ := Server.getConnection_pool a.server.pool
    have hget : (a.server.getConnection fd env.now).pool = a.server.pool.getConnection := rfl
    refine ⟨h.config, ?_, ?_, ?_, fun _ => ?_⟩
    · refine hpool.taken.same ?_
      unfold Acceptor.placed ConnectionPool.taken
      rw [hget]
      exact ⟨rfl, rfl, rfl, rfl, by simp [incoming, hclients, ConnectionPool.front]⟩
    · rw [hget, honline, hclients, h.counted]
    · rw [hget, hclients]
      exact h.limit
    · rw [hget, hclients]
      exact hroom
  | install c env =>
    have hin : a.incoming = [c] := by simp [incoming, hpc]
    have hroom : a.server.pool.clients.length < n := h.room (by simp [testedUsers, hpc])
    simp only [hpc] at hb
    obtain ⟨s, hs, rfl⟩ := Option.map_eq_some_iff.mp hb
    have hpool : s.pool = { a.server.pool with
        onLineUserCount := a.server.pool.onLineUserCount + 1
        clients := c :: a.server.pool.clients } := by
      unfold Server.installAccepted at hs
      dsimp only at hs
      split_ifs at hs
      rw [← Option.some.inj hs]
      unfold Server.startTimer
      split <;> rfl
    refine ⟨?_, ?_, ?_, ?_, fun ht => by cases ht⟩
    · rw [(Server.installAccepted_frame hs).1, h.config]
    · refine h.placed.same ?_
      unfold Acceptor.placed
      rw [hin, hpool]
      exact ⟨rfl, rfl, rfl, rfl, rfl⟩
    · simp [hpool, h.counted]
    · rw [hpool]
      exact hroom

theorem Limited.step {e : AcceptorEvent} (h : a.Limited n) (hn : n < 2 ^ 32)
    (hc : a.ClosesUsed e) (he : a.Enabled e) (hb : a.next e = some b) : b.Limited n := by
  cases e with
  | enter env =>
    obtain rfl := Option.some.inj hb
    have hin : a.incoming = [] := by simp [incoming, he.1]
    obtain ⟨hcfg, hpool⟩ := Server.acceptCalls_frame env.accept a.server
    unfold enter
    generalize a.server.acceptCalls env.accept = r at hcfg hpool
    rcases r with ⟨s, _ | fd⟩ <;> exact h.frame hcfg hpool hin.symm fun ht => by cases ht
  | advance => exact h.advance hn hb
  | other e =>
    obtain ⟨s, hs, rfl⟩ := Option.map_eq_some_iff.mp hb
    refine h.other ?_ hc hs
    rintro env rfl
    exact he.1
  | miscount n => exact hc.elim

/-- There are never more clients than configured, although the handler can be interrupted between
its test and the counting, and `m_OnLineUserCount` counts them. -/
theorem clients_limited (hn : cfg.epollCreateConnectCount < 2 ^ 32)
    (h : ((admission cfg fds).restrict ClosesUsed).Run es a) :
    a.server.pool.clients.length ≤ cfg.epollCreateConnectCount ∧
      a.server.pool.onLineUserCount = a.server.pool.clients.length ∧
      (a.incoming ++ a.server.pool.clients).Nodup := by
  have hlimited : a.Limited cfg.epollCreateConnectCount :=
    h.invariant (fun _ hs => limited_start hs) fun _ _ _ hs hstep =>
      hs.step hn hstep.1 hstep.2.1 hstep.2.2
  exact ⟨hlimited.limit, hlimited.counted, hlimited.placed.nodup_clients⟩

/-- The first client leaves between the test and the counting of the second; a third one is let in
and a fourth one turned away. -/
theorem clients_limited_interrupted : ∃ (cfg : Config) (a : Acceptor),
    cfg.epollCreateConnectCount = 2 ∧ a.server.pool.clients = [3, 2] ∧
      a.server.pool.clients.length ≤ cfg.epollCreateConnectCount ∧
        a.server.pool.onLineUserCount = a.server.pool.clients.length ∧
          (a.incoming ++ a.server.pool.clients).Nodup := by
  let cfg := { Server.smallConfig with epollCreateConnectCount := 2 }
  let enter (fd : ℕ) : AcceptorEvent := .enter { HandlerEnv.idle with accept := [.accepted fd] }
  let es : List AcceptorEvent :=
    [enter 4, .advance, .advance, .advance, .advance,
      enter 5, .advance, .other (.close 1 0), .advance, .advance, .advance,
      enter 6, .advance, .advance, .advance, .advance, enter 7, .advance]
  have hplay : (System.play (fun a e => a.ClosesUsed e ∧ a.Enabled e) next es
      ⟨Server.smallBoot cfg, .outside⟩).map (fun a => a.server.pool.clients) = some [3, 2] := by
    decide +kernel
  obtain ⟨a, ha, hclients⟩ := Option.map_eq_some_iff.mp hplay
  have hstart : Start cfg [3] ⟨Server.smallBoot cfg, .outside⟩ := ⟨0, _, _, _, rfl⟩
  have hrun : ((admission cfg [3]).restrict ClosesUsed).Run es a := by
    unfold admission
    rw [System.restrict_ofNext]
    exact System.run_of_play hstart ha
  exact ⟨cfg, a, rfl, hclients, clients_limited (by decide) hrun⟩

end Acceptor
end XiaoHGServer
