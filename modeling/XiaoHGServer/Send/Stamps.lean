import XiaoHGServer.Pool.Descriptors
import XiaoHGServer.Send.Queue

/-!
# Stamps of the past

A message header is stamped with the serial number that its connection has at that
moment, and a reply has the header of its request. Serial numbers only grow as
long as none of them wraps around, so that no header carries a number that its
connection has yet to reach.
-/

namespace XiaoHGServer
namespace Server

variable {s t : Server} {c : ConnId} {e : Event} {P : MsgHeader → Prop}

/-- Every header in a receive buffer or in a send buffer satisfies `P`. -/
structure Headers (s : Server) (P : MsgHeader → Prop) : Prop where
  recv : ∀ b < s.recvQueue.mem.next, P (s.recvHeader b)
  send : ∀ b < s.sendQueue.mem.next, P (s.sendHeader b)

namespace Headers

theorem mono {Q : MsgHeader → Prop} (h : s.Headers P) (hpq : ∀ hd, P hd → Q hd) :
    s.Headers Q where
  recv b hb := hpq _ (h.recv b hb)
  send b hb := hpq _ (h.send b hb)

end Headers

theorem step_recvMem (h : s.next e = some t) :
    (t.recvQueue.mem.next = s.recvQueue.mem.next ∧ ∀ b, t.recvHeader b = s.recvHeader b) ∨
      ∃ c env, e = .read c env ∧ StampsOnly c s (s.readBase c env.recv env.currTime).1 ∧
        t.recvQueue = (s.readBase c env.recv env.currTime).1.recvQueue := by
  have same (hq : t.recvQueue = s.recvQueue) : t.recvQueue.mem.next = s.recvQueue.mem.next ∧
      ∀ b, t.recvHeader b = s.recvHeader b :=
    ⟨by rw [hq], fun b => by simp only [recvHeader, hq]⟩
  have freed {p : Option BufId}
      (hq : t.recvQueue = { s.recvQueue with mem := s.recvQueue.mem.freeMemory p }) :
      t.recvQueue.mem.next = s.recvQueue.mem.next ∧ ∀ b, t.recvHeader b = s.recvHeader b :=
    ⟨by simp [hq], fun b => by simp [recvHeader, hq]⟩
  cases e with
  | accept env =>
    rcases accept_cases h with ⟨b, calls, rfl, -⟩ | ⟨fd, b, -, rfl⟩ <;> exact Or.inl (same rfl)
  | read c env =>
    obtain rfl := Option.some.inj h
    refine Or.inr ⟨c, env, rfl, stampsOnly_readBase s c env.recv env.currTime, ?_⟩
    rw [read_eq]
    split
    · rw [closeConnectionToRecy_eq]
    · rfl
  | outError c =>
    obtain rfl := Option.some.inj h
    exact Or.inl (same rfl)
  | write c env =>
    rcases write_cases h with ⟨n, -, -, -, rfl⟩ | ⟨-, rfl⟩ | ⟨n, -, -, -, rfl⟩ | ⟨-, rfl⟩ <;>
      exact Or.inl (same rfl)
  | take =>
    obtain rfl := Option.some.inj h
    unfold takeRecvMsg
    split <;> exact Or.inl ⟨rfl, fun _ => rfl⟩
  | handle i now =>
    obtain rfl | ⟨w, u, r, -, ⟨m, m', x, rfl, hcustody, -⟩, rfl⟩ := workerHandle_cases h
    · exact Or.inl (same rfl)
    · exact Or.inl ⟨hcustody.next, hcustody.header⟩
  | push i now =>
    obtain ⟨rfl, -⟩ | ⟨b, u, -, hu, rfl⟩ := workerPush_cases h
    · exact Or.inl (same rfl)
    · obtain ⟨size, discard, mem, k, rfl, -⟩ := push_cases hu
      have hbase : (s.pushBase b now).recvQueue = s.recvQueue := by
        unfold pushBase
        split <;> simp [closeConnectionToRecy_eq]
      exact Or.inl (same hbase)
  | release i =>
    obtain rfl := Option.some.inj h
    unfold workerRelease
    split
    · exact Or.inl ⟨rfl, fun _ => rfl⟩
    · refine Or.inl ⟨?_, fun b => ?_⟩ <;> simp [recvHeader]
  | semWait => cases h; exact Or.inl (same rfl)
  | semIntr => cases h; exact Or.inl (same rfl)
  | sizeTest => cases h; exact Or.inl (same rfl)
  | iterate env =>
    obtain rfl | ⟨pos, -, h⟩ := iterate_pass h
    · exact Or.inl (same rfl)
    · rcases iterate_cases h with ⟨-, rfl⟩ | ⟨b, -, ⟨-, rfl⟩ | ⟨-, -, rfl⟩ | ⟨-, -, hstart⟩⟩
      · exact Or.inl (same rfl)
      · exact Or.inl (same rfl)
      · exact Or.inl (same rfl)
      · rcases startSend_cases hstart with ⟨-, rfl⟩ | ⟨n, -, -, -, rfl⟩ | ⟨-, rfl⟩ <;>
          exact Or.inl (same rfl)
  | close c now =>
    obtain rfl := Option.some.inj h
    exact Or.inl (same (by rw [closeConnectionToRecy_eq]))
  | recycle now =>
    obtain ⟨c, -, rfl⟩ := lblRRTD_eq_some h
    exact Or.inl (freed rfl)
  | clear =>
    obtain ⟨c, -, rfl⟩ := lblRRTD2_eq_some h
    exact Or.inl (freed rfl)
  | monitor now =>
    obtain ⟨hd, q, -, -, ⟨-, rfl⟩ | ⟨-, rfl⟩⟩ := monitor_cases h
    · exact Or.inl (same (by simp [closeConnectionToRecy_eq]))
    · exact Or.inl (same rfl)

/-- The connection whose serial number a step increments. -/
def renumbers (s : Server) : Event → Option ConnId
  | .accept env => s.acceptedConn env
  | .recycle now => s.recycles (.recycle now)
  | .clear => s.recycles .clear
  | e => (s.closes e).filter fun c => c ∉ s.pool.recyConnectionList

/-- No serial number starts again from zero. -/
def KeepsCounting (s : Server) (e : Event) : Prop :=
  ∀ c ∈ s.renumbers e, (s.conn c).currSequence + 1 < 2 ^ 64

instance (s : Server) (e : Event) : Decidable (s.KeepsCounting e) := by
  unfold KeepsCounting
  infer_instance

theorem renumbers_of_closes (h : s.closes e = some c) (hc : c ∉ s.pool.recyConnectionList) :
    s.renumbers e = some c := by
  cases e with
  | accept env => cases h
  | recycle now => cases h
  | clear => cases h
  | _ => simpa [renumbers, h] using hc

theorem renumbers_of_recycles (h : s.recycles e = some c) : s.renumbers e = some c := by
  cases e with
  | recycle now => exact h
  | clear => exact h
  | _ => cases h

theorem u64_succ {n : ℕ} (h : n + 1 < 2 ^ 64) : u64 (n + 1) = n + 1 := Nat.mod_eq_of_lt h

theorem accept_sequence (env : HandlerEnv) (fd : ℕ) (hn : s.Numbered)
    (hk : s.KeepsCounting (.accept env)) (hacc : s.acceptedConn env = some s.pool.front)
    (hc : s.pool.front ∈ s.pool.connectionList) :
    ((s.admitted fd env.now).conn s.pool.front).currSequence =
      (s.conn s.pool.front).currSequence + 1 := by
  have hfree : s.pool.freeConnectionList ≠ [] := fun hnil => hn.front.2.2.2.2 hnil hc
  have hlt : (s.conn s.pool.front).currSequence + 1 < 2 ^ 64 := hk _ hacc
  simp [admitted, taken, hfree, Connection.installed, Connection.getOneToUse, u64_succ hlt]

/-- A step leaves the serial number of an object, or increments it. -/
theorem step_sequence (hn : s.Numbered) (hk : s.KeepsCounting e) (h : s.next e = some t)
    (hc : c ∈ s.pool.connectionList) :
    (t.conn c).currSequence = (s.conn c).currSequence ∨
      (t.conn c).currSequence = (s.conn c).currSequence + 1 := by
  by_cases hacc : ∃ env, e = .accept env
  · obtain ⟨env, rfl⟩ := hacc
    rcases accept_taken h with ⟨-, b, k, rfl⟩ | ⟨hsome, -, fd, b, rfl⟩
    · exact Or.inl rfl
    · by_cases hfront : c = s.pool.front
      · subst hfront
        exact Or.inr (accept_sequence env fd hn hk hsome hc)
      · exact Or.inl (by simp [admitted, hfront])
  · rcases step_useMove h with ⟨-, hsame⟩ | ⟨env, fd, he, -⟩ | ⟨d, now, hd, hsame⟩ |
      ⟨d, n, hd, hrec, hsame⟩
    · exact Or.inl (hsame.2 c)
    · exact absurd ⟨env, he⟩ hacc
    · rw [hsame.2, closeConnectionToRecy_eq]
      by_cases hcd : c = d
      · subst hcd
        by_cases hq : c ∈ s.pool.recyConnectionList
        · exact Or.inl (by simp [Connection.closed, hq])
        · refine Or.inr ?_
          simp [Connection.closed, hq, u64_succ (hk c (renumbers_of_closes hd hq))]
      · exact Or.inl (by simp [hcd])
    · rw [hsame.2]
      by_cases hcd : c = d
      · subst hcd
        exact Or.inr (by simp [recycled, u64_succ (hk c (renumbers_of_recycles hrec))])
      · exact Or.inl (by simp [recycled, hcd])

/-- No header carries a number that its connection has yet to reach. -/
def StampsPast (s : Server) : Prop :=
  s.Headers fun hd => hd.currSequence ≤ (s.conn hd.pConn).currSequence

theorem ClientPointers.headers (h : s.ClientPointers) : s.Headers fun hd => s.IsClient hd.pConn :=
  ⟨h.recv.header, h.send.header⟩

end Server
end XiaoHGServer
