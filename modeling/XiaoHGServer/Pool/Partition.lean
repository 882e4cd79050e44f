import Mathlib.Data.List.Perm.Basic
import Mathlib.Data.List.Range
import XiaoHGServer.Pool.Clients

/-!
# The places of a connection object

Every object of the pool is in the free list, in the recycling queue, or in use.
`GetConnection`, `CloseConnectionToRecy` and the recycler move objects between
these places, and the partition survives as long as no object that lies in the
free list is closed: `PushConnectToRecyQueue` looks for duplicates in the
recycling queue only.
-/

namespace XiaoHGServer
namespace ConnectionPool

variable {p : ConnectionPool} {c : ConnId}

def inUse (p : ConnectionPool) : List ConnId := p.clients ++ p.listenSocketList

def online (p : ConnectionPool) : ConnectionPool :=
  { p.getConnection with
    onLineUserCount := p.onLineUserCount + 1
    clients := p.front :: p.clients }

def closed (p : ConnectionPool) (c : ConnId) : ConnectionPool :=
  { p.pushConnectToRecyQueue c with clients := p.clients.erase c }

def recycled (p : ConnectionPool) (c : ConnId) : ConnectionPool :=
  (p.takeFromRecyQueue c).freeConnection c

/-- Every object of `m_ConnectionList` has exactly one place, and the counters count. -/
structure Sound (p : ConnectionPool) : Prop where
  place : ∀ c ∈ p.connectionList,
    p.freeConnectionList.count c + p.recyConnectionList.count c + p.inUse.count c = 1
  objects : ∀ c ∈ p.freeConnectionList ++ p.recyConnectionList ++ p.inUse, c ∈ p.connectionList
  distinct : p.connectionList.Nodup
  totalConnectionCount : p.totalConnectionCount = p.connectionList.length
  freeConnectionCount : p.freeConnectionCount = p.freeConnectionList.length
  delayRecoveryConnectionCount : p.delayRecoveryConnectionCount = p.recyConnectionList.length
  onLineUserCount : p.onLineUserCount = p.clients.length
  getConnection : p.front ∉ p.inUse

/-- The places together are the pool, whose objects are numbered in the order of their creation. -/
structure Partition (p : ConnectionPool) : Prop where
  perm : (p.freeConnectionList ++ p.recyConnectionList ++ p.inUse).Perm p.connectionList
  numbered : p.connectionList = List.range p.connectionList.length
  total : p.totalConnectionCount = p.connectionList.length
  free : p.freeConnectionCount = p.freeConnectionList.length
  delay : p.delayRecoveryConnectionCount = p.recyConnectionList.length
  online : p.onLineUserCount = p.clients.length

namespace Partition

theorem nodup (h : p.Partition) : p.connectionList.Nodup := by
  rw [h.numbered]
  exact List.nodup_range

theorem mem_iff (h : p.Partition) : c ∈ p.connectionList ↔ c < p.connectionList.length := by
  conv_lhs => rw [h.numbered]
  exact List.mem_range

theorem nodup_places (h : p.Partition) :
    (p.freeConnectionList ++ p.recyConnectionList ++ p.inUse).Nodup :=
  h.perm.nodup_iff.mpr h.nodup

/-- The object `GetConnection` returns is idle or new. -/
theorem front_notMem (h : p.Partition) : p.front ∉ p.recyConnectionList ++ p.inUse := by
  have hnd := h.nodup_places
  unfold front
  cases hf : p.freeConnectionList with
  | nil =>
    intro hmem
    have : p.connectionList.length ∈ p.connectionList :=
      h.perm.subset (by simpa [hf] using hmem)
    exact absurd (h.mem_iff.mp this) (lt_irrefl _)
  | cons f rest =>
    rw [hf, List.cons_append, List.cons_append, List.nodup_cons] at hnd
    simp only [List.headD_cons]
    intro hmem
    apply hnd.1
    rw [List.append_assoc]
    exact List.mem_append_right _ hmem

theorem sound (h : p.Partition) : p.Sound where
  place c hc := by
    rw [← List.count_append, ← List.count_append, h.perm.count_eq]
    exact List.count_eq_one_of_mem h.nodup hc
  objects c hc := h.perm.subset hc
  distinct := h.nodup
  totalConnectionCount := h.total
  freeConnectionCount := h.free
  delayRecoveryConnectionCount := h.delay
  onLineUserCount := h.online
  getConnection hmem := h.front_notMem (List.mem_append_right _ hmem)

theorem getConnection (h : p.Partition) :
    p.getConnection.connectionList = List.range p.getConnection.connectionList.length ∧
      p.getConnection.totalConnectionCount = p.getConnection.connectionList.length ∧
      p.getConnection.freeConnectionCount = p.getConnection.freeConnectionList.length ∧
      p.front ∈ p.getConnection.connectionList ∧
      (p.front :: (p.getConnection.freeConnectionList ++ p.recyConnectionList ++ p.inUse)).Perm
        p.getConnection.connectionList := by
  unfold ConnectionPool.getConnection front
  cases hf : p.freeConnectionList with
  | nil =>
    refine ⟨?_, ?_, ?_, by simp, ?_⟩
    · rw [List.length_append, List.length_singleton, List.range_succ, ← h.numbered]
    · simp [h.total]
    · simp [h.free, hf]
    · have := h.perm
      rw [hf] at this
      simpa [hf] using (List.perm_append_singleton _ _).symm.trans
        (this.append_right [p.connectionList.length]) |>.trans (List.Perm.refl _)
  | cons f rest =>
    have hperm := h.perm
    rw [hf, List.cons_append, List.cons_append] at hperm
    refine ⟨h.numbered, h.total, ?_, hperm.subset (List.mem_cons_self ..), hperm⟩
    have := h.free
    rw [hf] at this
    simp [this]

theorem online_step (h : p.Partition) : p.online.Partition := by
  obtain ⟨hnum, htotal, hfree, -, hperm⟩ := h.getConnection
  have hrecy : p.getConnection.recyConnectionList = p.recyConnectionList ∧
      p.getConnection.listenSocketList = p.listenSocketList ∧
      p.getConnection.delayRecoveryConnectionCount = p.delayRecoveryConnectionCount := by
    unfold ConnectionPool.getConnection
    split <;> exact ⟨rfl, rfl, rfl⟩
  refine ⟨?_, hnum, htotal, hfree, ?_, ?_⟩
  · simp only [ConnectionPool.online, inUse, hrecy.1, hrecy.2.1, List.cons_append]
    exact List.perm_middle.trans hperm
  · simp only [ConnectionPool.online, hrecy.1, hrecy.2.2, h.delay]
  · simp [ConnectionPool.online, h.online]

theorem closed_step (h : p.Partition) (hc : c ∈ p.connectionList) (hfree : c ∉ p.freeConnectionList)
    (hlisten : c ∉ p.listenSocketList) : (p.closed c).Partition := by
  have hnd := h.nodup_places
  have hplace := h.perm.mem_iff.mpr hc
  simp only [inUse, List.mem_append, hfree, hlisten, false_or, or_false] at hplace
  unfold ConnectionPool.closed pushConnectToRecyQueue
  by_cases hq : c ∈ p.recyConnectionList
  · have hcl : c ∉ p.clients := by
      intro hm
      have := (List.nodup_append.mp hnd).2.2 c (List.mem_append_right _ hq) c
        (List.mem_append_left _ hm)
      exact this rfl
    rw [if_pos hq, List.erase_of_not_mem hcl]
    exact h
  · have hcl : c ∈ p.clients := hplace.resolve_left hq
    rw [if_neg hq]
    refine ⟨?_, h.numbered, h.total, h.free, ?_, ?_⟩
    · refine List.Perm.trans ?_ h.perm
      simp only [inUse, List.append_assoc]
      refine List.Perm.append_left _ (List.Perm.append_left _ ?_)
      have := (List.perm_cons_erase hcl).symm.append_right p.listenSocketList
      simpa using this
    · simp [h.delay]
    · have hpos := List.length_pos_of_mem hcl
      have hlen := List.length_erase_of_mem hcl
      simp only [h.online, hlen]
      omega

theorem recycled_step (h : p.Partition) (hc : c ∈ p.recyConnectionList) :
    (p.recycled c).Partition := by
  have hpos := List.length_pos_of_mem hc
  have hlen := List.length_erase_of_mem hc
  refine ⟨?_, h.numbered, h.total, ?_, ?_, h.online⟩
  · refine List.Perm.trans ?_ h.perm
    simp only [ConnectionPool.recycled, freeConnection, takeFromRecyQueue, inUse, List.append_assoc]
    refine List.Perm.append_left _ ?_
    have := (List.perm_cons_erase hc).symm.append_right (p.clients ++ p.listenSocketList)
    simpa using this
  · simp [ConnectionPool.recycled, freeConnection, takeFromRecyQueue, h.free]
  · simp only [ConnectionPool.recycled, freeConnection, takeFromRecyQueue, h.delay, hlen]
    omega

end Partition
end ConnectionPool

namespace Server

variable {s t : Server} {c : ConnId} {now : ℤ} {e : Event}

/-- The connection that a step calls `CloseConnectionToRecy` on. -/
def closes (s : Server) : Event → Option ConnId
  | .read c env => if (s.readBase c env.recv env.currTime).2 then some c else none
  | .push i _ =>
    match s.stage i with
    | some (.reply b) => if s.backlogged b then some (s.sendHeader b).pConn else none
    | _ => none
  | .close c _ => some c
  | .monitor now => (s.overdue now).bind fun h => if s.kicks h now then some h.pConn else none
  | _ => none

def recycles (s : Server) : Event → Option ConnId
  | .recycle now => s.pool.recyConnectionList.find? (s.recoveryDue now)
  | .clear => s.pool.recyConnectionList.head?
  | _ => none

/-- `CloseConnectionToRecy` is not called on an object of the free list. -/
def ClosesNoFree (s : Server) (e : Event) : Prop :=
  ∀ c ∈ s.closes e, c ∉ s.pool.freeConnectionList

inductive PoolMove (s : Server) (e : Event) (p : ConnectionPool) : Prop
  | same : s.closes e = none → p = s.pool → PoolMove s e p
  | online (env : HandlerEnv) : e = .accept env → p = s.pool.online → PoolMove s e p
  | close (c : ConnId) : s.closes e = some c → p = s.pool.closed c → PoolMove s e p
  | recycle (c : ConnId) : s.closes e = none → c ∈ s.pool.recyConnectionList →
      p = s.pool.recycled c → PoolMove s e p

theorem closeConnectionToRecy_pool : (s.closeConnectionToRecy c now).pool = s.pool.closed c := by
  rw [closeConnectionToRecy_eq]
  rfl

theorem closed_free (p : ConnectionPool) (c : ConnId) :
    (p.closed c).freeConnectionList = p.freeConnectionList := by
  unfold ConnectionPool.closed ConnectionPool.pushConnectToRecyQueue
  split <;> rfl

theorem iterate_pool {pos : ℕ} {env : SendEnv} (h : s.sendMsgThreadIter pos env = some t) :
    t.pool = s.pool := by
  rcases iterate_cases h with ⟨-, rfl⟩ | ⟨b, -, ⟨-, rfl⟩ | ⟨-, -, rfl⟩ | ⟨-, -, hstart⟩⟩
  · rfl
  · rfl
  · rfl
  · rcases startSend_cases hstart with ⟨-, rfl⟩ | ⟨n, -, -, -, rfl⟩ | ⟨-, rfl⟩ <;> rfl

theorem write_pool {env : SendEnv} (h : s.epollEventWriteRequestHandler c env = some t) :
    t.pool = s.pool := by
  rcases write_cases h with ⟨n, -, -, -, rfl⟩ | ⟨-, rfl⟩ | ⟨n, -, -, -, rfl⟩ | ⟨-, rfl⟩ <;> rfl

theorem step_pool (h : s.next e = some t) : PoolMove s e t.pool := by
  cases e with
  | accept env =>
    rcases accept_cases h with ⟨b, calls, rfl, -⟩ | ⟨fd, b, -, rfl⟩
    · exact .same rfl rfl
    · exact .online env rfl rfl
  | read c env =>
    obtain rfl := Option.some.inj h
    obtain ⟨q, r, f, hform⟩ := onlyRecv_readBase s c env.recv env.currTime
    have hpool : (s.readBase c env.recv env.currTime).1.pool = s.pool := by
      rw [hform]
      rfl
    by_cases hclose : (s.readBase c env.recv env.currTime).2 = true
    · refine .close c (by simp [closes, hclose]) ?_
      rw [read_eq, if_pos hclose, closeConnectionToRecy_pool, hpool]
    · refine .same (by simp [closes, hclose]) ?_
      rw [read_eq, if_neg hclose, hpool]
  | outError c =>
    obtain rfl := Option.some.inj h
    exact .same rfl rfl
  | write c env => exact .same rfl (write_pool h)
  | take =>
    obtain rfl := Option.some.inj h
    unfold takeRecvMsg
    split <;> exact .same rfl rfl
  | handle i now =>
    obtain rfl | ⟨w, u, r, -, ⟨m, m', x, rfl, -⟩, rfl⟩ := workerHandle_cases h
    · exact .same rfl rfl
    · exact .same rfl rfl
  | push i now =>
    obtain ⟨rfl, hno⟩ | ⟨b, u, hstage, hu, rfl⟩ := workerPush_cases h
    · exact .same (by simp [closes]) rfl
    · obtain ⟨size, discard, mem, k, rfl, -⟩ := push_cases hu
      by_cases hback : s.backlogged b = true
      · refine .close (s.sendHeader b).pConn (by simp [closes, hstage, hback]) ?_
        simp only [setStage, pushBase, hback, if_true]
        exact closeConnectionToRecy_pool
      · exact .same (by simp [closes, hstage, hback]) (by simp [setStage, pushBase, hback])
  | release i =>
    obtain rfl := Option.some.inj h
    unfold workerRelease
    split <;> exact .same rfl rfl
  | semWait => cases h; exact .same rfl rfl
  | semIntr => cases h; exact .same rfl rfl
  | sizeTest => cases h; exact .same rfl rfl
  | iterate env =>
    obtain rfl | ⟨pos, -, h⟩ := iterate_pass h
    · exact .same rfl rfl
    · exact .same rfl (iterate_pool h)
  | close c now =>
    obtain rfl := Option.some.inj h
    exact .close c rfl closeConnectionToRecy_pool
  | recycle now =>
    obtain ⟨c, hc, rfl⟩ := lblRRTD_eq_some h
    exact .recycle c rfl (List.mem_of_find?_eq_some hc) rfl
  | clear =>
    obtain ⟨c, hc, rfl⟩ := lblRRTD2_eq_some h
    exact .recycle c rfl (List.mem_of_mem_head? hc) rfl
  | monitor now =>
    obtain ⟨hd, q, hover, -, ⟨hkick, rfl⟩ | ⟨hkick, rfl⟩⟩ := monitor_cases h
    · exact .close hd.pConn (by simp [closes, hover, hkick]) closeConnectionToRecy_pool
    · exact .same (by simp [closes, hover, hkick]) rfl

/-- A connection is in use after a step if it was before, or if it has just been accepted. -/
theorem step_clients (h : s.next e = some t) (hc : c ∈ t.pool.clients) :
    c ∈ s.pool.clients ∨
      c = s.pool.front ∧ ∃ fd now b, t = { s.admitted fd now with iIsAccept4 := b } := by
  by_cases hacc : ∃ env, e = .accept env
  · obtain ⟨env, rfl⟩ := hacc
    rcases accept_cases h with ⟨b, calls, rfl, -⟩ | ⟨fd, b, -, rfl⟩
    · exact Or.inl hc
    · rcases List.mem_cons.mp hc with rfl | hc
      · exact Or.inr ⟨rfl, fd, env.now, b, rfl⟩
      · exact Or.inl hc
  · left
    rcases step_pool h with ⟨-, heq⟩ | ⟨env, heq, -⟩ | ⟨d, -, heq⟩ | ⟨d, -, -, heq⟩
    · rwa [heq] at hc
    · exact absurd ⟨env, heq⟩ hacc
    · rw [heq] at hc
      exact List.mem_of_mem_erase hc
    · rwa [heq] at hc

/-- Only clients' connections are closed. -/
theorem closes_isClient (hs : s.ClientPointers) (he : s.Enabled e) (h : s.next e = some t)
    (hc : s.closes e = some c) : s.IsClient c := by
  cases e with
  | read d env =>
    simp only [closes] at hc
    split_ifs at hc
    obtain rfl := Option.some.inj hc
    exact he.1
  | push i now =>
    simp only [closes] at hc
    split at hc
    · rename_i b hstage
      split_ifs at hc
      obtain rfl := Option.some.inj hc
      obtain ⟨w, hw, hb⟩ := Option.map_eq_some_iff.mp hstage
      exact hs.send.header b (hs.send.replies w (List.mem_of_getElem? hw) b hb)
    · cases hc
  | close d now =>
    obtain rfl := Option.some.inj hc
    exact he
  | monitor now =>
    obtain ⟨hd, q, hover, hsound, -⟩ := monitor_cases h
    simp only [closes, hover, Option.bind_some] at hc
    split_ifs at hc
    obtain rfl := Option.some.inj hc
    exact (hsound _ hs.timer).1
  | _ => cases hc

/-- The objects of clients belong to the pool and serve no listening socket. -/
def ClientObjects (s : Server) : Prop :=
  ∀ c, s.IsClient c → c ∈ s.pool.connectionList ∧ c ∉ s.pool.listenSocketList

/-- The pool is partitioned, and clients' connections are objects of it. -/
structure PoolInv (s : Server) : Prop where
  partition : s.pool.Partition
  clients : s.ClientObjects

theorem getConnection_lists (p : ConnectionPool) :
    p.connectionList ⊆ p.getConnection.connectionList ∧
      p.getConnection.listenSocketList = p.listenSocketList := by
  unfold ConnectionPool.getConnection
  split
  · exact ⟨List.Subset.refl _, rfl⟩
  · exact ⟨List.subset_append_left _ _, rfl⟩

/-- The pool only grows, and the listening sockets stay. -/
theorem PoolMove.lists {p : ConnectionPool} (h : PoolMove s e p) :
    s.pool.connectionList ⊆ p.connectionList ∧ p.listenSocketList = s.pool.listenSocketList := by
  rcases h with ⟨-, rfl⟩ | ⟨-, -, rfl⟩ | ⟨c, -, rfl⟩ | ⟨c, -, -, rfl⟩
  · exact ⟨List.Subset.refl _, rfl⟩
  · exact getConnection_lists s.pool
  · unfold ConnectionPool.closed ConnectionPool.pushConnectToRecyQueue
    split <;> exact ⟨List.Subset.refl _, rfl⟩
  · exact ⟨List.Subset.refl _, rfl⟩

/-- Objects are numbered in the order of their creation, and what the lists and the callbacks
say of objects they say of objects of the pool. -/
structure Numbered (s : Server) : Prop where
  numbered : s.pool.connectionList = List.range s.pool.connectionList.length
  idle : ∀ c ∈ s.pool.freeConnectionList ++ s.pool.recyConnectionList, c ∈ s.pool.connectionList
  clients : ∀ c, s.IsClient c → c ∈ s.pool.connectionList

theorem Numbered.front (h : s.Numbered) :
    s.pool.getConnection.connectionList =
        List.range s.pool.getConnection.connectionList.length ∧
      s.pool.front ∈ s.pool.getConnection.connectionList ∧
      s.pool.getConnection.freeConnectionList ⊆ s.pool.freeConnectionList ∧
      s.pool.getConnection.recyConnectionList = s.pool.recyConnectionList ∧
      (s.pool.freeConnectionList = [] → s.pool.front ∉ s.pool.connectionList) := by
  unfold ConnectionPool.getConnection ConnectionPool.front
  cases hf : s.pool.freeConnectionList with
  | nil =>
    refine ⟨?_, by simp, by simp, rfl, fun _ => ?_⟩
    · rw [List.length_append, List.length_singleton, List.range_succ, ← h.numbered]
    · rw [h.numbered]
      simp
  | cons f rest =>
    exact ⟨h.numbered, h.idle f (by simp [hf]), List.subset_cons_self _ _, rfl,
      fun h => by cases h⟩

theorem mem_getConnection_free {p : ConnectionPool} {d : ConnId} (hd : d ≠ p.front) :
    d ∈ p.getConnection.freeConnectionList ↔ d ∈ p.freeConnectionList := by
  unfold ConnectionPool.getConnection
  cases hl : p.freeConnectionList with
  | nil => simp
  | cons f rest =>
    have hdf : d ≠ f := by simpa [ConnectionPool.front, hl] using hd
    simp [hdf]

theorem Numbered.front_cases (h : s.Numbered) :
    s.pool.front ∈ s.pool.freeConnectionList ∨ s.pool.front ∉ s.pool.connectionList := by
  cases hl : s.pool.freeConnectionList with
  | nil => exact Or.inr (h.front.2.2.2.2 hl)
  | cons f rest => exact Or.inl (by simp [ConnectionPool.front, hl])

theorem step_numbered (hs : s.Numbered) (hp : s.ClientPointers) (he : s.Enabled e)
    (h : s.next e = some t) : t.Numbered := by
  have hmove := step_pool h
  obtain ⟨hnum, hfront, hrest, hrecy, -⟩ := hs.front
  have hsub := hmove.lists.1
  have hidle {c : ConnId} (hc : c ∈ s.pool.freeConnectionList ∨ c ∈ s.pool.recyConnectionList) :
      c ∈ s.pool.connectionList := hs.idle c (List.mem_append.mpr hc)
  refine ⟨?_, fun c hc => ?_, fun c hc => ?_⟩
  · rcases hmove with ⟨-, heq⟩ | ⟨-, -, heq⟩ | ⟨c, -, heq⟩ | ⟨c, -, -, heq⟩
    all_goals rw [heq]
    · exact hs.numbered
    · exact hnum
    · unfold ConnectionPool.closed ConnectionPool.pushConnectToRecyQueue
      split <;> exact hs.numbered
    · exact hs.numbered
  · apply hsub
    rcases hmove with ⟨-, heq⟩ | ⟨-, -, heq⟩ | ⟨d, hd, heq⟩ | ⟨d, -, hd, heq⟩
    all_goals rw [heq] at hc
    · exact hs.idle c hc
    · rcases List.mem_append.mp hc with hc | hc
      · exact hidle (Or.inl (hrest hc))
      · exact hidle (Or.inr (hrecy ▸ hc))
    · unfold ConnectionPool.closed ConnectionPool.pushConnectToRecyQueue at hc
      split at hc
      · exact hs.idle c hc
      · simp only [List.mem_append, List.mem_singleton] at hc
        rcases hc with hc | hc | rfl
        · exact hidle (Or.inl hc)
        · exact hidle (Or.inr hc)
        · exact hs.clients _ (closes_isClient hp he h hd)
    · simp only [ConnectionPool.recycled, ConnectionPool.freeConnection,
        ConnectionPool.takeFromRecyQueue, List.mem_append, List.mem_singleton] at hc
      rcases hc with (hc | rfl) | hc
      · exact hidle (Or.inl hc)
      · exact hidle (Or.inr hd)
      · exact hidle (Or.inr (List.mem_of_mem_erase hc))
  · rcases step_callbacks h c with hcb | ⟨rfl, -, fd, now, b, rfl⟩
    · exact hsub (hs.clients c (by rwa [isClient_iff, ← hcb]))
    · exact hfront

theorem step_poolInv (hs : s.PoolInv) (hp : s.ClientPointers) (hfree : s.ClosesNoFree e)
    (he : s.Enabled e) (h : s.next e = some t) : t.PoolInv := by
  have hmove := step_pool h
  constructor
  · rcases hmove with ⟨-, heq⟩ | ⟨-, -, heq⟩ | ⟨c, hc, heq⟩ | ⟨c, -, hc, heq⟩
    all_goals rw [heq]
    · exact hs.partition
    · exact hs.partition.online_step
    · have hclient := hs.clients c (closes_isClient hp he h hc)
      exact hs.partition.closed_step hclient.1 (hfree c hc) hclient.2
    · exact hs.partition.recycled_step hc
  · intro c hc
    rcases step_callbacks h c with hcb | ⟨rfl, -, fd, now, b, rfl⟩
    · obtain ⟨hmem, hlisten⟩ := hs.clients c (by rwa [isClient_iff, ← hcb])
      exact ⟨hmove.lists.1 hmem, by rwa [hmove.lists.2]⟩
    · have hfront := hs.partition.front_notMem
      refine ⟨hs.partition.getConnection.2.2.2.1, ?_⟩
      rw [hmove.lists.2]
      intro hm
      exact hfront (List.mem_append_right _ (List.mem_append_right _ hm))

theorem noClients_boot (h : s.Booted) : ∀ c, ¬ s.IsClient c := by
  refine h.induction (P := fun s => ∀ c, ¬ s.IsClient c) (fun cfg now m₁ m₂ m₃ c => ?_)
    fun s fd now hs c => ?_
  · simp only [init, IsClient]
    split <;> simp [newConnection, Connection.getOneToUse]
  · by_cases hc : c = s.pool.front
    · simp [addListenSocket, getConnection, epollRegisterEvent, IsClient, hc]
    · simpa [addListenSocket, getConnection, epollRegisterEvent, IsClient, hc] using hs c

theorem partition_boot (h : s.Booted) : s.pool.Partition := by
  refine h.induction (P := fun s => s.pool.Partition) (fun cfg now _ _ _ => ?_)
    fun s fd now hs => ?_
  · refine ⟨?_, ?_, ?_, ?_, rfl, rfl⟩
    · simp [init, ConnectionPool.inUse]
    · simp [init]
    · simp [init]
    · simp [init]
  · obtain ⟨hnum, htotal, hfree, -, hperm⟩ := hs.getConnection
    have hsame : s.pool.getConnection.recyConnectionList = s.pool.recyConnectionList ∧
        s.pool.getConnection.listenSocketList = s.pool.listenSocketList ∧
        s.pool.getConnection.delayRecoveryConnectionCount =
          s.pool.delayRecoveryConnectionCount ∧
        s.pool.getConnection.onLineUserCount = s.pool.onLineUserCount ∧
        s.pool.getConnection.clients = s.pool.clients := by
      unfold ConnectionPool.getConnection
      split <;> exact ⟨rfl, rfl, rfl, rfl, rfl⟩
    obtain ⟨hrecy, hlisten, hdelay, honline, hclients⟩ := hsame
    refine ⟨?_, hnum, htotal, hfree, ?_, ?_⟩
    · refine List.Perm.trans ?_ hperm
      simp only [addListenSocket, getConnection, epollRegisterEvent, modifyConn_pool,
        ConnectionPool.inUse, hrecy, hlisten, hclients, ← List.append_assoc]
      exact List.perm_append_singleton _ _
    · simpa [addListenSocket, getConnection, epollRegisterEvent, hrecy, hdelay] using hs.delay
    · simpa [addListenSocket, getConnection, epollRegisterEvent, honline, hclients] using hs.online

theorem poolInv_boot (h : s.Booted) : s.PoolInv :=
  ⟨partition_boot h, fun c hc => absurd hc (noClients_boot h c)⟩

theorem clients_boot (h : s.Booted) : s.pool.clients = [] := by
  refine h.induction (P := fun s => s.pool.clients = []) (fun cfg now _ _ _ => rfl)
    fun s fd now hs => ?_
  have hget : s.pool.getConnection.clients = [] := (getConnection_pool s.pool).2.trans hs
  exact hget

theorem PoolInv.numbered (h : s.PoolInv) : s.Numbered where
  numbered := h.partition.numbered
  idle _ hc := h.partition.perm.subset (List.mem_append_left _ hc)
  clients c hc := (h.clients c hc).1

/-- In every run, objects are numbered and pointers are clients'. -/
theorem run_numbered {es : List Event} (h : process.Run es s) :
    s.Numbered ∧ s.ClientPointers := by
  refine ⟨h.trace_invariant (I := fun _ s => s.Numbered) ?_ ?_, run_clientPointers h⟩
  · intro s hb
    exact (poolInv_boot hb).numbered
  · intro _ s e t hrun hs hstep
    exact step_numbered hs (run_clientPointers hrun) hstep.1 hstep.2

/-- In every run in which no object of the free list is closed, the pool stays partitioned. -/
theorem run_poolInv {es : List Event} (h : (process.restrict ClosesNoFree).Run es s) :
    s.PoolInv ∧ s.ClientPointers := by
  refine ⟨h.trace_invariant (I := fun _ s => s.PoolInv) ?_ ?_, run_clientPointers h.of_restrict⟩
  · intro s hb
    exact poolInv_boot hb
  · intro _ s e t hrun hs hstep
    exact step_poolInv hs (run_clientPointers hrun.of_restrict) hstep.1 hstep.2.1 hstep.2.2

instance (s : Server) (e : Event) : Decidable (s.ClosesNoFree e) := by
  unfold ClosesNoFree
  infer_instance

/-- The pool never shares or loses a connection, as long as no object of the free list is
closed. -/
theorem pool_sound {es : List Event} (h : (process.restrict ClosesNoFree).Run es s) :
    s.pool.Sound := (run_poolInv h).1.partition.sound

/-- A client that comes, goes and is recycled. -/
theorem pool_sound_one_client : ∃ s : Server, s.pool.Sound ∧ s.pool.freeConnectionList = [1] := by
  obtain ⟨s, hrun, hs⟩ := process_run_of_play ClosesNoFree smallConfig
    [.accept { HandlerEnv.idle with accept := [.accepted 4] },
      .read 1 { HandlerEnv.idle with recv := .eof }, .recycle 0]
    (fun s => s.pool.freeConnectionList) [1] (by decide)
  exact ⟨s, pool_sound hrun, hs⟩

/-- The same object is closed once more after it was recycled: it is in two lists at once, and
the number of users is negative. -/
theorem pool_shared_after_second_close : ¬ ∀ es s, process.Run es s → s.pool.Sound := by
  intro hall
  obtain ⟨s, hrun, hs⟩ := process_run_of_play (fun _ _ => True) smallConfig
    [.accept { HandlerEnv.idle with accept := [.accepted 4] },
      .read 1 { HandlerEnv.idle with recv := .eof }, .recycle 0,
      .read 1 { HandlerEnv.idle with recv := .error }]
    (fun s => (s.pool.connectionList, s.pool.freeConnectionList, s.pool.recyConnectionList,
      s.pool.onLineUserCount)) ([0, 1], [1], [1], -1) (by decide)
  simp only [Prod.mk.injEq] at hs
  obtain ⟨hall', hfree, hrecy, -⟩ := hs
  have hplace := (hall _ s hrun.of_restrict).place 1 (by simp [hall'])
  rw [hfree, hrecy, List.count_singleton_self] at hplace
  omega

end Server
end XiaoHGServer
