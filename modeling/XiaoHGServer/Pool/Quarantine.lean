import XiaoHGServer.Library.Quarantine
import XiaoHGServer.Timer.Heartbeat

/-!
# The rest of a closed connection

`CloseConnectionToRecy` notes the time in `putRecyConnQueueTime`, and the recycler
leaves the object alone for `m_DelayRecoveryConnectionWaitTime` from then on. So
the pool is a quarantine for connection objects, whichever threads close them and
however often. `ClearDelayRecoveryConnections` does not wait; nothing calls it.
-/

namespace XiaoHGServer
namespace Server

variable {s t : Server} {c d : ConnId} {now : ℤ} {e : Event} {hist : List (Loan ConnId)}

def loans (s : Server) (e : Event) : List (Loan ConnId) :=
  match e with
  | .accept env => (s.acceptedConn env).toList.map .lent
  | .recycle now => (s.recycles (.recycle now)).toList.map fun c => .freed c now
  | e => (s.closes e).toList.map fun c => .returned c (e.clock.getD 0)

/-- Where an object of the pool is in its life, by the lists and its time. -/
def phase (s : Server) (c : ConnId) : Phase :=
  if c ∈ s.pool.inUse then .lent
  else if c ∈ s.pool.recyConnectionList then .resting (s.conn c).putRecyConnQueueTime
  else .idle

/-- No object of the free list is closed, and the recycling queue is not cleared. -/
def KeepsResting (s : Server) (e : Event) : Prop := s.ClosesNoFree e ∧ e ≠ .clear

instance (s : Server) (e : Event) : Decidable (s.KeepsResting e) :=
  inferInstanceAs (Decidable (_ ∧ _))

/-- The time under which an object is queued, after it was closed. -/
def queueTimeAfter (s : Server) (o : Option ConnId) (now : ℤ) (d : ConnId) : ℤ :=
  if o = some d ∧ d ∉ s.pool.recyConnectionList then now else (s.conn d).putRecyConnQueueTime

theorem closeConnectionToRecy_queueTime (d : ConnId) :
    ((s.closeConnectionToRecy c now).conn d).putRecyConnQueueTime =
      s.queueTimeAfter (some c) now d := by
  rw [closeConnectionToRecy_eq, queueTimeAfter]
  by_cases hd : d = c
  · subst hd
    by_cases hq : d ∈ s.pool.recyConnectionList <;> simp [Connection.closed, hq]
  · simp [hd, Ne.symm hd]

theorem startSend_queueTime {env : SendEnv} (h : s.startSend c env = some t) (d : ConnId) :
    (t.conn d).putRecyConnQueueTime = (s.conn d).putRecyConnQueueTime := by
  rcases startSend_cases h with ⟨-, rfl⟩ | ⟨n, -, -, -, rfl⟩ | ⟨-, rfl⟩
  · rfl
  · exact update_field Connection.putRecyConnQueueTime (by rfl) d
  · exact update_field Connection.putRecyConnQueueTime (by rfl) d

theorem iterate_queueTime {pos : ℕ} {env : SendEnv} (h : s.sendMsgThreadIter pos env = some t)
    (d : ConnId) : (t.conn d).putRecyConnQueueTime = (s.conn d).putRecyConnQueueTime := by
  rcases iterate_cases h with ⟨-, rfl⟩ | ⟨b, -, ⟨-, rfl⟩ | ⟨-, -, rfl⟩ | ⟨-, -, hstart⟩⟩
  · rfl
  · rfl
  · rfl
  · exact (startSend_queueTime hstart d).trans
      (takeSendMsg_field Connection.putRecyConnQueueTime (fun _ _ _ => rfl) d)

theorem write_queueTime {env : SendEnv} (h : s.epollEventWriteRequestHandler c env = some t)
    (d : ConnId) : (t.conn d).putRecyConnQueueTime = (s.conn d).putRecyConnQueueTime := by
  rcases write_cases h with ⟨n, -, -, -, rfl⟩ | ⟨-, rfl⟩ | ⟨n, -, -, -, rfl⟩ | ⟨-, rfl⟩
  · exact update_field Connection.putRecyConnQueueTime (by rfl) d
  · rfl
  · exact update_field Connection.putRecyConnQueueTime (by rfl) d
  · rfl

theorem queueTimeAfter_none {o : Option ConnId} {now : ℤ} (ho : o = none) (d : ConnId) :
    s.queueTimeAfter o now d = (s.conn d).putRecyConnQueueTime := by
  simp [queueTimeAfter, ho]

theorem read_queueTime {env : HandlerEnv} (d : ConnId) :
    ((s.epollEventReadRequestHandler c env.recv env.now env.currTime).conn d).putRecyConnQueueTime =
      s.queueTimeAfter (s.closes (.read c env)) env.now d := by
  obtain ⟨q, r, f, hform⟩ := onlyRecv_readBase s c env.recv env.currTime
  have hbase : ((s.readBase c env.recv env.currTime).1.conn d).putRecyConnQueueTime =
      (s.conn d).putRecyConnQueueTime := by
    rw [hform]
    exact update_field Connection.putRecyConnQueueTime (by rfl) d
  have hpool : (s.readBase c env.recv env.currTime).1.pool = s.pool := by
    rw [hform]
    rfl
  by_cases hclose : (s.readBase c env.recv env.currTime).2 = true
  · have hc : s.closes (.read c env) = some c := by simp [closes, hclose]
    rw [read_eq, if_pos hclose, closeConnectionToRecy_queueTime, queueTimeAfter, hpool, hbase, hc]
    rfl
  · rw [queueTimeAfter_none (by simp [closes, hclose]), read_eq, if_neg hclose, hbase]

theorem push_queueTime {i : ℕ} {now : ℤ} (h : s.next (.push i now) = some t) (d : ConnId) :
    (t.conn d).putRecyConnQueueTime = s.queueTimeAfter (s.closes (.push i now)) now d := by
  obtain ⟨rfl, hno⟩ | ⟨b, u, hstage, hu, rfl⟩ := workerPush_cases h
  · rw [queueTimeAfter_none (by simp [closes])]
  · obtain ⟨size, discard, mem, k, rfl, -⟩ := push_cases hu
    by_cases hback : s.backlogged b = true
    · have hbase : s.pushBase b now = s.closeConnectionToRecy (s.sendHeader b).pConn now := by
        simp [pushBase, hback]
      have hc : s.closes (.push i now) = some (s.sendHeader b).pConn := by
        simp [closes, hstage, hback]
      rw [hc, hbase]
      exact (update_field Connection.putRecyConnQueueTime (by rfl) d).trans
        (closeConnectionToRecy_queueTime d)
    · have hbase : s.pushBase b now = s := by simp [pushBase, hback]
      rw [queueTimeAfter_none (by simp [closes, hstage, hback]), hbase]
      exact update_field Connection.putRecyConnQueueTime (by rfl) d

/-- The queue time of an object is set when the object is closed and not queued yet, and at no
other time. -/
theorem step_queueTime (h : s.next e = some t) (hacc : ∀ env, e ≠ .accept env) (d : ConnId) :
    (t.conn d).putRecyConnQueueTime = s.queueTimeAfter (s.closes e) (e.clock.getD 0) d := by
  have quiet (hno : s.closes e = none)
      (hsame : (t.conn d).putRecyConnQueueTime = (s.conn d).putRecyConnQueueTime) :
      (t.conn d).putRecyConnQueueTime = s.queueTimeAfter (s.closes e) (e.clock.getD 0) d := by
    rw [queueTimeAfter_none hno, hsame]
  cases e with
  | accept env => exact absurd rfl (hacc env)
  | read c env =>
    obtain rfl := Option.some.inj h
    exact read_queueTime d
  | outError c =>
    obtain rfl := Option.some.inj h
    exact quiet rfl (update_field Connection.putRecyConnQueueTime (by rfl) d)
  | write c env => exact quiet rfl (write_queueTime h d)
  | take =>
    obtain rfl := Option.some.inj h
    unfold takeRecvMsg
    split <;> simp [queueTimeAfter, closes]
  | handle i now =>
    obtain rfl | ⟨w, u, r, -, ⟨m, m', x, rfl, -⟩, rfl⟩ := workerHandle_cases h
    · exact quiet rfl rfl
    · exact quiet rfl (update_field Connection.putRecyConnQueueTime (by rfl) d)
  | push i now => exact push_queueTime h d
  | release i =>
    obtain rfl := Option.some.inj h
    unfold workerRelease
    split <;> simp [queueTimeAfter, closes]
  | semWait => cases h; exact quiet rfl rfl
  | semIntr => cases h; exact quiet rfl rfl
  | sizeTest => cases h; exact quiet rfl rfl
  | iterate env =>
    obtain rfl | ⟨pos, -, h⟩ := iterate_pass h
    · exact quiet rfl rfl
    · exact quiet rfl (iterate_queueTime h d)
  | close c now =>
    obtain rfl := Option.some.inj h
    exact closeConnectionToRecy_queueTime d
  | recycle now =>
    obtain ⟨c, -, rfl⟩ := lblRRTD_eq_some h
    exact quiet rfl (update_field Connection.putRecyConnQueueTime (by rfl) d)
  | clear =>
    obtain ⟨c, -, rfl⟩ := lblRRTD2_eq_some h
    exact quiet rfl (update_field Connection.putRecyConnQueueTime (by rfl) d)
  | monitor now =>
    obtain ⟨hd, q, hover, -, ⟨hkick, rfl⟩ | ⟨hkick, rfl⟩⟩ := monitor_cases h
    · have hc : s.closes (.monitor now) = some hd.pConn := by simp [closes, hover, hkick]
      rw [hc]
      exact closeConnectionToRecy_queueTime d
    · exact quiet (by simp [closes, hover, hkick]) rfl

theorem phase_congr (huse : d ∈ t.pool.inUse ↔ d ∈ s.pool.inUse)
    (hrecy : d ∈ t.pool.recyConnectionList ↔ d ∈ s.pool.recyConnectionList)
    (htime : (t.conn d).putRecyConnQueueTime = (s.conn d).putRecyConnQueueTime) :
    t.phase d = s.phase d := by
  simp only [phase, huse, hrecy, htime]

theorem phase_lent (hc : c ∈ s.pool.inUse) : s.phase c = .lent := if_pos hc

theorem phase_resting (hi : s.PoolInv) (hc : c ∈ s.pool.recyConnectionList) :
    s.phase c = .resting (s.conn c).putRecyConnQueueTime := by
  have hnd := hi.partition.nodup_places
  rw [List.append_assoc] at hnd
  have huse : c ∉ s.pool.inUse := fun hm =>
    (List.nodup_append.mp (List.nodup_append.mp hnd).2.1).2.2 c hc c hm rfl
  rw [phase, if_neg huse, if_pos hc]

theorem phase_idle_iff (hi : s.PoolInv) : s.phase c = .idle ↔
    c ∈ s.pool.freeConnectionList ∨ c ∉ s.pool.connectionList := by
  have hnd := hi.partition.nodup_places
  have hperm : c ∈ s.pool.connectionList ↔ c ∈ s.pool.freeConnectionList ∨
      c ∈ s.pool.recyConnectionList ∨ c ∈ s.pool.inUse := by
    rw [← hi.partition.perm.mem_iff, List.mem_append, List.mem_append, or_assoc]
  simp only [List.nodup_append, List.mem_append] at hnd
  obtain ⟨⟨-, -, hfr⟩, -, hout⟩ := hnd
  unfold phase
  split_ifs with huse hrecy
  · have hfree : c ∉ s.pool.freeConnectionList := fun hf => hout c (Or.inl hf) c huse rfl
    simp [hperm, huse, hfree]
  · have hfree : c ∉ s.pool.freeConnectionList := fun hf => hfr c hf c hrecy rfl
    simp [hperm, hrecy, hfree]
  · simp only [hperm, huse, hrecy, or_false, true_iff]
    exact em _

theorem accept_phase {env : HandlerEnv} (hi : s.PoolInv) (h : s.next (.accept env) = some t) :
    s.loans (.accept env) = [] ∧ t.phase = s.phase ∨
      s.loans (.accept env) = [.lent s.pool.front] ∧ s.phase s.pool.front = .idle ∧
        t.phase = Function.update s.phase s.pool.front .lent := by
  rcases accept_taken h with ⟨hnone, b, k, rfl⟩ | ⟨hsome, -, fd, b, rfl⟩
  · exact Or.inl ⟨by simp [loans, hnone], rfl⟩
  · have hfront := hi.partition.front_notMem
    rw [List.mem_append, not_or] at hfront
    refine Or.inr ⟨by simp [loans, hsome], by simp [phase, hfront.1, hfront.2], ?_⟩
    have hlists : s.pool.getConnection.recyConnectionList = s.pool.recyConnectionList ∧
        s.pool.getConnection.listenSocketList = s.pool.listenSocketList := by
      unfold ConnectionPool.getConnection
      split <;> exact ⟨rfl, rfl⟩
    funext d
    by_cases hd : d = s.pool.front
    · rw [hd, Function.update_self]
      exact phase_lent (by simp [ConnectionPool.inUse, admitted])
    · rw [Function.update_of_ne hd]
      refine phase_congr ?_ ?_ ?_
      · simp [ConnectionPool.inUse, admitted, hlists.2, hd]
      · simp [admitted, hlists.1]
      · simp [admitted, hd]

theorem recycle_phase (hi : s.PoolInv) (h : s.next (.recycle now) = some t) :
    ∃ c, s.loans (.recycle now) = [.freed c now] ∧
      (∃ since, s.phase c = .resting since ∧
        since + s.config.delayRecoveryConnectionWaitTime ≤ now) ∧
      t.phase = Function.update s.phase c .idle := by
  obtain ⟨c, hc, rfl⟩ := lblRRTD_eq_some h
  have hmem := List.mem_of_find?_eq_some hc
  have hdue : (s.conn c).putRecyConnQueueTime + s.config.delayRecoveryConnectionWaitTime ≤ now := by
    simpa [recoveryDue] using List.find?_some hc
  refine ⟨c, by simp [loans, recycles, hc], ⟨_, phase_resting hi hmem, hdue⟩, ?_⟩
  have hnd := hi.partition.nodup_places
  simp only [List.nodup_append, List.mem_append] at hnd
  obtain ⟨⟨-, hrecy, -⟩, -, hout⟩ := hnd
  funext d
  by_cases hd : d = c
  · subst hd
    rw [Function.update_self]
    have huse : d ∉ s.pool.inUse := fun hm => hout d (Or.inr hmem) d hm rfl
    have hgone : d ∉ s.pool.recyConnectionList.erase d := hrecy.not_mem_erase
    simp only [phase, recycled, ConnectionPool.takeFromRecyQueue, ConnectionPool.freeConnection,
      hgone, if_false]
    exact if_neg huse
  · rw [Function.update_of_ne hd]
    refine phase_congr Iff.rfl ?_ (by simp [recycled, hd])
    exact List.mem_erase_of_ne hd

theorem close_phase (hi : s.PoolInv) (huse : c ∈ s.pool.clients ∨ c ∈ s.pool.recyConnectionList)
    (hp : (s.pool.closed c).SamePlaces t.pool)
    (htime : ∀ d, (t.conn d).putRecyConnQueueTime = s.queueTimeAfter (some c) now d)
    (wait : ℤ) : ∃ p, (s.phase c).after wait (.returned c now) = some p ∧
      t.phase = Function.update s.phase c p := by
  have hnd := hi.partition.nodup_places
  simp only [List.nodup_append, List.mem_append, ConnectionPool.inUse] at hnd
  obtain ⟨-, ⟨hnodup, -, hlisten⟩, hout⟩ := hnd
  by_cases hq : c ∈ s.pool.recyConnectionList
  · have hcl : c ∉ s.pool.clients := fun hm => hout c (Or.inr hq) c (Or.inl hm) rfl
    have hsame : s.pool.closed c = s.pool := by
      simp [ConnectionPool.closed, ConnectionPool.pushConnectToRecyQueue, hq,
        List.erase_of_not_mem hcl]
    rw [hsame] at hp
    refine ⟨_, by rw [phase_resting hi hq]; rfl, ?_⟩
    rw [← phase_resting hi hq, Function.update_eq_self]
    funext d
    refine phase_congr ?_ (by rw [hp.recy]) ?_
    · rw [ConnectionPool.inUse, hp.clients, hp.listen, ConnectionPool.inUse]
    · rw [htime, queueTimeAfter, if_neg]
      rintro ⟨hcd, hd⟩
      rw [← Option.some.inj hcd] at hd
      exact hd hq
  · have hcl := huse.resolve_right hq
    have hclosed : s.pool.closed c = { s.pool with
        recyConnectionList := s.pool.recyConnectionList ++ [c]
        delayRecoveryConnectionCount := s.pool.delayRecoveryConnectionCount + 1
        onLineUserCount := s.pool.onLineUserCount - 1
        clients := s.pool.clients.erase c } := by
      simp [ConnectionPool.closed, ConnectionPool.pushConnectToRecyQueue, hq]
    rw [hclosed] at hp
    refine ⟨.resting now, ?_, ?_⟩
    · rw [phase_lent (List.mem_append_left _ hcl)]
      rfl
    · funext d
      by_cases hd : d = c
      · subst hd
        have hgone : d ∉ t.pool.inUse := by
          rw [ConnectionPool.inUse, hp.clients, hp.listen, List.mem_append, not_or]
          exact ⟨hnodup.not_mem_erase, fun hm => hlisten d hcl d hm rfl⟩
        have hqueued : d ∈ t.pool.recyConnectionList := by simp [hp.recy]
        rw [Function.update_self, phase, if_neg hgone, if_pos hqueued, htime, queueTimeAfter,
          if_pos ⟨rfl, hq⟩]
      · rw [Function.update_of_ne hd]
        refine phase_congr ?_ ?_ ?_
        · simp only [ConnectionPool.inUse, hp.clients, hp.listen, List.mem_append,
            List.mem_erase_of_ne hd]
        · simp [hp.recy, hd]
        · rw [htime, queueTimeAfter, if_neg]
          rintro ⟨hcd, -⟩
          exact hd (Option.some.inj hcd).symm

/-- A step is a turn in the life of one object, or none. -/
theorem step_phase (hi : s.PoolInv) (hp : s.ClientPointers) (hk : s.KeepsResting e)
    (he : s.Enabled e) (h : s.next e = some t) :
    s.loans e = [] ∧ t.phase = s.phase ∨ ∃ x, s.loans e = [x] ∧
      (quarantine s.config.delayRecoveryConnectionWaitTime).step s.phase x t.phase := by
  by_cases hacc : ∃ env, e = .accept env
  · obtain ⟨env, rfl⟩ := hacc
    rcases accept_phase hi h with hno | ⟨hlent, hidle, ht⟩
    · exact Or.inl hno
    · exact Or.inr ⟨_, hlent, .lent, by simp [Loan.object, hidle, Phase.after], ht⟩
  by_cases hrec : ∃ now, e = .recycle now
  · obtain ⟨now, rfl⟩ := hrec
    obtain ⟨c, hfreed, ⟨since, hrest, hdue⟩, ht⟩ := recycle_phase hi h
    exact Or.inr ⟨_, hfreed, .idle, by simp [Loan.object, hrest, Phase.after, hdue], ht⟩
  have hloans : s.loans e = (s.closes e).toList.map fun c => .returned c (e.clock.getD 0) := by
    cases e with
    | accept env => exact absurd ⟨env, rfl⟩ hacc
    | recycle now => exact absurd ⟨now, rfl⟩ hrec
    | _ => rfl
  have htime := step_queueTime h (not_exists.mp hacc)
  rcases step_useMove h with ⟨hno, hsame⟩ | ⟨env, fd, heq, -⟩ | ⟨c, now, hc, hsame⟩ |
    ⟨c, n, -, hc, -⟩
  · refine Or.inl ⟨by simp [hloans, hno], ?_⟩
    funext d
    refine phase_congr ?_ (by rw [hsame.1.recy]) ?_
    · rw [ConnectionPool.inUse, hsame.1.clients, hsame.1.listen, ConnectionPool.inUse]
    · rw [htime, hno]
      simp [queueTimeAfter]
  · exact absurd ⟨env, heq⟩ hacc
  · have hclient := hi.clients c (closes_isClient hp he h hc)
    have hplace := hi.partition.perm.mem_iff.mpr hclient.1
    simp only [ConnectionPool.inUse, List.mem_append, hk.1 c hc, hclient.2, false_or,
      or_false] at hplace
    have hpool := hsame.1
    rw [closeConnectionToRecy_pool] at hpool
    rw [hc] at htime hloans
    obtain ⟨p, hafter, ht⟩ := close_phase hi hplace.symm hpool htime
      s.config.delayRecoveryConnectionWaitTime
    exact Or.inr ⟨.returned c _, by rw [hloans]; rfl, p, hafter, ht⟩
  · exfalso
    cases e with
    | recycle now => exact hrec ⟨now, rfl⟩
    | clear => exact hk.2 rfl
    | _ => cases hc

theorem recy_boot (h : s.Booted) : s.pool.recyConnectionList = [] := by
  refine h.induction (P := fun s => s.pool.recyConnectionList = []) (fun cfg now _ _ _ => rfl)
    fun s fd now hs => ?_
  have hget : s.pool.getConnection.recyConnectionList = s.pool.recyConnectionList := by
    unfold ConnectionPool.getConnection
    split <;> rfl
  exact hget.trans hs

/-- The pool refines the quarantine of its waiting time. -/
theorem run_quarantine {es : List Event}
    (hr : ((process.restrict KeepsResting).record loans).Run es (s, hist)) :
    (quarantine s.config.delayRecoveryConnectionWaitTime).Run hist.reverse s.phase := by
  have hpool (es : List Event) (p : Server × List (Loan ConnId))
      (hp : ((process.restrict KeepsResting).record loans).Run es p) :
      p.1.PoolInv ∧ p.1.ClientPointers :=
    run_poolInv (hp.of_record.restrict_mono fun _ _ hk => hk.1)
  refine hr.trace_invariant (I := fun _ (p : Server × List (Loan ConnId)) =>
    (quarantine p.1.config.delayRecoveryConnectionWaitTime).Run p.2.reverse p.1.phase) ?_ ?_
  · rintro ⟨s, hist⟩ ⟨hb, rfl⟩
    have hnil := recy_boot (s := s) hb
    refine .start fun c since => ?_
    simp only [phase, hnil, List.not_mem_nil, if_false]
    split <;> simp
  · rintro es ⟨s, hist⟩ e ⟨t, hist'⟩ hrun ih ⟨⟨hk, he, ht⟩, rfl⟩
    obtain ⟨hi, hp⟩ := hpool _ _ hrun
    have hcfg : t.config = s.config := step_config ht
    rw [hcfg]
    rcases step_phase hi hp hk he ht with ⟨hno, hphase⟩ | ⟨x, hx, hstep⟩
    · simpa [hno, hphase] using ih
    · simpa [hx] using ih.step hstep

/-- The pool is a quarantine for its objects: an object is idle while it is in the free list or does
not exist yet, lent while a socket uses it, and rests while it is queued; and between two clients it
was closed and has rested for `m_DelayRecoveryConnectionWaitTime`. -/
theorem connections_rest {es : List Event}
    (hr : ((process.restrict KeepsResting).record loans).Run es (s, hist)) :
    (quarantine s.config.delayRecoveryConnectionWaitTime).Run hist.reverse s.phase ∧
      (∀ c, s.phase c = .idle ↔
        c ∈ s.pool.freeConnectionList ∨ c ∉ s.pool.connectionList) ∧
      ∀ c post mid pre, hist = post ++ .lent c :: mid ++ .lent c :: pre →
        ∃ m₁ m₂ m₃ closed freed,
          closed + s.config.delayRecoveryConnectionWaitTime ≤ freed ∧
          mid = m₁ ++ .freed c freed :: m₂ ++ .returned c closed :: m₃ := by
  have hrun := run_quarantine hr
  refine ⟨hrun, fun c => phase_idle_iff ?_, fun c post mid pre hhist => ?_⟩
  · exact (run_poolInv (hr.of_record.restrict_mono fun _ _ hk => hk.1)).1
  · have hsplit : hist.reverse =
        pre.reverse ++ .lent c :: mid.reverse ++ .lent c :: post.reverse := by
      rw [hhist]
      simp
    rw [hsplit] at hrun
    obtain ⟨m₁, m₂, m₃, closed, freed, hle, hmid⟩ := quarantine_apart hrun
    refine ⟨m₃.reverse, m₂.reverse, m₁.reverse, closed, freed, hle, ?_⟩
    rw [← List.reverse_reverse mid, hmid]
    simp

/-- A connection object that is given to a second client. -/
theorem connections_rest_reused : ∃ s : Server,
    (quarantine s.config.delayRecoveryConnectionWaitTime).Run
      [.lent 1, .returned 1 5, .freed 1 15, .lent 1] s.phase := by
  obtain ⟨⟨s, hist⟩, hrun, hs⟩ := process_record_of_play KeepsResting loans
    { smallConfig with delayRecoveryConnectionWaitTime := 10 }
    [.accept { HandlerEnv.idle with accept := [.accepted 4] },
      .read 1 { HandlerEnv.idle with recv := .eof, now := 5 }, .recycle 15,
      .accept { HandlerEnv.idle with accept := [.accepted 4] }]
    (fun p => p.2) [.lent 1, .freed 1 15, .returned 1 5, .lent 1] (by decide)
  obtain rfl : hist = _ := hs
  exact ⟨s, (connections_rest hrun).1⟩

end Server
end XiaoHGServer
