import XiaoHGServer.Send.Stamps
import XiaoHGServer.Send.Stranded

/-!
# Counting what waits for a connection

`sendMsgListCount` is incremented for every message that is pushed, under whatever
number it was stamped, and decremented only for a message that is taken out to be
sent. A discarded message leaves it too high, and reuse of the object sets it to
zero, when no message in the list has the new number. So it errs on one side.
-/

namespace XiaoHGServer

namespace Server

variable {s t : Server} {c : ConnId} {b : BufId} {e : Event}

/-- How many messages in the list are stamped with the present number of connection `c`. -/
def backlog (s : Server) (c : ConnId) : ℕ :=
  s.sendQueue.sendMsgList.countP fun b => s.sendHeader b = ⟨c, (s.conn c).currSequence⟩

theorem countP_eraseIdx {α : Type*} {p : α → Bool} {l : List α} {i : ℕ} {a : α}
    (h : l[i]? = some a) (ha : p a = true) : (l.eraseIdx i).countP p + 1 = l.countP p := by
  obtain ⟨hi, rfl⟩ := List.getElem?_eq_some_iff.mp h
  rw [← (List.getElem_cons_eraseIdx_perm hi).countP_eq p, List.countP_cons_of_pos ha]

theorem current_of_step (hs : s.StampsPast) (hp : s.ClientPointers) (hn : s.Numbered)
    (hk : s.KeepsCounting e) (h : s.next e = some t) (hb : b < s.sendQueue.mem.next)
    (hcur : s.sendHeader b = ⟨c, (t.conn c).currSequence⟩) :
    s.sendHeader b = ⟨c, (s.conn c).currSequence⟩ := by
  have hle := hs.send b hb
  have hclient := hp.send.header b hb
  rw [hcur] at hle hclient ⊢
  rcases step_sequence hn hk h (hn.clients c hclient) with heq | heq
  · rw [heq]
  · dsimp only at hle
    omega

/-- The current messages of the new list are among the current messages of the old state. -/
theorem backlog_le (hs : s.StampsPast) (hp : s.ClientPointers) (hn : s.Numbered)
    (hk : s.KeepsCounting e) (h : s.next e = some t) (c : ConnId)
    (hlist : ∀ b ∈ t.sendQueue.sendMsgList,
      b < s.sendQueue.mem.next ∧ t.sendHeader b = s.sendHeader b) :
    t.backlog c ≤ t.sendQueue.sendMsgList.countP
      fun b => s.sendHeader b = ⟨c, (s.conn c).currSequence⟩ := by
  refine List.countP_mono_left fun b hb hcur => ?_
  obtain ⟨hlt, hhead⟩ := hlist b hb
  rw [decide_eq_true_eq, hhead] at hcur
  exact decide_eq_true (current_of_step hs hp hn hk h hlt hcur)

theorem sendMsgListCount_accepted {env : HandlerEnv} (h : s.next (.accept env) = some t)
    (hacc : s.acceptedConn env = some c) : (t.conn c).sendMsgListCount = 0 := by
  rcases accept_taken h with ⟨hnone, -⟩ | ⟨hsome, -, fd, x, rfl⟩
  · rw [hnone] at hacc
    cases hacc
  · obtain rfl := Option.some.inj (hsome.symm.trans hacc)
    simp [admitted, Connection.installed, Connection.getOneToUse]

theorem step_sendMsgListCount (hpush : ∀ i now, e ≠ .push i now) (hiter : ∀ env, e ≠ .iterate env)
    (h : s.next e = some t) (c : ConnId) :
    (t.conn c).sendMsgListCount = (s.conn c).sendMsgListCount ∨
      ∃ env, e = .accept env ∧ s.acceptedConn env = some c := by
  have closed (d : ConnId) (now : ℤ) : ((s.closeConnectionToRecy d now).conn c).sendMsgListCount =
      (s.conn c).sendMsgListCount := by
    rw [closeConnectionToRecy_eq]
    exact update_field Connection.sendMsgListCount (by rfl) c
  have field {k : Connection} {d : ConnId} (hk : k.sendMsgListCount = (s.conn d).sendMsgListCount) :
      (Function.update s.conn d k c).sendMsgListCount = (s.conn c).sendMsgListCount :=
    update_field Connection.sendMsgListCount hk c
  cases e with
  | accept env =>
    rcases accept_taken h with ⟨-, b, k, rfl⟩ | ⟨hsome, -, fd, b, rfl⟩
    · exact Or.inl rfl
    · by_cases hc : c = s.pool.front
      · exact Or.inr ⟨env, rfl, hc ▸ hsome⟩
      · exact Or.inl (by simp [admitted, hc])
  | read d env =>
    obtain rfl := Option.some.inj h
    left
    obtain ⟨q, r, f, hform⟩ := onlyRecv_readBase s d env.recv env.currTime
    have hbase : ((s.readBase d env.recv env.currTime).1.conn c).sendMsgListCount =
        (s.conn c).sendMsgListCount := by
      rw [hform]
      exact field rfl
    rw [read_eq]
    split
    · rw [closeConnectionToRecy_eq]
      exact (update_field Connection.sendMsgListCount (by rfl) c).trans hbase
    · exact hbase
  | outError d =>
    obtain rfl := Option.some.inj h
    exact Or.inl (field rfl)
  | write d env =>
    left
    rcases write_cases h with ⟨n, -, -, -, rfl⟩ | ⟨-, rfl⟩ | ⟨n, -, -, -, rfl⟩ | ⟨-, rfl⟩
    · exact field rfl
    · rfl
    · exact field rfl
    · rfl
  | take =>
    obtain rfl := Option.some.inj h
    unfold takeRecvMsg
    split <;> exact Or.inl rfl
  | handle i now =>
    obtain rfl | ⟨w, u, r, -, ⟨m, m', x, rfl, -⟩, rfl⟩ := workerHandle_cases h
    · exact Or.inl rfl
    · exact Or.inl (field rfl)
  | push i now => exact absurd rfl (hpush i now)
  | release i =>
    obtain rfl := Option.some.inj h
    unfold workerRelease
    split <;> exact Or.inl rfl
  | semWait => cases h; exact Or.inl rfl
  | semIntr => cases h; exact Or.inl rfl
  | sizeTest => cases h; exact Or.inl rfl
  | iterate env => exact absurd rfl (hiter env)
  | close d now =>
    obtain rfl := Option.some.inj h
    exact Or.inl (closed d now)
  | recycle now =>
    obtain ⟨d, -, rfl⟩ := lblRRTD_eq_some h
    exact Or.inl (field rfl)
  | clear =>
    obtain ⟨d, -, rfl⟩ := lblRRTD2_eq_some h
    exact Or.inl (field rfl)
  | monitor now =>
    obtain ⟨hd, q, -, -, ⟨-, rfl⟩ | ⟨-, rfl⟩⟩ := monitor_cases h
    · exact Or.inl (closed hd.pConn now)
    · exact Or.inl rfl

theorem push_sendMsgListCount {now : ℤ} (h : s.pushSendMsgToSendListAndSem b now = some t)
    (c : ConnId) : (t.conn c).sendMsgListCount =
      (s.conn c).sendMsgListCount + if c = (s.sendHeader b).pConn then 1 else 0 := by
  obtain ⟨size, discard, mem, k, rfl, -⟩ := push_cases h
  have hbase : ((s.pushBase b now).conn c).sendMsgListCount = (s.conn c).sendMsgListCount := by
    unfold pushBase
    split
    · rw [closeConnectionToRecy_eq]
      exact update_field Connection.sendMsgListCount (by rfl) c
    · rfl
  by_cases hc : c = (s.sendHeader b).pConn
  · simp [hc]
  · simpa [hc] using hbase

/-- What an iteration of the sender does to the list and to the counters of connections. -/
theorem iterate_sendMsgListCount {pos : ℕ} {env : SendEnv}
    (h : s.sendMsgThreadIter pos env = some t) (c : ConnId) :
    t.sendQueue.sendMsgList = s.sendQueue.sendMsgList ∧
        (t.conn c).sendMsgListCount = (s.conn c).sendMsgListCount ∨
      t.sendQueue.sendMsgList = s.sendQueue.sendMsgList.eraseIdx pos ∧
        ((t.conn c).sendMsgListCount = (s.conn c).sendMsgListCount ∨
          ∃ b, s.sendQueue.sendMsgList[pos]? = some b ∧
            s.sendHeader b = ⟨c, (s.conn c).currSequence⟩ ∧
            (t.conn c).sendMsgListCount = (s.conn c).sendMsgListCount - 1) := by
  rcases iterate_cases h with ⟨-, rfl⟩ | ⟨b, hb, ⟨-, rfl⟩ | ⟨-, -, rfl⟩ | ⟨hseq, -, hstart⟩⟩
  · exact Or.inl ⟨rfl, rfl⟩
  · exact Or.inr ⟨rfl, Or.inl rfl⟩
  · exact Or.inl ⟨rfl, rfl⟩
  · right
    set d := (s.sendHeader b).pConn with hd
    have hsent : t.sendQueue.sendMsgList = s.sendQueue.sendMsgList.eraseIdx pos ∧
        (t.conn c).sendMsgListCount = ((s.takeSendMsg pos b d).conn c).sendMsgListCount := by
      rcases startSend_cases hstart with ⟨-, rfl⟩ | ⟨n, -, -, -, rfl⟩ | ⟨-, rfl⟩
      · exact ⟨rfl, rfl⟩
      · exact ⟨rfl, update_field Connection.sendMsgListCount (by rfl) c⟩
      · exact ⟨rfl, update_field Connection.sendMsgListCount (by rfl) c⟩
    refine ⟨hsent.1, ?_⟩
    rw [hsent.2]
    by_cases hc : c = d
    · refine Or.inr ⟨b, hb, ?_, by simp [takeSendMsg, eraseSendMsg, hc]⟩
      rw [hc, hseq]
    · exact Or.inl (by rw [takeSendMsg_conn_ne hc])

/-- The counters of all connection objects are high enough. -/
def NeverUnder (s : Server) : Prop := ∀ c, (s.backlog c : ℤ) ≤ (s.conn c).sendMsgListCount

theorem NeverUnder.push {i : ℕ} {now : ℤ} (hs : s.NeverUnder) (hpast : s.StampsPast)
    (hi : s.SendListInv) (hp : s.ClientPointers) (hn : s.Numbered)
    (hk : s.KeepsCounting (.push i now)) (h : s.next (.push i now) = some t) : t.NeverUnder := by
  obtain ⟨rfl, -⟩ | ⟨b, u, hstage, hu, rfl⟩ := workerPush_cases h
  · exact hs
  obtain ⟨hlist, -, -, -, hhead⟩ := push_list hu
  obtain ⟨w, hw, hb⟩ := Option.map_eq_some_iff.mp hstage
  have hlt := hp.send.replies w (List.mem_of_getElem? hw) b hb
  intro c
  have hle := backlog_le hpast hp hn hk h c fun b' hb' => by
    refine ⟨?_, hhead b'⟩
    rcases List.mem_append.mp (hlist ▸ hb') with hb' | hb'
    · exact hi.allocated b' hb'
    · rwa [List.mem_singleton.mp hb']
  have hcount := push_sendMsgListCount hu c
  have hold := hs c
  rw [show (u.setStage i .handled).sendQueue.sendMsgList = _ from hlist, List.countP_append] at hle
  have hone : [b].countP (fun b => s.sendHeader b = ⟨c, (s.conn c).currSequence⟩) ≤
      if c = (s.sendHeader b).pConn then 1 else 0 := by
    by_cases hcur : s.sendHeader b = ⟨c, (s.conn c).currSequence⟩
    · rw [if_pos (by rw [hcur])]
      exact List.countP_le_length
    · rw [List.countP_singleton, if_neg (by simpa using hcur)]
      exact Nat.zero_le _
  change ((u.setStage i .handled).backlog c : ℤ) ≤ (u.conn c).sendMsgListCount
  rw [hcount]
  unfold backlog at hold
  split_ifs at hone ⊢ <;> omega

theorem NeverUnder.iterate {pos : ℕ} {env : SendEnv} (hs : s.NeverUnder) (hpast : s.StampsPast)
    (hi : s.SendListInv) (hp : s.ClientPointers) (hn : s.Numbered)
    (hk : s.KeepsCounting (.iterate env)) (hsender : s.sender = .pass pos)
    (h : s.sendMsgThreadIter pos env = some t) : t.NeverUnder := by
  have hnext : s.next (.iterate env) = some t := by simpa only [next, hsender] using h
  intro c
  have hhead : ∀ b, t.sendHeader b = s.sendHeader b := by
    rcases iterate_list h with ⟨-, rfl⟩ | ⟨b, -, ⟨-, rfl⟩ | herased⟩
    · exact fun _ => rfl
    · exact fun _ => rfl
    · exact herased.header
  have hold := hs c
  have hsub : t.sendQueue.sendMsgList.Sublist s.sendQueue.sendMsgList := by
    rcases iterate_sendMsgListCount h c with ⟨hlist, -⟩ | ⟨hlist, -⟩
    · rw [hlist]
    · rw [hlist]
      exact List.eraseIdx_sublist _ _
  have hle := backlog_le hpast hp hn hk hnext c fun b hb =>
    ⟨hi.allocated b (hsub.subset hb), hhead b⟩
  have hmono := hsub.countP_le (p := fun b => s.sendHeader b = ⟨c, (s.conn c).currSequence⟩)
  unfold backlog at hold
  rcases iterate_sendMsgListCount h c with ⟨-, hsame⟩ | ⟨hlist, hsame | ⟨b, hb, hcur, hless⟩⟩
  · omega
  · omega
  · have herase := countP_eraseIdx (p := fun b => s.sendHeader b = ⟨c, (s.conn c).currSequence⟩)
      hb (decide_eq_true hcur)
    rw [← hlist] at herase
    omega

/-- A connection that the test leaves open has at most one message more than the test allows. -/
theorem step_sendMsgListCount_le (hi : s.PoolInv)
    (hs : ∀ c ∈ s.pool.clients, (s.conn c).sendMsgListCount ≤ maxEachConnSendCount + 1)
    (h : s.next e = some t) :
    ∀ c ∈ t.pool.clients, (t.conn c).sendMsgListCount ≤ maxEachConnSendCount + 1 := by
  intro c hc
  by_cases hacc : ∃ env, e = .accept env
  · obtain ⟨env, rfl⟩ := hacc
    rcases step_sendMsgListCount (by simp) (by simp) h c with hsame | ⟨env', henv, hnew⟩
    · rcases step_clients h hc with hold | ⟨rfl, fd, now, b, rfl⟩
      · rw [hsame]
        exact hs c hold
      · simp [admitted, Connection.installed, Connection.getOneToUse, maxEachConnSendCount]
    · obtain rfl := Event.accept.inj henv
      rw [sendMsgListCount_accepted h hnew]
      decide
  obtain ⟨hold, -, hopen⟩ := open_of_step hi (fun env he => hacc ⟨env, he⟩) h hc
  have hle := hs c hold
  by_cases hpush : ∃ i now, e = .push i now
  · obtain ⟨i, now, rfl⟩ := hpush
    obtain ⟨rfl, -⟩ | ⟨b, u, hstage, hu, rfl⟩ := workerPush_cases h
    · exact hle
    · change (u.conn c).sendMsgListCount ≤ _
      rw [push_sendMsgListCount hu c]
      split_ifs with hcb
      · have hroom : ¬ s.backlogged b = true := by
          intro hback
          exact hopen (by simp [closes, hstage, hback, hcb])
        rw [backlogged, decide_eq_true_eq, not_lt, ← hcb] at hroom
        omega
      · omega
  by_cases hiter : ∃ env, e = .iterate env
  · obtain ⟨env, rfl⟩ := hiter
    obtain rfl | ⟨pos, -, h⟩ := iterate_pass h
    · exact hle
    · rcases iterate_sendMsgListCount h c with ⟨-, hsame⟩ | ⟨-, hsame | ⟨b, -, -, hless⟩⟩ <;> omega
  rcases step_sendMsgListCount (fun i now he => hpush ⟨i, now, he⟩)
    (fun env he => hiter ⟨env, he⟩) h c with hsame | ⟨env, henv, -⟩
  · exact hsame.trans_le hle
  · exact absurd ⟨env, henv⟩ hacc

/-- In every run in which no object of the free list is closed, the counter of a connection in use
stays small. -/
theorem run_sendMsgListCount_le {es : List Event} (h : (process.restrict ClosesNoFree).Run es s) :
    ∀ c ∈ s.pool.clients, (s.conn c).sendMsgListCount ≤ maxEachConnSendCount + 1 := by
  refine h.trace_invariant (I := fun _ s => ∀ c ∈ s.pool.clients,
    (s.conn c).sendMsgListCount ≤ maxEachConnSendCount + 1) (fun s hb c hc => ?_) ?_
  · simp [clients_boot hb] at hc
  · rintro es s e t hrun hs ⟨-, -, ht⟩
    exact step_sendMsgListCount_le (run_poolInv hrun).1 hs ht

/-- The only client has connection 1 under number `n`, and one message, stamped with number 2, is
in the list. -/
structure OneClient (s : Server) (n : ℕ) : Prop where
  config : s.config = smallConfig
  pool : s.pool = ⟨[0, 1], [], [], 2, 0, 0, 1, [0], [1]⟩
  client : s.IsClient 1
  number : (s.conn 1).currSequence = n
  sockFd : (s.conn 1).sockFd = 4
  openFds : s.kernel.openFds = [4, 3]
  accept4 : s.iIsAccept4 = true
  list : s.sendQueue.sendMsgList = [0]
  header : s.sendHeader 0 = ⟨1, 2⟩

instance (s : Server) (n : ℕ) : Decidable (s.OneClient n) :=
  decidable_of_iff (s.config = smallConfig ∧
      s.pool = ⟨[0, 1], [], [], 2, 0, 0, 1, [0], [1]⟩ ∧ s.IsClient 1 ∧
      (s.conn 1).currSequence = n ∧ (s.conn 1).sockFd = 4 ∧ s.kernel.openFds = [4, 3] ∧
      s.iIsAccept4 = true ∧ s.sendQueue.sendMsgList = [0] ∧ s.sendHeader 0 = ⟨1, 2⟩)
    ⟨fun ⟨h₁, h₂, h₃, h₄, h₅, h₆, h₇, h₈, h₉⟩ => ⟨h₁, h₂, h₃, h₄, h₅, h₆, h₇, h₈, h₉⟩,
      fun ⟨h₁, h₂, h₃, h₄, h₅, h₆, h₇, h₈, h₉⟩ => ⟨h₁, h₂, h₃, h₄, h₅, h₆, h₇, h₈, h₉⟩⟩

theorem OneClient.recycle {n : ℕ} (hs : s.OneClient n) :
    (s.closeConnectionToRecy 1 0).lblRRTD 0 =
      some ((s.closeConnectionToRecy 1 0).recycled 1
        (min ((s.closeConnectionToRecy 1 0).conn 1).send.throwSendMsgCount 0)) := by
  have hfind : (s.closeConnectionToRecy 1 0).pool.recyConnectionList.find?
      ((s.closeConnectionToRecy 1 0).recoveryDue 0) = some 1 := by
    simp [closeConnectionToRecy_eq, ConnectionPool.pushConnectToRecyQueue, hs.pool,
      recoveryDue, Connection.closed, hs.config, smallConfig]
  cases ht : (s.closeConnectionToRecy 1 0).lblRRTD 0 with
  | none => simp [lblRRTD, hfind] at ht
  | some t =>
    obtain ⟨c, hc, rfl⟩ := lblRRTD_eq_some ht
    obtain rfl := Option.some.inj (hfind.symm.trans hc)
    rfl

theorem OneClient.next {es : List Event} {n : ℕ} (hs : s.OneClient n) (h : process.Run es s) :
    ∃ es' t, process.Run es' t ∧ t.OneClient (nextSequence^[3] n) ∧
      (t.conn 1).sendMsgListCount = 0 := by
  let env := { HandlerEnv.idle with accept := [.accepted 4] }
  have hclose : process.Run (es ++ [.close 1 0]) (s.closeConnectionToRecy 1 0) :=
    h.step ⟨hs.client, rfl⟩
  set u := (s.closeConnectionToRecy 1 0).recycled 1
    (min ((s.closeConnectionToRecy 1 0).conn 1).send.throwSendMsgCount 0) with hu
  have hrecycle : process.Run (es ++ [.close 1 0] ++ [.recycle 0]) u :=
    hclose.step ⟨by simp [Enabled, hs.recycle], hs.recycle⟩
  have hpool : u.pool = ⟨[0, 1], [1], [], 2, 1, 0, 0, [0], []⟩ := by
    simp [hu, recycled, closeConnectionToRecy_eq, ConnectionPool.pushConnectToRecyQueue, hs.pool,
      ConnectionPool.takeFromRecyQueue, ConnectionPool.freeConnection]
  have hfds : u.kernel.openFds = [3] := by
    simp [hu, recycled, closeConnectionToRecy_eq, hs.openFds, hs.sockFd]
  have hconfig : u.config = smallConfig := by
    simp [hu, recycled, closeConnectionToRecy_eq, hs.config]
  have haccept4 : u.iIsAccept4 = true := by
    simp [hu, recycled, closeConnectionToRecy_eq, hs.accept4]
  have hadmitted : u.next (.accept env) = some (u.admitted 4 0) := by
    have hroom : u.admittedConn = some u.pool.front := by
      simp [admittedConn, tooManyUsers, poolExhausted, hpool, hconfig, smallConfig, intToU32, u32]
    cases ht : u.acceptClient 4 env with
    | none =>
      simp [acceptClient, tooManyUsers, poolExhausted, hpool, hconfig, smallConfig, intToU32, u32,
        env, HandlerEnv.idle] at ht
    | some t =>
      rcases acceptClient_outcome ht with ⟨hnone, -⟩ | ⟨-, rfl⟩
      · rw [hroom] at hnone
        cases hnone
      · exact ht
  have hfront : u.pool.front = 1 := by simp [hpool, ConnectionPool.front]
  have htaken : u.taken = u.conn 1 := by
    rw [taken, hfront, if_neg (by simp [hpool])]
  have hnumber : (u.conn 1).currSequence = nextSequence^[2] n := by
    simp [hu, recycled, closeConnectionToRecy_eq, Connection.closed, hs.pool, hs.number,
      nextSequence]
  refine ⟨_, _, hrecycle.step ⟨by simp [Enabled, env, hfds], hadmitted⟩, ?_, ?_⟩
  · have hlist : u.sendQueue.sendMsgList = [0] := by
      simp [hu, recycled, closeConnectionToRecy_eq, hs.list]
    have hheader : u.sendHeader 0 = ⟨1, 2⟩ := by
      simpa [hu, recycled, closeConnectionToRecy_eq, sendHeader] using hs.header
    refine ⟨hconfig, ?_, ?_, ?_, ?_, ?_, haccept4, hlist, hheader⟩
    · simp [admitted, hpool, ConnectionPool.getConnection, ConnectionPool.front]
    · simp [IsClient, admitted, hfront, Connection.installed]
    · rw [Function.iterate_succ_apply', ← hnumber]
      simp [admitted, hfront, htaken, Connection.installed, Connection.getOneToUse, nextSequence]
    · simp [admitted, hfront, Connection.installed, u16]
    · simp [admitted, hfds]
  · simp [admitted, hfront, Connection.installed, Connection.getOneToUse]

end Server
end XiaoHGServer
