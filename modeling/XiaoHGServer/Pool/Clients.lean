import XiaoHGServer.Model.Steps

/-!
# Client connections

A connection object that has been given to a client keeps its callbacks for ever,
and every message header and every timer entry of the process points to such an
object. So whatever thread closes a connection through a pointer it was handed,
it closes a client's.
-/

namespace XiaoHGServer

/-- The two handlers `EpolWaitlProcessEvents` may call for a connection. -/
def Connection.callbacks (k : Connection) : Option Handler × Option Handler :=
  (k.epoll.pcbReadHandler, k.epoll.pcbWriteHandler)

def clientCallbacks : Option Handler × Option Handler :=
  (some .epollEventReadRequestHandler, some .epollEventWriteRequestHandler)

/-- The receive state of a connection and its callbacks. -/
def Connection.reception (k : Connection) : RecvState × Option Handler × Option Handler :=
  (k.recv, k.callbacks)

def Connection.receiveSide (k : Connection) :
    (RecvState × Option Handler × Option Handler) × FloodState :=
  (k.reception, k.flood)

namespace Server

variable {s t : Server} {c d : ConnId} {now : ℤ} {e : Event}

theorem closeConnectionToRecy_receiveSide (d : ConnId) :
    ((s.closeConnectionToRecy c now).conn d).receiveSide = (s.conn d).receiveSide := by
  rw [closeConnectionToRecy_eq]
  exact update_field Connection.receiveSide (by rfl) d

theorem closeConnectionToRecy_recv (d : ConnId) :
    ((s.closeConnectionToRecy c now).conn d).recv = (s.conn d).recv :=
  congrArg (fun r => r.1.1) (closeConnectionToRecy_receiveSide d)

theorem read_receiveSide_ne {ret : RecvRet} {currTime : ℕ} (hd : d ≠ c) :
    ((s.epollEventReadRequestHandler c ret now currTime).conn d).receiveSide =
      (s.conn d).receiveSide := by
  obtain ⟨q, r, f, hform⟩ := onlyRecv_readBase s c ret currTime
  have hbase : ((s.readBase c ret currTime).1.conn d).receiveSide = (s.conn d).receiveSide := by
    rw [hform]
    simp [hd]
  rw [read_eq]
  split
  · rw [closeConnectionToRecy_receiveSide, hbase]
  · exact hbase

theorem read_callbacks {ret : RecvRet} {currTime : ℕ} (d : ConnId) :
    ((s.epollEventReadRequestHandler c ret now currTime).conn d).callbacks =
      (s.conn d).callbacks := by
  obtain ⟨q, r, f, hform⟩ := onlyRecv_readBase s c ret currTime
  have hbase : ((s.readBase c ret currTime).1.conn d).callbacks = (s.conn d).callbacks := by
    rw [hform]
    exact update_field Connection.callbacks (by rfl) d
  rw [read_eq]
  split
  · exact (congrArg (fun r => r.1.2) (closeConnectionToRecy_receiveSide d)).trans hbase
  · exact hbase

theorem startSend_receiveSide {env : SendEnv} (h : s.startSend c env = some t) (d : ConnId) :
    (t.conn d).receiveSide = (s.conn d).receiveSide := by
  rcases startSend_cases h with ⟨-, rfl⟩ | ⟨n, -, -, -, rfl⟩ | ⟨-, rfl⟩
  · rfl
  · exact update_field Connection.receiveSide (by rfl) d
  · exact update_field Connection.receiveSide (by rfl) d

theorem iterate_receiveSide {pos : ℕ} {env : SendEnv} (h : s.sendMsgThreadIter pos env = some t)
    (d : ConnId) : (t.conn d).receiveSide = (s.conn d).receiveSide := by
  rcases iterate_cases h with ⟨-, rfl⟩ | ⟨b, -, ⟨-, rfl⟩ | ⟨-, -, rfl⟩ | ⟨-, -, hstart⟩⟩
  · rfl
  · rfl
  · rfl
  · exact (startSend_receiveSide hstart d).trans
      (takeSendMsg_field Connection.receiveSide (fun _ _ _ => rfl) d)

theorem write_receiveSide {env : SendEnv} (h : s.epollEventWriteRequestHandler c env = some t)
    (d : ConnId) : (t.conn d).receiveSide = (s.conn d).receiveSide := by
  rcases write_cases h with ⟨n, -, -, -, rfl⟩ | ⟨-, rfl⟩ | ⟨n, -, -, -, rfl⟩ | ⟨-, rfl⟩
  · exact update_field Connection.receiveSide (by rfl) d
  · rfl
  · exact update_field Connection.receiveSide (by rfl) d
  · rfl

theorem push_receiveSide {b : BufId} (h : s.pushSendMsgToSendListAndSem b now = some t)
    (d : ConnId) : (t.conn d).receiveSide = (s.conn d).receiveSide := by
  obtain ⟨size, discard, mem, k, rfl, -⟩ := push_cases h
  rw [update_field Connection.receiveSide (by rfl) d, pushBase]
  split
  · exact closeConnectionToRecy_receiveSide d
  · rfl

/-- A connection receives and changes its callbacks when it is read and when it is accepted. -/
theorem step_receiveSide (h : s.next e = some t) (d : ConnId) :
    (t.conn d).receiveSide = (s.conn d).receiveSide ∨ (∃ env, e = .read d env) ∨
      d = s.pool.front ∧ ∃ env fd b, e = .accept env ∧
        t = { s.admitted fd env.now with iIsAccept4 := b } := by
  cases e with
  | accept env =>
    rcases accept_cases h with ⟨b, calls, rfl, -⟩ | ⟨fd, b, -, rfl⟩
    · exact Or.inl rfl
    · by_cases hd : d = s.pool.front
      · exact Or.inr (Or.inr ⟨hd, env, fd, b, rfl, rfl⟩)
      · exact Or.inl (by simp [admitted, hd])
  | read c env =>
    obtain rfl := Option.some.inj h
    by_cases hd : d = c
    · exact Or.inr (Or.inl ⟨env, by rw [hd]⟩)
    · exact Or.inl (read_receiveSide_ne hd)
  | outError c =>
    obtain rfl := Option.some.inj h
    exact Or.inl (update_field Connection.receiveSide (by rfl) d)
  | write c env => exact Or.inl (write_receiveSide h d)
  | take =>
    obtain rfl := Option.some.inj h
    unfold takeRecvMsg
    split <;> exact Or.inl rfl
  | handle i now =>
    obtain rfl | ⟨w, u, r, -, ⟨m, m', x, rfl, -⟩, rfl⟩ := workerHandle_cases h
    · exact Or.inl rfl
    · exact Or.inl (update_field Connection.receiveSide (by rfl) d)
  | push i now =>
    obtain ⟨rfl, -⟩ | ⟨b, u, -, hu, rfl⟩ := workerPush_cases h
    · exact Or.inl rfl
    · exact Or.inl (push_receiveSide hu d)
  | release i =>
    obtain rfl := Option.some.inj h
    unfold workerRelease
    split <;> exact Or.inl rfl
  | semWait => cases h; exact Or.inl rfl
  | semIntr => cases h; exact Or.inl rfl
  | sizeTest => cases h; exact Or.inl rfl
  | iterate env =>
    obtain rfl | ⟨pos, -, h⟩ := iterate_pass h
    · exact Or.inl rfl
    · exact Or.inl (iterate_receiveSide h d)
  | close c now =>
    obtain rfl := Option.some.inj h
    exact Or.inl (closeConnectionToRecy_receiveSide d)
  | recycle now =>
    obtain ⟨c, -, rfl⟩ := lblRRTD_eq_some h
    exact Or.inl (update_field Connection.receiveSide (by rfl) d)
  | clear =>
    obtain ⟨c, -, rfl⟩ := lblRRTD2_eq_some h
    exact Or.inl (update_field Connection.receiveSide (by rfl) d)
  | monitor now =>
    obtain ⟨hd, q, -, -, ⟨-, rfl⟩ | ⟨-, rfl⟩⟩ := monitor_cases h
    · exact Or.inl (closeConnectionToRecy_receiveSide d)
    · exact Or.inl rfl

theorem step_reception (h : s.next e = some t) (d : ConnId) :
    (t.conn d).reception = (s.conn d).reception ∨ (∃ env, e = .read d env) ∨
      d = s.pool.front ∧ ∃ fd now b, t = { s.admitted fd now with iIsAccept4 := b } := by
  rcases step_receiveSide h d with hsame | hread | ⟨hd, env, fd, b, -, ht⟩
  · exact Or.inl (congrArg Prod.fst hsame)
  · exact Or.inr (Or.inl hread)
  · exact Or.inr (Or.inr ⟨hd, fd, env.now, b, ht⟩)

/-- Callbacks change only where the accept handler installs a client's. -/
theorem step_callbacks (h : s.next e = some t) (d : ConnId) :
    (t.conn d).callbacks = (s.conn d).callbacks ∨
      d = s.pool.front ∧ (t.conn d).callbacks = clientCallbacks ∧
        ∃ fd now b, t = { s.admitted fd now with iIsAccept4 := b } := by
  rcases step_reception h d with heq | ⟨env, rfl⟩ | ⟨rfl, fd, now, b, rfl⟩
  · exact Or.inl (congrArg Prod.snd heq)
  · obtain rfl := Option.some.inj h
    exact Or.inl (read_callbacks d)
  · refine Or.inr ⟨rfl, ?_, fd, now, b, rfl⟩
    simp [admitted, Connection.installed, Connection.callbacks, clientCallbacks]

theorem isClient_iff : s.IsClient c ↔
    (s.conn c).callbacks.1 = some .epollEventReadRequestHandler := Iff.rfl

theorem step_isClient (h : s.next e = some t) (hc : s.IsClient c) : t.IsClient c := by
  rw [isClient_iff] at hc ⊢
  rcases step_callbacks h c with hcb | ⟨-, hcb, -⟩
  · rwa [hcb]
  · rw [hcb]
    rfl

def jobs (s : Server) : List BufId := s.workers.map Worker.pJobBuf

theorem jobs_setStage (i : ℕ) (stage : WorkerStage) : (s.setStage i stage).jobs = s.jobs := by
  apply List.ext_getElem?
  intro j
  simp only [jobs, setStage, List.getElem?_map, List.getElem?_modify]
  cases s.workers[j]? with
  | none => rfl
  | some w => split <;> rfl

/-- Receive buffers are allocated and stamped with clients' connections. -/
structure RecvPointers (s : Server) : Prop where
  header : ∀ b < s.recvQueue.mem.next, s.IsClient (s.recvHeader b).pConn
  list : ∀ b ∈ s.recvQueue.recvMsgList, b < s.recvQueue.mem.next
  jobs : ∀ b ∈ s.jobs, b < s.recvQueue.mem.next
  receiving : ∀ c b, (s.conn c).recv.receiving = some b → b < s.recvQueue.mem.next

/-- Send buffers are allocated and stamped with clients' connections. -/
structure SendPointers (s : Server) : Prop where
  header : ∀ b < s.sendQueue.mem.next, s.IsClient (s.sendHeader b).pConn
  replies : ∀ w ∈ s.workers, ∀ b, w.stage = .reply b → b < s.sendQueue.mem.next

/-- Every pointer to a connection that is stored anywhere points to a client's. -/
structure ClientPointers (s : Server) : Prop where
  recv : s.RecvPointers
  send : s.SendPointers
  timer : s.timer.Sound s.IsClient

theorem RecvPointers.frame (hs : s.RecvPointers) (hmono : ∀ c, s.IsClient c → t.IsClient c)
    (hnext : t.recvQueue.mem.next = s.recvQueue.mem.next)
    (hhead : ∀ b, t.recvHeader b = s.recvHeader b)
    (hlist : t.recvQueue.recvMsgList ⊆ s.recvQueue.recvMsgList)
    (hjobs : ∀ b ∈ t.jobs, b ∈ s.jobs ∨ b ∈ s.recvQueue.recvMsgList)
    (hrecv : ∀ c b, (t.conn c).recv.receiving = some b → (s.conn c).recv.receiving = some b) :
    t.RecvPointers where
  header b hb := by
    rw [hhead]
    exact hmono _ (hs.header b (hnext ▸ hb))
  list b hb := hnext ▸ hs.list b (hlist hb)
  jobs b hb := by
    rw [hnext]
    rcases hjobs b hb with hb | hb
    · exact hs.jobs b hb
    · exact hs.list b hb
  receiving c b hb := hnext ▸ hs.receiving c b (hrecv c b hb)

theorem RecvPointers.same (hs : s.RecvPointers) (hmono : ∀ c, s.IsClient c → t.IsClient c)
    (hq : t.recvQueue = s.recvQueue) (hjobs : t.jobs = s.jobs)
    (hrecv : ∀ c, (t.conn c).recv = (s.conn c).recv) : t.RecvPointers :=
  hs.frame hmono (by rw [hq]) (fun b => by rw [recvHeader, hq]; rfl) (by rw [hq]; simp)
    (fun b hb => Or.inl (hjobs ▸ hb)) (fun c b hb => by rwa [hrecv] at hb)

theorem SendPointers.frame (hs : s.SendPointers) (hmono : ∀ c, s.IsClient c → t.IsClient c)
    (hnext : t.sendQueue.mem.next = s.sendQueue.mem.next)
    (hbuf : t.sendQueue.mem.buffer = s.sendQueue.mem.buffer)
    (hstage : ∀ w ∈ t.workers, ∀ b, w.stage = .reply b →
      ∃ w' ∈ s.workers, w'.stage = .reply b) : t.SendPointers where
  header b hb := by
    rw [sendHeader, hbuf]
    exact hmono _ (hs.header b (hnext ▸ hb))
  replies w hw b hb := by
    obtain ⟨w', hw', hb'⟩ := hstage w hw b hb
    exact hnext ▸ hs.replies w' hw' b hb'

theorem SendPointers.same (hs : s.SendPointers) (hmono : ∀ c, s.IsClient c → t.IsClient c)
    (hnext : t.sendQueue.mem.next = s.sendQueue.mem.next)
    (hbuf : t.sendQueue.mem.buffer = s.sendQueue.mem.buffer)
    (hw : t.workers = s.workers) : t.SendPointers :=
  hs.frame hmono hnext hbuf fun w h _ hb => ⟨w, hw ▸ h, hb⟩

theorem mem_setStage {i : ℕ} {stage : WorkerStage} {w : Worker}
    (h : w ∈ (s.setStage i stage).workers) : w ∈ s.workers ∨ w.stage = stage := by
  obtain ⟨j, hj⟩ := List.mem_iff_getElem?.mp h
  simp only [setStage, List.getElem?_modify] at hj
  cases hw : s.workers[j]? with
  | none => simp [hw] at hj
  | some w' =>
    rw [hw] at hj
    by_cases hij : i = j
    · simp only [hij, if_true] at hj
      exact Or.inr (by rw [← Option.some.inj hj])
    · simp only [hij, if_false] at hj
      exact Or.inl (Option.some.inj hj ▸ List.mem_of_getElem? hw)

theorem recvPointers_read {ret : RecvRet} {currTime : ℕ} (hs : s.RecvPointers)
    (hc : s.IsClient c) (hmono : ∀ d, s.IsClient d →
      (s.epollEventReadRequestHandler c ret now currTime).IsClient d) :
    (s.epollEventReadRequestHandler c ret now currTime).RecvPointers := by
  have hmove := readBase_move s c ret currTime
  have hstamp := stampsOnly_readBase s c ret currTime
  have honly := onlyRecv_readBase s c ret currTime
  set u := (s.readBase c ret currTime).1 with hu
  set t := s.epollEventReadRequestHandler c ret now currTime with ht
  have hq : t.recvQueue = u.recvQueue ∧ t.jobs = u.jobs ∧
      ∀ d, (t.conn d).recv = (u.conn d).recv := by
    rw [ht, read_eq]
    split
    · exact ⟨by rw [closeConnectionToRecy_eq], by rw [closeConnectionToRecy_eq]; rfl,
        closeConnectionToRecy_recv⟩
    · exact ⟨rfl, rfl, fun _ => rfl⟩
  obtain ⟨q, r, f, hform⟩ := honly
  have hjobs : u.jobs = s.jobs := by
    rw [hform]
    rfl
  have hother : ∀ d, d ≠ c → (u.conn d).recv = (s.conn d).recv := by
    intro d hd
    rw [hform]
    simp [hd]
  have hnext : s.recvQueue.mem.next ≤ u.recvQueue.mem.next := hmove.next_le
  have hnew {b : BufId} (h : (b = s.recvQueue.mem.next ∧
      u.recvQueue.mem.next = s.recvQueue.mem.next + 1) ∨ (s.conn c).recv.receiving = some b) :
      b < u.recvQueue.mem.next := by
    rcases h with ⟨rfl, hn⟩ | hb
    · exact (Nat.lt_succ_self _).trans_eq hn.symm
    · exact (hs.receiving c b hb).trans_le hnext
  refine ⟨fun b hb => ?_, fun b hb => ?_, fun b hb => ?_, fun d b hb => ?_⟩
  · have hheq : t.recvHeader b = u.recvHeader b := by rw [recvHeader, hq.1]; rfl
    rw [hq.1] at hb
    rw [hheq]
    rcases hstamp with ⟨-, hsame, hhead⟩ | ⟨-, hgrow, hnew, hold⟩
    · rw [hhead]
      exact hmono _ (hs.header b (hsame ▸ hb))
    · by_cases hb' : b = s.recvQueue.mem.next
      · rw [hb', hnew]
        exact hmono c hc
      · rw [hold b hb']
        exact hmono _ (hs.header b (lt_of_le_of_ne (Nat.le_of_lt_succ (hb.trans_eq hgrow)) hb'))
  · rw [hq.1] at hb ⊢
    rcases hmove.mem_recvMsgList hb with hb | hb
    · exact (hs.list b hb).trans_le hnext
    · exact hnew hb
  · rw [hq.1]
    rw [hq.2.1, hjobs] at hb
    exact (hs.jobs b hb).trans_le hnext
  · rw [hq.1]
    rw [hq.2.2] at hb
    by_cases hd : d = c
    · subst hd
      exact hnew (hmove.receiving_some hb)
    · rw [hother d hd] at hb
      exact (hs.receiving d b hb).trans_le hnext

theorem closeConnectionToRecy_timer {P : ConnId → Prop} (h : s.timer.Sound P) :
    (s.closeConnectionToRecy c now).timer.Sound P := by
  rw [closeConnectionToRecy_eq]
  dsimp only
  split
  · exact h.deleteFromTimerQueue c
  · exact h

theorem closeConnectionToRecy_jobs : (s.closeConnectionToRecy c now).jobs = s.jobs := by
  rw [closeConnectionToRecy_eq]
  rfl

theorem clientPointers_close (hs : s.ClientPointers) (c : ConnId) (now : ℤ)
    (hmono : ∀ d, s.IsClient d → (s.closeConnectionToRecy c now).IsClient d) :
    (s.closeConnectionToRecy c now).ClientPointers where
  recv := hs.recv.same hmono (by rw [closeConnectionToRecy_eq]) closeConnectionToRecy_jobs
    closeConnectionToRecy_recv
  send := hs.send.same hmono (by rw [closeConnectionToRecy_eq]) (by rw [closeConnectionToRecy_eq])
    (by rw [closeConnectionToRecy_eq])
  timer := closeConnectionToRecy_timer (hs.timer.mono hmono)

theorem clientPointers_handle {i : ℕ} {w : Worker} {r : Option BufId} {u : Server}
    (hs : s.ClientPointers) (hw : s.workers[i]? = some w)
    (h : Handled (s.recvHeader w.pJobBuf) s u r) {stage : WorkerStage}
    (hstage : ∀ b, stage = .reply b → r = some b)
    (hmono : ∀ d, s.IsClient d → (u.setStage i stage).IsClient d) :
    (u.setStage i stage).ClientPointers := by
  obtain ⟨m, m', x, rfl, hm, hr⟩ := h
  have hjob : w.pJobBuf < s.recvQueue.mem.next :=
    hs.recv.jobs _ (List.mem_map_of_mem (List.mem_of_getElem? hw))
  have hle : s.sendQueue.mem.next ≤ m'.next := by
    rcases hr with ⟨-, rfl⟩ | ⟨-, hc⟩
    · exact le_rfl
    · exact hc.next ▸ Nat.le_succ _
  refine ⟨?_, ⟨fun b hb => ?_, fun w' hw' b hb => ?_⟩, hs.timer.mono hmono⟩
  · exact hs.recv.frame hmono hm.next hm.header (List.Subset.refl _)
      (fun b hb => Or.inl (by rwa [jobs_setStage] at hb)) fun d b hb =>
        (congrArg RecvState.receiving (update_field Connection.recv (by rfl) d)).symm.trans hb
  · rcases hr with ⟨-, rfl⟩ | ⟨-, hc⟩
    · exact hmono _ (hs.send.header b hb)
    · by_cases hnew : b = s.sendQueue.mem.next
      · have : ((m'.buffer b).header).pConn = (s.recvHeader w.pJobBuf).pConn := by
          rw [hnew, hc.header]
        exact hmono _ (by simpa [sendHeader, setStage, this] using hs.recv.header _ hjob)
      · have hlt : b < s.sendQueue.mem.next :=
          lt_of_le_of_ne (Nat.le_of_lt_succ (hb.trans_eq hc.next)) hnew
        have : m'.buffer b = s.sendQueue.mem.buffer b := hc.buffer b hnew
        exact hmono _ (by simpa [sendHeader, setStage, this] using hs.send.header b hlt)
  · rcases mem_setStage hw' with hold | hset
    · exact (hs.send.replies w' hold b hb).trans_le hle
    · rw [hset] at hb
      rcases hr with ⟨hnone, -⟩ | ⟨hsome, hc⟩
      · rw [hstage b hb] at hnone
        cases hnone
      · rw [hstage b hb] at hsome
        rw [Option.some.inj hsome]
        exact (Nat.lt_succ_self _).trans_eq hc.next.symm

theorem clientPointers_read {ret : RecvRet} {currTime : ℕ} (hs : s.ClientPointers)
    (hc : s.IsClient c) (hmono : ∀ d, s.IsClient d →
      (s.epollEventReadRequestHandler c ret now currTime).IsClient d) :
    (s.epollEventReadRequestHandler c ret now currTime).ClientPointers := by
  have hrecv := recvPointers_read hs.recv hc hmono
  obtain ⟨q, r, f, hform⟩ := onlyRecv_readBase s c ret currTime
  refine ⟨hrecv, hs.send.same hmono ?_ ?_ ?_, (?_ : TimerQueue.Sound _ _).mono hmono⟩
  all_goals
    rw [read_eq]
    split
    · simp only [closeConnectionToRecy_eq, hform, logCall_sendQueue, logCall_workers,
        logCall_timer, logCall_config]
      first
        | done
        | (split
           · exact hs.timer.deleteFromTimerQueue c
           · exact hs.timer)
    · simp only [hform, logCall_sendQueue, logCall_workers, logCall_timer]
      first | done | exact hs.timer

theorem clientPointers_accept {env : HandlerEnv} (hs : s.ClientPointers)
    (h : s.epollEventAcceptHandler env = some t) (hmono : ∀ d, s.IsClient d → t.IsClient d) :
    t.ClientPointers := by
  rcases accept_cases h with ⟨b, calls, rfl, -⟩ | ⟨fd, b, -, rfl⟩
  · exact ⟨hs.recv.same hmono rfl rfl fun _ => rfl, hs.send.same hmono rfl rfl rfl,
      hs.timer.mono hmono⟩
  · have hnew :
        ({ s.admitted fd env.now with iIsAccept4 := b } : Server).IsClient s.pool.front := by
      simp [IsClient, admitted, Connection.installed]
    refine ⟨hs.recv.frame hmono rfl (fun _ => rfl) (List.Subset.refl _)
      (fun b hb => Or.inl hb) fun d b hb => ?_, hs.send.same hmono rfl rfl rfl, ?_⟩
    · by_cases hd : d = s.pool.front
      · simp [admitted, hd, Connection.installed, Connection.getOneToUse,
          RecvState.receiving] at hb
      · simpa [admitted, hd] using hb
    · simp only [admitted]
      split
      · exact (hs.timer.mono hmono).addToTimerList hnew
      · exact hs.timer.mono hmono

theorem clientPointers_iterate {pos : ℕ} {env : SendEnv} (hs : s.ClientPointers)
    (h : s.sendMsgThreadIter pos env = some t) (hmono : ∀ d, s.IsClient d → t.IsClient d) :
    t.ClientPointers := by
  have same (hq : t.recvQueue = s.recvQueue) (hw : t.workers = s.workers)
      (hr : ∀ d, (t.conn d).recv = (s.conn d).recv)
      (hn : t.sendQueue.mem.next = s.sendQueue.mem.next)
      (hb : t.sendQueue.mem.buffer = s.sendQueue.mem.buffer) (ht : t.timer = s.timer) :
      t.ClientPointers :=
    ⟨hs.recv.same hmono hq (by rw [jobs, hw]; rfl) hr, hs.send.same hmono hn hb hw,
      ht ▸ hs.timer.mono hmono⟩
  rcases iterate_cases h with ⟨-, rfl⟩ | ⟨b, -, ⟨-, rfl⟩ | ⟨-, -, rfl⟩ | ⟨-, -, hstart⟩⟩
  · exact same rfl rfl (fun _ => rfl) rfl rfl rfl
  · exact same rfl rfl (fun _ => rfl) (by simp [freeSendMsg, eraseSendMsg])
      (by simp [freeSendMsg, eraseSendMsg]) rfl
  · exact same rfl rfl (fun _ => rfl) rfl rfl rfl
  · have hrecv (d : ConnId) : (t.conn d).recv = (s.conn d).recv :=
      congrArg (fun r => r.1.1) (iterate_receiveSide h d)
    rcases startSend_cases hstart with ⟨-, rfl⟩ | ⟨n, -, -, -, rfl⟩ | ⟨-, rfl⟩
    · exact same rfl rfl hrecv (by simp [takeSendMsg, eraseSendMsg])
        (by simp [takeSendMsg, eraseSendMsg]) rfl
    · exact same rfl rfl hrecv rfl rfl rfl
    · exact same rfl rfl hrecv rfl rfl rfl

theorem clientPointers_write {env : SendEnv} (hs : s.ClientPointers)
    (h : s.epollEventWriteRequestHandler c env = some t)
    (hmono : ∀ d, s.IsClient d → t.IsClient d) : t.ClientPointers := by
  rcases write_cases h with ⟨n, -, -, -, rfl⟩ | ⟨-, rfl⟩ | ⟨n, -, -, -, rfl⟩ | ⟨-, rfl⟩
  · exact ⟨hs.recv.same hmono rfl rfl fun d => update_field Connection.recv (by rfl) d,
      hs.send.same hmono rfl rfl rfl, hs.timer.mono hmono⟩
  · exact ⟨hs.recv.same hmono rfl rfl fun _ => rfl, hs.send.same hmono rfl rfl rfl,
      hs.timer.mono hmono⟩
  · exact ⟨hs.recv.same hmono rfl rfl fun d => update_field Connection.recv (by rfl) d,
      hs.send.same hmono (by simp) (by simp) rfl, hs.timer.mono hmono⟩
  · exact ⟨hs.recv.same hmono rfl rfl fun _ => rfl, hs.send.same hmono rfl rfl rfl,
      hs.timer.mono hmono⟩

theorem clientPointers_push {i : ℕ} {b : BufId} {u : Server} (hs : s.ClientPointers)
    (h : s.pushSendMsgToSendListAndSem b now = some u)
    (hmono : ∀ d, s.IsClient d → (u.setStage i .handled).IsClient d) :
    (u.setStage i .handled).ClientPointers := by
  obtain ⟨size, discard, mem, k, rfl, hnext, hbuf, -, -⟩ := push_cases h
  have hbase : (s.pushBase b now).recvQueue = s.recvQueue ∧
      (s.pushBase b now).workers = s.workers ∧
      (∀ d, ((s.pushBase b now).conn d).recv = (s.conn d).recv) ∧
      (s.pushBase b now).timer.Sound s.IsClient := by
    unfold pushBase
    split
    · exact ⟨by rw [closeConnectionToRecy_eq], by rw [closeConnectionToRecy_eq],
        closeConnectionToRecy_recv, closeConnectionToRecy_timer hs.timer⟩
    · exact ⟨rfl, rfl, fun _ => rfl, hs.timer⟩
  obtain ⟨hq, hw, hr, htimer⟩ := hbase
  refine ⟨hs.recv.same hmono hq ?_ fun d => ?_, hs.send.frame hmono hnext hbuf ?_,
    htimer.mono hmono⟩
  · rw [jobs_setStage]
    exact congrArg (List.map Worker.pJobBuf) hw
  · exact (update_field Connection.recv (by rfl) d).trans (hr d)
  · intro w hw' b' hb'
    rcases mem_setStage hw' with hold | hset
    · exact ⟨w, hw ▸ hold, hb'⟩
    · rw [hset] at hb'
      cases hb'

theorem step_clientPointers (hs : s.ClientPointers) (he : s.Enabled e) (h : s.next e = some t) :
    t.ClientPointers := by
  have hmono : ∀ d, s.IsClient d → t.IsClient d := fun d => step_isClient h
  cases e with
  | accept env => exact clientPointers_accept hs h hmono
  | read c env =>
    obtain rfl := Option.some.inj h
    exact clientPointers_read hs he.1 hmono
  | outError c =>
    obtain rfl := Option.some.inj h
    exact ⟨hs.recv.same hmono rfl rfl fun d => update_field Connection.recv (by rfl) d,
      hs.send.same hmono rfl rfl rfl, hs.timer.mono hmono⟩
  | write c env => exact clientPointers_write hs h hmono
  | take =>
    obtain rfl := Option.some.inj h
    cases hl : s.recvQueue.recvMsgList with
    | nil => simpa only [takeRecvMsg, hl] using hs
    | cons b rest =>
      simp only [takeRecvMsg, hl] at hmono ⊢
      refine ⟨hs.recv.frame hmono rfl (fun _ => rfl) ?_ ?_ fun _ _ h => h,
        hs.send.frame hmono rfl rfl ?_, hs.timer.mono hmono⟩
      · rw [hl]
        exact List.subset_cons_self _ _
      · intro b' hb'
        simp only [jobs, List.map_append, List.map_singleton, List.mem_append,
          List.mem_singleton] at hb'
        rcases hb' with hb' | rfl
        · exact Or.inl hb'
        · exact Or.inr (by simp [hl])
      · intro w hw b' hb'
        rcases List.mem_append.mp hw with hw | hw
        · exact ⟨w, hw, hb'⟩
        · rw [List.mem_singleton.mp hw] at hb'
          cases hb'
  | handle i now =>
    obtain rfl | ⟨w, u, r, hw, hu, rfl⟩ := workerHandle_cases h
    · exact hs
    · refine clientPointers_handle hs hw hu (fun b hb => ?_) hmono
      cases r with
      | none => cases hb
      | some b' => rw [WorkerStage.reply.inj hb]
  | push i now =>
    obtain ⟨rfl, -⟩ | ⟨b, u, -, hu, rfl⟩ := workerPush_cases h
    · exact hs
    · exact clientPointers_push hs hu hmono
  | release i =>
    obtain rfl := Option.some.inj h
    unfold workerRelease at hmono ⊢
    split at hmono
    · exact hs
    · refine ⟨hs.recv.frame hmono (by simp) (fun b => by simp [recvHeader]) (List.Subset.refl _)
        ?_ fun _ _ h => h, hs.send.frame hmono rfl rfl ?_, hs.timer.mono hmono⟩
      · intro b hb
        refine Or.inl (List.mem_of_mem_eraseIdx (i := i) ?_)
        rw [jobs] at hb ⊢
        simpa only [List.eraseIdx_map] using hb
      · exact fun w' hw' b hb => ⟨w', List.mem_of_mem_eraseIdx hw', hb⟩
  | semWait =>
    cases h
    exact ⟨hs.recv.same hmono rfl rfl fun _ => rfl, hs.send.same hmono rfl rfl rfl,
      hs.timer.mono hmono⟩
  | semIntr =>
    cases h
    exact ⟨hs.recv.same hmono rfl rfl fun _ => rfl, hs.send.same hmono rfl rfl rfl,
      hs.timer.mono hmono⟩
  | sizeTest =>
    cases h
    exact ⟨hs.recv.same hmono rfl rfl fun _ => rfl, hs.send.same hmono rfl rfl rfl,
      hs.timer.mono hmono⟩
  | iterate env =>
    obtain rfl | ⟨pos, -, h⟩ := iterate_pass h
    · exact hs
    · exact clientPointers_iterate hs h hmono
  | close c now =>
    obtain rfl := Option.some.inj h
    exact clientPointers_close hs c now hmono
  | recycle now =>
    obtain ⟨c, -, rfl⟩ := lblRRTD_eq_some h
    exact ⟨hs.recv.frame hmono (by simp [recycled]) (fun b => by simp [recycled, recvHeader])
      (List.Subset.refl _) (fun b hb => Or.inl hb) fun d b hb =>
        (congrArg RecvState.receiving (update_field Connection.recv (by rfl) d)).symm.trans hb,
      hs.send.same hmono (by simp [recycled]) (by simp [recycled]) rfl, hs.timer.mono hmono⟩
  | clear =>
    obtain ⟨c, -, rfl⟩ := lblRRTD2_eq_some h
    exact ⟨hs.recv.frame hmono (by simp [recycled]) (fun b => by simp [recycled, recvHeader])
      (List.Subset.refl _) (fun b hb => Or.inl hb) fun d b hb =>
        (congrArg RecvState.receiving (update_field Connection.recv (by rfl) d)).symm.trans hb,
      hs.send.same hmono (by simp [recycled]) (by simp [recycled]) rfl, hs.timer.mono hmono⟩
  | monitor now =>
    obtain ⟨hd, q, -, hsound, ⟨-, rfl⟩ | ⟨-, rfl⟩⟩ := monitor_cases h
    · have hclose := clientPointers_close hs hd.pConn now fun d hd' => hmono d hd'
      exact ⟨hclose.recv.same (fun _ h => h) rfl rfl fun _ => rfl,
        hclose.send.same (fun _ h => h) rfl rfl rfl, (hsound _ hs.timer).2.mono hmono⟩
    · exact ⟨hs.recv.same hmono rfl rfl fun _ => rfl, hs.send.same hmono rfl rfl rfl,
        (hsound _ hs.timer).2.mono hmono⟩

structure NoBuffers (s : Server) : Prop where
  recvNext : s.recvQueue.mem.next = 0
  recvReleased : s.recvQueue.mem.released = []
  recvList : s.recvQueue.recvMsgList = []
  workers : s.workers = []
  sendNext : s.sendQueue.mem.next = 0
  sendReleased : s.sendQueue.mem.released = []
  sendList : s.sendQueue.sendMsgList = []
  timer : s.timer.timerQueueMultiMap = []
  receiving : ∀ c, (s.conn c).recv.receiving = none
  recvPointer : ∀ c, (s.conn c).recv.pRecvMsgMemPointer = none
  sendPointer : ∀ c, (s.conn c).send.pSendMsgMemPointer = none

theorem noBuffers_boot (h : s.Booted) : s.NoBuffers := by
  refine h.induction (fun cfg now _ _ _ => ?_) fun s fd now hs => ?_
  · refine ⟨rfl, rfl, rfl, rfl, rfl, rfl, rfl, rfl, fun c => ?_, fun c => ?_, fun c => ?_⟩
    all_goals
      simp only [init]
      split <;> rfl
  · have hconn : ∀ c, ((s.addListenSocket fd now).conn c).recv.receiving = none ∧
        ((s.addListenSocket fd now).conn c).recv.pRecvMsgMemPointer = none ∧
        ((s.addListenSocket fd now).conn c).send.pSendMsgMemPointer = none := by
      intro c
      by_cases hc : c = s.pool.front
      · simp [addListenSocket, getConnection, epollRegisterEvent, hc, Connection.getOneToUse,
          RecvState.receiving]
      · simp [addListenSocket, getConnection, epollRegisterEvent, hc, hs.receiving c,
          hs.recvPointer c, hs.sendPointer c]
    exact ⟨hs.recvNext, hs.recvReleased, hs.recvList, hs.workers, hs.sendNext, hs.sendReleased,
      hs.sendList, hs.timer, fun c => (hconn c).1, fun c => (hconn c).2.1, fun c => (hconn c).2.2⟩

theorem clientPointers_boot (h : s.Booted) : s.ClientPointers := by
  have hs := noBuffers_boot h
  refine ⟨⟨fun b hb => ?_, fun b hb => ?_, fun b hb => ?_, fun c b hb => ?_⟩,
    ⟨fun b hb => ?_, fun w hw => ?_⟩, fun e he => ?_⟩
  · rw [hs.recvNext] at hb
    exact absurd hb (Nat.not_lt_zero b)
  · simp [hs.recvList] at hb
  · simp [jobs, hs.workers] at hb
  · simp [hs.receiving c] at hb
  · rw [hs.sendNext] at hb
    exact absurd hb (Nat.not_lt_zero b)
  · simp [hs.workers] at hw
  · simp [hs.timer] at he

/-- In every run, every stored pointer to a connection points to a client's. -/
theorem run_clientPointers {es : List Event} (h : process.Run es s) : s.ClientPointers :=
  h.invariant (I := ClientPointers) (fun _ hb => clientPointers_boot hb)
    fun _ _ _ hs hstep => step_clientPointers hs hstep.1 hstep.2

end Server
end XiaoHGServer
