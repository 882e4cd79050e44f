import XiaoHGServer.Model.Locking
import XiaoHGServer.Model.Process

/-!
# The order of the mutexes

The threads lock the mutexes in one order, with one exception: a sweep of the
heartbeat monitor holds `m_TimeQueueMutex`, and a client it kicks is closed by
`CloseConnectionToRecy`, which locks `m_TimeQueueMutex` again when the heartbeat
check is enabled. Without such a kick there is no deadlock.
-/

namespace XiaoHGServer

/-- The order in which mutexes are locked. The last three are never held while another mutex
is locked. -/
def Mutex.rank : Mutex → Fin 6
  | .logicProcessMutex _ => 0
  | .sendMsgListMutex => 1
  | .timeQueueMutex => 2
  | .recyConnQueueMutex => 3
  | .connectionMutex => 4
  | .recvMsgListMutex => 5
  | .pThreadMutex => 5
  | .logMutex => 5

namespace Locking

variable {lo : Fin 6} {s s' : Server} {c : ConnId} {k : Connection} {cfg : Config} {b : BufId}
  {now : ℤ} {currTime n : ℕ} {q : TimerQueue}

theorem above_log (h : lo ≤ 5) : Above Mutex.rank lo log :=
  .critical_nil h

theorem above_logExit (h : lo ≤ 5) : Above Mutex.rank lo logExit := (above_log h).append .exit

theorem above_freeConnection (h : lo ≤ 4) : Above Mutex.rank lo (freeConnection k) := by
  have hbody : Above Mutex.rank 5 (putOneToFree k) :=
    (above_log le_rfl).append ((above_log le_rfl).ite_nil.append (above_log le_rfl).ite_nil)
  exact (above_log (h.trans (by decide))).append (hbody.critical h (by decide))

theorem above_pushConnectToRecyQueue (h : lo ≤ 3) : Above Mutex.rank lo pushConnectToRecyQueue :=
  (above_log (h.trans (by decide))).append (.critical_nil h)

theorem above_deleteFromTimerQueue (h : lo ≤ 2) : Above Mutex.rank lo deleteFromTimerQueue :=
  (above_log (h.trans (by decide))).append (.critical_nil h)

theorem above_closeConnectionToRecy (h : lo ≤ 2) :
    Above Mutex.rank lo (closeConnectionToRecy cfg) :=
  (above_log (h.trans (by decide))).append
    ((above_deleteFromTimerQueue h).ite_nil.append
      (above_pushConnectToRecyQueue (h.trans (by decide))))

/-- Without the heartbeat check a connection may be closed while `m_TimeQueueMutex` is held. -/
theorem above_closeConnectionToRecy_untimed (hcfg : cfg.isHBTimeOutCheckEnable ≠ 1) :
    Above Mutex.rank 3 (closeConnectionToRecy cfg) := by
  rw [closeConnectionToRecy, if_neg hcfg]
  exact (above_log (by decide)).append (Above.nil.append (above_pushConnectToRecyQueue le_rfl))

theorem above_epollRegisterEvent {ok : Bool} (h : lo ≤ 5) :
    Above Mutex.rank lo (epollRegisterEvent ok) :=
  (above_log h).append (Above.ite (fun _ => .nil) fun _ => above_log h)

theorem above_epollRegisterOrExit {ok : Bool} (h : lo ≤ 5) :
    Above Mutex.rank lo (epollRegisterOrExit ok) :=
  (above_epollRegisterEvent h).append (Above.ite (fun _ => .nil) fun _ => above_logExit h)

theorem above_sendMsgProc {env : SendEnv} (h : lo ≤ 5) : Above Mutex.rank lo (sendMsgProc env) := by
  refine (Above.flatMap fun _ _ => above_log h).append ?_
  split
  · exact .nil
  · exact above_log h

theorem above_semPost (h : lo ≤ 5) : Above Mutex.rank lo (semPost s) :=
  (above_logExit h).ite_nil

/-! ### The epoll thread -/

theorem above_acceptClient {fd : ℕ} {env : HandlerEnv} :
    Above Mutex.rank 0 (acceptClient s fd env) := by
  have hget : Above Mutex.rank 0 getConnection :=
    (above_log (by decide)).append (.critical_nil (by decide))
  have hnonblock : Above Mutex.rank 0 (setNonBlocking env.setNonBlocking) :=
    (above_log (by decide)).append (Above.ite (fun _ => .nil) fun _ => above_logExit (by decide))
  have hclose {k : Connection} : Above Mutex.rank 0 (closeConnectionImmediately k) :=
    (above_log (by decide)).append (above_freeConnection (by decide))
  have htimer : Above Mutex.rank 0 addToTimerList :=
    (above_log (by decide)).append (.critical_nil (by decide))
  refine Above.ite (fun _ => above_log (by decide)) fun _ =>
    Above.ite (fun _ => above_log (by decide)) fun _ => ?_
  refine hget.append (hnonblock.ite_nil.append ((above_epollRegisterEvent (by decide)).append ?_))
  exact Above.ite (fun _ => hclose.append (above_logExit (by decide))) fun _ => htimer.ite_nil

theorem above_acceptLoop (env : HandlerEnv) :
    ∀ (s : Server) (rets : List AcceptRet), Above Mutex.rank 0 (acceptLoop s env rets)
  | _, [] => .nil
  | _, .accepted _ :: _ => above_acceptClient
  | s, .nosys :: rets => by
    have ih := above_acceptLoop env { s with iIsAccept4 := false } rets
    exact Above.ite (fun _ => ih) fun _ => above_log (by decide)
  | _, .error :: _ => above_log (by decide)

theorem above_packetComplete : Above Mutex.rank 0 (packetComplete s c currTime) := by
  have hflood : Above Mutex.rank 0 (testFlood s c currTime) :=
    (above_log (by decide)).append (above_log (by decide)).ite_nil
  have hpush : Above Mutex.rank 0 pushRecvMsgToRecvListAndCond :=
    .critical_nil (by decide)
  exact hflood.ite_nil.append hpush.ite_nil

theorem above_recvAdvance : Above Mutex.rank 0 (recvAdvance s c n currTime) := by
  have hheader : Above Mutex.rank 0 (recvMsgHeaderParseProc s c currTime) :=
    Above.ite (fun _ => .nil) fun _ => above_packetComplete.ite_nil
  unfold recvAdvance
  dsimp only
  split
  · exact hheader.ite_nil
  · exact hheader.ite_nil
  · exact above_packetComplete.ite_nil
  · exact above_packetComplete.ite_nil

theorem above_epollEventReadRequestHandler {ret : RecvRet} :
    Above Mutex.rank 0 (epollEventReadRequestHandler s c ret now currTime) := by
  have hclose {cfg : Config} : Above Mutex.rank 0 (log ++ closeConnectionToRecy cfg) :=
    (above_log (by decide)).append (above_closeConnectionToRecy (by decide))
  have hrecv : Above Mutex.rank 0 (recvMsgProc s.config ret) := by
    cases ret with
    | data bytes => exact .nil
    | eof => exact hclose
    | again => exact above_log (by decide)
    | intr => exact above_log (by decide)
    | error => exact hclose
  refine hrecv.append ?_
  split
  · exact above_log (by decide)
  · exact above_recvAdvance.append hclose.ite_nil

theorem above_epollEventWriteRequestHandler {env : SendEnv} :
    Above Mutex.rank 0 (epollEventWriteRequestHandler s c env) := by
  refine (above_sendMsgProc (by decide)).append ?_
  refine Above.ite (fun _ => .nil) fun _ => Above.ite (fun _ => above_log (by decide)) fun _ => ?_
  exact (above_epollRegisterOrExit (by decide)).ite_nil.append (above_semPost (by decide))

theorem above_callHandler {handler : Option Handler} {env : HandlerEnv} :
    Above Mutex.rank 0 (callHandler s handler c env) := by
  unfold callHandler
  split
  · exact .exit
  · exact above_acceptLoop _ _ _
  · exact above_epollEventReadRequestHandler
  · exact above_epollEventWriteRequestHandler

/-! ### The worker threads -/

/-- A reply is pushed, and a client with a large backlog closed, under `logicProcessMutex`. -/
theorem above_serve : Above Mutex.rank 0 (serve s c) := by
  have hclose : Above Mutex.rank 2 (log ++ closeConnectionToRecy s.config) :=
    (above_log (by decide)).append (above_closeConnectionToRecy le_rfl)
  have hpush : Above Mutex.rank 1 (pushSendMsgToSendListAndSem s c) :=
    Above.critical ((above_log (by decide)).ite_nil.append
      (hclose.ite_nil.append (above_semPost (by decide)))) (by decide) (by decide)
  exact ((above_log (by decide)).append hpush).critical le_rfl Fin.zero_lt_one

theorem above_dispatch {hasBody : Bool} {code pkgLen : ℕ} :
    Above Mutex.rank 0 (dispatch s s' b hasBody code pkgLen) := by
  refine Above.ite (fun _ => above_logExit (by decide)) fun _ =>
    Above.ite (fun _ => above_logExit (by decide)) fun _ => ?_
  split
  · exact above_logExit (by decide)
  · rename_i handler _
    cases handler with
    | handleHeartbeat => exact Above.ite (fun _ => above_log (by decide)) fun _ => above_serve
    | handleRegister => exact Above.ite (fun _ => above_log (by decide)) fun _ => above_serve
    | handleLogin => exact Above.ite (fun _ => above_log (by decide)) fun _ => above_serve

theorem above_threadFunc {waits : ℕ} : Above Mutex.rank 0 (threadFunc waits s s' b) := by
  have hwait : Above Mutex.rank 0 (LockOp.critical .pThreadMutex []) :=
    .critical_nil (by decide)
  refine (Above.flatMap fun _ _ => hwait).append ?_
  refine Above.ite (fun _ => ?_) fun _ => ?_
  · exact Above.ite (fun _ => above_logExit (by decide)) fun _ => above_dispatch
  · exact Above.ite (fun _ => above_logExit (by decide)) fun _ => above_dispatch

/-! ### The sender thread and the recycler -/

theorem above_sendMsgThreadIter {env : SendEnv} :
    Above Mutex.rank 2 (sendMsgThreadIter s b env) := by
  have hsuspend : Above Mutex.rank 2 (suspendSend env) := above_epollRegisterOrExit (by decide)
  refine Above.ite (fun _ => .nil) fun _ => Above.ite (fun _ => .nil) fun _ => ?_
  refine (above_sendMsgProc (by decide)).append (Above.ite (fun _ => ?_) fun _ => ?_)
  · exact Above.ite (fun _ => .nil) fun _ => hsuspend
  · exact Above.ite (fun _ => above_log (by decide)) fun _ =>
      Above.ite (fun _ => hsuspend) fun _ => above_log (by decide)

theorem above_lblRRTD : Above Mutex.rank 4 (lblRRTD k) :=
  (above_log (by decide)).ite_nil.append (above_freeConnection le_rfl)

/-! ### The heartbeat monitor -/

theorem above_heartBeatMonitorIter
    (h : kicks s now = true → s.config.isHBTimeOutCheckEnable ≠ 1) :
    Above Mutex.rank 3 (heartBeatMonitorIter s now) := by
  have hget : Above Mutex.rank 3 (getOverTimeTimer s.timer now) :=
    (above_log (by decide)).append (Above.ite (fun _ => .nil) fun _ =>
      (above_log (by decide)).ite_nil)
  refine hget.append ?_
  split
  · exact .nil
  · rename_i hd hheader
    have hkick (hk : s.kicks hd now = true) :
        Above Mutex.rank 3 (closeConnectionToRecy s.config) :=
      above_closeConnectionToRecy_untimed (h (by simp [kicks, hheader, hk]))
    refine (above_log (by decide)).append
      (Above.ite (fun hseq => Above.ite (fun hdirect => ?_) fun _ =>
        Above.ite (fun hlate => ?_) fun _ => .nil) fun _ => .nil)
    · exact hkick (by simp [Server.kicks, hseq, hdirect])
    · exact (above_log (by decide)).append (hkick (by simp [Server.kicks, hseq, hlate]))

end Locking

/-! ### The end of a sweep -/

namespace TimerQueue

variable {cfg : Config} {now time : ℤ} {q q' : TimerQueue} {b : BufId} {c : ConnId}

def due (q : TimerQueue) (now : ℤ) : ℕ := q.timerQueueMultiMap.countP fun e => e.1 ≤ now

theorem due_insert (h : now < time) : (q.insert time b).due now = q.due now := by
  have hsplit := congrArg (List.countP fun e => decide (e.1 ≤ now))
    (List.takeWhile_append_dropWhile (p := fun e : ℤ × BufId => decide (e.1 ≤ time))
      (l := q.timerQueueMultiMap))
  rw [List.countP_append] at hsplit
  simpa [due, insert, h] using hsplit

theorem due_lblMTQM (fuel : ℕ) : (lblMTQM fuel q c).due now ≤ q.due now := by
  induction fuel generalizing q with
  | zero => exact le_rfl
  | succ fuel ih =>
    rw [lblMTQM]
    split
    · exact le_rfl
    · exact ih.trans (List.Sublist.countP_le List.eraseP_sublist)

theorem due_deleteFromTimerQueue : (q.deleteFromTimerQueue c).due now ≤ q.due now := by
  unfold deleteFromTimerQueue
  dsimp only
  split
  · exact due_lblMTQM _
  · exact due_lblMTQM _

theorem due_getOverTimeTimer (hw : 0 < cfg.waitTime)
    (h : q.getOverTimeTimer cfg now = (q', some b)) : q'.due now < q.due now := by
  obtain ⟨key, rest, q₁, q₂, hmap, hkey, -, hmap₁, -, hq₂, rfl⟩ := getOverTimeTimer_cases h
  have hfirst : q₁.due now < q.due now := by simp [due, hmap, hmap₁, hkey]
  have hback : q₂.due now < q.due now := by
    rw [hq₂]
    split
    · exact (due_insert (by omega)).trans_lt hfirst
    · exact hfirst
  split
  · exact hback
  · exact hback

end TimerQueue

namespace Locking

variable {s s' : Server} {now : ℤ} {q : TimerQueue} {cfg : Config}

theorem due_heartBeatMonitorIter (hw : 0 < s.config.waitTime)
    (h : s.heartBeatMonitorIter now = some s') : s'.timer.due now < s.timer.due now := by
  unfold Server.heartBeatMonitorIter at h
  split at h
  · cases h
  · rename_i q b hget
    obtain rfl := Option.some.inj h
    have hdue := TimerQueue.due_getOverTimeTimer hw hget
    have hclose (c : ConnId) :
        (({ s with timer := q } : Server).closeConnectionToRecy c now).timer.due now ≤
          q.due now := by
      rw [Server.closeConnectionToRecy_eq]
      dsimp only
      split
      · exact TimerQueue.due_deleteFromTimerQueue
      · exact le_rfl
    refine lt_of_le_of_lt ?_ hdue
    unfold Server.heartBeatTimeOutCheck
    dsimp only
    split_ifs
    · exact hclose _
    · exact hclose _
    · exact le_rfl
    · exact le_rfl

/-- The loop of a sweep ends: each turn leaves fewer entries that are due. -/
theorem sweepTurns_isSome {look : List Server} (hw : ∀ s ∈ look, 0 < s.config.waitTime)
    (h : q.due now < look.length) : (sweepTurns now look q).isSome = true := by
  induction look generalizing q with
  | nil => simp at h
  | cons s look ih =>
    rw [sweepTurns]
    split
    · rfl
    · rename_i s' hiter
      have hlt := due_heartBeatMonitorIter (s := { s with timer := q }) (hw s (by simp)) hiter
      have hrest : s'.timer.due now < look.length := by
        have : s'.timer.due now < q.due now := hlt
        rw [List.length_cons] at h
        omega
      rw [Option.isSome_map]
      exact ih (fun t ht => hw t (by simp [ht])) hrest

theorem initialized_waitTime : 0 < cfg.initialized.waitTime := by
  simp only [Config.initialized]
  split <;> omega

/-! ### No deadlock -/

/-- No sweep kicks a client while the heartbeat check is enabled. -/
def NoTimedKick {ι : Type*} (_ : ι → LockThread Mutex) : LockEvent ι Job → Prop
  | .begin _ (.heartBeatMonitorThread now look q) =>
    ∀ turns ∈ sweepTurns now look q, ∀ s ∈ turns,
      kicks s now = true → s.config.isHBTimeOutCheckEnable ≠ 1
  | _ => True

instance {ι : Type*} (s : ι → LockThread Mutex) :
    (e : LockEvent ι Job) → Decidable (NoTimedKick s e)
  | .begin _ (.heartBeatMonitorThread _ _ _) =>
    inferInstanceAs (Decidable (∀ turns ∈ _, ∀ s ∈ turns, _ → _))
  | .act _ | .begin _ (.epollWaitFailed _) | .begin _ (.callHandler _ _ _ _)
  | .begin _ (.threadFunc _ _ _ _) | .begin _ (.sendMsgThread _)
  | .begin _ (.delayRecoveryConnectionThread _) => isTrue trivial

/-- Whatever a thread does under the condition, it locks the mutexes in order. -/
theorem ordered_code {ι : Type*} {u : ι → LockThread Mutex} {i : ι} {j : Job} {code : Code}
    (h : NoTimedKick u (.begin i j)) (hcode : code ∈ j.code) : Ordered Mutex.rank [] code := by
  cases j with
  | epollWaitFailed intr =>
    obtain rfl := Option.mem_some_iff.mp hcode
    exact (Above.ite (fun _ => above_log le_rfl) fun _ => above_logExit le_rfl).ordered
  | callHandler s handler c env =>
    obtain rfl := Option.mem_some_iff.mp hcode
    exact above_callHandler.ordered
  | threadFunc waits s s' b =>
    obtain rfl := Option.mem_some_iff.mp hcode
    exact above_threadFunc.ordered
  | sendMsgThread turns =>
    obtain rfl := Option.mem_some_iff.mp hcode
    exact (Above.critical (Above.flatMap fun _ _ => above_sendMsgThreadIter) le_rfl
      (by decide)).ordered
  | delayRecoveryConnectionThread recycled =>
    obtain rfl := Option.mem_some_iff.mp hcode
    exact (Above.critical (Above.flatMap fun _ _ => above_lblRRTD) le_rfl (by decide)).ordered
  | heartBeatMonitorThread now look q =>
    obtain ⟨turns, hturns, rfl⟩ := Option.map_eq_some_iff.mp hcode
    exact (Above.critical (Above.flatMap fun s hs =>
      above_heartBeatMonitorIter (h turns hturns s hs)) le_rfl (by decide)).ordered

def acceptEnv (fd : ℕ) : HandlerEnv := { HandlerEnv.idle with accept := [.accepted fd] }

/-- The process after it has accepted a client at time 0. -/
def oneClient (cfg : Config) : Server :=
  ((Server.smallBoot cfg).next (.accept (acceptEnv 4))).getD (Server.smallBoot cfg)

/-- The epoll thread accepts a client at time 0. At time 21 the heartbeat monitor sweeps the timer
queue and gets on with it by `n` operations. -/
def firstSweep {m : ℕ} (cfg : Config) (n : ℕ) : List (LockEvent (Thread m) Job) :=
  List.replicate 2 (.act .epollThread) ++ List.replicate 2 (.act .heartBeatMonitorThread) ++
    .begin .epollThread (.callHandler (Server.smallBoot cfg) (some .epollEventAcceptHandler) 0
      (acceptEnv 4)) :: List.replicate 10 (.act .epollThread) ++
    .begin .heartBeatMonitorThread (.heartBeatMonitorThread 21 [oneClient cfg, oneClient cfg]
      (oneClient cfg).timer) :: List.replicate n (.act .heartBeatMonitorThread)

/-- Without a kick by a sweep while the heartbeat check is enabled, no thread waits for itself,
no threads wait for each other in a circle, the heartbeat monitor can always finish its sweep
and give its mutexes back, and the loop of a sweep is finite. -/
theorem deadlock_free (cfg : Config)
    {es : List (LockEvent (Thread cfg.procMsgRecvWorkThreadCount) Job)}
    {s : Thread cfg.procMsgRecvWorkThreadCount → LockThread Mutex}
    (h : ((threads cfg).system.restrict NoTimedKick).Run es s) :
    (∀ i, ∀ m ∈ (s i).request, m ∉ (s i).held) ∧
      (∀ i, ¬ Relation.TransGen (Waits s) i i) ∧
      (∃ (js : List (Thread cfg.procMsgRecvWorkThreadCount))
        (s' : Thread cfg.procMsgRecvWorkThreadCount → LockThread Mutex),
        ((threads cfg).system.restrict NoTimedKick).Run (es ++ js.map .act) s' ∧
          ((s' .heartBeatMonitorThread).code = [] ∧ (s' .heartBeatMonitorThread).held = [] ∨
            ∃ i, (s' i).Exits)) ∧
      ∀ (now : ℤ) (look : List Server) (q : TimerQueue),
        (∀ s ∈ look, s.config = cfg.initialized) → q.due now < look.length →
          (sweepTurns now look q).isSome = true := by
  have hpro (i : Thread cfg.procMsgRecvWorkThreadCount) :
      Ordered Mutex.rank [] ((threads cfg).prologue i) := (above_log le_rfl).ordered
  have hs := LockProgram.ordered hpro (fun _ _ _ hallow _ _ hc => ordered_code hallow hc) h
  refine ⟨?_, no_wait_cycle hs, ?_, ?_⟩
  · intro i m hm hheld
    exact no_wait_cycle hs i (.single ⟨m, hm, hheld⟩)
  · exact LockProgram.finishes hpro (fun _ _ _ hallow _ _ hc => ordered_code hallow hc)
      (fun _ _ => trivial) .heartBeatMonitorThread h
  · intro now look q hlook hdue
    refine sweepTurns_isSome (fun s hmem => ?_) hdue
    rw [hlook s hmem]
    exact initialized_waitTime

def timedConfig : Config := { Server.smallConfig with isHBTimeOutCheckEnable := 1 }

/-- The epoll thread accepts a second client and waits for the sweep, which kicks nobody. -/
theorem deadlock_free_second_client :
    ∃ es s, ((threads timedConfig).system.restrict NoTimedKick).Run es s ∧
      Waits s .epollThread .heartBeatMonitorThread ∧
        ¬ Relation.TransGen (Waits s) .epollThread .epollThread := by
  obtain ⟨s, hrun, hs⟩ := (threads timedConfig).run_of_play NoTimedKick
    (firstSweep timedConfig 3 ++
      .begin .epollThread (.callHandler (oneClient timedConfig) (some .epollEventAcceptHandler) 0
        (acceptEnv 5)) :: List.replicate 8 (.act .epollThread))
    (fun s => ((s .epollThread).request, (s .heartBeatMonitorThread).held))
    (some .timeQueueMutex, [.timeQueueMutex]) (by decide +kernel)
  obtain ⟨hreq, hheld⟩ := Prod.mk.inj hs
  exact ⟨_, s, hrun, ⟨.timeQueueMutex, hreq, by simp [hheld]⟩,
    (deadlock_free timedConfig hrun).2.1 .epollThread⟩

def kickConfig : Config :=
  { Server.smallConfig with isHBTimeOutCheckEnable := 1, isTimeOutKick := 1 }

/-- The sweep that kicks the client waits for `m_TimeQueueMutex`, which it holds itself. -/
theorem kick_locks_twice :
    ∃ s, (threads kickConfig).system.Run (firstSweep kickConfig 11) s ∧
      (s .heartBeatMonitorThread).request = some .timeQueueMutex ∧
        .timeQueueMutex ∈ (s .heartBeatMonitorThread).held := by
  obtain ⟨s, hrun, hs⟩ := (threads kickConfig).run_of_play (fun _ _ => True)
    (firstSweep kickConfig 11)
    (fun s => ((s .heartBeatMonitorThread).request, (s .heartBeatMonitorThread).held))
    (some .timeQueueMutex, [.timeQueueMutex]) (by decide +kernel)
  obtain ⟨hreq, hheld⟩ := Prod.mk.inj hs
  exact ⟨s, hrun.of_restrict, hreq, by simp [hheld]⟩

end Locking
end XiaoHGServer
