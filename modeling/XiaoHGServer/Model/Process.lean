import XiaoHGServer.Library.Transition
import XiaoHGServer.Model.Business
import XiaoHGServer.Model.Epoll

/-!
# The worker process as a transition system

The threads of a worker process interleave at the granularity of the events
below. An event runs a function of the source, or a part of it, as one step, and
`processEvent` is a sequence of `read` and `outError` events. This hides what may
come in between where a function gives back one mutex before it takes another:
`CloseConnectionToRecy` is one step, although it holds `m_TimeQueueMutex` first
and then `m_RecyConnQueueMutex`. It also hides that `m_RecvMsgList` has two
mutexes: a push by the epoll thread is a part of its `read`, and `take` is one
step of a worker. `RecvThreads` and `threads` have these operations apart.
`Enabled` is what the kernel and the thread's own place in its code allow. A step
to `none` is `exit(0)`.
-/

namespace XiaoHGServer

inductive Event
  /-- `EpollEventAcceptHandler`. -/
  | accept (env : HandlerEnv)
  /-- `EpollEventReadRequestHandler`. -/
  | read (c : ConnId) (env : HandlerEnv)
  /-- The error branch of `EpolWaitlProcessEvents`. -/
  | outError (c : ConnId)
  /-- `EpollEventWriteRequestHandler`. -/
  | write (c : ConnId) (env : SendEnv)
  /-- `ThreadFunc` takes the front of the receive list. -/
  | take
  /-- Worker `i` runs `RecvMsgHandleProc` up to the push of the reply. -/
  | handle (i : ℕ) (now : ℤ)
  /-- Worker `i` runs `PushSendMsgToSendListAndSem`. -/
  | push (i : ℕ) (now : ℤ)
  /-- Worker `i` runs `FreeMemory(pJobBuf)`. -/
  | release (i : ℕ)
  /-- `SendMsgThread` passes `sem_wait`. -/
  | semWait
  /-- `sem_wait` returns early with `EINTR`. -/
  | semIntr
  | sizeTest
  /-- One iteration of the loop of `SendMsgThread`. -/
  | iterate (env : SendEnv)
  /-- `CloseConnectionToRecy`, by any thread. -/
  | close (c : ConnId) (now : ℤ)
  /-- `DelayRecoveryConnectionThread` recycles one connection. -/
  | recycle (now : ℤ)
  /-- `ClearDelayRecoveryConnections` recycles one connection. -/
  | clear
  /-- One turn of the loop of `HeartBeatMonitorThread`. -/
  | monitor (now : ℤ)
  deriving DecidableEq, Repr

/-- What `recv` may return for the window of connection `c`. -/
def RecvRet.Legal (s : Server) (c : ConnId) : RecvRet → Prop
  | .data bytes =>
    bytes ≠ [] ∧ bytes.length ≤ (s.conn c).recv.recvMsgLen ∧
      (s.conn c).sockFd ∈ s.kernel.openFds
  | .error => True
  | _ => (s.conn c).sockFd ∈ s.kernel.openFds

/-- What `send` may return for `len` bytes on connection `c`. -/
def SendRet.Legal (s : Server) (c : ConnId) (len : ℕ) : SendRet → Prop
  | .accepted n => 1 ≤ n ∧ n ≤ len ∧ (s.conn c).sockFd ∈ s.kernel.openFds
  | .error => True
  | _ => (s.conn c).sockFd ∈ s.kernel.openFds

instance (s : Server) (c : ConnId) (r : RecvRet) : Decidable (r.Legal s c) := by
  cases r <;> simp only [RecvRet.Legal] <;> infer_instance

instance (s : Server) (c : ConnId) (len : ℕ) (r : SendRet) : Decidable (r.Legal s c len) := by
  cases r <;> simp only [SendRet.Legal] <;> infer_instance

namespace Server

/-- Connection `c` has been a client's at some time. -/
def IsClient (s : Server) (c : ConnId) : Prop :=
  (s.conn c).epoll.pcbReadHandler = some .epollEventReadRequestHandler

def stage (s : Server) (i : ℕ) : Option WorkerStage := s.workers[i]?.map Worker.stage

/-- What `send` may return to `SendMsgThread` for the message at its iterator. -/
def IterLegal (s : Server) (pos : ℕ) (ret : SendRet) : Prop :=
  match s.sendQueue.sendMsgList[pos]? with
  | none => True
  | some b => ret.Legal s (s.sendHeader b).pConn (u16 (pkgLength (s.sendQueue.mem.buffer b).pkg))

def Enabled (s : Server) : Event → Prop
  | .accept env => ∀ r ∈ env.accept, ∀ fd ∈ s.kernel.openFds, r ≠ .accepted fd
  | .read c env => s.IsClient c ∧ env.recv.Legal s c
  | .outError c => s.IsClient c
  | .write c env =>
    (s.conn c).epoll.pcbWriteHandler = some .epollEventWriteRequestHandler ∧
      has (s.conn c).epoll.epollEvents epollOut = true ∧
      env.ret.Legal s c (s.conn c).send.sendMsgLen
  | .take =>
    s.recvQueue.recvMsgList ≠ [] ∧ s.workers.length < s.config.procMsgRecvWorkThreadCount
  | .handle i _ => s.stage i = some .taken
  | .push i _ =>
    (match s.stage i with | some (.reply _) => True | _ => False) ∧
      (match s.sender with | .pass _ => False | _ => True)
  | .release i => s.stage i = some .handled
  | .semWait => s.sender = .semWait ∧ 0 < s.sendQueue.sendMsgPushEventSem
  | .semIntr => s.sender = .semWait
  | .sizeTest => s.sender = .sizeTest
  | .iterate env =>
    match s.sender with | .pass pos => s.IterLegal pos env.ret | _ => False
  | .close c _ => s.IsClient c
  | .recycle now => (s.lblRRTD now).isSome = true
  | .clear => s.lblRRTD2.isSome = true
  | .monitor now => (s.heartBeatMonitorIter now).isSome = true

instance (s : Server) (c : ConnId) : Decidable (s.IsClient c) :=
  inferInstanceAs (Decidable (_ = _))

instance (s : Server) (pos : ℕ) (ret : SendRet) : Decidable (s.IterLegal pos ret) := by
  unfold IterLegal
  split <;> infer_instance

instance (s : Server) (e : Event) : Decidable (s.Enabled e) := by
  cases e <;> simp only [Enabled] <;> first | infer_instance | (split <;> infer_instance) |
    exact @instDecidableAnd _ _ (by split <;> infer_instance) (by split <;> infer_instance)

/-- `ThreadFunc` pops the receive list. -/
def takeRecvMsg (s : Server) : Server :=
  match s.recvQueue.recvMsgList with
  | [] => s
  | b :: rest =>
    { s with
      recvQueue := { s.recvQueue with
        recvMsgList := rest
        recvMsgListSize := sub32 s.recvQueue.recvMsgListSize 1 }
      workers := s.workers ++ [⟨b, .taken⟩] }

def setStage (s : Server) (i : ℕ) (stage : WorkerStage) : Server :=
  { s with workers := s.workers.modify i fun w => { w with stage := stage } }

def workerHandle (s : Server) (i : ℕ) (now : ℤ) : Option Server :=
  match s.workers[i]? with
  | none => some s
  | some w =>
    match s.recvMsgHandleProc w.pJobBuf now with
    | none => none
    | some (s, none) => some (s.setStage i .handled)
    | some (s, some r) => some (s.setStage i (.reply r))

def workerPush (s : Server) (i : ℕ) (now : ℤ) : Option Server :=
  match s.stage i with
  | some (.reply r) => (s.pushSendMsgToSendListAndSem r now).map fun s => s.setStage i .handled
  | _ => some s

def workerRelease (s : Server) (i : ℕ) : Server :=
  match s.workers[i]? with
  | none => s
  | some w =>
    { s with
      recvQueue := { s.recvQueue with mem := s.recvQueue.mem.freeMemory (some w.pJobBuf) }
      workers := s.workers.eraseIdx i }

/-- The effect of an event; `none` when it ends the process. -/
def next (s : Server) : Event → Option Server
  | .accept env => s.epollEventAcceptHandler env
  | .read c env => some (s.epollEventReadRequestHandler c env.recv env.now env.currTime)
  | .outError c => some (s.addThrowSendMsgCount c (-1))
  | .write c env => s.epollEventWriteRequestHandler c env
  | .take => some s.takeRecvMsg
  | .handle i now => s.workerHandle i now
  | .push i now => s.workerPush i now
  | .release i => some (s.workerRelease i)
  | .semWait => some { s with
      sender := .sizeTest
      sendQueue := { s.sendQueue with
        sendMsgPushEventSem := s.sendQueue.sendMsgPushEventSem - 1 } }
  | .semIntr => some { s with sender := .sizeTest }
  | .sizeTest => some s.sendMsgThreadSizeTest
  | .iterate env =>
    match s.sender with
    | .pass pos => s.sendMsgThreadIter pos env
    | _ => some s
  | .close c now => some (s.closeConnectionToRecy c now)
  | .recycle now => s.lblRRTD now
  | .clear => s.lblRRTD2
  | .monitor now => s.heartBeatMonitorIter now

/-- The state after `CSocket::Init` has filled the connection pool. -/
def init (cfg : Config) (now : ℤ) (recvMem sendMem timerMem : BufId → ℕ → Byte) : Server where
  config := cfg
  conn c := if c < cfg.epollCreateConnectCount then newConnection.getOneToUse now else newConnection
  pool :=
    { connectionList := List.range cfg.epollCreateConnectCount
      freeConnectionList := List.range cfg.epollCreateConnectCount
      recyConnectionList := []
      totalConnectionCount := cfg.epollCreateConnectCount
      freeConnectionCount := cfg.epollCreateConnectCount
      delayRecoveryConnectionCount := 0
      onLineUserCount := 0
      listenSocketList := []
      clients := [] }
  timer := ⟨[], 0, 0, .empty timerMem⟩
  recvQueue := ⟨[], 0, .empty recvMem⟩
  sendQueue := ⟨[], 0, 0, 0, .empty sendMem⟩
  workers := []
  sender := .semWait
  kernel := ⟨[], []⟩
  iIsAccept4 := true

/-- `InitEpoll` gives a listening socket its connection. -/
def addListenSocket (s : Server) (fd : ℕ) (now : ℤ) : Server :=
  let c := s.pool.front
  let s := s.getConnection fd now
  let s := (s.modifyConn c fun k => { k with epoll := { k.epoll with
    pcbReadHandler := some .epollEventAcceptHandler } }).epollRegisterEvent c .add
      (epollIn ||| epollRdhup) .add
  { s with
    pool := { s.pool with listenSocketList := s.pool.listenSocketList ++ [c] }
    kernel := { s.kernel with openFds := fd :: s.kernel.openFds } }

/-- `CSocket::Init` with listening sockets `fds`. -/
def boot (cfg : Config) (now : ℤ) (recvMem sendMem timerMem : BufId → ℕ → Byte)
    (fds : List ℕ) : Server :=
  fds.foldl (fun s fd => s.addListenSocket fd now) (init cfg now recvMem sendMem timerMem)

/-- The states a worker process starts its event loop in. -/
def Booted (s : Server) : Prop :=
  ∃ cfg now recvMem sendMem timerMem fds, s = boot cfg now recvMem sendMem timerMem fds

theorem Booted.induction {P : Server → Prop} {s : Server} (h : Booted s)
    (h₀ : ∀ cfg now recvMem sendMem timerMem, P (init cfg now recvMem sendMem timerMem))
    (h₁ : ∀ s fd now, P s → P (s.addListenSocket fd now)) : P s := by
  obtain ⟨cfg, now, recvMem, sendMem, timerMem, fds, rfl⟩ := h
  have fold : ∀ (fds : List ℕ) (s : Server), P s →
      P (fds.foldl (fun s fd => s.addListenSocket fd now) s) := by
    intro fds
    induction fds with
    | nil => exact fun s hs => hs
    | cons fd fds ih => exact fun s hs => ih _ (h₁ s fd now hs)
  exact fold fds _ (h₀ cfg now recvMem sendMem timerMem)

/-- A small configuration for runs on fixed inputs: two connections, one worker thread,
no flood check, no heartbeat check, no waiting time in the recycling queue. -/
def smallConfig : Config where
  epollCreateConnectCount := 2
  delayRecoveryConnectionWaitTime := 0
  isHBTimeOutCheckEnable := 0
  waitTime := 20
  isTimeOutKick := 0
  floodAttackEnable := 0
  floodTimeInterval := 100
  floodKickCount := 10
  procMsgRecvWorkThreadCount := 1

/-- A process with one listening socket, started with cleared memory. -/
def smallBoot (cfg : Config) : Server := boot cfg 0 (fun _ _ => 0) (fun _ _ => 0) (fun _ _ => 0) [3]

theorem booted_smallBoot (cfg : Config) : Booted (smallBoot cfg) := ⟨cfg, 0, _, _, _, [3], rfl⟩

end Server

def HandlerEnv.idle : HandlerEnv := ⟨0, 0, .again, ⟨0, .again, true⟩, [], true, true⟩

/-- The events up to the point where a client's heartbeat reply has been cut after three bytes. -/
def suspendedReply : List Event :=
  [.accept { HandlerEnv.idle with accept := [.accepted 4] },
    .read 1 { HandlerEnv.idle with recv := .data [0, 8, 0, 0, 0, 0, 0, 0] },
    .take, .handle 0 0, .push 0 0, .semWait, .sizeTest, .iterate ⟨0, .accepted 3, true⟩]

def process : System Server Event := .ofNext Server.Booted Server.Enabled Server.next

theorem run_goto (scan : Server → Option Server) (e : Event)
    (he : ∀ s : Server, (scan s).isSome = true → s.Enabled e)
    (hnext : ∀ s : Server, s.next e = scan s) :
    ∀ (fuel : ℕ) {es : List Event} {s : Server}, process.Run es s →
      ∃ n, process.Run (es ++ List.replicate n e) (Server.goto scan fuel s)
  | 0, es, s, h => ⟨0, by simpa [Server.goto] using h⟩
  | fuel + 1, es, s, h => by
    unfold Server.goto
    cases hs : scan s with
    | none => exact ⟨0, by simpa using h⟩
    | some t =>
      have hstep : process.step s e t := ⟨he s (by rw [hs]; rfl), by rw [hnext, hs]⟩
      obtain ⟨n, hn⟩ := run_goto scan e he hnext fuel (h.step hstep)
      exact ⟨n + 1, by simpa [List.replicate_succ] using hn⟩

/-- A pass of `DelayRecoveryConnectionThread` is a run of `recycle` events. -/
theorem run_delayRecoveryConnectionPass {es : List Event} {s : Server} (h : process.Run es s)
    (now : ℤ) : ∃ n, process.Run (es ++ List.replicate n (.recycle now))
      (s.delayRecoveryConnectionPass now) := by
  unfold Server.delayRecoveryConnectionPass
  split_ifs
  · exact run_goto (fun s => s.lblRRTD now) (.recycle now) (fun _ he => he) (fun _ => rfl) _ h
  · exact ⟨0, by simpa using h⟩

/-- `ClearDelayRecoveryConnections` is a run of `clear` events. -/
theorem run_clearDelayRecoveryConnections {es : List Event} {s : Server} (h : process.Run es s) :
    ∃ n, process.Run (es ++ List.replicate n .clear) s.clearDelayRecoveryConnections := by
  unfold Server.clearDelayRecoveryConnections
  split_ifs
  · exact run_goto Server.lblRRTD2 .clear (fun _ he => he) (fun _ => rfl) _ h
  · exact ⟨0, by simpa using h⟩

/-- A played list of events is a run, here with only the steps that meet `allow`; `f` is what is
read off its last state. -/
theorem process_run_of_play {α : Type*} (allow : Server → Event → Prop)
    [∀ s e, Decidable (allow s e)] (cfg : Config) (es : List Event) (f : Server → α) (v : α)
    (h : (System.play (fun s e => allow s e ∧ s.Enabled e) Server.next es
      (Server.smallBoot cfg)).map f = some v) :
    ∃ s, (process.restrict allow).Run es s ∧ f s = v := by
  obtain ⟨s, hs, hv⟩ := Option.map_eq_some_iff.mp h
  refine ⟨s, ?_, hv⟩
  rw [process, System.restrict_ofNext]
  exact System.run_of_play (Server.booted_smallBoot cfg) hs

theorem process_record_of_play {α β : Type*} (allow : Server → Event → Prop)
    [∀ s e, Decidable (allow s e)] (report : Server → Event → List β) (cfg : Config)
    (es : List Event) (f : Server × List β → α) (v : α)
    (h : (System.play (fun p e => allow p.1 e ∧ p.1.Enabled e)
      (fun p e => (p.1.next e).map fun s => (s, report p.1 e ++ p.2)) es
      (Server.smallBoot cfg, [])).map f = some v) :
    ∃ p, ((process.restrict allow).record report).Run es p ∧ f p = v :=
  System.recorded_run_of_play (Server.booted_smallBoot cfg) h

end XiaoHGServer
