import XiaoHGServer.Library.LockOrder
import XiaoHGServer.Model.Business
import XiaoHGServer.Model.Epoll

/-!
# The mutexes of a worker process

For each function that locks a mutex or calls one that does, the operations on
mutexes it performs, under its name in the source. The branches read a state that
is passed in; where other threads may have run since, a further state is passed.
A `Job` is what a thread does between two points where it holds no mutex, with
all the states it reads on the way.
-/

namespace XiaoHGServer

inductive Mutex
  | logicProcessMutex (c : ConnId)
  | sendMsgListMutex
  | timeQueueMutex
  | recyConnQueueMutex
  | connectionMutex
  | recvMsgListMutex
  | pThreadMutex
  | logMutex
  deriving DecidableEq, Repr

/-- `m_WaitTime = m_WaitTime > 5 ? m_WaitTime : 5` in `CSocket::Init`. -/
def Config.initialized (cfg : Config) : Config :=
  { cfg with waitTime := if cfg.waitTime > 5 then cfg.waitTime else 5 }

namespace Locking

open LockOp (critical)

abbrev Code := List (LockOp Mutex)

def log : Code := critical .logMutex []

def logExit : Code := log ++ [.exit]

def putOneToFree (k : Connection) : Code :=
  log ++ ((if k.recv.pRecvMsgMemPointer ≠ none then log else []) ++
    if k.send.pSendMsgMemPointer ≠ none then log else [])

def getConnection : Code := log ++ critical .connectionMutex []

def freeConnection (k : Connection) : Code := log ++ critical .connectionMutex (putOneToFree k)

def closeConnectionImmediately (k : Connection) : Code := log ++ freeConnection k

def pushConnectToRecyQueue : Code := log ++ critical .recyConnQueueMutex []

def addToTimerList : Code := log ++ critical .timeQueueMutex []

def deleteFromTimerQueue : Code := log ++ critical .timeQueueMutex []

def closeConnectionToRecy (cfg : Config) : Code :=
  log ++ ((if cfg.isHBTimeOutCheckEnable = 1 then deleteFromTimerQueue else []) ++
    pushConnectToRecyQueue)

def setNonBlocking (ok : Bool) : Code := log ++ if ok then [] else logExit

def epollRegisterEvent (epollCtl : Bool) : Code := log ++ if epollCtl then [] else log

def acceptClient (s : Server) (fd : ℕ) (env : HandlerEnv) : Code :=
  if s.tooManyUsers then log
  else if s.poolExhausted then log
  else
    getConnection ++ ((if ¬ s.iIsAccept4 then setNonBlocking env.setNonBlocking else []) ++
      (epollRegisterEvent env.epollCtl ++
        if ¬ env.epollCtl then
          closeConnectionImmediately ((s.getConnection fd env.now).conn s.pool.front) ++ logExit
        else if s.config.isHBTimeOutCheckEnable = 1 then addToTimerList
        else []))

def acceptLoop (s : Server) (env : HandlerEnv) : List AcceptRet → Code
  | [] => []
  | .accepted fd :: _ => acceptClient s fd env
  | .nosys :: rets =>
    if s.iIsAccept4 then acceptLoop { s with iIsAccept4 := false } env rets else log
  | .error :: _ => log

def testFlood (s : Server) (c : ConnId) (currTime : ℕ) : Code :=
  log ++ if (s.testFlood c currTime).2 then log else []

/-- `if(m_FloodAttackEnable == 1) bIsFlood = TestFlood(pConn)`. -/
def floodCheck (s : Server) (c : ConnId) (currTime : ℕ) : Code :=
  if s.config.floodAttackEnable = 1 then testFlood s c currTime else []

def pushRecvMsgToRecvListAndCond : Code := critical .recvMsgListMutex []

def recvMsgPacketParseProc (bIsFlood : Bool) : Code :=
  if bIsFlood = false then pushRecvMsgToRecvListAndCond else []

/-- A whole packet is in: the flood check and `RecvMsgPacketParseProc`. -/
def packetComplete (s : Server) (c : ConnId) (currTime : ℕ) : Code :=
  floodCheck s c currTime ++ recvMsgPacketParseProc (s.floodCheck c false currTime).2

def recvMsgHeaderParseProc (s : Server) (c : ConnId) (currTime : ℕ) : Code :=
  let pkgLen := pkgLength (s.conn c).recv.dataHeadInfo
  if pkgLen < lenPkgHeader ∨ pkgMaxLength < pkgLen then []
  else if pkgLen = lenPkgHeader then packetComplete (s.allocRecvBuffer c pkgLen) c currTime
  else []

/-- The state machine of `EpollEventReadRequestHandler` after `n` received bytes. -/
def recvAdvance (s : Server) (c : ConnId) (n : ℕ) (currTime : ℕ) : Code :=
  let k := (s.conn c).recv
  match k.recvMsgCurStatus with
  | .pkgHdInit => if n = lenPkgHeader then recvMsgHeaderParseProc s c currTime else []
  | .pkgHdRecving => if k.recvMsgLen = n then recvMsgHeaderParseProc s c currTime else []
  | .pkgBdInit => if n = k.recvMsgLen then packetComplete s c currTime else []
  | .pkgBdRecving => if k.recvMsgLen = n then packetComplete s c currTime else []

def recvMsgProc (cfg : Config) : RecvRet → Code
  | .data _ => []
  | .eof => log ++ closeConnectionToRecy cfg
  | .again => log
  | .intr => log
  | .error => log ++ closeConnectionToRecy cfg

def epollEventReadRequestHandler (s : Server) (c : ConnId) (ret : RecvRet) (now : ℤ)
    (currTime : ℕ) : Code :=
  recvMsgProc s.config ret ++
    match s.recvMsgProc c ret now with
    | (_, none) => log
    | (s, some n) =>
      recvAdvance s c n currTime ++
        if (s.recvAdvance c n currTime).2 then log ++ closeConnectionToRecy s.config else []

def sendMsgProc (env : SendEnv) : Code :=
  (List.range env.intr).flatMap (fun _ => log) ++
    match env.ret with
    | .accepted _ => []
    | _ => log

/-- `sem_post(&g_SendMsgPushEventSem)`, whose failure ends the process. -/
def semPost (s : Server) : Code :=
  if s.sendQueue.sendMsgPushEventSem = semValueMax then logExit else []

/-- `EpollRegisterEvent`, whose failure ends the process here. -/
def epollRegisterOrExit (epollCtl : Bool) : Code :=
  epollRegisterEvent epollCtl ++ if epollCtl then [] else logExit

def epollEventWriteRequestHandler (s : Server) (c : ConnId) (env : SendEnv) : Code :=
  let k := (s.conn c).send
  let sent := Server.sendResult env.ret
  sendMsgProc env ++
    if sent > 0 ∧ sent ≠ k.sendMsgLen then []
    else if sent = -1 then log
    else
      (if sent > 0 ∧ sent = k.sendMsgLen then epollRegisterOrExit env.epollCtl else []) ++
        semPost s

def callHandler (s : Server) (handler : Option Handler) (c : ConnId) (env : HandlerEnv) : Code :=
  match handler with
  | none => [.exit]
  | some .epollEventAcceptHandler => acceptLoop s env env.accept
  | some .epollEventReadRequestHandler =>
    epollEventReadRequestHandler s c env.recv env.now env.currTime
  | some .epollEventWriteRequestHandler => epollEventWriteRequestHandler s c env.send

/-- `PushSendMsgToSendListAndSem` for a message to connection `c`. -/
def pushSendMsgToSendListAndSem (s : Server) (c : ConnId) : Code :=
  critical .sendMsgListMutex
    ((if s.sendQueue.sendMsgListSize > maxSendQueueCount then log else []) ++
      ((if (s.conn c).sendMsgListCount > maxEachConnSendCount then
        log ++ closeConnectionToRecy s.config else []) ++ semPost s))

/-- What each handler of `CBusinessCtl` does with a well-formed packet: it locks
`logicProcessMutex` of the connection, logs, and pushes a reply, in state `s`. -/
def serve (s : Server) (c : ConnId) : Code :=
  critical (.logicProcessMutex c) (log ++ pushSendMsgToSendListAndSem s c)

def handleRegister (s : Server) (c : ConnId) (hasBody : Bool) (iBodyLength : ℕ) : Code :=
  if hasBody = false ∨ sizeofRegister ≠ iBodyLength then log else serve s c

def handleLogin (s : Server) (c : ConnId) (hasBody : Bool) (iBodyLength : ℕ) : Code :=
  if hasBody = false ∨ sizeofLogin ≠ iBodyLength then log else serve s c

def handleHeartbeat (s : Server) (c : ConnId) (iBodyLength : ℕ) : Code :=
  if iBodyLength ≠ 0 then log else serve s c

def callLogicHandler (s : Server) (handler : LogicHandler) (c : ConnId) (hasBody : Bool)
    (iBodyLength : ℕ) : Code :=
  match handler with
  | .handleHeartbeat => handleHeartbeat s c iBodyLength
  | .handleRegister => handleRegister s c hasBody iBodyLength
  | .handleLogin => handleLogin s c hasBody iBodyLength

/-- The part of `RecvMsgHandleProc` after the CRC check; the reply is pushed in state `s'`. -/
def dispatch (s s' : Server) (b : BufId) (hasBody : Bool) (code pkgLen : ℕ) : Code :=
  let h := s.recvHeader b
  if (s.conn h.pConn).currSequence ≠ h.currSequence then logExit
  else if code ≥ totalCommands then logExit
  else
    match statusHandler.getD code none with
    | none => logExit
    | some handler => callLogicHandler s' handler h.pConn hasBody (u16 (pkgLen - lenPkgHeader))

def recvMsgHandleProc (s s' : Server) (b : BufId) : Code :=
  let pkg := s.recvPkg b
  let pkgLen := pkgLength pkg
  if lenPkgHeader = pkgLen then
    if iCrc32 pkg ≠ 0 then logExit else dispatch s s' b false (msgCode pkg) pkgLen
  else if getCRC (pkgBody pkg) ≠ ntohl (iCrc32 pkg) then logExit
  else dispatch s s' b true (msgCode pkg) pkgLen

/-- One turn of the loop of `ThreadFunc`. Each of its `waits` calls of `pthread_cond_wait`
unlocks `m_pThreadMutex` and has locked it again when it returns. -/
def threadFunc (waits : ℕ) (s s' : Server) (b : BufId) : Code :=
  (List.range (waits + 1)).flatMap (fun _ => critical .pThreadMutex []) ++ recvMsgHandleProc s s' b

/-- The rest of a message is left to the epoll events. -/
def suspendSend (env : SendEnv) : Code := epollRegisterOrExit env.epollCtl

def sendMsgThreadIter (s : Server) (b : BufId) (env : SendEnv) : Code :=
  let h := s.sendHeader b
  let sent := Server.sendResult env.ret
  if (s.conn h.pConn).currSequence ≠ h.currSequence then []
  else if (s.conn h.pConn).send.throwSendMsgCount > 0 then []
  else sendMsgProc env ++
    if sent > 0 then
      if sent = u16 (pkgLength (s.sendQueue.mem.buffer b).pkg) then [] else suspendSend env
    else if sent = 0 then log
    else if sent = -1 then suspendSend env
    else log

/-- One connection recycled by `DelayRecoveryConnectionThread`. -/
def lblRRTD (k : Connection) : Code :=
  (if k.send.throwSendMsgCount > 0 then log else []) ++ freeConnection k

def removeTimerQueueFirstTime : Code := log

def getOverTimeTimer (q : TimerQueue) (now : ℤ) : Code :=
  log ++
    if q.currentHeartBeatListSize = 0 ∨ q.timerQueueMultiMap = [] then []
    else if q.getTimerListEarliestTime ≤ now then removeTimerQueueFirstTime
    else []

def heartBeatTimeOutCheck (s : Server) (h : MsgHeader) (now : ℤ) : Code :=
  log ++
    if h.currSequence = (s.conn h.pConn).currSequence then
      if s.config.isTimeOutKick = 1 then closeConnectionToRecy s.config
      else if now - (s.conn h.pConn).lastHeartBeatTime > s.config.waitTime * 3 + 10 then
        log ++ closeConnectionToRecy s.config
      else []
    else []

/-- The header of the entry that `GetOverTimeTimer` takes out. -/
def overTimeHeader (s : Server) (now : ℤ) : Option MsgHeader :=
  match s.timer.getOverTimeTimer s.config now with
  | (_, none) => none
  | (q, some b) => some (q.mem.buffer b).header

/-- One turn of the `while` loop of `HeartBeatMonitorThread`, or its last test. -/
def heartBeatMonitorIter (s : Server) (now : ℤ) : Code :=
  getOverTimeTimer s.timer now ++
    match overTimeHeader s now with
    | none => []
    | some h => heartBeatTimeOutCheck s h now

def kicks (s : Server) (now : ℤ) : Bool := (overTimeHeader s now).any fun h => s.kicks h now

/-- The states in which the turns of a sweep over timer queue `q` begin, if each finds the
process as the next of `look` says; `none` when `look` is too short for the sweep. -/
def sweepTurns (now : ℤ) : List Server → TimerQueue → Option (List Server)
  | [], _ => none
  | s :: look, q =>
    let s := { s with timer := q }
    match s.heartBeatMonitorIter now with
    | none => some [s]
    | some s' => (sweepTurns now look s'.timer).map (s :: ·)

end Locking

open Locking

/-- What a thread does between two points where it holds no mutex. -/
inductive Job
  /-- `epoll_wait` fails, with `EINTR` or otherwise. -/
  | epollWaitFailed (intr : Bool)
  /-- A call of a handler by `EpolWaitlProcessEvents`. -/
  | callHandler (s : Server) (handler : Option Handler) (c : ConnId) (env : HandlerEnv)
  /-- A turn of the loop of `ThreadFunc` for message `b`. -/
  | threadFunc (waits : ℕ) (s s' : Server) (b : BufId)
  /-- A pass of `SendMsgThread` over these messages, in these states. -/
  | sendMsgThread (turns : List (Server × BufId × SendEnv))
  /-- A pass of `DelayRecoveryConnectionThread` that recycles these connections. -/
  | delayRecoveryConnectionThread (recycled : List Connection)
  /-- A sweep of `HeartBeatMonitorThread` over timer queue `q`. -/
  | heartBeatMonitorThread (now : ℤ) (look : List Server) (q : TimerQueue)

/-- The threads of a worker process with `n` worker threads. -/
inductive Thread (n : ℕ)
  | epollThread
  | workerThread (i : Fin n)
  | sendMsgThread
  | heartBeatMonitorThread
  | delayRecoveryConnectionThread
  deriving DecidableEq, Fintype

namespace Job

/-- The operations on mutexes; `none` for a sweep whose states are too few. -/
def code : Job → Option Code
  | .epollWaitFailed intr => some (if intr then log else logExit)
  | .callHandler s handler c env => some (Locking.callHandler s handler c env)
  | .threadFunc waits s s' b => some (Locking.threadFunc waits s s' b)
  | .sendMsgThread turns =>
    some (LockOp.critical .sendMsgListMutex
      (turns.flatMap fun t => sendMsgThreadIter t.1 t.2.1 t.2.2))
  | .delayRecoveryConnectionThread recycled =>
    some (LockOp.critical .recyConnQueueMutex (recycled.flatMap lblRRTD))
  | .heartBeatMonitorThread now look q =>
    (sweepTurns now look q).map fun turns =>
      LockOp.critical .timeQueueMutex (turns.flatMap fun s => heartBeatMonitorIter s now)

def reads : Job → List Server
  | .callHandler s _ _ _ => [s]
  | .threadFunc _ s s' _ => [s, s']
  | .sendMsgThread turns => turns.map Prod.fst
  | .heartBeatMonitorThread _ look _ => look
  | _ => []

def RunBy {n : ℕ} : Job → Thread n → Prop
  | .epollWaitFailed _, .epollThread => True
  | .callHandler _ _ _ _, .epollThread => True
  | .threadFunc _ _ _ _, .workerThread _ => True
  | .sendMsgThread _, .sendMsgThread => True
  | .delayRecoveryConnectionThread _, .delayRecoveryConnectionThread => True
  | .heartBeatMonitorThread _ _ _, .heartBeatMonitorThread => True
  | _, _ => False

instance {n : ℕ} (j : Job) (i : Thread n) : Decidable (j.RunBy i) := by
  cases j <;> cases i <;> simp only [RunBy] <;> infer_instance

end Job

/-- The threads of a worker process. Each logs when it starts; the configuration does not
change. -/
def threads (cfg : Config) :
    LockProgram (Thread cfg.procMsgRecvWorkThreadCount) Mutex Job where
  prologue _ := log
  runs i j := j.RunBy i ∧ ∀ s ∈ j.reads, s.config = cfg.initialized
  code := Job.code

instance (cfg : Config) (i : Thread cfg.procMsgRecvWorkThreadCount) (j : Job) :
    Decidable ((threads cfg).runs i j) := inferInstanceAs (Decidable (_ ∧ _))

end XiaoHGServer
